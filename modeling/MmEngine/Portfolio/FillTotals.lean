/-
# What a ledger holds of the fills it is handed

Per symbol, a ledger's position and fees move by the fills it books and by nothing else. A
fill is booked, refused with an error that says so, or taken for a duplicate; and only a
fill with the identity of one handed over before is taken for a duplicate. So if no two
fills share an identity and none is refused, the ledger holds the sum of what it is
handed, however many fills its rings have forgotten.
-/

import MmEngine.Portfolio.LostFill
import MmEngine.Portfolio.TradeRings

namespace MmEngine.Portfolio

open MmEngine.Exchange

/-- A fill event as an account is handed it. -/
def Fill.ofEvent (fill : FillEvent) : Fill :=
  ⟨fill.tradeId, fill.side, fill.price, fill.quantity, fill.fee⟩

namespace PositionAccount

/-- A trade that the account takes for a duplicate is one that its ring has accepted. -/
theorem mem_of_screenFill_eq_duplicate {account : PositionAccount} {history : List TradeId}
    (h : SeenTrades.Tracks account.seen history) {tradeId : TradeId} {price : Px} {quantity : Qty}
    {fee : Notional} (hscreen : account.screenFill tradeId price quantity fee = .duplicateFill) :
    tradeId ∈ history := by
  have hheld : account.seen.contains tradeId = true := by
    by_contra hunseen
    rw [screenFill] at hscreen
    split_ifs at hscreen
  rw [SeenTrades.contains_iff] at hheld
  exact List.mem_of_mem_drop (h.mostRecent.perm.mem_iff.mp hheld)

/-- The account after a booked fill, as far as the books go. -/
structure Booked (account : PositionAccount) (fill : Fill) (after : PositionAccount) : Prop where
  position : after.position.raw = account.position.raw + fill.signedRaw
  fees : after.fees.raw = account.fees.raw + fill.fee.raw
  seen : ∀ history, SeenTrades.Tracks account.seen history →
    SeenTrades.Tracks after.seen (history ++ [fill.tradeId])

/-- A fill is booked, or leaves the account as it was: with an error that says that it is
missing, or as the duplicate of a trade in the ring. -/
theorem take_booked (account : PositionAccount) (fill : Fill) :
    ((account.take fill).1.error = .none ∧ account.Booked fill (account.take fill).2) ∨
      ((account.take fill).2 = account ∧ (account.take fill).1.error ≠ .none ∧
        ((account.take fill).1.error = .duplicateFill → ∀ history,
          SeenTrades.Tracks account.seen history → fill.tradeId ∈ history)) := by
  rw [take, applyFill]
  split
  · rename_i hscreen
    obtain ⟨-, hacceptable, hunseen⟩ := screenFill_eq_none_iff.mp hscreen
    split
    · exact .inr ⟨rfl, by simp, by simp⟩
    · rename_i hcommit
      obtain ⟨newPosition, change, cost, newRealized, newFees, hposition, -, -, -, hfees, rfl⟩ :=
        commitFill_eq_some hcommit
      refine .inl ⟨rfl, ?_, hfees, fun history hseen => ?_⟩
      · rw [signedFill_raw hacceptable.quantity_pos] at hposition
        exact hposition
      · exact hseen.accepted (by simp [SeenTrades.insertCall, hunseen])
  · rename_i hscreen
    refine .inr ⟨rfl, hscreen, fun hduplicate history hseen => ?_⟩
    exact mem_of_screenFill_eq_duplicate hseen hduplicate

/-- A mark leaves the books alone. -/
theorem applyMark_books (account : PositionAccount) (mark : MarkPrice) (now maxAge : Nanos) :
    (account.applyMark mark now maxAge).2.position = account.position ∧
      (account.applyMark mark now maxAge).2.fees = account.fees ∧
      (account.applyMark mark now maxAge).2.seen = account.seen := by
  rcases applyMark_cases account mark now maxAge with ⟨-, hrefused⟩ | ⟨-, haccepted⟩
  · obtain ⟨lastMark, hafter⟩ := hrefused.after_eq
    rw [hafter]
    exact ⟨rfl, rfl, rfl⟩
  · obtain ⟨value, -, -, hafter⟩ := haccepted.after_eq
    rw [hafter]
    exact ⟨rfl, rfl, rfl⟩

end PositionAccount

namespace PortfolioAccountant

/-- The position and the fees of a symbol. -/
def totalsOf (accountant : PortfolioAccountant) (symbol : Symbol) : Int × Int :=
  ((accountant.find symbol).map fun account => (account.position.raw, account.fees.raw)).getD 0

/-- What a fill adds to the position and the fees of a symbol. -/
def fillTotals (symbol : Symbol) (fill : FillEvent) : Int × Int :=
  if fill.symbol = symbol then ((Fill.ofEvent fill).signedRaw, fill.fee.raw) else 0

/-- The rings hold trades among the given ones only. -/
def RemembersOnly (ids : List TradeId) (accountant : PortfolioAccountant) : Prop :=
  ∀ symbol account, accountant.find symbol = some account →
    ∃ history, SeenTrades.Tracks account.seen history ∧ history ⊆ ids

theorem totalsOf_of_find {accountant : PortfolioAccountant} {symbol : Symbol}
    {account : PositionAccount} (h : accountant.find symbol = some account) :
    accountant.totalsOf symbol = (account.position.raw, account.fees.raw) := by
  rw [totalsOf, h]
  rfl

theorem RemembersOnly.mono {accountant : PortfolioAccountant} {ids more : List TradeId}
    (h : accountant.RemembersOnly ids) (hmore : ids ⊆ more) : accountant.RemembersOnly more := by
  intro symbol account hfind
  obtain ⟨history, htracks, hsub⟩ := h symbol account hfind
  exact ⟨history, htracks, List.Subset.trans hsub hmore⟩

/-- Two accountants whose accounts keep the same books. -/
structure SameBooks (accountant after : PortfolioAccountant) : Prop where
  totals : ∀ symbol, after.totalsOf symbol = accountant.totalsOf symbol
  remembers : ∀ ids, accountant.RemembersOnly ids → after.RemembersOnly ids

theorem SameBooks.of_find {accountant after : PortfolioAccountant}
    (h : ∀ symbol, after.find symbol = accountant.find symbol) : SameBooks accountant after where
  totals symbol := by rw [totalsOf, totalsOf, h]
  remembers ids hids symbol account hfind := hids symbol account (h symbol ▸ hfind)

theorem SameBooks.trans {accountant middle after : PortfolioAccountant}
    (h : SameBooks accountant middle) (h' : SameBooks middle after) :
    SameBooks accountant after where
  totals symbol := (h'.totals symbol).trans (h.totals symbol)
  remembers ids hids := h'.remembers ids (h.remembers ids hids)

/-- Writing back an account whose books are the same. -/
theorem SameBooks.put {accountant : PortfolioAccountant} {symbol : Symbol}
    {known account : PositionAccount} (hfind : accountant.find symbol = some known)
    (hsymbol : account.symbol = symbol) (hposition : account.position = known.position)
    (hfees : account.fees = known.fees) (hseen : account.seen = known.seen) :
    SameBooks accountant (accountant.put symbol account) where
  totals other := by
    by_cases hother : other = symbol
    · subst hother
      rw [totalsOf_of_find (find_put_self hfind hsymbol), totalsOf_of_find hfind, hposition, hfees]
    · rw [totalsOf, totalsOf, find_put_other hsymbol hother]
  remembers ids hids other found hfound := by
    by_cases hother : other = symbol
    · subst hother
      rw [find_put_self hfind hsymbol] at hfound
      cases hfound
      rw [hseen]
      exact hids other known hfind
    · exact hids other found (find_put_other hsymbol hother ▸ hfound)

/-- Only fills and restored ledgers move the books. -/
theorem sameBooks_step {op : Op} (hfill : ∀ fill, op ≠ .fill fill)
    (hrestore : ∀ state, op ≠ .restore state) (accountant : PortfolioAccountant) :
    SameBooks accountant (step op accountant) := by
  cases op with
  | fill fill => exact absurd rfl (hfill fill)
  | restore state => exact absurd rfl (hrestore state)
  | registerSymbol symbol =>
      show SameBooks accountant (accountant.registerSymbol symbol).2
      unfold registerSymbol
      split
      · exact .of_find fun _ => rfl
      split
      · exact .of_find fun _ => rfl
      split
      · exact .of_find fun _ => rfl
      · rename_i hunknown _
        -- The new account holds nothing and has seen nothing.
        have hfind : ∀ other account, ({ accountant with accounts := accountant.accounts ++
            [{ symbol := symbol }] } : PortfolioAccountant).find other = some account →
              accountant.find other = some account ∨
                accountant.find other = none ∧ account = { symbol := symbol } := by
          intro other account hfound
          rw [find, List.find?_append] at hfound
          rcases Option.or_eq_some_iff.mp hfound with hold | ⟨hnone, hnew⟩
          · exact .inl hold
          · exact .inr ⟨hnone, List.mem_singleton.mp (List.mem_of_find?_eq_some hnew)⟩
        constructor
        · intro other
          cases hfound : ({ accountant with accounts := accountant.accounts ++
              [{ symbol := symbol }] } : PortfolioAccountant).find other with
          | none =>
              have hnone : accountant.find other = none := by
                rw [find, List.find?_append, Option.or_eq_none_iff] at hfound
                exact hfound.1
              rw [totalsOf, totalsOf, hfound, hnone]
          | some account =>
              rcases hfind other account hfound with hold | ⟨hnone, rfl⟩
              · rw [totalsOf_of_find hfound, totalsOf_of_find hold]
              · rw [totalsOf, totalsOf, hfound, hnone]
                rfl
        · intro ids hids other account hfound
          rcases hfind other account hfound with hold | ⟨-, rfl⟩
          · exact hids other account hold
          · exact ⟨[], SeenTrades.tracks_empty, List.nil_subset _⟩
  | mark mark now =>
      show SameBooks accountant (accountant.onMark mark now).2
      cases hfind : accountant.find mark.symbol with
      | none =>
          simp only [onMark, hfind]
          exact .of_find fun _ => rfl
      | some account =>
          simp only [onMark, hfind]
          obtain ⟨hposition, hfees, hseen⟩ :=
            account.applyMark_books mark now accountant.config.maxMarkAgeNs
          have hsymbol := (account.applyMark_identity mark now accountant.config.maxMarkAgeNs).1
          exact (SameBooks.put hfind (hsymbol.trans (symbol_of_find hfind)) hposition hfees
            hseen).trans (.of_find fun _ => rfl)
  | balance update now =>
      refine .of_find fun symbol => ?_
      simp only [step, onBalance]
      split_ifs <;> rfl
  | clearFault symbol =>
      simp only [step, clearFault]
      split
      · exact .of_find fun _ => rfl
      · rename_i account hfind
        have hsymbol : account.clearFault.symbol = symbol :=
          (symbol_of_find hfind : account.symbol = symbol)
        exact .put hfind hsymbol rfl rfl rfl

/-- The account that a fill leaves behind, as far as the books go. -/
theorem filled_books (account : PositionAccount) (fill : FillEvent) :
    ((account.take (.ofEvent fill)).1.error = .none ∧
        account.Booked (.ofEvent fill) (filled account fill)) ∨
      ((account.take (.ofEvent fill)).1.error ≠ .none ∧
        (filled account fill).position = account.position ∧
        (filled account fill).fees = account.fees ∧ (filled account fill).seen = account.seen ∧
        ((account.take (.ofEvent fill)).1.error = .duplicateFill → ∀ history,
          SeenTrades.Tracks account.seen history → fill.tradeId ∈ history)) := by
  have hfilled : filled account fill =
      if (account.take (.ofEvent fill)).1.error = .arithmeticOverflow then
        (account.take (.ofEvent fill)).2.fault
      else (account.take (.ofEvent fill)).2 := rfl
  rw [hfilled]
  rcases account.take_booked (.ofEvent fill) with ⟨hnone, hbooked⟩ | ⟨hsame, herror, hduplicate⟩
  · rw [if_neg (by simp [hnone])]
    exact .inl ⟨hnone, hbooked⟩
  · rw [hsame]
    split
    · exact .inr ⟨herror, rfl, rfl, rfl, hduplicate⟩
    · exact .inr ⟨herror, rfl, rfl, rfl, hduplicate⟩

/-- A fill that is refused moves nothing, and one that is not moves the books of its symbol by
what it is for. Only a known trade is refused as a duplicate. -/
theorem onFill_books {accountant : PortfolioAccountant} {ids : List TradeId}
    (h : accountant.RemembersOnly ids) (fill : FillEvent) :
    (accountant.onFill fill).2.RemembersOnly (ids ++ [fill.tradeId]) ∧
      ((accountant.onFill fill).1.error = .duplicateFill → fill.tradeId ∈ ids) ∧
      ∀ symbol, (accountant.onFill fill).2.totalsOf symbol = accountant.totalsOf symbol +
        if (accountant.onFill fill).1.error = .none then fillTotals symbol fill else 0 := by
  have hwider : accountant.RemembersOnly (ids ++ [fill.tradeId]) :=
    h.mono (List.subset_append_left _ _)
  cases hfind : accountant.find fill.symbol with
  | none =>
      have hrefused : accountant.onFill fill = ({ error := .unknownSymbol },
          { accountant with metrics := { accountant.metrics with
              rejectedFills := accountant.metrics.rejectedFills + 1 } }) := by
        simp only [onFill, hfind]
      rw [hrefused]
      refine ⟨hwider, by simp, fun symbol => ?_⟩
      rw [if_neg (by simp), add_zero]
      rfl
  | some account =>
      have hself := find_onFill hfind
      have hother : ∀ symbol, symbol ≠ fill.symbol →
          (accountant.onFill fill).2.find symbol = accountant.find symbol := by
        intro symbol hne
        have hsymbol := (filled_symbol account fill).trans (symbol_of_find hfind)
        rw [find, (onFill_of_find hfind).2]
        exact find_put_other hsymbol hne
      have herror : (accountant.onFill fill).1.error = (account.take (.ofEvent fill)).1.error :=
        congrArg FillOutcome.error (onFill_of_find hfind).1
      rw [herror]
      rcases filled_books account fill with
        ⟨hnone, hbooked⟩ | ⟨hrefused, hposition, hfees, hseen, hduplicate⟩
      · refine ⟨?_, by simp [hnone], ?_⟩
        · intro symbol found hfound
          by_cases hsymbol : symbol = fill.symbol
          · subst hsymbol
            rw [hself] at hfound
            cases hfound
            obtain ⟨history, htracks, hsub⟩ := h fill.symbol account hfind
            refine ⟨history ++ [fill.tradeId], hbooked.seen history htracks, ?_⟩
            exact List.append_subset.mpr
              ⟨List.Subset.trans hsub (List.subset_append_left _ _), List.subset_append_right _ _⟩
          · exact hwider symbol found (hother symbol hsymbol ▸ hfound)
        · intro symbol
          rw [if_pos hnone, fillTotals]
          by_cases hsymbol : symbol = fill.symbol
          · subst hsymbol
            rw [totalsOf_of_find hself, totalsOf_of_find hfind, if_pos rfl, hbooked.position,
              hbooked.fees]
            rfl
          · rw [if_neg (Ne.symm hsymbol), add_zero, totalsOf, totalsOf, hother symbol hsymbol]
      · have hsame : SameBooks accountant (accountant.onFill fill).2 := by
          have hsymbol := (filled_symbol account fill).trans (symbol_of_find hfind)
          refine (SameBooks.put hfind hsymbol hposition hfees hseen).trans
              (.of_find fun symbol => ?_)
          rw [find, (onFill_of_find hfind).2]
          rfl
        refine ⟨hsame.remembers _ hwider, fun hknown => ?_, fun symbol => ?_⟩
        · obtain ⟨history, htracks, hsub⟩ := h fill.symbol account hfind
          exact hsub (hduplicate hknown history htracks)
        · rw [if_neg hrefused, add_zero]
          exact hsame.totals symbol

end PortfolioAccountant

end MmEngine.Portfolio
