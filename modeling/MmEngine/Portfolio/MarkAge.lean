/-
# The age of a mark

A mark is refused when it is too old at the moment it arrives. Nothing looks at its
age again: an account that was valued once stays valued, however long the market is
silent, and a snapshot taken later still reports a determinate PnL. What saves a
reading is therefore a clock that does not outrun the marks in use.

The world below adds to the accountant the time, and a record of the last mark each
symbol was valued by, which no operation reads.
-/

import MmEngine.Portfolio.Recovery

namespace MmEngine.Portfolio

open MmEngine.Exchange

namespace PositionAccount

/-- The account holds a position whose value it vouches for. -/
def Priced (account : PositionAccount) : Prop :=
  account.position.raw ≠ 0 ∧ account.unrealizedValid = true

instance (account : PositionAccount) : Decidable account.Priced := instDecidableAnd

/-- The unrealized PnL of the account is the one this mark gives. -/
def ValuedBy (account : PositionAccount) (mark : MarkPrice) : Prop :=
  realizedOf account.averagePrice (mark.forPosition account.position) account.position
    account.position.isPositive = some account.unrealized

instance (account : PositionAccount) (mark : MarkPrice) : Decidable (account.ValuedBy mark) :=
  inferInstanceAs (Decidable (_ = _))

end PositionAccount

/-- An accountant in time, with the last mark accepted for each symbol. -/
structure MarkedWorld where
  accountant : PortfolioAccountant
  now : Nanos
  lastMark : Symbol → Option MarkPrice

namespace MarkedWorld

/-- Nothing accounted for yet. -/
def start (config : AccountingConfig) (now : Nanos) : MarkedWorld where
  accountant := .new config
  now := now
  lastMark := fun _ => none

/-- What can happen: time passes, or the accountant is called. -/
inductive Op
  | advance (elapsed : Nat)
  | registerSymbol (symbol : Symbol)
  | fill (fill : FillEvent)
  | mark (mark : MarkPrice)
  | balance (update : BalanceUpdateEvent)
  | restore (state : PortfolioAccountant.RecoveryState)
  | clearFault (symbol : Symbol)

/-- The record after a mark: an accepted one becomes the last of its symbol. -/
def recordMark (w : MarkedWorld) (mark : MarkPrice) : Symbol → Option MarkPrice :=
  if (w.accountant.onMark mark w.now).1 = .none then
    Function.update w.lastMark mark.symbol (some mark)
  else w.lastMark

def step (op : Op) (w : MarkedWorld) : MarkedWorld :=
  match op with
  | .advance elapsed => { w with now := w.now + elapsed }
  | .registerSymbol symbol => { w with accountant := (w.accountant.registerSymbol symbol).2 }
  | .fill fill => { w with accountant := (w.accountant.onFill fill).2 }
  | .mark mark =>
      { w with
        accountant := (w.accountant.onMark mark w.now).2
        lastMark := w.recordMark mark }
  | .balance update => { w with accountant := (w.accountant.onBalance update w.now).2 }
  | .restore state => { w with accountant := (w.accountant.restore state).2 }
  | .clearFault symbol => { w with accountant := w.accountant.clearFault symbol }

/-- The mark is within the age limit at a time; one without a time has no age. -/
def Recent (maxAge now : Nanos) (mark : MarkPrice) : Prop :=
  mark.asOfNs ≠ 0 → now - mark.asOfNs ≤ maxAge

instance (maxAge now : Nanos) (mark : MarkPrice) : Decidable (Recent maxAge now mark) :=
  inferInstanceAs (Decidable (_ → _))

/-- No loss limit is judged on a stale mark: when the snapshot says that the PnL is
determinate, every open position is valued by a mark that is recent now. -/
def FreshlyMarked (w : MarkedWorld) : Prop :=
  (w.accountant.portfolioSnapshot w.now).pnlDeterminate = true →
    ∀ account ∈ w.accountant.accounts, account.position.raw ≠ 0 →
      ∃ mark ∈ w.lastMark account.symbol, account.ValuedBy mark ∧
        Recent w.accountant.config.maxMarkAgeNs w.now mark

instance (w : MarkedWorld) : Decidable w.FreshlyMarked := inferInstanceAs (Decidable (_ → _))

/-- The clock does not move past the age limit of a mark that values a position. -/
def Timely (op : Op) (w : MarkedWorld) : Prop :=
  match op with
  | .advance elapsed =>
      ∀ account ∈ w.accountant.accounts, account.Priced →
        ∀ mark ∈ w.lastMark account.symbol,
          Recent w.accountant.config.maxMarkAgeNs (w.now + elapsed) mark
  | _ => True

instance (op : Op) (w : MarkedWorld) : Decidable (Timely op w) :=
  match op with
  | .advance _ => List.decidableBAll _ _
  | .registerSymbol _ => .isTrue trivial
  | .fill _ => .isTrue trivial
  | .mark _ => .isTrue trivial
  | .balance _ => .isTrue trivial
  | .restore _ => .isTrue trivial
  | .clearFault _ => .isTrue trivial

end MarkedWorld

namespace PortfolioSnapshot

theorem addNet_pnlDeterminate (snapshot : PortfolioSnapshot) (account : PositionAccount) :
    (snapshot.addNet account).pnlDeterminate = snapshot.pnlDeterminate := by
  rw [addNet]
  repeat' split
  all_goals rfl

theorem addPnl_pnlDeterminate {snapshot : PortfolioSnapshot} {pnl : PnlBreakdown}
    (h : (snapshot.addPnl pnl).pnlDeterminate = true) :
    snapshot.pnlDeterminate = true ∧ pnl.unrealizedValid = true := by
  simp only [addPnl, unusable] at h
  repeat' split at h
  all_goals simp_all

/-- The PnL stays determinate only across accounts that vouch for their value. -/
theorem addAccount_pnlDeterminate {snapshot : PortfolioSnapshot} {account : PositionAccount}
    (h : (snapshot.addAccount account).pnlDeterminate = true) :
    snapshot.pnlDeterminate = true ∧ account.unrealizedValid = true := by
  rw [addAccount] at h
  split at h
  · cases h
  · simp only at h
    split at h
    · cases h
    · split at h
      · cases h
      · obtain ⟨hdeterminate, hvalid⟩ := addPnl_pnlDeterminate h
        rw [addNet_pnlDeterminate] at hdeterminate
        refine ⟨?_, hvalid⟩
        by_cases hflat : account.isFlat = true
        · simpa [hflat] using hdeterminate
        · simpa [hflat] using hdeterminate

theorem foldl_addAccount_pnlDeterminate {accounts : List PositionAccount}
    {snapshot : PortfolioSnapshot}
    (h : (accounts.foldl addAccount snapshot).pnlDeterminate = true) :
    snapshot.pnlDeterminate = true ∧ ∀ account ∈ accounts, account.unrealizedValid = true := by
  induction accounts generalizing snapshot with
  | nil => exact ⟨h, by simp⟩
  | cons account accounts ih =>
      obtain ⟨hnext, hrest⟩ := ih h
      obtain ⟨hfirst, hvalid⟩ := addAccount_pnlDeterminate hnext
      refine ⟨hfirst, ?_⟩
      simpa [hvalid] using hrest

theorem close_pnlDeterminate {snapshot : PortfolioSnapshot}
    (h : snapshot.close.pnlDeterminate = true) : snapshot.pnlDeterminate = true := by
  simp only [close] at h
  split at h
  · cases h
  · exact h

end PortfolioSnapshot

namespace MarkedWorld

/-! ## The invariant -/

/-- Every account that vouches for the value of an open position is valued by the
last mark of its symbol, which is recent. Two accounts of one symbol can come from a
restored ledger; only the first is ever marked. -/
structure Marked (w : MarkedWorld) : Prop where
  shadowed : w.accountant.accounts.Pairwise fun first second =>
    first.symbol = second.symbol → ¬second.Priced
  valued : ∀ account ∈ w.accountant.accounts, account.Priced →
    ∃ mark, w.lastMark account.symbol = some mark ∧ account.ValuedBy mark ∧
      Recent w.accountant.config.maxMarkAgeNs w.now mark

theorem Marked.freshlyMarked {w : MarkedWorld} (h : w.Marked) : w.FreshlyMarked := by
  intro hdeterminate account haccount hheld
  have hvalid := (PortfolioSnapshot.foldl_addAccount_pnlDeterminate
    (PortfolioSnapshot.close_pnlDeterminate hdeterminate)).2 account haccount
  exact h.valued account haccount ⟨hheld, hvalid⟩

theorem marked_start (config : AccountingConfig) (now : Nanos) : (start config now).Marked where
  shadowed := List.Pairwise.nil
  valued account haccount := by cases haccount

/-- Writing back the first account of a symbol, with a record that differs at most at
that symbol. -/
theorem Marked.put {w after : MarkedWorld} (h : w.Marked) {symbol : Symbol}
    {known account : PositionAccount} (hfind : w.accountant.find symbol = some known)
    (hsymbol : account.symbol = symbol)
    (haccounts : after.accountant.accounts = (w.accountant.put symbol account).accounts)
    (hconfig : after.accountant.config = w.accountant.config) (hnow : after.now = w.now)
    (hlast : ∀ other, other ≠ symbol → after.lastMark other = w.lastMark other)
    (hvalued : account.Priced → ∃ mark, after.lastMark symbol = some mark ∧
      account.ValuedBy mark ∧ Recent w.accountant.config.maxMarkAgeNs w.now mark) :
    after.Marked := by
  obtain ⟨front, back, hsplit, hfront, hput⟩ := Keyed.exists_split_put hfind account
  have hknown : known.symbol = symbol := PortfolioAccountant.symbol_of_find hfind
  have hshadowed := h.shadowed
  have hold := h.valued
  rw [PortfolioAccountant.put, hput] at haccounts
  rw [hsplit, List.pairwise_append, List.pairwise_cons] at hshadowed
  rw [hsplit] at hold
  obtain ⟨hfirst, ⟨hhead, hlater⟩, hacross⟩ := hshadowed
  constructor
  · rw [haccounts, List.pairwise_append, List.pairwise_cons]
    refine ⟨hfirst, ⟨?_, hlater⟩, ?_⟩
    · intro second hsecond heq
      exact hhead second hsecond (by rw [hknown, ← hsymbol, heq])
    · intro first hfirstMem second hsecond heq
      rcases List.mem_cons.mp hsecond with rfl | hsecond
      · exact absurd (heq.trans hsymbol) (hfront first hfirstMem)
      · exact hacross first hfirstMem second (List.mem_cons_of_mem _ hsecond) heq
  · intro entry hentry hpriced
    rw [haccounts, List.mem_append, List.mem_cons] at hentry
    rw [hconfig, hnow]
    rcases hentry with hentry | rfl | hentry
    · rw [hlast entry.symbol (hfront entry hentry)]
      exact hold entry (by simp [hentry]) hpriced
    · rw [hsymbol]
      exact hvalued hpriced
    · -- An account behind the one written has its own symbol, or is not valued.
      by_cases heq : entry.symbol = symbol
      · exact absurd hpriced (hhead entry hentry (hknown.trans heq.symm))
      · rw [hlast entry.symbol heq]
        exact hold entry (by simp [hentry]) hpriced

/-- An operation that leaves accounts, configuration, time and record alone. -/
theorem Marked.of_eq {w after : MarkedWorld} (h : w.Marked)
    (haccounts : after.accountant.accounts = w.accountant.accounts)
    (hconfig : after.accountant.config = w.accountant.config) (hnow : after.now = w.now)
    (hlast : after.lastMark = w.lastMark) : after.Marked where
  shadowed := by rw [haccounts]; exact h.shadowed
  valued := by rw [haccounts, hconfig, hnow, hlast]; exact h.valued

/-- The record of a priced account that `find` returns. -/
theorem Marked.of_find {w : MarkedWorld} (h : w.Marked) {symbol : Symbol}
    {account : PositionAccount} (hfind : w.accountant.find symbol = some account)
    (hpriced : account.Priced) :
    ∃ mark, w.lastMark symbol = some mark ∧ account.ValuedBy mark ∧
      Recent w.accountant.config.maxMarkAgeNs w.now mark := by
  have hvalued := h.valued account (List.mem_of_find?_eq_some hfind) hpriced
  rwa [PortfolioAccountant.symbol_of_find hfind] at hvalued

end MarkedWorld

namespace PositionAccount

/-- A fill that is booked leaves an open position unvalued. -/
theorem applyFill_priced (account : PositionAccount) (tradeId : TradeId) (side : Side) (price : Px)
    (quantity : Qty) (fee : Notional) :
    (account.applyFill tradeId side price quantity fee).2 = account ∨
      ¬(account.applyFill tradeId side price quantity fee).2.Priced := by
  rw [applyFill]
  split
  · split
    · exact .inl rfl
    · rename_i result hcommit
      refine .inr fun hpriced => ?_
      obtain ⟨_, _, _, _, _, -, -, -, -, -, rfl⟩ := commitFill_eq_some hcommit
      obtain ⟨hheld, hvalid⟩ := hpriced
      exact hheld (by simpa using hvalid)
  · exact .inl rfl

theorem not_priced_unvalued (account : PositionAccount) (lastMark : Px) :
    ¬PositionAccount.Priced { account.unvalued with lastMark := lastMark } := by
  rintro ⟨hheld, hvalid⟩
  exact hheld (by simpa [unvalued] using hvalid)

theorem not_priced_unmarked (account : PositionAccount) : ¬account.unmarked.Priced := by
  rintro ⟨hheld, hvalid⟩
  exact hheld (by simpa [unmarked] using hvalid)

end PositionAccount

namespace PortfolioAccountant

/-- An account that is priced after a fill was priced before it, by the same marks. -/
theorem priced_of_filled {account : PositionAccount} {fill : FillEvent}
    (h : (filled account fill).Priced) :
    account.Priced ∧ ∀ mark, account.ValuedBy mark → (filled account fill).ValuedBy mark := by
  unfold filled at h ⊢
  rcases account.applyFill_priced fill.tradeId fill.side fill.price fill.quantity fill.fee with
    hsame | hunpriced
  · simp only [hsame] at h ⊢
    split at h
    · rename_i hoverflow
      rw [if_pos hoverflow]
      exact ⟨h, fun _ hvalued => hvalued⟩
    · rename_i hoverflow
      rw [if_neg hoverflow]
      exact ⟨h, fun _ hvalued => hvalued⟩
  · simp only at h
    split at h
    · exact absurd h hunpriced
    · exact absurd h hunpriced

end PortfolioAccountant

namespace MarkedWorld

theorem Marked.advance {w : MarkedWorld} (h : w.Marked) {elapsed : Nat}
    (htimely : Timely (.advance elapsed) w) : (step (.advance elapsed) w).Marked where
  shadowed := h.shadowed
  valued account haccount hpriced := by
    obtain ⟨mark, hlast, hvalued, -⟩ := h.valued account haccount hpriced
    exact ⟨mark, hlast, hvalued, htimely account haccount hpriced mark hlast⟩

theorem Marked.registerSymbol {w : MarkedWorld} (h : w.Marked) (symbol : Symbol) :
    (step (.registerSymbol symbol) w).Marked := by
  simp only [step, PortfolioAccountant.registerSymbol]
  split
  · exact h
  split
  · exact h
  split
  · exact h
  · -- A new account is flat.
    have hflat : ¬PositionAccount.Priced { symbol := symbol } := fun hpriced => hpriced.1 rfl
    constructor
    · simp only [List.pairwise_append, List.pairwise_cons]
      refine ⟨h.shadowed, ⟨by simp, List.Pairwise.nil⟩, ?_⟩
      intro first _ second hsecond _
      rw [List.mem_singleton.mp hsecond]
      exact hflat
    · intro account haccount hpriced
      rcases List.mem_append.mp haccount with haccount | haccount
      · exact h.valued account haccount hpriced
      · rw [List.mem_singleton.mp haccount] at hpriced
        exact absurd hpriced hflat

theorem Marked.fill {w : MarkedWorld} (h : w.Marked) (fill : FillEvent) :
    (step (.fill fill) w).Marked := by
  cases hfind : w.accountant.find fill.symbol with
  | none =>
      apply h.of_eq <;> simp only [step, PortfolioAccountant.onFill, hfind]
  | some account =>
      have hsymbol := (PortfolioAccountant.filled_symbol account fill).trans
        (PortfolioAccountant.symbol_of_find hfind)
      refine h.put hfind hsymbol (PortfolioAccountant.onFill_of_find hfind).2 ?_ rfl
        (fun _ _ => rfl) ?_
      · simp only [step, PortfolioAccountant.onFill, hfind, PortfolioAccountant.put]
      · intro hpriced
        obtain ⟨hold, hkeep⟩ := PortfolioAccountant.priced_of_filled hpriced
        obtain ⟨mark, hlast, hvalued, hrecent⟩ := h.of_find hfind hold
        exact ⟨mark, hlast, hkeep mark hvalued, hrecent⟩

theorem Marked.mark {w : MarkedWorld} (h : w.Marked)
    (hage : 0 < w.accountant.config.maxMarkAgeNs) (mark : MarkPrice) :
    (step (.mark mark) w).Marked := by
  cases hfind : w.accountant.find mark.symbol with
  | none =>
      have herror : (w.accountant.onMark mark w.now).1 ≠ .none := by
        simp [PortfolioAccountant.onMark, hfind]
      apply h.of_eq
      · simp only [step, PortfolioAccountant.onMark, hfind]
      · simp only [step, PortfolioAccountant.onMark, hfind]
      · rfl
      · simp only [step, recordMark, if_neg herror]
  | some account =>
      have hidentity := account.applyMark_identity mark w.now w.accountant.config.maxMarkAgeNs
      have herror : (w.accountant.onMark mark w.now).1 =
          (account.applyMark mark w.now w.accountant.config.maxMarkAgeNs).1 := by
        simp only [PortfolioAccountant.onMark, hfind]
      refine h.put hfind (hidentity.1.trans (PortfolioAccountant.symbol_of_find hfind)) ?_ ?_ rfl
        ?_ ?_
      · simp only [step, PortfolioAccountant.onMark, hfind]
      · simp only [step, PortfolioAccountant.onMark, hfind, PortfolioAccountant.put]
      · intro other hother
        simp only [step, recordMark]
        split
        · rw [Function.update_of_ne hother]
        · rfl
      · intro hpriced
        rcases account.applyMark_cases mark w.now w.accountant.config.maxMarkAgeNs with
          ⟨-, hrefused⟩ | ⟨hnone, haccepted⟩
        · obtain ⟨lastMark, hafter⟩ := hrefused.after_eq
          rw [hafter] at hpriced
          exact absurd hpriced (account.not_priced_unvalued lastMark)
        · obtain ⟨value, -, hvalue, hafter⟩ := haccepted.after_eq
          refine ⟨mark, ?_, ?_, haccepted.recent hage⟩
          · simp only [step, recordMark, herror, hnone, if_true, Function.update_self]
          · rw [hafter] at hpriced ⊢
            exact hvalue hpriced.1

theorem Marked.restore {w : MarkedWorld} (h : w.Marked)
    (state : PortfolioAccountant.RecoveryState) : (step (.restore state) w).Marked := by
  simp only [step, PortfolioAccountant.restore]
  split
  · exact h
  split
  · exact h
  split
  · exact h
  · rename_i accounts hrestore
    -- Nothing that is restored is valued.
    have hunpriced : ∀ account ∈ accounts, ¬account.Priced := by
      intro account haccount
      rw [((PortfolioAccountant.coherent_restoreAccounts hrestore).2 account haccount).2]
      exact account.not_priced_unmarked
    constructor
    · exact List.pairwise_of_forall_mem_list fun _ _ second hsecond _ => hunpriced second hsecond
    · exact fun account haccount hpriced => absurd hpriced (hunpriced account haccount)

theorem Marked.clearFault {w : MarkedWorld} (h : w.Marked) (symbol : Symbol) :
    (step (.clearFault symbol) w).Marked := by
  simp only [step, PortfolioAccountant.clearFault]
  split
  · exact h
  · rename_i account hfind
    have hsymbol : account.symbol = symbol := PortfolioAccountant.symbol_of_find hfind
    have hpriced : account.Priced → _ := h.of_find hfind
    exact h.put hfind (show account.clearFault.symbol = symbol from hsymbol) rfl rfl rfl
      (fun _ _ => rfl) hpriced

/-- No step changes the configuration. -/
theorem config_kept (op : Op) (w : MarkedWorld) :
    (step op w).accountant.config = w.accountant.config := by
  cases op with
  | advance elapsed => rfl
  | registerSymbol symbol =>
      exact PortfolioAccountant.config_step (.registerSymbol symbol) w.accountant
  | fill fill => exact PortfolioAccountant.config_step (.fill fill) w.accountant
  | mark mark => exact PortfolioAccountant.config_step (.mark mark w.now) w.accountant
  | balance update => exact PortfolioAccountant.config_step (.balance update w.now) w.accountant
  | restore state => exact PortfolioAccountant.config_step (.restore state) w.accountant
  | clearFault symbol => exact PortfolioAccountant.config_step (.clearFault symbol) w.accountant

/-- Every step keeps the accounts marked, as long as the clock is timely. -/
theorem marked_step (op : Op) (w : MarkedWorld)
    (h : w.Marked ∧ 0 < w.accountant.config.maxMarkAgeNs) (htimely : Timely op w) :
    (step op w).Marked ∧ 0 < (step op w).accountant.config.maxMarkAgeNs := by
  obtain ⟨hmarked, hage⟩ := h
  rw [config_kept]
  refine ⟨?_, hage⟩
  cases op with
  | advance elapsed => exact hmarked.advance htimely
  | registerSymbol symbol => exact hmarked.registerSymbol symbol
  | fill fill => exact hmarked.fill fill
  | mark mark => exact hmarked.mark hage mark
  | balance update =>
      exact hmarked.of_eq (PortfolioAccountant.accounts_onBalance w.accountant update w.now)
        (config_kept (.balance update) w) rfl rfl
  | restore state => exact hmarked.restore state
  | clearFault symbol => exact hmarked.clearFault symbol

/-- A symbol is registered, bought, and marked; then nothing happens for a while. -/
def silence (elapsed : Nat) : List Op :=
  [ .registerSymbol PortfolioAccountant.sampleSymbol,
    .fill (PortfolioAccountant.sampleFill .zero),
    .mark
      { symbol := PortfolioAccountant.sampleSymbol
        bid := ⟨90000000, by decide, by decide⟩
        ask := ⟨110000000, by decide, by decide⟩
        asOfNs := 1 },
    .advance elapsed ]

end MarkedWorld

end MmEngine.Portfolio
