/-
# Ledgers that can be restored

What is saved of an accountant is its ledger: positions, cost bases, realized PnL,
fees, the trades already counted and the faults. What is not saved is the valuation,
which a restarted accountant has to be given again by marks. The ledger of every
state an accountant can reach is one that `restore` accepts.

A restored ledger may hold two accounts of one symbol, and a position that has no
opposite; neither is refused. The second account of a symbol is never found, so it
stays as it was restored.
-/

import MmEngine.Portfolio.LostFill

namespace MmEngine.Portfolio

open MmEngine.Exchange

/-- The average of two positive prices is positive, whatever is held. -/
theorem weightedAverage_pos {a b average : Px} {qa qb : Qty} (ha : 0 < a.raw) (hb : 0 < b.raw)
    (h : weightedAverage a qa b qb = some average) : 0 < average.raw := by
  simp only [weightedAverage, Option.bind_eq_bind, Option.bind_eq_some_iff] at h
  obtain ⟨total, htotal, h⟩ := h
  rw [Fixed.checkedAdd_eq_some_iff] at htotal
  split at h
  · cases h
  · rename_i hpos
    simp only [Bool.not_eq_true', Bool.not_eq_false, Fixed.isPositive_iff] at hpos
    have hqa := Fixed.saturatingAbs_nonneg qa
    have hqb := Fixed.saturatingAbs_nonneg qb
    rw [Fixed.fromRaw?_eq_some_iff, htotal, Int.tdiv_eq_ediv_of_nonneg (by positivity)] at h
    rw [h]
    exact PositionAccount.average_pos ha hb hqa hqb (htotal ▸ hpos)

namespace PositionAccount

/-- What `restore` asks of a saved account, and that a flat account is worth nothing
for certain. Unlike the ledger invariant it survives any state that is restored. -/
structure Coherent (account : PositionAccount) : Prop where
  fees_nonneg : 0 ≤ account.fees.raw
  basis_pos_iff : 0 < account.averagePrice.raw ↔ account.position.raw ≠ 0
  flat_valued : account.position.raw = 0 →
    account.unrealizedValid = true ∧ account.unrealized = .zero

/-- The basis that a fill leaves belongs to the position that it leaves. -/
theorem Coherent.basisChange {account : PositionAccount} (h : account.Coherent) {fill : Fill}
    (hacceptable : fill.Acceptable) {newPosition : Qty} {change : BasisChange}
    (hnew : newPosition.raw = account.position.raw + fill.signedRaw)
    (hchange : account.basisChange fill.price (signedFill fill.side fill.quantity) newPosition =
      some change) :
    0 < change.newAverage.raw ↔ newPosition.raw ≠ 0 := by
  have hraw := signedFill_raw hacceptable.quantity_pos
  have hne := Fill.signedRaw_ne_zero hacceptable.quantity_pos
  have hincoming := Fixed.saturatingAbs_raw (signedFill_ne_min hacceptable.quantity_pos)
  rw [hraw] at hincoming
  rw [PositionAccount.basisChange] at hchange
  split at hchange
  · rename_i hflat
    rw [Fixed.isZero_iff] at hflat
    cases hchange
    exact iff_of_true hacceptable.price_pos (by omega)
  · rename_i hheld
    rw [Fixed.isZero_iff] at hheld
    have hbasis := h.basis_pos_iff.mpr hheld
    split at hchange
    · rename_i hsame
      simp only [Fixed.isNegative, hraw, decide_eq_decide] at hsame
      obtain ⟨average, haverage, rfl⟩ := Option.map_eq_some_iff.mp hchange
      exact iff_of_true (weightedAverage_pos hbasis hacceptable.price_pos haverage) (by omega)
    · rename_i hopposite
      simp only [Fixed.isNegative, hraw, decide_eq_decide] at hopposite
      obtain ⟨delta, -, rfl⟩ := Option.map_eq_some_iff.mp hchange
      split
      · rename_i hbeyond
        refine iff_of_true hacceptable.price_pos ?_
        -- Nothing comes in beyond the position without an opposite.
        have hmin : account.position.raw ≠ rawMin := by
          intro hmin
          rw [Fixed.saturatingAbs_raw_of_min hmin] at hbeyond
          exact absurd (Fixed.raw_le _) (Int.not_le.mpr hbeyond)
        rw [hincoming, Fixed.saturatingAbs_raw hmin] at hbeyond
        have hheldAbs := abs_cases account.position.raw
        have hfillAbs := abs_cases fill.signedRaw
        omega
      · split
        · rename_i hzero
          rw [Fixed.isZero_iff] at hzero
          exact iff_of_false (by simp) (by simpa using hzero)
        · rename_i hzero
          rw [Fixed.isZero_iff] at hzero
          exact iff_of_true hbasis hzero

theorem Coherent.commitFill {account : PositionAccount} (h : account.Coherent) {fill : Fill}
    (hacceptable : fill.Acceptable) {result : FillOutcome × PositionAccount}
    (hcommit : account.commitFill fill.tradeId fill.side fill.price fill.quantity fill.fee =
      some result) : result.2.Coherent := by
  obtain ⟨_, _, _, _, _, hposition, hchange, -, -, hfees, rfl⟩ := commitFill_eq_some hcommit
  rw [signedFill_raw hacceptable.quantity_pos] at hposition
  exact
    { fees_nonneg := by
        have hold := h.fees_nonneg
        have hfee := hacceptable.fee_nonneg
        simp only
        omega
      basis_pos_iff := h.basisChange hacceptable hposition hchange
      flat_valued := fun hflat => ⟨by simpa using hflat, rfl⟩ }

theorem Coherent.take {account : PositionAccount} (h : account.Coherent) (fill : Fill) :
    (account.take fill).2.Coherent := by
  rw [PositionAccount.take, applyFill]
  split
  · rename_i hscreen
    obtain ⟨-, hacceptable, -⟩ := screenFill_eq_none_iff.mp hscreen
    split
    · exact h
    · rename_i hcommit
      exact h.commitFill hacceptable hcommit
  · exact h

/-- A change of the valuation alone keeps an account coherent, if flat stays flat. -/
theorem Coherent.of_ledger_eq {account after : PositionAccount} (h : account.Coherent)
    (hsave : after.save = account.save)
    (hflat : after.position.raw = 0 → after.unrealizedValid = true ∧ after.unrealized = .zero) :
    after.Coherent where
  fees_nonneg := by
    rw [show after.fees = account.fees from congrArg State.fees hsave]
    exact h.fees_nonneg
  basis_pos_iff := by
    rw [show after.averagePrice = account.averagePrice from congrArg State.averagePrice hsave,
      show after.position = account.position from congrArg State.position hsave]
    exact h.basis_pos_iff
  flat_valued := hflat

theorem Coherent.applyMark {account : PositionAccount} (h : account.Coherent) (mark : MarkPrice)
    (nowNs maxAgeNs : Nanos) : (account.applyMark mark nowNs maxAgeNs).2.Coherent := by
  rcases applyMark_cases account mark nowNs maxAgeNs with ⟨-, hrefused⟩ | ⟨-, haccepted⟩
  · obtain ⟨lastMark, hafter⟩ := hrefused.after_eq
    rw [hafter]
    exact h.of_ledger_eq rfl fun hflat => ⟨by simpa [unvalued] using hflat, rfl⟩
  · obtain ⟨value, hzero, -, hafter⟩ := haccepted.after_eq
    rw [hafter]
    exact h.of_ledger_eq rfl fun hflat => ⟨rfl, hzero hflat⟩

/-- Whatever is restored is coherent and not valued. -/
theorem coherent_of_restore {state : State} {account : PositionAccount}
    (h : PositionAccount.restore {} state = (.none, account)) :
    account.Coherent ∧ account = account.unmarked := by
  rw [restore] at h
  split at h
  · cases h
  rename_i hfees
  split at h
  · cases h
  rename_i hheld
  split at h
  · cases h
  rename_i hflat
  cases h
  refine ⟨⟨by simpa using hfees, ?_, fun hzero => ⟨by simpa using hzero, rfl⟩⟩, rfl⟩
  simp only [Bool.and_eq_true, Bool.not_eq_true', not_and, Bool.not_eq_false, Fixed.isZero,
    decide_eq_false_iff_not, decide_eq_true_eq, Fixed.isPositive_iff] at hheld hflat
  exact ⟨fun hpos hzero => hflat hzero hpos, hheld⟩

end PositionAccount

namespace PortfolioAccountant

/-! ## The accounts after a step -/

theorem accounts_onFill (accountant : PortfolioAccountant) (fill : FillEvent) :
    (accountant.onFill fill).2.accounts =
      Keyed.amend PositionAccount.symbol fill.symbol (filled · fill) accountant.accounts := by
  simp only [Keyed.amend, onFill, find]
  cases accountant.accounts.find? fun account => account.symbol = fill.symbol <;> rfl

theorem accounts_onMark (accountant : PortfolioAccountant) (mark : MarkPrice) (now : Nanos) :
    (accountant.onMark mark now).2.accounts =
      Keyed.amend PositionAccount.symbol mark.symbol
        (fun account => (account.applyMark mark now accountant.config.maxMarkAgeNs).2)
        accountant.accounts := by
  simp only [Keyed.amend, onMark, find]
  cases accountant.accounts.find? fun account => account.symbol = mark.symbol <;> rfl

theorem accounts_clearFault (accountant : PortfolioAccountant) (symbol : Symbol) :
    (accountant.clearFault symbol).accounts =
      Keyed.amend PositionAccount.symbol symbol PositionAccount.clearFault
        accountant.accounts := by
  simp only [Keyed.amend, clearFault, find]
  cases accountant.accounts.find? fun account => account.symbol = symbol <;> rfl

theorem accounts_onBalance (accountant : PortfolioAccountant) (update : BalanceUpdateEvent)
    (now : Nanos) : (accountant.onBalance update now).2.accounts = accountant.accounts := by
  simp only [onBalance]
  split_ifs <;> rfl

/-- No step changes the configuration. -/
theorem config_step (op : Op) (accountant : PortfolioAccountant) :
    (step op accountant).config = accountant.config := by
  cases op with
  | registerSymbol symbol =>
      simp only [step, registerSymbol]
      split_ifs <;> rfl
  | fill fill =>
      simp only [step, onFill]
      split <;> rfl
  | mark mark now =>
      simp only [step, onMark]
      split <;> rfl
  | balance update now =>
      simp only [step, onBalance]
      split_ifs <;> rfl
  | restore state =>
      simp only [step, restore]
      split_ifs
      · rfl
      · rfl
      · split <;> rfl
  | clearFault symbol =>
      simp only [step, clearFault]
      split <;> rfl

/-- What every accountant can reach: no more accounts than it has room for, all of
them coherent, and a second account of a symbol as a restart leaves it. -/
structure Recoverable (accountant : PortfolioAccountant) : Prop where
  length_le : accountant.accounts.length ≤ accountant.config.maxSymbols
  coherent : ∀ account ∈ accountant.accounts, account.Coherent
  shadowed : accountant.accounts.Pairwise fun first second =>
    first.symbol = second.symbol → second = second.unmarked

theorem recoverable_new (config : AccountingConfig) : (new config).Recoverable where
  length_le := Nat.zero_le _
  coherent account haccount := by cases haccount
  shadowed := List.Pairwise.nil

/-- A change of one account that keeps its symbol and leaves it coherent. -/
theorem Recoverable.amend {accountant after : PortfolioAccountant} (h : accountant.Recoverable)
    {symbol : Symbol} {f : PositionAccount → PositionAccount}
    (haccounts : after.accounts = Keyed.amend PositionAccount.symbol symbol f accountant.accounts)
    (hconfig : after.config = accountant.config)
    (hsymbol : ∀ account, (f account).symbol = account.symbol)
    (hcoherent : ∀ account, account.Coherent → (f account).Coherent) : after.Recoverable where
  length_le := by
    rw [haccounts, hconfig, Keyed.length_amend]
    exact h.length_le
  coherent := by
    rw [haccounts]
    intro account haccount
    rcases Keyed.mem_amend haccount with hold | ⟨known, hknown, -, rfl⟩
    · exact h.coherent account hold
    · exact hcoherent known (h.coherent known hknown)
  shadowed := by
    rw [haccounts]
    exact Keyed.pairwise_amend hsymbol h.shadowed

theorem coherent_filled {account : PositionAccount} (h : account.Coherent) (fill : FillEvent) :
    (filled account fill).Coherent := by
  have htake := h.take ⟨fill.tradeId, fill.side, fill.price, fill.quantity, fill.fee⟩
  simp only [filled]
  split
  · exact ⟨htake.fees_nonneg, htake.basis_pos_iff, htake.flat_valued⟩
  · exact htake

theorem Recoverable.registerSymbol {accountant : PortfolioAccountant}
    (h : accountant.Recoverable) (symbol : Symbol) :
    (accountant.registerSymbol symbol).2.Recoverable := by
  rw [PortfolioAccountant.registerSymbol]
  split
  · exact h
  split
  · exact h
  split
  · exact h
  · rename_i hroom
    have hfresh : PositionAccount.Coherent { symbol := symbol } :=
      ⟨Int.le_refl _, by simp, fun _ => ⟨rfl, rfl⟩⟩
    constructor
    · simp only [List.length_append, List.length_singleton]
      omega
    · intro account haccount
      rcases List.mem_append.mp haccount with hold | hnew
      · exact h.coherent account hold
      · rw [List.mem_singleton.mp hnew]
        exact hfresh
    · refine List.pairwise_append.mpr ⟨h.shadowed, List.pairwise_singleton _ _, ?_⟩
      intro first _ second hsecond _
      rw [List.mem_singleton.mp hsecond]
      rfl

/-- Whatever is restored, account by account. -/
theorem coherent_restoreAccounts {states : List PositionAccount.State}
    {accounts : List PositionAccount} (h : restoreAccounts states = .ok accounts) :
    accounts.length = states.length ∧
      ∀ account ∈ accounts, account.Coherent ∧ account = account.unmarked := by
  induction states generalizing accounts with
  | nil =>
      cases h
      exact ⟨rfl, by simp⟩
  | cons state states ih =>
      rw [restoreAccounts] at h
      split at h
      · rename_i account hrestore
        cases hrest : restoreAccounts states with
        | error error =>
            rw [hrest] at h
            cases h
        | ok rest =>
            rw [hrest] at h
            cases h
            obtain ⟨hlength, hall⟩ := ih hrest
            refine ⟨by rw [List.length_cons, List.length_cons, hlength], ?_⟩
            exact List.forall_mem_cons.mpr ⟨PositionAccount.coherent_of_restore hrestore, hall⟩
      · cases h

theorem Recoverable.restore {accountant : PortfolioAccountant} (h : accountant.Recoverable)
    (state : RecoveryState) : (accountant.restore state).2.Recoverable := by
  rw [PortfolioAccountant.restore]
  split
  · exact h
  split
  · exact h
  rename_i hroom
  split
  · exact h
  · rename_i accounts hrestore
    obtain ⟨hlength, hall⟩ := coherent_restoreAccounts hrestore
    constructor
    · simp only [hlength]
      omega
    · exact fun account haccount => (hall account haccount).1
    · exact List.pairwise_of_forall_mem_list fun _ _ second hsecond _ => (hall second hsecond).2

theorem recoverable_step (op : Op) (accountant : PortfolioAccountant)
    (h : accountant.Recoverable) : (step op accountant).Recoverable := by
  have hconfig := config_step op accountant
  cases op with
  | registerSymbol symbol => exact h.registerSymbol symbol
  | fill fill =>
      exact h.amend (accounts_onFill accountant fill) hconfig (filled_symbol · fill)
        fun account hcoherent => coherent_filled hcoherent fill
  | mark mark now =>
      exact h.amend (accounts_onMark accountant mark now) hconfig
        (fun account => (account.applyMark_identity mark now _).1)
        fun account hcoherent => hcoherent.applyMark mark now _
  | balance update now =>
      have haccounts : (step (.balance update now) accountant).accounts = accountant.accounts :=
        accounts_onBalance accountant update now
      constructor
      · rw [haccounts, hconfig]
        exact h.length_le
      · rw [haccounts]
        exact h.coherent
      · rw [haccounts]
        exact h.shadowed
  | restore state => exact h.restore state
  | clearFault symbol =>
      refine h.amend (accounts_clearFault accountant symbol) hconfig (fun _ => rfl) ?_
      exact fun account ⟨hfees, hbasis, hflat⟩ => ⟨hfees, hbasis, hflat⟩

theorem restoreAccounts_map_save {accounts : List PositionAccount}
    (h : ∀ account ∈ accounts, account.Coherent) :
    restoreAccounts (accounts.map PositionAccount.save) =
      .ok (accounts.map PositionAccount.unmarked) := by
  induction accounts with
  | nil => rfl
  | cons account accounts ih =>
      rw [List.forall_mem_cons] at h
      have hrestore := PositionAccount.restore_save_eq h.1.fees_nonneg h.1.basis_pos_iff {}
      simp only [List.map_cons, restoreAccounts, hrestore, ih h.2]
      rfl

/-- A restart with room for the accounts: everything but the valuation comes back. -/
theorem Recoverable.restore_save {accountant : PortfolioAccountant} (h : accountant.Recoverable)
    {config : AccountingConfig} (hcapacity : config.maxSymbols = accountant.config.maxSymbols) :
    (new config).restore accountant.save =
      (.none,
        { new config with
          accounts := accountant.accounts.map PositionAccount.unmarked
          balances := accountant.balances
          balanceCapacity := max (config.maxSymbols * 2) accountant.balances.length
          sequence := accountant.sequence }) := by
  have hroom : ¬config.maxSymbols < (accountant.accounts.map PositionAccount.save).length := by
    rw [List.length_map, hcapacity]
    exact Nat.not_lt.mpr h.length_le
  simp only [PortfolioAccountant.restore, save, new, restoreAccounts_map_save h.coherent,
    if_neg hroom]
  rfl

end PortfolioAccountant

end MmEngine.Portfolio
