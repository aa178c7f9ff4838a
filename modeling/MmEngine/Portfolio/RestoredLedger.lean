/-
# What a restored ledger promises

A snapshot that contradicts itself is refused, and with it the whole ledger. The checks
go field by field: fees that are not negative, a cost basis for every position, none for
a flat account. Three things that every reachable ledger has are not among them: that
no symbol has two accounts, that a flat account has no basis below zero either, and that
the cost of a position can be represented.
-/

import MmEngine.Portfolio.Recovery

namespace MmEngine.Portfolio

namespace PositionAccount

/-- What the fills of an account maintain: a positive average price with a position
and none without, fees that only add up, and a cost that can be represented. -/
structure Consistent (account : PositionAccount) : Prop where
  basis_pos_iff : 0 < account.averagePrice.raw ↔ account.position.raw ≠ 0
  basis_zero : account.position.raw = 0 → account.averagePrice.raw = 0
  fees_nonneg : 0 ≤ account.fees.raw
  cost : account.checkedCostBasis.isSome = true

namespace State

/-- What a restore asks of a saved account. -/
structure Checked (state : State) : Prop where
  fees_nonneg : 0 ≤ state.fees.raw
  held : state.position.raw ≠ 0 → 0 < state.averagePrice.raw
  flat : state.position.raw = 0 → state.averagePrice.raw ≤ 0

/-- What it takes on trust. -/
structure Trusted (state : State) : Prop where
  flat : state.position.raw = 0 → 0 ≤ state.averagePrice.raw
  cost : (checkedNotionalOf state.averagePrice state.position).isSome = true

/-- The account a saved state comes back as: not valued, unless it is flat. -/
def adopted (state : State) : PositionAccount where
  symbol := state.symbol
  position := state.position
  averagePrice := state.averagePrice
  realized := state.realized
  unrealized := .zero
  fees := state.fees
  lastMark := .zero
  fillCount := state.fillCount
  unrealizedValid := state.position.isZero
  faulted := state.faulted
  seen := state.seen

/-- Of a saved account that passes the checks, the rest is what makes it consistent. -/
theorem Checked.consistent_iff {state : State} (h : state.Checked) :
    state.adopted.Consistent ↔ state.Trusted := by
  constructor
  · intro hconsistent
    exact ⟨fun hflat => (hconsistent.basis_zero hflat).ge, hconsistent.cost⟩
  · intro htrusted
    exact
      { basis_pos_iff := ⟨fun hpos hzero => Int.not_lt.mpr (h.flat hzero) hpos, h.held⟩
        basis_zero := fun hflat => Int.le_antisymm (h.flat hflat) (htrusted.flat hflat)
        fees_nonneg := h.fees_nonneg
        cost := htrusted.cost }

end State

/-- A restore passes exactly the saved accounts that hold what it asks. -/
theorem restore_error_eq_none_iff (account : PositionAccount) (state : State) :
    (account.restore state).1 = .none ↔ state.Checked := by
  have hchecks : state.Checked ↔
      ¬state.fees.isNegative = true ∧
        ¬(!state.position.isZero && !state.averagePrice.isPositive) = true ∧
        ¬(state.position.isZero && state.averagePrice.isPositive) = true := by
    simp only [Bool.and_eq_true, Bool.not_eq_true', Fixed.isNegative, Fixed.isZero,
      Fixed.isPositive, decide_eq_true_eq, decide_eq_false_iff_not, not_and, not_lt]
    constructor
    · exact fun h => ⟨h.fees_nonneg, fun hheld => Int.not_le.mpr (h.held hheld), h.flat⟩
    · exact fun h => ⟨h.1, fun hheld => Int.not_le.mp (h.2.1 hheld), h.2.2⟩
  rw [hchecks, restore]
  split
  · simp_all
  split
  · simp_all
  split
  · simp_all
  · simp_all

theorem restore_of_checked {state : State} (h : state.Checked) (account : PositionAccount) :
    account.restore state = (.none, state.adopted) := by
  have herror := (restore_error_eq_none_iff account state).mpr h
  rw [restore] at herror ⊢
  split_ifs at herror ⊢
  rfl

end PositionAccount

namespace PortfolioAccountant

/-- Saved accounts come back when every one of them passes, and as they were saved. -/
theorem restoreAccounts_eq_ok_iff {states : List PositionAccount.State}
    {accounts : List PositionAccount} :
    restoreAccounts states = .ok accounts ↔
      (∀ state ∈ states, state.Checked) ∧ accounts = states.map PositionAccount.State.adopted := by
  induction states generalizing accounts with
  | nil => simp [restoreAccounts, eq_comm]
  | cons state states ih =>
      rw [restoreAccounts, List.forall_mem_cons, List.map_cons]
      by_cases hchecked : state.Checked
      · rw [PositionAccount.restore_of_checked hchecked]
        cases hrest : restoreAccounts states with
        | error error =>
            have hbad : ¬∀ state ∈ states, state.Checked := fun hall => by
              rw [ih.mpr ⟨hall, rfl⟩] at hrest
              cases hrest
            exact iff_of_false (fun h => by cases h) fun h => hbad h.1.2
        | ok rest =>
            obtain ⟨hall, rfl⟩ := ih.mp hrest
            constructor
            · intro h
              cases h
              exact ⟨⟨hchecked, hall⟩, rfl⟩
            · rintro ⟨-, rfl⟩
              rfl
      · have hrefused : (PositionAccount.restore {} state).1 ≠ .none := fun h =>
          hchecked ((PositionAccount.restore_error_eq_none_iff _ _).mp h)
        split
        · rename_i hrestore
          rw [hrestore] at hrefused
          exact absurd rfl hrefused
        · exact iff_of_false (fun h => by cases h) fun h => hchecked h.1.1

/-- A refusal says why. -/
theorem restoreAccounts_ne_error_none (states : List PositionAccount.State) :
    restoreAccounts states ≠ .error .none := by
  induction states with
  | nil =>
      intro h
      cases h
  | cons state states ih =>
      rw [restoreAccounts]
      split
      · cases hrest : restoreAccounts states with
        | error error =>
            intro h
            rw [hrest] at ih
            exact ih (by cases h; rfl)
        | ok rest =>
            intro h
            cases h
      · rename_i hrefused _
        intro h
        cases h
        exact hrefused rfl

/-- The accountant takes the saved ledger: it has no accounts yet, has room for the
saved ones, and every one of them passes the checks. -/
structure Admits (accountant : PortfolioAccountant) (state : RecoveryState) : Prop where
  empty : accountant.accounts = []
  room : state.accounts.length ≤ accountant.config.maxSymbols
  checked : ∀ saved ∈ state.accounts, saved.Checked

/-- A restore either takes the saved accounts as they are, or leaves everything. -/
theorem restore_cases (accountant : PortfolioAccountant) (state : RecoveryState) :
    (accountant.Admits state ∧ (accountant.restore state).1 = .none ∧
      (accountant.restore state).2.accounts =
        state.accounts.map PositionAccount.State.adopted) ∨
    (¬accountant.Admits state ∧ (accountant.restore state).1 ≠ .none ∧
      (accountant.restore state).2 = accountant) := by
  rw [restore]
  split
  · rename_i hheld
    refine .inr ⟨fun h => ?_, by simp, rfl⟩
    rw [h.empty] at hheld
    cases hheld
  rename_i hempty
  split
  · rename_i hfull
    exact .inr ⟨fun h => Nat.not_le.mpr hfull h.room, by simp, rfl⟩
  rename_i hroom
  cases hrestore : restoreAccounts state.accounts with
  | error error =>
      have hbad : ¬∀ saved ∈ state.accounts, saved.Checked := fun hall => by
        rw [restoreAccounts_eq_ok_iff.mpr ⟨hall, rfl⟩] at hrestore
        cases hrestore
      have herror : error ≠ .none := fun h =>
        restoreAccounts_ne_error_none state.accounts (h ▸ hrestore)
      exact .inr ⟨fun h => hbad h.checked, herror, rfl⟩
  | ok accounts =>
      obtain ⟨hall, rfl⟩ := restoreAccounts_eq_ok_iff.mp hrestore
      exact .inl ⟨⟨by simpa using hempty, Nat.not_lt.mp hroom, hall⟩, rfl, rfl⟩

/-- Only consistent ledgers are restored: accounts of different symbols, each as its
fills would have left it; and a refusal leaves the accountant as it was. -/
structure RestoresConsistently (accountant : PortfolioAccountant) (state : RecoveryState) :
    Prop where
  symbols : (accountant.restore state).1 = .none →
    ((accountant.restore state).2.accounts.map PositionAccount.symbol).Nodup
  accounts : (accountant.restore state).1 = .none →
    ∀ account ∈ (accountant.restore state).2.accounts, account.Consistent
  refused : (accountant.restore state).1 ≠ .none → (accountant.restore state).2 = accountant

/-- A restore keeps its promise exactly when a ledger that it takes is right in what
it does not check: no symbol saved twice, no flat account with a basis below zero, no
position whose cost cannot be represented. -/
theorem restores_consistently_iff (accountant : PortfolioAccountant) (state : RecoveryState) :
    accountant.RestoresConsistently state ↔
      (accountant.Admits state →
        (state.accounts.map PositionAccount.State.symbol).Nodup ∧
          ∀ saved ∈ state.accounts, saved.Trusted) := by
  rcases restore_cases accountant state with ⟨hadmits, hnone, haccounts⟩ | ⟨hrefuses, herror, hsame⟩
  · have hsymbols : (accountant.restore state).2.accounts.map PositionAccount.symbol =
        state.accounts.map PositionAccount.State.symbol := by
      rw [haccounts, List.map_map]
      rfl
    have hconsistent : (∀ account ∈ (accountant.restore state).2.accounts, account.Consistent) ↔
        ∀ saved ∈ state.accounts, saved.Trusted := by
      rw [haccounts, List.forall_mem_map]
      exact forall₂_congr fun saved hsaved => (hadmits.checked saved hsaved).consistent_iff
    constructor
    · exact fun h _ => ⟨hsymbols ▸ h.symbols hnone, hconsistent.mp (h.accounts hnone)⟩
    · intro h
      obtain ⟨hnodup, htrusted⟩ := h hadmits
      exact
        { symbols := fun _ => hsymbols ▸ hnodup
          accounts := fun _ => hconsistent.mpr htrusted
          refused := fun herror => absurd hnone herror }
  · refine iff_of_true ?_ fun hadmits => absurd hadmits hrefuses
    exact
      { symbols := fun hnone => absurd hnone herror
        accounts := fun hnone => absurd hnone herror
        refused := fun _ => hsame }

/-- A position of one symbol, with nothing else about it. -/
def savedPosition (position averagePrice : Int) : PositionAccount.State where
  symbol := (InlineString.assign "BTC".toList).1
  position := .narrow position
  averagePrice := .narrow averagePrice
  realized := .zero
  fees := .zero
  fillCount := 1
  seen := .empty
  faulted := false

/-- One symbol saved twice, long and short: both accounts are adopted. -/
theorem twice_saved_restored :
    ((new {}).restore ⟨2, [savedPosition 5 100, savedPosition (-3) 90], []⟩).1 = .none ∧
      ¬(new {}).RestoresConsistently ⟨2, [savedPosition 5 100, savedPosition (-3) 90], []⟩ := by
  have hnone :
      ((new {}).restore ⟨2, [savedPosition 5 100, savedPosition (-3) 90], []⟩).1 = .none := by
    decide +kernel
  refine ⟨hnone, fun h => ?_⟩
  have htwice := h.symbols hnone
  revert htwice
  decide +kernel

end PortfolioAccountant

end MmEngine.Portfolio
