/-
# Lost fills

A fill that is reported and not booked leaves the books short of what is really
held. The accountant faults the account when the arithmetic of a fill would have
wrapped, and a faulted account is withheld from risk until it is cleared. Every
other refusal of a fill leaves the account as trusted as it was: without a trade
identifier, with a quantity or a price that is not positive, or with a rebate for
a fee, the fill is dropped and the position keeps reading as valid.
-/

import MmEngine.Portfolio.Ledger
import MmEngine.Portfolio.PortfolioAccountant

namespace MmEngine.Portfolio

open MmEngine.Exchange

namespace PortfolioAccountant

/-- What can happen to an accountant. Clearing the fault of an account is an
operator's act on the account itself. -/
inductive Op
  | registerSymbol (symbol : Symbol)
  | fill (fill : FillEvent)
  | mark (mark : MarkPrice) (now : Nanos)
  | balance (update : BalanceUpdateEvent) (now : Nanos)
  | restore (state : RecoveryState)
  | clearFault (symbol : Symbol)
  deriving DecidableEq

def clearFault (accountant : PortfolioAccountant) (symbol : Symbol) : PortfolioAccountant :=
  match accountant.find symbol with
  | none => accountant
  | some account => accountant.put symbol account.clearFault

def step (op : Op) (accountant : PortfolioAccountant) : PortfolioAccountant :=
  match op with
  | .registerSymbol symbol => (accountant.registerSymbol symbol).2
  | .fill fill => (accountant.onFill fill).2
  | .mark mark now => (accountant.onMark mark now).2
  | .balance update now => (accountant.onBalance update now).2
  | .restore state => (accountant.restore state).2
  | .clearFault symbol => accountant.clearFault symbol

theorem symbol_of_find {accountant : PortfolioAccountant} {symbol : Symbol}
    {account : PositionAccount} (h : accountant.find symbol = some account) :
    account.symbol = symbol := by
  simpa using List.find?_some h

theorem find_put_self {accountant : PortfolioAccountant} {symbol : Symbol}
    {known account : PositionAccount} (h : accountant.find symbol = some known)
    (hsymbol : account.symbol = symbol) :
    (accountant.put symbol account).find symbol = some account :=
  Keyed.find?_put_self h hsymbol

theorem find_put_other {accountant : PortfolioAccountant} {symbol other : Symbol}
    {account : PositionAccount} (hsymbol : account.symbol = symbol) (hother : other ≠ symbol) :
    (accountant.put symbol account).find other = accountant.find other :=
  Keyed.find?_put_other hsymbol hother

end PortfolioAccountant

namespace PositionAccount

theorem commitFill_identity {account : PositionAccount} {tradeId : TradeId} {side : Side}
    {price : Px} {quantity : Qty} {fee : Notional} {result : FillOutcome × PositionAccount}
    (h : account.commitFill tradeId side price quantity fee = some result) :
    result.1.error = .none ∧ result.2.symbol = account.symbol ∧
      result.2.faulted = account.faulted := by
  obtain ⟨_, _, _, _, _, -, -, -, -, -, rfl⟩ := commitFill_eq_some h
  exact ⟨rfl, rfl, rfl⟩

/-- A fill renames no account and faults none. -/
theorem applyFill_identity (account : PositionAccount) (tradeId : TradeId) (side : Side)
    (price : Px) (quantity : Qty) (fee : Notional) :
    (account.applyFill tradeId side price quantity fee).2.symbol = account.symbol ∧
      (account.applyFill tradeId side price quantity fee).2.faulted = account.faulted := by
  rw [applyFill]
  split
  · split
    · exact ⟨rfl, rfl⟩
    · rename_i hcommit
      exact (commitFill_identity hcommit).2
  · exact ⟨rfl, rfl⟩

/-- A faulted account refuses every fill. -/
theorem applyFill_of_faulted {account : PositionAccount} (h : account.faulted = true)
    (tradeId : TradeId) (side : Side) (price : Px) (quantity : Qty) (fee : Notional) :
    account.applyFill tradeId side price quantity fee = ({ error := .faulted }, account) := by
  simp [applyFill, screenFill, h]

/-- A mark renames no account and faults none. -/
theorem applyMark_identity (account : PositionAccount) (mark : MarkPrice) (now maxAge : Nanos) :
    (account.applyMark mark now maxAge).2.symbol = account.symbol ∧
      (account.applyMark mark now maxAge).2.faulted = account.faulted := by
  rcases applyMark_cases account mark now maxAge with ⟨-, hrefused⟩ | ⟨-, haccepted⟩
  · obtain ⟨lastMark, hafter⟩ := hrefused.after_eq
    rw [hafter]
    exact ⟨rfl, rfl⟩
  · obtain ⟨value, -, -, hafter⟩ := haccepted.after_eq
    rw [hafter]
    exact ⟨rfl, rfl⟩

end PositionAccount

namespace PortfolioSnapshot

theorem addNet_valid {snapshot : PortfolioSnapshot} {account : PositionAccount}
    (h : (snapshot.addNet account).valid = true) : snapshot.valid = true := by
  rw [addNet] at h
  repeat' split at h
  all_goals simp_all

theorem addPnl_valid {snapshot : PortfolioSnapshot} {pnl : PnlBreakdown}
    (h : (snapshot.addPnl pnl).valid = true) : snapshot.valid = true := by
  simp only [addPnl, unusable] at h
  repeat' split at h
  all_goals simp_all

/-- A snapshot stays valid only across accounts that are not faulted. -/
theorem addAccount_valid {snapshot : PortfolioSnapshot} {account : PositionAccount}
    (h : (snapshot.addAccount account).valid = true) :
    snapshot.valid = true ∧ account.faulted = false := by
  rw [addAccount] at h
  split at h
  · cases h
  · rename_i hfaulted
    simp only at h
    split at h
    · cases h
    · split at h
      · cases h
      · have hvalid := addNet_valid (addPnl_valid h)
        refine ⟨?_, by simpa using hfaulted⟩
        by_cases hflat : account.isFlat = true
        · simpa [hflat] using hvalid
        · simpa [hflat] using hvalid

theorem foldl_addAccount_valid {accounts : List PositionAccount} {snapshot : PortfolioSnapshot}
    (h : (accounts.foldl addAccount snapshot).valid = true) :
    snapshot.valid = true ∧ ∀ account ∈ accounts, account.faulted = false := by
  induction accounts generalizing snapshot with
  | nil => exact ⟨h, by simp⟩
  | cons account accounts ih =>
      obtain ⟨hnext, hrest⟩ := ih h
      obtain ⟨hfirst, hfaulted⟩ := addAccount_valid hnext
      refine ⟨hfirst, ?_⟩
      simpa [hfaulted] using hrest

theorem close_valid {snapshot : PortfolioSnapshot} (h : snapshot.close.valid = true) :
    snapshot.valid = true := by
  simp only [close] at h
  split at h
  · cases h
  · exact h

end PortfolioSnapshot

namespace PortfolioAccountant

/-- The first account of the symbol is faulted. -/
def FaultedAt (symbol : Symbol) (accountant : PortfolioAccountant) : Prop :=
  ∃ account, accountant.find symbol = some account ∧ account.faulted = true

/-- A faulted account is withheld from risk: its position and the portfolio are both
invalid. -/
theorem FaultedAt.untrusted {accountant : PortfolioAccountant} {symbol : Symbol}
    (h : accountant.FaultedAt symbol) (now : Nanos) :
    (accountant.positionSnapshot symbol now).valid = false ∧
      (accountant.portfolioSnapshot now).valid = false := by
  obtain ⟨account, hfind, hfaulted⟩ := h
  constructor
  · simp [positionSnapshot, hfind, hfaulted]
  · rw [← Bool.not_eq_true]
    intro hvalid
    have hall := (PortfolioSnapshot.foldl_addAccount_valid (PortfolioSnapshot.close_valid hvalid)).2
    have hnot := hall account (List.mem_of_find?_eq_some hfind)
    rw [hfaulted] at hnot
    cases hnot

/-- Writing back an account of the symbol keeps every fault that the account keeps. -/
theorem FaultedAt.put {accountant : PortfolioAccountant} {symbol other : Symbol}
    {known account : PositionAccount} (h : accountant.FaultedAt symbol)
    (hfind : accountant.find other = some known) (hsymbol : account.symbol = other)
    (hfault : other = symbol → known.faulted = true → account.faulted = true) :
    (accountant.put other account).FaultedAt symbol := by
  obtain ⟨faulted, hfaulted, htrue⟩ := h
  by_cases hother : other = symbol
  · subst hother
    rw [hfind] at hfaulted
    cases hfaulted
    exact ⟨account, find_put_self hfind hsymbol, hfault rfl htrue⟩
  · exact ⟨faulted, by rw [find_put_other hsymbol (Ne.symm hother), hfaulted], htrue⟩

/-- The account that a fill leaves behind, with the fault an overflow adds. -/
def filled (account : PositionAccount) (fill : FillEvent) : PositionAccount :=
  let result := account.applyFill fill.tradeId fill.side fill.price fill.quantity fill.fee
  if result.1.error = .arithmeticOverflow then result.2.fault else result.2

theorem filled_symbol (account : PositionAccount) (fill : FillEvent) :
    (filled account fill).symbol = account.symbol := by
  have hsymbol := (account.applyFill_identity fill.tradeId fill.side fill.price fill.quantity
    fill.fee).1
  simp only [filled]
  split <;> exact hsymbol

theorem onFill_of_find {accountant : PortfolioAccountant} {fill : FillEvent}
    {account : PositionAccount} (h : accountant.find fill.symbol = some account) :
    (accountant.onFill fill).1 =
        (account.applyFill fill.tradeId fill.side fill.price fill.quantity fill.fee).1 ∧
      (accountant.onFill fill).2.accounts =
        (accountant.put fill.symbol (filled account fill)).accounts := by
  simp only [onFill, h, filled]
  exact ⟨trivial, trivial⟩

/-- Faults are read from the accounts alone. -/
theorem FaultedAt.of_accounts_eq {accountant after : PortfolioAccountant} {symbol : Symbol}
    (h : accountant.FaultedAt symbol) (haccounts : after.accounts = accountant.accounts) :
    after.FaultedAt symbol := by
  rw [FaultedAt, find] at *
  rwa [haccounts]

theorem FaultedAt.onFill {accountant : PortfolioAccountant} {symbol : Symbol}
    (h : accountant.FaultedAt symbol) (fill : FillEvent) :
    (accountant.onFill fill).2.FaultedAt symbol := by
  cases hfind : accountant.find fill.symbol with
  | none =>
      apply h.of_accounts_eq
      simp only [PortfolioAccountant.onFill, hfind]
  | some account =>
      have hput : (accountant.put fill.symbol (filled account fill)).FaultedAt symbol := by
        refine h.put hfind ((filled_symbol account fill).trans (symbol_of_find hfind)) ?_
        intro _ hfaulted
        simp [filled, PositionAccount.applyFill_of_faulted hfaulted, hfaulted]
      exact hput.of_accounts_eq (onFill_of_find hfind).2

theorem FaultedAt.onMark {accountant : PortfolioAccountant} {symbol : Symbol}
    (h : accountant.FaultedAt symbol) (mark : MarkPrice) (now : Nanos) :
    (accountant.onMark mark now).2.FaultedAt symbol := by
  cases hfind : accountant.find mark.symbol with
  | none =>
      apply h.of_accounts_eq
      simp only [PortfolioAccountant.onMark, hfind]
  | some account =>
      obtain ⟨hsymbol, hfaulted⟩ :=
        account.applyMark_identity mark now accountant.config.maxMarkAgeNs
      have hput : (accountant.put mark.symbol
          (account.applyMark mark now accountant.config.maxMarkAgeNs).2).FaultedAt symbol :=
        h.put hfind (hsymbol.trans (symbol_of_find hfind)) fun _ htrue => hfaulted.trans htrue
      apply hput.of_accounts_eq
      simp only [PortfolioAccountant.onMark, hfind]

theorem FaultedAt.registerSymbol {accountant : PortfolioAccountant} {symbol : Symbol}
    (h : accountant.FaultedAt symbol) (other : Symbol) :
    (accountant.registerSymbol other).2.FaultedAt symbol := by
  rw [PortfolioAccountant.registerSymbol]
  split
  · exact h
  split
  · exact h
  split
  · exact h
  · obtain ⟨account, hfind, hfaulted⟩ := h
    refine ⟨account, ?_, hfaulted⟩
    rw [find, List.find?_append]
    rw [find] at hfind
    rw [hfind, Option.some_or]

/-- Nothing but clearing it takes a fault away. -/
theorem faultedAt_step {symbol : Symbol} (op : Op) (accountant : PortfolioAccountant)
    (h : accountant.FaultedAt symbol) (hop : op ≠ .clearFault symbol) :
    (step op accountant).FaultedAt symbol := by
  cases op with
  | registerSymbol other => exact h.registerSymbol other
  | fill fill => exact h.onFill fill
  | mark mark now => exact h.onMark mark now
  | balance update now =>
      apply h.of_accounts_eq
      simp only [step, onBalance]
      split_ifs <;> rfl
  | restore state =>
      -- Nothing is restored into an accountant that holds accounts.
      obtain ⟨account, hfind, -⟩ := id h
      have hheld : accountant.accounts.isEmpty = false := by
        rw [List.isEmpty_eq_false_iff_exists_mem]
        exact ⟨account, List.mem_of_find?_eq_some hfind⟩
      simpa [step, restore, hheld] using h
  | clearFault other =>
      have hother : other ≠ symbol := fun heq => hop (by rw [heq])
      simp only [step, clearFault]
      split
      · exact h
      · rename_i account hfind
        have hsymbol : account.symbol = other := symbol_of_find hfind
        exact h.put hfind hsymbol fun heq => absurd heq hother

/-! ## Which fills are lost silently -/

/-- What a fill event must be for the account to compute with it. -/
def Bookable (fill : FillEvent) : Prop :=
  fill.tradeId.isEmpty = false ∧ 0 < fill.quantity.raw ∧ 0 < fill.price.raw ∧ 0 ≤ fill.fee.raw

/-- The books are known to be wrong, and say so until the fault is cleared. -/
def UntrustedUntilCleared (symbol : Symbol) (accountant : PortfolioAccountant) : Prop :=
  ∀ ops : List Op, (∀ op ∈ ops, op ≠ .clearFault symbol) → ∀ now : Nanos,
    ((Machine.run step ops accountant).positionSnapshot symbol now).valid = false ∧
      ((Machine.run step ops accountant).portfolioSnapshot now).valid = false

theorem FaultedAt.untrustedUntilCleared {accountant : PortfolioAccountant} {symbol : Symbol}
    (h : accountant.FaultedAt symbol) : accountant.UntrustedUntilCleared symbol := by
  intro ops hops now
  have halong : Machine.Along step (fun op _ => op ≠ .clearFault symbol) ops accountant :=
    Machine.along_label_iff.mpr hops
  exact (Machine.invariant_run faultedAt_step h halong).untrusted now

/-- A refusal other than an overflow leaves an unfaulted account trusted. -/
theorem not_untrusted_of_find {accountant : PortfolioAccountant} {symbol : Symbol}
    {account : PositionAccount} (hfind : accountant.find symbol = some account)
    (hfaulted : account.faulted = false) : ¬accountant.UntrustedUntilCleared symbol := by
  intro huntrusted
  have hposition := (huntrusted [] (by simp) 0).1
  simp [positionSnapshot, hfind, hfaulted] at hposition

/-- The error of a fill whose input the account refuses, when the account itself is
not faulted. -/
theorem screenFill_of_not_bookable {account : PositionAccount} {fill : FillEvent}
    (hfaulted : account.faulted = false) (h : ¬Bookable fill) :
    corruptsLedger (account.screenFill fill.tradeId fill.price fill.quantity fill.fee) = true ∧
      account.screenFill fill.tradeId fill.price fill.quantity fill.fee ≠ .arithmeticOverflow := by
  rw [PositionAccount.screenFill]
  rw [if_neg (by simp [hfaulted])]
  split_ifs with hid hquantity hprice hfee hseen
  · exact ⟨rfl, by decide⟩
  · exact ⟨rfl, by decide⟩
  · exact ⟨rfl, by decide⟩
  · exact ⟨rfl, by decide⟩
  all_goals
    exact absurd ⟨by simpa using hid, by simpa using hquantity, by simpa using hprice,
      by simpa using hfee⟩ h

/-- The screening of a fill that the account can compute with. -/
theorem screenFill_of_bookable {account : PositionAccount} {fill : FillEvent}
    (hfaulted : account.faulted = false) (h : Bookable fill) :
    account.screenFill fill.tradeId fill.price fill.quantity fill.fee = .none ∨
      account.screenFill fill.tradeId fill.price fill.quantity fill.fee = .duplicateFill := by
  obtain ⟨hid, hquantity, hprice, hfee⟩ := h
  simp only [PositionAccount.screenFill, hfaulted, hid, Fixed.isPositive, hquantity, hprice,
    Fixed.isNegative, Int.not_lt.mpr hfee]
  by_cases hseen : account.seen.contains fill.tradeId = true
  · simp [hseen]
  · simp [hseen]

/-- Without a fault, a fill that cannot be booked is dropped and nothing is written. -/
theorem applyFill_of_not_bookable {account : PositionAccount} {fill : FillEvent}
    (hfaulted : account.faulted = false) (h : ¬Bookable fill) :
    ∃ error, corruptsLedger error = true ∧ error ≠ .arithmeticOverflow ∧
      account.applyFill fill.tradeId fill.side fill.price fill.quantity fill.fee =
        ({ error := error }, account) := by
  obtain ⟨hcorrupts, hoverflow⟩ := screenFill_of_not_bookable hfaulted h
  refine ⟨_, hcorrupts, hoverflow, ?_⟩
  rw [PositionAccount.applyFill]
  split
  · rename_i hscreen
    rw [hscreen] at hcorrupts
    cases hcorrupts
  · rfl

/-- Without a fault, a fill that can be booked is lost to an overflow or not at all. -/
theorem applyFill_overflow_of_bookable {account : PositionAccount} {fill : FillEvent}
    (hfaulted : account.faulted = false) (h : Bookable fill)
    (hcorrupts : corruptsLedger
      (account.applyFill fill.tradeId fill.side fill.price fill.quantity fill.fee).1.error = true) :
    (account.applyFill fill.tradeId fill.side fill.price fill.quantity fill.fee).1.error =
      .arithmeticOverflow := by
  rw [PositionAccount.applyFill] at hcorrupts ⊢
  rcases screenFill_of_bookable hfaulted h with hscreen | hscreen
  · simp only [hscreen] at hcorrupts ⊢
    split at hcorrupts
    · rfl
    · rename_i hcommit
      rw [(PositionAccount.commitFill_identity hcommit).1] at hcorrupts
      cases hcorrupts
  · simp only [hscreen] at hcorrupts
    cases hcorrupts

theorem find_onFill {accountant : PortfolioAccountant} {fill : FillEvent}
    {account : PositionAccount} (h : accountant.find fill.symbol = some account) :
    (accountant.onFill fill).2.find fill.symbol = some (filled account fill) := by
  have hsymbol := (filled_symbol account fill).trans (symbol_of_find h)
  have hput := find_put_self h hsymbol
  rw [find] at hput ⊢
  rw [(onFill_of_find h).2, hput]

/-- A lost fill makes the books untrusted exactly when the account was faulted
already, or the fill was one the account could compute with. -/
theorem lost_fill_untrusted_iff {accountant : PortfolioAccountant} {fill : FillEvent}
    {account : PositionAccount} (hfind : accountant.find fill.symbol = some account) :
    (corruptsLedger (accountant.onFill fill).1.error = true →
        (accountant.onFill fill).2.UntrustedUntilCleared fill.symbol) ↔
      account.faulted = true ∨
        (fill.tradeId.isEmpty = false ∧ 0 < fill.quantity.raw ∧ 0 < fill.price.raw ∧
          0 ≤ fill.fee.raw) := by
  have houtcome := (onFill_of_find hfind).1
  have hafter := find_onFill hfind
  by_cases hfaulted : account.faulted = true
  · have huntrusted :=
      (FaultedAt.onFill ⟨account, hfind, hfaulted⟩ fill).untrustedUntilCleared
    exact iff_of_true (fun _ => huntrusted) (.inl hfaulted)
  · rw [Bool.not_eq_true] at hfaulted
    rw [houtcome, hfaulted]
    constructor
    · intro huntrusted
      by_contra hnot
      have hbook : ¬Bookable fill := fun hbook => hnot (.inr hbook)
      obtain ⟨error, hcorrupts, hoverflow, hrefused⟩ := applyFill_of_not_bookable hfaulted hbook
      rw [hrefused] at huntrusted
      refine not_untrusted_of_find hafter ?_ (huntrusted hcorrupts)
      simpa [filled, hrefused, hoverflow] using hfaulted
    · rintro (htrue | hbook) hcorrupts
      · cases htrue
      · have hoverflow := applyFill_overflow_of_bookable hfaulted hbook hcorrupts
        refine FaultedAt.untrustedUntilCleared ⟨filled account fill, hafter, ?_⟩
        simp [filled, hoverflow, PositionAccount.fault]

/-- A symbol to account for. -/
def sampleSymbol : Symbol := ⟨"BTCUSDT".toList, by decide⟩

/-- A well-formed fill of one unit at one, with the given fee. -/
def sampleFill (fee : Notional) : FillEvent where
  clientOrderId := ⟨"c1".toList, by decide⟩
  exchangeOrderId := ⟨"x1".toList, by decide⟩
  tradeId := ⟨"t1".toList, by decide⟩
  symbol := sampleSymbol
  side := .buy
  price := ⟨100000000, by decide, by decide⟩
  quantity := ⟨100000000, by decide, by decide⟩
  cumulativeQty := ⟨100000000, by decide, by decide⟩
  leavesQty := .zero
  fee := fee
  liquidity := .maker
  orderStatus := .filled
  transactNs := 1
  seq := 1

/-- An accountant with the one symbol registered. -/
def sampleAccountant : PortfolioAccountant := ((new {}).registerSymbol sampleSymbol).2

/-- A fill too large to be valued is lost, and the books say so. -/
theorem oversized_fill_untrusted :
    corruptsLedger (sampleAccountant.onFill
        { sampleFill .zero with price := .max, quantity := .max }).1.error = true ∧
      (sampleAccountant.onFill
        { sampleFill .zero with price := .max, quantity := .max }).2.UntrustedUntilCleared
          sampleSymbol := by
  have hcorrupts : corruptsLedger (sampleAccountant.onFill
      { sampleFill .zero with price := .max, quantity := .max }).1.error = true := by decide
  have hfind : sampleAccountant.find sampleSymbol = some { symbol := sampleSymbol } := by decide
  exact ⟨hcorrupts, (lost_fill_untrusted_iff hfind).mpr (.inr (by decide)) hcorrupts⟩

/-- A rebate is dropped, and the books go on reading as flat and valid. -/
theorem rebate_fill_lost_silently :
    (sampleFill ⟨-1, by decide, by decide⟩).validate = .ok ∧
      corruptsLedger
        (sampleAccountant.onFill (sampleFill ⟨-1, by decide, by decide⟩)).1.error = true ∧
      ((sampleAccountant.onFill (sampleFill ⟨-1, by decide, by decide⟩)).2.positionSnapshot
        sampleSymbol 0).valid = true ∧
      ((sampleAccountant.onFill (sampleFill ⟨-1, by decide, by decide⟩)).2.portfolioSnapshot
        0).valid = true := by
  decide

end PortfolioAccountant

end MmEngine.Portfolio
