/-
# The accountant

Many symbols, one ledger: the accountant routes fills and marks to the account of
their symbol and publishes what risk consumes. Symbols are found by a scan that
stops at the first account, and an unregistered symbol is refused, never created.

Every call is handed the reading of the steady clock it makes.
-/

import MmEngine.Common.Instrument
import MmEngine.Lib.Keyed
import MmEngine.Portfolio.PositionAccount
import MmEngine.Risk.PositionState

namespace MmEngine.Portfolio

open MmEngine.Exchange

structure AccountingConfig where
  /-- Marks older than this make unrealized PnL indeterminate. -/
  maxMarkAgeNs : Nanos := 5000000000
  maxSymbols : Nat := 32
  deriving DecidableEq

structure AccountingMetrics where
  fillsApplied : Nat := 0
  duplicateFills : Nat := 0
  rejectedFills : Nat := 0
  flips : Nat := 0
  closes : Nat := 0
  marksApplied : Nat := 0
  marksRejected : Nat := 0
  staleMarks : Nat := 0
  overflows : Nat := 0
  faults : Nat := 0
  deriving DecidableEq

/-- A venue's report of a balance. -/
structure BalanceUpdateEvent where
  asset : Asset
  free : Qty
  locked : Qty
  deriving DecidableEq

structure AssetBalance where
  asset : Asset := .empty
  free : Qty := .zero
  locked : Qty := .zero
  asOfNs : Nanos := 0
  valid : Bool := false
  deriving DecidableEq

structure PortfolioSnapshot where
  valid : Bool := false
  pnlDeterminate : Bool := false
  grossNotional : Notional := .zero
  netNotional : Notional := .zero
  realized : Notional := .zero
  unrealized : Notional := .zero
  fees : Notional := .zero
  funding : Notional := .zero
  netPnl : Notional := .zero
  symbolsWithPosition : Nat := 0
  symbolCount : Nat := 0
  sequence : Nat := 0
  asOfNs : Nanos := 0
  degraded : Bool := false
  deriving DecidableEq

/-- The accountant. The vector of balances never grows past the capacity it was
given, or the larger one a restored vector brought. -/
structure PortfolioAccountant where
  config : AccountingConfig
  accounts : List PositionAccount
  balances : List AssetBalance
  balanceCapacity : Nat
  sequence : Nat
  metrics : AccountingMetrics
  deriving DecidableEq

namespace PortfolioSnapshot

/-- The numbers cannot be vouched for. -/
def unusable (snapshot : PortfolioSnapshot) : PortfolioSnapshot :=
  { snapshot with degraded := true, valid := false, pnlDeterminate := false }

/-- Adds the signed value of a position. One that cannot be represented is skipped,
and a total that cannot be represented spoils the snapshot. -/
def addNet (snapshot : PortfolioSnapshot) (account : PositionAccount) : PortfolioSnapshot :=
  match checkedNotionalOf account.valuationPrice account.position with
  | none => snapshot
  | some signedValue =>
      match Fixed.checkedAdd snapshot.netNotional signedValue with
      | none => { snapshot with degraded := true, valid := false }
      | some netNotional => { snapshot with netNotional := netNotional }

/-- Adds the profit and loss of an account. -/
def addPnl (snapshot : PortfolioSnapshot) (pnl : PnlBreakdown) : PortfolioSnapshot :=
  match Fixed.checkedAdd snapshot.realized pnl.realized with
  | none => snapshot.unusable
  | some realized =>
      let snapshot := { snapshot with realized := realized }
      match Fixed.checkedAdd snapshot.fees pnl.fees with
      | none => snapshot.unusable
      | some fees =>
          let snapshot := { snapshot with fees := fees }
          -- One indeterminate mark makes the portfolio's PnL indeterminate.
          if !pnl.unrealizedValid then { snapshot with pnlDeterminate := false }
          else
            match Fixed.checkedAdd snapshot.unrealized pnl.unrealized with
            | none => snapshot.unusable
            | some unrealized => { snapshot with unrealized := unrealized }

/-- One iteration of the aggregation. -/
def addAccount (snapshot : PortfolioSnapshot) (account : PositionAccount) : PortfolioSnapshot :=
  if account.faulted then snapshot.unusable
  else
    let snapshot :=
      if account.isFlat then snapshot
      else { snapshot with symbolsWithPosition := snapshot.symbolsWithPosition + 1 }
    match account.checkedGrossExposure with
    | none => snapshot.unusable
    | some gross =>
        match Fixed.checkedAdd snapshot.grossNotional gross.saturatingAbs with
        | none => snapshot.unusable
        | some grossNotional =>
            ({ snapshot with grossNotional := grossNotional }.addNet account).addPnl account.pnl

/-- The net result, once everything is added up. -/
def close (snapshot : PortfolioSnapshot) : PortfolioSnapshot :=
  let total : PnlBreakdown :=
    { realized := snapshot.realized
      unrealized := snapshot.unrealized
      fees := snapshot.fees
      funding := snapshot.funding }
  match total.checkedNet with
  | none => { snapshot.unusable with netPnl := .zero }
  | some netPnl => { snapshot with netPnl := netPnl }

end PortfolioSnapshot

namespace PortfolioAccountant

/-- An accountant over no symbols. -/
def new (config : AccountingConfig) : PortfolioAccountant where
  config := config
  accounts := []
  balances := []
  balanceCapacity := config.maxSymbols * 2
  sequence := 0
  metrics := {}

def find (accountant : PortfolioAccountant) (symbol : Symbol) : Option PositionAccount :=
  accountant.accounts.find? fun account => account.symbol = symbol

/-- Writes back the account that `find` returns. -/
def put (accountant : PortfolioAccountant) (symbol : Symbol) (account : PositionAccount) :
    PortfolioAccountant :=
  { accountant with
    accounts := Keyed.put PositionAccount.symbol symbol account accountant.accounts }

def registerSymbol (accountant : PortfolioAccountant) (symbol : Symbol) :
    AccountingError × PortfolioAccountant :=
  if symbol.isEmpty then (.unknownSymbol, accountant)
  else if (accountant.find symbol).isSome then (.none, accountant)
  else if accountant.config.maxSymbols ≤ accountant.accounts.length then
    (.capacityExhausted, accountant)
  else (.none, { accountant with accounts := accountant.accounts ++ [{ symbol := symbol }] })

/-- What the accountant counts about a fill. -/
def countFill (metrics : AccountingMetrics) (outcome : FillOutcome) : AccountingMetrics :=
  match outcome.error with
  | .none =>
      { metrics with
        fillsApplied := metrics.fillsApplied + 1
        flips := if outcome.flipped then metrics.flips + 1 else metrics.flips
        closes := if outcome.closed then metrics.closes + 1 else metrics.closes }
  | .duplicateFill => { metrics with duplicateFills := metrics.duplicateFills + 1 }
  | .arithmeticOverflow =>
      { metrics with
        overflows := metrics.overflows + 1
        rejectedFills := metrics.rejectedFills + 1
        faults := metrics.faults + 1 }
  | _ => { metrics with rejectedFills := metrics.rejectedFills + 1 }

/-- Applies a confirmed fill. The account is faulted when the arithmetic would have
wrapped. -/
def onFill (accountant : PortfolioAccountant) (fill : FillEvent) :
    FillOutcome × PortfolioAccountant :=
  match accountant.find fill.symbol with
  | none =>
      ({ error := .unknownSymbol },
        { accountant with
          metrics := { accountant.metrics with
            rejectedFills := accountant.metrics.rejectedFills + 1 } })
  | some account =>
      let (outcome, account) :=
        account.applyFill fill.tradeId fill.side fill.price fill.quantity fill.fee
      let account := if outcome.error = .arithmeticOverflow then account.fault else account
      (outcome,
        { accountant.put fill.symbol account with
          sequence :=
            if outcome.error = .none then accountant.sequence + 1 else accountant.sequence
          metrics := countFill accountant.metrics outcome })

/-- What the accountant counts about a mark. -/
def countMark (metrics : AccountingMetrics) (error : AccountingError) : AccountingMetrics :=
  if error = .none then { metrics with marksApplied := metrics.marksApplied + 1 }
  else
    { metrics with
      staleMarks := if error = .staleMark then metrics.staleMarks + 1 else metrics.staleMarks
      marksRejected := metrics.marksRejected + 1 }

/-- Applies a mark. -/
def onMark (accountant : PortfolioAccountant) (mark : MarkPrice) (now : Nanos) :
    AccountingError × PortfolioAccountant :=
  match accountant.find mark.symbol with
  | none =>
      (.unknownSymbol,
        { accountant with
          metrics := { accountant.metrics with
            marksRejected := accountant.metrics.marksRejected + 1 } })
  | some account =>
      let (error, account) := account.applyMark mark now accountant.config.maxMarkAgeNs
      (error,
        { accountant.put mark.symbol account with
          sequence := if error = .none then accountant.sequence + 1 else accountant.sequence
          metrics := countMark accountant.metrics error })

/-- Records the venue's view of a balance. -/
def onBalance (accountant : PortfolioAccountant) (update : BalanceUpdateEvent) (now : Nanos) :
    AccountingError × PortfolioAccountant :=
  let balance : AssetBalance := ⟨update.asset, update.free, update.locked, now, true⟩
  if update.asset.isEmpty then (.unknownSymbol, accountant)
  else if update.free.isNegative || update.locked.isNegative then (.invalidQuantity, accountant)
  else if accountant.balances.any fun known => known.asset = update.asset then
    (.none,
      { accountant with
        balances := Keyed.put AssetBalance.asset update.asset balance accountant.balances })
  else if accountant.balanceCapacity ≤ accountant.balances.length then
    (.capacityExhausted, accountant)
  else (.none, { accountant with balances := accountant.balances ++ [balance] })

def positionSnapshot (accountant : PortfolioAccountant) (symbol : Symbol) (now : Nanos) :
    Risk.PositionSnapshot :=
  match accountant.find symbol with
  | none => { symbol := symbol }
  | some account =>
      -- A faulted account must not read as flat.
      if account.faulted then { symbol := symbol }
      else
        { valid := true
          symbol := symbol
          quantity := account.position
          notional := account.checkedCostBasis.getD .zero
          averagePrice := account.averagePrice
          asOfNs := now
          sequence := accountant.sequence }

def portfolioSnapshot (accountant : PortfolioAccountant) (now : Nanos) : PortfolioSnapshot :=
  (accountant.accounts.foldl PortfolioSnapshot.addAccount
    { valid := true
      pnlDeterminate := true
      symbolCount := accountant.accounts.length
      sequence := accountant.sequence
      asOfNs := now }).close

def riskView (accountant : PortfolioAccountant) (now : Nanos) : Risk.PortfolioState :=
  let snapshot := accountant.portfolioSnapshot now
  { valid := snapshot.valid
    pnlDeterminate := snapshot.pnlDeterminate
    grossNotional := snapshot.grossNotional
    netNotional := snapshot.netNotional
    realized := snapshot.realized
    unrealized := snapshot.unrealized
    fees := snapshot.fees
    netPnl := snapshot.netPnl
    asOfNs := snapshot.asOfNs
    sequence := snapshot.sequence }

structure RecoveryState where
  sequence : Nat
  accounts : List PositionAccount.State
  balances : List AssetBalance
  deriving DecidableEq

def save (accountant : PortfolioAccountant) : RecoveryState where
  sequence := accountant.sequence
  accounts := accountant.accounts.map PositionAccount.save
  balances := accountant.balances

/-- Restores saved accounts one after the other, up to the first that is refused. -/
def restoreAccounts : List PositionAccount.State → Except AccountingError (List PositionAccount)
  | [] => .ok []
  | state :: states =>
      match PositionAccount.restore {} state with
      | (.none, account) => (account :: ·) <$> restoreAccounts states
      | (error, _) => .error error

/-- Adopts a saved ledger as a whole, or nothing of it. -/
def restore (accountant : PortfolioAccountant) (state : RecoveryState) :
    AccountingError × PortfolioAccountant :=
  if !accountant.accounts.isEmpty then (.corruptSnapshot, accountant)
  else if accountant.config.maxSymbols < state.accounts.length then (.capacityExhausted, accountant)
  else
    match restoreAccounts state.accounts with
    | .error error => (error, accountant)
    | .ok accounts =>
        (.none,
          { accountant with
            accounts := accounts
            balances := state.balances
            balanceCapacity := max accountant.balanceCapacity state.balances.length
            sequence := state.sequence })

end PortfolioAccountant

end MmEngine.Portfolio
