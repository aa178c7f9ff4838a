/-
# One order's authoritative record

The record of an order, the ring of trade identifiers it has applied, and the
generator of client order identifiers. The ring carries its own
well-formedness: a slot index that is always in range and a count that never
exceeds the capacity.
-/

import MmEngine.Oms.OrderTypes
import MmEngine.Quote.OrderAction
import Mathlib.Data.Nat.Digits.Lemmas

namespace MmEngine.Oms

open MmEngine.Exchange MmEngine.Quote

/-- A fixed ring of the trade identifiers applied to one order. -/
structure SeenTradeIds where
  ids : List TradeId
  count : Nat
  next : Nat
  overflowed : Bool
  length_ids : ids.length = 32
  count_le : count ≤ 32
  next_lt : next < 32

namespace SeenTradeIds

def kCapacity : Nat := 32

/-- The empty ring. -/
def empty : SeenTradeIds where
  ids := List.replicate 32 .empty
  count := 0
  next := 0
  overflowed := false
  length_ids := List.length_replicate
  count_le := by decide
  next_lt := by decide

def contains (seen : SeenTradeIds) (id : TradeId) : Bool :=
  (seen.ids.take seen.count).any fun known => known = id

/-- Records an identifier; `none` when it has already been applied. Once the
ring is full the oldest identifier is evicted and the loss is flagged. -/
def insert (seen : SeenTradeIds) (id : TradeId) : Option SeenTradeIds :=
  if seen.contains id then none
  else some
    { ids := seen.ids.set seen.next id
      count := if seen.count < kCapacity then seen.count + 1 else seen.count
      next := (seen.next + 1) % kCapacity
      overflowed := seen.overflowed || !decide (seen.count < kCapacity)
      length_ids := by rw [List.length_set, seen.length_ids]
      count_le := by
        have hle := seen.count_le
        by_cases hroom : seen.count < kCapacity
        · rw [if_pos hroom]
          exact hroom
        · rw [if_neg hroom]
          exact hle
      next_lt := Nat.mod_lt _ (by decide) }

/-- An identifier is recorded only when it was not there. -/
theorem contains_eq_false_of_insert {seen result : SeenTradeIds} {id : TradeId}
    (h : seen.insert id = some result) : seen.contains id = false := by
  cases hcontains : seen.contains id with
  | false => rfl
  | true => simp [insert, hcontains] at h

end SeenTradeIds

/-- Who an order belongs to. -/
structure OrderOwnership where
  strategy : StrategyName := .empty
  slot : QuoteSlot := .bid
  generation : Nat := 0
  creationSequence : Nat := 0
  deriving DecidableEq

def OrderOwnership.matches (ownership : OrderOwnership) (owner : StrategyName)
    (which : QuoteSlot) : Bool :=
  !ownership.strategy.isEmpty && ownership.strategy = owner && ownership.slot = which

/-- The authoritative record. One per logical order. -/
structure OrderRecord where
  logicalId : LogicalOrderId := 0
  clientOrderId : ClientOrderId := .empty
  exchangeOrderId : ExchangeOrderId := .empty
  ownership : OrderOwnership := {}
  symbol : Symbol := .empty
  side : Side := .buy
  type : OrderType := .limit
  tif : TimeInForce := .gtc
  price : Px := .zero
  originalQuantity : Qty := .zero
  state : OrderState := .created
  cumulativeQuantity : Qty := .zero
  averageFillPrice : Px := .zero
  cumulativeFees : Notional := .zero
  seenTrades : SeenTradeIds := .empty
  pendingRequest : RequestId := 0
  pendingSinceNs : Nanos := 0
  pendingPrice : Px := .zero
  pendingQuantity : Qty := .zero
  pendingClientOrderId : ClientOrderId := .empty
  createdNs : Nanos := 0
  sentNs : Nanos := 0
  acknowledgedNs : Nanos := 0
  terminalNs : Nanos := 0
  venueNs : Nanos := 0
  lastAppliedSequence : Seq := kNoSeq

namespace OrderRecord

/-- Remaining size, floored at zero. -/
def remaining (order : OrderRecord) : Qty :=
  match Fixed.checkedSub order.originalQuantity order.cumulativeQuantity with
  | none => .zero
  | some left => if left.isPositive then left else .zero

def isTerminal (order : OrderRecord) : Bool := order.state.isTerminal

def isLive (order : OrderRecord) : Bool := order.state.isLive

def consumesExposure (order : OrderRecord) : Bool := order.state.consumesExposure

/-- True when a request is recorded as outstanding. -/
def hasPendingRequest (order : OrderRecord) : Bool := order.pendingRequest ≠ 0

/-- The record after a transition: a legal one moves the state and, on reaching
a terminal state, settles the outstanding request; an illegal one changes
nothing. -/
def transition (order : OrderRecord) (target : OrderState) (now : Nanos) : OrderRecord :=
  if isLegalTransition order.state target then
    if target.isTerminal then
      { order with
        state := target
        terminalNs := now
        pendingRequest := 0
        pendingSinceNs := 0 }
    else { order with state := target }
  else order

/-- The state an order that is known to be resting goes back to. -/
def restingState (order : OrderRecord) : OrderState :=
  if order.cumulativeQuantity.isPositive then .partiallyFilled else .working

end OrderRecord

/-- One journal record, with what is needed to reconstruct its transition. -/
structure OrderJournalRecord where
  sequence : Nat := 0
  type : OrderEventType := .none
  logicalId : LogicalOrderId := 0
  clientOrderId : ClientOrderId := .empty
  exchangeOrderId : ExchangeOrderId := .empty
  symbol : Symbol := .empty
  side : Side := .buy
  fromState : OrderState := .created
  toState : OrderState := .created
  price : Px := .zero
  quantity : Qty := .zero
  cumulativeQuantity : Qty := .zero
  tradeId : TradeId := .empty
  reject : OmsReject := .none
  requestId : RequestId := 0
  recordedNs : Nanos := 0
  venueNs : Nanos := 0
  generation : Nat := 0

/-- The base-36 alphabet. -/
def kDigits : List Char :=
  ['0', '1', '2', '3', '4', '5', '6', '7', '8', '9', 'a', 'b', 'c', 'd', 'e', 'f', 'g', 'h',
    'i', 'j', 'k', 'l', 'm', 'n', 'o', 'p', 'q', 'r', 's', 't', 'u', 'v', 'w', 'x', 'y', 'z']

/-- Base-36 text of a number: digits are produced least significant first and
then reversed. The 16-character buffer of the source holds every 64-bit value. -/
def encodeBase36 (value : Nat) : List Char :=
  if value = 0 then ['0']
  else ((Nat.digits 36 value).map fun digit => kDigits.getD digit '0').reverse

/-- Generator of client order identifiers for one prefix and session. -/
structure ClientOrderIdGenerator where
  idPrefix : InlineString 16 := .empty
  sessionId : Nat := 0
  sequence : Nat := 0
  maxLength : Nat := 36
  generated : Nat := 0
  failures : Nat := 0
  deriving DecidableEq

namespace ClientOrderIdGenerator

/-- The text of the identifier with the given sequence number:
prefix, session and sequence separated by dashes. -/
def idText (generator : ClientOrderIdGenerator) (sequence : Nat) : List Char :=
  generator.idPrefix.chars ++
    '-' :: (encodeBase36 generator.sessionId ++ '-' :: encodeBase36 sequence)

/-- Produces the next identifier, or fails when it would exceed the venue's
limit. The sequence advances in both cases. -/
def next (generator : ClientOrderIdGenerator) : Option ClientOrderId × ClientOrderIdGenerator :=
  let sequence := generator.sequence + 1
  let text := generator.idText sequence
  if h : text.length ≤ generator.maxLength ∧ text.length ≤ 40 then
    (some ⟨text, h.2⟩,
      { generator with sequence := sequence, generated := generator.generated + 1 })
  else
    (none, { generator with sequence := sequence, failures := generator.failures + 1 })

/-- The value of a base-36 digit. -/
def digitValue (digit : Char) : Option Nat :=
  if '0' ≤ digit ∧ digit ≤ '9' then some (digit.toNat - '0'.toNat)
  else if 'a' ≤ digit ∧ digit ≤ 'z' then some (digit.toNat - 'a'.toNat + 10)
  else none

/-- Reads a base-36 number of at most 13 digits. The accumulator is a 64-bit
register, so a 13-digit text past its range wraps. -/
def decodeBase36 (text : List Char) : Option Nat :=
  if text.isEmpty || 13 < text.length then none
  else text.foldl
    (fun value digit =>
      match value, digitValue digit with
      | some value, some digit => some ((value * 36 + digit) % 2 ^ 64)
      | _, _ => none) (some 0)

/-- Splits an identifier of the given prefix into session and sequence; the
first dash after the prefix separates the two. -/
def parse (id : ClientOrderId) (expectedPrefix : List Char) : Option (Nat × Nat) :=
  if id.chars.length ≤ expectedPrefix.length + 2 then none
  else if id.chars.take expectedPrefix.length ≠ expectedPrefix then none
  else if id.chars[expectedPrefix.length]? ≠ some '-' then none
  else
    let rest := id.chars.drop (expectedPrefix.length + 1)
    match rest.findIdx? fun c => c = '-' with
    | none => none
    | some separator =>
        match decodeBase36 (rest.take separator), decodeBase36 (rest.drop (separator + 1)) with
        | some session, some sequence => some (session, sequence)
        | _, _ => none

/-- Restores the counter after a restart. -/
def restore (generator : ClientOrderIdGenerator) (nextSequence : Nat) : ClientOrderIdGenerator :=
  { generator with sequence := nextSequence }

end ClientOrderIdGenerator

end MmEngine.Oms
