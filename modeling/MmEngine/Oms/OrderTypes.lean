/-
# Order lifecycle

The authoritative lifecycle states of an order, the classes of states the rest
of the engine reads (terminal, exposure-consuming, live, pending), and the
transition table. The table is total and decidable, so every fact about it is
checked by enumeration; the lemmas here are the ones the handlers rest on.
-/

import MmEngine.Exchange.ExecutionEvents
import Mathlib.Data.Fintype.Basic

namespace MmEngine.Oms

open MmEngine.Exchange

/-- Engine-owned order identity; zero is no order. -/
abbrev LogicalOrderId := Nat

/-- Identity of one outbound request; zero is no request. -/
abbrev RequestId := Nat

/-- The authoritative lifecycle state of an order. -/
inductive OrderState
  | created
  | pendingNew
  | working
  | partiallyFilled
  | pendingCancel
  | pendingReplace
  | filled
  | cancelled
  | rejected
  | expired
  | unknown
  | orphaned
  deriving DecidableEq

namespace OrderState

instance : Fintype OrderState where
  elems := {.created, .pendingNew, .working, .partiallyFilled, .pendingCancel, .pendingReplace,
    .filled, .cancelled, .rejected, .expired, .unknown, .orphaned}
  complete s := by cases s <;> decide

/-- Terminal states accept no outbound transition. -/
def isTerminal (s : OrderState) : Bool :=
  s = .filled || s = .cancelled || s = .rejected || s = .expired

/-- True when the order may still trade. `unknown` is deliberately included. -/
def consumesExposure (s : OrderState) : Bool :=
  !s.isTerminal && s ≠ .created && s ≠ .orphaned

/-- True when the order is resting at the venue as far as we know. -/
def isLive (s : OrderState) : Bool :=
  s = .working || s = .partiallyFilled || s = .pendingCancel || s = .pendingReplace

/-- True when a request of ours is outstanding. -/
def hasPendingRequest (s : OrderState) : Bool :=
  s = .pendingNew || s = .pendingCancel || s = .pendingReplace

end OrderState

/-- What happened to an order, as the order manager understands it. -/
inductive OrderEventType
  | none
  | created
  | requestSent
  | acknowledged
  | rejected
  | partiallyFilled
  | filled
  | cancelRequested
  | cancelAcknowledged
  | cancelRejected
  | replaceRequested
  | replaceAcknowledged
  | replaceRejected
  | expired
  | requestTimedOut
  | outcomeUnknown
  | reconciliationDetected
  | reconciliationResolved
  | eventQuarantined
  deriving DecidableEq

/-- Why a transition, a request or an event was refused. -/
inductive OmsReject
  | none
  | notRiskApproved
  | illegalTransition
  | terminalOrder
  | unknownOrder
  | duplicateRequest
  | duplicateEvent
  | pendingOperation
  | ownershipViolation
  | staleGeneration
  | capacityExhausted
  | identityGenerationFailed
  | impossibleFill
  | arithmeticOverflow
  | executionUnavailable
  | identityCollision
  deriving DecidableEq

/-- The transition table. Restating a state is always legal; otherwise nothing
leaves a terminal state, and uncertainty and quarantine are reachable from
almost everywhere. -/
def isLegalTransition (source target : OrderState) : Bool :=
  if source = target then true
  else if source.isTerminal then false
  else if target = .unknown then source ≠ .created
  else if target = .orphaned then true
  else match source with
    | .created => target = .pendingNew || target = .rejected
    | .pendingNew =>
        target = .working || target = .partiallyFilled || target = .filled ||
          target = .rejected || target = .expired
    | .working =>
        target = .partiallyFilled || target = .filled || target = .pendingCancel ||
          target = .pendingReplace || target = .cancelled || target = .expired ||
          target = .rejected
    | .partiallyFilled =>
        target = .filled || target = .pendingCancel || target = .pendingReplace ||
          target = .cancelled || target = .expired
    | .pendingCancel =>
        target = .cancelled || target = .filled || target = .partiallyFilled ||
          target = .working || target = .expired
    | .pendingReplace =>
        target = .working || target = .partiallyFilled || target = .filled ||
          target = .cancelled || target = .rejected || target = .expired
    | .unknown => true
    | .orphaned => target = .cancelled || target = .unknown
    | .filled | .cancelled | .rejected | .expired => false

/-- The state an attempted transition leaves: a refused one changes nothing. -/
def landing (source target : OrderState) : OrderState :=
  if isLegalTransition source target then target else source

/-- Maps the venue's reported status onto the lifecycle. -/
def fromVenueStatus : OrderStatus → OrderState
  | .new => .working
  | .partiallyFilled => .partiallyFilled
  | .filled => .filled
  | .canceled => .cancelled
  | .rejected => .rejected
  | .expired => .expired
  | .pendingCancel => .pendingCancel
  | .pendingReplace => .pendingReplace
  | .unknown => .unknown

/-- Nothing but restating leaves a terminal state. -/
theorem eq_of_isLegalTransition_of_isTerminal :
    ∀ {source target : OrderState}, source.isTerminal = true →
      isLegalTransition source target = true → target = source := by
  decide

theorem OrderState.not_hasPendingRequest_of_isTerminal :
    ∀ {s : OrderState}, s.isTerminal = true → s.hasPendingRequest = false := by
  decide

theorem OrderState.not_isTerminal_of_consumesExposure :
    ∀ {s : OrderState}, s.consumesExposure = true → s.isTerminal = false := by
  decide

theorem OrderState.consumesExposure_of_isLive :
    ∀ {s : OrderState}, s.isLive = true → s.consumesExposure = true := by
  decide

theorem OrderState.consumesExposure_of_hasPendingRequest :
    ∀ {s : OrderState}, s.hasPendingRequest = true → s.consumesExposure = true := by
  decide

theorem OrderState.isLegalTransition_unknown_of_hasPendingRequest :
    ∀ {s : OrderState}, s.hasPendingRequest = true → isLegalTransition s .unknown = true := by
  decide

theorem OrderState.not_isTerminal_of_hasPendingRequest :
    ∀ {s : OrderState}, s.hasPendingRequest = true → s.isTerminal = false := by
  decide

end MmEngine.Oms
