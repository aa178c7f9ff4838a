/-
# Shared vocabulary

Identifiers are bounded inline strings: the characters travel with the proof
that they fit the capacity, so two identifiers are equal exactly when their
texts are. Engine counters and venue sequences are natural numbers with zero as
the absent value; a 64-bit counter of the engine cannot wrap in any run it can
perform, so the counters carry no modulus.
-/

import MmEngine.Common.Fixed

namespace MmEngine

/-- A string of at most `cap` characters. -/
@[ext]
structure InlineString (cap : Nat) where
  chars : List Char
  length_le : chars.length ≤ cap
  deriving DecidableEq

namespace InlineString

variable {cap : Nat}

/-- The empty string. -/
def empty : InlineString cap := ⟨[], Nat.zero_le _⟩

instance : Inhabited (InlineString cap) := ⟨empty⟩

def isEmpty (text : InlineString cap) : Bool := text.chars.isEmpty

/-- Copies at most `cap` characters; the flag says whether everything fitted. -/
def assign (chars : List Char) : InlineString cap × Bool :=
  (⟨chars.take cap, by simp [List.length_take]⟩, decide (chars.length ≤ cap))

/-- Appends when the result fits, and refuses otherwise. -/
def append (text : InlineString cap) (chars : List Char) : Option (InlineString cap) :=
  if h : (text.chars ++ chars).length ≤ cap then some ⟨text.chars ++ chars, h⟩ else none

@[simp]
theorem empty_chars : (empty : InlineString cap).chars = [] := rfl

@[simp]
theorem isEmpty_empty : (empty : InlineString cap).isEmpty = true := rfl

/-- A text that names something, or nothing. -/
theorem nonempty_eq_some_iff {text id : InlineString cap} :
    (if text.isEmpty then none else some text) = some id ↔ text = id ∧ id.isEmpty = false := by
  split
  · rename_i hempty
    constructor
    · intro hfalse
      cases hfalse
    · rintro ⟨rfl, hid⟩
      rw [hempty] at hid
      cases hid
  · rename_i hid
    rw [Option.some.injEq]
    constructor
    · rintro rfl
      exact ⟨rfl, by simpa using hid⟩
    · exact fun h => h.1

end InlineString

/-- Normalized symbol. -/
abbrev Symbol := InlineString 24

/-- The identity the engine sends to a venue. -/
abbrev ClientOrderId := InlineString 40

/-- The identity a venue gives an order. -/
abbrev ExchangeOrderId := InlineString 32

/-- The identity a venue gives a fill. -/
abbrev TradeId := InlineString 32

abbrev StrategyName := InlineString 32

/-- Nanoseconds on one of the engine's clocks. -/
abbrev Nanos := Int

/-- A venue update sequence; zero means the venue sent none. -/
abbrev Seq := Nat

def kNoSeq : Seq := 0

inductive Side
  | buy
  | sell
  deriving DecidableEq

inductive OrderType
  | limit
  | market
  | limitMaker
  deriving DecidableEq

inductive TimeInForce
  | gtc
  | ioc
  | fok
  | gtx
  deriving DecidableEq

/-- Whether a fill added or removed liquidity. -/
inductive Liquidity
  | unknown
  | maker
  | taker
  deriving DecidableEq

/-- Normalized reasons a request is refused. -/
inductive RejectReason
  | none
  | unknown
  | insufficientBalance
  | priceOutOfBounds
  | quantityOutOfBounds
  | notionalTooSmall
  | tickSizeViolation
  | lotSizeViolation
  | postOnlyWouldCross
  | duplicateClientOrderId
  | unknownOrder
  | rateLimited
  | marketClosed
  | symbolNotTrading
  | reduceOnlyViolation
  | riskLimitExceeded
  | connectivity
  | internalError
  deriving DecidableEq

/-- Codes of a failed operation. -/
inductive ErrorCode
  | invalidArgument
  | failedPrecondition
  | notFound
  | alreadyExists
  | outOfRange
  | permissionDenied
  | unavailable
  | timeout
  | parseError
  | rejected
  | overflow
  | unsafeState
  | internal
  deriving DecidableEq

/-- Success, or a code with the text that explains it. -/
inductive Status
  | ok
  | error (code : ErrorCode) (message : String)
  deriving DecidableEq

def Status.isError : Status → Bool
  | .ok => false
  | .error _ _ => true

end MmEngine
