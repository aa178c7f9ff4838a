/-
# Decimal text

Prices and quantities arrive as decimal text and are turned into raw fixed-point values
without passing through a floating-point number. The parser reads the text once: a sign,
the digits before and after the point into one mantissa, and an exponent. The mantissa is
then brought to the scale of the raw values by a power of ten.

The mantissa is held in 128 bits and guarded while it grows. The product with the power
of ten is not, so it is taken as the machine computes it, modulo the width.
-/

import MmEngine.Common.Fixed
import MmEngine.Lib.Numeral
import Mathlib.Data.List.DropRight
import Mathlib.Data.Option.Basic

namespace MmEngine

namespace Decimal

open Numeral

/-- Digits after the point of a raw value. -/
def kDecimals : Nat := 8

/-- Powers of ten in the table, from the zeroth on: those that 128 bits hold. -/
def kPow10Size : Nat := 39

/-- Guard on the mantissa, well below the 128-bit ceiling. -/
def kMantissaCeiling : Nat := 2 ^ 100

def isDigit (c : Char) : Bool := decide ('0' ≤ c) && decide (c ≤ '9')

def digitValue (c : Char) : Nat := c.toNat - '0'.toNat

/-- The low 128 bits of a product, read as a signed number. -/
def wrap128 (number : Int) : Int := Int.bmod number (2 ^ 128)

/-- Whether the text is negative, and what follows the sign. -/
def readSign : List Char → Bool × List Char
  | c :: rest => if c = '+' ∨ c = '-' then (c = '-', rest) else (false, c :: rest)
  | [] => (false, [])

/-- The digits before the point: the mantissa, whether there was a digit, and what
follows them. -/
def readInteger (mantissa : Nat) (anyDigit : Bool) : List Char → Option (Nat × Bool × List Char)
  | [] => some (mantissa, anyDigit, [])
  | c :: rest =>
      if isDigit c then
        let pushed := push 10 mantissa (digitValue c)
        if kMantissaCeiling < pushed then none else readInteger pushed true rest
      else some (mantissa, anyDigit, c :: rest)

/-- The digits after the point. Those past the scale are accepted only when they are
zeros: dropping a zero loses nothing. -/
def readFraction (mantissa fracDigits : Nat) (anyDigit : Bool) :
    List Char → Option (Nat × Nat × Bool × List Char)
  | [] => some (mantissa, fracDigits, anyDigit, [])
  | c :: rest =>
      if isDigit c then
        if fracDigits < kDecimals then
          let pushed := push 10 mantissa (digitValue c)
          if kMantissaCeiling < pushed then none
          else readFraction pushed (fracDigits + 1) true rest
        else if c ≠ '0' then none
        else if kMantissaCeiling < mantissa then none
        else readFraction mantissa fracDigits true rest
      else some (mantissa, fracDigits, anyDigit, c :: rest)

/-- The digits after the point, when there is one. -/
def readPoint (mantissa : Nat) (anyDigit : Bool) :
    List Char → Option (Nat × Nat × Bool × List Char)
  | '.' :: rest => readFraction mantissa 0 anyDigit rest
  | text => some (mantissa, 0, anyDigit, text)

/-- The digits of an exponent, up to the greatest one that is looked at. -/
def readExponentDigits (exponent : Nat) : List Char → Option (Nat × List Char)
  | [] => some (exponent, [])
  | c :: rest =>
      if isDigit c then
        let pushed := push 10 exponent (digitValue c)
        if 4096 < pushed then none else readExponentDigits pushed rest
      else some (exponent, c :: rest)

/-- The exponent, when there is one. It has a digit. -/
def readExponent : List Char → Option (Int × List Char)
  | c :: rest =>
      if c = 'e' ∨ c = 'E' then
        let (negative, body) := readSign rest
        if body.head?.any isDigit then
          (readExponentDigits 0 body).map fun (exponent, after) =>
            (if negative then -(exponent : Int) else exponent, after)
        else none
      else some (0, c :: rest)
  | [] => some (0, [])

/-- The sign and the range check. -/
def finish (negative : Bool) (raw : Int) : Option Int :=
  let signed := if negative then wrap128 (-raw) else raw
  if rawMax < signed ∨ signed < rawMin then none else some signed

/-- Brings a mantissa to the scale of the raw values. Scaling down must not discard a
digit. -/
def scale (negative : Bool) (mantissa : Nat) (shift : Int) : Option Int :=
  if 0 < shift then
    if (kPow10Size : Int) ≤ shift then none
    else finish negative (wrap128 (mantissa * 10 ^ shift.toNat))
  else if shift < 0 then
    if (kPow10Size : Int) ≤ -shift then if mantissa = 0 then some 0 else none
    else if mantissa % 10 ^ (-shift).toNat ≠ 0 then none
    else finish negative ((mantissa / 10 ^ (-shift).toNat : Nat) : Int)
  else finish negative mantissa

/-- The raw value of a decimal text. -/
def parseFixedRaw (text : List Char) : Option Int := do
  guard !text.isEmpty
  let (negative, body) := readSign text
  let (whole, anyWhole, afterWhole) ← readInteger 0 false body
  let (mantissa, fracDigits, anyDigit, afterFraction) ← readPoint whole anyWhole afterWhole
  guard anyDigit
  let (exponent, rest) ← readExponent afterFraction
  guard rest.isEmpty
  scale negative mantissa (kDecimals - fracDigits + exponent)

/-- The parser accepts a text when each part of it is read and nothing is left over. -/
theorem parseFixedRaw_eq_some_iff {text : List Char} {raw : Int} :
    parseFixedRaw text = some raw ↔
      text ≠ [] ∧ ∃ whole anyWhole afterWhole mantissa fracDigits afterFraction exponent,
        readInteger 0 false (readSign text).2 = some (whole, anyWhole, afterWhole) ∧
        readPoint whole anyWhole afterWhole =
          some (mantissa, fracDigits, true, afterFraction) ∧
        readExponent afterFraction = some (exponent, []) ∧
        scale (readSign text).1 mantissa (kDecimals - fracDigits + exponent) = some raw := by
  unfold parseFixedRaw
  simp only [Option.bind_eq_bind, Option.bind_eq_some_iff, Option.guard_eq_some']
  constructor
  · rintro ⟨_, hne, ⟨whole, anyWhole, afterWhole⟩, hwhole,
      ⟨mantissa, fracDigits, anyDigit, afterFraction⟩, hpoint, _, hany, ⟨exponent, rest⟩,
      hexponent, _, hrest, hscale⟩
    dsimp only at hany hrest
    rw [List.isEmpty_iff] at hrest
    subst hany hrest
    exact ⟨by simpa using hne, whole, anyWhole, afterWhole, mantissa, fracDigits, afterFraction,
      exponent, hwhole, hpoint, hexponent, hscale⟩
  · rintro ⟨hne, whole, anyWhole, afterWhole, mantissa, fracDigits, afterFraction, exponent,
      hwhole, hpoint, hexponent, hscale⟩
    exact ⟨(), by simpa using hne, (whole, anyWhole, afterWhole), hwhole,
      (mantissa, fracDigits, true, afterFraction), hpoint, (), rfl, (exponent, []), hexponent, (),
      rfl, hscale⟩

/-- The digits after the point, all eight of them. -/
def fracDigitsOf (frac : Nat) : List Char :=
  (List.range kDecimals).map fun d => Nat.digitChar (frac / 10 ^ (kDecimals - 1 - d) % 10)

/-- The shortest text of a raw value: zeros at the end of the fraction are trimmed, and
the point with them. -/
def formatFixedRaw (raw : Int) : List Char :=
  let magnitude := raw.natAbs
  let whole := magnitude / 10 ^ kDecimals
  let frac := magnitude % 10 ^ kDecimals
  let kept := (fracDigitsOf frac).rdropWhile fun c => c = '0'
  (if raw < 0 then ['-'] else []) ++ (digits 10 whole).map Nat.digitChar ++
    (if kept.isEmpty then [] else '.' :: kept)

end Decimal

end MmEngine
