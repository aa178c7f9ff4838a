/-
# What decimal text means

A literal is an optional sign, digits around an optional point with at least one of them,
and an optional exponent. It has a text and a rational value. The parser takes texts of
literals only, and it takes one exactly when its mantissa, its exponent and its scaled
value pass the guards. So what it returns can be compared with the value.
-/

import MmEngine.Common.Decimal
import Mathlib.Algebra.Field.Rat
import Mathlib.Algebra.Order.Field.Rat
import Mathlib.Tactic.FieldSimp
import Mathlib.Tactic.Linarith

namespace MmEngine

namespace Decimal

open Numeral

/-- The text of decimal digits. -/
def digitText (ds : List (Fin 10)) : List Char := ds.map fun d : Fin 10 => Nat.digitChar d

/-- Decimal digits as numbers. -/
def numbers (ds : List (Fin 10)) : List Nat := ds.map Fin.val

theorem isDigit_digitChar : ∀ d : Fin 10, isDigit (Nat.digitChar d) = true := by decide

theorem digitValue_digitChar : ∀ d : Fin 10, digitValue (Nat.digitChar d) = d := by decide

theorem digitChar_eq_zero_iff : ∀ d : Fin 10, Nat.digitChar d = '0' ↔ (d : Nat) = 0 := by decide

theorem digitChar_of_isDigit {c : Char} (h : isDigit c = true) :
    ∃ d : Fin 10, Nat.digitChar d = c := by
  rw [isDigit, Bool.and_eq_true, decide_eq_true_eq, decide_eq_true_eq] at h
  have hlo : '0'.toNat ≤ c.toNat := UInt32.le_iff_toNat_le.mp h.1
  have hhi : c.toNat ≤ '9'.toNat := UInt32.le_iff_toNat_le.mp h.2
  have hall : ∀ d : Fin 10, Nat.digitChar d = Char.ofNat ('0'.toNat + d) := by decide
  have hlt : c.toNat - '0'.toNat < 10 := by
    have : '0'.toNat = 48 := rfl
    have : '9'.toNat = 57 := rfl
    omega
  refine ⟨⟨c.toNat - '0'.toNat, hlt⟩, ?_⟩
  rw [hall, Nat.add_sub_cancel' hlo, Char.ofNat_toNat]

@[simp]
theorem numbers_append (xs ys : List (Fin 10)) : numbers (xs ++ ys) = numbers xs ++ numbers ys :=
  List.map_append

@[simp]
theorem length_numbers (ds : List (Fin 10)) : (numbers ds).length = ds.length := List.length_map _

theorem numbers_lt (ds : List (Fin 10)) : Digits 10 (numbers ds) := by
  intro d hd
  obtain ⟨digit, _, rfl⟩ := List.mem_map.mp hd
  exact digit.isLt

/-- The text does not go on with a digit. -/
def NoDigitHead (text : List Char) : Prop := ∀ c ∈ text.head?, isDigit c = false

theorem noDigitHead_cons {c : Char} {text : List Char} :
    NoDigitHead (c :: text) ↔ isDigit c = false := by
  simp [NoDigitHead]

/-- Every text is its leading digits and a rest. -/
theorem exists_digitText (text : List Char) :
    ∃ ds rest, text = digitText ds ++ rest ∧ NoDigitHead rest := by
  induction text with
  | nil => exact ⟨[], [], rfl, by simp [NoDigitHead]⟩
  | cons c text ih =>
      cases hc : isDigit c with
      | false => exact ⟨[], c :: text, rfl, noDigitHead_cons.mpr hc⟩
      | true =>
          obtain ⟨d, rfl⟩ := digitChar_of_isDigit hc
          obtain ⟨ds, rest, rfl, hrest⟩ := ih
          exact ⟨d :: ds, rest, rfl, hrest⟩

theorem readInteger_of_noDigitHead {mantissa : Nat} {anyDigit : Bool} {text : List Char}
    (h : NoDigitHead text) :
    readInteger mantissa anyDigit text = some (mantissa, anyDigit, text) := by
  cases text with
  | nil => rfl
  | cons c text => rw [readInteger, if_neg (by simp [noDigitHead_cons.mp h])]

/-- Digits are pushed onto the mantissa as long as the guard holds, which it does up to
the end or not at all. -/
theorem readInteger_digitText (ds : List (Fin 10)) {mantissa : Nat} (anyDigit : Bool)
    {rest : List Char} (hrest : NoDigitHead rest) (hmantissa : mantissa ≤ kMantissaCeiling) :
    readInteger mantissa anyDigit (digitText ds ++ rest) =
      if (numbers ds).foldl (push 10) mantissa ≤ kMantissaCeiling then
        some ((numbers ds).foldl (push 10) mantissa, anyDigit || !ds.isEmpty, rest)
      else none := by
  induction ds generalizing mantissa anyDigit with
  | nil =>
      rw [digitText, List.map_nil, List.nil_append, readInteger_of_noDigitHead hrest]
      simp [numbers, hmantissa]
  | cons d ds ih =>
      have hcons : digitText (d :: ds) ++ rest = Nat.digitChar d :: (digitText ds ++ rest) := rfl
      have hnumbers : numbers (d :: ds) = d.val :: numbers ds := rfl
      rw [hcons, readInteger, if_pos (isDigit_digitChar d), digitValue_digitChar, hnumbers,
        List.foldl_cons]
      dsimp only
      split
      · rename_i hover
        have hle := le_foldl_push (show 0 < 10 by decide) (numbers ds) (push 10 mantissa d)
        rw [if_neg (by omega)]
      · rename_i hroom
        rw [ih true (Nat.le_of_not_lt hroom)]
        simp

theorem readFraction_of_noDigitHead {mantissa fracDigits : Nat} {anyDigit : Bool}
    {text : List Char} (h : NoDigitHead text) :
    readFraction mantissa fracDigits anyDigit text =
      some (mantissa, fracDigits, anyDigit, text) := by
  cases text with
  | nil => rfl
  | cons c text => rw [readFraction, if_neg (by simp [noDigitHead_cons.mp h])]

/-- The digits that the scale has room for are pushed, the others must be zeros. -/
theorem readFraction_digitText (ds : List (Fin 10)) {mantissa fracDigits : Nat} (anyDigit : Bool)
    {rest : List Char} (hrest : NoDigitHead rest) (hmantissa : mantissa ≤ kMantissaCeiling) :
    readFraction mantissa fracDigits anyDigit (digitText ds ++ rest) =
      if (numbers (ds.take (kDecimals - fracDigits))).foldl (push 10) mantissa ≤
            kMantissaCeiling ∧ ∀ d ∈ numbers (ds.drop (kDecimals - fracDigits)), d = 0 then
        some ((numbers (ds.take (kDecimals - fracDigits))).foldl (push 10) mantissa,
          fracDigits + (ds.take (kDecimals - fracDigits)).length, anyDigit || !ds.isEmpty, rest)
      else none := by
  induction ds generalizing mantissa fracDigits anyDigit with
  | nil =>
      rw [digitText, List.map_nil, List.nil_append, readFraction_of_noDigitHead hrest]
      simp [numbers, hmantissa]
  | cons d ds ih =>
      have hcons : digitText (d :: ds) ++ rest = Nat.digitChar d :: (digitText ds ++ rest) := rfl
      rw [hcons, readFraction, if_pos (isDigit_digitChar d), digitValue_digitChar]
      split
      · rename_i hroom
        obtain ⟨left, hleft⟩ : ∃ left, kDecimals - fracDigits = left + 1 :=
          ⟨kDecimals - fracDigits - 1, by omega⟩
        have hnext : kDecimals - (fracDigits + 1) = left := by omega
        rw [hleft, List.take_succ_cons, List.drop_succ_cons]
        have hnumbers : numbers (d :: ds.take left) = d.val :: numbers (ds.take left) := rfl
        rw [hnumbers, List.foldl_cons]
        dsimp only
        split
        · rename_i hover
          have hle := le_foldl_push (show 0 < 10 by decide) (numbers (ds.take left))
            (push 10 mantissa d)
          rw [if_neg (by omega)]
        · rename_i hbelow
          rw [ih true (Nat.le_of_not_lt hbelow), hnext]
          simp [Nat.add_assoc, Nat.add_comm]
      · rename_i hfull
        have hleft : kDecimals - fracDigits = 0 := by omega
        rw [hleft, List.take_zero, List.drop_zero]
        have hnumbers : numbers (d :: ds) = d.val :: numbers ds := rfl
        split
        · rename_i hne
          have hd : (d : Nat) ≠ 0 := fun hzero => hne ((digitChar_eq_zero_iff d).mpr hzero)
          rw [if_neg]
          rintro ⟨_, hall⟩
          exact hd (hall d (by simp [hnumbers]))
        · rename_i heq
          have hd : (d : Nat) = 0 := (digitChar_eq_zero_iff d).mp (not_not.mp heq)
          rw [if_neg (by omega), ih true hmantissa, hleft, hnumbers]
          simp [hd]

theorem readExponentDigits_of_noDigitHead {exponent : Nat} {text : List Char}
    (h : NoDigitHead text) : readExponentDigits exponent text = some (exponent, text) := by
  cases text with
  | nil => rfl
  | cons c text => rw [readExponentDigits, if_neg (by simp [noDigitHead_cons.mp h])]

theorem readExponentDigits_digitText (ds : List (Fin 10)) {exponent : Nat} {rest : List Char}
    (hrest : NoDigitHead rest) (hexponent : exponent ≤ 4096) :
    readExponentDigits exponent (digitText ds ++ rest) =
      if (numbers ds).foldl (push 10) exponent ≤ 4096 then
        some ((numbers ds).foldl (push 10) exponent, rest)
      else none := by
  induction ds generalizing exponent with
  | nil =>
      rw [digitText, List.map_nil, List.nil_append, readExponentDigits_of_noDigitHead hrest]
      simp [numbers, hexponent]
  | cons d ds ih =>
      have hcons : digitText (d :: ds) ++ rest = Nat.digitChar d :: (digitText ds ++ rest) := rfl
      have hnumbers : numbers (d :: ds) = d.val :: numbers ds := rfl
      rw [hcons, readExponentDigits, if_pos (isDigit_digitChar d), digitValue_digitChar, hnumbers,
        List.foldl_cons]
      dsimp only
      split
      · rename_i hover
        have hle := le_foldl_push (show 0 < 10 by decide) (numbers ds) (push 10 exponent d)
        rw [if_neg (by omega)]
      · rename_i hroom
        rw [ih (Nat.le_of_not_lt hroom)]

/-- The digits of an exponent at the end of a text. -/
theorem readExponentDigits_numbers (ds : List (Fin 10)) :
    readExponentDigits 0 (digitText ds) =
      if value 10 (numbers ds) ≤ 4096 then some (value 10 (numbers ds), []) else none := by
  have hread := readExponentDigits_digitText ds (show NoDigitHead [] by simp [NoDigitHead])
    (Nat.zero_le 4096)
  rwa [List.append_nil] at hread

/-! ## Literals -/

/-- A sign that is written, or none; `true` is the minus. -/
abbrev Sign := Option Bool

def Sign.text : Sign → List Char
  | none => []
  | some true => ['-']
  | some false => ['+']

/-- The sign is a minus. -/
def Sign.isMinus (sign : Sign) : Bool := sign.getD false

/-- An exponent: how it is marked, its sign, and at least one digit. -/
structure Exponent where
  upper : Bool
  sign : Sign
  digits : List (Fin 10)
  digits_ne_nil : digits ≠ []

/-- A decimal literal: digits with a point among them or none, at least one digit. -/
structure Literal where
  sign : Sign
  whole : List (Fin 10)
  fraction : Option (List (Fin 10))
  exponent : Option Exponent
  hasDigit : whole ++ fraction.getD [] ≠ []

namespace Exponent

def text (exponent : Exponent) : List Char :=
  (if exponent.upper then 'E' else 'e') :: (exponent.sign.text ++ digitText exponent.digits)

def magnitude (exponent : Exponent) : Nat := value 10 (numbers exponent.digits)

def value (exponent : Exponent) : Int :=
  if exponent.sign.isMinus then -(exponent.magnitude : Int) else exponent.magnitude

end Exponent

namespace Literal

def pointText : Option (List (Fin 10)) → List Char
  | none => []
  | some ds => '.' :: digitText ds

def exponentText : Option Exponent → List Char
  | none => []
  | some exponent => exponent.text

def text (l : Literal) : List Char :=
  l.sign.text ++ (digitText l.whole ++ (pointText l.fraction ++ exponentText l.exponent))

/-- The digits after the point. -/
def fractionDigits (l : Literal) : List (Fin 10) := l.fraction.getD []

def exponentValue (l : Literal) : Int := (l.exponent.map Exponent.value).getD 0

/-- The number the literal stands for. -/
def value (l : Literal) : ℚ :=
  (if l.sign.isMinus then -1 else 1) *
    ((Numeral.value 10 (numbers (l.whole ++ l.fractionDigits)) : ℕ) : ℚ) /
      10 ^ l.fractionDigits.length * 10 ^ l.exponentValue

/-- The digits that the mantissa is made of. -/
def mantissa (l : Literal) : Nat :=
  Numeral.value 10 (numbers (l.whole ++ l.fractionDigits.take kDecimals))

/-- The power of ten between the mantissa and the raw value. -/
def shift (l : Literal) : Int :=
  kDecimals - (l.fractionDigits.take kDecimals).length + l.exponentValue

/-- The guards a literal passes on the way to its scaling. -/
structure Guarded (l : Literal) : Prop where
  mantissa_le : l.mantissa ≤ kMantissaCeiling
  dropped : ∀ d ∈ numbers (l.fractionDigits.drop kDecimals), d = 0
  exponent_le : l.exponentValue.natAbs ≤ 4096

theorem noDigitHead_exponentText (exponent : Option Exponent) :
    NoDigitHead (exponentText exponent) := by
  cases exponent with
  | none => simp [exponentText, NoDigitHead]
  | some exponent =>
      rw [exponentText, Exponent.text, noDigitHead_cons]
      split <;> decide

theorem noDigitHead_pointText (fraction : Option (List (Fin 10))) (exponent : Option Exponent) :
    NoDigitHead (pointText fraction ++ exponentText exponent) := by
  cases fraction with
  | none => exact noDigitHead_exponentText exponent
  | some ds =>
      rw [pointText, List.cons_append, noDigitHead_cons]
      decide

/-- A sign is read off a text that goes on with none. -/
theorem readSign_text (sign : Sign) {body : List Char}
    (hbody : ∀ c ∈ body.head?, c ≠ '+' ∧ c ≠ '-') :
    readSign (sign.text ++ body) = (sign.isMinus, body) := by
  cases sign with
  | none =>
      cases body with
      | nil => rfl
      | cons c body =>
          obtain ⟨hplus, hminus⟩ := hbody c rfl
          rw [Sign.text, List.nil_append, readSign, if_neg (by simp [hplus, hminus])]
          rfl
  | some minus => cases minus <;> rfl

theorem digitChar_ne_sign : ∀ d : Fin 10, Nat.digitChar d ≠ '+' ∧ Nat.digitChar d ≠ '-' := by
  decide

theorem head_digitText {ds : List (Fin 10)} (h : ds ≠ []) (rest : List Char) :
    ∀ c ∈ (digitText ds ++ rest).head?, isDigit c = true ∧ c ≠ '+' ∧ c ≠ '-' := by
  cases ds with
  | nil => exact absurd rfl h
  | cons d ds =>
      intro c hc
      cases hc
      exact ⟨isDigit_digitChar d, digitChar_ne_sign d⟩

theorem head_body (l : Literal) :
    ∀ c ∈ (digitText l.whole ++ (pointText l.fraction ++ exponentText l.exponent)).head?,
      c ≠ '+' ∧ c ≠ '-' := by
  by_cases hwhole : l.whole = []
  · have hdigit := l.hasDigit
    rw [hwhole] at hdigit ⊢
    cases hfraction : l.fraction with
    | none => simp [hfraction] at hdigit
    | some ds =>
        intro c hc
        cases hc
        decide
  · exact fun c hc => (head_digitText hwhole _ c hc).2

theorem readPoint_text (fraction : Option (List (Fin 10))) (exponent : Option Exponent)
    {mantissa : Nat} (anyDigit : Bool) (hmantissa : mantissa ≤ kMantissaCeiling) :
    readPoint mantissa anyDigit (pointText fraction ++ exponentText exponent) =
      if (numbers ((fraction.getD []).take kDecimals)).foldl (push 10) mantissa ≤
            kMantissaCeiling ∧ ∀ d ∈ numbers ((fraction.getD []).drop kDecimals), d = 0 then
        some ((numbers ((fraction.getD []).take kDecimals)).foldl (push 10) mantissa,
          ((fraction.getD []).take kDecimals).length, anyDigit || !(fraction.getD []).isEmpty,
          exponentText exponent)
      else none := by
  cases fraction with
  | none =>
      have hread : readPoint mantissa anyDigit (exponentText exponent) =
          some (mantissa, 0, anyDigit, exponentText exponent) := by
        cases exponent with
        | none => rfl
        | some exponent =>
            rw [exponentText, Exponent.text]
            cases exponent.upper <;> rfl
      rw [pointText, List.nil_append, hread]
      simp [numbers, hmantissa]
  | some ds =>
      rw [pointText, List.cons_append, readPoint,
        readFraction_digitText ds anyDigit (noDigitHead_exponentText exponent) hmantissa]
      simp

theorem readExponent_text (exponent : Option Exponent) :
    readExponent (exponentText exponent) =
      if ((exponent.map Exponent.value).getD 0).natAbs ≤ 4096 then
        some ((exponent.map Exponent.value).getD 0, [])
      else none := by
  cases exponent with
  | none => rfl
  | some exponent =>
      have hmark : (if exponent.upper then 'E' else 'e') = 'e' ∨
          (if exponent.upper then 'E' else 'e') = 'E' := by
        split <;> simp
      have hhead := head_digitText exponent.digits_ne_nil []
      rw [List.append_nil] at hhead
      have hany : (digitText exponent.digits).head?.any isDigit = true := by
        obtain ⟨d, ds, hds⟩ := List.exists_cons_of_ne_nil exponent.digits_ne_nil
        rw [hds]
        exact isDigit_digitChar d
      have hvalue : (exponent.value).natAbs = exponent.magnitude := by
        unfold Exponent.value
        split <;> simp
      rw [exponentText, Exponent.text, readExponent, if_pos hmark,
        readSign_text _ fun c hc => (hhead c hc).2]
      dsimp only
      rw [if_pos hany, readExponentDigits_numbers, Option.map_some, Option.getD_some, hvalue]
      have hmagnitude : Numeral.value 10 (numbers exponent.digits) = exponent.magnitude := rfl
      rw [hmagnitude]
      by_cases hle : exponent.magnitude ≤ 4096
      · rw [if_pos hle, if_pos hle]
        rfl
      · rw [if_neg hle, if_neg hle]
        rfl

theorem body_ne_nil (l : Literal) :
    digitText l.whole ++ (pointText l.fraction ++ exponentText l.exponent) ≠ [] := by
  intro hnil
  obtain ⟨hwhole, hrest⟩ := List.append_eq_nil_iff.mp hnil
  obtain ⟨hpoint, _⟩ := List.append_eq_nil_iff.mp hrest
  have hdigit := l.hasDigit
  rw [List.map_eq_nil_iff.mp hwhole] at hdigit
  cases hfraction : l.fraction with
  | none => simp [hfraction] at hdigit
  | some ds => simp [hfraction, pointText] at hpoint

theorem mantissa_eq_foldl (l : Literal) :
    l.mantissa = (numbers (l.fractionDigits.take kDecimals)).foldl (push 10)
      (Numeral.value 10 (numbers l.whole)) := by
  rw [mantissa, numbers_append, Numeral.value, List.foldl_append]
  rfl

theorem readInteger_text (l : Literal) :
    readInteger 0 false (digitText l.whole ++ (pointText l.fraction ++ exponentText l.exponent)) =
      if Numeral.value 10 (numbers l.whole) ≤ kMantissaCeiling then
        some (Numeral.value 10 (numbers l.whole), !l.whole.isEmpty,
          pointText l.fraction ++ exponentText l.exponent)
      else none :=
  readInteger_digitText l.whole false (noDigitHead_pointText l.fraction l.exponent)
    (Nat.zero_le _)

theorem readPoint_literal (l : Literal)
    (hroom : Numeral.value 10 (numbers l.whole) ≤ kMantissaCeiling) :
    readPoint (Numeral.value 10 (numbers l.whole)) (!l.whole.isEmpty)
        (pointText l.fraction ++ exponentText l.exponent) =
      if l.mantissa ≤ kMantissaCeiling ∧
          ∀ d ∈ numbers (l.fractionDigits.drop kDecimals), d = 0 then
        some (l.mantissa, (l.fractionDigits.take kDecimals).length, true, exponentText l.exponent)
      else none := by
  have hany : (!l.whole.isEmpty || !(l.fraction.getD []).isEmpty) = true := by
    have hdigit := l.hasDigit
    rw [Ne, List.append_eq_nil_iff, not_and_or] at hdigit
    simpa using hdigit
  have hpoint := readPoint_text l.fraction l.exponent (!l.whole.isEmpty) hroom
  rw [hany] at hpoint
  rw [mantissa_eq_foldl]
  exact hpoint

theorem readExponent_literal (l : Literal) :
    readExponent (exponentText l.exponent) =
      if l.exponentValue.natAbs ≤ 4096 then some (l.exponentValue, []) else none :=
  readExponent_text l.exponent

/-- The parser on the text of a literal. -/
theorem parseFixedRaw_text (l : Literal) (raw : Int) :
    parseFixedRaw l.text = some raw ↔
      l.Guarded ∧ scale l.sign.isMinus l.mantissa l.shift = some raw := by
  have hsign : readSign l.text = (l.sign.isMinus, _) := readSign_text l.sign l.head_body
  rw [parseFixedRaw_eq_some_iff, hsign, readInteger_text]
  constructor
  · rintro ⟨_, whole, anyWhole, afterWhole, mantissa, fracDigits, afterFraction, exponent,
      hwhole, hpoint, hexponent, hscale⟩
    split at hwhole
    · rename_i hroom
      cases hwhole
      rw [readPoint_literal l hroom] at hpoint
      split at hpoint
      · rename_i hguard
        cases hpoint
        rw [readExponent_literal] at hexponent
        split at hexponent
        · rename_i hle
          cases hexponent
          exact ⟨⟨hguard.1, hguard.2, hle⟩, hscale⟩
        · cases hexponent
      · cases hpoint
    · cases hwhole
  · rintro ⟨hguarded, hscale⟩
    have hroom : Numeral.value 10 (numbers l.whole) ≤ kMantissaCeiling := by
      have hle := le_foldl_push (show 0 < 10 by decide)
        (numbers (l.fractionDigits.take kDecimals)) (Numeral.value 10 (numbers l.whole))
      rw [← mantissa_eq_foldl] at hle
      exact hle.trans hguarded.mantissa_le
    rw [if_pos hroom]
    have hne : l.text ≠ [] := fun hnil => l.body_ne_nil (List.append_eq_nil_iff.mp hnil).2
    have hpoint := readPoint_literal l hroom
    rw [if_pos ⟨hguarded.mantissa_le, hguarded.dropped⟩] at hpoint
    have hexponent := l.readExponent_literal
    rw [if_pos hguarded.exponent_le] at hexponent
    exact ⟨hne, _, _, _, _, _, _, _, rfl, hpoint, hexponent, hscale⟩

end Literal

theorem exists_sign (text : List Char) :
    ∃ (sign : Sign) (body : List Char), text = sign.text ++ body ∧
      readSign text = (sign.isMinus, body) := by
  cases text with
  | nil => exact ⟨none, [], rfl, rfl⟩
  | cons c rest =>
      by_cases hminus : c = '-'
      · subst hminus
        exact ⟨some true, rest, rfl, rfl⟩
      · by_cases hplus : c = '+'
        · subst hplus
          exact ⟨some false, rest, rfl, rfl⟩
        · refine ⟨none, c :: rest, rfl, ?_⟩
          rw [readSign, if_neg (by simp [hplus, hminus])]
          rfl

/-- What is read around a point is digits after it, or nothing. -/
theorem exists_point {mantissa : Nat} {anyDigit : Bool} {text after : List Char}
    {pushed fracDigits : Nat} {any : Bool} (hmantissa : mantissa ≤ kMantissaCeiling)
    (h : readPoint mantissa anyDigit text = some (pushed, fracDigits, any, after)) :
    ∃ fraction, text = Literal.pointText fraction ++ after ∧
      any = (anyDigit || !(fraction.getD []).isEmpty) := by
  unfold readPoint at h
  split at h
  · rename_i rest
    obtain ⟨ds, tail, rfl, htail⟩ := exists_digitText rest
    rw [readFraction_digitText ds anyDigit htail hmantissa] at h
    split at h
    · cases h
      exact ⟨some ds, rfl, rfl⟩
    · cases h
  · cases h
    exact ⟨none, rfl, by simp⟩

theorem exists_exponent {text : List Char} {number : Int}
    (h : readExponent text = some (number, [])) :
    ∃ exponent, text = Literal.exponentText exponent := by
  cases text with
  | nil => exact ⟨none, rfl⟩
  | cons c rest =>
      rw [readExponent] at h
      split at h
      · rename_i hmark
        obtain ⟨sign, body, rfl, hsign⟩ := exists_sign rest
        obtain ⟨ds, tail, rfl, htail⟩ := exists_digitText body
        rw [hsign] at h
        dsimp only at h
        split at h
        · rename_i hany
          obtain ⟨⟨read, after⟩, hread, heq⟩ := Option.map_eq_some_iff.mp h
          cases heq
          rw [readExponentDigits_digitText ds htail (Nat.zero_le _)] at hread
          split at hread
          · cases hread
            have hne : ds ≠ [] := by
              rintro rfl
              cases hany
            refine ⟨some ⟨decide (c = 'E'), sign, ds, hne⟩, ?_⟩
            have hc : (if decide (c = 'E') then 'E' else 'e') = c := by
              rcases hmark with rfl | rfl <;> rfl
            simp only [Literal.exponentText, Exponent.text, hc, List.append_nil]
          · cases hread
        · cases h
      · cases h

/-- What is accepted is the text of a literal. -/
theorem exists_literal {text : List Char} {raw : Int} (h : parseFixedRaw text = some raw) :
    ∃ l : Literal, l.text = text := by
  obtain ⟨_, whole, anyWhole, afterWhole, mantissa, fracDigits, afterFraction, exponent, hwhole,
    hpoint, hexponent, _⟩ := parseFixedRaw_eq_some_iff.mp h
  obtain ⟨sign, body, rfl, hsign⟩ := exists_sign text
  obtain ⟨ds, rest, rfl, hrest⟩ := exists_digitText body
  rw [hsign, readInteger_digitText ds false hrest (Nat.zero_le _)] at hwhole
  split at hwhole
  · rename_i hroom
    cases hwhole
    obtain ⟨fraction, rfl, hany⟩ := exists_point hroom hpoint
    obtain ⟨mark, rfl⟩ := exists_exponent hexponent
    refine ⟨⟨sign, ds, fraction, mark, ?_⟩, rfl⟩
    intro hnil
    obtain ⟨hds, hfraction⟩ := List.append_eq_nil_iff.mp hnil
    rw [hds, hfraction] at hany
    cases hany
  · cases hwhole

end Decimal

end MmEngine
