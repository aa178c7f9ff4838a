/-
# Minted identities

The venue numbers what it makes in 64 bits and writes each number as a padded
decimal after a tag. The text gives the number back, so two identities of one kind
agree exactly when their numbers agree in 64 bits.
-/

import MmEngine.Exchange.Paper.PaperExecution
import Mathlib.Data.Nat.Digits.Lemmas

namespace MmEngine.Exchange.Paper

/-- The number a decimal text stands for. -/
def decimalValue (text : List Char) : Nat :=
  Nat.ofDigits 10 (text.reverse.map fun c => c.toNat - '0'.toNat)

theorem toNat_digitChar : ∀ digit < 10, (Nat.digitChar digit).toNat - '0'.toNat = digit := by
  decide

/-- The digits of a number, written backwards, are its text. -/
theorem decimalValue_digits (value : Nat) :
    decimalValue ((Nat.digits 10 value).reverse.map Nat.digitChar) = value := by
  have hback : (Nat.digits 10 value).map ((fun c : Char => c.toNat - '0'.toNat) ∘ Nat.digitChar) =
      Nat.digits 10 value := by
    conv_rhs => rw [← List.map_id (Nat.digits 10 value)]
    apply List.map_congr_left
    intro digit hmem
    exact toNat_digitChar digit (Nat.digits_lt_base (by decide) hmem)
  unfold decimalValue
  rw [← List.map_reverse, List.reverse_reverse, List.map_map, hback, Nat.ofDigits_digits]

/-- Padding with zeros on the left changes no number. -/
theorem decimalValue_leftpad (width : Nat) (text : List Char) :
    decimalValue (text.leftpad width '0') = decimalValue text := by
  unfold decimalValue List.leftpad
  rw [List.reverse_append, List.map_append, List.reverse_replicate, List.map_replicate,
    Nat.ofDigits_append]
  simp

/-- The number a minted text carries. -/
theorem decimalValue_mintText (a b : Char) (number : Nat) :
    decimalValue ((mintText [a, b] number).drop 2) = number % 2 ^ 64 := by
  show decimalValue (List.leftpad 11 '0' _) = _
  rw [decimalValue_leftpad, decimalValue_digits]

theorem mintText_inj {a b : Char} {m n : Nat} :
    mintText [a, b] m = mintText [a, b] n ↔ m % 2 ^ 64 = n % 2 ^ 64 := by
  constructor
  · intro h
    rw [← decimalValue_mintText a b m, h, decimalValue_mintText]
  · intro h
    rw [mintText, mintText, h]

theorem length_mintText_le (a b : Char) (number : Nat) :
    (mintText [a, b] number).length ≤ 32 := by
  have hdigits : (Nat.digits 10 (number % 2 ^ 64)).length ≤ 20 := by
    rw [Nat.digits_length_le_iff (by decide)]
    exact (Nat.mod_lt _ (by decide)).trans (by decide)
  simp only [mintText, List.length_append, List.length_leftpad, List.length_map,
    List.length_reverse, List.length_cons, List.length_nil]
  omega

/-- The identity that carries a number. -/
def mint (a b : Char) (number : Nat) : InlineString 32 :=
  (InlineString.assign (mintText [a, b] number)).1

/-- Minted identities agree exactly when their numbers agree in 64 bits. -/
theorem mint_inj {a b : Char} {m n : Nat} :
    mint a b m = mint a b n ↔ m % 2 ^ 64 = n % 2 ^ 64 := by
  rw [← @mintText_inj a b]
  constructor
  · intro h
    have hchars := congrArg InlineString.chars h
    simp only [mint, InlineString.assign] at hchars
    rwa [List.take_of_length_le (length_mintText_le a b m),
      List.take_of_length_le (length_mintText_le a b n)] at hchars
  · intro h
    rw [mint, mint, h]

theorem PaperExecution.nextTradeId_eq (v : PaperExecution) :
    v.nextTradeId = mint 'P' 'T' v.nextTradeSeq := rfl

end MmEngine.Exchange.Paper
