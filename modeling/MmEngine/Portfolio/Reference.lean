/-
# The accounting model

The weighted-average model the engine documents, over unbounded integers: a fill
opens, increases, reduces, closes or flips a position, and every division truncates
toward zero. A fill that an account accepts moves it exactly as this model says,
and a fill that it refuses moves nothing.
-/

import MmEngine.Portfolio.Ledger

namespace MmEngine.Portfolio

/-- What the model keeps of an account, in raw units without bounds. -/
structure Reference where
  position : Int
  averagePrice : Int
  realized : Int
  fees : Int
  deriving DecidableEq

/-- What the model says of one fill. -/
structure ReferenceOutcome where
  realizedDelta : Int
  flipped : Bool
  closed : Bool
  deriving DecidableEq

namespace Reference

/-- The fill is against the position held. -/
def opposes (held : Reference) (filled : Int) : Bool :=
  held.position ≠ 0 && decide (held.position < 0) ≠ decide (filled < 0)

/-- What the fill closes: the whole position at most. -/
def closes (held : Reference) (filled : Int) : Int :=
  if held.opposes filled then min |filled| |held.position| else 0

/-- The result of what is closed, signed by the position that is closed. -/
def realizes (held : Reference) (filled price : Int) : Int :=
  ((price - held.averagePrice) * held.closes filled * held.position.sign).tdiv Fixed.kScale

/-- More is filled than was held. -/
def flips (held : Reference) (filled : Int) : Bool :=
  held.opposes filled && decide (|held.position| < |filled|)

/-- The basis after a fill. An increase averages it, a close drops it, and what a flip
leaves was opened at the price of the fill. -/
def basisAfter (held : Reference) (filled price : Int) : Int :=
  if held.position = 0 then price
  else if !held.opposes filled then
    (|held.position| * held.averagePrice + |filled| * price).tdiv (|held.position| + |filled|)
  else if held.flips filled then price
  else if held.position + filled = 0 then 0
  else held.averagePrice

/-- The model's step. Fees never enter the basis. -/
def apply (held : Reference) (filled price fee : Int) : ReferenceOutcome × Reference :=
  ({ realizedDelta := held.realizes filled price
     flipped := held.flips filled
     closed := decide (held.position + filled = 0) },
   { position := held.position + filled
     averagePrice := held.basisAfter filled price
     realized := held.realized + held.realizes filled price
     fees := held.fees + fee })

end Reference

namespace PositionAccount

/-- What the model keeps of the account. -/
def reference (account : PositionAccount) : Reference where
  position := account.position.raw
  averagePrice := account.averagePrice.raw
  realized := account.realized.raw
  fees := account.fees.raw

end PositionAccount

/-- What the model says of a fill, read off its outcome. -/
def FillOutcome.reference (outcome : FillOutcome) : ReferenceOutcome where
  realizedDelta := outcome.realizedDelta.raw
  flipped := outcome.flipped
  closed := outcome.closed

namespace PositionAccount

/-- The exact moves of a fill are the model's. -/
theorem Moves.reference {held : Reference} {filled price newPosition newAverage delta : Int}
    (h : Moves held.position held.averagePrice filled price newPosition newAverage delta)
    (hfilled : filled ≠ 0) (haverage : held.position ≠ 0 → 0 < held.averagePrice)
    (hprice : 0 < price) :
    newPosition = held.position + filled ∧ newAverage = held.basisAfter filled price ∧
      delta = held.realizes filled price := by
  cases h with
  | opens hflat =>
      refine ⟨by omega, ?_, ?_⟩
      · rw [Reference.basisAfter, if_pos hflat]
      · simp [Reference.realizes, hflat]
  | increases hheld hsame hfits =>
      have hopposes : held.opposes filled = false := by
        simp [Reference.opposes, hsame]
      refine ⟨rfl, ?_, ?_⟩
      · have hbasis := haverage hheld
        rw [Reference.basisAfter, if_neg hheld, if_pos (by simp [hopposes]),
          Int.tdiv_eq_ediv_of_nonneg (by positivity), mul_comm _ |held.position|,
          mul_comm price]
      · simp [Reference.realizes, Reference.closes, hopposes]
  | reduces hheld hopposite hwithin =>
      have hopposes : held.opposes filled = true := by
        simp only [Reference.opposes, Bool.and_eq_true, decide_eq_true_eq]
        exact ⟨hheld, by simpa using hopposite⟩
      have hflips : held.flips filled = false := by
        simp [Reference.flips, hwithin]
      refine ⟨rfl, ?_, ?_⟩
      · have hagainst : ¬(!held.opposes filled) = true := by simp [hopposes]
        have hremains : ¬held.flips filled = true := by simp [hflips]
        rw [Reference.basisAfter, if_neg hheld, if_neg hagainst, if_neg hremains]
      · rw [Reference.realizes, Reference.closes, if_pos hopposes, min_eq_left hwithin]
        congr 1
        -- The fill has the opposite sign of the position.
        rcases lt_or_gt_of_ne hheld with hshort | hlong
        · rw [Int.sign_eq_neg_one_of_neg hshort, abs_of_pos (by omega)]
          ring
        · rw [Int.sign_eq_one_of_pos hlong, abs_of_neg (by omega)]
          ring
  | flips hheld hopposite hbeyond =>
      have hopposes : held.opposes filled = true := by
        simp only [Reference.opposes, Bool.and_eq_true, decide_eq_true_eq]
        exact ⟨hheld, by simpa using hopposite⟩
      have hflips : held.flips filled = true := by
        simp [Reference.flips, hopposes, hbeyond]
      refine ⟨rfl, ?_, ?_⟩
      · rw [Reference.basisAfter, if_neg hheld, if_neg (by simp [hopposes]), if_pos hflips]
      · rw [Reference.realizes, Reference.closes, if_pos hopposes, min_eq_right hbeyond.le,
          mul_assoc, mul_comm |held.position|, Int.sign_mul_abs]

/-- A fill flips the position exactly when the model says so. -/
theorem flipped_of_basisChange {account : PositionAccount} (hsound : account.Sound) {fill : Fill}
    (hquantity : 0 < fill.quantity.raw) {newPosition : Qty} {change : BasisChange}
    (h : account.basisChange fill.price (signedFill fill.side fill.quantity) newPosition =
      some change) :
    change.flipped = account.reference.flips fill.signedRaw := by
  have hraw := signedFill_raw hquantity
  have hheld := Fixed.saturatingAbs_raw hsound.position_ne_min
  have hincoming := Fixed.saturatingAbs_raw (signedFill_ne_min hquantity)
  rw [hraw] at hincoming
  rw [basisChange] at h
  rw [Reference.flips, Reference.opposes]
  split at h
  · rename_i hflat
    rw [Fixed.isZero_iff] at hflat
    cases h
    simp [PositionAccount.reference, hflat]
  rename_i hopen
  rw [Fixed.isZero_iff] at hopen
  split at h
  · rename_i hsame
    simp only [Fixed.isNegative, hraw, decide_eq_decide] at hsame
    obtain ⟨average, -, rfl⟩ := Option.map_eq_some_iff.mp h
    simp [PositionAccount.reference, hsame]
  · rename_i hopposite
    simp only [Fixed.isNegative, hraw, decide_eq_decide] at hopposite
    replace hopposite : ¬(account.reference.position < 0 ↔ fill.signedRaw < 0) := hopposite
    obtain ⟨delta, -, rfl⟩ := Option.map_eq_some_iff.mp h
    have hopposes : (account.reference.position ≠ 0 &&
        decide (account.reference.position < 0) ≠ decide (fill.signedRaw < 0)) = true := by
      simp only [Bool.and_eq_true, decide_eq_true_eq]
      exact ⟨hopen, by simpa using hopposite⟩
    rw [hopposes, Bool.true_and, hheld, hincoming]
    split
    · rename_i hbeyond
      exact (decide_eq_true hbeyond).symm
    · rename_i hwithin
      split
      · exact (decide_eq_false hwithin).symm
      · exact (decide_eq_false hwithin).symm

/-- An accepted fill is the model's step. -/
theorem commitFill_reference {account : PositionAccount} (hsound : account.Sound) {fill : Fill}
    (hacceptable : fill.Acceptable) {result : FillOutcome × PositionAccount}
    (h : account.commitFill fill.tradeId fill.side fill.price fill.quantity fill.fee =
      some result) :
    (result.1.reference, result.2.reference) =
      account.reference.apply fill.signedRaw fill.price.raw fill.fee.raw := by
  obtain ⟨newPosition, change, -, newRealized, newFees, hposition, hchange, -, hrealized,
    hfees, rfl⟩ := commitFill_eq_some h
  rw [signedFill_raw hacceptable.quantity_pos] at hposition
  have hmoves := moves_of_basisChange hsound hacceptable.quantity_pos hacceptable.price_pos
    hposition hchange
  have hflipped := flipped_of_basisChange hsound hacceptable.quantity_pos hchange
  obtain ⟨-, haverage, hdelta⟩ := @Moves.reference account.reference _ _ _ _ _ hmoves
    (Fill.signedRaw_ne_zero hacceptable.quantity_pos) hsound.basis_pos_iff.mpr
    hacceptable.price_pos
  rw [Reference.apply, Prod.mk.injEq]
  constructor
  · simp only [FillOutcome.reference, Fixed.isZero, hposition, hdelta, hflipped]
    rfl
  · simp only [PositionAccount.reference, hposition, hrealized, hfees, haverage, hdelta]

/-- In every state an account can reach, a fill that it accepts moves it as the model
says, and a fill that it refuses leaves all of it as it was. -/
theorem take_matches_reference (symbol : Symbol) (ops : List Op) (fill : Fill) :
    (((Machine.run step ops (fresh symbol)).take fill).1.error = .none →
      (((Machine.run step ops (fresh symbol)).take fill).1.reference,
          ((Machine.run step ops (fresh symbol)).take fill).2.reference) =
        (Machine.run step ops (fresh symbol)).reference.apply fill.signedRaw fill.price.raw
          fill.fee.raw) ∧
    (((Machine.run step ops (fresh symbol)).take fill).1.error ≠ .none →
      ((Machine.run step ops (fresh symbol)).take fill).2 =
        Machine.run step ops (fresh symbol)) := by
  have hsound : (Machine.run step ops (fresh symbol)).Sound :=
    Machine.invariant_run_always sound_step ops (sound_fresh symbol)
  generalize Machine.run step ops (fresh symbol) = account at hsound
  rw [take, applyFill]
  split
  · rename_i hscreen
    obtain ⟨-, hacceptable, -⟩ := screenFill_eq_none_iff.mp hscreen
    split
    · exact ⟨fun herror => absurd herror (by simp), fun _ => rfl⟩
    · rename_i result hcommit
      refine ⟨fun _ => commitFill_reference hsound hacceptable hcommit, fun herror => ?_⟩
      exact absurd (commitFill_accepted hsound hacceptable hcommit).1 herror
  · rename_i hscreen
    exact ⟨fun herror => absurd herror hscreen, fun _ => rfl⟩

end PositionAccount

end MmEngine.Portfolio
