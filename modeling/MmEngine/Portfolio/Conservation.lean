/-
# Conservation of profit and loss

In exact arithmetic, what an account has realized is what its fills cost less what
the open position still carries. The account divides twice: the weighted average
of an increase is rounded, and so is the result of every quantity it closes. The
bound below charges each rounding once, in raw units of the undivided products:
an increase by less than the position it leaves, a closing fill by less than the
scale.
-/

import MmEngine.Portfolio.Ledger

namespace MmEngine.Portfolio

/-- An accepted fill with the position before and after it. -/
structure Entry where
  fill : Fill
  positionBefore : Qty
  positionAfter : Qty
  deriving DecidableEq

namespace Entry

/-- What the fill paid, undivided. -/
def cash (entry : Entry) : Int := entry.fill.signedRaw * entry.fill.price.raw

/-- The fill adds to a position already held. -/
def increases (entry : Entry) : Bool :=
  entry.positionBefore.raw ≠ 0 && decide (entry.positionBefore.raw < 0) =
    decide (entry.fill.signedRaw < 0)

/-- The fill trades against a position: it reduces, closes or flips it. -/
def opposes (entry : Entry) : Bool :=
  entry.positionBefore.raw ≠ 0 && decide (entry.positionBefore.raw < 0) ≠
    decide (entry.fill.signedRaw < 0)

/-- How far the fill may move the books away from the exact ones. -/
def slack (entry : Entry) : Int :=
  (if entry.opposes then Fixed.kScale else 0) +
    if entry.increases then |entry.positionAfter.raw| else 0

end Entry

namespace PositionAccount

/-- The fills an account accepts, with what each did to the position. -/
def entries : List Fill → PositionAccount → List Entry
  | [], _ => []
  | fill :: fills, account =>
      let after := (account.take fill).2
      if (account.take fill).1.error = .none then
        ⟨fill, account.position, after.position⟩ :: entries fills after
      else entries fills after

/-- The account after a sequence of fills, accepted or not. -/
def takeAll (fills : List Fill) (account : PositionAccount) : PositionAccount :=
  Machine.run (fun fill account => (account.take fill).2) fills account

/-- How far the realized PnL is from the exact one, undivided. -/
def discrepancy (account : PositionAccount) (cash : Int) : Int :=
  Fixed.kScale * account.realized.raw -
    (account.averagePrice.raw * account.position.raw - cash)

/-- Truncation loses less than the divisor. -/
theorem abs_mul_tdiv_sub_lt (value : Int) {divisor : Int} (h : 0 < divisor) :
    |divisor * value.tdiv divisor - value| < divisor := by
  have hsplit := Int.mul_tdiv_add_tmod value divisor
  have hlo := Int.lt_tmod_of_pos value h
  have hhi := Int.tmod_lt_of_pos value h
  rw [abs_lt]
  exact ⟨by omega, by omega⟩

/-- The rounded average, carried back to the whole position. -/
theorem abs_average_mul_sub_lt {q a f p : Int} (hheld : q ≠ 0) (hsame : q < 0 ↔ f < 0) :
    |(a * |q| + p * |f|) / (|q| + |f|) * (q + f) - (a * q + p * f)| < |q + f| := by
  have hq : 0 < |q| := abs_pos.mpr hheld
  have hf := abs_nonneg f
  have htotal : 0 < |q| + |f| := by omega
  have hsplit := Int.mul_ediv_add_emod (a * |q| + p * |f|) (|q| + |f|)
  have hlo := Int.emod_nonneg (a * |q| + p * |f|) (show |q| + |f| ≠ 0 by omega)
  have hhi := Int.emod_lt_of_pos (a * |q| + p * |f|) htotal
  by_cases hneg : q < 0
  · have hfneg := hsame.mp hneg
    rw [abs_of_neg hneg, abs_of_neg hfneg] at *
    rw [abs_of_neg (show q + f < 0 by omega), abs_lt]
    constructor
    · linarith
    · linarith
  · have hfpos : 0 ≤ f := by omega
    rw [abs_of_nonneg (show 0 ≤ q by omega), abs_of_nonneg hfpos] at *
    rw [abs_of_nonneg (show 0 ≤ q + f by omega), abs_lt]
    constructor
    · linarith
    · linarith

/-- What a fill books, against what it would book without rounding. -/
theorem Moves.abs_delta_sub_le {q a f p newPosition newAverage delta : Int}
    (h : Moves q a f p newPosition newAverage delta) :
    |Fixed.kScale * delta - (newAverage * newPosition - a * q - f * p)| ≤
      (if q ≠ 0 ∧ ¬(q < 0 ↔ f < 0) then Fixed.kScale else 0) +
        if q ≠ 0 ∧ (q < 0 ↔ f < 0) then |newPosition| else 0 := by
  have hscale : 0 < Fixed.kScale := by decide
  cases h with
  | opens hflat =>
      rw [if_neg (fun hheld => hheld.1 hflat), if_neg (fun hheld => hheld.1 hflat), hflat]
      have hexact : Fixed.kScale * 0 - (p * f - a * 0 - f * p) = 0 := by ring
      rw [hexact, abs_zero, add_zero]
  | increases hheld hsame hfits =>
      have hrounded := abs_average_mul_sub_lt (a := a) (p := p) hheld hsame
      rw [if_neg (fun hopposes => hopposes.2 hsame), if_pos ⟨hheld, hsame⟩, zero_add, abs_sub_comm]
      have hmove : (a * |q| + p * |f|) / (|q| + |f|) * (q + f) - a * q - f * p -
          Fixed.kScale * 0 =
          (a * |q| + p * |f|) / (|q| + |f|) * (q + f) - (a * q + p * f) := by ring
      rw [hmove]
      exact hrounded.le
  | reduces hheld hopposite hwithin =>
      have hrounded := abs_mul_tdiv_sub_lt ((a - p) * f) hscale
      have hbasis : (if q + f = 0 then 0 else a) * (q + f) = a * (q + f) := by
        split
        · rename_i hzero
          rw [hzero, mul_zero, mul_zero]
        · rfl
      rw [hbasis, if_pos ⟨hheld, hopposite⟩, if_neg (fun hsame => hopposite hsame.2), add_zero]
      have hmove : a * (q + f) - a * q - f * p = (a - p) * f := by ring
      rw [hmove]
      exact hrounded.le
  | flips hheld hopposite hbeyond =>
      have hrounded := abs_mul_tdiv_sub_lt ((p - a) * q) hscale
      rw [if_pos ⟨hheld, hopposite⟩, if_neg (fun hsame => hopposite hsame.2), add_zero]
      have hmove : p * (q + f) - a * q - f * p = (p - a) * q := by ring
      rw [hmove]
      exact hrounded.le

/-- One fill moves the discrepancy by at most its slack. -/
theorem Accepted.abs_discrepancy_sub_le {account after : PositionAccount} {fill : Fill}
    (h : account.Accepted fill after) (cash : Int) :
    |after.discrepancy (fill.signedRaw * fill.price.raw + cash) - account.discrepancy cash| ≤
      Entry.slack ⟨fill, account.position, after.position⟩ := by
  obtain ⟨delta, hrealized, hmoves⟩ := h.moves
  have hle := hmoves.abs_delta_sub_le
  have hmove : after.discrepancy (fill.signedRaw * fill.price.raw + cash) -
      account.discrepancy cash =
      Fixed.kScale * delta - (after.averagePrice.raw * after.position.raw -
        account.averagePrice.raw * account.position.raw - fill.signedRaw * fill.price.raw) := by
    simp only [discrepancy, hrealized]
    ring
  rw [hmove]
  simpa [Entry.slack, Entry.opposes, Entry.increases] using hle

theorem abs_discrepancy_takeAll_sub_le (fills : List Fill) {account : PositionAccount}
    (hsound : account.Sound) (cash : Int) :
    |(takeAll fills account).discrepancy (((entries fills account).map Entry.cash).sum + cash) -
        account.discrepancy cash| ≤ ((entries fills account).map Entry.slack).sum := by
  induction fills generalizing account cash with
  | nil => simp [takeAll, entries]
  | cons fill fills ih =>
      have hnext := hsound.take fill
      rcases take_cases hsound fill with ⟨herror, hsame⟩ | ⟨herror, haccepted⟩
      · simp only [takeAll, Machine.run_cons, entries, if_neg herror, hsame]
        exact ih hsound cash
      · simp only [takeAll, Machine.run_cons, entries, if_pos herror, List.map_cons, List.sum_cons]
        have hfirst := haccepted.abs_discrepancy_sub_le cash
        have hrest := ih hnext (fill.signedRaw * fill.price.raw + cash)
        rw [takeAll, ← add_assoc, add_comm _ (fill.signedRaw * fill.price.raw)] at hrest
        have hboth := abs_sub_le
          ((Machine.run (fun fill account => (account.take fill).2) fills
            (account.take fill).2).discrepancy (fill.signedRaw * fill.price.raw +
              ((entries fills (account.take fill).2).map Entry.cash).sum + cash))
          ((account.take fill).2.discrepancy (fill.signedRaw * fill.price.raw + cash))
          (account.discrepancy cash)
        simp only [Entry.cash] at hboth hrest ⊢
        omega

/-- The slack of the entries: the scale for each fill that closes something, and
the position an increase leaves. -/
theorem sum_slack (history : List Entry) :
    (history.map Entry.slack).sum =
      Fixed.kScale * (history.countP Entry.opposes : Int) +
        ((history.filter Entry.increases).map fun entry => |entry.positionAfter.raw|).sum := by
  induction history with
  | nil => rfl
  | cons entry history ih =>
      rw [List.map_cons, List.sum_cons, ih, List.countP_cons, List.filter_cons, Entry.slack]
      cases entry.opposes <;> cases entry.increases <;> simp <;> ring

/-- Over any fills an account takes from fresh, what it has realized differs from
what they cost less what the open position carries by no more than the roundings. -/
theorem conservation_takeAll (symbol : Symbol) (fills : List Fill) :
    |Fixed.kScale * (takeAll fills (fresh symbol)).realized.raw -
        ((takeAll fills (fresh symbol)).averagePrice.raw *
            (takeAll fills (fresh symbol)).position.raw -
          ((entries fills (fresh symbol)).map fun entry =>
            entry.fill.signedRaw * entry.fill.price.raw).sum)| ≤
      Fixed.kScale * ((entries fills (fresh symbol)).countP Entry.opposes : Int) +
        (((entries fills (fresh symbol)).filter Entry.increases).map fun entry =>
          |entry.positionAfter.raw|).sum := by
  have hbound := abs_discrepancy_takeAll_sub_le fills (sound_fresh symbol) 0
  have hstart : (fresh symbol).discrepancy 0 = 0 := rfl
  rw [hstart, sub_zero, add_zero, sum_slack] at hbound
  exact hbound

end PositionAccount

end MmEngine.Portfolio
