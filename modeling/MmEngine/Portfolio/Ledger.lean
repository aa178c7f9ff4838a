/-
# The ledger invariant

What holds of an account in every state it can reach: it has a cost basis exactly
when it has a position, the position is never the one value that has no opposite,
fees only accumulate, the cost basis is representable, and a flat account is worth
nothing for certain. These are also the facts that keep every negation and every
product of a fill or a mark exact.
-/

import Mathlib.Algebra.Order.Ring.Abs
import Mathlib.Tactic.Linarith
import MmEngine.Lib.Machine
import MmEngine.Portfolio.PositionAccount

namespace MmEngine.Portfolio

/-- One fill as the account is handed it. -/
structure Fill where
  tradeId : TradeId
  side : Side
  price : Px
  quantity : Qty
  fee : Notional
  deriving DecidableEq

namespace Fill

/-- The signed quantity of a fill, as an exact integer. -/
def signedRaw (fill : Fill) : Int :=
  match fill.side with
  | .buy => fill.quantity.raw
  | .sell => -fill.quantity.raw

/-- What a fill must be for the account to compute with it. -/
structure Acceptable (fill : Fill) : Prop where
  tradeId : fill.tradeId.isEmpty = false
  quantity_pos : 0 < fill.quantity.raw
  price_pos : 0 < fill.price.raw
  fee_nonneg : 0 ≤ fill.fee.raw

theorem abs_signedRaw {fill : Fill} (h : 0 < fill.quantity.raw) :
    |fill.signedRaw| = fill.quantity.raw := by
  cases hside : fill.side with
  | buy => simp only [signedRaw, hside, abs_of_pos h]
  | sell => simp only [signedRaw, hside, abs_neg, abs_of_pos h]

theorem signedRaw_ne_zero {fill : Fill} (h : 0 < fill.quantity.raw) : fill.signedRaw ≠ 0 := by
  intro hzero
  have habs := abs_signedRaw h
  rw [hzero, abs_zero] at habs
  omega

end Fill

/-- The negation that signs a fill is exact. -/
theorem signedFill_raw {fill : Fill} (h : 0 < fill.quantity.raw) :
    (signedFill fill.side fill.quantity).raw = fill.signedRaw := by
  cases hside : fill.side with
  | buy => simp only [signedFill, Fill.signedRaw, hside]
  | sell =>
      simp only [signedFill, Fill.signedRaw, hside]
      apply Fixed.zero_sub_raw
      simp only [rawMin]
      omega

theorem signedFill_ne_min {fill : Fill} (h : 0 < fill.quantity.raw) :
    (signedFill fill.side fill.quantity).raw ≠ rawMin := by
  have hle := fill.quantity.raw_le
  rw [signedFill_raw h]
  cases hside : fill.side with
  | buy =>
      simp only [Fill.signedRaw, hside, rawMin]
      omega
  | sell =>
      simp only [Fill.signedRaw, hside, rawMin, rawMax] at hle ⊢
      omega

/-- The weighted average, once its weights are known to be exact. -/
theorem weightedAverage_eq_some {a b average : Px} {qa qb : Qty} (hqa : qa.raw ≠ rawMin)
    (hqb : qb.raw ≠ rawMin) (ha : 0 < a.raw) (hb : 0 < b.raw)
    (h : weightedAverage a qa b qb = some average) :
    |qa.raw| + |qb.raw| ≤ rawMax ∧ 0 < |qa.raw| + |qb.raw| ∧
      average.raw = (a.raw * |qa.raw| + b.raw * |qb.raw|) / (|qa.raw| + |qb.raw|) := by
  simp only [weightedAverage, Option.bind_eq_bind, Option.bind_eq_some_iff] at h
  obtain ⟨total, htotal, h⟩ := h
  rw [Fixed.checkedAdd_eq_some_iff, Fixed.saturatingAbs_raw hqa,
      Fixed.saturatingAbs_raw hqb] at htotal
  split at h
  · cases h
  · rename_i hpos
    simp only [Bool.not_eq_true', Bool.not_eq_false, Fixed.isPositive_iff] at hpos
    rw [Fixed.fromRaw?_eq_some_iff, Fixed.saturatingAbs_raw hqa, Fixed.saturatingAbs_raw hqb,
      htotal] at h
    have hnum : 0 ≤ a.raw * |qa.raw| + b.raw * |qb.raw| := by positivity
    rw [Int.tdiv_eq_ediv_of_nonneg hnum] at h
    exact ⟨htotal ▸ total.raw_le, htotal ▸ hpos, h⟩

/-- Between positive prices no move is the least scalar. -/
theorem move_ne_min {entry exitPrice move : Px} (hentry : 0 ≤ entry.raw)
    (hexit : 0 < exitPrice.raw) (hmove : Fixed.checkedSub exitPrice entry = some move) :
    move.raw ≠ rawMin := by
  rw [Fixed.checkedSub_eq_some_iff] at hmove
  have hle := entry.raw_le
  simp only [rawMin, rawMax] at *
  omega

/-- The gross result of closing, once its negations are known to be exact. -/
theorem realizedOf_eq_some {entry exitPrice : Px} {closed : Qty} {longPosition : Bool}
    {result : Notional} (hentry : 0 ≤ entry.raw) (hexit : 0 < exitPrice.raw)
    (hclosed : closed.raw ≠ rawMin)
    (h : realizedOf entry exitPrice closed longPosition = some result) :
    result.raw = ((if longPosition then exitPrice.raw - entry.raw else entry.raw - exitPrice.raw) *
      |closed.raw|).tdiv Fixed.kScale := by
  simp only [realizedOf, Option.bind_eq_bind, Option.bind_eq_some_iff] at h
  obtain ⟨move, hmove, h⟩ := h
  have hmin := move_ne_min hentry hexit hmove
  rw [Fixed.checkedSub_eq_some_iff] at hmove
  rw [checkedNotionalOf, Fixed.fromRaw?_eq_some_iff, Fixed.saturatingAbs_raw hclosed] at h
  rw [h]
  cases longPosition with
  | true => simp only [if_true, hmove]
  | false =>
      simp only [Bool.false_eq_true, if_false, Fixed.zero_sub_raw hmin, hmove]
      rw [neg_sub]

namespace PositionAccount

/-- The ledger invariant. -/
structure Sound (account : PositionAccount) : Prop where
  basis_pos_iff : 0 < account.averagePrice.raw ↔ account.position.raw ≠ 0
  position_ne_min : account.position.raw ≠ rawMin
  fees_nonneg : 0 ≤ account.fees.raw
  cost_le : (account.averagePrice.raw * account.position.raw).tdiv Fixed.kScale ≤ rawMax
  le_cost : rawMin ≤ (account.averagePrice.raw * account.position.raw).tdiv Fixed.kScale
  flat_valued : account.position.raw = 0 →
    account.unrealizedValid = true ∧ account.unrealized.raw = 0

/-- Hands a fill to the account. -/
def take (account : PositionAccount) (fill : Fill) : FillOutcome × PositionAccount :=
  account.applyFill fill.tradeId fill.side fill.price fill.quantity fill.fee

/-- How a fill moves position, basis and realized PnL: with `q` the position held at
the average `a`, and `f` the signed quantity filled at the price `p`, all exact. -/
inductive Moves (q a f p : Int) : (newPosition newAverage delta : Int) → Prop
  | opens (hflat : q = 0) : Moves q a f p f p 0
  | increases (hheld : q ≠ 0) (hsame : q < 0 ↔ f < 0) (hfits : |q| + |f| ≤ rawMax) :
      Moves q a f p (q + f) ((a * |q| + p * |f|) / (|q| + |f|)) 0
  | reduces (hheld : q ≠ 0) (hopposite : ¬(q < 0 ↔ f < 0)) (hwithin : |f| ≤ |q|) :
      Moves q a f p (q + f) (if q + f = 0 then 0 else a) (((a - p) * f).tdiv Fixed.kScale)
  | flips (hheld : q ≠ 0) (hopposite : ¬(q < 0 ↔ f < 0)) (hbeyond : |q| < |f|) :
      Moves q a f p (q + f) p (((p - a) * q).tdiv Fixed.kScale)

/-- An accepted fill: what the account looks like after it. -/
structure Accepted (account : PositionAccount) (fill : Fill) (after : PositionAccount) : Prop where
  acceptable : fill.Acceptable
  moves : ∃ delta, after.realized.raw = account.realized.raw + delta ∧
    Moves account.position.raw account.averagePrice.raw fill.signedRaw fill.price.raw
      after.position.raw after.averagePrice.raw delta
  cost : ∃ cost, after.checkedCostBasis = some cost
  fees : after.fees.raw = account.fees.raw + fill.fee.raw
  unrealized : after.unrealized = .zero
  unrealizedValid : after.unrealizedValid = after.position.isZero

/-- Trading against a position: what is closed, and what it makes. -/
theorem moves_of_opposite {q a f p delta : Int} (hheld : q ≠ 0) (hopposite : ¬(q < 0 ↔ f < 0))
    (hf : f ≠ 0)
    (hdelta : delta =
      ((if 0 < q then p - a else a - p) * (if |f| < |q| then |f| else |q|)).tdiv Fixed.kScale) :
    Moves q a f p (q + f)
      (if |q| < |f| then p else if q + f = 0 then 0 else a) delta := by
  by_cases hbeyond : |q| < |f|
  · have hclosed : (if 0 < q then p - a else a - p) * (if |f| < |q| then |f| else |q|) =
        (p - a) * q := by
      rw [if_neg (show ¬|f| < |q| by omega)]
      by_cases hlong : 0 < q
      · rw [if_pos hlong, abs_of_pos hlong]
      · rw [if_neg hlong, abs_of_nonpos (by omega)]
        ring
    rw [if_pos hbeyond, hdelta, hclosed]
    exact .flips hheld hopposite hbeyond
  · have hsize : (if |f| < |q| then |f| else |q|) = |f| := by
      split <;> omega
    have hclosed : (if 0 < q then p - a else a - p) * (if |f| < |q| then |f| else |q|) =
        (a - p) * f := by
      rw [hsize]
      by_cases hlong : 0 < q
      · rw [if_pos hlong, abs_of_neg (by omega)]
        ring
      · rw [if_neg hlong, abs_of_pos (by omega)]
    rw [if_neg hbeyond, hdelta, hclosed]
    exact .reduces hheld hopposite (by omega)

/-- The engine's arithmetic is the exact one. -/
theorem moves_of_basisChange {account : PositionAccount} (hsound : account.Sound) {fill : Fill}
    (hquantity : 0 < fill.quantity.raw) (hprice : 0 < fill.price.raw) {newPosition : Qty}
    {change : BasisChange} (hnew : newPosition.raw = account.position.raw + fill.signedRaw)
    (h : account.basisChange fill.price (signedFill fill.side fill.quantity) newPosition =
      some change) :
    Moves account.position.raw account.averagePrice.raw fill.signedRaw fill.price.raw
      newPosition.raw change.newAverage.raw change.realizedDelta.raw := by
  have hraw := signedFill_raw hquantity
  have hne := Fill.signedRaw_ne_zero hquantity
  have hmin := signedFill_ne_min hquantity
  rw [basisChange] at h
  split at h
  · rename_i hflat
    rw [Fixed.isZero_iff] at hflat
    cases h
    rw [hnew, hflat, Int.zero_add, Fixed.zero_raw]
    exact .opens rfl
  · rename_i hheld
    rw [Fixed.isZero_iff] at hheld
    have hbasis := hsound.basis_pos_iff.mpr hheld
    split at h
    · rename_i hsame
      obtain ⟨average, haverage, rfl⟩ := Option.map_eq_some_iff.mp h
      obtain ⟨hfits, -, haverage⟩ :=
        weightedAverage_eq_some hsound.position_ne_min hmin hbasis hprice haverage
      simp only [Fixed.isNegative, hraw, decide_eq_decide] at hsame
      rw [hraw] at hfits haverage
      rw [hnew, haverage, Fixed.zero_raw]
      exact .increases hheld hsame hfits
    · rename_i hopposite
      obtain ⟨delta, hdelta, rfl⟩ := Option.map_eq_some_iff.mp h
      have hheldAbs := Fixed.saturatingAbs_raw hsound.position_ne_min
      have hincoming := Fixed.saturatingAbs_raw hmin
      simp only [Fixed.isNegative, hraw, decide_eq_decide] at hopposite
      rw [hraw] at hincoming
      have hclosedMin : (if (signedFill fill.side fill.quantity).saturatingAbs.raw <
          account.position.saturatingAbs.raw then (signedFill fill.side fill.quantity).saturatingAbs
          else account.position.saturatingAbs).raw ≠ rawMin := by
        have hfillAbs := abs_nonneg fill.signedRaw
        have hpositionAbs := abs_nonneg account.position.raw
        split <;> simp only [hincoming, hheldAbs, rawMin] <;> omega
      have hclosed := realizedOf_eq_some (by omega) hprice hclosedMin hdelta
      rw [hnew]
      convert @moves_of_opposite _ _ _ _ delta.raw hheld hopposite hne ?_ using 1
      · simp only [hheldAbs, hincoming, Fixed.isZero_iff, hnew]
        split
        · rfl
        · split <;> rfl
      · split <;> [skip; split] <;> rfl
      · rw [hclosed]
        simp only [Fixed.isPositive_iff, hheldAbs, hincoming]
        congr 2
        split <;> simp only [hheldAbs, hincoming, abs_abs]

theorem commitFill_accepted {account : PositionAccount} (hsound : account.Sound) {fill : Fill}
    (hacceptable : fill.Acceptable) {result : FillOutcome × PositionAccount}
    (h : account.commitFill fill.tradeId fill.side fill.price fill.quantity fill.fee =
      some result) : result.1.error = .none ∧ account.Accepted fill result.2 := by
  obtain ⟨newPosition, change, cost, newRealized, newFees, hposition, hchange, hcost, hrealized,
    hfees, rfl⟩ := commitFill_eq_some h
  rw [signedFill_raw hacceptable.quantity_pos] at hposition
  have hmoves := moves_of_basisChange hsound hacceptable.quantity_pos hacceptable.price_pos
    hposition hchange
  exact ⟨rfl,
    { acceptable := hacceptable
      moves := ⟨change.realizedDelta.raw, hrealized, hmoves⟩
      cost := ⟨cost, hcost⟩
      fees := hfees
      unrealized := rfl
      unrealizedValid := rfl }⟩

theorem screenFill_eq_none_iff {account : PositionAccount} {fill : Fill} :
    account.screenFill fill.tradeId fill.price fill.quantity fill.fee = .none ↔
      account.faulted = false ∧ fill.Acceptable ∧ account.seen.contains fill.tradeId = false := by
  rw [screenFill]
  constructor
  · intro h
    split_ifs at h with hfaulted hid hquantity hprice hfee hseen
    simp only [Bool.not_eq_true, Bool.not_eq_true', Bool.not_eq_false, Fixed.isPositive_iff,
      Fixed.isNegative, decide_eq_true_eq, Int.not_lt] at *
    exact ⟨hfaulted, ⟨hid, hquantity, hprice, hfee⟩, hseen⟩
  · rintro ⟨hfaulted, hacceptable, hseen⟩
    simp [hfaulted, hacceptable.tradeId, Int.not_le.mpr hacceptable.quantity_pos,
      Int.not_le.mpr hacceptable.price_pos, Int.not_lt.mpr hacceptable.fee_nonneg, hseen]

/-- Every refusal leaves the account as it was. -/
theorem take_cases {account : PositionAccount} (hsound : account.Sound) (fill : Fill) :
    (account.take fill).1.error ≠ .none ∧ (account.take fill).2 = account ∨
      (account.take fill).1.error = .none ∧ account.Accepted fill (account.take fill).2 := by
  rw [take, applyFill]
  split
  · rename_i hscreen
    obtain ⟨-, hacceptable, -⟩ := screenFill_eq_none_iff.mp hscreen
    split
    · exact .inl ⟨by simp, rfl⟩
    · rename_i hcommit
      exact .inr (commitFill_accepted hsound hacceptable hcommit)
  · rename_i hscreen
    exact .inl ⟨hscreen, rfl⟩

/-! ## The invariant -/

/-- A fresh account. -/
def fresh (symbol : Symbol) : PositionAccount := { symbol := symbol }

theorem sound_fresh (symbol : Symbol) : (fresh symbol).Sound := by
  constructor <;> simp [fresh, rawMin, rawMax]

/-- The average of positive prices is positive. -/
theorem average_pos {a p wa wb : Int} (ha : 0 < a) (hp : 0 < p) (hwa : 0 ≤ wa) (hwb : 0 ≤ wb)
    (hw : 0 < wa + wb) : 0 < (a * wa + p * wb) / (wa + wb) := by
  have hnum : wa + wb ≤ a * wa + p * wb := by nlinarith
  have hone : (wa + wb) / (wa + wb) = 1 := Int.ediv_self (by omega)
  have hle := Int.ediv_le_ediv hw hnum
  omega

/-- The position and the basis a fill leaves behind. -/
theorem Moves.sound {q a f p newPosition newAverage delta : Int}
    (h : Moves q a f p newPosition newAverage delta) (ha : 0 < a ↔ q ≠ 0) (hp : 0 < p)
    (hq : |q| ≤ rawMax) (hf : |f| ≤ rawMax) (hne : f ≠ 0) :
    (0 < newAverage ↔ newPosition ≠ 0) ∧ |newPosition| ≤ rawMax := by
  have hqpos := abs_nonneg q
  have hfpos : 0 < |f| := abs_pos.mpr hne
  have hqabs := abs_cases q
  have hfabs := abs_cases f
  have hsum := abs_cases (q + f)
  cases h with
  | opens hflat => exact ⟨iff_of_true hp hne, hf⟩
  | increases hheld hsame hfits =>
      have haverage := average_pos (ha.mpr hheld) hp hqpos hfpos.le (by omega)
      exact ⟨iff_of_true haverage (by omega), by omega⟩
  | reduces hheld hopposite hwithin =>
      refine ⟨?_, by omega⟩
      split
      · rename_i hzero
        exact iff_of_false (by omega) (by simpa using hzero)
      · rename_i hzero
        exact iff_of_true (ha.mpr hheld) hzero
  | flips hheld hopposite hbeyond => exact ⟨iff_of_true hp (by omega), by omega⟩

theorem Sound.abs_position_le {account : PositionAccount} (h : account.Sound) :
    |account.position.raw| ≤ rawMax := by
  have hmin := h.position_ne_min
  have hlo := account.position.rawMin_le
  have hhi := account.position.raw_le
  simp only [rawMin, rawMax] at *
  exact abs_le.mpr ⟨by omega, by omega⟩

theorem Accepted.sound {account after : PositionAccount} {fill : Fill}
    (h : account.Accepted fill after) (hsound : account.Sound) : after.Sound := by
  obtain ⟨delta, -, hmoves⟩ := h.moves
  have hquantity := h.acceptable.quantity_pos
  obtain ⟨hbasis, hfits⟩ := hmoves.sound hsound.basis_pos_iff h.acceptable.price_pos
    hsound.abs_position_le (by rw [Fill.abs_signedRaw hquantity]; exact fill.quantity.raw_le)
    (Fill.signedRaw_ne_zero hquantity)
  obtain ⟨cost, hcost⟩ := h.cost
  rw [checkedCostBasis, checkedNotionalOf, Fixed.fromRaw?_eq_some_iff] at hcost
  exact
    { basis_pos_iff := hbasis
      position_ne_min := by
        intro hmin
        rw [hmin] at hfits
        exact absurd hfits (by decide)
      fees_nonneg := by
        have hfees := hsound.fees_nonneg
        have hfee := h.acceptable.fee_nonneg
        rw [h.fees]
        omega
      cost_le := hcost ▸ cost.raw_le
      le_cost := hcost ▸ cost.rawMin_le
      flat_valued := by
        intro hflat
        rw [h.unrealizedValid, h.unrealized]
        exact ⟨by simpa using hflat, rfl⟩ }

theorem Sound.take {account : PositionAccount} (h : account.Sound) (fill : Fill) :
    (account.take fill).2.Sound := by
  rcases take_cases h fill with ⟨-, hunchanged⟩ | ⟨-, haccepted⟩
  · rwa [hunchanged]
  · exact haccepted.sound h

/-- The invariant reads nothing of an account but its ledger and its valuation. -/
theorem Sound.of_ledger_eq {account after : PositionAccount} (h : account.Sound)
    (hposition : after.position = account.position)
    (haverage : after.averagePrice = account.averagePrice) (hfees : after.fees = account.fees)
    (hflat : after.position.raw = 0 → after.unrealizedValid = true ∧ after.unrealized.raw = 0) :
    after.Sound := by
  obtain ⟨hbasis, hmin, hfee, hle, hlo, -⟩ := h
  constructor
  · rwa [haverage, hposition]
  · rwa [hposition]
  · rwa [hfees]
  · rwa [haverage, hposition]
  · rwa [haverage, hposition]
  · exact hflat

/-- A refused mark leaves the account unvalued. -/
structure MarkRefused (account after : PositionAccount) : Prop where
  after_eq : ∃ lastMark, after = { account.unvalued with lastMark := lastMark }

/-- An accepted mark values the account, and was usable and recent enough. -/
structure MarkAccepted (account : PositionAccount) (mark : MarkPrice) (nowNs maxAgeNs : Nanos)
    (after : PositionAccount) : Prop where
  usable : mark.usable = true
  recent : 0 < maxAgeNs → mark.asOfNs ≠ 0 → nowNs - mark.asOfNs ≤ maxAgeNs
  after_eq : ∃ value,
    (account.position.raw = 0 → value = .zero) ∧
    (account.position.raw ≠ 0 → realizedOf account.averagePrice (mark.forPosition account.position)
      account.position account.position.isPositive = some value) ∧
    after = { account with
      lastMark := mark.forPosition account.position, unrealized := value, unrealizedValid := true }

/-- What a mark can do. -/
theorem applyMark_cases (account : PositionAccount) (mark : MarkPrice) (nowNs maxAgeNs : Nanos) :
    (account.applyMark mark nowNs maxAgeNs).1 ≠ .none ∧
        account.MarkRefused (account.applyMark mark nowNs maxAgeNs).2 ∨
      (account.applyMark mark nowNs maxAgeNs).1 = .none ∧
        account.MarkAccepted mark nowNs maxAgeNs (account.applyMark mark nowNs maxAgeNs).2 := by
  rw [applyMark]
  split
  · exact .inl ⟨by simp, ⟨account.lastMark, rfl⟩⟩
  rename_i husable
  split
  · exact .inl ⟨by simp, ⟨account.lastMark, rfl⟩⟩
  rename_i hrecent
  have hrecent : 0 < maxAgeNs → mark.asOfNs ≠ 0 → nowNs - mark.asOfNs ≤ maxAgeNs := by
    simpa using hrecent
  simp only
  split
  · rename_i hflat
    rw [Fixed.isZero_iff] at hflat
    exact .inr ⟨rfl, by simpa using husable, hrecent, .zero, fun _ => rfl,
      fun hheld => absurd hflat hheld, rfl⟩
  · rename_i hheld
    rw [Fixed.isZero_iff] at hheld
    split
    · refine .inl ⟨by simp, ⟨mark.forPosition account.position, ?_⟩⟩
      simp [unvalued, Fixed.isZero, hheld]
    · rename_i value hvalue
      exact .inr ⟨rfl, by simpa using husable, hrecent, value, fun hflat => absurd hflat hheld,
        fun _ => hvalue, rfl⟩

theorem Sound.applyMark {account : PositionAccount} (h : account.Sound) (mark : MarkPrice)
    (nowNs maxAgeNs : Nanos) : (account.applyMark mark nowNs maxAgeNs).2.Sound := by
  rcases applyMark_cases account mark nowNs maxAgeNs with ⟨-, hrefused⟩ | ⟨-, haccepted⟩
  · obtain ⟨lastMark, hafter⟩ := hrefused.after_eq
    rw [hafter]
    exact h.of_ledger_eq rfl rfl rfl fun hflat => ⟨by simpa [unvalued] using hflat, rfl⟩
  · obtain ⟨value, hzero, -, hafter⟩ := haccepted.after_eq
    rw [hafter]
    exact h.of_ledger_eq rfl rfl rfl fun hflat => ⟨rfl, by rw [hzero hflat, Fixed.zero_raw]⟩

/-- The account without a valuation, as a restart leaves it. -/
def unmarked (account : PositionAccount) : PositionAccount :=
  { account with
    unrealized := .zero, lastMark := .zero, unrealizedValid := account.position.isZero }

/-- An account with a basis exactly when it has a position is saved and restored
without being refused. -/
theorem restore_save_eq {account : PositionAccount} (hfees : 0 ≤ account.fees.raw)
    (hbasis : 0 < account.averagePrice.raw ↔ account.position.raw ≠ 0) (target : PositionAccount) :
    target.restore account.save = (.none, account.unmarked) := by
  rw [restore, save]
  rw [if_neg (by simpa using hfees), if_neg (by simp [hbasis, Fixed.isZero]),
    if_neg (by simp [hbasis])]
  rfl

theorem Sound.restore_save {account : PositionAccount} (h : account.Sound)
    (target : PositionAccount) :
    (target.restore account.save).1 = .none ∧ (target.restore account.save).2.Sound := by
  rw [restore_save_eq h.fees_nonneg h.basis_pos_iff]
  exact ⟨rfl, h.of_ledger_eq rfl rfl rfl fun hflat => ⟨by simpa [unmarked] using hflat, rfl⟩⟩

/-- What can happen to an account. A saved account is restored in place, or into a
fresh one. -/
inductive Op
  | fill (fill : Fill)
  | mark (mark : MarkPrice) (nowNs maxAgeNs : Nanos)
  | fault
  | clearFault
  | saveThenRestore
  | restart
  deriving DecidableEq

def step (op : Op) (account : PositionAccount) : PositionAccount :=
  match op with
  | .fill fill => (account.take fill).2
  | .mark mark nowNs maxAgeNs => (account.applyMark mark nowNs maxAgeNs).2
  | .fault => account.fault
  | .clearFault => account.clearFault
  | .saveThenRestore => (account.restore account.save).2
  | .restart => (PositionAccount.restore {} account.save).2

theorem sound_step (op : Op) (account : PositionAccount) (h : account.Sound) :
    (step op account).Sound := by
  cases op with
  | fill fill => exact h.take fill
  | mark mark nowNs maxAgeNs => exact h.applyMark mark nowNs maxAgeNs
  | fault => exact h.of_ledger_eq rfl rfl rfl h.flat_valued
  | clearFault => exact h.of_ledger_eq rfl rfl rfl h.flat_valued
  | saveThenRestore => exact (h.restore_save account).2
  | restart => exact (h.restore_save {}).2

/-- The range of the wide integers that products are formed in. -/
def Wide (value : Int) : Prop := -(2 ^ 127) ≤ value ∧ value < 2 ^ 127

/-- Every negation and every product of a fill is exact: the signed quantity, the
absolute quantities, the move that a short closes against, the weights of the new
average and their sum, the amount closed, and the new cost basis. -/
structure ExactFill (account : PositionAccount) (fill : Fill) : Prop where
  signed : (signedFill fill.side fill.quantity).raw = fill.signedRaw
  held : account.position.saturatingAbs.raw = |account.position.raw|
  incoming : (signedFill fill.side fill.quantity).saturatingAbs.raw = |fill.signedRaw|
  opposite : account.position.raw ≠ 0 → ∀ move,
    Fixed.checkedSub fill.price account.averagePrice = some move →
      (Fixed.zero - move).raw = -move.raw
  weights : Wide (account.averagePrice.raw * |account.position.raw|) ∧
    Wide (fill.price.raw * |fill.signedRaw|) ∧
    Wide (account.averagePrice.raw * |account.position.raw| + fill.price.raw * |fill.signedRaw|)
  closing : ∀ move : Px, Wide (move.raw * |account.position.raw|) ∧
    Wide (move.raw * |fill.signedRaw|)
  cost : ∀ (average : Px) (position : Qty), Wide (average.raw * position.raw)

/-- Every negation and every product of a mark is exact. -/
structure ExactMark (account : PositionAccount) (mark : MarkPrice) : Prop where
  held : account.position.saturatingAbs.raw = |account.position.raw|
  opposite : account.position.raw ≠ 0 → ∀ move,
    Fixed.checkedSub (mark.forPosition account.position) account.averagePrice = some move →
      (Fixed.zero - move).raw = -move.raw
  value : ∀ move : Px, Wide (move.raw * |account.position.raw|)

theorem abs_raw_le {tag : FixedTag} (value : Fixed tag) : |value.raw| ≤ 2 ^ 63 :=
  abs_le.mpr ⟨value.rawMin_le, le_trans value.raw_le (by decide)⟩

/-- A 64-bit value times an absolute quantity takes at most 126 bits. -/
theorem abs_mul_le {x y bound : Int} (hx : |x| ≤ 2 ^ 63) (hy : |y| ≤ bound) :
    |x * y| ≤ 2 ^ 63 * bound := by
  rw [abs_mul]
  exact mul_le_mul hx hy (abs_nonneg _) (by norm_num)

theorem wide_mul {x y : Int} (hx : |x| ≤ 2 ^ 63) (hy : |y| ≤ 2 ^ 63) : Wide (x * y) := by
  obtain ⟨hlo, hhi⟩ := abs_le.mp (abs_mul_le hx hy)
  constructor
  · linarith
  · linarith

/-- Two weighted prices fit together as well. -/
theorem wide_add_mul {x y x' y' : Int} (hx : |x| ≤ 2 ^ 63) (hy : |y| ≤ rawMax)
    (hx' : |x'| ≤ 2 ^ 63) (hy' : |y'| ≤ rawMax) : Wide (x * y + x' * y') := by
  obtain ⟨hlo, hhi⟩ := abs_le.mp (abs_mul_le hx hy)
  obtain ⟨hlo', hhi'⟩ := abs_le.mp (abs_mul_le hx' hy')
  simp only [rawMax] at *
  constructor
  · linarith
  · linarith

theorem Sound.exactFill {account : PositionAccount} (h : account.Sound) {fill : Fill}
    (hacceptable : fill.Acceptable) : account.ExactFill fill := by
  have hquantity := hacceptable.quantity_pos
  have hraw := signedFill_raw hquantity
  have hheld : |(|account.position.raw|)| ≤ rawMax := by
    rw [abs_abs]
    exact h.abs_position_le
  have hfill : |(|fill.signedRaw|)| ≤ rawMax := by
    rw [abs_abs, Fill.abs_signedRaw hquantity]
    exact fill.quantity.raw_le
  have hheld' := le_trans hheld (show rawMax ≤ 2 ^ 63 by decide)
  have hfill' := le_trans hfill (show rawMax ≤ 2 ^ 63 by decide)
  exact
    { signed := hraw
      held := Fixed.saturatingAbs_raw h.position_ne_min
      incoming := by rw [Fixed.saturatingAbs_raw (signedFill_ne_min hquantity), hraw]
      opposite := fun hheld move hmove =>
        Fixed.zero_sub_raw
          (move_ne_min (h.basis_pos_iff.mpr hheld).le hacceptable.price_pos hmove)
      weights := ⟨wide_mul (abs_raw_le _) hheld', wide_mul (abs_raw_le _) hfill',
        wide_add_mul (abs_raw_le _) hheld (abs_raw_le _) hfill⟩
      closing := fun move => ⟨wide_mul (abs_raw_le move) hheld', wide_mul (abs_raw_le move) hfill'⟩
      cost := fun average position => wide_mul (abs_raw_le average) (abs_raw_le position) }

theorem forPosition_pos {mark : MarkPrice} (husable : mark.usable = true) (position : Qty) :
    0 < (mark.forPosition position).raw := by
  simp only [MarkPrice.usable, Bool.and_eq_true, Fixed.isPositive_iff, decide_eq_true_eq] at husable
  rw [MarkPrice.forPosition]
  split
  · exact husable.1.2
  · exact husable.1.1

theorem Sound.exactMark {account : PositionAccount} (h : account.Sound) {mark : MarkPrice}
    (husable : mark.usable = true) : account.ExactMark mark where
  held := Fixed.saturatingAbs_raw h.position_ne_min
  opposite hheld move hmove :=
    Fixed.zero_sub_raw
      (move_ne_min (h.basis_pos_iff.mpr hheld).le (forPosition_pos husable _) hmove)
  value move := wide_mul (abs_raw_le move) (by rw [abs_abs]; exact abs_raw_le account.position)

/-- In every state an account can reach, the ledger invariant holds, and no negation
or product of the next fill or the next mark wraps. -/
theorem sound_and_exact_run (symbol : Symbol) (ops : List Op) :
    (Machine.run step ops (fresh symbol)).Sound ∧
      (∀ fill : Fill, fill.Acceptable → (Machine.run step ops (fresh symbol)).ExactFill fill) ∧
      ∀ mark : MarkPrice, mark.usable = true →
        (Machine.run step ops (fresh symbol)).ExactMark mark := by
  have hsound : (Machine.run step ops (fresh symbol)).Sound :=
    Machine.invariant_run_always sound_step ops (sound_fresh symbol)
  exact ⟨hsound, fun fill => hsound.exactFill, fun mark => hsound.exactMark⟩

end PositionAccount

end MmEngine.Portfolio
