/-
# What a latency report means

The slots of the histogram are the log-linear ones, in 64 bits: every value is in its slot
and in no other, and the slot ends at most a sixty-fourth behind it. A rank's running total
stops at the slot of the sample of that rank, so the value reported is that sample's, rounded
up to the end of its slot and not beyond the greatest sample. Merging adds what was recorded.
-/

import Mathlib.Data.List.Induction
import MmEngine.Common.LatencyHistogram

namespace MmEngine.LatencyHistogram

theorem kSubCount_eq : kSubCount = 64 := rfl

theorem kSlots_eq : kSlots = 3776 := rfl

/-- A value of the first scale is its own slot. -/
theorem slotOf_of_lt {v : BitVec 64} (h : v.toNat < kSubCount) :
    LogLinear.InScale kSubCount 0 v.toNat ∧ slotOf v = LogLinear.slotOf kSubCount 0 v.toNat := by
  refine ⟨⟨by omega, .inl rfl⟩, ?_⟩
  rw [slotOf, if_pos h, LogLinear.slotOf]
  simp

/-- The leading zeros of a greater value tell its scale. -/
theorem slotOf_of_le {v : BitVec 64} (h : kSubCount ≤ v.toNat) :
    v.clz.toNat ≤ 57 ∧ LogLinear.InScale kSubCount (57 - v.clz.toNat) v.toNat ∧
      slotOf v = LogLinear.slotOf kSubCount (57 - v.clz.toNat) v.toNat := by
  have hne : v ≠ 0#64 := by
    rintro rfl
    exact absurd h (by decide)
  have hlow := BitVec.two_pow_sub_clz_le_toNat_of_ne_zero (x := v) (by decide) hne
  have hhigh := BitVec.toNat_lt_two_pow_sub_clz (x := v)
  have hclz : v.clz.toNat ≤ 57 := by
    by_contra hmany
    have hpow : 2 ^ (64 - v.clz.toNat) ≤ 2 ^ 6 := Nat.pow_le_pow_right (by decide) (by omega)
    rw [kSubCount_eq] at h
    omega
  obtain ⟨scale, hscale⟩ : ∃ scale, scale = 57 - v.clz.toNat := ⟨_, rfl⟩
  have hmsb : 63 - v.clz.toNat = scale + kSubBits := by
    rw [kSubBits]
    omega
  have htop : 64 - v.clz.toNat = scale + kSubBits + 1 := by
    rw [kSubBits]
    omega
  rw [htop, Nat.pow_succ, Nat.pow_add] at hhigh
  rw [show 64 - 1 - v.clz.toNat = scale + kSubBits from hmsb, Nat.pow_add] at hlow
  rw [← hscale]
  have hin : LogLinear.InScale kSubCount scale v.toNat := by
    refine ⟨?_, .inr ?_⟩
    · rw [kSubCount, Nat.mul_assoc, Nat.mul_comm 2, Nat.mul_comm (2 ^ kSubBits)]
      exact hhigh
    · rw [kSubCount, Nat.mul_comm]
      exact hlow
  refine ⟨hclz, hin, ?_⟩
  have hshift : (v >>> scale).toNat = v.toNat / 2 ^ scale := by
    rw [BitVec.toNat_ushiftRight, Nat.shiftRight_eq_div_pow]
  have hsub : kSubCount ≤ v.toNat / 2 ^ scale := by
    rw [Nat.le_div_iff_mul_le (Nat.two_pow_pos scale), kSubCount, Nat.mul_comm]
    exact hlow
  rw [slotOf, if_neg (Nat.not_lt.mpr h), hmsb, LogLinear.slotOf]
  simp only [Nat.add_sub_cancel]
  rw [hshift, Nat.add_mul, Nat.one_mul, Nat.mul_comm scale]
  omega

/-- Every value has one of fifty-eight scales, and its slot there. -/
theorem exists_scale (v : BitVec 64) :
    ∃ scale ≤ 57, LogLinear.InScale kSubCount scale v.toNat ∧
      slotOf v = LogLinear.slotOf kSubCount scale v.toNat := by
  by_cases h : v.toNat < kSubCount
  · exact ⟨0, Nat.zero_le _, slotOf_of_lt h⟩
  · obtain ⟨_, hscale⟩ := slotOf_of_le (Nat.not_lt.mp h)
    exact ⟨_, Nat.sub_le _ _, hscale⟩

theorem slotOf_lt (v : BitVec 64) : slotOf v < kSlots := by
  obtain ⟨scale, hscale, hin, hslot⟩ := exists_scale v
  have hdiv := hin.div_lt
  rw [hslot, LogLinear.slotOf, kSlots_eq]
  rw [kSubCount_eq] at hdiv ⊢
  omega

section Bounds

variable {slot : Nat}

theorem scaleOf_le (hslot : slot < kSlots) : LogLinear.scaleOf kSubCount slot ≤ 57 := by
  rw [kSlots_eq] at hslot
  rw [LogLinear.scaleOf, kSubCount_eq]
  omega

/-- The end of a slot that exists does not leave the word. -/
theorem end_le (hslot : slot < kSlots) :
    (LogLinear.offsetOf kSubCount slot + 1) * 2 ^ LogLinear.scaleOf kSubCount slot ≤ 2 ^ 64 := by
  have hscale := scaleOf_le hslot
  have hoffset : LogLinear.offsetOf kSubCount slot + 1 ≤ 2 ^ 7 := by
    rw [kSlots_eq] at hslot
    rw [LogLinear.offsetOf, LogLinear.scaleOf, kSubCount_eq]
    omega
  calc (LogLinear.offsetOf kSubCount slot + 1) * 2 ^ LogLinear.scaleOf kSubCount slot
      ≤ 2 ^ 7 * 2 ^ 57 := Nat.mul_le_mul hoffset (Nat.pow_le_pow_right (by decide) hscale)
    _ = 2 ^ 64 := by norm_num

/-- The bucket of a slot and its place there are the scale and the offset. -/
theorem offsetOf_eq (slot : Nat) :
    LogLinear.offsetOf kSubCount slot =
      if slot / kSubCount = 0 then slot % kSubCount else slot % kSubCount + kSubCount := by
  rw [LogLinear.offsetOf, LogLinear.scaleOf, kSubCount_eq]
  split <;> omega

theorem toNat_slotLowerBound (hslot : slot < kSlots) :
    (slotLowerBound slot).toNat = LogLinear.lower kSubCount slot := by
  have hfits := end_le hslot
  have hpos := Nat.two_pow_pos (LogLinear.scaleOf kSubCount slot)
  rw [Nat.add_mul, Nat.one_mul] at hfits
  have hlt : LogLinear.lower kSubCount slot < 2 ^ 64 := by
    rw [LogLinear.lower]
    omega
  rw [slotLowerBound]
  by_cases hbucket : slot / kSubCount = 0
  · have hlower : LogLinear.lower kSubCount slot = slot % kSubCount := by
      rw [LogLinear.lower, offsetOf_eq, if_pos hbucket, LogLinear.scaleOf, hbucket, Nat.zero_sub,
        Nat.pow_zero, Nat.mul_one]
    rw [if_pos hbucket, BitVec.toNat_ofNat, ← hlower, Nat.mod_eq_of_lt hlt]
  · have hlower : LogLinear.lower kSubCount slot =
        (slot % kSubCount + kSubCount) * 2 ^ (slot / kSubCount - 1) := by
      rw [LogLinear.lower, offsetOf_eq, if_neg hbucket, LogLinear.scaleOf]
    have hsub : slot % kSubCount + kSubCount < 2 ^ 64 := by
      have hrest := Nat.mod_lt slot (show 0 < kSubCount by decide)
      rw [kSubCount_eq] at hrest ⊢
      omega
    rw [if_neg hbucket, BitVec.toNat_shiftLeft, BitVec.toNat_ofNat, Nat.mod_eq_of_lt hsub,
      Nat.shiftLeft_eq, ← hlower, Nat.mod_eq_of_lt hlt]

theorem toNat_slotUpperBound (hslot : slot < kSlots) :
    (slotUpperBound slot).toNat = LogLinear.upper kSubCount slot := by
  have hlower := toNat_slotLowerBound hslot
  have hfits := end_le hslot
  have hpos := Nat.two_pow_pos (LogLinear.scaleOf kSubCount slot)
  rw [Nat.add_mul, Nat.one_mul] at hfits
  rw [LogLinear.lower] at hlower
  rw [LogLinear.upper, slotUpperBound, Nat.add_mul, Nat.one_mul]
  by_cases hbucket : slot / kSubCount = 0
  · have hscale : LogLinear.scaleOf kSubCount slot = 0 := by rw [LogLinear.scaleOf, hbucket]
    rw [hscale] at hlower ⊢
    rw [if_pos hbucket, hlower]
    omega
  · have hpow : 2 ^ LogLinear.scaleOf kSubCount slot < 2 ^ 64 :=
      Nat.pow_lt_pow_right (by decide) (Nat.lt_of_le_of_lt (scaleOf_le hslot) (by decide))
    have hwidth : (1#64 <<< (slot / kSubCount - 1)).toNat =
        2 ^ LogLinear.scaleOf kSubCount slot := by
      rw [BitVec.toNat_shiftLeft, Nat.shiftLeft_eq]
      change 1 * 2 ^ LogLinear.scaleOf kSubCount slot % 2 ^ 64 = _
      rw [Nat.one_mul, Nat.mod_eq_of_lt hpow]
    have hone : (1 : BitVec 64).toNat = 1 := rfl
    rw [if_neg hbucket, BitVec.toNat_sub, BitVec.toNat_add, hlower, hwidth, hone]
    omega

end Bounds

/-- What the slot of a value is. -/
structure SlotFits (v : BitVec 64) : Prop where
  inRange : slotOf v < kSlots
  lower_le : slotLowerBound (slotOf v) ≤ v
  le_upper : v ≤ slotUpperBound (slotOf v)
  overshoot : (slotUpperBound (slotOf v)).toNat - v.toNat ≤ v.toNat / 64
  unique : ∀ slot < kSlots, slotLowerBound slot ≤ v → v ≤ slotUpperBound slot → slot = slotOf v

theorem slotFits (v : BitVec 64) : SlotFits v := by
  have hrange := slotOf_lt v
  have hpos : 0 < kSubCount := by decide
  obtain ⟨scale, -, hin, hslot⟩ := exists_scale v
  have hlower := hin.lower_le hpos
  have hupper := hin.le_upper hpos
  have hovershoot := hin.overshoot hpos
  rw [← hslot] at hlower hupper hovershoot
  refine ⟨hrange, ?_, ?_, ?_, fun slot hlt hbegin hend => ?_⟩
  · rwa [BitVec.le_def, toNat_slotLowerBound hrange]
  · rwa [BitVec.le_def, toNat_slotUpperBound hrange]
  · rwa [toNat_slotUpperBound hrange]
  · rw [BitVec.le_def, toNat_slotLowerBound hlt] at hbegin
    rw [BitVec.le_def, toNat_slotUpperBound hlt] at hend
    exact LogLinear.slot_unique hpos ⟨hbegin, hend⟩ ⟨hlower, hupper⟩

theorem slotLowerBound_le_upper {slot : Nat} (hslot : slot < kSlots) :
    slotLowerBound slot ≤ slotUpperBound slot := by
  rw [BitVec.le_def, toNat_slotLowerBound hslot, toNat_slotUpperBound hslot]
  exact LogLinear.lower_le_upper kSubCount slot

/-- A greater value is not in an earlier slot. -/
theorem slotOf_mono {v w : BitVec 64} (h : v ≤ w) : slotOf v ≤ slotOf w := by
  have hv := slotFits v
  have hw := slotFits w
  by_contra hgt
  have hgap := LogLinear.upper_lt_lower (show 0 < kSubCount by decide) (Nat.not_le.mp hgt)
  rw [← toNat_slotUpperBound hw.inRange, ← toNat_slotLowerBound hv.inRange] at hgap
  have hbelow := hv.lower_le
  have habove := hw.le_upper
  rw [BitVec.le_def] at h hbelow habove
  omega

/-! ## What has been recorded -/

/-- The samples of a list of latencies. -/
def samplesOf (values : List Int64) : List Nat := values.map fun value => (sampleOf value).toNat

/-- The slot of a sample. -/
def sampleSlot (sample : Nat) : Nat := slotOf (.ofNat 64 sample)

theorem sampleSlot_toNat (v : BitVec 64) : sampleSlot v.toNat = slotOf v := by
  rw [sampleSlot, BitVec.ofNat_toNat, BitVec.setWidth_eq]

/-- A sample is a latency: its sign bit is clear. -/
theorem toNat_sampleOf_lt (value : Int64) : (sampleOf value).toNat < 2 ^ 63 := by
  rw [sampleOf]
  split
  · rename_i hpos
    have hsigned : value.toBitVec.toInt = value.toInt := rfl
    rw [← hsigned, BitVec.toInt_eq_toNat_cond] at hpos
    have hword := value.toBitVec.isLt
    split at hpos <;> omega
  · decide

/-- What a histogram has kept of the latencies recorded. -/
structure Recorded (h : LatencyHistogram) (values : List Int64) : Prop where
  counts : h.counts = Quantile.countsOf sampleSlot kSlots (samplesOf values)
  count : h.count = values.length
  le_max : ∀ sample ∈ samplesOf values, sample ≤ h.max.toNat
  max_mem : h.max.toNat ∈ 0 :: samplesOf values

theorem recordAll_concat (values : List Int64) (value : Int64) :
    recordAll (values ++ [value]) = (recordAll values).record value := by
  rw [recordAll, List.foldl_concat]
  rfl

theorem Recorded.record {h : LatencyHistogram} {values : List Int64} (hr : Recorded h values)
    (value : Int64) : Recorded (h.record value) (values ++ [value]) := by
  have hsamples : samplesOf (values ++ [value]) = samplesOf values ++ [(sampleOf value).toNat] := by
    simp [samplesOf]
  refine ⟨?_, ?_, ?_, ?_⟩
  · rw [hsamples, Quantile.countsOf_concat, ← hr.counts, sampleSlot_toNat]
    rfl
  · rw [List.length_append, ← hr.count]
    rfl
  · intro sample hsample
    rw [hsamples, List.mem_append, List.mem_singleton] at hsample
    simp only [LatencyHistogram.record, BitVec.lt_def]
    rcases hsample with hold | rfl
    · have hle := hr.le_max sample hold
      split <;> omega
    · split <;> omega
  · have hmax := hr.max_mem
    rw [hsamples, List.mem_cons, List.mem_append, List.mem_singleton]
    rw [List.mem_cons] at hmax
    simp only [LatencyHistogram.record]
    split
    · exact .inr (.inr rfl)
    · exact hmax.imp_right .inl

theorem recorded_recordAll (values : List Int64) : Recorded (recordAll values) values := by
  induction values using List.reverseRecOn with
  | nil => 
      refine ⟨?_, rfl, fun sample hsample => absurd hsample List.not_mem_nil, List.mem_cons_self⟩
      simp [recordAll, empty, Quantile.countsOf, samplesOf]
  | append_singleton values value ih =>
      rw [recordAll_concat]
      exact ih.record value

/-- The greatest sample is the one kept, once there is a sample. -/
theorem Recorded.max_mem_samples {h : LatencyHistogram} {values : List Int64}
    (hr : Recorded h values) {sample : Nat} (hsample : sample ∈ samplesOf values) :
    h.max.toNat ∈ samplesOf values := by
  rcases List.mem_cons.mp hr.max_mem with hzero | hmem
  · have hle := hr.le_max sample hsample
    have heq : sample = h.max.toNat := by omega
    rwa [← heq]
  · exact hmem

theorem sample_lt {values : List Int64} {sample : Nat} (h : sample ∈ samplesOf values) :
    sample < 2 ^ 63 := by
  obtain ⟨value, _, rfl⟩ := List.mem_map.mp h
  exact toNat_sampleOf_lt value

/-- The running total of the counts stops at the slot of the sample of the rank. -/
theorem Recorded.slotAtRank {h : LatencyHistogram} {values : List Int64} (hr : Recorded h values)
    {rank sample : Nat} (hnth : Quantile.nth (samplesOf values) rank = some sample)
    (hpos : 0 < rank) : h.slotAtRank rank = some (sampleSlot sample) := by
  rw [LatencyHistogram.slotAtRank, hr.counts]
  refine Quantile.firstReaching_countsOf ?_ (fun _ _ => slotOf_lt _) hnth hpos
  intro a ha b hb hle
  have hlta := sample_lt ha
  have hltb := sample_lt hb
  apply slotOf_mono
  rw [BitVec.le_def, BitVec.toNat_ofNat, BitVec.toNat_ofNat, Nat.mod_eq_of_lt (by omega),
    Nat.mod_eq_of_lt (by omega)]
  exact hle

/-- The value reported for a rank: the end of the slot of its sample, or the greatest
sample if that is less. -/
theorem Recorded.valueAtRank {h : LatencyHistogram} {values : List Int64} (hr : Recorded h values)
    {rank sample : Nat} (hnth : Quantile.nth (samplesOf values) rank = some sample)
    (hpos : 0 < rank) :
    h.valueAtRank rank =
      ((if h.max.toNat < (slotUpperBound (sampleSlot sample)).toNat then h.max.toNat
        else (slotUpperBound (sampleSlot sample)).toNat : Nat) : Int) := by
  have hmax := sample_lt (hr.max_mem_samples (Quantile.mem_of_nth hnth))
  rw [LatencyHistogram.valueAtRank, hr.slotAtRank hnth hpos]
  simp only [BitVec.lt_def]
  split
  · exact BitVec.toInt_eq_toNat_of_lt (by omega)
  · exact BitVec.toInt_eq_toNat_of_lt (by omega)

/-- A rank the histogram has is not moved. -/
theorem percentile_eq {h : LatencyHistogram} {rank : Nat} (hpos : 1 ≤ rank) (hle : rank ≤ h.count) :
    h.percentile rank = h.valueAtRank rank := by
  rw [percentile, if_neg (by omega), if_neg (by omega)]
  dsimp only
  rw [if_neg (by omega)]

/-- What is reported for a rank: a value between the sample of that rank and the greatest
sample, a sixty-fourth of the sample above it at most. -/
structure Reports (values : List Int64) (rank sample greatest : Nat) (reported : Int) :
    Prop where
  isNth : Quantile.nth (samplesOf values) rank = some sample
  greatest_mem : greatest ∈ samplesOf values
  le_greatest : ∀ other ∈ samplesOf values, other ≤ greatest
  sample_le : sample ≤ reported
  reported_le : reported ≤ greatest
  excess : 64 * (reported - sample) ≤ sample

theorem reports_of_rank {values : List Int64} {rank : Nat} (hpos : 1 ≤ rank)
    (hle : rank ≤ values.length) :
    ∃ sample, Reports values rank sample (recordAll values).max.toNat
      ((recordAll values).percentile rank) := by
  have hr := recorded_recordAll values
  obtain ⟨sample, hnth⟩ : ∃ sample, Quantile.nth (samplesOf values) rank = some sample := by
    apply Quantile.exists_nth hpos
    rwa [samplesOf, List.length_map]
  have hmem := Quantile.mem_of_nth hnth
  have hsample := sample_lt hmem
  have hmax := hr.le_max sample hmem
  have hfits := slotFits (.ofNat 64 sample)
  have hupper := hfits.le_upper
  have hover := hfits.overshoot
  have hword : (BitVec.ofNat 64 sample).toNat = sample := by
    rw [BitVec.toNat_ofNat, Nat.mod_eq_of_lt (by omega)]
  rw [BitVec.le_def, hword] at hupper
  rw [hword] at hover
  have hreported := (percentile_eq hpos (hr.count ▸ hle)).trans (hr.valueAtRank hnth hpos)
  rw [sampleSlot] at hreported
  refine ⟨sample, hnth, hr.max_mem_samples hmem, hr.le_max, ?_, ?_, ?_⟩ <;> rw [hreported]
  all_goals split <;> omega

theorem merge_empty (h : LatencyHistogram) : h.merge empty = h := by
  have hcounts : List.zipWith (· + ·) h.counts (List.replicate kSlots 0) = h.counts := by
    refine List.ext_getElem? fun slot => ?_
    rw [List.getElem?_zipWith, List.getElem?_replicate, ← h.length_counts]
    rcases Nat.lt_or_ge slot h.counts.length with hlt | hge
    · simp [hlt]
    · simp [hge]
  have hmin : ¬ kUnsetMin < h.min := by
    have hword := h.min.isLt
    have hunset : kUnsetMin.toNat = 2 ^ 64 - 1 := by decide
    rw [BitVec.lt_def, hunset]
    omega
  have hmax : (if h.max < 0#64 then 0#64 else h.max) = h.max := if_neg (BitVec.not_lt_zero)
  ext1
  · exact hcounts
  · rfl
  · exact BitVec.add_zero _
  · exact if_neg hmin
  · exact hmax

theorem zipWith_add_modify (counts others : List Nat) (slot : Nat) :
    List.zipWith (· + ·) counts (others.modify slot (· + 1)) =
      (List.zipWith (· + ·) counts others).modify slot (· + 1) := by
  refine List.ext_getElem? fun place => ?_
  rw [List.getElem?_modify, List.getElem?_zipWith, List.getElem?_zipWith, List.getElem?_modify]
  cases counts[place]? with
  | none => simp
  | some count =>
      cases others[place]? with
      | none => simp
      | some other => by_cases hplace : slot = place <;> simp [hplace, Nat.add_assoc]

/-- The least of three does not depend on which two are compared first. -/
theorem least_of_three (v w z : BitVec 64) :
    (if (if v < w then v else w) < z then (if v < w then v else w) else z) =
      if v < (if w < z then w else z) then v else (if w < z then w else z) := by
  simp only [BitVec.lt_def]
  split_ifs <;> first | rfl | omega

/-- Nor does the greatest. -/
theorem greatest_of_three (v w z : BitVec 64) :
    (if z < (if w < v then v else w) then (if w < v then v else w) else z) =
      if (if z < w then w else z) < v then v else (if z < w then w else z) := by
  simp only [BitVec.lt_def]
  split_ifs <;> first | rfl | omega

/-- Merging in one more latency is recording it. -/
theorem merge_record (h other : LatencyHistogram) (value : Int64) :
    h.merge (other.record value) = (h.merge other).record value := by
  ext1
  · exact zipWith_add_modify _ _ _
  · exact (Nat.add_assoc _ _ _).symm
  · exact (BitVec.add_assoc _ _ _).symm
  · exact least_of_three _ _ _
  · exact greatest_of_three _ _ _

/-- Merging in a histogram is recording what it has recorded. -/
theorem merge_recordAll (h : LatencyHistogram) (values : List Int64) :
    h.merge (recordAll values) = values.foldl record h := by
  induction values using List.reverseRecOn with
  | nil => exact merge_empty h
  | append_singleton values value ih =>
      rw [recordAll_concat, merge_record, ih, List.foldl_concat]

theorem merge_recordAll_recordAll (values others : List Int64) :
    (recordAll values).merge (recordAll others) = recordAll (values ++ others) := by
  rw [merge_recordAll, recordAll, recordAll, List.foldl_append]

/-- Every 64-bit value fits its slot and no other, and slots follow the order of the values; a
histogram has counted every latency once, in the slot of its sample; the ranks from one to the
number of latencies are each reported within a sixty-fourth above their sample and not beyond
the greatest; and a merged histogram is that of all the latencies. -/
theorem latencies_reported_within_slot :
    (∀ v, SlotFits v) ∧ (∀ slot < kSlots, slotLowerBound slot ≤ slotUpperBound slot) ∧
      (∀ v w : BitVec 64, v ≤ w → slotOf v ≤ slotOf w) ∧
      (∀ values, Recorded (recordAll values) values ∧
        ∀ rank, 1 ≤ rank → rank ≤ values.length →
          ∃ sample, Reports values rank sample (recordAll values).max.toNat
            ((recordAll values).percentile rank)) ∧
      ∀ values others, (recordAll values).merge (recordAll others) = recordAll (values ++ others) :=
  ⟨slotFits, fun _ => slotLowerBound_le_upper, fun _ _ => slotOf_mono,
    fun values => ⟨recorded_recordAll values, fun _ => reports_of_rank⟩, merge_recordAll_recordAll⟩

end MmEngine.LatencyHistogram
