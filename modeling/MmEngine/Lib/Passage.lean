/-
# Passing through a machine

Things come into a machine at a step of a run, are held by it, and leave at the
first step that is ready for them, which may be the step they come in at. Each
thing carries a stamp drawn from a counter when it comes in, so that it comes in
once and, having left, does not come back.
-/

import MmEngine.Lib.Machine

namespace Machine

universe u v w

variable {Op : Type u} {S : Type v} {α : Type w} (step : Op → S → S)

/-- The state that the step at a position is taken in. -/
def stateAt (ops : List Op) (s : S) (k : Nat) : S := run step (ops.take k) s

variable {step}

@[simp]
theorem stateAt_zero (ops : List Op) (s : S) : stateAt step ops s 0 = s := rfl

theorem stateAt_succ {ops : List Op} {op : Op} {k : Nat} (hop : ops[k]? = some op) (s : S) :
    stateAt step ops s (k + 1) = step op (stateAt step ops s k) := by
  rw [stateAt, List.take_add_one, hop, Option.toList_some, run_concat]
  rfl

theorem stateAt_succ_of_none {ops : List Op} {k : Nat} (hop : ops[k]? = none) (s : S) :
    stateAt step ops s (k + 1) = stateAt step ops s k := by
  rw [stateAt, stateAt, List.take_add_one, hop, Option.toList_none, List.append_nil]

/-- A condition along a run is met by the step at each position. -/
theorem Along.at_getElem? {C : Op → S → Prop} {ops : List Op} {s : S} (h : Along step C ops s)
    {k : Nat} {op : Op} (hop : ops[k]? = some op) : C op (stateAt step ops s k) := by
  induction ops generalizing s k with
  | nil => cases hop
  | cons first ops ih =>
      cases k with
      | zero =>
          cases hop
          exact h.1
      | succ k => exact ih h.2 hop

/-- What every step meeting a condition keeps holds in each state of a run along which
the condition is met. -/
theorem invariant_stateAt {J : S → Prop} {C : Op → S → Prop} {ops : List Op}
    (hkeep : ∀ op s, C op s → J s → J (step op s)) {s : S} (halong : Along step C ops s)
    (hinit : J s) (k : Nat) : J (stateAt step ops s k) := by
  induction k with
  | zero => exact hinit
  | succ k ih =>
      cases hop : ops[k]? with
      | some op =>
          rw [stateAt_succ hop]
          exact hkeep op _ (halong.at_getElem? hop) ih
      | none =>
          rw [stateAt_succ_of_none hop]
          exact ih

variable (step)

/-- Things pass through the machine by the steps that meet a condition: such a step holds
on to what was held or comes in, unless it is ready for it. -/
structure Passes (C : Op → S → Prop) (J : S → Prop) (held : S → α → Prop)
    (enters ready : Op → S → α → Prop) (stamp : α → Nat) (count : S → Nat) : Prop where
  keeps : ∀ op s, C op s → J s → J (step op s)
  held_step : ∀ op s, C op s → J s → ∀ a,
    (held (step op s) a ↔ (held s a ∨ enters op s a) ∧ ¬ready op s a)
  stamp_enters : ∀ op s, C op s → J s → ∀ a, enters op s a →
    count s ≤ stamp a ∧ stamp a < count (step op s)
  stamp_held : ∀ s, J s → ∀ a, held s a → stamp a < count s
  count_le : ∀ op s, C op s → J s → count s ≤ count (step op s)

variable {step}

namespace Passes

variable {C : Op → S → Prop} {J : S → Prop} {held : S → α → Prop}
  {enters ready : Op → S → α → Prop} {stamp : α → Nat} {count : S → Nat}

section Run

variable (h : Passes step C J held enters ready stamp count) {ops : List Op} {s : S}
  (halong : Along step C ops s) (hinit : J s)

include h halong hinit

theorem count_mono {i j : Nat} (hij : i ≤ j) :
    count (stateAt step ops s i) ≤ count (stateAt step ops s j) := by
  induction hij with
  | refl => exact Nat.le_refl _
  | step _ ih =>
      rename_i m _
      refine Nat.le_trans ih ?_
      cases hop : ops[m]? with
      | some op =>
          rw [Nat.succ_eq_add_one, stateAt_succ hop]
          exact h.count_le op _ (halong.at_getElem? hop) (invariant_stateAt h.keeps halong hinit m)
      | none => exact Nat.le_of_eq (congrArg count (stateAt_succ_of_none hop s).symm)

/-- A thing comes in at one step only. -/
theorem enters_unique {i k : Nat} {opi opk : Op} (hopi : ops[i]? = some opi)
    (hopk : ops[k]? = some opk) {a : α} (hi : enters opi (stateAt step ops s i) a)
    (hk : enters opk (stateAt step ops s k) a) : i = k := by
  have hstamps : ∀ n op, ops[n]? = some op → enters op (stateAt step ops s n) a →
      count (stateAt step ops s n) ≤ stamp a ∧ stamp a < count (stateAt step ops s (n + 1)) := by
    intro n op hop hn
    rw [stateAt_succ hop]
    exact h.stamp_enters op _ (halong.at_getElem? hop)
      (invariant_stateAt h.keeps halong hinit n) a hn
  obtain ⟨hiLow, hiHigh⟩ := hstamps i opi hopi hi
  obtain ⟨hkLow, hkHigh⟩ := hstamps k opk hopk hk
  rcases Nat.lt_trichotomy i k with hlt | heq | hgt
  · have := h.count_mono halong hinit (show i + 1 ≤ k from hlt)
    omega
  · exact heq
  · have := h.count_mono halong hinit (show k + 1 ≤ i from hgt)
    omega

/-- What comes in at a step is there until a step is ready for it, and before it comes
in it is not there. -/
theorem present_iff {k : Nat} {op : Op} (hop : ops[k]? = some op) {a : α}
    (henters : enters op (stateAt step ops s k) a) {j : Nat} {opj : Op}
    (hopj : ops[j]? = some opj) :
    held (stateAt step ops s j) a ∨ enters opj (stateAt step ops s j) a ↔
      k ≤ j ∧ ∀ (i : Nat) (opi : Op), k ≤ i → i < j → ops[i]? = some opi →
        ¬ready opi (stateAt step ops s i) a := by
  have hJ := invariant_stateAt h.keeps halong hinit
  obtain ⟨hlow, hhigh⟩ := h.stamp_enters op _ (halong.at_getElem? hop) (hJ k) a henters
  have hnext : stateAt step ops s (k + 1) = step op (stateAt step ops s k) := stateAt_succ hop s
  rw [← hnext] at hhigh
  by_cases hkj : k ≤ j
  · rw [and_iff_right hkj]
    induction hkj generalizing opj with
    | refl =>
        obtain rfl : op = opj := Option.some.inj (hop.symm.trans hopj)
        exact iff_of_true (.inr henters) fun i opi hki hik => absurd hki (by omega)
    | step hkm ih =>
        rename_i m
        replace hkm : k ≤ m := hkm
        have hlt : m < ops.length := by
          have := (List.getElem?_eq_some_iff.mp hopj).1
          omega
        have hopm : ops[m]? = some ops[m] := List.getElem?_eq_getElem hlt
        have hold : ¬enters opj (stateAt step ops s (m + 1)) a := by
          intro hagain
          have := h.enters_unique halong hinit hop hopj henters hagain
          omega
        have hearlier := ih hopm
        rw [Nat.succ_eq_add_one, or_iff_left hold, stateAt_succ hopm,
          h.held_step _ _ (halong.at_getElem? hopm) (hJ m)]
        refine (and_congr_left fun _ => hearlier).trans ?_
        constructor
        · rintro ⟨hearlier, hlast⟩ i opi hki him hopi
          rcases Nat.lt_succ_iff_lt_or_eq.mp him with hlt | rfl
          · exact hearlier i opi hki hlt hopi
          · obtain rfl : ops[i] = opi := Option.some.inj (hopm.symm.trans hopi)
            exact hlast
        · intro hall
          exact ⟨fun i opi hki him => hall i opi hki (by omega),
            hall m _ hkm (Nat.lt_succ_self m) hopm⟩
  · refine iff_of_false ?_ fun hright => hkj hright.1
    rintro (hheld | hearly)
    · have hstamp := h.stamp_held _ (hJ j) a hheld
      have := h.count_mono halong hinit (show j ≤ k by omega)
      omega
    · exact hkj (Nat.le_of_eq (h.enters_unique halong hinit hop hopj henters hearly))

/-- What comes in at a step leaves at the first step from then on that is ready for
it, and at no other. -/
theorem leaves_iff {k : Nat} {op : Op} (hop : ops[k]? = some op) {a : α}
    (henters : enters op (stateAt step ops s k) a) {j : Nat} {opj : Op}
    (hopj : ops[j]? = some opj) :
    (held (stateAt step ops s j) a ∨ enters opj (stateAt step ops s j) a) ∧
        ready opj (stateAt step ops s j) a ↔
      k ≤ j ∧ ready opj (stateAt step ops s j) a ∧
        ∀ (i : Nat) (opi : Op), k ≤ i → i < j → ops[i]? = some opi →
          ¬ready opi (stateAt step ops s i) a := by
  rw [h.present_iff halong hinit hop henters hopj]
  constructor
  · exact fun ⟨⟨hkj, hearlier⟩, hready⟩ => ⟨hkj, hready, hearlier⟩
  · exact fun ⟨hkj, hready, hearlier⟩ => ⟨⟨hkj, hearlier⟩, hready⟩

/-- What a run from an empty machine holds came in at one of its steps. -/
theorem exists_enters {a : α} (hempty : ¬held s a) {k : Nat}
    (hheld : held (stateAt step ops s k) a) :
    ∃ i opi, i < k ∧ ops[i]? = some opi ∧ enters opi (stateAt step ops s i) a := by
  induction k with
  | zero => exact absurd hheld hempty
  | succ k ih =>
      cases hop : ops[k]? with
      | some op =>
          rw [stateAt_succ hop, h.held_step op _ (halong.at_getElem? hop)
            (invariant_stateAt h.keeps halong hinit k)] at hheld
          rcases hheld.1 with hbefore | hnow
          · obtain ⟨i, opi, hi, hrest⟩ := ih hbefore
            exact ⟨i, opi, Nat.lt_trans hi (Nat.lt_succ_self k), hrest⟩
          · exact ⟨k, op, Nat.lt_succ_self k, hop, hnow⟩
      | none =>
          rw [stateAt_succ_of_none hop] at hheld
          obtain ⟨i, opi, hi, hrest⟩ := ih hheld
          exact ⟨i, opi, Nat.lt_trans hi (Nat.lt_succ_self k), hrest⟩

end Run

end Passes

end Machine
