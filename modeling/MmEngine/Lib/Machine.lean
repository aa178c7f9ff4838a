/-
# Runs of a labelled machine

A deterministic machine takes one labelled step at a time. A run is the fold of
its labels, and a condition *along* a run is asked of every step in the state
that step is taken in. The rule this module exists for says that a property
preserved by every step that meets a condition holds wherever a run whose steps
all meet it arrives.
-/

import Mathlib.Data.List.Basic

namespace Machine

universe u v

variable {Op : Type u} {S : Type v} (step : Op → S → S)

/-- The state a run arrives in. -/
def run (ops : List Op) (s : S) : S := ops.foldl (fun s op => step op s) s

/-- Every step of the run meets `C` in the state it is taken in. -/
def Along (C : Op → S → Prop) : List Op → S → Prop
  | [], _ => True
  | op :: ops, s => C op s ∧ Along C ops (step op s)

instance decidableAlong (C : Op → S → Prop) [∀ op s, Decidable (C op s)] :
    ∀ ops s, Decidable (Along step C ops s)
  | [], _ => .isTrue trivial
  | _ :: ops, s => @instDecidableAnd _ _ _ (decidableAlong C ops (step _ s))

/-- Some step of the run meets `P` in the state it is taken in. -/
def Sometime (P : Op → S → Prop) : List Op → S → Prop
  | [], _ => False
  | op :: ops, s => P op s ∨ Sometime P ops (step op s)

/-- The step draws the value from a counter: it moves the counter up to it or past
it. -/
def Draws (count : S → Nat) (n : Nat) (op : Op) (s : S) : Prop :=
  count s < n ∧ n ≤ count (step op s)

/-- What a run shows: each step's observation in the state the step is taken in. -/
def outputs {O : Type*} (out : Op → S → O) : List Op → S → List O
  | [], _ => []
  | op :: ops, s => out op s :: outputs out ops (step op s)

variable {step}

@[simp]
theorem run_nil (s : S) : run step [] s = s := rfl

@[simp]
theorem run_cons (op : Op) (ops : List Op) (s : S) :
    run step (op :: ops) s = run step ops (step op s) := rfl

theorem run_append (ops later : List Op) (s : S) :
    run step (ops ++ later) s = run step later (run step ops s) := by
  simp only [run, List.foldl_append]

theorem run_concat (ops : List Op) (op : Op) (s : S) :
    run step (ops ++ [op]) s = step op (run step ops s) := by
  rw [run_append]
  rfl

/-- A map that every step respects takes runs to runs. -/
theorem run_map {T : Type*} {step' : Op → T → T} {f : T → S}
    (hstep : ∀ op t, f (step' op t) = step op (f t)) (ops : List Op) (t : T) :
    f (run step' ops t) = run step ops (f t) := by
  induction ops generalizing t with
  | nil => rfl
  | cons op ops ih => rw [run_cons, run_cons, ih, hstep]

theorem Along.append_iff {C : Op → S → Prop} {ops later : List Op} {s : S} :
    Along step C (ops ++ later) s ↔
      Along step C ops s ∧ Along step C later (run step ops s) := by
  induction ops generalizing s with
  | nil => simp [Along]
  | cons op ops ih =>
      simp only [List.cons_append, Along, run_cons, ih, and_assoc]

theorem Along.and {C D : Op → S → Prop} {ops : List Op} {s : S} (hC : Along step C ops s)
    (hD : Along step D ops s) : Along step (fun op s => C op s ∧ D op s) ops s := by
  induction ops generalizing s with
  | nil => trivial
  | cons op ops ih => exact ⟨⟨hC.1, hD.1⟩, ih hC.2 hD.2⟩

theorem Along.mono {C D : Op → S → Prop} (hCD : ∀ op s, C op s → D op s) {ops : List Op} {s : S}
    (h : Along step C ops s) : Along step D ops s := by
  induction ops generalizing s with
  | nil => trivial
  | cons op ops ih => exact ⟨hCD op s h.1, ih h.2⟩

/-- Conditions that agree on every step out of a state of an invariant agree along
a run. -/
theorem Along.congr {I : S → Prop} {C D : Op → S → Prop} (hinv : ∀ op s, I s → I (step op s))
    (hCD : ∀ op s, I s → (C op s ↔ D op s)) {ops : List Op} {s : S} (hinit : I s) :
    Along step C ops s ↔ Along step D ops s := by
  induction ops generalizing s with
  | nil => exact Iff.rfl
  | cons op ops ih =>
      simp only [Along, hCD op s hinit, ih (hinv op s hinit)]

/-- Conditions that agree on every step out of a state of `I` agree along a run, when
the first of them also keeps `I`. -/
theorem Along.congr_of_keeps {I : S → Prop} {C D : Op → S → Prop}
    (hkeep : ∀ op s, I s → C op s → I (step op s)) (hCD : ∀ op s, I s → (C op s ↔ D op s))
    {ops : List Op} {s : S} (hinit : I s) : Along step C ops s ↔ Along step D ops s := by
  induction ops generalizing s with
  | nil => exact Iff.rfl
  | cons op ops ih =>
      rw [Along, Along, hCD op s hinit]
      constructor
      · rintro ⟨hfirst, hrest⟩
        exact ⟨hfirst, (ih (hkeep op s hinit ((hCD op s hinit).mpr hfirst))).mp hrest⟩
      · rintro ⟨hfirst, hrest⟩
        exact ⟨hfirst, (ih (hkeep op s hinit ((hCD op s hinit).mpr hfirst))).mpr hrest⟩

/-- A condition on labels alone holds along a run exactly when every label meets it. -/
theorem along_label_iff {C : Op → Prop} {ops : List Op} {s : S} :
    Along step (fun op _ => C op) ops s ↔ ∀ op ∈ ops, C op := by
  induction ops generalizing s with
  | nil => simp [Along]
  | cons op ops ih => simp [Along, ih]

/-- The invariant rule: what every step meeting `C` preserves holds at the end
of every run whose steps all meet `C`. -/
theorem invariant_run {I : S → Prop} {C : Op → S → Prop}
    (hstep : ∀ op s, I s → C op s → I (step op s)) {ops : List Op} {s : S} (hinit : I s)
    (halong : Along step C ops s) : I (run step ops s) := by
  induction ops generalizing s with
  | nil => exact hinit
  | cons op ops ih => exact ih (hstep op s hinit halong.1) halong.2

/-- The invariant rule for a property every step preserves. -/
theorem invariant_run_always {I : S → Prop} (hstep : ∀ op s, I s → I (step op s)) (ops : List Op)
    {s : S} (hinit : I s) : I (run step ops s) := by
  induction ops generalizing s with
  | nil => exact hinit
  | cons op ops ih => exact ih (hstep op s hinit)

/-- A property that a step keeps exactly when it meets `C` holds in every state of
a run exactly when all its steps meet `C`. The invariant `J` fixes what the step
may rely on. -/
theorem forall_take_iff_along {I J : S → Prop} {C : Op → S → Prop}
    (hinv : ∀ op s, J s → J (step op s))
    (hstep : ∀ op s, J s → I s → (I (step op s) ↔ C op s)) {ops : List Op} {s : S} (hJ : J s)
    (hI : I s) : (∀ n, I (run step (ops.take n) s)) ↔ Along step C ops s := by
  induction ops generalizing s with
  | nil =>
      constructor
      · exact fun _ => trivial
      · intro _ n
        rw [List.take_nil]
        exact hI
  | cons op ops ih =>
      have hnext := hinv op s hJ
      constructor
      · intro hall
        have hfirst : I (step op s) := hall 1
        refine ⟨(hstep op s hJ hI).mp hfirst, (ih hnext hfirst).mp fun n => ?_⟩
        exact hall (n + 1)
      · intro halong n
        have hfirst := (hstep op s hJ hI).mpr halong.1
        cases n with
        | zero => exact hI
        | succ n => exact (ih hnext hfirst).mpr halong.2 n

/-- A property that holds after a step exactly when it held before and the step meets
`C` has held at the end of a run exactly when all its steps meet `C`. -/
theorem run_iff_along {I : S → Prop} {C : Op → S → Prop}
    (hstep : ∀ op s, I (step op s) ↔ I s ∧ C op s) (ops : List Op) (s : S) :
    I (run step ops s) ↔ I s ∧ Along step C ops s := by
  induction ops generalizing s with
  | nil => simp [Along]
  | cons op ops ih => rw [run_cons, ih, hstep, Along, and_assoc]

/-- A relation that is reflexive, transitive and holds across every step out of a
state of an invariant relates the two ends of every run. -/
theorem relation_run {R : S → S → Prop} {J : S → Prop} (hrefl : ∀ s, R s s)
    (htrans : ∀ s t u, R s t → R t u → R s u) (hinv : ∀ op s, J s → J (step op s))
    (hstep : ∀ op s, J s → R s (step op s)) (ops : List Op) {s : S} (hJ : J s) :
    R s (run step ops s) := by
  induction ops generalizing s with
  | nil => exact hrefl s
  | cons op ops ih => exact htrans _ _ _ (hstep op s hJ) (ih (hinv op s hJ))

section Counter

variable {count : S → Nat} {J : S → Prop}

theorem count_le_run (hinv : ∀ op s, J s → J (step op s))
    (hmono : ∀ op s, J s → count s ≤ count (step op s)) (ops : List Op) {s : S} (hJ : J s) :
    count s ≤ count (run step ops s) :=
  relation_run (R := fun s t => count s ≤ count t) (fun _ => Nat.le_refl _)
    (fun _ _ _ => Nat.le_trans) hinv hmono ops hJ

/-- A counter that never goes back hands out, over a run, each value between where
it starts and where it ends. -/
theorem sometime_draws_iff (hinv : ∀ op s, J s → J (step op s))
    (hmono : ∀ op s, J s → count s ≤ count (step op s)) {ops : List Op} {s : S} (hJ : J s)
    {n : Nat} :
    Sometime step (Draws step count n) ops s ↔ count s < n ∧ n ≤ count (run step ops s) := by
  induction ops generalizing s with
  | nil =>
      simp only [Sometime, run_nil, false_iff, not_and, Nat.not_le]
      exact id
  | cons op ops ih =>
      have hnext := hinv op s hJ
      have hstep := hmono op s hJ
      have hrest := count_le_run hinv hmono ops hnext
      simp only [Sometime, Draws, run_cons, ih hnext]
      omega

end Counter

theorem Sometime.mono {P Q : Op → S → Prop} (hPQ : ∀ op s, P op s → Q op s) {ops : List Op} {s : S}
    (h : Sometime step P ops s) : Sometime step Q ops s := by
  induction ops generalizing s with
  | nil => exact h
  | cons op ops ih => exact h.imp (hPQ op s) ih

@[simp]
theorem length_outputs {O : Type*} {out : Op → S → O} (ops : List Op) (s : S) :
    (outputs step out ops s).length = ops.length := by
  induction ops generalizing s with
  | nil => rfl
  | cons op ops ih => simp [outputs, ih]

theorem outputs_append {O : Type*} {out : Op → S → O} (ops later : List Op) (s : S) :
    outputs step out (ops ++ later) s =
      outputs step out ops s ++ outputs step out later (run step ops s) := by
  induction ops generalizing s with
  | nil => rfl
  | cons op ops ih => simp [outputs, ih]

/-- What is shown up to a last step, and then by it. -/
theorem flatten_outputs_concat {O : Type*} {out : Op → S → List O} (ops : List Op) (op : Op)
    (s : S) :
    (outputs step out (ops ++ [op]) s).flatten =
      (outputs step out ops s).flatten ++ out op (run step ops s) := by
  rw [outputs_append, List.flatten_append]
  exact congrArg _ (List.append_nil _)

/-- States that a relation cannot tell apart, which every step keeps, show the same
from here on. -/
theorem outputs_congr {O : Type*} {out : Op → S → O} {R : S → S → Prop}
    (hout : ∀ op s t, R s t → out op s = out op t)
    (hstep : ∀ op s t, R s t → R (step op s) (step op t)) (ops : List Op) {s t : S} (h : R s t) :
    outputs step out ops s = outputs step out ops t := by
  induction ops generalizing s t with
  | nil => rfl
  | cons op ops ih => rw [outputs, outputs, hout op s t h, ih (hstep op s t h)]

/-- States that every step keeps related arrive related. -/
theorem run_congr {R : S → S → Prop} (hstep : ∀ op s t, R s t → R (step op s) (step op t))
    (ops : List Op) {s t : S} (h : R s t) : R (run step ops s) (run step ops t) := by
  induction ops generalizing s t with
  | nil => exact h
  | cons op ops ih => exact ih (hstep op s t h)

end Machine
