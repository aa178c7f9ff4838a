/-
# Conserved flow through a machine

A machine holds an amount. At each step some of it enters and some leaves, and what is
held accounts for the difference, exactly or with a loss. Over a run the same holds of
the totals. An amount is an element of any commutative monoid: a number, or a multiset
when it matters which things flow and not only how much.
-/

import MmEngine.Lib.Machine
import Mathlib.Algebra.BigOperators.Group.List.Lemmas
import Mathlib.Algebra.Order.Monoid.Defs
import Mathlib.Data.Multiset.OrderedMonoid

namespace Machine

universe u v w

variable {Op : Type u} {S : Type v} {M : Type w} {step : Op → S → S}

/-- The sum of the amounts that a run shows. -/
def total [AddMonoid M] (step : Op → S → S) (out : Op → S → M) (ops : List Op) (s : S) : M :=
  (outputs step out ops s).sum

section Total

variable [AddMonoid M] {out : Op → S → M}

@[simp]
theorem total_nil (s : S) : total step out [] s = 0 := rfl

@[simp]
theorem total_cons (op : Op) (ops : List Op) (s : S) :
    total step out (op :: ops) s = out op s + total step out ops (step op s) :=
  List.sum_cons

/-- An amount that is read off lists piece by piece, read off everything a run lists. -/
theorem flatten_outputs {α : Type*} {f : List α → M} (hnil : f [] = 0)
    (happend : ∀ first later, f (first ++ later) = f first + f later) (list : Op → S → List α)
    (ops : List Op) (s : S) :
    f (outputs step list ops s).flatten = total step (fun op s => f (list op s)) ops s := by
  induction ops generalizing s with
  | nil => exact hnil
  | cons op ops ih => rw [outputs, List.flatten_cons, happend, ih, total_cons]

end Total

section Conserved

variable [AddCommMonoid M] (held : S → M) {enters leaves : Op → S → M} {I : S → Prop}
  {C : Op → S → Prop}

/-- What is conserved at every step is conserved over a run. -/
theorem flow_run (hkeep : ∀ op s, I s → C op s → I (step op s))
    (hstep : ∀ op s, I s → C op s → leaves op s + held (step op s) = held s + enters op s)
    {ops : List Op} {s : S} (hinit : I s) (halong : Along step C ops s) :
    total step leaves ops s + held (run step ops s) = held s + total step enters ops s := by
  induction ops generalizing s with
  | nil => simp
  | cons op ops ih =>
      calc total step leaves (op :: ops) s + held (run step (op :: ops) s)
          = leaves op s + (total step leaves ops (step op s) +
              held (run step ops (step op s))) := by rw [total_cons, run_cons, add_assoc]
        _ = leaves op s + held (step op s) + total step enters ops (step op s) := by
            rw [ih (hkeep op s hinit halong.1) halong.2, add_assoc]
        _ = held s + total step enters (op :: ops) s := by
            rw [hstep op s hinit halong.1, total_cons, add_assoc]

/-- What every step may only lose, a run may only lose. -/
theorem flow_le_run [PartialOrder M] [IsOrderedAddMonoid M]
    (hkeep : ∀ op s, I s → C op s → I (step op s))
    (hstep : ∀ op s, I s → C op s → leaves op s + held (step op s) ≤ held s + enters op s)
    {ops : List Op} {s : S} (hinit : I s) (halong : Along step C ops s) :
    total step leaves ops s + held (run step ops s) ≤ held s + total step enters ops s := by
  induction ops generalizing s with
  | nil => simp
  | cons op ops ih =>
      calc total step leaves (op :: ops) s + held (run step (op :: ops) s)
          = leaves op s + (total step leaves ops (step op s) +
              held (run step ops (step op s))) := by rw [total_cons, run_cons, add_assoc]
        _ ≤ leaves op s + (held (step op s) + total step enters ops (step op s)) :=
            add_le_add_right (ih (hkeep op s hinit halong.1) halong.2) _
        _ ≤ held s + enters op s + total step enters ops (step op s) := by
            rw [← add_assoc]
            exact add_le_add_left (hstep op s hinit halong.1) _
        _ = held s + total step enters (op :: ops) s := by rw [total_cons, add_assoc]

end Conserved

/-- What every step keeps of what has been listed and of the state it leads to, a run keeps. -/
theorem history_run {α : Type*} {P : List α → S → Prop} {C : Op → S → Prop}
    (list : Op → S → List α)
    (hstep : ∀ op s past, P past s → C op s → P (past ++ list op s) (step op s))
    {ops : List Op} {s : S} {past : List α} (h : P past s) (halong : Along step C ops s) :
    P (past ++ (outputs step list ops s).flatten) (run step ops s) := by
  induction ops generalizing s past with
  | nil =>
      rw [outputs, List.flatten_nil, List.append_nil]
      exact h
  | cons op ops ih =>
      rw [outputs, List.flatten_cons, ← List.append_assoc]
      exact ih (hstep op s past h halong.1) halong.2

/-- A machine inside another: where each step of the outer one is a run of the inner one,
a run is the run of all that its steps come to. -/
theorem run_expanded {T Op' : Type*} {step' : Op' → T → T} {f : S → T}
    {expand : Op → S → List Op'}
    (hstep : ∀ op s, f (step op s) = run step' (expand op s) (f s)) (ops : List Op) (s : S) :
    f (run step ops s) = run step' (outputs step expand ops s).flatten (f s) := by
  induction ops generalizing s with
  | nil => rfl
  | cons op ops ih =>
      rw [run_cons, ih, hstep, outputs, List.flatten_cons, run_append]

/-- What every step lists has the property, and so has what a run lists. -/
theorem forall_mem_outputs {α : Type*} {C : Op → S → Prop} {list : Op → S → List α}
    {P : α → Prop} (hlist : ∀ op s, C op s → ∀ x ∈ list op s, P x) {ops : List Op} {s : S}
    (h : Along step C ops s) : ∀ x ∈ (outputs step list ops s).flatten, P x := by
  induction ops generalizing s with
  | nil => exact fun x hx => absurd hx List.not_mem_nil
  | cons op ops ih =>
      intro x hx
      rw [outputs, List.flatten_cons] at hx
      rcases List.mem_append.mp hx with hfirst | hlater
      · exact hlist op s h.1 x hfirst
      · exact ih h.2 x hlater

/-- An invariant of every step holds along a run. -/
theorem along_of_invariant {I : S → Prop} (hstep : ∀ op s, I s → I (step op s)) {ops : List Op}
    {s : S} (h : I s) : Along step (fun _ s => I s) ops s := by
  induction ops generalizing s with
  | nil => trivial
  | cons op ops ih => exact ⟨h, ih (hstep op s h)⟩

section Counted

variable {count : S → Nat} {ops : List Op} {s : S}

theorem count_le_of_along (h : Along step (fun op s => count s ≤ count (step op s)) ops s) :
    count s ≤ count (run step ops s) := by
  induction ops generalizing s with
  | nil => exact le_rfl
  | cons op ops ih => exact h.1.trans (ih h.2)

/-- A count that only grows and ends where it began has grown at no step. -/
theorem Along.still (h : Along step (fun op s => count s ≤ count (step op s)) ops s)
    (hsame : count (run step ops s) = count s) :
    Along step (fun op s => count (step op s) = count s) ops s := by
  induction ops generalizing s with
  | nil => trivial
  | cons op ops ih =>
      have hfirst := h.1
      have hrest := count_le_of_along h.2
      rw [run_cons] at hsame
      have hstep : count (step op s) = count s := by omega
      exact ⟨hstep, ih h.2 (by omega)⟩

end Counted

end Machine
