/-
# Properties of traces

A trace is a list of observations, oldest first. `Each` asks something of every
observation and of what came before it. `Closed` says that every observation that
opens something is followed by one that closes it; `pending` computes it from the
left, which is the form a run maintains. `Leads` reads a trace of moves as a path.
-/

import Mathlib.Data.List.Induction

namespace Trace

universe u v

variable {α : Type u}

/-- Every observation of the trace stands in `P` to the observations before it. -/
def Each (P : List α → α → Prop) (trace : List α) : Prop :=
  ∀ before observation after, trace = before ++ observation :: after → P before observation

theorem each_nil (P : List α → α → Prop) : Each P [] := by
  intro before observation after htrace
  simp at htrace

theorem each_concat {P : List α → α → Prop} {trace : List α} {last : α} (htrace : Each P trace)
    (hlast : P trace last) : Each P (trace ++ [last]) := by
  intro before observation after hsplit
  rcases List.eq_nil_or_concat after with rfl | ⟨middle, final, rfl⟩
  · obtain ⟨rfl, heq⟩ := List.append_inj' hsplit rfl
    cases heq
    exact hlast
  · have hconcat : trace ++ [last] = (before ++ observation :: middle) ++ [final] := by
      simpa using hsplit
    exact htrace before observation middle (List.append_inj' hconcat rfl).1

/-- Every observation that opens is followed by one that closes. -/
def Closed (opens closes : α → Bool) (trace : List α) : Prop :=
  ∀ earlier observation later, trace = earlier ++ observation :: later →
    opens observation = true → ∃ answer ∈ later, closes answer = true

/-- True when the last observation that opens has not been followed by one that
closes. -/
def pending (opens closes : α → Bool) (trace : List α) : Bool :=
  trace.foldl (fun isOpen observation => opens observation || isOpen && !closes observation) false

@[simp]
theorem pending_nil (opens closes : α → Bool) : pending opens closes [] = false := rfl

@[simp]
theorem pending_concat (opens closes : α → Bool) (trace : List α) (last : α) :
    pending opens closes (trace ++ [last]) =
      (opens last || pending opens closes trace && !closes last) := by
  simp [pending]

/-- Nothing is pending exactly when everything opened has been closed. -/
theorem closed_of_not_pending {opens closes : α → Bool} {trace : List α}
    (h : pending opens closes trace = false) : Closed opens closes trace := by
  induction trace using List.reverseRecOn with
  | nil =>
      intro earlier observation later htrace
      simp at htrace
  | append_singleton trace last ih =>
      rw [pending_concat, Bool.or_eq_false_iff, Bool.and_eq_false_iff, Bool.not_eq_false'] at h
      obtain ⟨hlast, hbefore⟩ := h
      intro earlier observation later hsplit hopens
      rcases List.eq_nil_or_concat later with rfl | ⟨middle, final, rfl⟩
      · obtain ⟨-, heq⟩ := List.append_inj' hsplit rfl
        cases heq
        rw [hlast] at hopens
        cases hopens
      · have hconcat : trace ++ [last] = (earlier ++ observation :: middle) ++ [final] := by
          simpa using hsplit
        obtain ⟨htrace, heq⟩ := List.append_inj' hconcat rfl
        cases heq
        -- Either the last observation closes, or the answer came before it.
        rcases hbefore with hpending | hcloses
        · obtain ⟨answer, hanswer, hcloses⟩ := ih hpending earlier observation middle htrace hopens
          exact ⟨answer, by simp [hanswer], hcloses⟩
        · exact ⟨last, by simp, hcloses⟩

section Leads

variable {S : Type v} {R : S → S → Prop} {source target : α → S}

/-- The moves of the trace lead from one state to another: each leaves the state
the one before it entered, by a move in `R`. -/
def Leads (R : S → S → Prop) (source target : α → S) : S → List α → S → Prop
  | start, [], finish => start = finish
  | start, move :: moves, finish =>
      source move = start ∧ R (source move) (target move) ∧
        Leads R source target (target move) moves finish

theorem leads_concat {start finish : S} {moves : List α} {last : α} :
    Leads R source target start (moves ++ [last]) finish ↔
      Leads R source target start moves (source last) ∧ R (source last) (target last) ∧
        target last = finish := by
  induction moves generalizing start with
  | nil =>
      simp only [List.nil_append, Leads]
      constructor
      · rintro ⟨hstart, hmove, hfinish⟩
        exact ⟨hstart.symm, hmove, hfinish⟩
      · rintro ⟨hstart, hmove, hfinish⟩
        exact ⟨hstart.symm, hmove, hfinish⟩
  | cons move moves ih =>
      simp only [List.cons_append, Leads, ih, and_assoc]

end Leads

end Trace
