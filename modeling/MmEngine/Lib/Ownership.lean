/-
# Places and their owners

An allocator hands out places and takes them back. A place that is out is *live* and has
one owner: it is not handed out again before it has been taken back, and a place that is
not live cannot be given back. `Step` says what one call may do, `Path` what a trace of
calls may do.

The second part is about an allocator that keeps the places which are not live on a stack.
As long as the stack holds each of them once, taking its top and putting back a live place
are steps, and the two kinds of place make up all the places there are.
-/

import Mathlib.Data.Finset.Card

universe u

namespace Ownership

/-- What a call of an allocator shows to its caller. -/
inductive Event (K : Type u)
  | taken (k : K)
  | exhausted
  | returned (k : K)
  | refused (k : K)

variable {K : Type u} [DecidableEq K] {all live live' : Finset K} {k : K}

/-- What a call may do, with `all` the places there are. -/
inductive Step (all : Finset K) : Finset K → Event K → Finset K → Prop
  | taken {live : Finset K} {k : K} (hplace : k ∈ all) (hfree : k ∉ live) :
      Step all live (.taken k) (insert k live)
  | exhausted : Step all all .exhausted all
  | returned {live : Finset K} {k : K} (hlive : k ∈ live) :
      Step all live (.returned k) (live.erase k)
  | refused {live : Finset K} {k : K} (hfree : k ∉ live) : Step all live (.refused k) live

/-- What a trace of calls may do. -/
def Path (all : Finset K) : Finset K → List (Event K) → Finset K → Prop
  | live, [], live' => live = live'
  | live, event :: events, live' => ∃ mid, Step all live event mid ∧ Path all mid events live'

theorem path_append_iff {events later : List (Event K)} :
    Path all live (events ++ later) live' ↔
      ∃ mid, Path all live events mid ∧ Path all mid later live' := by
  induction events generalizing live with
  | nil => exact ⟨fun h => ⟨live, rfl, h⟩, fun ⟨_, hsame, h⟩ => hsame ▸ h⟩
  | cons event events ih =>
      constructor
      · rintro ⟨first, hstep, hpath⟩
        obtain ⟨mid, hpath, hlater⟩ := ih.mp hpath
        exact ⟨mid, ⟨first, hstep, hpath⟩, hlater⟩
      · rintro ⟨mid, ⟨first, hstep, hpath⟩, hlater⟩
        exact ⟨first, hstep, ih.mpr ⟨mid, hpath, hlater⟩⟩

/-- A live place stays live until it is taken back. -/
theorem Step.keeps {event : Event K} (h : Step all live event live') (hlive : k ∈ live)
    (hkept : event ≠ .returned k) : k ∈ live' := by
  cases h with
  | taken => exact Finset.mem_insert_of_mem hlive
  | exhausted | refused => exact hlive
  | returned => exact Finset.mem_erase_of_ne_of_mem (fun heq => hkept (heq ▸ rfl)) hlive

theorem Path.keeps {events : List (Event K)} (h : Path all live events live') (hlive : k ∈ live)
    (hkept : .returned k ∉ events) : k ∈ live' := by
  induction events generalizing live with
  | nil =>
      obtain rfl : live = live' := h
      exact hlive
  | cons event events ih =>
      obtain ⟨mid, hstep, hpath⟩ := h
      obtain ⟨hfirst, hrest⟩ := not_or.mp (List.mem_cons.not.mp hkept)
      exact ih hpath (hstep.keeps hlive fun heq => hfirst heq.symm) hrest

/-- Between two owners of a place it has been taken back. -/
theorem Path.returned_between {before middle after : List (Event K)}
    (h : Path all live (before ++ .taken k :: (middle ++ .taken k :: after)) live') :
    .returned k ∈ middle := by
  by_contra hkept
  obtain ⟨_, -, _, hfirst, hpath⟩ := path_append_iff.mp h
  obtain ⟨_, hmiddle, _, hsecond, -⟩ := path_append_iff.mp hpath
  cases hfirst with
  | taken _ _ =>
      have hlive := hmiddle.keeps (Finset.mem_insert_self k _) hkept
      cases hsecond with
      | taken _ hfree => exact hfree hlive

/-- The stack holds each place that is not live, once. -/
structure FreeStack (all live : Finset K) (stack : List K) : Prop where
  live_subset : live ⊆ all
  nodup : stack.Nodup
  mem_iff : ∀ k, k ∈ stack ↔ k ∈ all ∧ k ∉ live

namespace FreeStack

variable {stack : List K}

/-- The places that are not live and those that are make up all of them. -/
theorem length_add_card (h : FreeStack all live stack) :
    stack.length + live.card = all.card := by
  have hrest : stack.toFinset = all \ live := by
    ext k
    rw [List.mem_toFinset, h.mem_iff, Finset.mem_sdiff]
  rw [← List.toFinset_card_of_nodup h.nodup, hrest]
  exact Finset.card_sdiff_add_card_eq_card h.live_subset

/-- On an empty stack every place is live. -/
theorem exhausted (h : FreeStack all live []) : live = all := by
  refine Finset.Subset.antisymm h.live_subset fun k hplace => ?_
  by_contra hfree
  exact List.not_mem_nil ((h.mem_iff k).mpr ⟨hplace, hfree⟩)

omit [DecidableEq K] in
/-- The top of the stack can be handed out. -/
theorem top (h : FreeStack all live (stack ++ [k])) : k ∈ all ∧ k ∉ live :=
  (h.mem_iff k).mp (List.mem_append_right stack List.mem_cons_self)

theorem pop (h : FreeStack all live (stack ++ [k])) : FreeStack all (insert k live) stack := by
  obtain ⟨hplace, hfree⟩ := h.top
  have hparts := List.nodup_append.mp h.nodup
  refine ⟨Finset.insert_subset hplace h.live_subset, hparts.1, fun other => ?_⟩
  have hother := h.mem_iff other
  rw [List.mem_append, List.mem_singleton] at hother
  rw [Finset.mem_insert, not_or]
  constructor
  · intro hmem
    obtain ⟨hin, hout⟩ := hother.mp (.inl hmem)
    exact ⟨hin, hparts.2.2 other hmem k List.mem_cons_self, hout⟩
  · rintro ⟨hin, hne, hout⟩
    exact (hother.mpr ⟨hin, hout⟩).resolve_right hne

theorem push (h : FreeStack all live stack) (hlive : k ∈ live) :
    FreeStack all (live.erase k) (stack ++ [k]) := by
  have hnotMem : k ∉ stack := fun hmem => ((h.mem_iff k).mp hmem).2 hlive
  refine ⟨(Finset.erase_subset k live).trans h.live_subset, ?_, fun other => ?_⟩
  · rw [← List.concat_eq_append]
    exact h.nodup.concat hnotMem
  · rw [List.mem_append, List.mem_singleton, h.mem_iff, Finset.mem_erase, not_and]
    constructor
    · rintro (⟨hin, hout⟩ | rfl)
      · exact ⟨hin, fun _ => hout⟩
      · exact ⟨h.live_subset hlive, fun hne => absurd rfl hne⟩
    · rintro ⟨hin, hout⟩
      by_cases heq : other = k
      · exact .inr heq
      · exact .inl ⟨hin, hout heq⟩

end FreeStack

end Ownership
