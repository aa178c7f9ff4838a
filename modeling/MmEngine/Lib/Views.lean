/-
# Relaxed memory with fences

Relaxed accesses are atomic and say nothing about each other: a load may give back any
value that the location has held since the last one its thread has seen of it. Each
location keeps its whole history, and a *view* says how far into every history something
reaches. Order comes from the fences alone. A store carries what its thread had seen before
its last release fence, and what a load finds carried with a value counts for its thread
from its next acquire fence on.

Every location here has one thread that stores into it, so a store goes behind all others,
and threads that store take nothing from those that load: program order and reads-from have
no cycle, and an execution is an interleaving of accesses. What a load finds is the choice
of the schedule.

What is proved with it has one shape: each store into a location *promises* that its reader
will find other locations at least so far on.
-/

import Mathlib.Order.Lattice
import Mathlib.Data.List.Basic

universe u v

namespace Views

/-- How far into the history of each location something reaches. -/
abbrev View (Loc : Type u) := Loc → Nat

/-- A stored value, with the view that its reader can acquire. -/
structure Message (Loc : Type u) (Val : Type v) where
  value : Val
  carried : View Loc

/-- The value each location started from and everything stored into it since, in order. -/
structure Memory (Loc : Type u) (Val : Type v) where
  initial : Loc → Val
  stores : Loc → List (Message Loc Val)

/-- What a thread has seen, what it will have seen after an acquire fence, and what its
stores carry. -/
structure Thread (Loc : Type u) where
  current : View Loc := fun _ => 0
  acquired : View Loc := fun _ => 0
  released : View Loc := fun _ => 0

variable {Loc : Type u} {Val : Type v}

namespace Memory

def init (initial : Loc → Val) : Memory Loc Val := ⟨initial, fun _ => []⟩

/-- The place of the last value stored into a location. -/
def latest (m : Memory Loc Val) (l : Loc) : Nat := (m.stores l).length

/-- The message at a place of a history. The first place is the initial value's. -/
def message (m : Memory Loc Val) (l : Loc) : Nat → Message Loc Val
  | 0 => ⟨m.initial l, fun _ => 0⟩
  | t + 1 => (m.stores l)[t]?.getD ⟨m.initial l, fun _ => 0⟩

/-- The place a load finds: `lag` values on from the last one its thread has seen, or the
last one there is. -/
def found (m : Memory Loc Val) (p : Thread Loc) (l : Loc) (lag : Nat) : Nat :=
  min (p.current l + lag) (m.latest l)

end Memory

section Accesses

variable [DecidableEq Loc]

/-- The view of one place of one location. -/
def View.single (l : Loc) (t : Nat) : View Loc := fun l' => if l' = l then t else 0

namespace Memory

/-- The value that a load finds. -/
def valueFound (m : Memory Loc Val) (p : Thread Loc) (l : Loc) (lag : Nat) : Val :=
  (m.message l (m.found p l lag)).value

/-- A store behind all others, carrying what the thread has released. -/
def store (m : Memory Loc Val) (p : Thread Loc) (l : Loc) (value : Val) : Memory Loc Val :=
  { m with
    stores := fun l' =>
      if l' = l then m.stores l ++ [⟨value, p.released ⊔ View.single l (m.latest l + 1)⟩]
      else m.stores l' }

end Memory

namespace Thread

/-- The thread after a load. -/
def afterLoad (p : Thread Loc) (m : Memory Loc Val) (l : Loc) (lag : Nat) : Thread Loc :=
  { p with
    current := p.current ⊔ View.single l (m.found p l lag)
    acquired :=
      p.acquired ⊔ View.single l (m.found p l lag) ⊔ (m.message l (m.found p l lag)).carried }

/-- The thread after a load that acquires what it finds. -/
def afterLoadAcquire (p : Thread Loc) (m : Memory Loc Val) (l : Loc) (lag : Nat) : Thread Loc :=
  { p.afterLoad m l lag with
    current :=
      p.current ⊔ View.single l (m.found p l lag) ⊔ (m.message l (m.found p l lag)).carried }

/-- The thread after a store. -/
def afterStore (p : Thread Loc) (m : Memory Loc Val) (l : Loc) : Thread Loc :=
  { p with
    current := p.current ⊔ View.single l (m.latest l + 1)
    acquired := p.acquired ⊔ View.single l (m.latest l + 1) }

def fenceAcquire (p : Thread Loc) : Thread Loc := { p with current := p.current ⊔ p.acquired }

def fenceRelease (p : Thread Loc) : Thread Loc := { p with released := p.current }

end Thread

end Accesses

section Load

variable {m : Memory Loc Val} {p : Thread Loc} {l : Loc}

namespace Memory

@[simp]
theorem latest_init (initial : Loc → Val) (l : Loc) : (init initial).latest l = 0 := rfl

theorem found_le_latest (lag : Nat) : m.found p l lag ≤ m.latest l := Nat.min_le_right _ _

theorem current_le_found (hwithin : p.current l ≤ m.latest l) (lag : Nat) :
    p.current l ≤ m.found p l lag :=
  Nat.le_min.mpr ⟨Nat.le_add_right _ _, hwithin⟩

/-- A thread that has seen all of a location finds its last value, whatever the schedule
chooses. -/
theorem found_eq_latest (hcurrent : p.current l = m.latest l) (lag : Nat) :
    m.found p l lag = m.latest l := by
  rw [found, hcurrent]
  exact Nat.min_eq_right (Nat.le_add_right _ _)

/-- A schedule that lets a load find the last value. -/
theorem found_of_latest_le {lag : Nat} (hlag : m.latest l ≤ lag) :
    m.found p l lag = m.latest l :=
  Nat.min_eq_right (Nat.le_trans hlag (Nat.le_add_left _ _))

end Memory

end Load

section Store

variable [DecidableEq Loc] {m : Memory Loc Val} {p : Thread Loc} {l : Loc} {value : Val}

@[simp]
theorem View.single_self (t : Nat) : View.single l t l = t := if_pos rfl

theorem View.single_of_ne {l' : Loc} (hne : l' ≠ l) (t : Nat) : View.single l t l' = 0 := if_neg hne

namespace Memory

@[simp]
theorem initial_store : (m.store p l value).initial = m.initial := rfl

@[simp]
theorem latest_store_self : (m.store p l value).latest l = m.latest l + 1 := by
  simp [latest, store]

theorem latest_store_of_ne {l' : Loc} (hne : l' ≠ l) :
    (m.store p l value).latest l' = m.latest l' := by
  simp [latest, store, hne]

theorem latest_le_store (l' : Loc) : m.latest l' ≤ (m.store p l value).latest l' := by
  by_cases hl : l' = l
  · subst hl
    rw [latest_store_self]
    exact Nat.le_succ _
  · rw [latest_store_of_ne hl]

/-- The message of a store is behind all others of its location. -/
theorem message_store_new :
    (m.store p l value).message l (m.latest l + 1) =
      ⟨value, p.released ⊔ View.single l (m.latest l + 1)⟩ := by
  simp [message, store, latest]

/-- A store leaves what the histories held in its place. -/
theorem message_store_old {l' : Loc} {t : Nat} (ht : t ≤ m.latest l') :
    (m.store p l value).message l' t = m.message l' t := by
  cases t with
  | zero => rfl
  | succ t =>
      by_cases hl : l' = l
      · subst hl
        simp only [message, store, if_true]
        rw [List.getElem?_append_left (Nat.lt_of_succ_le ht)]
      · simp only [message, store, if_neg hl]

end Memory

end Store

/-! ## Threads -/

/-- What a thread has seen is there to be seen, and an acquire fence takes nothing back. -/
structure Thread.Within (p : Thread Loc) (m : Memory Loc Val) : Prop where
  current_le : ∀ l, p.current l ≤ m.latest l
  acquired_le : ∀ l, p.acquired l ≤ m.latest l

/-- No message carries more than there is. -/
def Memory.Closed (m : Memory Loc Val) : Prop :=
  ∀ l t, t ≤ m.latest l → ∀ l', (m.message l t).carried l' ≤ m.latest l'

theorem Memory.closed_init (initial : Loc → Val) : (init initial).Closed := by
  intro l t ht l'
  have hzero : t = 0 := Nat.le_zero.mp ht
  subst hzero
  exact Nat.le_refl _

namespace Thread

variable {m : Memory Loc Val} {p : Thread Loc}

theorem within_init (initial : Loc → Val) : ({} : Thread Loc).Within (Memory.init initial) :=
  ⟨fun _ => Nat.le_refl _, fun _ => Nat.le_refl _⟩

theorem Within.fenceAcquire (h : p.Within m) : p.fenceAcquire.Within m :=
  ⟨fun l => Nat.max_le.mpr ⟨h.current_le l, h.acquired_le l⟩, h.acquired_le⟩

theorem le_fenceAcquire (l : Loc) : p.current l ≤ p.fenceAcquire.current l :=
  Nat.le_max_left _ _

theorem acquired_le_fenceAcquire (l : Loc) : p.acquired l ≤ p.fenceAcquire.current l :=
  Nat.le_max_right _ _

end Thread

section Within

variable [DecidableEq Loc] {m : Memory Loc Val} {p other : Thread Loc} {l : Loc} {value : Val}

theorem View.single_le {w : View Loc} {t : Nat} (ht : t ≤ w l) (l' : Loc) :
    View.single l t l' ≤ w l' := by
  by_cases hl : l' = l
  · subst hl
    rwa [View.single_self]
  · rw [View.single_of_ne hl]
    exact Nat.zero_le _

namespace Thread

namespace Within

/-- A store of another thread leaves a thread within the memory. -/
theorem store (h : p.Within m) : p.Within (m.store other l value) :=
  ⟨fun l' => Nat.le_trans (h.current_le l') (Memory.latest_le_store l'),
    fun l' => Nat.le_trans (h.acquired_le l') (Memory.latest_le_store l')⟩

theorem afterLoad (h : p.Within m) (hclosed : m.Closed) (lag : Nat) :
    (p.afterLoad m l lag).Within m := by
  have hfound : ∀ l', View.single l (m.found p l lag) l' ≤ m.latest l' :=
    View.single_le (Memory.found_le_latest lag)
  have hcarried := hclosed l (m.found p l lag) (Memory.found_le_latest lag)
  exact ⟨fun l' => Nat.max_le.mpr ⟨h.current_le l', hfound l'⟩, fun l' =>
    Nat.max_le.mpr ⟨Nat.max_le.mpr ⟨h.acquired_le l', hfound l'⟩, hcarried l'⟩⟩

theorem afterLoadAcquire (h : p.Within m) (hclosed : m.Closed) (lag : Nat) :
    (p.afterLoadAcquire m l lag).Within m :=
  ⟨fun l' => Nat.max_le.mpr ⟨(h.afterLoad hclosed lag).current_le l',
      hclosed l (m.found p l lag) (Memory.found_le_latest lag) l'⟩,
    (h.afterLoad hclosed lag).acquired_le⟩

end Within

theorem le_afterLoad (lag : Nat) (l' : Loc) : p.current l' ≤ (p.afterLoad m l lag).current l' :=
  Nat.le_max_left _ _

theorem le_acquired_afterLoad (lag : Nat) (l' : Loc) :
    p.acquired l' ≤ (p.afterLoad m l lag).acquired l' :=
  Nat.le_trans (Nat.le_max_left _ _) (Nat.le_max_left _ _)

theorem found_le_afterLoad (lag : Nat) : m.found p l lag ≤ (p.afterLoad m l lag).current l := by
  refine Nat.le_trans ?_ (Nat.le_max_right (p.current l) _)
  rw [View.single_self]

theorem found_le_afterLoadAcquire (lag : Nat) :
    m.found p l lag ≤ (p.afterLoadAcquire m l lag).current l :=
  Nat.le_trans (found_le_afterLoad lag) (Nat.le_max_left _ _)

end Thread

namespace Memory

/-- A store carries no more than there is, when its thread has released no more. -/
theorem Closed.store (h : m.Closed) (hreleased : ∀ l', p.released l' ≤ m.latest l') :
    (m.store p l value).Closed := by
  intro l' t ht l''
  have hgrow : m.latest l'' ≤ (m.store p l value).latest l'' := latest_le_store l''
  by_cases hold : t ≤ m.latest l'
  · rw [message_store_old hold]
    exact Nat.le_trans (h l' t hold l'') hgrow
  · have hl : l' = l := by
      by_contra hne
      rw [latest_store_of_ne hne] at ht
      exact hold ht
    subst hl
    rw [latest_store_self] at ht
    have hlast : t = m.latest l' + 1 := Nat.le_antisymm ht (Nat.lt_of_not_le hold)
    subst hlast
    rw [message_store_new]
    exact Nat.max_le.mpr ⟨Nat.le_trans (hreleased l'') hgrow,
      View.single_le (Nat.le_of_eq latest_store_self.symm) l''⟩

end Memory

end Within

/-- What the message at each place of each location carries at the least. -/
abbrev Promise (Loc : Type u) := Loc → Nat → View Loc

/-- The memory keeps a promise. -/
def Memory.Keeps (m : Memory Loc Val) (promise : Promise Loc) : Prop :=
  ∀ l t, t ≤ m.latest l → ∀ l', promise l t l' ≤ (m.message l t).carried l'

theorem Memory.keeps_init {promise : Promise Loc} (initial : Loc → Val)
    (hnothing : ∀ l l', promise l 0 l' = 0) : (init initial).Keeps promise := by
  intro l t ht l'
  have hzero : t = 0 := Nat.le_zero.mp ht
  subst hzero
  exact Nat.le_of_eq (hnothing l l')

section Keeps

variable [DecidableEq Loc] {m : Memory Loc Val} {p : Thread Loc} {l : Loc} {value : Val}
  {promise : Promise Loc}

/-- A store keeps a promise that its thread has released, its own place aside. -/
theorem Memory.Keeps.store (h : m.Keeps promise)
    (hreleased : ∀ l', l' ≠ l → promise l (m.latest l + 1) l' ≤ p.released l')
    (hself : promise l (m.latest l + 1) l ≤ m.latest l + 1) :
    (m.store p l value).Keeps promise := by
  intro l' t ht l''
  by_cases hold : t ≤ m.latest l'
  · rw [message_store_old hold]
    exact h l' t hold l''
  · have hl : l' = l := by
      by_contra hne
      rw [latest_store_of_ne hne] at ht
      exact hold ht
    subst hl
    rw [latest_store_self] at ht
    have hlast : t = m.latest l' + 1 := Nat.le_antisymm ht (Nat.lt_of_not_le hold)
    subst hlast
    rw [message_store_new]
    by_cases hsame : l'' = l'
    · subst hsame
      refine Nat.le_trans hself (Nat.le_trans ?_ (Nat.le_max_right _ _))
      rw [View.single_self]
    · exact Nat.le_trans (hreleased l'' hsame) (Nat.le_max_left _ _)

/-- Loading a message and fencing makes its promise one's own. -/
theorem Memory.Keeps.le_acquired (h : m.Keeps promise) (lag : Nat) (l' : Loc) :
    promise l (m.found p l lag) l' ≤ (p.afterLoad m l lag).acquired l' :=
  Nat.le_trans (h l _ (found_le_latest lag) l') (Nat.le_max_right _ _)

end Keeps

end Views
