/-
# The event ring loses, repeats and overwrites nothing

Both sides work with a stale copy of the other's index. A stale head is behind the head and
a stale tail behind the tail, so each side sees the ring fuller, or emptier, than it is. The
invariant relates the four counters to the two histories at every access of both programs:
it holds for every schedule, and what is asked of the ring is read off it.
-/

import MmEngine.Common.SpscRing

universe u

namespace MmEngine

variable {α : Type u} {cap : RingCapacity} {seenHead seenTail : Nat}

/-- The value the producer has written into its slot and not yet published. -/
def Producer.writing : Producer α → List α
  | .written item _ => [item]
  | .idle | .loaded _ _ | .stale _ _ | .reread _ _ _ | .admitted _ _ => []

/-- What the producer knows where it stands, with `pushed` values published and having seen
the given head. -/
def Producer.Knows (cap : RingCapacity) (pushed seenHead : Nat) : Producer α → Prop
  | .idle => True
  | .loaded _ tail | .stale _ tail => tail = .ofNat 64 pushed
  | .reread _ tail held => tail = .ofNat 64 pushed ∧ held = pushed - seenHead
  | .admitted _ tail | .written _ tail =>
      tail = .ofNat 64 pushed ∧ pushed < seenHead + cap.value

/-- What the consumer knows where it stands, having seen the given tail. -/
def Consumer.Knows (pushed popped : List α) (seenTail : Nat) : Consumer α → Prop
  | .idle => True
  | .loaded head | .stale head | .reread head => head = .ofNat 64 popped.length
  | .admitted head => head = .ofNat 64 popped.length ∧ popped.length < seenTail
  | .taken head value =>
      head = .ofNat 64 popped.length ∧ popped.length < seenTail ∧
        pushed[popped.length]? = some value

/-- A value pushed behind the tail that the consumer has seen changes nothing for it. -/
theorem Consumer.Knows.push {consumer : Consumer α} {pushed popped : List α}
    (h : consumer.Knows pushed popped seenTail) (hseen : seenTail ≤ pushed.length) (item : α) :
    consumer.Knows (pushed ++ [item]) popped seenTail := by
  cases consumer with
  | idle | loaded | stale | reread | admitted => exact h
  | taken head value =>
      obtain ⟨hhead, hmore, hvalue⟩ := h
      refine ⟨hhead, hmore, ?_⟩
      rw [List.getElem?_append_left (Nat.lt_of_lt_of_le hmore hseen), hvalue]

/-- The counters behind the four indices, for the head the producer has seen and the tail
the consumer has seen. -/
structure Indexed (ring : SpscRing α cap) (pushed popped : List α) (seenHead seenTail : Nat) :
    Prop where
  head : ring.head = .ofNat 64 popped.length
  tail : ring.tail = .ofNat 64 pushed.length
  cachedHead : ring.cachedHead = .ofNat 64 seenHead
  cachedTail : ring.cachedTail = .ofNat 64 seenTail
  seenHead_le : seenHead ≤ popped.length
  popped_le : popped.length ≤ seenTail
  seenTail_le : seenTail ≤ pushed.length
  room : pushed.length ≤ seenHead + cap.value

namespace Indexed

variable {ring : SpscRing α cap} {pushed popped : List α}

/-- Behind the tail, the stale head leaves no slot free exactly when it is a turn away. -/
theorem looksFull_iff (h : Indexed ring pushed popped seenHead seenTail) :
    ring.looksFull (.ofNat 64 pushed.length) = true ↔ pushed.length = seenHead + cap.value := by
  have hcap := cap.succ_lt_word
  have hseen := h.seenHead_le
  have hpopped := h.popped_le
  have htail := h.seenTail_le
  have hroom := h.room
  have hdistance : (BitVec.ofNat 64 (pushed.length + 1) - BitVec.ofNat 64 seenHead).toNat =
      pushed.length + 1 - seenHead :=
    WrappingCounter.toNat_sub (by omega) (by omega)
  rw [SpscRing.looksFull, decide_eq_true_eq, h.cachedHead, WrappingCounter.ofNat_add_one,
    BitVec.lt_def, hdistance, BitVec.toNat_ofNat, Nat.mod_eq_of_lt (by omega)]
  omega

/-- The stale tail says that the ring is empty exactly when it is the head. -/
theorem looksEmpty_iff (h : Indexed ring pushed popped seenHead seenTail) :
    ring.looksEmpty (.ofNat 64 popped.length) = true ↔ popped.length = seenTail := by
  have hcap := cap.succ_lt_word
  have hseen := h.seenHead_le
  have htail := h.seenTail_le
  have hroom := h.room
  rw [SpscRing.looksEmpty, decide_eq_true_eq, h.cachedTail]
  exact WrappingCounter.ofNat_eq_iff h.popped_le (by omega)

/-- The indices are as far apart as the histories, which is never more than a turn. -/
theorem distance (h : Indexed ring pushed popped seenHead seenTail) :
    (ring.tail - ring.head).toNat = pushed.length - popped.length ∧
      pushed.length ≤ popped.length + cap.value := by
  have hcap := cap.succ_lt_word
  have hseen := h.seenHead_le
  have hpopped := h.popped_le
  have htail := h.seenTail_le
  have hroom := h.room
  rw [h.tail, h.head]
  exact ⟨WrappingCounter.toNat_sub (by omega) (by omega), by omega⟩

theorem seeHead (h : Indexed ring pushed popped seenHead seenTail) :
    Indexed { ring with cachedHead := ring.head } pushed popped popped.length seenTail :=
  { h with
    cachedHead := h.head
    seenHead_le := Nat.le_refl _
    room := h.distance.2 }

theorem seeTail (h : Indexed ring pushed popped seenHead seenTail) :
    Indexed { ring with cachedTail := ring.tail } pushed popped seenHead pushed.length :=
  { h with
    cachedTail := h.tail
    popped_le := Nat.le_trans h.popped_le h.seenTail_le
    seenTail_le := Nat.le_refl _ }

theorem write (h : Indexed ring pushed popped seenHead seenTail) (index : RingIndex) (item : α) :
    Indexed (ring.write index item) pushed popped seenHead seenTail :=
  ⟨h.head, h.tail, h.cachedHead, h.cachedTail, h.seenHead_le, h.popped_le, h.seenTail_le, h.room⟩

/-- Publishing a tail keeps within a turn of the head the producer has seen. -/
theorem push (h : Indexed ring pushed popped seenHead seenTail)
    (hroom : pushed.length < seenHead + cap.value) (item : α) :
    Indexed { ring with tail := .ofNat 64 pushed.length + 1 } (pushed ++ [item]) popped seenHead
      seenTail := by
  have hlength : (pushed ++ [item]).length = pushed.length + 1 := by simp
  have htail := h.seenTail_le
  refine ⟨h.head, ?_, h.cachedHead, h.cachedTail, h.seenHead_le, h.popped_le, by omega, by omega⟩
  rw [hlength]
  exact WrappingCounter.ofNat_add_one

/-- Publishing a head keeps behind the tail the consumer has seen. -/
theorem pop (h : Indexed ring pushed popped seenHead seenTail)
    (hmore : popped.length < seenTail) (value : α) :
    Indexed { ring with head := .ofNat 64 popped.length + 1 } pushed (popped ++ [value]) seenHead
      seenTail := by
  have hlength : (popped ++ [value]).length = popped.length + 1 := by simp
  have hseen := h.seenHead_le
  refine ⟨?_, h.tail, h.cachedHead, h.cachedTail, by omega, by omega, h.seenTail_le, h.room⟩
  rw [hlength]
  exact WrappingCounter.ofNat_add_one

end Indexed

/-- The indices, what was popped, what the slots hold, what each side knows, and what every
failed push had found. -/
structure RingInvariant (s : RingSystem α cap) (seenHead seenTail : Nat) : Prop where
  indexed : Indexed s.ring s.pushed s.popped seenHead seenTail
  popped_eq : s.popped = s.pushed.take s.popped.length
  slots : Circle.Holds cap.value s.ring.buffer (s.pushed ++ s.producer.writing) s.popped.length
  producer : s.producer.Knows cap s.pushed.length seenHead
  consumer : s.consumer.Knows s.pushed s.popped seenTail
  refusals : ∀ held ∈ s.refusals, held = cap.value

namespace RingInvariant

variable {s : RingSystem α cap}

theorem init [Inhabited α] : RingInvariant (RingSystem.init : RingSystem α cap) 0 0 where
  indexed :=
    ⟨rfl, rfl, rfl, rfl, Nat.le_refl _, Nat.le_refl _, Nat.le_refl _, Nat.zero_le _⟩
  popped_eq := rfl
  slots := Circle.holds_nil List.length_replicate
  producer := trivial
  consumer := trivial
  refusals _ hheld := absurd hheld List.not_mem_nil

/-- An access that moves the producer on and touches neither index nor slot. -/
theorem moveProducer (h : RingInvariant s seenHead seenTail) (next : Producer α)
    (hwriting : next.writing = s.producer.writing)
    (hknows : next.Knows cap s.pushed.length seenHead) :
    RingInvariant { s with producer := next } seenHead seenTail :=
  ⟨h.indexed, h.popped_eq, hwriting ▸ h.slots, hknows, h.consumer, h.refusals⟩

/-- An access that moves the consumer on and touches neither index nor slot. -/
theorem moveConsumer (h : RingInvariant s seenHead seenTail) (next : Consumer α)
    (hknows : next.Knows s.pushed s.popped seenTail) :
    RingInvariant { s with consumer := next } seenHead seenTail :=
  ⟨h.indexed, h.popped_eq, h.slots, h.producer, hknows, h.refusals⟩

/-- What lets the producer through: the head it has seen is less than a turn away. -/
theorem room_of_looksFull (h : RingInvariant s seenHead seenTail)
    (hroom : s.ring.looksFull (.ofNat 64 s.pushed.length) = false) :
    s.pushed.length < seenHead + cap.value := by
  rw [← Bool.not_eq_true, h.indexed.looksFull_iff] at hroom
  have hle := h.indexed.room
  omega

/-- What lets the consumer through: the tail it has seen is ahead of its head. -/
theorem more_of_looksEmpty (h : RingInvariant s seenHead seenTail)
    (hmore : s.ring.looksEmpty (.ofNat 64 s.popped.length) = false) :
    s.popped.length < seenTail := by
  rw [← Bool.not_eq_true, h.indexed.looksEmpty_iff] at hmore
  have hle := h.indexed.popped_le
  omega

/-- The slot of the next value to pop holds it. -/
theorem read_eq (h : RingInvariant s seenHead seenTail) (hmore : s.popped.length < seenTail) :
    s.pushed[s.popped.length]? = some (s.ring.read (.ofNat 64 s.popped.length)) := by
  have hlt : s.popped.length < s.pushed.length := Nat.lt_of_lt_of_le hmore h.indexed.seenTail_le
  have hslot := h.slots.slot s.popped.length (Nat.le_refl _) (by
    rw [List.length_append]
    omega)
  rw [List.getElem?_append_left hlt, ← cap.slotOf_ofNat] at hslot
  rw [← hslot, SpscRing.read, List.get_eq_getElem, List.getElem?_eq_getElem]

/-- Every access of the producer keeps the invariant; re-reading the head is seeing it. -/
theorem produce (h : RingInvariant s seenHead seenTail) (item : α) :
    ∃ seenHead', RingInvariant (s.produce item) seenHead' seenTail := by
  have hknows := h.producer
  have hslots := h.slots
  rw [RingSystem.produce]
  cases hat : s.producer with
  | idle => exact ⟨seenHead, h.moveProducer _ (by rw [hat]; rfl) h.indexed.tail⟩
  | loaded item tail =>
      rw [hat] at hknows
      obtain rfl : tail = .ofNat 64 s.pushed.length := hknows
      cases hfull : s.ring.looksFull (.ofNat 64 s.pushed.length) with
      | true =>
          simp only [hfull, if_true]
          exact ⟨seenHead, h.moveProducer _ (by rw [hat]; rfl) rfl⟩
      | false =>
          simp only [hfull, Bool.false_eq_true, if_false]
          exact ⟨seenHead, h.moveProducer _ (by rw [hat]; rfl) ⟨rfl, h.room_of_looksFull hfull⟩⟩
  | stale item tail =>
      rw [hat] at hknows hslots
      exact ⟨s.popped.length, h.indexed.seeHead, h.popped_eq, hslots, ⟨hknows, rfl⟩, h.consumer,
        h.refusals⟩
  | reread item tail held =>
      rw [hat] at hknows hslots
      obtain ⟨rfl, rfl⟩ := hknows
      cases hfull : s.ring.looksFull (.ofNat 64 s.pushed.length) with
      | true =>
          simp only [hfull, if_true]
          refine ⟨seenHead, h.indexed, h.popped_eq, hslots, trivial, h.consumer, ?_⟩
          -- The head it has seen is the one it re-read, and that is a turn away.
          intro held hmem
          rcases List.mem_append.mp hmem with hold | hnew
          · exact h.refusals held hold
          · rw [List.mem_singleton.mp hnew, h.indexed.looksFull_iff.mp hfull,
              Nat.add_sub_cancel_left]
      | false =>
          simp only [hfull, Bool.false_eq_true, if_false]
          exact ⟨seenHead, h.moveProducer _ (by rw [hat]; rfl) ⟨rfl, h.room_of_looksFull hfull⟩⟩
  | admitted item tail =>
      rw [hat] at hknows hslots
      obtain ⟨rfl, hroom⟩ := hknows
      have hseen := h.indexed.seenHead_le
      refine ⟨seenHead, h.indexed.write _ item, h.popped_eq, ?_, ⟨rfl, hroom⟩, h.consumer,
        h.refusals⟩
      rw [Producer.writing, List.append_nil] at hslots
      show Circle.Holds _ (s.ring.buffer.set (cap.slotOf _) item) (s.pushed ++ [item]) _
      rw [cap.slotOf_ofNat]
      exact hslots.write cap.pos (by omega) item
  | written item tail =>
      rw [hat] at hknows hslots
      obtain ⟨rfl, hroom⟩ := hknows
      have hpopped := Nat.le_trans h.indexed.popped_le h.indexed.seenTail_le
      refine ⟨seenHead, h.indexed.push hroom item, ?_, ?_, trivial,
        h.consumer.push h.indexed.seenTail_le item, h.refusals⟩
      · rw [List.take_append_of_le_length hpopped]
        exact h.popped_eq
      · show Circle.Holds _ _ (s.pushed ++ [item] ++ []) _
        rw [List.append_nil]
        exact hslots

/-- Every access of the consumer keeps the invariant; re-reading the tail is seeing it. -/
theorem consume (h : RingInvariant s seenHead seenTail) :
    ∃ seenTail', RingInvariant s.consume seenHead seenTail' := by
  have hknows := h.consumer
  rw [RingSystem.consume]
  cases hat : s.consumer with
  | idle => exact ⟨seenTail, h.moveConsumer _ h.indexed.head⟩
  | loaded head =>
      rw [hat] at hknows
      obtain rfl : head = .ofNat 64 s.popped.length := hknows
      cases hempty : s.ring.looksEmpty (.ofNat 64 s.popped.length) with
      | true =>
          simp only [hempty, if_true]
          exact ⟨seenTail, h.moveConsumer _ rfl⟩
      | false =>
          simp only [hempty, Bool.false_eq_true, if_false]
          exact ⟨seenTail, h.moveConsumer _ ⟨rfl, h.more_of_looksEmpty hempty⟩⟩
  | stale head =>
      rw [hat] at hknows
      exact ⟨s.pushed.length, h.indexed.seeTail, h.popped_eq, h.slots, h.producer, hknows,
        h.refusals⟩
  | reread head =>
      rw [hat] at hknows
      obtain rfl : head = .ofNat 64 s.popped.length := hknows
      cases hempty : s.ring.looksEmpty (.ofNat 64 s.popped.length) with
      | true =>
          simp only [hempty, if_true]
          exact ⟨seenTail, h.moveConsumer _ trivial⟩
      | false =>
          simp only [hempty, Bool.false_eq_true, if_false]
          exact ⟨seenTail, h.moveConsumer _ ⟨rfl, h.more_of_looksEmpty hempty⟩⟩
  | admitted head =>
      rw [hat] at hknows
      obtain ⟨rfl, hmore⟩ := hknows
      exact ⟨seenTail, h.moveConsumer _ ⟨rfl, hmore, h.read_eq hmore⟩⟩
  | taken head value =>
      rw [hat] at hknows
      obtain ⟨rfl, hmore, hvalue⟩ := hknows
      refine ⟨seenTail, h.indexed.pop hmore value, ?_, ?_, h.producer, trivial, h.refusals⟩
      · rw [List.length_append, List.length_singleton, List.take_add_one, hvalue, ← h.popped_eq]
        rfl
      · show Circle.Holds _ _ _ (s.popped ++ [value]).length
        rw [List.length_append]
        exact h.slots.forget (Nat.le_add_right _ _)

theorem step (h : RingInvariant s seenHead seenTail) (access : RingAccess α) :
    ∃ seenHead' seenTail', RingInvariant (s.step access) seenHead' seenTail' := by
  cases access with
  | producer item =>
      obtain ⟨seenHead', hproduced⟩ := h.produce item
      exact ⟨seenHead', seenTail, hproduced⟩
  | consumer =>
      obtain ⟨seenTail', hconsumed⟩ := h.consume
      exact ⟨seenHead, seenTail', hconsumed⟩

/-- No unread index shares its slot with the index being written. -/
theorem slotOf_ne (h : RingInvariant s seenHead seenTail) {item : α} {tail offset : RingIndex}
    (hat : s.producer = .admitted item tail) (hunread : offset < s.ring.tail - s.ring.head) :
    cap.slotOf (s.ring.head + offset) ≠ cap.slotOf tail := by
  have hknows := h.producer
  rw [hat] at hknows
  obtain ⟨rfl, hroom⟩ := hknows
  have hseen := h.indexed.seenHead_le
  rw [BitVec.lt_def, h.indexed.distance.1] at hunread
  have hindex : s.ring.head + offset = .ofNat 64 (s.popped.length + offset.toNat) := by
    rw [h.indexed.head, BitVec.ofNat_add, BitVec.ofNat_toNat, BitVec.setWidth_eq]
  rw [hindex, cap.slotOf_ofNat, cap.slotOf_ofNat]
  exact Circle.mod_ne_mod (by omega) (by omega)

end RingInvariant

/-! ## Schedules -/

/-- What is asked of the ring between any two accesses. -/
structure RingSafe (s : RingSystem α cap) : Prop where
  /-- What was popped is the beginning of what was pushed. -/
  inOrder : s.popped <+: s.pushed
  /-- The slot about to be written is not that of an index published and unread. -/
  writesFree : ∀ item tail, s.producer = .admitted item tail →
    ∀ offset < s.ring.tail - s.ring.head,
      cap.slotOf (s.ring.head + offset) ≠ cap.slotOf tail
  /-- The indices are as far apart as the ring holds values. -/
  outstanding : (s.ring.tail - s.ring.head).toNat = s.pushed.length - s.popped.length
  bounded : s.held ≤ cap.value
  /-- A push that failed had found the ring full when it re-read the head. -/
  refusedFull : ∀ held ∈ s.refusals, held = cap.value

theorem RingInvariant.safe {s : RingSystem α cap} (h : RingInvariant s seenHead seenTail) :
    RingSafe s where
  inOrder := by
    rw [h.popped_eq]
    exact List.take_prefix _ _
  writesFree _ _ hat _ hunread := h.slotOf_ne hat hunread
  outstanding := h.indexed.distance.1
  bounded := by
    have hturn := h.indexed.distance.2
    rw [RingSystem.held]
    omega
  refusedFull := h.refusals

/-- The ring and its two sides after the accesses of a schedule. -/
def RingSystem.reached [Inhabited α] (cap : RingCapacity) (schedule : List (RingAccess α)) :
    RingSystem α cap :=
  Machine.run RingSystem.step schedule .init

/-- The ring is safe between any two accesses of every schedule. -/
theorem ring_safe_under_every_schedule [Inhabited α] (cap : RingCapacity)
    (schedule : List (RingAccess α)) : RingSafe (RingSystem.reached cap schedule) := by
  have hrun : ∃ seenHead seenTail,
      RingInvariant (RingSystem.reached cap schedule) seenHead seenTail :=
    Machine.invariant_run_always
      (I := fun s : RingSystem α cap => ∃ seenHead seenTail, RingInvariant s seenHead seenTail)
      (fun access _ ⟨_, _, h⟩ => h.step access) schedule ⟨0, 0, .init⟩
  obtain ⟨_, _, h⟩ := hrun
  exact h.safe

/-- Of three pushes into two slots the last fails; then the first value is popped. -/
example :
    let cap : RingCapacity := ⟨2, Nat.le_refl 2, 1, by decide, rfl⟩
    let push (item : Char) : List (RingAccess Char) := List.replicate 4 (.producer item)
    let pop : List (RingAccess Char) := List.replicate 6 .consumer
    let s := RingSystem.reached cap [push 'a', push 'b', push 'c', pop].flatten
    s.refusals = [2] ∧ s.popped = ['a'] := by
  decide

end MmEngine
