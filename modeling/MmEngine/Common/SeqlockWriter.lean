/-
# The writer of the snapshot lock

The counter says how many stores have begun and ended, and each message promises what its
reader will find behind a fence: an even counter promises every word of the stores that it
counts, and a word promises that the counter has been raised for it. The writer keeps these
promises because it fences between the counter and the words, on both sides.
-/

import MmEngine.Common.Seqlock
import MmEngine.Lib.WrappingCounter

universe u v

namespace MmEngine

open Views

variable {R : Type v} {T : Type u} {image : SeqlockImage T}

/-- The words of the payload that a number of stores leaves. -/
def SeqlockImage.wordAt (image : SeqlockImage T) (payloads : List T) :
    Nat → Fin image.kWords → SeqlockWord
  | 0, _ => 0
  | count + 1, i => (payloads[count]?.map fun value => image.toWords value i).getD 0

/-- What each message promises: the counter the words of the stores it counts, a word the
raised counter of its store. -/
def seqlockPromise (kWords : Nat) : Promise (SeqlockCell kWords)
  | .seq, t, .word _ => t / 2
  | .word _, count, .seq => 2 * count - 1
  | .seq, _, .seq | .word _, _, .word _ => 0

/-- The histories are those of the stores so far. -/
structure SeqlockRecord (image : SeqlockImage T)
    (memory : Memory (SeqlockCell image.kWords) SeqlockWord)
    (payloads : List T) : Prop where
  seq_value : ∀ t ≤ memory.latest .seq, (memory.message .seq t).value = .ofNat 64 t
  word_le : ∀ i, memory.latest (.word i) ≤ payloads.length
  word_value : ∀ i, ∀ t ≤ memory.latest (.word i),
    (memory.message (.word i) t).value = image.wordAt payloads t i
  keeps : memory.Keeps (seqlockPromise image.kWords)
  closed : memory.Closed

namespace SeqlockRecord

variable {memory : Memory (SeqlockCell image.kWords) SeqlockWord} {payloads : List T}
  {thread : Thread (SeqlockCell image.kWords)}

theorem init : SeqlockRecord image (.init fun _ => 0) [] where
  seq_value := by
    intro t ht
    have hzero : t = 0 := Nat.le_zero.mp ht
    subst hzero
    rfl
  word_le _ := Nat.le_refl _
  word_value := by
    intro i t ht
    have hzero : t = 0 := Nat.le_zero.mp ht
    subst hzero
    rfl
  keeps := Memory.keeps_init _ fun l l' => by cases l <;> cases l' <;> rfl
  closed := Memory.closed_init _

/-- A store that begins leaves the words of the stores before it. -/
theorem begin (h : SeqlockRecord image memory payloads) (value : T) :
    SeqlockRecord image memory (payloads ++ [value]) where
  seq_value := h.seq_value
  word_le i := by
    rw [List.length_append]
    exact Nat.le_trans (h.word_le i) (Nat.le_add_right _ _)
  word_value i t ht := by
    rw [h.word_value i t ht]
    cases t with
    | zero => rfl
    | succ t =>
        have hlt : t < payloads.length := Nat.lt_of_lt_of_le ht (h.word_le i)
        rw [SeqlockImage.wordAt, SeqlockImage.wordAt, List.getElem?_append_left hlt]
  keeps := h.keeps
  closed := h.closed

/-- The counter moves on by one, by a thread that has released the stores it counts. -/
theorem storeSeq (h : SeqlockRecord image memory payloads)
    (hreleased : ∀ l, thread.released l ≤ memory.latest l)
    (hwords : ∀ i, (memory.latest .seq + 1) / 2 ≤ thread.released (.word i)) :
    SeqlockRecord image
      (memory.store thread .seq (.ofNat 64 (memory.latest .seq + 1))) payloads where
  seq_value t ht := by
    rw [Memory.latest_store_self] at ht
    rcases Nat.le_succ_iff.mp ht with hold | rfl
    · rw [Memory.message_store_old hold, h.seq_value t hold]
    · rw [Memory.message_store_new]
  word_le i := by
    rw [Memory.latest_store_of_ne (by simp)]
    exact h.word_le i
  word_value i t ht := by
    rw [Memory.latest_store_of_ne (by simp)] at ht
    rw [Memory.message_store_old ht, h.word_value i t ht]
  keeps := by
    refine h.keeps.store (fun l hl => ?_) (Nat.zero_le _)
    cases l with
    | seq => exact absurd rfl hl
    | word i => exact hwords i
  closed := h.closed.store hreleased

/-- A word of the store that has begun, by a thread that has released the raised counter. -/
theorem storeWord (h : SeqlockRecord image memory payloads) (i : Fin image.kWords)
    {value : T} (hvalue : payloads[memory.latest (.word i)]? = some value)
    (hreleased : ∀ l, thread.released l ≤ memory.latest l)
    (hraised : 2 * memory.latest (.word i) + 1 ≤ thread.released .seq) :
    SeqlockRecord image
      (memory.store thread (.word i) (image.toWords value i)) payloads where
  seq_value t ht := by
    rw [Memory.latest_store_of_ne (by simp)] at ht
    rw [Memory.message_store_old ht, h.seq_value t ht]
  word_le j := by
    by_cases hj : j = i
    · subst hj
      rw [Memory.latest_store_self]
      exact (List.getElem?_eq_some_iff.mp hvalue).1
    · rw [Memory.latest_store_of_ne (by simpa using hj)]
      exact h.word_le j
  word_value j t ht := by
    by_cases hj : j = i
    · subst hj
      rw [Memory.latest_store_self] at ht
      rcases Nat.le_succ_iff.mp ht with hold | rfl
      · rw [Memory.message_store_old hold, h.word_value j t hold]
      · rw [Memory.message_store_new, SeqlockImage.wordAt, hvalue]
        rfl
    · rw [Memory.latest_store_of_ne (by simpa using hj)] at ht
      rw [Memory.message_store_old ht, h.word_value j t ht]
  keeps := by
    refine h.keeps.store (fun l hl => ?_) (Nat.zero_le _)
    cases l with
    | seq =>
        show 2 * (memory.latest (.word i) + 1) - 1 ≤ thread.released .seq
        omega
    | word j => exact Nat.zero_le _
  closed := h.closed.store hreleased

/-- The words of a number of stores are the payload they leave. -/
theorem published_eq {s : SeqlockSystem R image} (count : Nat) (hcount : count ≤ s.stores.length) :
    image.ofWords (image.wordAt s.stores count) = s.published count := by
  cases count with
  | zero => rfl
  | succ count =>
      have hlt : count < s.stores.length := hcount
      have hword : image.wordAt s.stores (count + 1) = image.toWords s.stores[count] := by
        funext i
        simp [SeqlockImage.wordAt, List.getElem?_eq_getElem hlt]
      rw [hword, image.ofWords_toWords, SeqlockSystem.published, List.getD_eq_getElem?_getD,
        List.getElem?_eq_getElem hlt]
      rfl

end SeqlockRecord

/-! ## What the writer knows -/

/-- The value whose store has begun and not yet returned. -/
def SeqlockWriter.storing : SeqlockWriter T → List T
  | .idle => []
  | .loaded value _ | .raised value _ | .writing value _ _ | .written value _ => [value]

/-- Where the counter stands, with `done` stores returned. -/
def SeqlockWriter.counter (done : Nat) : SeqlockWriter T → Nat
  | .idle | .loaded _ _ => 2 * done
  | .raised _ _ | .writing _ _ _ | .written _ _ => 2 * done + 1

/-- How many stores have written the word `i`. -/
def SeqlockWriter.stored (done i : Nat) : SeqlockWriter T → Nat
  | .idle | .loaded _ _ | .raised _ _ => done
  | .writing _ _ next => if i < next then done + 1 else done
  | .written _ _ => done + 1

/-- What the writer has read and what it has released. -/
def SeqlockWriter.Knows (done : Nat) (released : View (SeqlockCell image.kWords)) :
    SeqlockWriter T → Prop
  | .idle => ∀ i, done ≤ released (.word i)
  | .loaded _ before | .raised _ before =>
      before = .ofNat 64 (2 * done) ∧ ∀ i, done ≤ released (.word i)
  | .writing _ before _ => before = .ofNat 64 (2 * done) ∧ 2 * done + 1 ≤ released .seq
  | .written _ before =>
      before = .ofNat 64 (2 * done) ∧ ∀ i, done + 1 ≤ released (.word i)

/-- The memory and the writer, with the payloads of the stores that have returned. -/
structure SeqlockWriterInvariant (s : SeqlockSystem R image) (earlier : List T) : Prop where
  stores_eq : s.stores = earlier ++ s.writer.storing
  record : SeqlockRecord image s.memory s.stores
  latest_seq : s.memory.latest .seq = s.writer.counter earlier.length
  latest_word : ∀ i, s.memory.latest (.word i) = s.writer.stored earlier.length i
  current : ∀ l, s.writerThread.current l = s.memory.latest l
  released : ∀ l, s.writerThread.released l ≤ s.memory.latest l
  knows : s.writer.Knows earlier.length s.writerThread.released

namespace SeqlockWriterInvariant

variable {s : SeqlockSystem R image} {earlier : List T}

theorem init : SeqlockWriterInvariant (SeqlockSystem.init : SeqlockSystem R image) [] where
  stores_eq := rfl
  record := .init
  latest_seq := rfl
  latest_word _ := rfl
  current _ := rfl
  released _ := Nat.le_refl _
  knows _ := Nat.le_refl _

/-- The writer has seen its own stores, whatever a load of it could find otherwise. -/
theorem current_afterLoad (h : SeqlockWriterInvariant s earlier) (lag : Nat)
    (l : SeqlockCell image.kWords) :
    (s.writerThread.afterLoad s.memory .seq lag).current l = s.memory.latest l := by
  refine Nat.le_antisymm (Nat.max_le.mpr ⟨Nat.le_of_eq (h.current l), ?_⟩) ?_
  · exact View.single_le (Memory.found_le_latest lag) l
  · rw [← h.current l]
    exact Thread.le_afterLoad lag l

theorem current_afterStore (h : SeqlockWriterInvariant s earlier) {cell : SeqlockCell image.kWords}
    {value : SeqlockWord} (l : SeqlockCell image.kWords) :
    (s.writerThread.afterStore s.memory cell).current l =
      (s.memory.store s.writerThread cell value).latest l := by
  show max (s.writerThread.current l) (View.single cell (s.memory.latest cell + 1) l) = _
  rw [h.current l]
  by_cases hl : l = cell
  · subst hl
    rw [View.single_self, Memory.latest_store_self]
    omega
  · rw [View.single_of_ne hl, Memory.latest_store_of_ne hl, Nat.max_zero]

/-- A store is called and reads the counter. -/
theorem call (h : SeqlockWriterInvariant s earlier) (hidle : s.writer = .idle) (value : T)
    (lag : Nat) : SeqlockWriterInvariant (s.store value lag) earlier := by
  have hstores := h.stores_eq
  have hseq := h.latest_seq
  have hword := h.latest_word
  have hknows := h.knows
  rw [hidle] at hstores hseq hword hknows
  simp only [SeqlockWriter.storing, List.append_nil] at hstores
  simp only [SeqlockSystem.store, hidle]
  refine ⟨?_, h.record.begin value, hseq, hword, h.current_afterLoad lag, h.released, ?_, hknows⟩
  · rw [hstores]
    rfl
  · rw [Memory.valueFound, Memory.found_eq_latest (h.current _),
      h.record.seq_value _ (Nat.le_refl _),
      hseq]
    rfl

theorem released_afterStore (h : SeqlockWriterInvariant s earlier)
    {cell : SeqlockCell image.kWords} {value : SeqlockWord} (l : SeqlockCell image.kWords) :
    (s.writerThread.afterStore s.memory cell).released l ≤
      (s.memory.store s.writerThread cell value).latest l :=
  Nat.le_trans (h.released l) (Memory.latest_le_store l)

/-- The counter is made odd. -/
theorem raise (h : SeqlockWriterInvariant s earlier) {value : T} {before : SeqlockWord}
    (hloaded : s.writer = .loaded value before) (next : T) (lag : Nat) :
    SeqlockWriterInvariant (s.store next lag) earlier := by
  have hstores := h.stores_eq
  have hseq := h.latest_seq
  have hword := h.latest_word
  have hknows := h.knows
  rw [hloaded] at hstores hseq hword hknows
  obtain ⟨rfl, hreleased⟩ := hknows
  have hseq : s.memory.latest .seq = 2 * earlier.length := hseq
  have hraised : BitVec.ofNat 64 (2 * earlier.length) + 1 =
      .ofNat 64 (s.memory.latest .seq + 1) := by
    rw [hseq, WrappingCounter.ofNat_add_one]
  simp only [SeqlockSystem.store, hloaded]
  refine ⟨hstores, ?_, ?_, fun i => ?_, h.current_afterStore, h.released_afterStore, rfl,
    hreleased⟩
  · rw [hraised]
    refine h.record.storeSeq h.released fun i => ?_
    have hi := hreleased i
    omega
  · rw [Memory.latest_store_self, hseq]
    rfl
  · rw [Memory.latest_store_of_ne (by simp)]
    exact hword i

/-- The odd counter is released. -/
theorem releaseRaised (h : SeqlockWriterInvariant s earlier) {value : T} {before : SeqlockWord}
    (hraised : s.writer = .raised value before) (next : T) (lag : Nat) :
    SeqlockWriterInvariant (s.store next lag) earlier := by
  have hstores := h.stores_eq
  have hseq := h.latest_seq
  have hword := h.latest_word
  have hknows := h.knows
  rw [hraised] at hstores hseq hword hknows
  simp only [SeqlockSystem.store, hraised]
  refine ⟨hstores, h.record, hseq, fun i => ?_, h.current,
    fun l => Nat.le_of_eq (h.current l), hknows.1, ?_⟩
  · rw [hword i]
    simp [SeqlockWriter.stored]
  · show 2 * earlier.length + 1 ≤ s.writerThread.current .seq
    rw [h.current, hseq]
    exact Nat.le_refl _

/-- One word is stored, or all are and are released. -/
theorem write (h : SeqlockWriterInvariant s earlier) {value : T} {before : SeqlockWord}
    {next : Nat} (hwriting : s.writer = .writing value before next) (called : T) (lag : Nat) :
    SeqlockWriterInvariant (s.store called lag) earlier := by
  have hstores := h.stores_eq
  have hseq := h.latest_seq
  have hword := h.latest_word
  have hknows := h.knows
  rw [hwriting] at hstores hseq hword hknows
  obtain ⟨hbefore, hraised⟩ := hknows
  simp only [SeqlockSystem.store, hwriting]
  split
  · rename_i hnext
    have hlatest : s.memory.latest (.word ⟨next, hnext⟩) = earlier.length := by
      rw [hword]
      exact if_neg (Nat.lt_irrefl _)
    refine ⟨hstores, ?_, ?_, fun i => ?_, h.current_afterStore, h.released_afterStore, hbefore,
      hraised⟩
    · refine h.record.storeWord _ ?_ h.released (by rw [hlatest]; exact hraised)
      rw [hlatest, hstores]
      simp [SeqlockWriter.storing]
    · rw [Memory.latest_store_of_ne (by simp)]
      exact hseq
    · have hi := hword i
      simp only [SeqlockWriter.stored] at hi ⊢
      by_cases hsame : i = ⟨next, hnext⟩
      · subst hsame
        rw [Memory.latest_store_self, hlatest, if_pos (Nat.lt_succ_self _)]
      · have hne : i.val ≠ next := fun heq => hsame (Fin.ext heq)
        rw [Memory.latest_store_of_ne (by simpa using hsame), hi]
        by_cases hlt : i.val < next
        · rw [if_pos hlt, if_pos (by omega)]
        · rw [if_neg hlt, if_neg (by omega)]
  · rename_i hlast
    have hall : ∀ i : Fin image.kWords, s.memory.latest (.word i) = earlier.length + 1 := by
      intro i
      have hlt := i.isLt
      rw [hword i]
      exact if_pos (by omega)
    refine ⟨hstores, h.record, hseq, hall, h.current, fun l => Nat.le_of_eq (h.current l), hbefore,
      fun i => ?_⟩
    show earlier.length + 1 ≤ s.writerThread.current (.word i)
    rw [h.current, hall i]

/-- The counter is made even again, and the store has returned. -/
theorem finish (h : SeqlockWriterInvariant s earlier) {value : T} {before : SeqlockWord}
    (hwritten : s.writer = .written value before) (next : T) (lag : Nat) :
    SeqlockWriterInvariant (s.store next lag) (earlier ++ [value]) := by
  have hstores := h.stores_eq
  have hseq := h.latest_seq
  have hword := h.latest_word
  have hknows := h.knows
  rw [hwritten] at hstores hseq hword hknows
  obtain ⟨rfl, hreleased⟩ := hknows
  have hseq : s.memory.latest .seq = 2 * earlier.length + 1 := hseq
  have hlength : (earlier ++ [value]).length = earlier.length + 1 := by simp
  have hlowered : BitVec.ofNat 64 (2 * earlier.length) + 2 =
      .ofNat 64 (s.memory.latest .seq + 1) := by
    rw [hseq, ← WrappingCounter.ofNat_add_one, ← WrappingCounter.ofNat_add_one, BitVec.add_assoc]
    rfl
  simp only [SeqlockSystem.store, hwritten]
  refine ⟨?_, ?_, ?_, fun i => ?_, h.current_afterStore, h.released_afterStore, fun i => ?_⟩
  · rw [hstores]
    exact (List.append_nil _).symm
  · rw [hlowered]
    refine h.record.storeSeq h.released fun i => ?_
    have hi := hreleased i
    omega
  · rw [Memory.latest_store_self, hseq]
    show _ = 2 * (earlier ++ [value]).length
    omega
  · rw [Memory.latest_store_of_ne (by simp), hword i]
    exact hlength.symm
  · rw [hlength]
    exact hreleased i

/-- A look at the counter reads its place. -/
theorem valueFound_seq (h : SeqlockWriterInvariant s earlier)
    (thread : Thread (SeqlockCell image.kWords)) (lag : Nat) :
    s.memory.valueFound thread .seq lag = .ofNat 64 (s.memory.found thread .seq lag) :=
  h.record.seq_value _ (Memory.found_le_latest lag)

/-- The counter has not passed twice the stores that have begun. -/
theorem counter_le (h : SeqlockWriterInvariant s earlier) :
    s.memory.latest .seq ≤ 2 * s.stores.length := by
  rw [h.latest_seq, h.stores_eq, List.length_append]
  cases s.writer with
  | idle => exact Nat.le_refl _
  | loaded => exact Nat.mul_le_mul_left 2 (Nat.le_succ _)
  | raised | writing | written => exact Nat.le_succ _

/-- The counter is at most one ahead of the stores that have returned. -/
theorem counter_le_returned (h : SeqlockWriterInvariant s earlier) :
    s.memory.latest .seq ≤ 2 * earlier.length + 1 := by
  rw [h.latest_seq]
  cases s.writer with
  | idle | loaded => exact Nat.le_succ _
  | raised | writing | written => exact Nat.le_refl _

/-- Every access of the writer keeps the invariant. -/
theorem step (h : SeqlockWriterInvariant s earlier) (value : T) (lag : Nat) :
    ∃ earlier', SeqlockWriterInvariant (s.store value lag) earlier' := by
  cases hwriter : s.writer with
  | idle => exact ⟨earlier, h.call hwriter value lag⟩
  | loaded => exact ⟨earlier, h.raise hwriter value lag⟩
  | raised => exact ⟨earlier, h.releaseRaised hwriter value lag⟩
  | writing => exact ⟨earlier, h.write hwriter value lag⟩
  | written stored => exact ⟨earlier ++ [stored], h.finish hwriter value lag⟩

end SeqlockWriterInvariant

/-- What the writer's accesses leave alone: they add to the memory and to the stores. -/
structure SeqlockWriterStep (s s' : SeqlockSystem R image) : Prop where
  memory : s'.memory = s.memory ∨
    ∃ thread cell word, s'.memory = s.memory.store thread cell word
  stores : ∃ more, more.length ≤ 1 ∧ s'.stores = s.stores ++ more
  readerThread : s'.readerThread = s.readerThread
  reader : s'.reader = s.reader
  seen : s'.seen = s.seen

/-- What the accesses of the reader `r` leave alone. -/
structure SeqlockReaderStep (r : R) (s s' : SeqlockSystem R image) : Prop where
  memory : s'.memory = s.memory
  writerThread : s'.writerThread = s.writerThread
  writer : s'.writer = s.writer
  stores : s'.stores = s.stores
  others : ∀ r' ≠ r, s'.readerThread r' = s.readerThread r' ∧ s'.reader r' = s.reader r' ∧
    s'.seen r' = s.seen r'

theorem SeqlockWriterStep.store (s : SeqlockSystem R image) (value : T) (lag : Nat) :
    SeqlockWriterStep s (s.store value lag) := by
  cases hwriter : s.writer with
  | idle =>
      simp only [SeqlockSystem.store, hwriter]
      exact ⟨.inl rfl, ⟨[value], Nat.le_refl _, rfl⟩, rfl, rfl, rfl⟩
  | loaded | written =>
      simp only [SeqlockSystem.store, hwriter]
      exact ⟨.inr ⟨_, _, _, rfl⟩, ⟨[], Nat.zero_le _, (List.append_nil _).symm⟩, rfl, rfl, rfl⟩
  | raised =>
      simp only [SeqlockSystem.store, hwriter]
      exact ⟨.inl rfl, ⟨[], Nat.zero_le _, (List.append_nil _).symm⟩, rfl, rfl, rfl⟩
  | writing _ _ next =>
      simp only [SeqlockSystem.store, hwriter]
      split
      · exact ⟨.inr ⟨_, _, _, rfl⟩, ⟨[], Nat.zero_le _, (List.append_nil _).symm⟩, rfl, rfl, rfl⟩
      · exact ⟨.inl rfl, ⟨[], Nat.zero_le _, (List.append_nil _).symm⟩, rfl, rfl, rfl⟩

namespace SeqlockReaderStep

variable {s s' s'' : SeqlockSystem R image} {r : R}

theorem refl (s : SeqlockSystem R image) : SeqlockReaderStep r s s :=
  ⟨rfl, rfl, rfl, rfl, fun _ _ => ⟨rfl, rfl, rfl⟩⟩

theorem trans (h : SeqlockReaderStep r s s') (h' : SeqlockReaderStep r s' s'') :
    SeqlockReaderStep r s s'' where
  memory := h'.memory.trans h.memory
  writerThread := h'.writerThread.trans h.writerThread
  writer := h'.writer.trans h.writer
  stores := h'.stores.trans h.stores
  others r' hne := by
    obtain ⟨hthread, hreader, hseen⟩ := h.others r' hne
    obtain ⟨hthread', hreader', hseen'⟩ := h'.others r' hne
    exact ⟨hthread'.trans hthread, hreader'.trans hreader, hseen'.trans hseen⟩

variable [DecidableEq R]

theorem moveReader (thread : Thread (SeqlockCell image.kWords)) (next : SeqlockReader) :
    SeqlockReaderStep r s (s.moveReader r thread next) :=
  ⟨rfl, rfl, rfl, rfl, fun _ hne =>
    ⟨Function.update_of_ne hne _ _, Function.update_of_ne hne _ _, rfl⟩⟩

theorem giveBack (seen : SeqlockSeen T) : SeqlockReaderStep r s (s.giveBack r seen) :=
  ⟨rfl, rfl, rfl, rfl, fun _ hne => ⟨rfl, rfl, Function.update_of_ne hne _ _⟩⟩

theorem retry (thread : Thread (SeqlockCell image.kWords)) (left : Nat) :
    SeqlockReaderStep r s (s.retry r thread left) := by
  cases left with
  | zero => exact (moveReader thread .idle).trans (giveBack _)
  | succ left => exact moveReader thread _

theorem load (maxTries lag : Nat) : SeqlockReaderStep r s (s.load r maxTries lag) := by
  cases hreader : s.reader r with
  | idle =>
      simp only [SeqlockSystem.load, hreader]
      exact retry _ _
  | trying left =>
      simp only [SeqlockSystem.load, hreader]
      split
      · exact retry _ _
      · exact moveReader _ _
  | sampled left before =>
      simp only [SeqlockSystem.load, hreader]
      exact moveReader _ _
  | copying left before dst =>
      simp only [SeqlockSystem.load, hreader]
      split
      · exact moveReader _ _
      · exact moveReader _ _
  | copied left before dst =>
      simp only [SeqlockSystem.load, hreader]
      split
      · exact (moveReader _ _).trans (giveBack _)
      · exact retry _ _

theorem version (lag : Nat) : SeqlockReaderStep r s (s.version r lag) := by
  cases hreader : s.reader r with
  | idle =>
      simp only [SeqlockSystem.version, hreader]
      exact (moveReader _ _).trans (giveBack _)
  | trying | sampled | copying | copied =>
      simp only [SeqlockSystem.version, hreader]
      exact refl s

end SeqlockReaderStep

/-- Accesses of a reader leave the writer as it is. -/
theorem SeqlockWriterInvariant.readerStep {s s' : SeqlockSystem R image} {earlier : List T} {r : R}
    (h : SeqlockWriterInvariant s earlier) (hstep : SeqlockReaderStep r s s') :
    SeqlockWriterInvariant s' earlier := by
  obtain ⟨hmemory, hthread, hwriter, hstores, -⟩ := hstep
  refine ⟨?_, ?_, ?_, ?_, ?_, ?_, ?_⟩
  · rw [hstores, hwriter]
    exact h.stores_eq
  · rw [hmemory, hstores]
    exact h.record
  · rw [hmemory, hwriter]
    exact h.latest_seq
  · rw [hmemory, hwriter]
    exact h.latest_word
  · rw [hmemory, hthread]
    exact h.current
  · rw [hmemory, hthread]
    exact h.released
  · rw [hthread, hwriter]
    exact h.knows

theorem SeqlockSystem.completed_eq {s : SeqlockSystem R image} {earlier : List T}
    (h : SeqlockWriterInvariant s earlier) : s.completed = earlier.length := by
  have hstores := congrArg List.length h.stores_eq
  rw [List.length_append] at hstores
  cases hwriter : s.writer <;>
    simp only [hwriter, SeqlockWriter.storing, List.length_nil, List.length_singleton,
      completed] at hstores ⊢ <;>
    omega

/-- The writer's invariant holds wherever a schedule arrives. -/
theorem SeqlockWriterInvariant.run [DecidableEq R] (accesses : List (SeqlockAccess R T)) :
    ∃ earlier, SeqlockWriterInvariant
      (Machine.run SeqlockSystem.step accesses (.init : SeqlockSystem R image)) earlier := by
  refine Machine.invariant_run_always (I := fun s => ∃ earlier, SeqlockWriterInvariant s earlier)
    (fun access s h => ?_) accesses ⟨[], .init⟩
  obtain ⟨earlier, hwriter⟩ := h
  cases access with
  | store value lag => exact hwriter.step value lag
  | load r maxTries lag => exact ⟨earlier, hwriter.readerStep (.load (r := r) maxTries lag)⟩
  | version r lag => exact ⟨earlier, hwriter.readerStep (.version (r := r) lag)⟩

end MmEngine
