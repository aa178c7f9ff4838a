/-
# The snapshot lock never waits

No access of the writer looks at a reader, so the writer's side of a run is that of its own
accesses alone, and a store returns after a number of them that the payload fixes. A reader
can be kept waiting by the writer only: once the writer rests and its last values are
found, the first try of a load succeeds.
-/

import MmEngine.Common.SeqlockWriter

universe u v

namespace MmEngine

open Views

variable {R : Type v} {T : Type u} {image : SeqlockImage T}

namespace SeqlockSystem

/-- The two systems do not differ on the writer's side. -/
structure SameWriter (s t : SeqlockSystem R image) : Prop where
  memory : s.memory = t.memory
  writerThread : s.writerThread = t.writerThread
  writer : s.writer = t.writer
  stores : s.stores = t.stores

theorem SameWriter.store {s t : SeqlockSystem R image} (h : SameWriter s t) (value : T)
    (lag : Nat) : SameWriter (s.store value lag) (t.store value lag) := by
  obtain ⟨hmemory, hthread, hwriter, hstores⟩ := h
  cases ht : t.writer with
  | idle | loaded | raised | written =>
      rw [ht] at hwriter
      simp only [SeqlockSystem.store, hwriter, ht, hmemory, hthread, hstores]
      exact ⟨rfl, rfl, rfl, rfl⟩
  | writing value before next =>
      rw [ht] at hwriter
      simp only [SeqlockSystem.store, hwriter, ht]
      split
      · simp only [hmemory, hthread, hstores]
        exact ⟨rfl, rfl, rfl, rfl⟩
      · simp only [hmemory, hthread, hstores]
        exact ⟨rfl, rfl, rfl, rfl⟩

theorem SameWriter.readerStep {s s' t : SeqlockSystem R image} {r : R} (h : SameWriter s t)
    (hstep : SeqlockReaderStep r s s') : SameWriter s' t :=
  ⟨hstep.memory.trans h.memory, hstep.writerThread.trans h.writerThread,
    hstep.writer.trans h.writer, hstep.stores.trans h.stores⟩

/-- Each access brings a store that has begun one nearer to its return. -/
theorem left_store {s : SeqlockSystem R image} {left : Nat}
    (hleft : s.writer.left image.kWords = left + 1) (value : T) (lag : Nat) :
    (s.store value lag).writer.left image.kWords = left ∧
      (s.store value lag).stores = s.stores := by
  cases hwriter : s.writer with
  | idle =>
      rw [hwriter] at hleft
      exact absurd hleft (by simp [SeqlockWriter.left])
  | loaded | raised | written =>
      rw [hwriter] at hleft
      simp only [SeqlockWriter.left] at hleft
      simp only [SeqlockSystem.store, hwriter, SeqlockWriter.left, and_true]
      omega
  | writing value before next =>
      rw [hwriter] at hleft
      simp only [SeqlockWriter.left] at hleft
      simp only [SeqlockSystem.store, hwriter]
      split
      · simp only [SeqlockWriter.left, and_true]
        omega
      · simp only [SeqlockWriter.left, and_true]
        omega

theorem left_le (writer : SeqlockWriter T) : writer.left image.kWords ≤ image.kWords + 4 := by
  cases writer <;> simp only [SeqlockWriter.left] <;> omega

theorem idle_of_left {writer : SeqlockWriter T} (hleft : writer.left image.kWords = 0) :
    writer = .idle := by
  cases writer with
  | idle => rfl
  | loaded | raised | writing | written => exact absurd hleft (by simp [SeqlockWriter.left])

section Runs

variable [DecidableEq R]

/-- The writer's side of a run is that of the writer's accesses alone. -/
theorem sameWriter_run (accesses : List (SeqlockAccess R T)) {s t : SeqlockSystem R image}
    (h : SameWriter s t) :
    SameWriter (Machine.run step accesses s)
      (Machine.run step (accesses.filter SeqlockAccess.isStore) t) := by
  induction accesses generalizing s t with
  | nil => exact h
  | cons access accesses ih =>
      cases access with
      | store value lag => exact ih (h.store value lag)
      | load r maxTries lag => exact ih (h.readerStep (.load maxTries lag))
      | version r lag => exact ih (h.readerStep (.version lag))

/-- What a store still has to do is done in as many accesses of the writer. -/
theorem left_run (accesses : List (SeqlockAccess R T)) {s : SeqlockSystem R image}
    (hstores : ∀ access ∈ accesses, access.isStore = true)
    (hleft : s.writer.left image.kWords = accesses.length) :
    (Machine.run step accesses s).writer = .idle ∧
      (Machine.run step accesses s).stores = s.stores := by
  induction accesses generalizing s with
  | nil => exact ⟨idle_of_left hleft, rfl⟩
  | cons access accesses ih =>
      cases access with
      | store value lag =>
          obtain ⟨hnext, hsame⟩ := left_store hleft value lag
          have hrest := ih (s := s.store value lag)
            (fun access haccess => hstores access (List.mem_cons_of_mem _ haccess)) hnext
          exact ⟨hrest.1, hrest.2.trans hsame⟩
      | load | version =>
          exact absurd (hstores _ List.mem_cons_self) (by simp [SeqlockAccess.isStore])

/-- Whatever the readers do, the memory and the writer are where the writer's accesses alone
would have taken them, and a store that has begun returns within four accesses more than
the payload has words. -/
theorem store_waits_for_nobody (accesses : List (SeqlockAccess R T)) (s : SeqlockSystem R image) :
    let alone := accesses.filter SeqlockAccess.isStore
    (Machine.run step accesses s).memory = (Machine.run step alone s).memory ∧
      (Machine.run step accesses s).stores = (Machine.run step alone s).stores ∧
      s.writer.left image.kWords ≤ image.kWords + 4 ∧
      (alone.length = s.writer.left image.kWords →
        (Machine.run step accesses s).writer = .idle ∧
          (Machine.run step accesses s).stores = s.stores) := by
  intro alone
  have hsame := sameWriter_run accesses (s := s) ⟨rfl, rfl, rfl, rfl⟩
  refine ⟨hsame.memory, hsame.stores, left_le s.writer, fun hleft => ?_⟩
  have hreturned := left_run alone (fun access haccess => (List.mem_filter.mp haccess).2) hleft.symm
  exact ⟨hsame.writer.trans hreturned.1, hsame.stores.trans hreturned.2⟩

end Runs

/-- The writer is in no store, and the histories end with the last one. -/
structure Resting (s : SeqlockSystem R image) : Prop where
  record : SeqlockRecord image s.memory s.stores
  latest_seq : s.memory.latest .seq = 2 * s.stores.length
  latest_word : ∀ i, s.memory.latest (.word i) = s.stores.length

theorem Resting.of_idle {s : SeqlockSystem R image} {earlier : List T}
    (h : SeqlockWriterInvariant s earlier) (hidle : s.writer = .idle) : s.Resting := by
  have hstores := h.stores_eq
  have hseq := h.latest_seq
  have hword := h.latest_word
  rw [hidle] at hstores hseq hword
  simp only [SeqlockWriter.storing, List.append_nil] at hstores
  rw [← hstores] at hseq hword
  exact ⟨h.record, hseq, hword⟩

/-- A look at the counter that finds its last value. -/
theorem Resting.valueFound_seq {s : SeqlockSystem R image} (h : s.Resting) {lag : Nat}
    (hlag : 2 * s.stores.length ≤ lag) (thread : Thread (SeqlockCell image.kWords)) :
    s.memory.valueFound thread .seq lag = .ofNat 64 (2 * s.stores.length) := by
  have hlatest := h.latest_seq
  rw [Memory.valueFound, Memory.found_of_latest_le (by omega), hlatest,
    h.record.seq_value _ (Nat.le_of_eq hlatest.symm)]

/-- The words a load has copied are the first ones of the last payload. -/
def CopiesLast (s : SeqlockSystem R image) (dst : List SeqlockWord) : Prop :=
  ∀ i : Fin image.kWords, ∀ word, dst[i.val]? = some word →
    word = image.wordAt s.stores s.stores.length i

/-- A load that began in `s` has brought the reader to `reader` and given nothing back yet. -/
structure Reaches (s : SeqlockSystem R image) (r : R) (t : SeqlockSystem R image)
    (reader : SeqlockReader) : Prop where
  step : SeqlockReaderStep r s t
  reader_eq : t.reader r = reader
  seen_eq : t.seen r = s.seen r

variable [DecidableEq R] {s t : SeqlockSystem R image} {r : R} {tries maxTries lag : Nat}

theorem Reaches.moveReader {reader next : SeqlockReader} (h : s.Reaches r t reader)
    (thread : Thread (SeqlockCell image.kWords)) :
    s.Reaches r (t.moveReader r thread next) next where
  step := h.step.trans (.moveReader thread next)
  reader_eq := Function.update_self _ _ _
  seen_eq := h.seen_eq

theorem reaches_trying (hidle : s.reader r = .idle) :
    s.Reaches r (s.load r (tries + 1) lag) (.trying tries) := by
  simp only [load, hidle, retry]
  exact Reaches.moveReader ⟨.refl s, hidle, rfl⟩ _

/-- The counter that rests is even. -/
theorem Reaches.sample (h : s.Reaches r t (.trying tries)) (hresting : s.Resting)
    (hlag : 2 * s.stores.length ≤ lag) :
    s.Reaches r (t.load r maxTries lag)
      (.sampled tries (.ofNat 64 (2 * s.stores.length))) := by
  have heven : BitVec.ofNat 64 (2 * s.stores.length) &&& 1 = 0 := by
    have hmask : (BitVec.ofNat 64 (2 * s.stores.length) &&& 1).toNat = 2 * s.stores.length % 2 :=
      WrappingCounter.toNat_and_one (by decide)
    rw [Nat.mul_mod_right] at hmask
    exact BitVec.eq_of_toNat_eq hmask
  simp only [load, h.reader_eq, h.step.memory, hresting.valueFound_seq hlag, heven, ne_eq,
    not_true_eq_false, if_false]
  exact h.moveReader _

theorem Reaches.fence {before : SeqlockWord} (h : s.Reaches r t (.sampled tries before)) :
    s.Reaches r (t.load r maxTries lag) (.copying tries before []) := by
  simp only [load, h.reader_eq]
  exact h.moveReader _

/-- One more word of the last payload. -/
theorem Reaches.copy {before : SeqlockWord} {dst : List SeqlockWord}
    (h : s.Reaches r t (.copying tries before dst)) (hresting : s.Resting)
    (hlag : s.stores.length ≤ lag) (hcopies : s.CopiesLast dst) (hlt : dst.length < image.kWords) :
    ∃ word, s.CopiesLast (dst ++ [word]) ∧
      s.Reaches r (t.load r maxTries lag) (.copying tries before (dst ++ [word])) := by
  refine ⟨s.memory.valueFound (t.readerThread r) (.word ⟨dst.length, hlt⟩) lag, ?_, ?_⟩
  · intro i word hword
    rcases Nat.lt_trichotomy i.val dst.length with hbefore | hlast | hafter
    · rw [List.getElem?_append_left hbefore] at hword
      exact hcopies i word hword
    · have hi : i = ⟨dst.length, hlt⟩ := Fin.ext hlast
      rw [hlast, List.getElem?_concat_length, Option.some.injEq] at hword
      have hlatest := hresting.latest_word ⟨dst.length, hlt⟩
      rw [← hword, hi, Memory.valueFound, Memory.found_of_latest_le (hlatest ▸ hlag),
        hresting.record.word_value _ _ (Nat.le_refl _), hlatest]
    · rw [List.getElem?_eq_none (by rw [List.length_append]; exact hafter)] at hword
      exact absurd hword (by simp)
  · simp only [load, h.reader_eq, hlt, dite_true, h.step.memory]
    exact h.moveReader _

/-- The accesses of one load and of nothing else. -/
def loads (r : R) (maxTries lag count : Nat) : List (SeqlockAccess R T) :=
  List.replicate count (.load r maxTries lag)

theorem run_loads_succ (count : Nat) :
    Machine.run step (loads r maxTries lag (count + 1)) s =
      (Machine.run step (loads r maxTries lag count) s).load r maxTries lag := by
  rw [loads, List.replicate_succ', Machine.run_concat]
  rfl

/-- The words are copied one after the other. -/
theorem Reaches.copyAll {before : SeqlockWord} (h : s.Reaches r t (.copying tries before []))
    (hresting : s.Resting) (hlag : s.stores.length ≤ lag) {count : Nat}
    (hcount : count ≤ image.kWords) :
    ∃ dst, dst.length = count ∧ s.CopiesLast dst ∧
      s.Reaches r (Machine.run SeqlockSystem.step (loads r maxTries lag count) t)
        (.copying tries before dst) := by
  induction count with
  | zero => exact ⟨[], rfl, fun _ _ hword => absurd hword (by simp), h⟩
  | succ count ih =>
      obtain ⟨dst, hlength, hcopies, hreaches⟩ := ih (by omega)
      obtain ⟨word, hmore, hnext⟩ :=
        hreaches.copy hresting hlag hcopies (by omega)
      refine ⟨dst ++ [word], by simp [hlength], hmore, ?_⟩
      rw [run_loads_succ]
      exact hnext

theorem Reaches.fenceCopied {before : SeqlockWord} {dst : List SeqlockWord}
    (h : s.Reaches r t (.copying tries before dst)) (hlength : dst.length = image.kWords) :
    s.Reaches r (t.load r maxTries lag) (.copied tries before dst) := by
  simp only [load, h.reader_eq, hlength, Nat.lt_irrefl, dite_false]
  exact h.moveReader _

/-- The second look finds the counter unchanged, and the copy is given back. -/
theorem Reaches.confirm {dst : List SeqlockWord}
    (h : s.Reaches r t (.copied tries (.ofNat 64 (2 * s.stores.length)) dst))
    (hresting : s.Resting) (hlag : 2 * s.stores.length ≤ lag)
    (hlength : dst.length = image.kWords) (hcopies : s.CopiesLast dst) :
    (t.load r maxTries lag).seen r = s.seen r ++ [.loaded (s.published s.stores.length)] := by
  have hpayload : copyOut image dst = s.published s.stores.length := by
    rw [← SeqlockRecord.published_eq _ (Nat.le_refl _), copyOut]
    congr 1
    funext i
    have hlt : i.val < dst.length := by
      rw [hlength]
      exact i.isLt
    rw [List.getD_eq_getElem?_getD, List.getElem?_eq_getElem hlt, Option.getD_some]
    exact hcopies i _ (List.getElem?_eq_getElem hlt)
  simp only [load, h.reader_eq, h.step.memory, hresting.valueFound_seq hlag, if_true, giveBack,
    Function.update_self, hpayload]
  exact congrArg (· ++ _) h.seen_eq

/-- While the writer rests, a load that finds the last values gives back the payload of the
last store in its first try, after five accesses more than the payload has words. -/
theorem load_at_rest (accesses : List (SeqlockAccess R T)) (r : R) (tries lag : Nat) :
    let s := Machine.run step accesses (init : SeqlockSystem R image)
    s.writer = .idle → s.reader r = .idle → 2 * s.stores.length ≤ lag →
      (Machine.run step (loads r (tries + 1) lag (image.kWords + 5)) s).seen r =
        s.seen r ++ [.loaded (s.published s.stores.length)] := by
  intro s hwriter hreader hlag
  obtain ⟨earlier, hinvariant⟩ : ∃ earlier, SeqlockWriterInvariant s earlier :=
    SeqlockWriterInvariant.run accesses
  have hresting := Resting.of_idle hinvariant hwriter
  have hcalled : s.Reaches r (Machine.run step (loads r (tries + 1) lag 3) s)
      (.copying tries (.ofNat 64 (2 * s.stores.length)) []) :=
    ((reaches_trying hreader).sample hresting hlag).fence
  have hbehind : s.stores.length ≤ lag := by omega
  obtain ⟨dst, hlength, hcopies, hcopied⟩ := hcalled.copyAll hresting hbehind (Nat.le_refl _)
  have hsplit : loads (T := T) r (tries + 1) lag (image.kWords + 3) =
      loads r (tries + 1) lag 3 ++ loads r (tries + 1) lag image.kWords := by
    rw [loads, loads, loads, ← List.replicate_add, Nat.add_comm]
  rw [run_loads_succ, run_loads_succ, hsplit, Machine.run_append]
  exact (hcopied.fenceCopied hlength).confirm hresting hlag hlength hcopies

/-- The second of two stores, read at rest. -/
theorem load_at_rest_twice_stored :
    let s := Machine.run step (List.replicate 14 (.store (5, 6) 0))
      (init : SeqlockSystem Bool .wordPair)
    (Machine.run step (loads true 16 4 7) s).seen true =
      s.seen true ++ [.loaded (s.published s.stores.length)] :=
  load_at_rest _ true 15 4 rfl rfl (Nat.le_refl 4)

end SeqlockSystem

end MmEngine
