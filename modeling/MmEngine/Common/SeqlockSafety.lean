/-
# A reader never gets a torn or an older snapshot

A copy of words that are too new shows in the second look at the counter, since each of
them carries the counter that was raised for it, and words that are too old cannot be found
after the first. What a reader knows is kept by its own accesses, and neither the writer nor
another reader takes anything of it away.
-/

import MmEngine.Common.SeqlockWriter
import Mathlib.Data.List.Forall2

universe u v

namespace MmEngine

open Views

variable {R : Type v} {T : Type u} {image : SeqlockImage T}

/-- Each copied word is one of those stored since `count` stores had returned, and the view
reaches the counter that was raised for it. -/
def SeqlockCopied {kWords : Nat} (memory : Memory (SeqlockCell kWords) SeqlockWord)
    (seqSeen count : Nat) (dst : List SeqlockWord) : Prop :=
  ∀ i : Fin kWords, ∀ word, dst[i.val]? = some word →
    ∃ t, count ≤ t ∧ t ≤ memory.latest (.word i) ∧ word = (memory.message (.word i) t).value ∧
      2 * t ≤ seqSeen + 1

/-- What a reader knows in a load, having got nothing newer than `floor` stores before. -/
def SeqlockReader.Knows (memory : Memory (SeqlockCell image.kWords) SeqlockWord)
    (thread : Thread (SeqlockCell image.kWords)) (floor : Nat) : SeqlockReader → Prop
  | .idle | .trying _ => True
  | .sampled _ before => ∃ count, floor ≤ count ∧ before = .ofNat 64 (2 * count) ∧
      2 * count ≤ thread.current .seq ∧ ∀ i, count ≤ thread.acquired (.word i)
  | .copying _ before dst => ∃ count, floor ≤ count ∧ before = .ofNat 64 (2 * count) ∧
      2 * count ≤ thread.current .seq ∧ (∀ i, count ≤ thread.current (.word i)) ∧
      SeqlockCopied memory (thread.acquired .seq) count dst
  | .copied _ before dst => ∃ count, floor ≤ count ∧ before = .ofNat 64 (2 * count) ∧
      2 * count ≤ thread.current .seq ∧ image.kWords ≤ dst.length ∧
      SeqlockCopied memory (thread.current .seq) count dst

theorem SeqlockReader.Knows.idle {memory : Memory (SeqlockCell image.kWords) SeqlockWord}
    {thread : Thread (SeqlockCell image.kWords)} {floor : Nat} :
    SeqlockReader.idle.Knows memory thread floor := trivial

/-- A reader within the memory, with the numbers of stores behind what it got. While the
counter has not come round, they never go back. -/
structure SeqlockReaderInvariant (s : SeqlockSystem R image) (r : R) (floor : Nat) : Prop where
  within : (s.readerThread r).Within s.memory
  floor_le : 2 * floor ≤ (s.readerThread r).current .seq
  knows : (s.reader r).Knows s.memory (s.readerThread r) floor
  seen : s.stores.length < 2 ^ 63 → ∃ versions : List Nat,
    List.Forall₂ s.SeesVersion versions (s.seen r) ∧ versions.Pairwise (· ≤ ·) ∧
      ∀ version ∈ versions, version ≤ floor

namespace SeqlockCopied

variable {memory : Memory (SeqlockCell image.kWords) SeqlockWord}
  {thread : Thread (SeqlockCell image.kWords)} {seqSeen count : Nat} {dst : List SeqlockWord}

theorem nil : SeqlockCopied memory seqSeen count [] :=
  fun _ _ hword => absurd hword (by simp)

theorem mono (h : SeqlockCopied memory seqSeen count dst) {more : Nat}
    (hmore : seqSeen ≤ more) : SeqlockCopied memory more count dst := by
  intro i word hword
  obtain ⟨t, hcount, hlatest, hvalue, hraised⟩ := h i word hword
  exact ⟨t, hcount, hlatest, hvalue, by omega⟩

theorem store (h : SeqlockCopied memory seqSeen count dst)
    (cell : SeqlockCell image.kWords) (value : SeqlockWord) :
    SeqlockCopied (memory.store thread cell value) seqSeen count dst := by
  intro i word hword
  obtain ⟨t, hcount, hlatest, hvalue, hraised⟩ := h i word hword
  refine ⟨t, hcount, Nat.le_trans hlatest (Memory.latest_le_store _), ?_, hraised⟩
  rw [Memory.message_store_old hlatest, hvalue]

/-- A word copied behind the fence is not older than the counter, and shows how far the
counter was raised for it. -/
theorem concat (h : SeqlockCopied memory (thread.acquired .seq) count dst)
    {payloads : List T} (hrecord : SeqlockRecord image memory payloads)
    (hwithin : thread.Within memory) (hlt : dst.length < image.kWords)
    (hcount : ∀ i, count ≤ thread.current (.word i)) (lag : Nat) :
    SeqlockCopied memory
      ((thread.afterLoad memory (.word ⟨dst.length, hlt⟩) lag).acquired .seq) count
      (dst ++ [memory.valueFound thread (.word ⟨dst.length, hlt⟩) lag]) := by
  intro i word hword
  rcases Nat.lt_trichotomy i.val dst.length with hbefore | hlast | hafter
  · rw [List.getElem?_append_left hbefore] at hword
    exact h.mono (Thread.le_acquired_afterLoad lag _) i word hword
  · have hi : i = ⟨dst.length, hlt⟩ := Fin.ext hlast
    rw [hlast, List.getElem?_concat_length, Option.some.injEq] at hword
    subst hi
    have hpromise := hrecord.keeps.le_acquired (p := thread) (l := .word ⟨dst.length, hlt⟩) lag .seq
    simp only [seqlockPromise] at hpromise
    refine ⟨memory.found thread (.word ⟨dst.length, hlt⟩) lag, ?_, Memory.found_le_latest lag,
      hword.symm, by omega⟩
    exact Nat.le_trans (hcount _) (Memory.current_le_found (hwithin.current_le _) lag)
  · rw [List.getElem?_eq_none (by rw [List.length_append]; exact hafter)] at hword
    exact absurd hword (by simp)

end SeqlockCopied

namespace SeqlockReaderInvariant

variable {s : SeqlockSystem R image} {earlier : List T} {r : R} {floor : Nat}

theorem init (r : R) : SeqlockReaderInvariant (SeqlockSystem.init : SeqlockSystem R image) r 0 where
  within := Thread.within_init _
  floor_le := Nat.le_refl _
  knows := trivial
  seen _ := ⟨[], .nil, .nil, fun _ hmem => absurd hmem List.not_mem_nil⟩

variable [DecidableEq R]

theorem moveReader (h : SeqlockReaderInvariant s r floor)
    {thread : Thread (SeqlockCell image.kWords)} {next : SeqlockReader}
    (hwithin : thread.Within s.memory) (hfloor : 2 * floor ≤ thread.current .seq)
    (hknows : next.Knows s.memory thread floor) :
    SeqlockReaderInvariant (s.moveReader r thread next) r floor where
  within := by
    simp only [SeqlockSystem.moveReader, Function.update_self]
    exact hwithin
  floor_le := by
    simp only [SeqlockSystem.moveReader, Function.update_self]
    exact hfloor
  knows := by
    simp only [SeqlockSystem.moveReader, Function.update_self]
    exact hknows
  seen := h.seen

/-- What is given back is no older than what was before. -/
theorem giveBack (h : SeqlockReaderInvariant s r floor) (hidle : s.reader r = .idle)
    {seen : SeqlockSeen T} {floor' : Nat} (hle : floor ≤ floor')
    (hfloor : 2 * floor' ≤ (s.readerThread r).current .seq)
    (hsees : s.stores.length < 2 ^ 63 → s.SeesVersion floor' seen) :
    SeqlockReaderInvariant (s.giveBack r seen) r floor' where
  within := h.within
  floor_le := hfloor
  knows := by
    simp only [SeqlockSystem.giveBack, hidle]
    trivial
  seen hfits := by
    obtain ⟨versions, hall, hordered, hbound⟩ := h.seen hfits
    refine ⟨versions ++ [floor'], ?_, ?_, ?_⟩
    · simp only [SeqlockSystem.giveBack, Function.update_self]
      exact List.rel_append hall (.cons (hsees hfits) .nil)
    · rw [List.pairwise_append]
      refine ⟨hordered, List.pairwise_singleton _ _, fun version hversion last hlast => ?_⟩
      rw [List.mem_singleton.mp hlast]
      exact Nat.le_trans (hbound version hversion) hle
    · intro version hversion
      rcases List.mem_append.mp hversion with hold | hlast
      · exact Nat.le_trans (hbound version hold) hle
      · exact Nat.le_of_eq (List.mem_singleton.mp hlast)

/-- The next try, or the end of the call. -/
theorem retry (h : SeqlockReaderInvariant s r floor)
    {thread : Thread (SeqlockCell image.kWords)} (hwithin : thread.Within s.memory)
    (hfloor : 2 * floor ≤ thread.current .seq) (left : Nat) :
    SeqlockReaderInvariant (s.retry r thread left) r floor := by
  cases left with
  | zero =>
      refine (h.moveReader hwithin hfloor .idle).giveBack ?_ (Nat.le_refl _) ?_
        fun _ => trivial
      · simp only [SeqlockSystem.moveReader, Function.update_self]
      · simp only [SeqlockSystem.moveReader, Function.update_self]
        exact hfloor
  | succ left => exact h.moveReader hwithin hfloor trivial

/-- The first look at the counter. -/
theorem sample (h : SeqlockReaderInvariant s r floor)
    (hwriter : SeqlockWriterInvariant s earlier) {left : Nat} (htrying : s.reader r = .trying left)
    (maxTries lag : Nat) : SeqlockReaderInvariant (s.load r maxTries lag) r floor := by
  have hwithin := h.within.afterLoad (l := .seq) hwriter.record.closed lag
  have hgrow := Thread.le_afterLoad (m := s.memory) (p := s.readerThread r) (l := .seq) lag .seq
  have hfloor := h.floor_le
  simp only [SeqlockSystem.load, htrying, hwriter.valueFound_seq]
  split
  · exact h.retry hwithin (Nat.le_trans hfloor hgrow) left
  · rename_i heven
    have hparity : (BitVec.ofNat 64 (s.memory.found (s.readerThread r) .seq lag) &&& 1).toNat =
        s.memory.found (s.readerThread r) .seq lag % 2 := WrappingCounter.toNat_and_one (by decide)
    have hlow : (BitVec.ofNat 64 (s.memory.found (s.readerThread r) .seq lag) &&& 1).toNat = 0 := by
      rw [not_not.mp heven]
      rfl
    have heven : s.memory.found (s.readerThread r) .seq lag % 2 = 0 := hparity.symm.trans hlow
    have hcurrent := Memory.current_le_found (h.within.current_le .seq) lag
    have hfound := Thread.found_le_afterLoad (m := s.memory) (p := s.readerThread r) (l := .seq) lag
    have hhalf : 2 * (s.memory.found (s.readerThread r) .seq lag / 2) =
        s.memory.found (s.readerThread r) .seq lag := by omega
    refine h.moveReader hwithin (Nat.le_trans hfloor hgrow)
      ⟨s.memory.found (s.readerThread r) .seq lag / 2, by omega, by rw [hhalf], by omega,
        fun i => ?_⟩
    exact hwriter.record.keeps.le_acquired (l := .seq) lag (.word i)

/-- The second look at the counter. If it finds the same place, each word copied is the one
of the stores that the place counts. -/
theorem confirm (h : SeqlockReaderInvariant s r floor)
    (hwriter : SeqlockWriterInvariant s earlier) {left : Nat} {before : SeqlockWord}
    {dst : List SeqlockWord} (hcopied : s.reader r = .copied left before dst)
    (maxTries lag : Nat) : ∃ floor', SeqlockReaderInvariant (s.load r maxTries lag) r floor' := by
  have hwithin := h.within.afterLoad (l := .seq) hwriter.record.closed lag
  have hgrow := Thread.le_afterLoad (m := s.memory) (p := s.readerThread r) (l := .seq) lag .seq
  have hfloor := h.floor_le
  have hknows := h.knows
  rw [hcopied] at hknows
  obtain ⟨count, hcount, rfl, hseq, hlength, hwords⟩ := hknows
  simp only [SeqlockSystem.load, hcopied, hwriter.valueFound_seq]
  split
  · rename_i hsame
    refine ⟨count, ((h.moveReader hwithin (Nat.le_trans hfloor hgrow)
      .idle).giveBack ?_ hcount ?_ fun hfits => ?_)⟩
    · simp only [SeqlockSystem.moveReader, Function.update_self]
    · simp only [SeqlockSystem.moveReader, Function.update_self]
      exact Nat.le_trans hseq hgrow
    have hlatest := Memory.found_le_latest (m := s.memory) (p := s.readerThread r) (l := .seq) lag
    have hcurrent := Memory.current_le_found (h.within.current_le .seq) lag
    have hcounter := hwriter.counter_le
    have hfits : s.stores.length < 2 ^ 63 := hfits
    have hplace : 2 * count = s.memory.found (s.readerThread r) .seq lag :=
      (WrappingCounter.ofNat_eq_iff (by omega) (by omega)).mp hsame.symm
    show SeqlockSystem.copyOut image dst = s.published count
    rw [← SeqlockRecord.published_eq count (by omega), SeqlockSystem.copyOut]
    congr 1
    funext i
    have hlt : i.val < dst.length := Nat.lt_of_lt_of_le i.isLt hlength
    rw [List.getD_eq_getElem?_getD, List.getElem?_eq_getElem hlt, Option.getD_some]
    obtain ⟨t, hold, hword, hvalue, hraised⟩ :=
      hwords i dst[i.val] (List.getElem?_eq_getElem hlt)
    have ht : t = count := by omega
    rw [hvalue, hwriter.record.word_value i t hword, ht]
  · exact ⟨floor, h.retry hwithin (Nat.le_trans hfloor hgrow) left⟩

/-- Every access of a load keeps the invariant of its reader. -/
theorem load (h : SeqlockReaderInvariant s r floor) (hwriter : SeqlockWriterInvariant s earlier)
    (maxTries lag : Nat) : ∃ floor', SeqlockReaderInvariant (s.load r maxTries lag) r floor' := by
  have hknows := h.knows
  have hfloor := h.floor_le
  cases hreader : s.reader r with
  | idle =>
      refine ⟨floor, ?_⟩
      simp only [SeqlockSystem.load, hreader]
      exact h.retry h.within hfloor maxTries
  | trying left => exact ⟨floor, h.sample hwriter hreader maxTries lag⟩
  | sampled left before =>
      rw [hreader] at hknows
      obtain ⟨count, hcount, hbefore, hseq, hwords⟩ := hknows
      have hgrow := Thread.le_fenceAcquire (p := s.readerThread r) .seq
      refine ⟨floor, ?_⟩
      simp only [SeqlockSystem.load, hreader]
      refine h.moveReader h.within.fenceAcquire (Nat.le_trans hfloor hgrow)
        ⟨count, hcount, hbefore, Nat.le_trans hseq hgrow, fun i => ?_, .nil⟩
      exact Nat.le_trans (hwords i) (Thread.acquired_le_fenceAcquire _)
  | copying left before dst =>
      rw [hreader] at hknows
      obtain ⟨count, hcount, hbefore, hseq, hwords, hcopied⟩ := hknows
      refine ⟨floor, ?_⟩
      simp only [SeqlockSystem.load, hreader]
      split
      · rename_i hlt
        have hgrow := Thread.le_afterLoad (m := s.memory) (p := s.readerThread r)
          (l := .word ⟨dst.length, hlt⟩) lag
        refine h.moveReader (h.within.afterLoad hwriter.record.closed lag)
          (Nat.le_trans hfloor (hgrow .seq))
            ⟨count, hcount, hbefore, Nat.le_trans hseq (hgrow .seq),
            fun i => Nat.le_trans (hwords i) (hgrow (.word i)), ?_⟩
        exact hcopied.concat hwriter.record h.within hlt hwords lag
      · rename_i hall
        have hgrow := Thread.le_fenceAcquire (p := s.readerThread r) .seq
        exact h.moveReader h.within.fenceAcquire (Nat.le_trans hfloor hgrow)
          ⟨count, hcount, hbefore, Nat.le_trans hseq hgrow, Nat.le_of_not_lt hall,
            hcopied.mono (Thread.acquired_le_fenceAcquire _)⟩
  | copied left before dst => exact h.confirm hwriter hreader maxTries lag

/-- `version` reads how many stores a place of the counter counts. -/
theorem version (h : SeqlockReaderInvariant s r floor) (hwriter : SeqlockWriterInvariant s earlier)
    (lag : Nat) : ∃ floor', SeqlockReaderInvariant (s.version r lag) r floor' := by
  cases hreader : s.reader r with
  | idle =>
      have hwithin := h.within.afterLoadAcquire (l := .seq) hwriter.record.closed lag
      have hfound := Thread.found_le_afterLoadAcquire (m := s.memory) (p := s.readerThread r)
        (l := .seq) lag
      have hcurrent := Memory.current_le_found (h.within.current_le .seq) lag
      have hlatest := Memory.found_le_latest (m := s.memory) (p := s.readerThread r) (l := .seq) lag
      have hfloor := h.floor_le
      have hcounter := hwriter.counter_le
      refine ⟨s.memory.found (s.readerThread r) .seq lag / 2, ?_⟩
      simp only [SeqlockSystem.version, hreader, hwriter.valueFound_seq]
      refine (h.moveReader hwithin (by omega) .idle).giveBack ?_ (by omega) ?_
        fun hfits => ?_
      · simp only [SeqlockSystem.moveReader, Function.update_self]
      · simp only [SeqlockSystem.moveReader, Function.update_self]
        omega
      · have hfits : s.stores.length < 2 ^ 63 := hfits
        show (BitVec.ofNat 64 _ / 2).toNat = _
        rw [BitVec.toNat_udiv, BitVec.toNat_ofNat, Nat.mod_eq_of_lt (by omega)]
        rfl
  | trying | sampled | copying | copied =>
      refine ⟨floor, ?_⟩
      simp only [SeqlockSystem.version, hreader]
      exact h

end SeqlockReaderInvariant

/-! ## Runs -/

theorem SeqlockReader.Knows.store {memory : Memory (SeqlockCell image.kWords) SeqlockWord}
    {thread writer : Thread (SeqlockCell image.kWords)} {floor : Nat} {reader : SeqlockReader}
    (h : reader.Knows memory thread floor) (cell : SeqlockCell image.kWords) (word : SeqlockWord) :
    reader.Knows (memory.store writer cell word) thread floor := by
  cases reader with
  | idle | trying | sampled => exact h
  | copying left before dst =>
      obtain ⟨count, hcount, hbefore, hseq, hwords, hcopied⟩ := h
      exact ⟨count, hcount, hbefore, hseq, hwords, hcopied.store cell word⟩
  | copied left before dst =>
      obtain ⟨count, hcount, hbefore, hseq, hlength, hcopied⟩ := h
      exact ⟨count, hcount, hbefore, hseq, hlength, hcopied.store cell word⟩

/-- What a number of stores left is not changed by those that come after. -/
theorem SeqlockSystem.SeesVersion.append {s s' : SeqlockSystem R image} {count : Nat}
    {seen : SeqlockSeen T} {more : List T} (h : s.SeesVersion count seen)
    (hcount : count ≤ s.stores.length) (hmore : s'.stores = s.stores ++ more) :
    s'.SeesVersion count seen := by
  cases seen with
  | loaded value =>
      rw [SeesVersion] at h ⊢
      cases count with
      | zero => exact h
      | succ count =>
          have hlt : count < s.stores.length := hcount
          rw [h, published, published, hmore, List.getD_eq_getElem?_getD,
            List.getD_eq_getElem?_getD, List.getElem?_append_left hlt]
  | outrun | version => exact h

theorem SeqlockSystem.SeesVersion.congr {s s' : SeqlockSystem R image} {count : Nat}
    {seen : SeqlockSeen T} (h : s.SeesVersion count seen) (hstores : s'.stores = s.stores) :
    s'.SeesVersion count seen := by
  cases seen with
  | loaded value =>
      rw [SeesVersion] at h ⊢
      cases count with
      | zero => exact h
      | succ count => rw [h, published, published, hstores]
  | outrun | version => exact h

namespace SeqlockReaderInvariant

variable {s s' : SeqlockSystem R image} {earlier : List T} {r : R} {floor : Nat}

/-- What a reader has got was left by stores that have begun. -/
theorem floor_le_stores (h : SeqlockReaderInvariant s r floor)
    (hwriter : SeqlockWriterInvariant s earlier) : floor ≤ s.stores.length := by
  have hfloor := h.floor_le
  have hwithin := h.within.current_le .seq
  have hcounter := hwriter.counter_le
  omega

/-- What a reader knows stays true while the writer goes on. -/
theorem writerStep (h : SeqlockReaderInvariant s r floor)
    (hwriter : SeqlockWriterInvariant s earlier) (hstep : SeqlockWriterStep s s') :
    SeqlockReaderInvariant s' r floor := by
  obtain ⟨more, -, hmore⟩ := hstep.stores
  have hbound := h.floor_le_stores hwriter
  refine ⟨?_, ?_, ?_, fun hfits => ?_⟩
  · rw [hstep.readerThread]
    rcases hstep.memory with hmemory | ⟨thread, cell, word, hmemory⟩
    · rw [hmemory]
      exact h.within
    · rw [hmemory]
      exact h.within.store
  · rw [hstep.readerThread]
    exact h.floor_le
  · rw [hstep.readerThread, hstep.reader]
    rcases hstep.memory with hmemory | ⟨thread, cell, word, hmemory⟩
    · rw [hmemory]
      exact h.knows
    · rw [hmemory]
      exact h.knows.store cell word
  · rw [hmore, List.length_append] at hfits
    obtain ⟨versions, hall, hordered, hversions⟩ := h.seen (by omega)
    refine ⟨versions, ?_, hordered, hversions⟩
    rw [hstep.seen]
    refine ((List.forall₂_and_left _ _).mpr ⟨hversions, hall⟩).imp fun version seen hboth => ?_
    exact hboth.2.append (Nat.le_trans hboth.1 hbound) hmore

/-- A reader does not notice another one. -/
theorem otherStep (h : SeqlockReaderInvariant s r floor) {other : R} (hne : r ≠ other)
    (hstep : SeqlockReaderStep other s s') : SeqlockReaderInvariant s' r floor := by
  obtain ⟨hthread, hreader, hseen⟩ := hstep.others r hne
  refine ⟨?_, ?_, ?_, fun hfits => ?_⟩
  · rw [hthread, hstep.memory]
    exact h.within
  · rw [hthread]
    exact h.floor_le
  · rw [hthread, hreader, hstep.memory]
    exact h.knows
  · rw [hstep.stores] at hfits
    obtain ⟨versions, hall, hordered, hversions⟩ := h.seen hfits
    refine ⟨versions, ?_, hordered, hversions⟩
    rw [hseen]
    exact hall.imp fun version seen hsees => hsees.congr hstep.stores

end SeqlockReaderInvariant

/-- The memory, the writer and every reader. -/
structure SeqlockInvariant (s : SeqlockSystem R image) : Prop where
  writer : ∃ earlier, SeqlockWriterInvariant s earlier
  reader : ∀ r, ∃ floor, SeqlockReaderInvariant s r floor

namespace SeqlockInvariant

variable {s : SeqlockSystem R image}

theorem init : SeqlockInvariant (SeqlockSystem.init : SeqlockSystem R image) :=
  ⟨⟨[], .init⟩, fun r => ⟨0, .init r⟩⟩

variable [DecidableEq R]

/-- The reader that moves has to keep its own invariant; nobody else notices. -/
theorem readerStep {s' : SeqlockSystem R image} {r : R} (h : SeqlockInvariant s)
    (hstep : SeqlockReaderStep r s s') (hself : ∃ floor, SeqlockReaderInvariant s' r floor) :
    SeqlockInvariant s' := by
  obtain ⟨earlier, hwriter⟩ := h.writer
  refine ⟨⟨earlier, hwriter.readerStep hstep⟩, fun r' => ?_⟩
  by_cases hsame : r' = r
  · rw [hsame]
    exact hself
  · obtain ⟨floor, hreader⟩ := h.reader r'
    exact ⟨floor, hreader.otherStep hsame hstep⟩

theorem step (access : SeqlockAccess R T) (h : SeqlockInvariant s) :
    SeqlockInvariant (s.step access) := by
  obtain ⟨earlier, hwriter⟩ := h.writer
  cases access with
  | store value lag =>
      refine ⟨hwriter.step value lag, fun r => ?_⟩
      obtain ⟨floor, hreader⟩ := h.reader r
      exact ⟨floor, hreader.writerStep hwriter (.store s value lag)⟩
  | load r maxTries lag =>
      obtain ⟨floor, hreader⟩ := h.reader r
      exact h.readerStep (.load maxTries lag) (hreader.load hwriter maxTries lag)
  | version r lag =>
      obtain ⟨floor, hreader⟩ := h.reader r
      exact h.readerStep (.version lag) (hreader.version hwriter lag)

/-- The invariant holds wherever a schedule arrives. -/
theorem run (accesses : List (SeqlockAccess R T)) :
    SeqlockInvariant
      (Machine.run SeqlockSystem.step accesses (.init : SeqlockSystem R image)) :=
  Machine.invariant_run_always (fun access _ h => h.step access) accesses .init

end SeqlockInvariant

namespace SeqlockSystem

variable [DecidableEq R]

/-- A store begins with an access of the writer. -/
theorem length_stores_le (accesses : List (SeqlockAccess R T)) (s : SeqlockSystem R image) :
    (Machine.run step accesses s).stores.length ≤ s.stores.length + accesses.length := by
  induction accesses generalizing s with
  | nil => exact Nat.le_refl _
  | cons access accesses ih =>
      have hfirst : (step access s).stores.length ≤ s.stores.length + 1 := by
        cases access with
        | store value lag =>
            obtain ⟨more, hmore, hstores⟩ := (SeqlockWriterStep.store s value lag).stores
            rw [step, hstores, List.length_append]
            exact Nat.add_le_add_left hmore _
        | load r maxTries lag =>
            rw [step, (SeqlockReaderStep.load (s := s) (r := r) maxTries lag).stores]
            exact Nat.le_succ _
        | version r lag =>
            rw [step, (SeqlockReaderStep.version (s := s) (r := r) lag).stores]
            exact Nat.le_succ _
      have hrest := ih (step access s)
      rw [Machine.run_cons, List.length_cons]
      omega

/-- Under any schedule and whatever the loads find, what a reader is given back is, in
order, the lock as it was after never fewer stores: a payload is the whole payload of one
store that had returned, or the zeroed words when there was none. This holds until the
counter comes round. -/
theorem seen_in_order (accesses : List (SeqlockAccess R T)) (r : R) :
    let s := Machine.run step accesses (init : SeqlockSystem R image)
    s.stores.length < 2 ^ 63 →
      ∃ versions : List Nat, List.Forall₂ s.SeesVersion versions (s.seen r) ∧
        versions.Pairwise (· ≤ ·) ∧ ∀ version ∈ versions, version ≤ s.completed := by
  intro s hfits
  have hinvariant : SeqlockInvariant s := .run accesses
  obtain ⟨earlier, hwriter⟩ := hinvariant.writer
  obtain ⟨floor, hreader⟩ := hinvariant.reader r
  obtain ⟨versions, hall, hordered, hbound⟩ := hreader.seen hfits
  refine ⟨versions, hall, hordered, fun version hversion => ?_⟩
  have hfloor := hreader.floor_le
  have hwithin := hreader.within.current_le .seq
  have hcounter := hwriter.counter_le_returned
  have hversion := hbound version hversion
  rw [completed_eq hwriter]
  omega

/-- A store returns while one reader has copied half of the payload before it, and gets
all of it in the next try. -/
theorem seen_in_order_raced :
    let s := Machine.run step
      (List.replicate 7 (.store (3, 4) 0) ++ List.replicate 4 (.load true 2 0) ++
        List.replicate 7 (.store (5, 6) 0) ++ List.replicate 9 (.load true 2 9))
      (init : SeqlockSystem Bool .wordPair)
    ∃ versions : List Nat, List.Forall₂ s.SeesVersion versions (s.seen true) ∧
      versions.Pairwise (· ≤ ·) ∧ ∀ version ∈ versions, version ≤ s.completed :=
  seen_in_order _ true (Nat.lt_of_le_of_lt (length_stores_le _ _) (by decide))

end SeqlockSystem

end MmEngine
