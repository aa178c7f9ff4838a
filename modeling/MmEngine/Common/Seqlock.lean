/-
# The snapshot lock

One writer publishes a snapshot word by word between two steps of a counter. Any number of
readers copy the words between two looks at the counter and keep the copy when both looks
agree and show no write in progress.

Every access is relaxed, and what a reader may see of the writer follows from the fences
alone. A call is a sequence of accesses and fences, which interleave as a schedule says;
the schedule also chooses how far behind the last value a load stays. What the source does
not keep is a history: the values given to the writer, and what each reader got.
-/

import MmEngine.Lib.Machine
import MmEngine.Lib.Views

universe u v

namespace MmEngine

open Views

abbrev SeqlockWord := BitVec 64

/-- A payload as it is copied into words and back. -/
structure SeqlockImage (T : Type u) where
  kWords : Nat
  toWords : T → Fin kWords → SeqlockWord
  ofWords : (Fin kWords → SeqlockWord) → T
  ofWords_toWords : ∀ value, ofWords (toWords value) = value

/-- A payload of two words. -/
def SeqlockImage.wordPair : SeqlockImage (SeqlockWord × SeqlockWord) where
  kWords := 2
  toWords value i := if i.val = 0 then value.1 else value.2
  ofWords words := (words 0, words 1)
  ofWords_toWords _ := rfl

/-- A payload that is given as its words. -/
def SeqlockImage.words (kWords : Nat) : SeqlockImage (Fin kWords → SeqlockWord) where
  kWords := kWords
  toWords words := words
  ofWords words := words
  ofWords_toWords _ := rfl

/-- What the writer and the readers share. -/
inductive SeqlockCell (kWords : Nat)
  | seq
  | word (i : Fin kWords)
  deriving DecidableEq

/-- Where the writer stands in `store`. -/
inductive SeqlockWriter (T : Type u)
  | idle
  | loaded (value : T) (s : SeqlockWord)
  /-- The counter is odd. -/
  | raised (value : T) (s : SeqlockWord)
  /-- The words before `i` are stored. -/
  | writing (value : T) (s : SeqlockWord) (i : Nat)
  | written (value : T) (s : SeqlockWord)

/-- Where a reader stands in `load`, with the tries it has left after this one. -/
inductive SeqlockReader
  | idle
  | trying (left : Nat)
  | sampled (left : Nat) (before : SeqlockWord)
  | copying (left : Nat) (before : SeqlockWord) (dst : List SeqlockWord)
  | copied (left : Nat) (before : SeqlockWord) (dst : List SeqlockWord)

/-- What a reader was given back. -/
inductive SeqlockSeen (T : Type u)
  | loaded (value : T)
  /-- The writer outran the reader. -/
  | outrun
  | version (count : SeqlockWord)

/-- The next access of one of the threads. A thread that is idle is called first. -/
inductive SeqlockAccess (R : Type v) (T : Type u)
  | store (value : T) (lag : Nat)
  | load (reader : R) (maxTries : Nat) (lag : Nat)
  | version (reader : R) (lag : Nat)

/-- An access of the writer. -/
def SeqlockAccess.isStore {R : Type v} {T : Type u} : SeqlockAccess R T → Bool
  | .store _ _ => true
  | .load _ _ _ | .version _ _ => false

/-- The lock and its threads, with the history of what they did. -/
structure SeqlockSystem (R : Type v) {T : Type u} (image : SeqlockImage T) where
  memory : Memory (SeqlockCell image.kWords) SeqlockWord
  writerThread : Thread (SeqlockCell image.kWords) := {}
  writer : SeqlockWriter T := .idle
  readerThread : R → Thread (SeqlockCell image.kWords) := fun _ => {}
  reader : R → SeqlockReader := fun _ => .idle
  stores : List T := []
  seen : R → List (SeqlockSeen T) := fun _ => []

/-- The accesses that a store still makes before it returns. -/
def SeqlockWriter.left {T : Type u} (kWords : Nat) : SeqlockWriter T → Nat
  | .idle => 0
  | .loaded _ _ => kWords + 4
  | .raised _ _ => kWords + 3
  | .writing _ _ i => kWords - i + 2
  | .written _ _ => 1

namespace SeqlockSystem

variable {R : Type v} {T : Type u} {image : SeqlockImage T}

/-- The counter and all words are zero. -/
def init : SeqlockSystem R image where
  memory := .init fun _ => 0

/-- The next access of `store`; a writer that is idle is called with `value`. -/
def store (value : T) (lag : Nat) (s : SeqlockSystem R image) : SeqlockSystem R image :=
  match s.writer with
  | .idle =>
      { s with
        writerThread := s.writerThread.afterLoad s.memory .seq lag
        writer := .loaded value (s.memory.valueFound s.writerThread .seq lag)
        stores := s.stores ++ [value] }
  | .loaded value before =>
      { s with
        memory := s.memory.store s.writerThread .seq (before + 1)
        writerThread := s.writerThread.afterStore s.memory .seq
        writer := .raised value before }
  | .raised value before =>
      { s with writerThread := s.writerThread.fenceRelease, writer := .writing value before 0 }
  | .writing value before i =>
      if h : i < image.kWords then
        { s with
          memory := s.memory.store s.writerThread (.word ⟨i, h⟩) (image.toWords value ⟨i, h⟩)
          writerThread := s.writerThread.afterStore s.memory (.word ⟨i, h⟩)
          writer := .writing value before (i + 1) }
      else { s with writerThread := s.writerThread.fenceRelease, writer := .written value before }
  | .written _ before =>
      { s with
        memory := s.memory.store s.writerThread .seq (before + 2)
        writerThread := s.writerThread.afterStore s.memory .seq
        writer := .idle }

section Readers

variable [DecidableEq R]

/-- The system after a move of a reader. -/
def moveReader (s : SeqlockSystem R image) (r : R) (thread : Thread (SeqlockCell image.kWords))
    (next : SeqlockReader) : SeqlockSystem R image :=
  { s with
    readerThread := Function.update s.readerThread r thread
    reader := Function.update s.reader r next }

/-- The system after a reader was given something back. -/
def giveBack (s : SeqlockSystem R image) (r : R) (seen : SeqlockSeen T) : SeqlockSystem R image :=
  { s with seen := Function.update s.seen r (s.seen r ++ [seen]) }

/-- The next try of a reader, if one is left. -/
def retry (s : SeqlockSystem R image) (r : R) (thread : Thread (SeqlockCell image.kWords)) :
    Nat → SeqlockSystem R image
  | 0 => (s.moveReader r thread .idle).giveBack r .outrun
  | left + 1 => s.moveReader r thread (.trying left)

/-- The payload of copied words. -/
def copyOut (image : SeqlockImage T) (dst : List SeqlockWord) : T :=
  image.ofWords fun i => dst.getD i 0

/-- The next access of `load`; a reader that is idle is called with `maxTries`. -/
def load (r : R) (maxTries lag : Nat) (s : SeqlockSystem R image) : SeqlockSystem R image :=
  let thread := s.readerThread r
  match s.reader r with
  | .idle => s.retry r thread maxTries
  | .trying left =>
      let before := s.memory.valueFound thread .seq lag
      let thread := thread.afterLoad s.memory .seq lag
      -- A write is in progress.
      if before &&& 1 ≠ 0 then s.retry r thread left
      else s.moveReader r thread (.sampled left before)
  | .sampled left before => s.moveReader r thread.fenceAcquire (.copying left before [])
  | .copying left before dst =>
      if h : dst.length < image.kWords then
        s.moveReader r (thread.afterLoad s.memory (.word ⟨dst.length, h⟩) lag)
          (.copying left before
            (dst ++ [s.memory.valueFound thread (.word ⟨dst.length, h⟩) lag]))
      else s.moveReader r thread.fenceAcquire (.copied left before dst)
  | .copied left before dst =>
      let after := s.memory.valueFound thread .seq lag
      let thread := thread.afterLoad s.memory .seq lag
      if after = before then
        (s.moveReader r thread .idle).giveBack r (.loaded (copyOut image dst))
      else s.retry r thread left

/-- `version`, of a reader that is in no other call. -/
def version (r : R) (lag : Nat) (s : SeqlockSystem R image) : SeqlockSystem R image :=
  match s.reader r with
  | .idle =>
      (s.moveReader r ((s.readerThread r).afterLoadAcquire s.memory .seq lag) .idle).giveBack r
        (.version (s.memory.valueFound (s.readerThread r) .seq lag / 2))
  | .trying _ | .sampled _ _ | .copying _ _ _ | .copied _ _ _ => s

def step : SeqlockAccess R T → SeqlockSystem R image → SeqlockSystem R image
  | .store value lag => store value lag
  | .load r maxTries lag => load r maxTries lag
  | .version r lag => version r lag

end Readers

/-- The stores that have returned. -/
def completed (s : SeqlockSystem R image) : Nat :=
  match s.writer with
  | .idle => s.stores.length
  | .loaded _ _ | .raised _ _ | .writing _ _ _ | .written _ _ => s.stores.length - 1

/-- The payload that a number of stores leaves: that of the last of them, or the zeroed
words. -/
def published (s : SeqlockSystem R image) : Nat → T
  | 0 => image.ofWords fun _ => 0
  | count + 1 => s.stores.getD count (image.ofWords fun _ => 0)

/-- What was seen is the lock as that number of stores left it. -/
def SeesVersion (s : SeqlockSystem R image) (count : Nat) : SeqlockSeen T → Prop
  | .loaded value => value = s.published count
  | .outrun => True
  | .version seen => seen.toNat = count

end SeqlockSystem

end MmEngine
