/-
# What a valid book promises

Over every sequence of calls, a book that says it is valid passes its own audit, and its
update identifier has not gone back since the image it shows was published.
-/

import MmEngine.Book.Shape
import MmEngine.Lib.Machine

namespace MmEngine.Book

open MmEngine.Exchange

namespace OrderBook

/-- The calls that change a book. -/
inductive Op
  | reset (symbol : Symbol) (maxDepth : Nat)
  | clear
  | beginSnapshot
  | addSnapshotLevels (levels : BookLevels)
  | finishSnapshot (lastUpdateId : Seq64)
  | applyUpdate (levels : BookLevels) (finalUpdateId : Seq64)
  deriving DecidableEq

/-- A call: what it returns and the book after it. -/
def call (op : Op) (book : OrderBook) : Status × OrderBook :=
  match op with
  | .reset symbol maxDepth => (.ok, book.reset symbol maxDepth)
  | .clear => (.ok, book.clear)
  | .beginSnapshot => (.ok, book.beginSnapshot)
  | .addSnapshotLevels levels => book.addSnapshotLevels levels
  | .finishSnapshot lastUpdateId => book.finishSnapshot lastUpdateId
  | .applyUpdate levels finalUpdateId => book.applyUpdate levels finalUpdateId

def step (op : Op) (book : OrderBook) : OrderBook := (call op book).2

/-- The call returns without an error. -/
def Succeeds (op : Op) (book : OrderBook) : Prop := (call op book).1 = .ok

instance (op : Op) (book : OrderBook) : Decidable (Succeeds op book) :=
  inferInstanceAs (Decidable (_ = _))

/-- The call puts a new image into the book. -/
def Publishes (op : Op) (book : OrderBook) : Prop :=
  (∃ lastUpdateId, op = .finishSnapshot lastUpdateId) ∧ Succeeds op book

theorem sound_step (op : Op) (book : OrderBook) (h : book.Sound) : (step op book).Sound := by
  cases op with
  | reset symbol maxDepth => exact Sound.clear _
  | clear => exact Sound.clear book
  | beginSnapshot => exact h.beginSnapshot
  | addSnapshotLevels levels => exact h.addSnapshotLevels levels
  | finishSnapshot lastUpdateId => exact h.finishSnapshot lastUpdateId
  | applyUpdate levels finalUpdateId => exact h.applyUpdate levels finalUpdateId

theorem sound_default : ({} : OrderBook).Sound := Sound.clear {}

theorem sound_run (ops : List Op) : (Machine.run step ops {}).Sound :=
  Machine.invariant_run_always sound_step ops sound_default

theorem auditLevels_eq_none {which : Side} {side : List PriceLevel} {before : Option PriceLevel}
    (hbefore : ∀ better ∈ before, ∀ level ∈ side, levelRank which better < levelRank which level)
    (hsorted : Ladder.Sorted (levelRank which) side) (hpositive : ∀ level ∈ side, Positive level) :
    auditLevels which before side = .none := by
  induction side generalizing before with
  | nil => rfl
  | cons level side ih =>
      obtain ⟨hhead, htail⟩ := List.pairwise_cons.mp hsorted
      have hlevel : auditLevel which before level = .none := by
        obtain ⟨hprice, hquantity⟩ := hpositive level List.mem_cons_self
        rw [auditLevel.eq_def, if_neg (by simpa using hprice), if_neg (by simpa using hquantity.le),
          if_neg (by simpa using hquantity.ne')]
        cases before with
        | none => rfl
        | some better =>
            have hlt := hbefore better rfl level List.mem_cons_self
            have hne : ¬level.price = better.price := by
              intro heq
              rw [levelRank, levelRank, heq] at hlt
              exact lt_irrefl _ hlt
            have hbetter : isBetter which better.price level.price = true := by
              rw [isBetter_eq]
              simpa [levelRank] using hlt
            simp [hne, hbetter]
      rw [auditLevels, hlevel]
      apply ih
      · rintro better ⟨⟩ later hlater
        exact hhead later hlater
      · exact htail
      · exact fun later hlater => hpositive later (List.mem_cons_of_mem _ hlater)

theorem auditSide_eq_none {book : OrderBook} (h : book.Shaped) (which : Side) :
    book.auditSide which = .none := by
  obtain ⟨hsorted, hlength, hpositive⟩ := h which
  rw [auditSide, if_neg (Nat.not_lt.mpr hlength)]
  exact auditLevels_eq_none (by simp) hsorted hpositive

theorem checkInvariants_eq_touchViolation {book : OrderBook} (h : book.Shaped) :
    book.checkInvariants = touchViolation book.bids book.asks := by
  rw [checkInvariants, auditSide_eq_none h, auditSide_eq_none h]

/-- A call that shows no new image keeps the one shown only if it was there already, and
then does not set its identifier back. -/
theorem lastUpdateId_le_step {book : OrderBook} (h : book.Sound) {op : Op}
    (hop : ¬Publishes op book) (hafter : (step op book).snapshotApplied = true) :
    book.snapshotApplied = true ∧ book.lastUpdateId ≤ (step op book).lastUpdateId := by
  cases op with
  | reset symbol maxDepth => cases hafter
  | clear => cases hafter
  | beginSnapshot => exact ⟨hafter, UInt64.le_refl _⟩
  | addSnapshotLevels levels =>
      simp only [step, call] at hafter ⊢
      rcases addSnapshotLevels_cases h.staged levels with
        ⟨-, -, hadd⟩ | ⟨-, code, message, bids, asks, hadd, -⟩
      · rw [hadd] at hafter ⊢
        exact ⟨hafter, UInt64.le_refl _⟩
      · rw [hadd] at hafter ⊢
        exact ⟨hafter, UInt64.le_refl _⟩
  | finishSnapshot lastUpdateId =>
      rcases finishSnapshot_cases book lastUpdateId with
        ⟨-, hfinish⟩ | ⟨-, code, message, after, hfinish, hrefused⟩
      · exact absurd ⟨⟨lastUpdateId, rfl⟩, by rw [Succeeds, call, hfinish]⟩ hop
      · simp only [step, call, hfinish] at hafter ⊢
        rcases hrefused with ⟨rfl, -⟩ | ⟨bids, asks, violation, -, -, rfl⟩
        · exact ⟨hafter, UInt64.le_refl _⟩
        · exact ⟨hafter, UInt64.le_refl _⟩
  | applyUpdate levels finalUpdateId =>
      rcases applyUpdate_cases h.shaped levels finalUpdateId with
        ⟨happlicable, dropped, hupdate⟩ | ⟨-, code, message, after, hupdate, hafter'⟩
      · simp only [step, call, hupdate, updated] at hafter ⊢
        refine ⟨hafter, ?_⟩
        split
        · rename_i hid
          exact happlicable.2.2.1 hid
        · exact UInt64.le_refl _
      · simp only [step, call, hupdate] at hafter ⊢
        rcases hafter' with ⟨rfl, -⟩ | hdamaged
        · exact ⟨hafter, UInt64.le_refl _⟩
        · rw [hdamaged.snapshotApplied] at hafter
          rw [hdamaged.lastUpdateId]
          exact ⟨hafter, UInt64.le_refl _⟩

theorem lastUpdateId_le_run {ops : List Op} {book : OrderBook} (h : book.Sound)
    (hops : Machine.Along step (fun op book => ¬Publishes op book) ops book)
    (hafter : (Machine.run step ops book).snapshotApplied = true) :
    book.snapshotApplied = true ∧ book.lastUpdateId ≤ (Machine.run step ops book).lastUpdateId := by
  induction ops generalizing book with
  | nil => exact ⟨hafter, UInt64.le_refl _⟩
  | cons op ops ih =>
      obtain ⟨hnext, hrest⟩ := ih (sound_step op book h) hops.2 hafter
      obtain ⟨hhere, hstep⟩ := lastUpdateId_le_step h hops.1 hnext
      exact ⟨hhere, UInt64.le_trans hstep hrest⟩

/-- After any calls on a book, one that is valid passes its audit; and over the calls since
its image was published, which are any last calls that publish none, the identifier has
never decreased. -/
theorem valid_book_invariant (ops : List Op)
    (hvalid : (Machine.run step ops {}).isValid = true) :
    (Machine.run step ops {}).checkInvariants = .none ∧
      ∀ before since, ops = before ++ since →
        Machine.Along step (fun op book => ¬Publishes op book) since
            (Machine.run step before {}) →
          ∀ m n, m ≤ n →
            (Machine.run step (before ++ since.take m) {}).lastUpdateId ≤
              (Machine.run step (before ++ since.take n) {}).lastUpdateId := by
  have hsound := sound_run ops
  refine ⟨by rw [checkInvariants_eq_touchViolation hsound.shaped, hsound.touch hvalid], ?_⟩
  rintro before since rfl hsince m n hmn
  have happlied := (isValid_iff.mp hvalid).1
  -- The image shown at the end was there after `n` calls, and its identifier after `m`.
  rw [← List.take_append_drop n since, Machine.Along.append_iff, ← Machine.run_append] at hsince
  obtain ⟨hfirst, hlast⟩ := hsince
  rw [← List.take_append_drop n since, ← List.append_assoc, Machine.run_append] at happlied
  have hat := (lastUpdateId_le_run (sound_run _) hlast happlied).1
  have hcut : since.take n = since.take m ++ (since.take n).drop m := by
    conv_lhs => rw [← List.take_append_drop m (since.take n)]
    rw [List.take_take, Nat.min_eq_left hmn]
  rw [hcut, Machine.Along.append_iff, ← Machine.run_append] at hfirst
  rw [hcut, ← List.append_assoc, Machine.run_append] at hat
  have hle := (lastUpdateId_le_run (sound_run _) hfirst.2 hat).2
  rwa [← Machine.run_append, List.append_assoc, ← hcut] at hle

/-- A level in raw units. -/
def sampleLevel (price quantity : Int) : PriceLevel := ⟨.narrow price, .narrow quantity⟩

/-- An image of two bids and an ask, and an update that moves the touch. -/
def sampleOps : List Op :=
  [ .beginSnapshot,
    .addSnapshotLevels
      { bids := [sampleLevel 99 3, sampleLevel 100 5], asks := [sampleLevel 103 4] },
    .finishSnapshot 10,
    .applyUpdate { bids := [sampleLevel 101 2, sampleLevel 99 0] } 12 ]

theorem valid_book_invariant_sample :
    (Machine.run step sampleOps {}).bids = [sampleLevel 101 2, sampleLevel 100 5] ∧
      (Machine.run step sampleOps {}).checkInvariants = .none := by
  refine ⟨by decide +kernel, ?_⟩
  exact (valid_book_invariant sampleOps (by decide +kernel)).1

end OrderBook

end MmEngine.Book
