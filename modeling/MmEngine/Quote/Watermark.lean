/-
# Generation ordering

The manager accepts an intent only at or above its watermark, and every action it
emits carries a generation between the watermark before the call and the watermark
after it. Over a run the watermark and the generations of the actions therefore never
go back. An intent below the watermark changes nothing but counters, and no decision
reads a counter: a run with the intent and a run without it answer every later call
alike.
-/

import MmEngine.Lib.Machine
import MmEngine.Quote.SlotSafety

namespace MmEngine.Quote

open MmEngine.Strategy

namespace QuoteManager

variable {D : Type}

/-- A resolution without the counters. -/
def SlotResult.bare (ended : SlotResult D) : SlotResult D := (ended.1, ended.2.1.bare, ended.2.2)

section Bare

variable (manager : QuoteManager D)

@[simp]
theorem bare_bare : manager.bare.bare = manager.bare := rfl

@[simp]
theorem bare_tally (count : QuoteManagerMetrics → QuoteManagerMetrics) :
    (manager.tally count).bare = manager.bare := rfl

@[simp]
theorem bare_setMemory (slot : QuoteSlot) (memory : SlotMemory) :
    (manager.setMemory slot memory).bare = manager.bare.setMemory slot memory := rfl

@[simp]
theorem push_fst_bare (result : QuoteManagerResult) (action : OrderAction) :
    (manager.push result action).1.bare = manager.bare := by
  rw [push]
  split <;> rfl

/-- The result of a push, which does not depend on who pushes. -/
def pushed (result : QuoteManagerResult) (action : OrderAction) : QuoteManagerResult :=
  if kMaxActionsPerEvaluation ≤ result.actions.length then result
  else { result with actions := result.actions ++ [action] }

theorem push_snd (result : QuoteManagerResult) (action : OrderAction) :
    (manager.push result action).2 = pushed result action := by
  rw [push, pushed]
  split <;> rfl

@[simp]
theorem SlotResult.bare_mk (decision : SlotDecision) (result : QuoteManagerResult) :
    SlotResult.bare (decision, manager, result) = (decision, manager.bare, result) := rfl

end Bare

variable (manager : QuoteManager D) (slot : QuoteSlot) (desired : DesiredQuote)
  (intent : QuoteIntent) (input : QuoteManagerInput) (result : QuoteManagerResult) (now : Nanos)

theorem bare_cancelSlot :
    (manager.bare.cancelSlot slot intent input result now).bare =
      (manager.cancelSlot slot intent input result now).bare := by
  simp only [cancelSlot, SlotResult.bare_mk, bare_setMemory, push_fst_bare, push_snd, bare_bare]
  rfl

theorem bare_createSlot :
    (manager.bare.createSlot slot desired intent input result now).bare =
      (manager.createSlot slot desired intent input result now).bare := by
  simp only [createSlot, apply_ite SlotResult.bare, SlotResult.bare_mk, bare_setMemory,
    push_fst_bare, push_snd, bare_tally, bare_bare]
  rfl

theorem bare_rewriteSlot :
    (manager.bare.rewriteSlot slot desired intent input result now).bare =
      (manager.rewriteSlot slot desired intent input result now).bare := by
  simp only [rewriteSlot, apply_ite SlotResult.bare, SlotResult.bare_mk, bare_setMemory,
    push_fst_bare, push_snd, bare_tally, bare_bare]
  rfl

theorem bare_disableSlot (reason : ActionReason) :
    (manager.bare.disableSlot slot input reason result now).bare =
      (manager.disableSlot slot input reason result now).bare := by
  simp only [disableSlot, apply_ite SlotResult.bare, SlotResult.bare_mk, bare_setMemory,
    push_fst_bare, push_snd, bare_tally, bare_bare]
  rfl

variable [Double D]

theorem bare_quoteSlot :
    (manager.bare.quoteSlot slot desired intent input result now).bare =
      (manager.quoteSlot slot desired intent input result now).bare := by
  simp only [quoteSlot, apply_ite SlotResult.bare, SlotResult.bare_mk, bare_createSlot,
    bare_rewriteSlot, bare_tally, bare_bare]
  rfl

theorem bare_resolveSlot :
    (manager.bare.resolveSlot slot desired intent input result now).bare =
      (manager.resolveSlot slot desired intent input result now).bare := by
  have hcounted : ∀ count,
      ((manager.bare.tally count).cancelSlot slot intent input result now).bare =
      ((manager.tally count).cancelSlot slot intent input result now).bare := fun count => by
    rw [← bare_cancelSlot (manager.bare.tally count), ← bare_cancelSlot (manager.tally count)]
    rfl
  simp only [resolveSlot, apply_ite SlotResult.bare, SlotResult.bare_mk, bare_cancelSlot,
    bare_quoteSlot, hcounted, bare_tally, bare_bare]
  rfl

section Congr

variable {a b : QuoteManager D} {input : QuoteManagerInput} {now : Nanos}

omit [Double D] in
theorem disableSlot_congr (h : a.bare = b.bare) (reason : ActionReason) :
    (a.disableSlot slot input reason result now).bare =
      (b.disableSlot slot input reason result now).bare := by
  rw [← bare_disableSlot a, h, bare_disableSlot]

theorem resolveSlot_congr (h : a.bare = b.bare) :
    (a.resolveSlot slot desired intent input result now).bare =
      (b.resolveSlot slot desired intent input result now).bare := by
  rw [← bare_resolveSlot a, h, bare_resolveSlot]

omit [Double D] in
theorem SlotResult.bare_eq_iff {first second : SlotResult D} :
    first.bare = second.bare ↔
      first.1 = second.1 ∧ first.2.1.bare = second.2.1.bare ∧ first.2.2 = second.2.2 := by
  simp only [SlotResult.bare, Prod.mk.injEq]

omit [Double D] in
theorem lastGeneration_congr (h : a.bare = b.bare) : a.lastGeneration = b.lastGeneration := by
  have hwatermark := congrArg (fun m : QuoteManager D => m.lastGeneration) h
  exact hwatermark

omit [Double D] in
theorem raiseGeneration_congr (h : a.bare = b.bare) (generation : Nat) :
    (a.raiseGeneration generation).bare = (b.raiseGeneration generation).bare := by
  simp only [raiseGeneration, lastGeneration_congr h]
  split
  · exact congrArg (fun m : QuoteManager D => { m with lastGeneration := generation }) h
  · exact h

/-- The answers agree, and the managers still differ in counters only. -/
def AnswersAlike (first second : QuoteManagerResult × QuoteManager D) : Prop :=
  first.1 = second.1 ∧ first.2.bare = second.2.bare

omit [Double D] in
/-- Resolving the bid and then the ask. -/
theorem bothSlots_congr (resolve : QuoteManager D → QuoteSlot → QuoteManagerResult → SlotResult D)
    (hresolve : ∀ a b slot result, a.bare = b.bare →
      (resolve a slot result).bare = (resolve b slot result).bare)
    (h : a.bare = b.bare) (start : QuoteManagerResult) :
    (resolve a .bid start).1 = (resolve b .bid start).1 ∧
      (resolve (resolve a .bid start).2.1 .ask (resolve a .bid start).2.2).bare =
        (resolve (resolve b .bid start).2.1 .ask (resolve b .bid start).2.2).bare := by
  obtain ⟨hbid, hmanager, hresult⟩ :=
    SlotResult.bare_eq_iff.mp (hresolve a b .bid start h)
  refine ⟨hbid, ?_⟩
  rw [hresult]
  exact hresolve _ _ .ask _ hmanager

omit [Double D] in
theorem disableAllQuotes_congr (h : a.bare = b.bare) (input : QuoteManagerInput)
    (reason : ActionReason) (now : Nanos) :
    AnswersAlike (a.disableAllQuotes input reason now) (b.disableAllQuotes input reason now) := by
  simp only [AnswersAlike, disableAllQuotes, lastGeneration_congr h]
  obtain ⟨hbid, hask⟩ := bothSlots_congr
    (fun manager slot result => manager.disableSlot slot input reason result now)
    (fun _ _ slot result h => disableSlot_congr slot result h reason) h
    { intentAccepted := true, generation := b.lastGeneration }
  obtain ⟨hdecision, hmanager, hresult⟩ := SlotResult.bare_eq_iff.mp hask
  exact ⟨by rw [hresult, hbid, hdecision], hmanager⟩

theorem accept_congr (h : a.bare = b.bare) (intent : QuoteIntent) (input : QuoteManagerInput)
    (now : Nanos) : AnswersAlike (a.accept intent input now) (b.accept intent input now) := by
  obtain ⟨hbid, hask⟩ := bothSlots_congr
    (fun manager slot result =>
      manager.resolveSlot slot (desiredQuote intent input.working slot) intent input result now)
    (fun _ _ slot result h => resolveSlot_congr slot _ intent result h) h
    { intentAccepted := true, generation := intent.generation }
  obtain ⟨hdecision, hmanager, hresult⟩ := SlotResult.bare_eq_iff.mp hask
  simp only [AnswersAlike, accept]
  refine ⟨by rw [hresult, hbid, hdecision], ?_⟩
  simp only [apply_ite bare, bare_tally, ite_self]
  exact raiseGeneration_congr hmanager _

omit [Double D] in
theorem refuse_congr (h : a.bare = b.bare) (rejection : QuoteRejection) (intent : QuoteIntent)
    (input : QuoteManagerInput) (now : Nanos) :
    AnswersAlike (a.refuse rejection intent input now) (b.refuse rejection intent input now) := by
  have hcounted : (a.tally (countRejection · rejection)).bare =
      (b.tally (countRejection · rejection)).bare := h
  simp only [refuse]
  split
  · obtain ⟨hanswer, hmanager⟩ :=
      disableAllQuotes_congr hcounted input (withdrawReason rejection) now
    exact ⟨by rw [hanswer], raiseGeneration_congr hmanager _⟩
  · exact ⟨rfl, hcounted⟩

omit [Double D] in
theorem screen_congr (h : a.bare = b.bare) (intent : QuoteIntent) (input : QuoteManagerInput)
    (now : Nanos) : a.screen intent input now = b.screen intent input now := by
  have hscreen := congrArg (fun m : QuoteManager D => m.screen intent input now) h
  exact hscreen

theorem evaluate_congr (h : a.bare = b.bare) (intent : QuoteIntent) (input : QuoteManagerInput)
    (now : Nanos) : AnswersAlike (a.evaluate intent input now) (b.evaluate intent input now) := by
  have hreceived : (a.receive intent input).bare = (b.receive intent input).bare := h
  simp only [evaluate, screen_congr hreceived]
  split
  · exact refuse_congr hreceived _ intent input now
  · exact accept_congr hreceived intent input now

end Congr

/-! ## Runs -/

/-- A call to the manager, with the reading of its clock. -/
inductive QuoteCall
  | evaluate (intent : QuoteIntent) (input : QuoteManagerInput) (now : Nanos)
  | disableAllQuotes (input : QuoteManagerInput) (reason : ActionReason) (now : Nanos)

def call (manager : QuoteManager D) : QuoteCall → QuoteManagerResult × QuoteManager D
  | .evaluate intent input now => manager.evaluate intent input now
  | .disableAllQuotes input reason now => manager.disableAllQuotes input reason now

def step (op : QuoteCall) (manager : QuoteManager D) : QuoteManager D := (manager.call op).2

def answer (op : QuoteCall) (manager : QuoteManager D) : QuoteManagerResult := (manager.call op).1

/-- The results of a run. -/
def answers (calls : List QuoteCall) (manager : QuoteManager D) : List QuoteManagerResult :=
  Machine.outputs step answer calls manager

/-- The actions of a run, in the order they are emitted. -/
def emitted (calls : List QuoteCall) (manager : QuoteManager D) : List OrderAction :=
  (answers calls manager).flatMap QuoteManagerResult.actions

section Runs

variable {manager : QuoteManager D}

theorem call_congr {a b : QuoteManager D} (h : a.bare = b.bare) (op : QuoteCall) :
    AnswersAlike (a.call op) (b.call op) := by
  cases op with
  | evaluate intent input now => exact evaluate_congr h intent input now
  | disableAllQuotes input reason now => exact disableAllQuotes_congr h input reason now

theorem answers_congr {a b : QuoteManager D} (h : a.bare = b.bare) (calls : List QuoteCall) :
    answers calls a = answers calls b :=
  Machine.outputs_congr (R := fun a b : QuoteManager D => a.bare = b.bare)
    (fun op _ _ h => (call_congr h op).1) (fun op _ _ h => (call_congr h op).2) calls h

omit [Double D] in
theorem generation_le_of_screen {intent : QuoteIntent} {input : QuoteManagerInput} {now : Nanos}
    (h : manager.screen intent input now = .none) : manager.lastGeneration ≤ intent.generation := by
  by_contra hbelow
  rw [screen, if_pos (Nat.not_le.mp hbelow)] at h
  cases h

/-- The actions of one call share a generation, which the watermark does not pass
before the call and has reached after it. -/
theorem call_generation (manager : QuoteManager D) (op : QuoteCall) :
    ∃ generation, manager.lastGeneration ≤ generation ∧
      generation ≤ (step op manager).lastGeneration ∧
      ∀ action ∈ (answer op manager).actions, action.generation = generation := by
  cases op with
  | disableAllQuotes input reason now =>
      obtain ⟨hboth, hkeeps⟩ := manager.disableAllQuotes_spec input reason now
      exact ⟨manager.lastGeneration, le_refl _, hkeeps.lastGeneration.ge,
        fun action hmem => (hboth.actionSafe hmem).generation⟩
  | evaluate intent input now =>
      have hraise : ∀ after, Keeps (manager.raiseGeneration intent.generation) after →
          after.lastGeneration = max manager.lastGeneration intent.generation := fun after hkeeps =>
        hkeeps.lastGeneration.trans (raiseGeneration_lastGeneration manager intent.generation)
      rcases manager.evaluate_evaluated intent input now with
        ⟨hscreen, -, hboth, hkeeps⟩ | ⟨-, -, hboth, hkeeps⟩ | ⟨-, hresult, hsame⟩
      · exact ⟨intent.generation, generation_le_of_screen hscreen,
          (Nat.le_max_right _ _).trans (hraise _ hkeeps).ge,
          fun action hmem => (hboth.actionSafe hmem).generation⟩
      · exact ⟨manager.lastGeneration, le_refl _,
          (Nat.le_max_left _ _).trans (hraise _ hkeeps).ge,
          fun action hmem => (hboth.actionSafe hmem).generation⟩
      · refine ⟨manager.lastGeneration, le_refl _, (lastGeneration_congr hsame).ge, ?_⟩
        intro action hmem
        rw [answer, call, hresult] at hmem
        cases hmem

theorem lastGeneration_le_step (op : QuoteCall) (manager : QuoteManager D) :
    manager.lastGeneration ≤ (step op manager).lastGeneration := by
  obtain ⟨generation, hbefore, hafter, -⟩ := manager.call_generation op
  exact hbefore.trans hafter

theorem lastGeneration_le_run (calls : List QuoteCall) (manager : QuoteManager D) :
    manager.lastGeneration ≤ (Machine.run step calls manager).lastGeneration :=
  Machine.relation_run (R := fun a b : QuoteManager D => a.lastGeneration ≤ b.lastGeneration)
    (J := fun _ => True) (fun _ => le_refl _) (fun _ _ _ => le_trans) (fun _ _ => id)
    (fun op s _ => lastGeneration_le_step op s) calls trivial

/-- Nothing a run emits is older than the watermark it starts from. -/
theorem lastGeneration_le_of_mem_emitted {calls : List QuoteCall} {action : OrderAction}
    (hmem : action ∈ emitted calls manager) : manager.lastGeneration ≤ action.generation := by
  induction calls generalizing manager with
  | nil => cases hmem
  | cons op calls ih =>
      obtain ⟨generation, hbefore, hafter, hactions⟩ := manager.call_generation op
      rw [emitted, answers, Machine.outputs, List.flatMap_cons, List.mem_append] at hmem
      rcases hmem with hmem | hmem
      · rw [hactions action hmem]
        exact hbefore
      · exact (hbefore.trans hafter).trans (ih hmem)

theorem pairwise_generation_emitted (calls : List QuoteCall) (manager : QuoteManager D) :
    (emitted calls manager).Pairwise fun first second => first.generation ≤ second.generation := by
  induction calls generalizing manager with
  | nil => exact .nil
  | cons op calls ih =>
      obtain ⟨generation, -, hafter, hactions⟩ := manager.call_generation op
      rw [emitted, answers, Machine.outputs, List.flatMap_cons, List.pairwise_append]
      refine ⟨?_, ih (step op manager), ?_⟩
      · exact List.pairwise_of_forall_mem_list fun first hfirst second hsecond =>
          (hactions first hfirst).trans_le (hactions second hsecond).ge
      · intro first hfirst second hsecond
        rw [hactions first hfirst]
        exact hafter.trans (lastGeneration_le_of_mem_emitted hsecond)

/-- The watermark moves no further than to the intent. -/
theorem evaluate_lastGeneration_le (manager : QuoteManager D) (intent : QuoteIntent)
    (input : QuoteManagerInput) (now : Nanos) :
    (manager.evaluate intent input now).2.lastGeneration ≤
      max manager.lastGeneration intent.generation := by
  have hraise := raiseGeneration_lastGeneration manager intent.generation
  rcases manager.evaluate_evaluated intent input now with
    ⟨-, -, -, hkeeps⟩ | ⟨-, -, -, hkeeps⟩ | ⟨-, -, hsame⟩
  · exact (hkeeps.lastGeneration.trans hraise).le
  · exact (hkeeps.lastGeneration.trans hraise).le
  · exact (lastGeneration_congr hsame).le.trans (Nat.le_max_left _ _)

/-- An intent below the watermark is answered with the rejection and nothing else. -/
theorem evaluate_of_superseded {intent : QuoteIntent} (input : QuoteManagerInput) (now : Nanos)
    (hbelow : intent.generation < manager.lastGeneration) :
    (manager.evaluate intent input now).1 =
        { rejection := .generationRegression, generation := intent.generation } ∧
      (manager.evaluate intent input now).2.bare = manager.bare := by
  have hscreen : manager.screen intent input now = .generationRegression := if_pos hbelow
  rcases manager.evaluate_evaluated intent input now with
    ⟨haccepted, -⟩ | ⟨hwithdraw, -⟩ | ⟨-, hresult, hsame⟩
  · rw [hscreen] at haccepted
    cases haccepted
  · rw [hscreen] at hwithdraw
    cases hwithdraw
  · exact ⟨hscreen ▸ hresult, hsame⟩

/-- Generation ordering over a run. -/
theorem generation_ordering (manager : QuoteManager D) (calls : List QuoteCall) :
    (∀ earlier later, calls = earlier ++ later →
      (Machine.run step earlier manager).lastGeneration ≤
        (Machine.run step calls manager).lastGeneration) ∧
    (emitted calls manager).Pairwise (fun first second => first.generation ≤ second.generation) ∧
    ∀ earlier intent input now later, calls = earlier ++ .evaluate intent input now :: later →
      intent.generation < (Machine.run step earlier manager).lastGeneration →
      ((Machine.run step earlier manager).evaluate intent input now).1.actions = [] ∧
      ((Machine.run step earlier manager).evaluate intent input now).2.lastGeneration =
        (Machine.run step earlier manager).lastGeneration ∧
      ((Machine.run step earlier manager).evaluate intent input now).2.memory =
        (Machine.run step earlier manager).memory ∧
      answers (earlier ++ later) manager = (answers calls manager).eraseIdx earlier.length := by
  refine ⟨?_, pairwise_generation_emitted calls manager, ?_⟩
  · rintro earlier later rfl
    rw [Machine.run_append]
    exact lastGeneration_le_run later _
  · rintro earlier intent input now later rfl hbelow
    obtain ⟨hresult, hsame⟩ := evaluate_of_superseded input now hbelow
    refine ⟨by rw [hresult], lastGeneration_congr hsame, ?_, ?_⟩
    · have hmemory := congrArg (fun m : QuoteManager D => m.memory) hsame
      exact hmemory
    · -- The later answers come from managers that differ in counters only.
      have hlater : answers later (step (.evaluate intent input now)
          (Machine.run step earlier manager)) =
          answers later (Machine.run step earlier manager) := answers_congr hsame later
      rw [answers, Machine.outputs_append, answers, Machine.outputs_append,
        List.eraseIdx_append_of_length_le (Machine.length_outputs _ _).le, Machine.length_outputs,
        Nat.sub_self]
      exact congrArg _ hlater.symm

end Runs

end QuoteManager

end MmEngine.Quote
