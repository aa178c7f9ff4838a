/-
# How a slot's resolution ends

The resolver of the quote manager has many exits. Most of them request nothing; the
others request a cancel, a new order, a replacement, or a cancel and a new order, each
from a slot in a definite condition. This module says so once, and in the same pass
that a resolution leaves the manager's owner, controls and watermark alone and that
the capacity of a result is never what stops an action.
-/

import MmEngine.Quote.QuoteManager

namespace MmEngine.Quote

open MmEngine.Exchange
open MmEngine.Strategy

/-- The actions an outcome announces, in the order they are requested. -/
def SlotOutcome.requests : SlotOutcome → List OrderActionType
  | .new => [.new]
  | .cancel => [.cancel]
  | .replace => [.replace]
  | .cancelThenNew => [.cancel, .new]
  | _ => []

theorem SlotOutcome.length_requests_le (outcome : SlotOutcome) : outcome.requests.length ≤ 2 := by
  cases outcome <;> decide

namespace QuoteManager

variable {D : Type} {manager : QuoteManager D}

/-- The manager without its counters. No decision reads them. -/
def bare (manager : QuoteManager D) : QuoteManager D := { manager with metrics := {} }

/-- The two managers differ at most in their memory and their counters. -/
structure Keeps (before after : QuoteManager D) : Prop where
  owner : after.owner = before.owner
  config : after.config = before.config
  lastGeneration : after.lastGeneration = before.lastGeneration

namespace Keeps

theorem refl (manager : QuoteManager D) : Keeps manager manager := ⟨rfl, rfl, rfl⟩

theorem trans {first second third : QuoteManager D} (h : Keeps first second)
    (h' : Keeps second third) : Keeps first third :=
  ⟨h'.owner.trans h.owner, h'.config.trans h.config, h'.lastGeneration.trans h.lastGeneration⟩

theorem tally (manager : QuoteManager D) (count : QuoteManagerMetrics → QuoteManagerMetrics) :
    Keeps manager (manager.tally count) := ⟨rfl, rfl, rfl⟩

theorem setMemory {before after : QuoteManager D} (h : Keeps before after) (slot : QuoteSlot)
    (memory : SlotMemory) : Keeps before (after.setMemory slot memory) :=
  ⟨h.owner, h.config, h.lastGeneration⟩

end Keeps

/-- Below the capacity an action is added. -/
theorem push_of_lt {result : QuoteManagerResult}
    (hroom : result.actions.length < kMaxActionsPerEvaluation) (action : OrderAction) :
    manager.push result action =
      (manager.tally (countAction · action.type),
        { result with actions := result.actions ++ [action] }) :=
  if_neg (Nat.not_le.mpr hroom)

/-- The order in the slot, when there is one, is the manager's. -/
def Owned (manager : QuoteManager D) (slot : QuoteSlot) (order : WorkingOrder) : Prop :=
  order.present = true → order.owner.matchesSlot manager.owner slot = true

/-- The slot may be quoted: nobody else's order is in it, nothing about it is
uncertain or outstanding, and the quote is wanted and valid. -/
structure SlotReady (manager : QuoteManager D) (slot : QuoteSlot) (desired : DesiredQuote)
    (input : QuoteManagerInput) (now : Nanos) : Prop where
  owned : manager.Owned slot (input.working.slot slot)
  certain : (input.working.slot slot).isUncertain = false
  settled : (input.working.slot slot).hasPendingRequest = false
  wanted : desired.wanted = true
  valid : validate slot desired input now = .none

/-- The order rests and does not say what is meant. -/
structure SlotDiffers [Double D] (manager : QuoteManager D) (slot : QuoteSlot)
    (desired : DesiredQuote) (input : QuoteManagerInput) : Prop where
  live : (input.working.slot slot).isLive = true
  differs :
    manager.represents (input.working.slot slot) desired (input.instrument.getD {}) = false

/-- The order rests and already says what is meant. -/
structure Represented [Double D] (manager : QuoteManager D) (slot : QuoteSlot)
    (desired : DesiredQuote) (input : QuoteManagerInput) (now : Nanos) : Prop where
  ready : manager.SlotReady slot desired input now
  live : (input.working.slot slot).isLive = true
  represents :
    manager.represents (input.working.slot slot) desired (input.instrument.getD {}) = true

/-- The decisions a resolution ends with, and the actions it requests. -/
inductive SlotExit [Double D] (manager : QuoteManager D) (slot : QuoteSlot)
    (desired : DesiredQuote) (intent : QuoteIntent) (input : QuoteManagerInput) (now : Nanos) :
    SlotDecision → List OrderAction → Prop
  | keep {decision : SlotDecision} (houtcome : decision.outcome = .keep)
      (hrepresented : manager.Represented slot desired input now) :
      SlotExit manager slot desired intent input now decision []
  | quiet {decision : SlotDecision} (hquiet : decision.outcome.requests = [])
      (hchanged : decision.outcome ≠ .keep)
      (hdiffers : ¬manager.Represented slot desired input now) :
      SlotExit manager slot desired intent input now decision []
  | cancel {decision : SlotDecision} (houtcome : decision.outcome = .cancel)
      (howned : manager.Owned slot (input.working.slot slot)) (hunwanted : desired.wanted = false)
      (reason : ActionReason) :
      SlotExit manager slot desired intent input now decision
        [addressed (makeAction .cancel slot reason intent input now) (input.working.slot slot)]
  | new {decision : SlotDecision} (houtcome : decision.outcome = .new)
      (hready : manager.SlotReady slot desired input now)
      (hnotLive : (input.working.slot slot).isLive = false) (reason : ActionReason) :
      SlotExit manager slot desired intent input now decision
        [quoting (makeAction .new slot reason intent input now) desired]
  | replace {decision : SlotDecision} (houtcome : decision.outcome = .replace)
      (hready : manager.SlotReady slot desired input now)
      (hdiffers : manager.SlotDiffers slot desired input) (reason : ActionReason) :
      SlotExit manager slot desired intent input now decision
        [addressed (quoting (makeAction .replace slot reason intent input now) desired)
          (input.working.slot slot)]
  | cancelThenNew {decision : SlotDecision} (houtcome : decision.outcome = .cancelThenNew)
      (hready : manager.SlotReady slot desired input now)
      (hdiffers : manager.SlotDiffers slot desired input) (reason : ActionReason) :
      SlotExit manager slot desired intent input now decision
        [addressed (makeAction .cancel slot reason intent input now) (input.working.slot slot),
          quoting (makeAction .new slot reason intent input now) desired]

/-- The resolution ended with a decision and actions in `P`: all the actions are
added to the result, and the manager keeps what a resolution may not touch. -/
def EndsIn (P : SlotDecision → List OrderAction → Prop) (manager : QuoteManager D)
    (result : QuoteManagerResult) (ended : SlotResult D) : Prop :=
  ∃ actions, P ended.1 actions ∧
    ended.2.2 = { result with actions := result.actions ++ actions } ∧ Keeps manager ended.2.1

theorem EndsIn.keeps {P : SlotDecision → List OrderAction → Prop} {result : QuoteManagerResult}
    {ended : SlotResult D} (h : EndsIn P manager result ended) : Keeps manager ended.2.1 := by
  obtain ⟨-, -, -, hkeeps⟩ := h
  exact hkeeps

/-- An exit that requests nothing. -/
theorem endsIn_quiet {P : SlotDecision → List OrderAction → Prop} {decision : SlotDecision}
    {after : QuoteManager D} {result : QuoteManagerResult} (hP : P decision [])
    (hkeeps : Keeps manager after) : EndsIn P manager result (decision, after, result) :=
  ⟨[], hP, by simp, hkeeps⟩

/-- An exit that requests one action. -/
theorem endsIn_push {P : SlotDecision → List OrderAction → Prop} {decision : SlotDecision}
    {result : QuoteManagerResult} {action : OrderAction} {slot : QuoteSlot} {memory : SlotMemory}
    {before : QuoteManager D} (hkeeps : Keeps before manager)
    (hroom : result.actions.length ≤ 2) (hP : P decision [action]) :
    EndsIn P before result
      (decision, (manager.push result action).1.setMemory slot memory,
        (manager.push result action).2) := by
  rw [push_of_lt (by simp only [kMaxActionsPerEvaluation]; omega)]
  exact ⟨[action], hP, rfl, (hkeeps.trans (Keeps.tally _ _)).setMemory _ _⟩

section Resolve

variable [Double D] {slot : QuoteSlot} {desired : DesiredQuote} {intent : QuoteIntent}
  {input : QuoteManagerInput} {result : QuoteManagerResult} {now : Nanos}

theorem createSlot_endsIn (hroom : result.actions.length ≤ 2)
    (hready : manager.SlotReady slot desired input now)
    (hnotLive : (input.working.slot slot).isLive = false) :
    EndsIn (manager.SlotExit slot desired intent input now) manager result
      (manager.createSlot slot desired intent input result now) := by
  simp only [createSlot]
  split
  · refine endsIn_quiet (.quiet rfl (by decide) ?_) (.tally _ _)
    intro h
    exact Bool.false_ne_true (hnotLive.symm.trans h.live)
  · exact endsIn_push (.refl _) hroom (.new rfl hready hnotLive _)

theorem rewriteSlot_endsIn (hroom : result.actions.length ≤ 2)
    (hready : manager.SlotReady slot desired input now)
    (hdiffers : manager.SlotDiffers slot desired input) :
    EndsIn (manager.SlotExit slot desired intent input now) manager result
      (manager.rewriteSlot slot desired intent input result now) := by
  simp only [rewriteSlot]
  split
  · refine endsIn_quiet (.quiet rfl (by simp) ?_) (.tally _ _)
    intro h
    exact Bool.false_ne_true (hdiffers.differs.symm.trans h.represents)
  · split
    · exact endsIn_push (.refl _) hroom (.replace rfl hready hdiffers _)
    · have hfirst : result.actions.length < kMaxActionsPerEvaluation := by
        simp only [kMaxActionsPerEvaluation]
        omega
      -- The second push still finds room: the slot has added one action.
      simp only [push_of_lt hfirst]
      rw [push_of_lt]
      swap
      · simp only [kMaxActionsPerEvaluation, List.length_append, List.length_singleton]
        omega
      refine ⟨_, .cancelThenNew rfl hready hdiffers .replaceUnsupported, ?_, ?_⟩
      · simp
      · exact ((Keeps.tally _ _).trans (.tally _ _)).setMemory _ _

theorem quoteSlot_endsIn (hroom : result.actions.length ≤ 2)
    (howned : manager.Owned slot (input.working.slot slot))
    (hcertain : (input.working.slot slot).isUncertain = false)
    (hsettled : (input.working.slot slot).hasPendingRequest = false)
    (hwanted : desired.wanted = true) :
    EndsIn (manager.SlotExit slot desired intent input now) manager result
      (manager.quoteSlot slot desired intent input result now) := by
  simp only [quoteSlot]
  split
  · rename_i hinvalid
    exact endsIn_quiet (.quiet rfl (by simp) fun h => hinvalid h.ready.valid) (.tally _ _)
  · rename_i hvalid
    have hready : manager.SlotReady slot desired input now :=
      ⟨howned, hcertain, hsettled, hwanted, not_not.mp hvalid⟩
    split
    · rename_i hnotLive
      exact createSlot_endsIn hroom hready (by simpa using hnotLive)
    · rename_i hlive
      have hlive : (input.working.slot slot).isLive = true := by simpa using hlive
      split
      · rename_i hrepresents
        exact endsIn_quiet (.keep rfl ⟨hready, hlive, hrepresents⟩) (.tally _ _)
      · rename_i hdiffers
        exact rewriteSlot_endsIn hroom hready ⟨hlive, by simpa using hdiffers⟩

omit [Double D] in
theorem not_owned {order : WorkingOrder}
    (hforeign : (order.present && !order.owner.matchesSlot manager.owner slot) = true) :
    ¬manager.Owned slot order := by
  rw [Bool.and_eq_true, Bool.not_eq_true'] at hforeign
  intro howned
  exact Bool.false_ne_true (hforeign.2.symm.trans (howned hforeign.1))

omit [Double D] in
theorem owned_of_not_foreign {order : WorkingOrder}
    (hforeign : ¬(order.present && !order.owner.matchesSlot manager.owner slot) = true) :
    manager.Owned slot order := by
  intro hpresent
  simpa [hpresent] using hforeign

/-- A slot with a request outstanding, its order's or the manager's own, does not show
what is meant. -/
theorem not_represented_of_waiting
    (hwaiting : ((input.working.slot slot).hasPendingRequest ||
      manager.awaitsOwnRequest slot (input.working.slot slot) now) = true) :
    ¬manager.Represented slot desired input now := by
  intro h
  rw [h.ready.settled, Bool.false_or] at hwaiting
  simp [awaitsOwnRequest, h.live] at hwaiting

/-- Every exit of the resolver. -/
theorem resolveSlot_endsIn (hroom : result.actions.length ≤ 2) :
    EndsIn (manager.SlotExit slot desired intent input now) manager result
      (manager.resolveSlot slot desired intent input result now) := by
  simp only [resolveSlot]
  split
  · rename_i hforeign
    exact endsIn_quiet (.quiet rfl (by decide) fun h => not_owned hforeign h.ready.owned)
      (.tally _ _)
  · rename_i hforeign
    have howned := owned_of_not_foreign hforeign
    split
    · rename_i huncertain
      split
      · rename_i hcancel
        exact endsIn_push (.tally _ _) hroom (.cancel rfl howned (by simp_all) _)
      · refine endsIn_quiet (.quiet rfl (by decide) ?_) (.tally _ _)
        intro h
        exact Bool.false_ne_true (h.ready.certain.symm.trans huncertain)
    · rename_i hcertain
      split
      · rename_i hwaiting
        exact endsIn_quiet (.quiet rfl (by decide) (not_represented_of_waiting hwaiting))
            (.tally _ _)
      · rename_i hwaiting
        rw [Bool.or_eq_true, not_or] at hwaiting
        split
        · rename_i hunwanted
          have hunwanted : desired.wanted = false := by simpa using hunwanted
          split
          · refine endsIn_quiet (.quiet rfl (by decide) ?_) (.refl _)
            intro h
            exact Bool.false_ne_true (hunwanted.symm.trans h.ready.wanted)
          · exact endsIn_push (.refl _) hroom (.cancel rfl howned hunwanted _)
        · rename_i hwanted
          exact quoteSlot_endsIn hroom howned (by simpa using hcertain) (by simpa using hwaiting.1)
            (by simpa using hwanted)

/-- A withdrawal cancels what the manager owns, in its own name, and nothing else. -/
theorem disableSlot_endsIn (hroom : result.actions.length ≤ 2) (reason : ActionReason) :
    EndsIn (manager.SlotExit slot {} manager.syntheticIntent input now) manager result
      (manager.disableSlot slot input reason result now) := by
  -- Nothing is wanted, so nothing can be represented.
  have hunwanted : ¬manager.Represented slot {} input now := fun h => by cases h.ready.wanted
  simp only [disableSlot]
  split
  · exact endsIn_quiet (.quiet rfl (by decide) hunwanted) (.tally _ _)
  · rename_i hforeign
    split
    · exact endsIn_quiet (.quiet rfl (by decide) hunwanted) (.refl _)
    · split
      · exact endsIn_quiet (.quiet rfl (by decide) hunwanted) (.tally _ _)
      · exact endsIn_push (.refl _) hroom (.cancel rfl (owned_of_not_foreign hforeign) rfl _)

/-! ## Exits of a manager are those of any manager it keeps -/

variable {before after : QuoteManager D}

omit [Double D] in
theorem Keeps.owned (h : Keeps before after) {order : WorkingOrder}
    (howned : after.Owned slot order) : before.Owned slot order := by
  intro hpresent
  rw [← h.owner]
  exact howned hpresent

omit [Double D] in
theorem Keeps.syntheticIntent_eq (h : Keeps before after) :
    after.syntheticIntent = before.syntheticIntent := by
  simp only [syntheticIntent, h.owner, h.lastGeneration]

omit [Double D] in
theorem Keeps.slotReady (h : Keeps before after) (hready : after.SlotReady slot desired input now) :
    before.SlotReady slot desired input now :=
  { hready with owned := h.owned hready.owned }

theorem represents_congr (h : after.config = before.config) (order : WorkingOrder)
    (spec : InstrumentSpec) :
    after.represents order desired spec = before.represents order desired spec := by
  simp only [represents, h]

theorem Keeps.slotDiffers (h : Keeps before after)
    (hdiffers : after.SlotDiffers slot desired input) :
    before.SlotDiffers slot desired input := by
  refine ⟨hdiffers.live, ?_⟩
  rw [← represents_congr h.config]
  exact hdiffers.differs

theorem Keeps.represented_iff (h : Keeps before after) :
    after.Represented slot desired input now ↔ before.Represented slot desired input now := by
  have hback : Keeps after before := ⟨h.owner.symm, h.config.symm, h.lastGeneration.symm⟩
  constructor
  · exact fun hr => ⟨h.slotReady hr.ready, hr.live, represents_congr h.config _ _ ▸ hr.represents⟩
  · exact fun hr =>
      ⟨hback.slotReady hr.ready, hr.live, represents_congr hback.config _ _ ▸ hr.represents⟩

theorem Keeps.slotExit (h : Keeps before after) {decision : SlotDecision}
    {actions : List OrderAction}
    (hexit : after.SlotExit slot desired intent input now decision actions) :
    before.SlotExit slot desired intent input now decision actions := by
  cases hexit with
  | keep houtcome hrepresented => exact .keep houtcome (h.represented_iff.mp hrepresented)
  | quiet hquiet hchanged hdiffers =>
      exact .quiet hquiet hchanged fun hr => hdiffers (h.represented_iff.mpr hr)
  | cancel houtcome howned hunwanted reason =>
      exact .cancel houtcome (h.owned howned) hunwanted reason
  | new houtcome hready hnotLive reason => exact .new houtcome (h.slotReady hready) hnotLive reason
  | replace houtcome hready hdiffers reason =>
      exact .replace houtcome (h.slotReady hready) (h.slotDiffers hdiffers) reason
  | cancelThenNew houtcome hready hdiffers reason =>
      exact .cancelThenNew houtcome (h.slotReady hready) (h.slotDiffers hdiffers) reason

/-- The actions of an exit are the ones its outcome announces. -/
theorem SlotExit.map_type {decision : SlotDecision} {actions : List OrderAction}
    (hexit : manager.SlotExit slot desired intent input now decision actions) :
    actions.map OrderAction.type = decision.outcome.requests := by
  cases hexit with
  | keep houtcome => rw [houtcome]; rfl
  | quiet hquiet => exact hquiet.symm
  | cancel houtcome => rw [houtcome]; rfl
  | new houtcome => rw [houtcome]; rfl
  | replace houtcome => rw [houtcome]; rfl
  | cancelThenNew houtcome => rw [houtcome]; rfl

/-- A slot is kept exactly when it shows what is meant. -/
theorem SlotExit.keep_iff {decision : SlotDecision} {actions : List OrderAction}
    (hexit : manager.SlotExit slot desired intent input now decision actions) :
    decision.outcome = .keep ↔ manager.Represented slot desired input now := by
  cases hexit with
  | keep houtcome hrepresented => exact iff_of_true houtcome hrepresented
  | quiet _ hchanged hdiffers => exact iff_of_false hchanged hdiffers
  | cancel houtcome _ hunwanted =>
      refine iff_of_false (by rw [houtcome]; decide) fun h => ?_
      exact Bool.false_ne_true (hunwanted.symm.trans h.ready.wanted)
  | new houtcome _ hnotLive =>
      refine iff_of_false (by rw [houtcome]; decide) fun h => ?_
      exact Bool.false_ne_true (hnotLive.symm.trans h.live)
  | replace houtcome _ hdiffers =>
      refine iff_of_false (by rw [houtcome]; decide) fun h => ?_
      exact Bool.false_ne_true (hdiffers.differs.symm.trans h.represents)
  | cancelThenNew houtcome _ hdiffers =>
      refine iff_of_false (by rw [houtcome]; decide) fun h => ?_
      exact Bool.false_ne_true (hdiffers.differs.symm.trans h.represents)

theorem SlotExit.length_le {decision : SlotDecision} {actions : List OrderAction}
    (hexit : manager.SlotExit slot desired intent input now decision actions) :
    actions.length ≤ 2 := by
  have hlength := congrArg List.length hexit.map_type
  rw [List.length_map] at hlength
  exact hlength.trans_le (SlotOutcome.length_requests_le _)

end Resolve

section Both

variable [Double D] {intent : QuoteIntent} {input : QuoteManagerInput} {now : Nanos}

/-- Both slots were resolved for one intent, and the result holds exactly what they
requested, the bid's actions first. -/
def BothEnd (manager : QuoteManager D) (desired : QuoteSlot → DesiredQuote) (intent : QuoteIntent)
    (input : QuoteManagerInput) (now : Nanos) (result : QuoteManagerResult) : Prop :=
  ∃ bid ask, manager.SlotExit .bid (desired .bid) intent input now result.bid bid ∧
    manager.SlotExit .ask (desired .ask) intent input now result.ask ask ∧
    result.actions = bid ++ ask

theorem BothEnd.exit {desired : QuoteSlot → DesiredQuote} {result : QuoteManagerResult}
    (h : manager.BothEnd desired intent input now result) (slot : QuoteSlot) :
    ∃ actions,
      manager.SlotExit slot (desired slot) intent input now (result.decision slot) actions := by
  obtain ⟨bid, ask, hbid, hask, -⟩ := h
  cases slot with
  | bid => exact ⟨bid, hbid⟩
  | ask => exact ⟨ask, hask⟩

/-- Resolving the bid and then the ask, each with room for its actions, resolves
both. -/
theorem bothEnd_of_endsIn (desired : QuoteSlot → DesiredQuote) {start : QuoteManagerResult}
    {bid : SlotResult D} {ask : SlotResult D} (hstart : start.actions = [])
    (hbid : EndsIn (manager.SlotExit .bid (desired .bid) intent input now) manager start bid)
    (hask : bid.2.2.actions.length ≤ 2 →
      EndsIn (bid.2.1.SlotExit .ask (desired .ask) intent input now) bid.2.1 bid.2.2 ask) :
    manager.BothEnd desired intent input now { ask.2.2 with bid := bid.1, ask := ask.1 } ∧
      ask.2.2.rejection = start.rejection ∧ Keeps manager ask.2.1 := by
  obtain ⟨bidActions, hbidExit, hbidResult, hbidKeeps⟩ := hbid
  have hroom : bid.2.2.actions.length ≤ 2 := by
    rw [hbidResult, hstart]
    exact hbidExit.length_le
  obtain ⟨askActions, haskExit, haskResult, haskKeeps⟩ := hask hroom
  refine ⟨⟨bidActions, askActions, hbidExit, hbidKeeps.slotExit haskExit, ?_⟩, ?_,
    hbidKeeps.trans haskKeeps⟩
  · simp only [haskResult, hbidResult, hstart, List.nil_append]
  · simp only [haskResult, hbidResult]

/-- What a withdrawal does. -/
theorem disableAllQuotes_spec (manager : QuoteManager D) (input : QuoteManagerInput)
    (reason : ActionReason) (now : Nanos) :
    manager.BothEnd (fun _ => {}) manager.syntheticIntent input now
        (manager.disableAllQuotes input reason now).1 ∧
      Keeps manager (manager.disableAllQuotes input reason now).2 := by
  let start : QuoteManagerResult := { intentAccepted := true, generation := manager.lastGeneration }
  have hbid : EndsIn (manager.SlotExit .bid {} manager.syntheticIntent input now) manager start
      (manager.disableSlot .bid input reason start now) :=
    disableSlot_endsIn (Nat.zero_le _) reason
  have hboth := bothEnd_of_endsIn (fun _ => {}) rfl hbid fun hroom =>
    hbid.keeps.syntheticIntent_eq ▸ disableSlot_endsIn hroom reason
  exact ⟨hboth.1, hboth.2.2⟩

omit [Double D] in
theorem Keeps.raiseGeneration {before after : QuoteManager D} (h : Keeps before after)
    (generation : Nat) :
    Keeps (before.raiseGeneration generation) (after.raiseGeneration generation) := by
  simp only [QuoteManager.raiseGeneration, h.lastGeneration]
  split
  · exact ⟨h.owner, h.config, rfl⟩
  · exact h

/-- What accepting an intent does. -/
theorem accept_spec (manager : QuoteManager D) (intent : QuoteIntent) (input : QuoteManagerInput)
    (now : Nanos) :
    manager.BothEnd (desiredQuote intent input.working) intent input now
        (manager.accept intent input now).1 ∧
      (manager.accept intent input now).1.rejection = .none ∧
      Keeps (manager.raiseGeneration intent.generation) (manager.accept intent input now).2 := by
  let start : QuoteManagerResult := { intentAccepted := true, generation := intent.generation }
  have hbid : EndsIn
      (manager.SlotExit .bid (desiredQuote intent input.working .bid) intent input now) manager
      start
      (manager.resolveSlot .bid (desiredQuote intent input.working .bid) intent input start now) :=
    resolveSlot_endsIn (Nat.zero_le _)
  have hboth := bothEnd_of_endsIn (desiredQuote intent input.working) rfl hbid resolveSlot_endsIn
  obtain ⟨hend, hrejection, hkeeps⟩ := hboth
  refine ⟨hend, hrejection, ?_⟩
  simp only [accept]
  split
  · exact hkeeps.raiseGeneration _
  · exact (hkeeps.raiseGeneration _).trans (.tally _ _)

/-- What an evaluation can do. -/
inductive Evaluated (manager : QuoteManager D) (intent : QuoteIntent) (input : QuoteManagerInput)
    (now : Nanos) (result : QuoteManagerResult) (after : QuoteManager D) : Prop
  | accepted (hscreen : manager.screen intent input now = .none)
      (hrejection : result.rejection = .none)
      (hboth : manager.BothEnd (desiredQuote intent input.working) intent input now result)
      (hkeeps : Keeps (manager.raiseGeneration intent.generation) after)
  | withdrawn (hscreen : impliesWithdraw (manager.screen intent input now) = true)
      (hrejection : result.rejection = manager.screen intent input now)
      (hboth : manager.BothEnd (fun _ => {}) manager.syntheticIntent input now result)
      (hkeeps : Keeps (manager.raiseGeneration intent.generation) after)
  | ignored (hscreen : manager.screen intent input now ≠ .none)
      (hresult : result =
        { rejection := manager.screen intent input now, generation := intent.generation })
      (hsame : after.bare = manager.bare)

theorem evaluate_evaluated (manager : QuoteManager D) (intent : QuoteIntent)
    (input : QuoteManagerInput) (now : Nanos) :
    manager.Evaluated intent input now (manager.evaluate intent input now).1
      (manager.evaluate intent input now).2 := by
  -- Counting the arrival changes nothing the screen or the slots read.
  have hreceived : Keeps manager (manager.receive intent input) := ⟨rfl, rfl, rfl⟩
  have hscreen : (manager.receive intent input).screen intent input now =
    manager.screen intent input now := rfl
  simp only [evaluate, hscreen]
  split
  · rename_i hrejected
    simp only [refuse]
    split
    · rename_i hwithdraw
      let counted :=
        (manager.receive intent input).tally (countRejection · (manager.screen intent input now))
      have hcounted : Keeps manager counted := hreceived.trans (.tally _ _)
      obtain ⟨⟨bid, ask, hbid, hask, hactions⟩, hkeeps⟩ :=
        counted.disableAllQuotes_spec input (withdrawReason (manager.screen intent input now)) now
      exact .withdrawn hwithdraw rfl
        ⟨bid, ask, hcounted.slotExit hbid, hcounted.slotExit hask, hactions⟩
        ((hcounted.trans hkeeps).raiseGeneration _)
    · exact .ignored hrejected rfl rfl
  · rename_i haccepted
    obtain ⟨⟨bid, ask, hbid, hask, hactions⟩, hrejection, hkeeps⟩ :=
      (manager.receive intent input).accept_spec intent input now
    exact .accepted (not_not.mp haccepted) hrejection
      ⟨bid, ask, hreceived.slotExit hbid, hreceived.slotExit hask, hactions⟩
      ((hreceived.raiseGeneration _).trans hkeeps)

/-- The result says what the screen said. -/
theorem evaluate_rejection (manager : QuoteManager D) (intent : QuoteIntent)
    (input : QuoteManagerInput) (now : Nanos) :
    (manager.evaluate intent input now).1.rejection = manager.screen intent input now := by
  rcases manager.evaluate_evaluated intent input now with
    ⟨hscreen, hrejection, -, -⟩ | ⟨-, hrejection, -, -⟩ | ⟨-, hresult, -⟩
  · exact hrejection.trans hscreen.symm
  · exact hrejection
  · rw [hresult]

end Both

theorem raiseGeneration_lastGeneration (manager : QuoteManager D) (generation : Nat) :
    (manager.raiseGeneration generation).lastGeneration =
      max manager.lastGeneration generation := by
  rw [raiseGeneration]
  split
  · exact (Nat.max_eq_right (Nat.le_of_lt ‹_›)).symm
  · exact (Nat.max_eq_left (Nat.not_lt.mp ‹_›)).symm

end QuoteManager

end MmEngine.Quote
