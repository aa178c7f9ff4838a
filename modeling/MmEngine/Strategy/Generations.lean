/-
# Generation order out of the runtime

Downstream, an intent older than one already processed is ignored, so the intents of a
runtime have to carry increasing generations. The counter itself never goes back, and
an evaluation that is skipped, throws, overruns its budget or is accepted stamps its
intent with it. Two paths build the intent that stands down after the stamp and leave
its generation at zero: an intent that fails validation, and a quote while quoting is
switched off. Such an intent is in order only as the first of the run, and anywhere
else the withdrawal it stands for is lost.
-/

import MmEngine.Quote.Watermark
import MmEngine.Strategy.StrategyRuntime

namespace MmEngine.Strategy

open MmEngine.Quote

namespace StrategyRuntime

variable (D : Type) [Double D] {τ V P : Type} (plugin : IStrategy τ V P)

/-- A call to the runtime. -/
inductive RuntimeCall (V P : Type)
  | initializeWith (init : StrategyInit P)
  | start
  | pause
  | resume
  | stop
  | resetStrategy
  | clearFault
  | evaluate (context : StrategyContext V) (readings : Readings)
  | onFill (fill : StrategyFill)
  | onOrderEvent (event : StrategyOrderEvent)

def step (op : RuntimeCall V P) (runtime : StrategyRuntime τ) : StrategyRuntime τ :=
  match op with
  | .initializeWith init => (runtime.initializeWith plugin init).2
  | .start => runtime.start
  | .pause => runtime.pause
  | .resume => runtime.resume
  | .stop => runtime.stop
  | .resetStrategy => runtime.resetStrategy plugin
  | .clearFault => (runtime.clearFault plugin).2
  | .evaluate context readings => (runtime.evaluate D plugin context readings).2
  | .onFill fill => runtime.onFill plugin fill
  | .onOrderEvent event => runtime.onOrderEvent plugin event

/-- The intent a call hands on, when it is an evaluation. -/
def handedOn (op : RuntimeCall V P) (runtime : StrategyRuntime τ) : Option QuoteIntent :=
  match op with
  | .evaluate context readings => some (runtime.evaluate D plugin context readings).1.intent
  | _ => none

/-- The intents of a run, in order. -/
def intents (calls : List (RuntimeCall V P)) (runtime : StrategyRuntime τ) : List QuoteIntent :=
  (Machine.outputs (step D plugin) (handedOn D plugin) calls runtime).filterMap id

/-- True when the strategy returns an intent that the runtime replaces after stamping
it: one that fails validation, or a quote while quoting is switched off. -/
def unstamped (runtime : StrategyRuntime τ) (context : StrategyContext V) (readings : Readings) :
    Bool :=
  decide (runtime.gate context = .none) &&
    match runtime.strategy with
    | none => false
    | some inner =>
        match (ask plugin context inner).1 with
        | .error _ => false
        | .ok returned =>
            !runtime.overrun (readings.finished - readings.started) &&
              (decide (validateIntent D (runtime.stamp returned context readings.stamped) context
                  runtime.identity runtime.config.limits ≠ .none) ||
                runtime.switchedOff context && decide (returned.action = .quote))

/-- Only the first evaluation of a runtime leaves its intent unstamped. -/
def Stamps (op : RuntimeCall V P) (runtime : StrategyRuntime τ) : Prop :=
  match op with
  | .evaluate context readings =>
      unstamped D plugin runtime context readings = true → runtime.generation = 0
  | _ => True

section Counter

variable {plugin} (runtime : StrategyRuntime τ)

omit [Double D] in
theorem transition_generation (target : StrategyState) :
    (runtime.transition target).generation = runtime.generation := by
  rw [transition]
  split <;> rfl

omit [Double D] in
theorem initializeWith_generation (init : StrategyInit P) :
    (runtime.initializeWith plugin init).2.generation = runtime.generation := by
  simp only [initializeWith]
  repeat' split
  all_goals rfl

omit [Double D] in
theorem resetStrategy_generation :
    (runtime.resetStrategy plugin).generation = runtime.generation := by
  simp only [resetStrategy]
  repeat' split
  all_goals rfl

omit [Double D] in
theorem clearFault_generation : (runtime.clearFault plugin).2.generation = runtime.generation := by
  simp only [clearFault]
  split
  · rfl
  · split
    · exact resetStrategy_generation _
    · exact resetStrategy_generation _

omit [Double D] in
theorem notify_generation (call : τ → Except Thrown Unit × τ) (text : String) :
    (runtime.notify call text).generation = runtime.generation := by
  simp only [notify]
  repeat' split
  all_goals rfl

omit [Double D] in
theorem chargeBudget_eq (elapsed : Nanos) :
    ((runtime.recordCall elapsed).chargeBudget elapsed).generation = runtime.generation ∧
      ((runtime.recordCall elapsed).chargeBudget elapsed).identity = runtime.identity ∧
      ((runtime.recordCall elapsed).chargeBudget elapsed).config = runtime.config := by
  rw [chargeBudget]
  split <;> exact ⟨rfl, rfl, rfl⟩

omit [Double D] in
theorem rejectIntent_generation (rejection : IntentRejection) (elapsed : Nanos) :
    (runtime.rejectIntent rejection elapsed).2.generation = runtime.generation := by
  simp only [rejectIntent]
  split <;> rfl

omit [Double D] in
/-- An accepted intent keeps its stamp, unless it is a quote that is switched off. -/
theorem acceptIntent_intent_generation (intent : QuoteIntent) (context : StrategyContext V)
    (elapsed : Nanos) :
    (runtime.acceptIntent intent context elapsed).1.intent.generation =
      if runtime.switchedOff context && decide (intent.action = .quote) then 0
      else intent.generation := by
  simp only [acceptIntent]
  split <;> rfl

/-- The judgement of a returned intent counts it, and stamps what it hands on unless the
intent is replaced afterwards. -/
theorem judge_generation (returned : QuoteIntent) (context : StrategyContext V)
    (readings : Readings) :
    (runtime.judge D returned context readings).2.generation = runtime.generation + 1 ∧
      (runtime.judge D returned context readings).1.intent.generation =
        if !runtime.overrun (readings.finished - readings.started) &&
            (decide (validateIntent D (runtime.stamp returned context readings.stamped) context
                runtime.identity runtime.config.limits ≠ .none) ||
              runtime.switchedOff context && decide (returned.action = .quote)) then 0
        else runtime.generation + 1 := by
  obtain ⟨hgeneration, hidentity, hconfig⟩ :=
    runtime.chargeBudget_eq (readings.finished - readings.started)
  simp only [judge]
  by_cases hoverrun : runtime.overrun (readings.finished - readings.started) = true
  · rw [if_pos hoverrun, if_neg (by simp [hoverrun])]
    simp only [skipped, recordSkip, fault, tally, hgeneration, and_self]
  · rw [if_neg hoverrun]
    generalize (runtime.recordCall (readings.finished - readings.started)).chargeBudget
      (readings.finished - readings.started) = charged at hgeneration hidentity hconfig ⊢
    have hstamp : charged.stamp returned context readings.stamped =
        runtime.stamp returned context readings.stamped := by
      simp only [stamp, hgeneration, hidentity]
    simp only [hstamp, hidentity, hconfig, Bool.eq_false_of_not_eq_true hoverrun, Bool.not_false,
      Bool.true_and]
    by_cases hrejected : validateIntent D (runtime.stamp returned context readings.stamped) context
        runtime.identity runtime.config.limits ≠ .none
    · rw [if_pos hrejected, rejectIntent_generation, if_pos (by simp [hrejected])]
      exact ⟨congrArg (· + 1) hgeneration, rfl⟩
    · rw [if_neg hrejected, acceptIntent_intent_generation]
      refine ⟨congrArg (· + 1) hgeneration, ?_⟩
      simp only [hrejected, decide_false, Bool.false_or]
      rfl

/-- What an evaluation does to the counter, and what it stamps on the intent. -/
theorem evaluate_generation (context : StrategyContext V) (readings : Readings) :
    (runtime.evaluate D plugin context readings).2.generation = runtime.generation + 1 ∧
      (runtime.evaluate D plugin context readings).1.intent.generation =
        if unstamped D plugin runtime context readings then 0 else runtime.generation + 1 := by
  by_cases hgate : runtime.gate context = .none
  · simp only [evaluate, unstamped, hgate, ne_eq, not_true_eq_false, if_false, decide_true,
      Bool.true_and]
    cases hstrategy : runtime.strategy with
    | none => exact ⟨rfl, rfl⟩
    | some inner =>
        rcases hcalled : ask plugin context inner with ⟨answer, inner'⟩
        simp only [hcalled]
        cases answer with
        | error thrown => exact ⟨rfl, rfl⟩
        | ok returned =>
            exact judge_generation D { runtime with strategy := some inner' } returned context
              readings
  · have hstamped : unstamped D plugin runtime context readings = false := by
      simp [unstamped, hgate]
    rw [hstamped, evaluate, if_pos hgate]
    exact ⟨rfl, rfl⟩

/-- The other calls leave the counter alone. -/
theorem step_generation {op : RuntimeCall V P} (h : handedOn D plugin op runtime = none) :
    (step D plugin op runtime).generation = runtime.generation := by
  cases op with
  | evaluate => cases h
  | initializeWith init => exact runtime.initializeWith_generation init
  | start => exact runtime.transition_generation _
  | pause => exact runtime.transition_generation _
  | resume => exact runtime.transition_generation _
  | stop => exact runtime.transition_generation _
  | resetStrategy => exact runtime.resetStrategy_generation
  | clearFault => exact runtime.clearFault_generation
  | onFill fill => exact runtime.notify_generation _ _
  | onOrderEvent event => exact runtime.notify_generation _ _

theorem stamps_of_handedOn_eq_none {op : RuntimeCall V P}
    (h : handedOn D plugin op runtime = none) : Stamps D plugin op runtime := by
  cases op with
  | evaluate => cases h
  | _ => trivial

/-- A call that hands on an intent counts it. The intent carries the count or zero, and
zero only where the step stamps nothing. -/
theorem step_handedOn {op : RuntimeCall V P} {intent : QuoteIntent}
    (h : handedOn D plugin op runtime = some intent) :
    (step D plugin op runtime).generation = runtime.generation + 1 ∧
      (intent.generation = 0 ∨ intent.generation = runtime.generation + 1) ∧
      (Stamps D plugin op runtime ↔
        intent.generation = runtime.generation + 1 ∨ runtime.generation = 0) := by
  cases op with
  | evaluate context readings =>
      cases h
      obtain ⟨hcounter, hstamp⟩ :=
        @evaluate_generation D _ τ V P plugin runtime context readings
      refine ⟨hcounter, ?_, ?_⟩
      · rw [hstamp]
        split
        · exact .inl rfl
        · exact .inr rfl
      · rw [hstamp]
        simp only [Stamps]
        split
        · rename_i hunstamped
          simp [hunstamped]
        · rename_i hstamped
          simp [hstamped]
  | _ => cases h

end Counter

/-! ## Order of the intents -/

section Order

variable {D plugin} {runtime : StrategyRuntime τ}

@[simp]
theorem intents_nil : intents D plugin [] runtime = [] := rfl

theorem intents_cons (op : RuntimeCall V P) (calls : List (RuntimeCall V P)) :
    intents D plugin (op :: calls) runtime =
      (handedOn D plugin op runtime).toList ++
        intents D plugin calls (step D plugin op runtime) := by
  simp only [intents, Machine.outputs, List.filterMap_cons]
  cases handedOn D plugin op runtime <;> rfl

/-- Once the counter has moved, a run whose steps stamp hands on generations above
it. -/
theorem generation_lt_of_mem_intents {calls : List (RuntimeCall V P)}
    (hstarted : 0 < runtime.generation)
    (halong : Machine.Along (step D plugin) (Stamps D plugin) calls runtime) :
    ∀ intent ∈ intents D plugin calls runtime, runtime.generation < intent.generation := by
  induction calls generalizing runtime with
  | nil => simp
  | cons op calls ih =>
      intro intent hmem
      rw [intents_cons, List.mem_append, Option.mem_toList] at hmem
      cases hhanded : handedOn D plugin op runtime with
      | none =>
          have hsame := runtime.step_generation D hhanded
          rw [hhanded] at hmem
          rcases hmem with hmem | hmem
          · cases hmem
          · rw [← hsame]
            exact ih (hsame ▸ hstarted) halong.2 intent hmem
      | some first =>
          obtain ⟨hcounter, -, hstamps⟩ := runtime.step_handedOn D hhanded
          rw [hhanded] at hmem
          rcases hmem with hmem | hmem
          · cases hmem
            have hstamped := hstamps.mp halong.1
            omega
          · have hlater := ih (by omega) halong.2 intent hmem
            omega

/-- A run that hands on no generation zero stamps at every step. -/
theorem along_of_generation_pos {calls : List (RuntimeCall V P)}
    (hpositive : ∀ intent ∈ intents D plugin calls runtime, 0 < intent.generation) :
    Machine.Along (step D plugin) (Stamps D plugin) calls runtime := by
  induction calls generalizing runtime with
  | nil => trivial
  | cons op calls ih =>
      simp only [intents_cons, List.mem_append, Option.mem_toList] at hpositive
      refine ⟨?_, ih fun intent hmem => hpositive intent (.inr hmem)⟩
      cases hhanded : handedOn D plugin op runtime with
      | none => exact runtime.stamps_of_handedOn_eq_none D hhanded
      | some first =>
          obtain ⟨-, hstamped, hstamps⟩ := runtime.step_handedOn D hhanded
          have hfirst := hpositive first (.inl hhanded)
          exact hstamps.mpr (.inl (by omega))

/-- A run whose steps stamp hands on increasing generations. -/
theorem pairwise_generation_of_along {calls : List (RuntimeCall V P)}
    (halong : Machine.Along (step D plugin) (Stamps D plugin) calls runtime) :
    (intents D plugin calls runtime).Pairwise fun first second =>
      first.generation < second.generation := by
  induction calls generalizing runtime with
  | nil => exact .nil
  | cons op calls ih =>
      rw [intents_cons]
      cases hhanded : handedOn D plugin op runtime with
      | none => exact ih halong.2
      | some first =>
          obtain ⟨hcounter, hstamped, -⟩ := runtime.step_handedOn D hhanded
          rw [Option.toList_some, List.singleton_append, List.pairwise_cons]
          refine ⟨fun intent hmem => ?_, ih halong.2⟩
          have hlater := generation_lt_of_mem_intents (by omega) halong.2 intent hmem
          omega

/-- From a runtime that has counted nothing, increasing generations leave no step that
does not stamp: after the first intent nothing is zero. -/
theorem along_of_pairwise_generation {calls : List (RuntimeCall V P)}
    (hfresh : runtime.generation = 0)
    (hincreasing : (intents D plugin calls runtime).Pairwise fun first second =>
      first.generation < second.generation) :
    Machine.Along (step D plugin) (Stamps D plugin) calls runtime := by
  induction calls generalizing runtime with
  | nil => trivial
  | cons op calls ih =>
      rw [intents_cons] at hincreasing
      cases hhanded : handedOn D plugin op runtime with
      | none =>
          have hsame := runtime.step_generation D hhanded
          rw [hhanded] at hincreasing
          exact ⟨runtime.stamps_of_handedOn_eq_none D hhanded, ih (hsame.trans hfresh) hincreasing⟩
      | some first =>
          obtain ⟨-, -, hstamps⟩ := runtime.step_handedOn D hhanded
          rw [hhanded, Option.toList_some, List.singleton_append, List.pairwise_cons] at hincreasing
          exact ⟨hstamps.mpr (.inr hfresh), along_of_generation_pos fun intent hmem =>
            Nat.zero_lt_of_lt (hincreasing.1 intent hmem)⟩

/-- The intents of a run, handed to a quote manager one after the other. -/
def feed (intents : List QuoteIntent) (inputs : List (QuoteManagerInput × Nanos)) :
    List QuoteManager.QuoteCall :=
  List.zipWith (fun intent input => .evaluate intent input.1 input.2) intents inputs

omit [Double D] in
theorem screen_ne_regression {manager : QuoteManager D} {intent : QuoteIntent}
    (h : manager.lastGeneration ≤ intent.generation) (input : QuoteManagerInput) (now : Nanos) :
    manager.screen intent input now ≠ .generationRegression := by
  rw [QuoteManager.screen, if_neg (Nat.not_lt.mpr h)]
  repeat' split
  all_goals decide

/-- Increasing generations from the watermark on are never answered as regressions. -/
theorem feed_never_regresses {manager : QuoteManager D} {handed : List QuoteIntent}
    (inputs : List (QuoteManagerInput × Nanos))
    (hincreasing : handed.Pairwise fun first second => first.generation < second.generation)
    (hwatermark : ∀ intent ∈ handed, manager.lastGeneration ≤ intent.generation) :
    ∀ result ∈ QuoteManager.answers (feed handed inputs) manager,
      result.rejection ≠ .generationRegression := by
  induction handed generalizing manager inputs with
  | nil => simp [feed, QuoteManager.answers, Machine.outputs]
  | cons intent handed ih =>
      cases inputs with
      | nil => simp [feed, QuoteManager.answers, Machine.outputs]
      | cons input inputs =>
          rw [List.pairwise_cons] at hincreasing
          rw [List.forall_mem_cons] at hwatermark
          intro result hmem
          rw [feed, List.zipWith_cons_cons, QuoteManager.answers, Machine.outputs,
            List.mem_cons] at hmem
          rcases hmem with rfl | hmem
          · rw [QuoteManager.answer, QuoteManager.call, QuoteManager.evaluate_rejection]
            exact screen_ne_regression hwatermark.1 _ _
          · refine ih inputs hincreasing.2 (fun later hlater => ?_) result hmem
            have hraised := manager.evaluate_lastGeneration_le intent input.1 input.2
            have hnext := hincreasing.1 later hlater
            have hbefore := hwatermark.2 later hlater
            exact hraised.trans (Nat.max_le.mpr ⟨hbefore, hnext.le⟩)

end Order

/-- A runtime as it is constructed. -/
def new (config : StrategyRuntimeConfig) (strategy : Option τ) : StrategyRuntime τ where
  config := config
  strategy := strategy

/-- The intents of a run increase strictly in generation, and no quote manager that
starts with the run answers one of them as a regression. -/
def InOrder (handed : List QuoteIntent) : Prop :=
  handed.Pairwise (fun first second => first.generation < second.generation) ∧
    ∀ (manager : QuoteManager D) (inputs : List (QuoteManagerInput × Nanos)),
      manager.lastGeneration = 0 → ∀ result ∈ QuoteManager.answers (feed handed inputs) manager,
        result.rejection ≠ .generationRegression

/-- Over every run of a new runtime, whatever is called and whatever the strategy
does, the intents are in order exactly when no evaluation but the first replaces an
intent after stamping it. -/
theorem in_order_iff_along (config : StrategyRuntimeConfig) (strategy : Option τ)
    (calls : List (RuntimeCall V P)) :
    InOrder D (intents D plugin calls (new config strategy)) ↔
      Machine.Along (step D plugin) (Stamps D plugin) calls (new config strategy) := by
  constructor
  · rintro ⟨hincreasing, -⟩
    exact along_of_pairwise_generation rfl hincreasing
  · intro halong
    have hincreasing := pairwise_generation_of_along halong
    refine ⟨hincreasing, fun manager inputs hfresh => ?_⟩
    refine feed_never_regresses inputs hincreasing fun intent _ => ?_
    rw [hfresh]
    exact Nat.zero_le _

/-- A strategy that reads its answers from a script. -/
def scripted : IStrategy (List QuoteIntent) Unit Unit where
  identity _ := .ok { name := sampleOwner, version := 1 }
  initializeWith _ script := (.ok .ok, script)
  onMarketUpdate _ script := (.ok (script.headD {}), script.tail)
  onTimer _ script := (.ok (script.headD {}), script.tail)
  onFill _ script := (.ok (), script)
  onOrderEvent _ script := (.ok (), script)
  reset script := (.ok (), script)

/-- A quotable book at one hundred against one hundred and two. -/
def sampleContext : StrategyContext Unit where
  bbo := { bidPx := .narrow 100, bidQty := .narrow 1, askPx := .narrow 102, askQty := .narrow 1 }
  sequence := 1
  instrument := some sampleSpec
  sessionState := .ready
  trigger := .bboChange
  view := ()

/-- A runtime is started and evaluates twice. -/
def sampleCalls : List (RuntimeCall Unit Unit) :=
  [.initializeWith
      { instrument := sampleSpec, identity := { name := sampleOwner, version := 1 }, params := () },
    .start, .evaluate sampleContext ⟨1, 2, 3⟩, .evaluate sampleContext ⟨4, 5, 6⟩]

/-- A quote, and then one with a price of zero. -/
def sampleScript : List QuoteIntent := [sampleIntent, { sampleIntent with bidPrice := .zero }]

/-- The intent that stands down for the refused quote is numbered zero. The quote
manager has processed generation one, takes it for an old one, and leaves the bid at
the venue. -/
theorem refused_quote_not_withdrawn :
    (intents ℚ scripted sampleCalls (new {} (some sampleScript))).map QuoteIntent.generation =
        [1, 0] ∧
      (QuoteManager.answers
          (feed (intents ℚ scripted sampleCalls (new {} (some sampleScript)))
            [(sampleInput {}, 3), (sampleInput (sampleOrder 0), 6)])
          sampleManager).map (fun result => (result.rejection, result.actions.length)) =
        [(.none, 2), (.generationRegression, 0)] ∧
      ¬InOrder ℚ (intents ℚ scripted sampleCalls (new {} (some sampleScript))) := by
  refine ⟨by decide +kernel, by decide +kernel, ?_⟩
  rintro ⟨hincreasing, -⟩
  revert hincreasing
  decide +kernel

end StrategyRuntime

end MmEngine.Strategy
