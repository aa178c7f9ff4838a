/-
# Slot safety

Whatever the manager remembers and whatever it is told, the actions of an evaluation
never touch an order that is not its own, never compete with an order whose fate is
open, rewrite each slot at most once with the cancel first, and quote exactly what
the intent asks for. Each of these is a fact about one action of one exit; the counts
and the order follow from the outcomes alone.
-/

import MmEngine.Quote.SlotExits

namespace MmEngine.Quote

open MmEngine.Exchange
open MmEngine.Strategy

/-- The intent asks for this price and this size in this slot. -/
def Asks (intent : QuoteIntent) (slot : QuoteSlot) (price : Px) (quantity : Qty) : Prop :=
  intent.action = .quote ∧
    match slot with
    | .bid => intent.quoteBid = true ∧ price = intent.bidPrice ∧ quantity = intent.bidQuantity
    | .ask => intent.quoteAsk = true ∧ price = intent.askPrice ∧ quantity = intent.askQuantity

/-- The actions an outcome announces for its slot. -/
def announced (slot : QuoteSlot) (outcome : SlotOutcome) : List (QuoteSlot × OrderActionType) :=
  outcome.requests.map fun type => (slot, type)

/-- Creates or moves an order in the slot. -/
def rewrites (slot : QuoteSlot) (move : QuoteSlot × OrderActionType) : Bool :=
  decide (move.1 = slot) && (decide (move.2 = .new) || decide (move.2 = .replace))

def cancels (slot : QuoteSlot) (move : QuoteSlot × OrderActionType) : Bool :=
  decide (move.1 = slot) && decide (move.2 = .cancel)

/-- The second does not cancel what the first has just created. -/
def CancelFirst (first second : QuoteSlot × OrderActionType) : Prop :=
  first.1 = second.1 → first.2 = .new → second.2 ≠ .cancel

instance (first second : QuoteSlot × OrderActionType) : Decidable (CancelFirst first second) :=
  inferInstanceAs (Decidable (_ → _ → _))

theorem countP_rewrites_announced_le (slot which : QuoteSlot) (outcome : SlotOutcome) :
    (announced which outcome).countP (rewrites slot) ≤ if which = slot then 1 else 0 := by
  cases slot <;> cases which <;> cases outcome <;> decide

theorem countP_cancels_announced_le (slot which : QuoteSlot) (outcome : SlotOutcome) :
    (announced which outcome).countP (cancels slot) ≤ if which = slot then 1 else 0 := by
  cases slot <;> cases which <;> cases outcome <;> decide

theorem pairwise_cancelFirst_announced (slot : QuoteSlot) (outcome : SlotOutcome) :
    (announced slot outcome).Pairwise CancelFirst := by
  cases outcome <;> simp [announced, SlotOutcome.requests, CancelFirst]

theorem fst_of_mem_announced {slot : QuoteSlot} {outcome : SlotOutcome}
    {move : QuoteSlot × OrderActionType} (h : move ∈ announced slot outcome) : move.1 = slot := by
  obtain ⟨type, -, rfl⟩ := List.mem_map.mp h
  rfl

/-! Counts and order of what the two slots announce together. -/

section Announced

variable (bid ask : SlotOutcome)

theorem countP_rewrites_le (slot : QuoteSlot) :
    (announced .bid bid ++ announced .ask ask).countP (rewrites slot) ≤ 1 := by
  have hbid := countP_rewrites_announced_le slot .bid bid
  have hask := countP_rewrites_announced_le slot .ask ask
  rw [List.countP_append]
  cases slot <;> simp only [reduceIte, reduceCtorEq] at hbid hask <;> omega

theorem countP_cancels_le (slot : QuoteSlot) :
    (announced .bid bid ++ announced .ask ask).countP (cancels slot) ≤ 1 := by
  have hbid := countP_cancels_announced_le slot .bid bid
  have hask := countP_cancels_announced_le slot .ask ask
  rw [List.countP_append]
  cases slot <;> simp only [reduceIte, reduceCtorEq] at hbid hask <;> omega

theorem length_announced_le :
    (announced .bid bid ++ announced .ask ask).length ≤ kMaxActionsPerEvaluation := by
  have hbid := bid.length_requests_le
  have hask := ask.length_requests_le
  simp only [announced, List.length_append, List.length_map, kMaxActionsPerEvaluation]
  omega

theorem pairwise_cancelFirst :
    (announced .bid bid ++ announced .ask ask).Pairwise CancelFirst := by
  rw [List.pairwise_append]
  refine ⟨pairwise_cancelFirst_announced _ _, pairwise_cancelFirst_announced _ _, ?_⟩
  -- Across the slots there is nothing to compare.
  intro first hfirst second hsecond hslot
  rw [fst_of_mem_announced hfirst, fst_of_mem_announced hsecond] at hslot
  cases hslot

end Announced

namespace QuoteManager

variable {D : Type} [Double D] {manager : QuoteManager D} {slot : QuoteSlot}
  {desired : DesiredQuote} {intent : QuoteIntent} {input : QuoteManagerInput} {now : Nanos}

omit [Double D] in
theorem objection_eq_none_of_validate (hwanted : desired.wanted = true)
    (hvalid : validate slot desired input now = .none) :
    objection slot desired input now = none := by
  simp only [validate, hwanted, Bool.not_true, Bool.false_eq_true, if_false] at hvalid
  cases hobjection : objection slot desired input now with
  | none => rfl
  | some refusal =>
      simp only [hobjection] at hvalid
      split at hvalid
      · contradiction
      · cases hvalid

omit [Double D] in
theorem ticksBetween_self (price tick : Px) : ticksBetween price price tick = 0 := by
  simp [ticksBetween, Fixed.sub_self_eq_zero]

/-- An order represents itself, as soon as a price must move by a tick to count. -/
theorem represents_resting (hticks : 1 ≤ manager.config.minPriceMoveTicks) {order : WorkingOrder}
    (hlive : order.isLive = true) (spec : InstrumentSpec) :
    manager.represents order ⟨order.isLive, order.price, order.remaining⟩ spec = true := by
  have hstill : ¬manager.config.minPriceMoveTicks ≤ 0 := by omega
  simp [represents, hlive, ticksBetween_self, Fixed.sub_self_eq_zero, hstill]

/-- A slot whose resting order differs from the desired quote is not one that is to be
left alone. -/
theorem SlotDiffers.asks (hticks : 1 ≤ manager.config.minPriceMoveTicks)
    (hdiffers : manager.SlotDiffers slot (desiredQuote intent input.working slot) input)
    (hwanted : (desiredQuote intent input.working slot).wanted = true) :
    Asks intent slot (desiredQuote intent input.working slot).price
      (desiredQuote intent input.working slot).quantity := by
  have hrests := represents_resting hticks hdiffers.live (input.instrument.getD {})
  have hdiffer := hdiffers.differs
  cases haction : intent.action with
  | quote => cases slot <;> simp_all [desiredQuote, Asks]
  | pull => simp [desiredQuote, haction] at hwanted
  | noChange =>
      simp only [desiredQuote, haction, hrests] at hdiffer
      cases hdiffer

omit [Double D] in
/-- A slot where nothing rests and a quote is wanted is asked for by the intent. -/
theorem asks_of_not_live (hnotLive : (input.working.slot slot).isLive = false)
    (hwanted : (desiredQuote intent input.working slot).wanted = true) :
    Asks intent slot (desiredQuote intent input.working slot).price
      (desiredQuote intent input.working slot).quantity := by
  cases haction : intent.action with
  | quote => cases slot <;> simp_all [desiredQuote, Asks]
  | pull => simp [desiredQuote, haction] at hwanted
  | noChange =>
      simp only [desiredQuote, haction, hnotLive] at hwanted
      cases hwanted

/-- What holds of every action a slot's resolution requests. -/
structure ActionSafe (manager : QuoteManager D) (slot : QuoteSlot) (desired : DesiredQuote)
    (intent : QuoteIntent) (input : QuoteManagerInput) (now : Nanos) (action : OrderAction) :
    Prop where
  slot_eq : action.slot = slot
  owned : manager.Owned slot (input.working.slot slot)
  identity : action.identity = intent.identity
  generation : action.generation = intent.generation
  addressed : (action.targetClientOrderId, action.targetExchangeOrderId) =
    if action.type = .new then (.empty, .empty)
    else ((input.working.slot slot).clientOrderId, (input.working.slot slot).exchangeOrderId)
  /-- A created or moved order comes from a slot that may be quoted, and shows the
  desired quote. -/
  quotes : action.addsExposure = true → manager.SlotReady slot desired input now ∧
    action.price = desired.price ∧ action.quantity = desired.quantity
  /-- What is moved rests. -/
  live : action.type = .replace → (input.working.slot slot).isLive = true

theorem SlotExit.actionSafe {decision : SlotDecision} {actions : List OrderAction}
    (hexit : manager.SlotExit slot desired intent input now decision actions) :
    ∀ action ∈ actions, manager.ActionSafe slot desired intent input now action := by
  have hcancel : ∀ reason, manager.Owned slot (input.working.slot slot) →
      manager.ActionSafe slot desired intent input now
        (addressed (makeAction .cancel slot reason intent input now) (input.working.slot slot)) :=
    fun reason howned => ⟨rfl, howned, rfl, rfl, rfl, fun hadds => (by cases hadds),
      fun htype => (by cases htype)⟩
  have hnew : ∀ reason, manager.SlotReady slot desired input now →
      manager.ActionSafe slot desired intent input now
        (quoting (makeAction .new slot reason intent input now) desired) :=
    fun reason hready => ⟨rfl, hready.owned, rfl, rfl, rfl, fun _ => ⟨hready, rfl, rfl⟩,
      fun htype => by cases htype⟩
  intro action hmem
  cases hexit with
  | keep => cases hmem
  | quiet => cases hmem
  | cancel _ howned _ reason =>
      rw [List.mem_singleton.mp hmem]
      exact hcancel reason howned
  | new _ hready _ reason =>
      rw [List.mem_singleton.mp hmem]
      exact hnew reason hready
  | replace _ hready hdiffers reason =>
      rw [List.mem_singleton.mp hmem]
      exact ⟨rfl, hready.owned, rfl, rfl, rfl, fun _ => ⟨hready, rfl, rfl⟩, fun _ => hdiffers.live⟩
  | cancelThenNew _ hready _ reason =>
      rw [List.mem_cons, List.mem_singleton] at hmem
      rcases hmem with rfl | rfl
      · exact hcancel reason hready.owned
      · exact hnew reason hready

/-- An action that creates or moves an order shows what the intent asks for. -/
theorem SlotExit.asks (hticks : 1 ≤ manager.config.minPriceMoveTicks) {decision : SlotDecision}
    {actions : List OrderAction}
    (hexit : manager.SlotExit slot (desiredQuote intent input.working slot) intent input now
      decision actions) :
    ∀ action ∈ actions, action.addsExposure = true →
      Asks intent slot (desiredQuote intent input.working slot).price
        (desiredQuote intent input.working slot).quantity := by
  intro action hmem hadds
  cases hexit with
  | keep => cases hmem
  | quiet => cases hmem
  | cancel =>
      rw [List.mem_singleton.mp hmem] at hadds
      cases hadds
  | new _ hready hnotLive => exact asks_of_not_live hnotLive hready.wanted
  | replace _ hready hdiffers => exact hdiffers.asks hticks hready.wanted
  | cancelThenNew _ hready hdiffers => exact hdiffers.asks hticks hready.wanted

/-! ## A whole evaluation -/

/-- The slots and kinds of a result's actions, in order. -/
def moves (result : QuoteManagerResult) : List (QuoteSlot × OrderActionType) :=
  result.actions.map fun action => (action.slot, action.type)

theorem SlotExit.moves_eq {decision : SlotDecision} {actions : List OrderAction}
    (hexit : manager.SlotExit slot desired intent input now decision actions) :
    (actions.map fun action => (action.slot, action.type)) = announced slot decision.outcome := by
  rw [announced, ← hexit.map_type, List.map_map]
  exact List.map_congr_left fun action hmem =>
    congrArg (·, action.type) (hexit.actionSafe action hmem).slot_eq

section Both

variable {result : QuoteManagerResult} {wanted : QuoteSlot → DesiredQuote}

theorem BothEnd.moves_eq (h : manager.BothEnd wanted intent input now result) :
    moves result = announced .bid result.bid.outcome ++ announced .ask result.ask.outcome := by
  obtain ⟨bid, ask, hbid, hask, hactions⟩ := h
  rw [moves, hactions, List.map_append, hbid.moves_eq, hask.moves_eq]

theorem BothEnd.actionSafe (h : manager.BothEnd wanted intent input now result)
    {action : OrderAction} (hmem : action ∈ result.actions) :
    manager.ActionSafe action.slot (wanted action.slot) intent input now action := by
  obtain ⟨bid, ask, hbid, hask, hactions⟩ := h
  rw [hactions, List.mem_append] at hmem
  rcases hmem with hmem | hmem
  · have hsafe := hbid.actionSafe action hmem
    rwa [← hsafe.slot_eq] at hsafe
  · have hsafe := hask.actionSafe action hmem
    rwa [← hsafe.slot_eq] at hsafe

theorem BothEnd.asks (hticks : 1 ≤ manager.config.minPriceMoveTicks)
    (h : manager.BothEnd (desiredQuote intent input.working) intent input now result)
    {action : OrderAction} (hmem : action ∈ result.actions) (hadds : action.addsExposure = true) :
    Asks intent action.slot action.price action.quantity := by
  obtain ⟨-, hprice, hquantity⟩ := (h.actionSafe hmem).quotes hadds
  rw [hprice, hquantity]
  obtain ⟨bid, ask, hbid, hask, hactions⟩ := h
  rw [hactions, List.mem_append] at hmem
  rcases hmem with hmem | hmem
  · rw [(hbid.actionSafe action hmem).slot_eq]
    exact hbid.asks hticks action hmem hadds
  · rw [(hask.actionSafe action hmem).slot_eq]
    exact hask.asks hticks action hmem hadds

end Both

/-- What the actions of an evaluation never do, and what each of them carries. -/
structure EvaluationSafe (manager : QuoteManager D) (intent : QuoteIntent)
    (input : QuoteManagerInput) (now : Nanos) (result : QuoteManagerResult) : Prop where
  /-- A slot with somebody else's order receives nothing. -/
  foreign : ∀ slot, (input.working.slot slot).present = true →
    (input.working.slot slot).owner.matchesSlot manager.owner slot = false →
    ∀ action ∈ result.actions, action.slot ≠ slot
  /-- A slot that is uncertain or has a request outstanding is not rewritten. -/
  frozen : ∀ slot, (input.working.slot slot).isUncertain = true ∨
      (input.working.slot slot).hasPendingRequest = true →
    ∀ action ∈ result.actions, action.slot = slot → action.type ≠ .new ∧ action.type ≠ .replace
  once : ∀ slot, (moves result).countP (rewrites slot) ≤ 1 ∧
    (moves result).countP (cancels slot) ≤ 1
  cancelFirst : (moves result).Pairwise CancelFirst
  bounded : result.actions.length ≤ kMaxActionsPerEvaluation
  /-- No action that a decision announces is missing. -/
  complete : moves result =
    announced .bid result.bid.outcome ++ announced .ask result.ask.outcome
  /-- Actions speak for the intent, and for the owner when they withdraw. -/
  stamped : ∀ action ∈ result.actions,
    if result.rejection = .none then
      action.identity = intent.identity ∧ action.generation = intent.generation
    else action.identity.name = manager.owner ∧ action.generation = manager.lastGeneration
  addressed : ∀ action ∈ result.actions,
    (action.targetClientOrderId, action.targetExchangeOrderId) =
      if action.type = .new then (.empty, .empty)
      else ((input.working.slot action.slot).clientOrderId,
        (input.working.slot action.slot).exchangeOrderId)
  /-- What is created or moved is what the intent asks for, and a valid order. -/
  quotes : ∀ action ∈ result.actions, action.addsExposure = true →
    Asks intent action.slot action.price action.quantity ∧
      objection action.slot ⟨true, action.price, action.quantity⟩ input now = none

omit [Double D] in
theorem addsExposure_of_type {action : OrderAction}
    (h : action.type = .new ∨ action.type = .replace) :
    action.addsExposure = true := by
  rcases h with h | h <;> simp [OrderAction.addsExposure, h]

/-- Everything but what depends on whose intent it was. -/
theorem BothEnd.evaluationSafe {voice : QuoteIntent} {wanted : QuoteSlot → DesiredQuote}
    {result : QuoteManagerResult} (h : manager.BothEnd wanted voice input now result)
    (hstamped : if result.rejection = .none then voice = intent
      else voice = manager.syntheticIntent)
    (hasks : ∀ action ∈ result.actions, action.addsExposure = true →
      Asks intent action.slot action.price action.quantity) :
    manager.EvaluationSafe intent input now result := by
  have hmoves := h.moves_eq
  refine ⟨?_, ?_, ?_, ?_, ?_, hmoves, ?_, ?_, ?_⟩
  · intro slot hpresent hforeign action hmem hslot
    have howned := (h.actionSafe hmem).owned
    rw [hslot] at howned
    rw [howned hpresent] at hforeign
    cases hforeign
  · intro slot hfrozen action hmem hslot
    have hquiet : ¬(action.type = .new ∨ action.type = .replace) := by
      intro htype
      have hready := ((h.actionSafe hmem).quotes (addsExposure_of_type htype)).1
      rw [hslot] at hready
      rcases hfrozen with hfrozen | hfrozen
      · rw [hready.certain] at hfrozen
        cases hfrozen
      · rw [hready.settled] at hfrozen
        cases hfrozen
    exact not_or.mp hquiet
  · intro slot
    rw [hmoves]
    exact ⟨countP_rewrites_le _ _ slot, countP_cancels_le _ _ slot⟩
  · rw [hmoves]
    exact pairwise_cancelFirst _ _
  · have hlength := congrArg List.length hmoves
    rw [moves, List.length_map] at hlength
    rw [hlength]
    exact length_announced_le _ _
  · intro action hmem
    have hsafe := h.actionSafe hmem
    rw [hsafe.identity, hsafe.generation]
    split
    · rename_i haccepted
      rw [if_pos haccepted] at hstamped
      exact ⟨congrArg _ hstamped, congrArg _ hstamped⟩
    · rename_i hrefused
      rw [if_neg hrefused] at hstamped
      rw [hstamped]
      exact ⟨rfl, rfl⟩
  · exact fun action hmem => (h.actionSafe hmem).addressed
  · intro action hmem hadds
    obtain ⟨hready, hprice, hquantity⟩ := (h.actionSafe hmem).quotes hadds
    refine ⟨hasks action hmem hadds, ?_⟩
    rw [hprice, hquantity, ← hready.wanted]
    exact objection_eq_none_of_validate hready.wanted hready.valid

/-- Slot safety of an evaluation. -/
theorem evaluate_safe (manager : QuoteManager D) (hticks : 1 ≤ manager.config.minPriceMoveTicks)
    (intent : QuoteIntent) (input : QuoteManagerInput) (now : Nanos) :
    manager.EvaluationSafe intent input now (manager.evaluate intent input now).1 := by
  rcases manager.evaluate_evaluated intent input now with
    ⟨-, hrejection, hboth, -⟩ | ⟨hwithdraw, hrejection, hboth, -⟩ | ⟨hscreen, hresult, -⟩
  · exact hboth.evaluationSafe (if_pos hrejection ▸ rfl) fun action => hboth.asks hticks
  · refine hboth.evaluationSafe ?_ ?_
    · rw [if_neg]
      intro hnone
      rw [← hrejection, hnone] at hwithdraw
      cases hwithdraw
    · -- Nothing is wanted when the quotes are withdrawn.
      intro action hmem hadds
      cases ((hboth.actionSafe hmem).quotes hadds).1.wanted
  · have hidle : ∀ {slot}, ¬manager.Represented slot {} input now := fun h => by
      cases h.ready.wanted
    have hboth : manager.BothEnd (fun _ => {}) manager.syntheticIntent input now
        (manager.evaluate intent input now).1 := by
      rw [hresult]
      exact ⟨[], [], .quiet rfl (by simp) hidle, .quiet rfl (by simp) hidle, rfl⟩
    have hsilent : (manager.evaluate intent input now).1.actions = [] := by rw [hresult]
    refine hboth.evaluationSafe ?_ ?_
    · rw [if_neg]
      rw [hresult]
      exact hscreen
    · intro action hmem
      rw [hsilent] at hmem
      cases hmem

end QuoteManager

def sampleOwner : StrategyName := ⟨"maker".toList, by decide⟩

def sampleSymbol : Symbol := ⟨"ETHUSDT".toList, by decide⟩

/-- A tick and a lot of one raw unit, and no further rules. -/
def sampleSpec : InstrumentSpec where
  symbol := sampleSymbol
  tickSize := .narrow 1
  lotSize := .narrow 1
  status := .trading

/-- The manager's bid of ten at one hundred, with some of it filled. -/
def sampleOrder (filled : Int) : WorkingOrder where
  present := true
  owner := { strategy := sampleOwner, slot := .bid }
  price := .narrow 100
  originalQuantity := .narrow 10
  cumulativeQuantity := .narrow filled
  status := .new
  clientOrderId := ⟨"bid-1".toList, by decide⟩

/-- A venue that replaces atomically, with this order in the bid slot. -/
def sampleInput (order : WorkingOrder) : QuoteManagerInput where
  symbol := sampleSymbol
  instrument := some sampleSpec
  capabilities := some { supportsReplace := true }
  working := { bid := order }

/-- Ten at one hundred against ten at one hundred and two. -/
def sampleIntent : QuoteIntent where
  action := .quote
  quoteBid := true
  quoteAsk := true
  bidPrice := .narrow 100
  askPrice := .narrow 102
  bidQuantity := .narrow 10
  askQuantity := .narrow 10
  identity := { name := sampleOwner, version := 1 }
  generation := 1

def sampleManager : QuoteManager ℚ where
  owner := sampleOwner
  config := { minQuantityMoveFraction := 0 }

/-- A partly filled bid is replaced and a missing ask created. -/
theorem QuoteManager.evaluate_safe_partial_fill :
    (moves (sampleManager.evaluate sampleIntent (sampleInput (sampleOrder 4)) 1).1 =
        [(.bid, .replace), (.ask, .new)]) ∧
      sampleManager.EvaluationSafe sampleIntent (sampleInput (sampleOrder 4)) 1
        (sampleManager.evaluate sampleIntent (sampleInput (sampleOrder 4)) 1).1 :=
  ⟨by decide +kernel, QuoteManager.evaluate_safe sampleManager (by decide) _ _ _⟩

end MmEngine.Quote
