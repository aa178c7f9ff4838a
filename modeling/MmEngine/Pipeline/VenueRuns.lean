/-
# The venue's run inside a run of the pipeline

Along a run of the pipeline the venue makes a run of its own: the calls made of it, and
between them the requests of the order manager, each of which stands for an action that
was submitted. The fills in the sink are the fills that this run handed over.
-/

import MmEngine.Pipeline.AccountingPipeline

namespace MmEngine.Pipeline

open MmEngine.Exchange MmEngine.Exchange.Paper MmEngine.Oms MmEngine.Quote MmEngine.Risk

namespace AccountingPipeline

variable {Q : OrderAction → Prop}

/-- Every valid action that the operation submits satisfies `Q`. -/
def Op.Submits (Q : OrderAction → Prop) : Op → Prop
  | .submit approved => approved.valid = true → Q approved.action
  | _ => True

theorem submits_true (ops : List Op) : ∀ op ∈ ops, op.Submits fun _ => True := by
  intro op _
  cases op with
  | submit approved => exact fun _ => trivial
  | _ => trivial

/-- What an operation relies on in the order manager: its numbering, and deferred News that
were submitted. -/
structure Standing (Q : OrderAction → Prop) (w : World PaperExecution) : Prop where
  numbered : w.oms.toOmsState.Numbered
  held : HeldNews Q w.oms.toOmsState

/-- The world comes out of another by requests for actions in `Q`, and stands as it did. -/
structure Requests (Q : OrderAction → Prop) (w after : World PaperExecution) : Prop where
  standing : Standing Q after
  handed : Handed PaperExecution.port (Backed Q) w.venue after.venue

theorem Standing.managed {w : World PaperExecution} (h : Standing Q w)
    {op : Oms.Op PaperExecution} (hsubmits : Submits Q op) :
    Standing Q (Oms.step PaperExecution.port op w) where
  numbered := step_numbered _ op w h.numbered
  held := step_heldNews _ hsubmits h.numbered h.held

theorem Standing.requests {w : World PaperExecution} (h : Standing Q w)
    {op : Oms.Op PaperExecution} (hstill : op.movesVenue = false) (hsubmits : Submits Q op) :
    Requests Q w (Oms.step PaperExecution.port op w) where
  standing := h.managed hsubmits
  handed := step_handed _ hstill hsubmits h.numbered h.held

/-- Draining the queue applies one event after the other. -/
theorem Standing.processEvents {w : World PaperExecution} (h : Standing Q w) :
    Requests Q w (Oms.processEvents PaperExecution.port w).2 := by
  rw [processEvents_eq_run]
  refine Machine.invariant_run (C := fun op _ => ∃ event, op = Oms.Op.apply event)
    (I := Requests Q w) ?_ ⟨⟨h.numbered, h.held⟩, .refl⟩ ?_
  · rintro _ current hcurrent ⟨event, rfl⟩
    have hnone : Submits Q (.apply event : Oms.Op PaperExecution) := by simp [Submits]
    have hnext := hcurrent.standing.requests rfl hnone
    exact ⟨hnext.standing, hcurrent.handed.trans hnext.handed⟩
  · rw [Machine.along_label_iff]
    intro op hop
    obtain ⟨event, -, rfl⟩ := List.mem_map.mp hop
    exact ⟨event, rfl⟩

/-- An operation that is no call of the venue comes out by requests, and the sink gets
nothing. -/
theorem step_requests {op : Op} (hcall : ∀ call, op ≠ .venue call) {p : AccountingPipeline}
    (hsubmits : op.Submits Q) (h : Standing Q p.trading) :
    Requests Q p.trading (step op p).trading ∧ (step op p).sink = p.sink := by
  have hother : ∀ op : Oms.Op PaperExecution, op.movesVenue = false →
      (∀ approved, op ≠ .submit approved) → Requests Q p.trading (p.manage op).trading :=
    fun op hstill hnone => h.requests hstill fun approved heq => absurd heq (hnone approved)
  cases op with
  | venue call => exact absurd rfl (hcall call)
  | submit approved =>
      have hsubmitted : Submits Q (.submit approved : Oms.Op PaperExecution) := by
        rintro other heq
        cases heq
        exact hsubmits
      exact ⟨h.requests (by rfl) hsubmitted, rfl⟩
  | processEvents => exact ⟨h.processEvents, rfl⟩
  | onTimer => exact ⟨hother .onTimer rfl (by simp), rfl⟩
  | reconcile snapshot =>
      exact ⟨hother (.reconcile snapshot) rfl (by simp), rfl⟩
  | resolve id target =>
      exact ⟨hother (.resolve id target) rfl (by simp), rfl⟩
  | attachExecution => exact ⟨hother .attachExecution rfl (by simp), rfl⟩
  | restart config => exact ⟨hother (.restart config) rfl (by simp), rfl⟩
  | registerSymbol _ | onMark _ | onBalance _ | clearFault _ => exact ⟨⟨h, .refl⟩, rfl⟩

/-- A call of the venue moves the venue by that call, and the sink keeps the fills it hands
over. -/
theorem callVenue_spec (call : PaperExecution.Op) (p : AccountingPipeline) :
    (p.callVenue call).trading.venue = PaperExecution.step call p.trading.venue ∧
      (p.callVenue call).trading.oms.toOmsState =
        advanceClock (elapsed call) p.trading.oms.toOmsState ∧
      fillsIn (p.callVenue call).sink.fills =
        fillsIn p.sink.fills ++ fillsIn (PaperExecution.emitted call p.trading.venue) :=
  foldl_onExecution _ _

theorem Standing.callVenue {p : AccountingPipeline} (h : Standing Q p.trading)
    (call : PaperExecution.Op) : Standing Q (p.callVenue call).trading := by
  obtain ⟨-, homs, -⟩ := p.callVenue_spec call
  have hadvanced : Standing Q ((p.manage (.venue (PaperExecution.step call))).manage
      (.advance (elapsed call))).trading := by
    have hmoved : Submits Q (.venue (PaperExecution.step call)) := by simp [Submits]
    have helapsed : Submits Q (.advance (elapsed call) : Oms.Op PaperExecution) := by
      simp [Submits]
    exact (h.managed hmoved).managed helapsed
  exact ⟨homs ▸ hadvanced.numbered, homs ▸ hadvanced.held⟩

theorem Standing.stepped {p : AccountingPipeline} {op : Op} (hsubmits : op.Submits Q)
    (h : Standing Q p.trading) : Standing Q (step op p).trading := by
  by_cases hcall : ∃ call, op = .venue call
  · obtain ⟨call, rfl⟩ := hcall
    exact h.callVenue call
  · exact (step_requests (fun call heq => hcall ⟨call, heq⟩) hsubmits h).1.standing

theorem Standing.run {p : AccountingPipeline} {ops : List Op} (hops : ∀ op ∈ ops, op.Submits Q)
    (h : Standing Q p.trading) : Standing Q (Machine.run step ops p).trading := by
  induction ops generalizing p with
  | nil => exact h
  | cons op ops ih =>
      obtain ⟨hop, hlater⟩ := List.forall_mem_cons.mp hops
      exact ih hlater (h.stepped hop)

theorem standing_init (oms : OmsConfig) (venue : PaperExecutionConfig)
    (accounting : Portfolio.AccountingConfig) (clock wall : Nanos) :
    Standing Q (init oms venue accounting clock wall).trading where
  numbered := numbered_init oms clock
  held := by
    intro entry waiting hentry
    have hnone : (List.replicate oms.maxOrders (none : Option DeferredNew))[entry]? =
        some (some waiting) := hentry
    simp [List.getElem?_replicate] at hnone

/-- A call of the venue along a run: one the run makes, or a request for an action in
`Q`. -/
def CallOf (Q : OrderAction → Prop) (ops : List Op) (call : PaperExecution.Op) : Prop :=
  .venue call ∈ ops ∨ ∃ request, Backed Q request ∧ call = requestCall request

/-- The part of a run of the pipeline that is the venue's: the calls, where they lead, what they
execute, and the fills they hand to the sink. -/
structure VenuePart (calls : List PaperExecution.Op) (ops : List Op)
    (p : AccountingPipeline) : Prop where
  venue : (Machine.run step ops p).trading.venue =
    Machine.run PaperExecution.step calls p.trading.venue
  trades : trades ops p = PaperExecution.history calls p.trading.venue
  fills : fillsIn (Machine.run step ops p).sink.fills =
    fillsIn p.sink.fills ++ fillsIn (PaperExecution.allEmitted calls p.trading.venue)

theorem VenuePart.nil (p : AccountingPipeline) : VenuePart [] [] p :=
  ⟨rfl, rfl, (List.append_nil _).symm⟩

theorem VenuePart.cons {op : Op} {ops : List Op} {first rest : List PaperExecution.Op}
    {p : AccountingPipeline} (h : VenuePart first [op] p) (h' : VenuePart rest ops (step op p)) :
    VenuePart (first ++ rest) (op :: ops) p := by
  have hvenue : (step op p).trading.venue =
      Machine.run PaperExecution.step first p.trading.venue := h.venue
  have hfills : fillsIn (step op p).sink.fills = fillsIn p.sink.fills ++
      fillsIn (PaperExecution.allEmitted first p.trading.venue) := h.fills
  refine ⟨?_, ?_, ?_⟩
  · rw [Machine.run_cons, h'.venue, hvenue, Machine.run_append]
  · have htrades : AccountingPipeline.trades (op :: ops) p =
        AccountingPipeline.trades [op] p ++ AccountingPipeline.trades ops (step op p) := by
      simp [AccountingPipeline.trades, Machine.outputs]
    rw [htrades, h.trades, h'.trades, hvenue, PaperExecution.history_append]
  · rw [Machine.run_cons, h'.fills, hvenue, hfills, PaperExecution.allEmitted_append,
      fillsIn_append, List.append_assoc]

theorem venuePart_call (call : PaperExecution.Op) (p : AccountingPipeline) :
    VenuePart [call] [.venue call] p := by
  obtain ⟨hvenue, -, hfills⟩ := p.callVenue_spec call
  refine ⟨hvenue, rfl, ?_⟩
  rw [PaperExecution.allEmitted_cons, PaperExecution.allEmitted_nil, List.append_nil]
  exact hfills

/-- Along a run of the pipeline the venue runs. -/
theorem exists_venuePart {ops : List Op} (hops : ∀ op ∈ ops, op.Submits Q) {p : AccountingPipeline}
    (h : Standing Q p.trading) :
    ∃ calls, (∀ call ∈ calls, CallOf Q ops call) ∧ VenuePart calls ops p := by
  induction ops generalizing p with
  | nil => exact ⟨[], by simp, .nil p⟩
  | cons op ops ih =>
      obtain ⟨hop, hlater⟩ := List.forall_mem_cons.mp hops
      obtain ⟨first, hfirst, hpart⟩ : ∃ first : List PaperExecution.Op,
          (∀ call ∈ first, CallOf Q (op :: ops) call) ∧ VenuePart first [op] p := by
        by_cases hcall : ∃ call, op = .venue call
        · obtain ⟨call, rfl⟩ := hcall
          refine ⟨[call], fun other hother => ?_, venuePart_call call p⟩
          exact .inl (List.mem_singleton.mp hother ▸ List.mem_cons_self)
        · obtain ⟨hrequests, hsink⟩ :=
            step_requests (fun call heq => hcall ⟨call, heq⟩) hop h
          obtain ⟨requests, hbacked, hvenue, hhanded, hexecuted⟩ :=
            exists_calls_of_handed hrequests.handed
          refine ⟨requests.map requestCall, fun call hmem => ?_, hvenue, ?_, ?_⟩
          · obtain ⟨request, hrequest, rfl⟩ := List.mem_map.mp hmem
            exact .inr ⟨request, hbacked request hrequest, rfl⟩
          · rw [hexecuted]
            cases op with
            | venue call => exact absurd ⟨call, rfl⟩ hcall
            | _ => rfl
          · rw [hhanded, fillsIn_nil, List.append_nil]
            exact congrArg (fun sink => fillsIn sink.fills) hsink
      obtain ⟨rest, hrest, hrestPart⟩ := ih hlater (h.stepped hop)
      refine ⟨first ++ rest, fun call hmem => ?_, hpart.cons hrestPart⟩
      rcases List.mem_append.mp hmem with hearlier | hlast
      · exact hfirst call hearlier
      · exact (hrest call hlast).imp (List.mem_cons_of_mem op) id

end AccountingPipeline

end MmEngine.Pipeline
