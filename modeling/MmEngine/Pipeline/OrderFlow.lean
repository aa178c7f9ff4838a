/-
# What the pipeline asks the venue for

Over a run of the pipeline the venue is asked for one order at most for each New that is
submitted, however late it is released, and at the prices and quantities of what is
submitted and of what was deferred.
-/

import MmEngine.Exchange.Paper.OrderTerms
import MmEngine.Oms.NewRequests
import MmEngine.Pipeline.VenueRuns

namespace MmEngine.Pipeline

open MmEngine.Exchange MmEngine.Exchange.Paper MmEngine.Oms MmEngine.Quote MmEngine.Risk

namespace AccountingPipeline

/-- The orders the venue has been asked for and the News that are deferred. -/
def outstanding (p : AccountingPipeline) : Nat := p.trading.outstanding PaperExecution.asked

/-- How many orders an operation asks for. -/
def Op.news : Op → Nat
  | .submit approved => (Oms.Op.submit approved : Oms.Op PaperExecution).news
  | .venue call => call.submits
  | _ => 0

theorem countsSubmits : CountsSubmits PaperExecution.port PaperExecution.asked where
  submit request venue := venue.step_asked_le (.submit request)
  cancel request venue := venue.step_asked_le (.cancel request)
  replace request venue := venue.step_asked_le (.replace request)

theorem processEvents_outstanding_le {w : World PaperExecution}
    (hnumbered : w.oms.toOmsState.Numbered) :
    (processEvents PaperExecution.port w).2.outstanding PaperExecution.asked ≤
      w.outstanding PaperExecution.asked := by
  rw [processEvents_eq_run]
  refine (Machine.invariant_run (C := fun op _ => ∃ event, op = Oms.Op.apply event)
    (I := fun after : World PaperExecution => after.oms.toOmsState.Numbered ∧
      after.outstanding PaperExecution.asked ≤ w.outstanding PaperExecution.asked)
    (s := w.withOms fun m => { m with queue := [] }) ?_ ⟨hnumbered, le_rfl⟩ ?_).2
  · rintro _ after ⟨hafter, hle⟩ ⟨event, rfl⟩
    have hstep := Oms.step_outstanding_le countsSubmits
      (show (Oms.Op.apply event : Oms.Op PaperExecution).movesVenue = false from rfl) hafter
    exact ⟨step_numbered _ _ after hafter, hstep.trans hle⟩
  · rw [Machine.along_label_iff]
    intro op hop
    obtain ⟨event, -, rfl⟩ := List.mem_map.mp hop
    exact ⟨event, rfl⟩

theorem step_outstanding_le {p : AccountingPipeline} (hnumbered : p.trading.oms.toOmsState.Numbered)
    (op : Op) : (step op p).outstanding ≤ p.outstanding + op.news := by
  have hmanage : ∀ op : Oms.Op PaperExecution, op.movesVenue = false →
      (p.manage op).outstanding ≤ p.outstanding + op.news :=
    fun op hstill => Oms.step_outstanding_le countsSubmits hstill hnumbered
  cases op with
  | submit approved => exact hmanage (.submit approved) rfl
  | processEvents => exact processEvents_outstanding_le hnumbered
  | onTimer => exact hmanage .onTimer rfl
  | reconcile snapshot => exact hmanage (.reconcile snapshot) rfl
  | resolve id target => exact hmanage (.resolve id target) rfl
  | attachExecution => exact hmanage .attachExecution rfl
  | restart config => exact hmanage (.restart config) rfl
  | venue call =>
      obtain ⟨hvenue, homs, -⟩ := p.callVenue_spec call
      show PaperExecution.asked (p.callVenue call).trading.venue +
        (p.callVenue call).trading.oms.toOmsState.deferredNews ≤ _
      have hasked := p.trading.venue.step_asked_le call
      rw [hvenue, homs]
      show _ + p.trading.oms.toOmsState.deferredNews ≤
        PaperExecution.asked p.trading.venue + p.trading.oms.toOmsState.deferredNews + call.submits
      omega
  | registerSymbol _ | onMark _ | onBalance _ | clearFault _ => exact le_rfl

theorem run_outstanding_le {ops : List Op} {p : AccountingPipeline} {Q : OrderAction → Prop}
    (hops : ∀ op ∈ ops, op.Submits Q) (h : Standing Q p.trading) :
    (Machine.run step ops p).outstanding ≤ p.outstanding + (ops.map Op.news).sum := by
  induction ops generalizing p with
  | nil => exact le_rfl
  | cons op ops ih =>
      obtain ⟨hop, hlater⟩ := List.forall_mem_cons.mp hops
      have hfirst := step_outstanding_le h.numbered op
      have hrest := ih hlater (h.stepped hop)
      rw [Machine.run_cons, List.map_cons, List.sum_cons]
      omega

theorem outstanding_init (oms : OmsConfig) (venue : PaperExecutionConfig)
    (accounting : Portfolio.AccountingConfig) (clock wall : Nanos) :
    (init oms venue accounting clock wall).outstanding = 0 := by
  have hempty : (List.replicate oms.maxOrders (none : Option DeferredNew)).countP
      Option.isSome = 0 := by
    simp [List.countP_replicate]
  exact congrArg₂ (· + ·) (PaperExecution.asked_init venue clock wall) hempty

/-- The price and the quantity of an action that creates or moves an order satisfy `R`. -/
def TermsOf (R : Px → Qty → Prop) (action : OrderAction) : Prop :=
  action.addsExposure = true → R action.price action.quantity

theorem requestCall_terms {R : Px → Qty → Prop} {request : AdapterCall}
    (h : Backed (TermsOf R) request) : (requestCall request).Terms R := by
  cases h with
  | submit hterms htype _ _ hprice hquantity =>
      show R _ _
      rw [hprice, hquantity]
      exact hterms (by simp [OrderAction.addsExposure, htype])
  | cancel => trivial
  | replace hterms htype hprice hquantity =>
      show R _ _
      rw [hprice, hquantity]
      exact hterms (by simp [OrderAction.addsExposure, htype])

/-- Whatever holds of the terms the venue has and of those it is asked for holds of those it
will have. -/
theorem run_hasTerms {R : Px → Qty → Prop} {ops : List Op} {p : AccountingPipeline}
    (hops : ∀ op ∈ ops, op.Submits (TermsOf R)) (hcalls : ∀ call, .venue call ∈ ops → call.Terms R)
    (h : Standing (TermsOf R) p.trading) (hterms : p.trading.venue.HasTerms R) :
    (Machine.run step ops p).trading.venue.HasTerms R := by
  obtain ⟨calls, hmade, hpart⟩ := exists_venuePart hops h
  rw [hpart.venue]
  refine hterms.run fun call hmem => ?_
  rcases hmade call hmem with hown | ⟨request, hbacked, rfl⟩
  · exact hcalls call hown
  · exact requestCall_terms hbacked

end AccountingPipeline

end MmEngine.Pipeline
