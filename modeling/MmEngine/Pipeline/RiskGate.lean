/-
# Nothing passes by the risk engine

An order reaches the venue by an approval of the risk engine, and in no other way as long
as nobody calls the order manager or the venue behind its back. So the venue trades within
the limits, on no more orders than were approved, and after the engine is killed it is asked
for nothing but what was already on its way.
-/

import MmEngine.Pipeline.TradingPipeline
import MmEngine.Quote.SlotSafety
import MmEngine.Risk.Gate
import MmEngine.Risk.Soundness

namespace MmEngine.Pipeline

open MmEngine.Exchange MmEngine.Exchange.Paper MmEngine.Oms MmEngine.Quote MmEngine.Risk
  MmEngine.Strategy

/-- Orders are asked for by approvals in `Q` only. -/
def AccountingPipeline.Op.Granted (Q : ApprovedAction → Prop) : AccountingPipeline.Op → Prop
  | .submit approved => Q approved
  | .venue (.submit _) => False
  | .venue (.replace _) => False
  | _ => True

section Granted

variable {Q : ApprovedAction → Prop} {op : AccountingPipeline.Op}

theorem granted_mono {Q' : ApprovedAction → Prop} (hQ : ∀ approved, Q approved → Q' approved)
    (h : op.Granted Q) : op.Granted Q' := by
  cases op with
  | submit approved => exact hQ approved h
  | venue call =>
      cases call with
      | submit _ | replace _ => exact h
      | _ => trivial
  | _ => trivial

theorem submits_of_granted {P : OrderAction → Prop}
    (hQ : ∀ approved, Q approved → approved.valid = true → P approved.action)
    (h : op.Granted Q) : op.Submits P := by
  cases op with
  | submit approved => exact hQ approved h
  | _ => trivial

theorem terms_of_granted {R : Px → Qty → Prop} {call : PaperExecution.Op}
    (h : (AccountingPipeline.Op.venue call).Granted Q) : call.Terms R := by
  cases call with
  | submit _ | replace _ => exact absurd h id
  | _ => trivial

theorem news_of_granted (hQ : ∀ approved, Q approved → asksNew approved = false)
    (h : op.Granted Q) : op.news = 0 := by
  cases op with
  | submit approved =>
      show (if asksNew approved then 1 else 0) = 0
      rw [hQ approved h]
      rfl
  | venue call =>
      cases call with
      | submit _ => exact absurd h id
      | _ => rfl
  | _ => rfl

/-- Calls granted to no New submit none. -/
theorem sum_news_of_granted {calls : List AccountingPipeline.Op}
    (hQ : ∀ approved, Q approved → asksNew approved = false)
    (h : ∀ call ∈ calls, call.Granted Q) :
    (calls.map AccountingPipeline.Op.news).sum = 0 := by
  refine List.sum_eq_zero fun count hmem => ?_
  obtain ⟨call, hcall, rfl⟩ := List.mem_map.mp hmem
  exact news_of_granted hQ (h call hcall)

end Granted

/-- An approval without exposure is no New. -/
theorem asksNew_of_noExposure {approved : ApprovedAction}
    (h : ¬(approved.valid = true ∧ approved.action.addsExposure = true)) :
    asksNew approved = false := by
  by_contra hnew
  have hfields : approved.valid = true ∧ approved.action.type = .new := by
    simpa [asksNew] using hnew
  exact h ⟨hfields.1, by simp [OrderAction.addsExposure, hfields.2]⟩

namespace TradingPipeline

variable {D : Type} [Double D]

/-- Nobody calls the order manager or the venue behind the back of the risk engine. -/
def Op.Routed : Op → Prop
  | .around op => op.Granted fun _ => False
  | _ => True

/-- An engine in `I` approves what `Q` allows, and stays in `I`. -/
structure Grants (I : RiskEngine D → Prop) (Q : ApprovedAction → Prop) : Prop where
  keeps : ∀ (engine : RiskEngine D) (action : OrderAction) (input : RiskInput) (now : Nanos),
    I engine → I (engine.evaluate action input now).2
  approves : ∀ (engine : RiskEngine D) (action : OrderAction) (input : RiskInput) (now : Nanos),
    I engine → (engine.evaluate action input now).1.isApproved = true →
      Q (engine.evaluate action input now).1.approval

section Granted

variable {I : RiskEngine D → Prop} {Q : ApprovedAction → Prop} (hgrants : Grants I Q)

include hgrants

theorem calls_granted {op : Op} {p : TradingPipeline D} (hrouted : op.Routed) (h : I p.risk) :
    ∀ call ∈ calls op p, call.Granted Q := by
  cases op with
  | cycle intent quoteInput riskInput =>
      have hkeep : ∀ (action : OrderAction) (p : TradingPipeline D), I p.risk →
          I (trade riskInput action p).risk := by
        intro action p hp
        rw [trade_risk]
        exact hgrants.keeps _ _ _ _ hp
      refine Machine.forall_mem_outputs (C := fun _ p => I p.risk) ?_
        (Machine.along_of_invariant hkeep ?_)
      · intro action p hp call hmem
        rw [submissions] at hmem
        split at hmem
        · rename_i happroved
          rw [List.mem_singleton.mp hmem]
          exact hgrants.approves _ _ _ _ hp happroved
        · exact absurd hmem List.not_mem_nil
      · exact h
  | control call => exact fun call hmem => absurd hmem List.not_mem_nil
  | around op =>
      intro call hmem
      rw [List.mem_singleton.mp hmem]
      exact granted_mono (fun _ hnever => absurd hnever id) hrouted

/-- What a run asks of the order manager and the venue was granted by the risk engine. -/
theorem allCalls_granted {ops : List Op} {p : TradingPipeline D}
    (hrouted : ∀ op ∈ ops, op.Routed) (h : Machine.Along step (fun _ p => I p.risk) ops p) :
    ∀ call ∈ allCalls ops p, call.Granted Q :=
  Machine.forall_mem_outputs (C := fun op p => op.Routed ∧ I p.risk)
    (fun _ _ hop => calls_granted hgrants hop.1 hop.2)
    ((Machine.along_label_iff.mpr hrouted).and h)

end Granted

theorem grants_limits (limits : RiskLimits) :
    Grants (fun engine : RiskEngine D => engine.limits = limits)
      fun approved => AccountingPipeline.TermsOf limits.Permits approved.action where
  keeps engine action input now h := (RiskEngine.evaluate_limits action input now).trans h
  approves engine action input now h happroved hadds := by
    rw [← h]
    exact RiskEngine.approval_permitted happroved hadds

/-- How many News are submitted along a run. -/
def submittedNews (ops : List Op) (p : TradingPipeline D) : Nat :=
  ((allCalls ops p).map AccountingPipeline.Op.news).sum

/-- Over every run in which everything goes through the risk engine, every order of the venue
and every request on its way is, in price and quantity, within the bounds of a configured
symbol, and the orders, the submits on their way and the deferred News together are no more
than the News that were approved. -/
theorem orders_within_limits (manager : QuoteManager D) (limits : RiskLimits) (oms : OmsConfig)
    (venue : PaperExecutionConfig) (accounting : Portfolio.AccountingConfig)
    (clock wall : Nanos) (ops : List Op) (hrouted : ∀ op ∈ ops, op.Routed) :
    let start := init manager limits oms venue accounting clock wall
    let p := Machine.run step ops start
    p.accounting.trading.venue.HasTerms limits.Permits ∧
      p.accounting.outstanding ≤ submittedNews ops start := by
  intro start p
  have hlimits : Machine.Along step (fun _ p => p.risk.limits = limits) ops start := by
    refine Machine.along_of_invariant (I := fun p : TradingPipeline D => p.risk.limits = limits)
      (fun op p hp => ?_) rfl
    rw [step_risk]
    exact Machine.invariant_run_always (I := fun engine : RiskEngine D => engine.limits = limits)
      (fun call engine hengine => (RiskEngine.step_limits call engine).trans hengine) _ hp
  have hgranted := allCalls_granted (grants_limits limits) hrouted hlimits
  have hsubmits : ∀ call ∈ allCalls ops start,
      call.Submits (AccountingPipeline.TermsOf limits.Permits) :=
    fun call hmem => submits_of_granted (fun _ hterms _ => hterms) (hgranted call hmem)
  have hstanding := AccountingPipeline.standing_init
    (Q := AccountingPipeline.TermsOf limits.Permits) oms venue accounting clock wall
  have hrun : p.accounting = Machine.run AccountingPipeline.step (allCalls ops start)
      start.accounting := run_accounting start ops
  rw [hrun]
  constructor
  · exact AccountingPipeline.run_hasTerms hsubmits
      (fun call hmem => terms_of_granted (hgranted _ hmem)) hstanding
      (PaperExecution.hasTerms_init venue clock wall)
  · have hcount := AccountingPipeline.run_outstanding_le hsubmits hstanding
    rw [AccountingPipeline.outstanding_init, Nat.zero_add] at hcount
    exact hcount

namespace Sample

def limits : RiskLimits where
  symbols := [RiskEngine.sampleLimits]
  length_le := RiskEngine.sampleLimits_length

def start : TradingPipeline ℚ :=
  init Quote.sampleManager limits { maxOrders := 4 } Paper.Sample.config {} 0 0

/-- A desk that may quote both sides of the one symbol. -/
def quoteInput : QuoteManagerInput where
  symbol := RiskEngine.sampleSymbol
  instrument := (RiskEngine.sampleInput 0).instrument
  capabilities := some { supportsReplace := true }

def riskInput : RiskInput :=
  { RiskEngine.sampleInput 0 with
    bbo :=
      { bidPx := .narrow 100, bidQty := .narrow 1, askPx := .narrow 102, askQty := .narrow 1 } }

def cycle : Op := .cycle Quote.sampleIntent quoteInput riskInput

/-- The venue opens and the engine is armed. -/
def opening : List Op := [.around (.venue .start), .around .attachExecution, .control .arm]

def ops : List Op := opening ++ [cycle]

theorem ops_routed : ∀ op ∈ ops, op.Routed := by
  simp [ops, opening, cycle, Op.Routed, AccountingPipeline.Op.Granted]

/-- What happens after a kill: arming fails, and then there is a cycle. -/
def after : List Op := [.control .arm, cycle, .around (.venue .poll)]

theorem after_routed : ∀ op ∈ after, op.Routed := by
  simp [after, cycle, Op.Routed, AccountingPipeline.Op.Granted]

def killed : TradingPipeline ℚ :=
  Machine.run step (opening ++ [.control (.kill .riskKilled)]) start

end Sample

/-- Both quotes of a cycle reach the venue. -/
theorem orders_within_limits_quoted :
    (Machine.run step Sample.ops Sample.start).accounting.outstanding = 2 ∧
      (Machine.run step Sample.ops Sample.start).accounting.trading.venue.HasTerms
        Sample.limits.Permits ∧
      2 ≤ submittedNews Sample.ops Sample.start := by
  have htwo : (Machine.run step Sample.ops Sample.start).accounting.outstanding = 2 := by
    decide +kernel
  have h := orders_within_limits Quote.sampleManager Sample.limits { maxOrders := 4 }
    Paper.Sample.config {} 0 0 Sample.ops Sample.ops_routed
  exact ⟨htwo, h.1, htwo ▸ h.2⟩

theorem grants_blocked :
    Grants (RiskEngine.Blocked : RiskEngine D → Prop)
      fun approved => ¬(approved.valid = true ∧ approved.action.addsExposure = true) where
  keeps engine action input now h := by
    rw [RiskEngine.Blocked, RiskEngine.evaluate_state]
    exact h
  approves engine action input now h _ :=
    (RiskEngine.noExposure_evaluate h action input now).2

theorem along_blocked {ops : List Op} {p : TradingPipeline D}
    (h : RiskEngine.Halted (allQuestions ops p) p.risk) :
    Machine.Along step (fun _ p => p.risk.Blocked) ops p := by
  induction ops generalizing p with
  | nil => trivial
  | cons op ops ih =>
      have hasked : allQuestions (op :: ops) p =
          questions op p ++ allQuestions ops (step op p) := rfl
      rw [hasked] at h
      refine ⟨h.blocked, ih ?_⟩
      rw [step_risk]
      exact h.run

/-- The price and the quantity of every deferred New satisfy `R`. -/
def DeferredTerms (R : Px → Qty → Prop) (p : TradingPipeline D) : Prop :=
  Held (fun action => R action.price action.quantity) p.oms

theorem standing_run (manager : QuoteManager D) (limits : RiskLimits) (oms : OmsConfig)
    (venue : PaperExecutionConfig) (accounting : Portfolio.AccountingConfig)
    (clock wall : Nanos) (ops : List Op) :
    AccountingPipeline.Standing (fun _ => True) (Machine.run step ops
      (init manager limits oms venue accounting clock wall)).accounting.trading := by
  rw [run_accounting]
  exact (AccountingPipeline.standing_init oms venue accounting clock wall).run
    (AccountingPipeline.submits_true _)

/-- From the moment the engine is killed or faulted until it is rearmed and armed again the
orders of the venue, the submits on their way and the deferred News never become more, and
no price or quantity comes up that was not on the books, on its way or deferred by then. -/
theorem kill_stops_orders (manager : QuoteManager D) (limits : RiskLimits) (oms : OmsConfig)
    (venue : PaperExecutionConfig) (accounting : Portfolio.AccountingConfig)
    (clock wall : Nanos) (before : List Op) (halt : RiskEngine.Op) (after : List Op)
    (hhalts : halt.halts = true) (hrouted : ∀ op ∈ after, op.Routed) :
    let killed := Machine.run step (before ++ [.control halt])
      (init manager limits oms venue accounting clock wall)
    let p := Machine.run step after killed
    ¬RiskEngine.Recovered (allQuestions after killed) killed.risk →
      p.accounting.outstanding ≤ killed.accounting.outstanding ∧
        ∀ R, killed.accounting.trading.venue.HasTerms R → DeferredTerms R killed →
          p.accounting.trading.venue.HasTerms R := by
  intro killed p hrecovered
  have hlatched : killed.risk.Latched := by
    have hlast : killed = step (.control halt) (Machine.run step before
      (init manager limits oms venue accounting clock wall)) := Machine.run_concat _ _ _
    rw [hlast]
    exact RiskEngine.latched_step_of_halts hhalts _
  have hgranted := allCalls_granted grants_blocked hrouted
    (along_blocked (.inl ⟨hlatched, hrecovered⟩))
  have hstanding := standing_run manager limits oms venue accounting clock wall
    (before ++ [.control halt])
  have hrun : p.accounting = Machine.run AccountingPipeline.step (allCalls after killed)
      killed.accounting := run_accounting killed after
  have hsubmits : ∀ R : Px → Qty → Prop, ∀ call ∈ allCalls after killed,
      call.Submits (AccountingPipeline.TermsOf R) := fun R call hmem =>
    submits_of_granted (fun _ hquiet hvalid hadds => absurd ⟨hvalid, hadds⟩ hquiet)
      (hgranted call hmem)
  rw [hrun]
  constructor
  · have hcount := AccountingPipeline.run_outstanding_le
      (AccountingPipeline.submits_true (allCalls after killed)) hstanding
    rwa [sum_news_of_granted (fun _ => asksNew_of_noExposure) hgranted, Nat.add_zero] at hcount
  · intro R hterms hdeferred
    have hheld : AccountingPipeline.Standing (AccountingPipeline.TermsOf R)
        killed.accounting.trading :=
      ⟨hstanding.numbered, fun entry waiting hentry =>
        ⟨fun _ => hdeferred entry waiting hentry, (hstanding.held entry waiting hentry).2⟩⟩
    exact AccountingPipeline.run_hasTerms (hsubmits R)
      (fun call hmem => terms_of_granted (hgranted _ hmem)) hheld hterms

/-- Neither quote of a cycle after a kill reaches the venue. -/
theorem kill_stops_orders_quoted :
    (Machine.run step Sample.after Sample.killed).accounting.outstanding = 0 := by
  have hnone : Sample.killed.accounting.outstanding = 0 := by decide +kernel
  have hrecovered : .rearm ∉ allQuestions Sample.after Sample.killed := by decide +kernel
  have h := (kill_stops_orders Quote.sampleManager Sample.limits { maxOrders := 4 }
    Paper.Sample.config {} 0 0 Sample.opening (.kill .riskKilled) Sample.after rfl
    Sample.after_routed (RiskEngine.not_recovered_of_not_mem hrecovered)).1
  exact Nat.le_zero.mp (h.trans_eq hnone)

end TradingPipeline

end MmEngine.Pipeline
