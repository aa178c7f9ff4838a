/-
# The trading pipeline

One cycle of the engine takes a strategy's intent to the quote manager, each action the
quote manager asks for to the risk engine, and what the risk engine approves to the order
manager, which trades on the venue. Quoting and risk read the working orders and the
exposure off the order manager, which learned them from the venue.

Inside a run of it the order manager, the venue and the ledger make a run of their own, and
so does the risk engine, so whatever is known of those runs is known here.
-/

import MmEngine.Oms.Exposure
import MmEngine.Oms.Terminal
import MmEngine.Pipeline.OrderFlow
import MmEngine.Quote.QuoteManager
import MmEngine.Risk.KillLatch

namespace MmEngine.Pipeline

open MmEngine.Exchange MmEngine.Exchange.Paper MmEngine.Oms MmEngine.Quote MmEngine.Risk
  MmEngine.Strategy

variable {D : Type} [Double D]

structure TradingPipeline (D : Type) where
  manager : QuoteManager D
  risk : RiskEngine D
  accounting : AccountingPipeline

namespace TradingPipeline

/-- What can happen to the pipeline. -/
inductive Op
  /-- The engine goes through one cycle. -/
  | cycle (intent : QuoteIntent) (quoteInput : QuoteManagerInput) (riskInput : RiskInput)
  /-- An operator calls the risk engine. -/
  | control (call : RiskEngine.Op)
  /-- Anything around the cycles. -/
  | around (op : AccountingPipeline.Op)

/-- The order manager, as quoting and risk see it. -/
def oms (p : TradingPipeline D) : OmsState := p.accounting.trading.oms.toOmsState

/-- What risk is told: the exposure is the one the order manager shows. -/
def told (input : RiskInput) (p : TradingPipeline D) : RiskInput :=
  { input with exposure := p.oms.exposure input.symbol }

/-- What risk is asked about an action. -/
def question (input : RiskInput) (action : OrderAction) (p : TradingPipeline D) : RiskEngine.Op :=
  .evaluate action (p.told input) p.oms.clock

/-- Its answer. -/
def judge (input : RiskInput) (action : OrderAction) (p : TradingPipeline D) :
    RiskDecision × RiskEngine D :=
  p.risk.evaluate action (p.told input) p.oms.clock

/-- What is submitted of an action. -/
def submissions (input : RiskInput) (action : OrderAction) (p : TradingPipeline D) :
    List AccountingPipeline.Op :=
  if (p.judge input action).1.isApproved then [.submit (p.judge input action).1.approval] else []

/-- Risk judges one action, and what it approves is submitted. -/
def trade (input : RiskInput) (action : OrderAction) (p : TradingPipeline D) :
    TradingPipeline D :=
  let (decision, risk) := p.judge input action
  if decision.isApproved then
    { p with
      risk := risk
      accounting := AccountingPipeline.step (.submit decision.approval) p.accounting }
  else { p with risk := risk }

/-- What the quote manager makes of an intent. -/
def quote (intent : QuoteIntent) (input : QuoteManagerInput) (p : TradingPipeline D) :
    QuoteManagerResult × QuoteManager D :=
  p.manager.evaluate intent
    { input with working := p.oms.workingState input.symbol p.manager.owner } p.oms.clock

def step (op : Op) (p : TradingPipeline D) : TradingPipeline D :=
  match op with
  | .cycle intent quoteInput riskInput =>
      let (quoted, manager) := p.quote intent quoteInput
      Machine.run (trade riskInput) quoted.actions { p with manager := manager }
  | .control call => { p with risk := RiskEngine.step call p.risk }
  | .around op => { p with accounting := AccountingPipeline.step op p.accounting }

def init (manager : QuoteManager D) (limits : RiskLimits) (oms : OmsConfig)
    (venue : PaperExecutionConfig) (accounting : Portfolio.AccountingConfig)
    (clock wall : Nanos) : TradingPipeline D where
  manager := manager
  risk := .new limits
  accounting := .init oms venue accounting clock wall

/-- What a step does to the order manager, the venue and the ledger. -/
def calls (op : Op) (p : TradingPipeline D) : List AccountingPipeline.Op :=
  match op with
  | .cycle intent quoteInput riskInput =>
      (Machine.outputs (trade riskInput) (submissions riskInput)
        (p.quote intent quoteInput).1.actions
        { p with manager := (p.quote intent quoteInput).2 }).flatten
  | .control _ => []
  | .around op => [op]

/-- What a step asks of the risk engine. -/
def questions (op : Op) (p : TradingPipeline D) : List RiskEngine.Op :=
  match op with
  | .cycle intent quoteInput riskInput =>
      (Machine.outputs (trade riskInput) (fun action p => [p.question riskInput action])
        (p.quote intent quoteInput).1.actions
        { p with manager := (p.quote intent quoteInput).2 }).flatten
  | .control call => [call]
  | .around _ => []

def allCalls (ops : List Op) (p : TradingPipeline D) : List AccountingPipeline.Op :=
  (Machine.outputs step calls ops p).flatten

def allQuestions (ops : List Op) (p : TradingPipeline D) : List RiskEngine.Op :=
  (Machine.outputs step questions ops p).flatten

section Runs

variable (p : TradingPipeline D)

theorem trade_accounting (input : RiskInput) (action : OrderAction) :
    (trade input action p).accounting =
      Machine.run AccountingPipeline.step (submissions input action p) p.accounting := by
  simp only [trade, submissions]
  split
  · rfl
  · rfl

theorem trade_risk (input : RiskInput) (action : OrderAction) :
    (trade input action p).risk =
      Machine.run RiskEngine.step [p.question input action] p.risk := by
  simp only [trade]
  split
  · rfl
  · rfl

theorem step_accounting (op : Op) :
    (step op p).accounting =
      Machine.run AccountingPipeline.step (calls op p) p.accounting := by
  cases op with
  | cycle intent quoteInput riskInput =>
      exact Machine.run_expanded (f := TradingPipeline.accounting)
        (fun action p => trade_accounting p riskInput action) _ _
  | control call => rfl
  | around op => rfl

theorem step_risk (op : Op) :
    (step op p).risk = Machine.run RiskEngine.step (questions op p) p.risk := by
  cases op with
  | cycle intent quoteInput riskInput =>
      exact Machine.run_expanded (f := TradingPipeline.risk)
        (fun action p => trade_risk p riskInput action) _ _
  | control call => rfl
  | around op => rfl

/-- The order manager, the venue and the ledger run inside the pipeline. -/
theorem run_accounting (ops : List Op) :
    (Machine.run step ops p).accounting =
      Machine.run AccountingPipeline.step (allCalls ops p) p.accounting :=
  Machine.run_expanded (f := TradingPipeline.accounting) (fun op p => step_accounting p op) ops p

/-- And so does the risk engine. -/
theorem run_risk (ops : List Op) :
    (Machine.run step ops p).risk =
      Machine.run RiskEngine.step (allQuestions ops p) p.risk :=
  Machine.run_expanded (f := TradingPipeline.risk) (fun op p => step_risk p op) ops p

end Runs

end TradingPipeline

end MmEngine.Pipeline
