/-
# Identities of venue orders

Every venue order has a client identity and a venue identity of its own, and the two
indices lead from exactly these to the orders. A submit checks that its client
identity is free when it is made and again when it arrives. A replace checks neither
time, so the identities stay apart exactly as long as no replace is carried out under
an identity another order has.
-/

import MmEngine.Exchange.Paper.FillAccounting
import MmEngine.Lib.Index

namespace MmEngine.Exchange.Paper

open Index

/-- One client identity, one venue identity, one order. -/
structure Table.OneIdentity (t : Table) : Prop where
  clientIds : ∀ (i j : Nat) (a b : PaperOrder), t.orders[i]? = some a → t.orders[j]? = some b →
    a.clientOrderId = b.clientOrderId → i = j
  exchangeIds : ∀ (i j : Nat) (a b : PaperOrder), t.orders[i]? = some a → t.orders[j]? = some b →
    a.exchangeOrderId = b.exchangeOrderId → i = j
  byClientId : ∀ (id : ClientOrderId) (i : Nat), t.byClientId.lookup id = some i ↔
    ∃ order, t.orders[i]? = some order ∧ order.clientOrderId = id
  byExchangeId : ∀ (id : ExchangeOrderId) (i : Nat), t.byExchangeId.lookup id = some i ↔
    ∃ order, t.orders[i]? = some order ∧ order.exchangeOrderId = id

/-- The identities as keys of the table. -/
def PaperOrder.clientKey (order : PaperOrder) : Option ClientOrderId := some order.clientOrderId

def PaperOrder.exchangeKey (order : PaperOrder) : Option ExchangeOrderId :=
  some order.exchangeOrderId

section Keys

variable {K : Type*} [DecidableEq K] {id : PaperOrder → K} {orders : List PaperOrder}
  {index : AList fun _ : K => Nat}

theorem indexes_iff :
    Indexes (fun order => some (id order)) orders index ↔
      ∀ (k : K) (i : Nat), index.lookup k = some i ↔
        ∃ order, orders[i]? = some order ∧ id order = k := by
  simp only [Indexes, Option.bind_eq_some_iff, Option.some.injEq]

theorem eq_of_indexes (h : Indexes (fun order => some (id order)) orders index) {i j : Nat}
    {a b : PaperOrder} (ha : orders[i]? = some a) (hb : orders[j]? = some b)
    (hid : id a = id b) : i = j :=
  h.unique (by rw [ha, Option.bind_some]) (by rw [hb, Option.bind_some, hid])

end Keys

theorem Table.oneIdentity_iff_indexes {t : Table} :
    t.OneIdentity ↔ Indexes PaperOrder.clientKey t.orders t.byClientId ∧
      Indexes PaperOrder.exchangeKey t.orders t.byExchangeId := by
  constructor
  · exact fun h => ⟨indexes_iff.mpr h.byClientId, indexes_iff.mpr h.byExchangeId⟩
  · rintro ⟨hclient, hexchange⟩
    exact
      { clientIds := fun i j a b ha hb => eq_of_indexes hclient ha hb
        exchangeIds := fun i j a b ha hb => eq_of_indexes hexchange ha hb
        byClientId := indexes_iff.mp hclient
        byExchangeId := indexes_iff.mp hexchange }

/-- An order rewritten under its identities. -/
theorem Table.OneIdentity.set {t after : Table} (h : t.OneIdentity) {index : Nat}
    {order rewritten : PaperOrder} (horder : t.orders[index]? = some order)
    (hset : after.orders = t.orders.set index rewritten)
    (hclients : after.byClientId = t.byClientId)
    (hexchanges : after.byExchangeId = t.byExchangeId)
    (hclient : rewritten.clientOrderId = order.clientOrderId)
    (hexchange : rewritten.exchangeOrderId = order.exchangeOrderId) : after.OneIdentity := by
  rw [Table.oneIdentity_iff_indexes] at h ⊢
  rw [hset, hclients, hexchanges]
  exact ⟨h.1.set horder (congrArg some hclient), h.2.set horder (congrArg some hexchange)⟩

/-- An order joins the table without disturbing the identities exactly when its own
are free. -/
theorem Table.OneIdentity.list_iff {t : Table} (h : t.OneIdentity) (order : PaperOrder) :
    (t.list order).OneIdentity ↔
      t.byClientId.lookup order.clientOrderId = none ∧
        t.byExchangeId.lookup order.exchangeOrderId = none := by
  rw [Table.oneIdentity_iff_indexes] at h ⊢
  obtain ⟨hclient, hexchange⟩ := h
  constructor
  · rintro ⟨hclient', hexchange'⟩
    exact ⟨hclient.lookup_eq_none_of_concat rfl hclient',
      hexchange.lookup_eq_none_of_concat rfl hexchange'⟩
  · rintro ⟨hclientFree, hexchangeFree⟩
    exact ⟨hclient.concat rfl hclientFree, hexchange.concat rfl hexchangeFree⟩

namespace PaperExecution

variable {v : PaperExecution}

/-- The order a replace is carried out on, if nothing refuses it. -/
def replaceTarget (request : ReplaceRequest) (v : PaperExecution) : Option (Nat × PaperOrder) :=
  (v.findOrder request.originalClientOrderId).filter fun found =>
    found.2.isResting && v.faults.rejectNextReplace = 0 &&
      found.2.cumulativeQty.raw ≤ request.newQuantity.raw

/-- A new order that nothing refuses, on its arrival or as post-only. -/
def lists (request : OrderRequest) (v : PaperExecution) : Bool :=
  v.faults.errorNextRequest = 0 && v.faults.rejectNextNew = 0 &&
    (v.findOrder request.clientOrderId).isNone && !v.crossesPostOnly request

/-- A request is not carried out under an identity that another order has. -/
def IdentityFree (pending : PendingRequest) (v : PaperExecution) : Prop :=
  match pending.request with
  | .submit request => lists request v = true → v.byExchangeId.lookup v.nextExchangeId = none
  | .cancel _ => True
  | .replace request => ∀ found ∈ replaceTarget request v,
      (∀ index ∈ v.byClientId.lookup request.newClientOrderId, index = found.1) ∧
        ∀ index ∈ v.byExchangeId.lookup v.nextExchangeId, index = found.1

/-- The identities are in order after a call, and after each request of a poll. -/
def IdentityAfter (op : Op) (v : PaperExecution) : Prop :=
  (step op v).table.OneIdentity ∧
    match op with
    | .poll => v.started = true →
        Machine.Along (fun pending v => v.processRequest pending)
          (fun pending v => (v.processRequest pending).table.OneIdentity) v.arrived
          { v with inFlight := v.inFlight.filter fun request => ¬ request.dueNs ≤ v.clock }
    | _ => True

/-- No request of a poll is carried out under an identity that another order has. -/
def IdentitiesFree (op : Op) (v : PaperExecution) : Prop :=
  match op with
  | .poll => v.started = true →
      Machine.Along (fun pending v => v.processRequest pending) IdentityFree v.arrived
        { v with inFlight := v.inFlight.filter fun request => ¬ request.dueNs ≤ v.clock }
  | _ => True

/-- Where the indices are right, an order is found exactly when its identity is known. -/
theorem findOrder_isNone_iff (h : v.table.OneIdentity) (id : ClientOrderId) :
    v.findOrder id = none ↔ v.byClientId.lookup id = none := by
  constructor
  · intro hnone
    by_contra hsome
    obtain ⟨index, hindex⟩ := Option.ne_none_iff_exists'.mp hsome
    obtain ⟨order, horder, -⟩ := (h.byClientId id index).mp hindex
    replace horder : v.orders[index]? = some order := horder
    rw [findOrder, hindex, Option.bind_some, horder] at hnone
    cases hnone
  · intro hnone
    rw [findOrder, hnone, Option.bind_none]

/-- A submit that is refused leaves the orders and their indices alone; any other adds
its order, however much of it executes at once. -/
theorem processSubmit_lists (request : OrderRequest) (delay : Nanos) :
    (lists request v = false ∧ ∃ n k, (v.processSubmit request delay).table =
      { v.table with nextExchangeSeq := n, nextArrivalSeq := k }) ∨
    lists request v = true ∧ ∃ order n,
      order.clientOrderId = request.clientOrderId ∧ order.exchangeOrderId = v.nextExchangeId ∧
      (v.processSubmit request delay).table = { v.table.list order with nextTradeSeq := n } := by
  unfold processSubmit lists
  by_cases herror : v.faults.errorNextRequest = 0
  · by_cases hreject : v.faults.rejectNextNew = 0
    · cases hfind : v.findOrder request.clientOrderId with
      | some found =>
          left
          simp only [herror, hreject, ne_eq, not_true_eq_false, if_false, Option.isSome_some,
            if_true]
          exact ⟨by simp, _, _, rejectOrder_table _ _ _ _⟩
      | none =>
          simp only [herror, hreject, ne_eq, not_true_eq_false, if_false, Option.isSome_none,
            Bool.false_eq_true]
          rcases v.acceptOrder_cases request delay with ⟨hcrosses, -, hburnt⟩ |
            ⟨hcrosses, -, hlisted⟩ | ⟨book, e, harrives, -, hfilled⟩
          · exact .inl ⟨by simp [hcrosses], _, _, hburnt⟩
          · exact .inr ⟨by simp [hcrosses], _, _, rfl, rfl, hlisted⟩
          · obtain ⟨cumulativeQty, status, lastEventNs, hframe⟩ :=
              (v.arrivingOrder request).applyMatch_frame e.result v.clock
            exact .inr ⟨by simp [harrives.crossesPostOnly], _, _, by rw [hframe]; rfl,
              by rw [hframe]; rfl, hfilled⟩
    · left
      simp only [herror, hreject, ne_eq, not_true_eq_false, not_false_eq_true, if_false, if_true]
      exact ⟨by simp, _, _, rejectOrder_table _ _ _ _⟩
  · left
    simp only [herror, ne_eq, not_false_eq_true, if_true]
    exact ⟨by simp, _, _, schedule_table _ _ _⟩

/-- A replace swaps its target, and without one leaves the orders alone. -/
theorem processReplace_target (request : ReplaceRequest) (delay : Nanos) :
    (replaceTarget request v = none ∧ (v.processReplace request delay).table = v.table) ∨
    ∃ index order, replaceTarget request v = some (index, order) ∧
      v.findOrder request.originalClientOrderId = some (index, order) ∧
      (v.processReplace request delay).table =
        (v.swapOrder index order (v.replacedOrder order request)).table := by
  unfold processReplace replaceTarget
  dsimp only
  cases hfind : v.findOrder request.originalClientOrderId with
  | none => exact .inl ⟨rfl, schedule_table _ _ _⟩
  | some found =>
      obtain ⟨index, order⟩ := found
      by_cases hresting : order.isResting = true
      · by_cases hreject : v.faults.rejectNextReplace = 0
        · by_cases hquantity : request.newQuantity.raw < order.cumulativeQty.raw
          · left
            simp only [Option.filter, hresting, hreject, hquantity, ne_eq, not_true_eq_false,
              if_true, if_false]
            exact ⟨by simp [hquantity], schedule_table _ _ _⟩
          · right
            simp only [Option.filter, hresting, hreject, hquantity, ne_eq, not_true_eq_false,
              if_true, if_false]
            exact ⟨index, order, by simpa using not_lt.mp hquantity, rfl, schedule_table _ _ _⟩
        · left
          simp only [Option.filter, hresting, hreject, ne_eq, not_false_eq_true, if_true]
          exact ⟨by simp, schedule_table _ _ _⟩
      · left
        simp only [Option.filter, hresting, Bool.false_eq_true, if_false]
        exact ⟨by simp, schedule_table _ _ _⟩

theorem processSubmit_identity_iff (h : v.table.OneIdentity) (request : OrderRequest)
    (delay : Nanos) :
    (v.processSubmit request delay).table.OneIdentity ↔
      (lists request v = true → v.byExchangeId.lookup v.nextExchangeId = none) := by
  rcases v.processSubmit_lists request delay with ⟨hrefused, n, k, hsame⟩ |
    ⟨hlists, order, n, hclient, hexchange, hlisted⟩
  · rw [hsame, hrefused]
    exact iff_of_true { h with } (by simp)
  · have hfree : v.byClientId.lookup request.clientOrderId = none := by
      simp only [lists, Bool.and_eq_true, Option.isNone_iff_eq_none] at hlists
      exact (findOrder_isNone_iff h _).mp hlists.1.2
    have hiff := h.list_iff order
    rw [hclient, hexchange] at hiff
    rw [hlisted, hlists]
    constructor
    · exact fun hafter _ => (hiff.mp { hafter with }).2
    · intro hexchangeFree
      have hlist := hiff.mpr ⟨hfree, hexchangeFree rfl⟩
      exact { hlist with }

theorem processReplace_identity_iff (h : v.table.OneIdentity) (request : ReplaceRequest)
    (delay : Nanos) :
    (v.processReplace request delay).table.OneIdentity ↔
      ∀ found ∈ replaceTarget request v,
        (∀ index ∈ v.byClientId.lookup request.newClientOrderId, index = found.1) ∧
          ∀ index ∈ v.byExchangeId.lookup v.nextExchangeId, index = found.1 := by
  rcases v.processReplace_target request delay with ⟨hnone, hsame⟩ |
    ⟨index, order, htarget, hfind, hswapped⟩
  · rw [hsame, hnone]
    exact iff_of_true h (by simp)
  · obtain ⟨hclient, hexchange⟩ := Table.oneIdentity_iff_indexes.mp h
    have horder : v.table.orders[index]? = some order := (getElem?_of_findOrder hfind).2
    rw [hswapped, Table.oneIdentity_iff_indexes, htarget]
    simp only [Option.mem_def, Option.some.injEq, forall_eq']
    constructor
    · rintro ⟨hclient', hexchange'⟩
      exact ⟨fun _ => hclient.eq_of_lookup_of_set horder rfl hclient',
        fun _ => hexchange.eq_of_lookup_of_set horder rfl hexchange'⟩
    · rintro ⟨hclientFree, hexchangeFree⟩
      exact ⟨hclient.rekey horder (.inl rfl) rfl hclientFree,
        hexchange.rekey horder (.inl rfl) rfl hexchangeFree⟩

theorem processCancel_identity (h : v.table.OneIdentity) (request : CancelRequest)
    (delay : Nanos) : (v.processCancel request delay).table.OneIdentity := by
  rcases v.processCancel_cases request delay with hsame | ⟨index, order, htarget, hmarked⟩
  · rwa [hsame]
  · rw [hmarked]
    have horder : v.table.orders[index]? = some order := getElem?_of_cancelTarget htarget
    exact h.set horder rfl rfl rfl rfl rfl

/-- Processing a request keeps the identities apart exactly when it is not carried out
under one that another order has. -/
theorem processRequest_identity_iff (h : v.table.OneIdentity) (pending : PendingRequest) :
    (v.processRequest pending).table.OneIdentity ↔ IdentityFree pending v := by
  have hprocessing :
      PaperExecution.table { v with processingArrivalNs := pending.dueNs } = v.table := rfl
  unfold IdentityFree processRequest
  cases pending.request with
  | submit request => exact processSubmit_identity_iff (hprocessing ▸ h) _ _
  | cancel request => exact iff_of_true (processCancel_identity (hprocessing ▸ h) _ _) trivial
  | replace request => exact processReplace_identity_iff (hprocessing ▸ h) _ _

theorem requests_identity {requests : List PendingRequest} (h : v.table.OneIdentity)
    (hfree : Machine.Along (fun pending v => v.processRequest pending) IdentityFree requests v) :
    (requests.foldl processRequest v).table.OneIdentity :=
  Machine.invariant_run (I := fun v : PaperExecution => v.table.OneIdentity)
    (fun pending _ h => (processRequest_identity_iff h pending).mpr) h hfree

theorem requests_identity_iff (requests : List PendingRequest) (h : v.table.OneIdentity) :
    Machine.Along (fun pending v => v.processRequest pending)
        (fun pending v => (v.processRequest pending).table.OneIdentity) requests v ↔
      Machine.Along (fun pending v => v.processRequest pending) IdentityFree requests v :=
  Machine.Along.congr_of_keeps (I := fun v : PaperExecution => v.table.OneIdentity)
    (fun _ _ _ hafter => hafter) (fun pending _ h => processRequest_identity_iff h pending) h

/-! ## One call -/

/-- Settling a cancel changes no identity. -/
theorem resolvePendingCancel_identity (h : v.table.OneIdentity) (cancel : OrderCancelEvent) :
    (v.resolvePendingCancel cancel).2.table.OneIdentity := by
  unfold resolvePendingCancel
  cases hfind : v.findOrder cancel.clientOrderId with
  | none => exact h
  | some found =>
      obtain ⟨index, order⟩ := found
      have horder : v.table.orders[index]? = some order := (getElem?_of_findOrder hfind).2
      dsimp only
      split
      · exact h.set horder rfl rfl rfl rfl rfl
      split
      · exact h.set horder rfl rfl rfl rfl rfl
      · exact h.set horder rfl rfl rfl rfl rfl

/-- Matching an order changes no identity. -/
theorem matchOrder_identity {now : Nanos} {sweep : Sweep} {index : Nat}
    (h : sweep.venue.table.OneIdentity) :
    (sweep.matchOrder now index).venue.table.OneIdentity := by
  rcases sweep.matchOrder_cases now index with ⟨-, -, hsame⟩ |
    ⟨order, horder, -, matched, -, -, -, ⟨-, -, hsame⟩ | ⟨e, -, -, -, -, -, -, -, -, htable⟩⟩
  · rwa [hsame]
  · rwa [hsame]
  · rw [htable]
    obtain ⟨cumulativeQty, status, lastEventNs, hframe⟩ := order.applyMatch_frame e.result now
    exact h.set horder rfl rfl rfl (by rw [hframe]) (by rw [hframe])

theorem poll_identity (hstarted : v.started = true)
    (h : (v.arrived.foldl processRequest
      { v with
        inFlight :=
          v.inFlight.filter fun request => ¬ request.dueNs ≤ v.clock }).table.OneIdentity) :
    v.poll.2.table.OneIdentity := by
  unfold poll
  rw [if_neg (by simp [hstarted])]
  exact deliverAll_keeps (fun w cancel hw => resolvePendingCancel_identity hw cancel) _ h

/-- A call keeps the identities apart, at every request of a poll, exactly when none is
carried out under an identity another order has. -/
theorem identityAfter_iff (op : Op) (h : v.table.OneIdentity) :
    IdentityAfter op v ↔ IdentitiesFree op v := by
  by_cases hpoll : op = .poll
  · subst hpoll
    by_cases hstarted : v.started = true
    · unfold IdentityAfter IdentitiesFree
      dsimp only
      rw [imp_iff_right hstarted, imp_iff_right hstarted]
      generalize htaken : { v with
        inFlight := v.inFlight.filter fun request => ¬ request.dueNs ≤ v.clock } = taken
      have hidentity : taken.table.OneIdentity := by
        rw [← htaken]
        exact h
      rw [requests_identity_iff v.arrived hidentity]
      refine and_iff_right_of_imp fun hfree => poll_identity hstarted ?_
      rw [htaken]
      exact requests_identity hidentity hfree
    · have hsame : v.poll.2 = v := by
        unfold poll
        rw [if_pos (by simpa using hstarted)]
      simp [IdentityAfter, IdentitiesFree, hstarted, step, hsame, h]
  · have hfree : IdentitiesFree op v := by
      cases op with
      | poll => exact absurd rfl hpoll
      | _ => trivial
    refine iff_of_true ⟨?_, by cases op with | poll => exact absurd rfl hpoll | _ => trivial⟩ hfree
    by_cases hupdate : ∃ symbol updateNs, op = .onMarketUpdate symbol updateNs
    · obtain ⟨symbol, updateNs, rfl⟩ := hupdate
      show (v.onMarketUpdate symbol updateNs).table.OneIdentity
      rcases matchSymbol_cases { v with bookUpdatedNs := v.bookUpdatedNs.insert symbol updateNs }
        symbol v.clock with ⟨-, hsame⟩ | ⟨book, -, -, -, -, hswept⟩
      · rw [onMarketUpdate, hsame]
        exact h
      · rw [onMarketUpdate, hswept]
        exact foldl_matchOrder_keeps (fun _ _ _ => matchOrder_identity) v.clock _ h
    · rw [v.step_table hpoll fun symbol updateNs heq => hupdate ⟨symbol, updateNs, heq⟩]
      exact h

/-- Along a run every venue order has identities of its own and the indices lead from
exactly these to the orders, exactly when along that run no request is carried out
under an identity that another order has. -/
theorem oneIdentity_iff (config : PaperExecutionConfig) (clock wall : Nanos) (ops : List Op) :
    Machine.Along step IdentityAfter ops (init config clock wall) ↔
      Machine.Along step IdentitiesFree ops (init config clock wall) := by
  have hinit : (init config clock wall).table.OneIdentity := by
    rw [Table.oneIdentity_iff_indexes]
    exact ⟨fun _ _ => by simp [init, table], fun _ _ => by simp [init, table]⟩
  exact Machine.Along.congr_of_keeps (I := fun v : PaperExecution => v.table.OneIdentity)
    (fun _ _ _ hafter => hafter.1) (fun op _ h => identityAfter_iff op h) hinit

end PaperExecution

/-- A replace of one order onto the identity of another. -/
def Sample.ontoAnother : List PaperExecution.Op :=
  [.start, .submit (request 'a' .buy price one), .submit (request 'b' .buy price one), .poll,
    .replace
      { originalClientOrderId := clientId 'a'
        originalExchangeOrderId := .empty
        newClientOrderId := clientId 'b'
        symbol := symbol
        newPrice := price
        newQuantity := three
        createdNs := 0 }, .poll]

namespace PaperExecution

theorem not_oneIdentity_ontoAnother :
    ¬(Machine.run step Sample.ontoAnother (init Sample.config 0 0)).table.OneIdentity := by
  intro h
  exact absurd (h.clientIds 0 1 _ _ rfl rfl rfl) (by decide)

end PaperExecution

end MmEngine.Exchange.Paper
