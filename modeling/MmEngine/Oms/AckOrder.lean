/-
# Acknowledgement and fills in any order

The venue acknowledges an order and fills it on streams that may race, so the
order manager can see the acknowledgement after some of the fills. What the
fills do to the record is the same in every order. The acknowledgement is
another matter: one that carries a sequence number is stale as soon as a fill has
been applied, and one that finds the order filled is a duplicate. A discarded
acknowledgement binds no venue identity and answers no request.

The main theorem of this module says exactly when the delivery of one
acknowledgement and any fills ends as if the acknowledgement had come first.
-/

import MmEngine.Oms.Run

namespace MmEngine.Oms

open MmEngine.Exchange MmEngine.Quote MmEngine.Risk OmsState OrderManager

variable {σ : Type}

/-- The ring holds the given trades, oldest first, and has lost none. -/
structure SeenTradeIds.Holds (seen : SeenTradeIds) (ids : List TradeId) : Prop where
  count : seen.count = ids.length
  next : seen.next = ids.length % 32
  ids_eq : seen.ids.take ids.length = ids

theorem SeenTradeIds.holds_empty : SeenTradeIds.empty.Holds [] := ⟨rfl, rfl, rfl⟩

/-- A new trade is recorded as long as the ring is not full. -/
theorem SeenTradeIds.Holds.insert {seen : SeenTradeIds} {ids : List TradeId} (h : seen.Holds ids)
    (hroom : ids.length < 32) {id : TradeId} (hnew : id ∉ ids) :
    ∃ after, seen.insert id = some after ∧ after.Holds (ids ++ [id]) := by
  have hunseen : seen.contains id = false := by
    rw [SeenTradeIds.contains, h.count, h.ids_eq, List.any_eq_false]
    intro known hknown
    simp only [decide_eq_true_eq]
    rintro rfl
    exact hnew hknown
  have hnext : seen.next = ids.length := by rw [h.next, Nat.mod_eq_of_lt hroom]
  refine ⟨_, by rw [SeenTradeIds.insert, if_neg (by simp [hunseen])], ?_, ?_, ?_⟩
  · simp [h.count, SeenTradeIds.kCapacity, hroom]
  · simp [hnext, SeenTradeIds.kCapacity]
  · have hlength : ids.length < seen.ids.length := by
      rw [seen.length_ids]
      exact hroom
    rw [List.length_append, List.length_singleton]
    show (seen.ids.set seen.next id).take (ids.length + 1) = ids ++ [id]
    rw [hnext, List.take_succ_eq_append_getElem (by simpa using hlength)]
    simp [List.take_set_of_le, h.ids_eq]

/-- A notional of non-negative factors whose product is in range. -/
theorem exists_checkedNotionalOf {price : Px} {quantity : Qty}
    (hlo : 0 ≤ price.raw * quantity.raw)
    (hhi : price.raw * quantity.raw ≤ rawMax * Fixed.kScale) :
    ∃ value, checkedNotionalOf price quantity = some value ∧ 0 ≤ value.raw ∧
      value.raw * Fixed.kScale ≤ price.raw * quantity.raw := by
  have hscale : (0 : Int) < Fixed.kScale := by decide
  have hdiv : (price.raw * quantity.raw).tdiv Fixed.kScale =
      price.raw * quantity.raw / Fixed.kScale := Int.tdiv_eq_ediv_of_nonneg hlo
  have hnonneg : 0 ≤ price.raw * quantity.raw / Fixed.kScale := Int.ediv_nonneg hlo hscale.le
  have hmax : price.raw * quantity.raw / Fixed.kScale ≤ rawMax :=
    (Int.ediv_le_ediv hscale hhi).trans (Int.mul_ediv_cancel _ hscale.ne').le
  refine ⟨⟨price.raw * quantity.raw / Fixed.kScale, ?_, hmax⟩, ?_, hnonneg,
    Int.ediv_mul_le _ hscale.ne'⟩
  · exact (show rawMin ≤ 0 by decide).trans hnonneg
  · exact Fixed.fromRaw?_eq_some_iff.mpr hdiv.symm

/-- A fill within the order's size is booked when the value traded so far, this
fill included, is in range. The average price stays below what was paid. -/
theorem exists_bookFill (order : OrderRecord) {fill : FillEvent} {value : Int}
    (hcumulative : 0 ≤ order.cumulativeQuantity.raw) (hquantity : 0 < fill.quantity.raw)
    (hprice : 0 < fill.price.raw)
    (hsize : order.cumulativeQuantity.raw + fill.quantity.raw ≤ order.originalQuantity.raw)
    (haverage : 0 ≤ order.averageFillPrice.raw)
    (hpaid : order.averageFillPrice.raw * order.cumulativeQuantity.raw ≤ value)
    (hprices : value ≤ rawMax * order.cumulativeQuantity.raw)
    (hrange : value + fill.price.raw * fill.quantity.raw ≤ rawMax * Fixed.kScale) :
    ∃ booked, order.bookFill fill = .ok booked ∧
      0 ≤ booked.averageFillPrice.raw ∧
      booked.averageFillPrice.raw * booked.cumulativeQuantity.raw ≤
        value + fill.price.raw * fill.quantity.raw := by
  have hscale : (0 : Int) < Fixed.kScale := by decide
  have hproduct : 0 ≤ order.averageFillPrice.raw * order.cumulativeQuantity.raw :=
    Int.mul_nonneg haverage hcumulative
  have hfill : 0 < fill.price.raw * fill.quantity.raw := Int.mul_pos hprice hquantity
  obtain ⟨total, htotal⟩ : ∃ total,
      Fixed.checkedAdd order.cumulativeQuantity fill.quantity = some total :=
    Fixed.exists_checkedAdd (by omega) hsize
  have htotalRaw := Fixed.checkedAdd_eq_some_iff.mp htotal
  obtain ⟨previous, hprevious, hpreviousNonneg, hpreviousLe⟩ :=
    exists_checkedNotionalOf hproduct (by omega)
  obtain ⟨paid, hpaidValue, hpaidNonneg, hpaidLe⟩ :=
    exists_checkedNotionalOf hfill.le (by omega)
  -- The two values are worth no more than what has been paid.
  have hworth : (previous.raw + paid.raw) * Fixed.kScale ≤
      value + fill.price.raw * fill.quantity.raw := by
    rw [Int.add_mul]
    omega
  have hsumMax : previous.raw + paid.raw ≤ rawMax :=
    Int.le_of_mul_le_mul_right (hworth.trans hrange) hscale
  obtain ⟨sum, hsum⟩ : ∃ sum, Fixed.checkedAdd previous paid = some sum := by
    refine ⟨⟨previous.raw + paid.raw, ?_, hsumMax⟩, Fixed.checkedAdd_eq_some_iff.mpr rfl⟩
    exact (show rawMin ≤ 0 by decide).trans (by omega)
  have hsumRaw := Fixed.checkedAdd_eq_some_iff.mp hsum
  have hpositive : 0 < total.raw := by omega
  have hnumerator : 0 ≤ sum.raw * Fixed.kScale := Int.mul_nonneg (by omega) hscale.le
  have hquotient : 0 ≤ sum.raw * Fixed.kScale / total.raw := Int.ediv_nonneg hnumerator hpositive.le
  have hbelow : sum.raw * Fixed.kScale / total.raw * total.raw ≤
      value + fill.price.raw * fill.quantity.raw := by
    refine (Int.ediv_mul_le _ hpositive.ne').trans ?_
    rwa [hsumRaw]
  -- No price is above the greatest raw value, so neither is their average.
  have hquotientMax : sum.raw * Fixed.kScale / total.raw ≤ rawMax := by
    have hone : fill.price.raw * fill.quantity.raw ≤ rawMax * fill.quantity.raw :=
      Int.mul_le_mul_of_nonneg_right fill.price.raw_le hquantity.le
    refine Int.le_of_mul_le_mul_right (hbelow.trans ?_) hpositive
    rw [htotalRaw, Int.mul_add]
    omega
  have hnarrow : (Fixed.narrow ((sum.raw * Fixed.kScale).tdiv total.raw) : Px).raw =
      sum.raw * Fixed.kScale / total.raw := by
    rw [Int.tdiv_eq_ediv_of_nonneg hnumerator]
    exact Fixed.narrow_raw_of_inRange ((show rawMin ≤ 0 by decide).trans hquotient) hquotientMax
  have hnotOver : ¬ order.originalQuantity.raw < total.raw := by omega
  have hbook : order.bookFill fill = .ok
      { order with
        cumulativeQuantity := total
        averageFillPrice := Fixed.narrow ((sum.raw * Fixed.kScale).tdiv total.raw)
        cumulativeFees :=
          (Fixed.checkedAdd order.cumulativeFees fill.fee).getD order.cumulativeFees
        venueNs := fill.transactNs
        lastAppliedSequence := fill.seq } := by
    simp only [OrderRecord.bookFill, htotal, if_neg hnotOver, hprevious, hpaidValue, hsum,
      Fixed.isPositive_iff, hpositive, if_true]
  refine ⟨_, hbook, ?_, ?_⟩
  · rw [hnarrow]
    exact hquotient
  · rw [hnarrow]
    exact hbelow

def quantityOf (fills : List FillEvent) : Int := (fills.map fun fill => fill.quantity.raw).sum

/-- What was paid for the fills, as an exact product of raw values. -/
def valueOf (fills : List FillEvent) : Int :=
  (fills.map fun fill => fill.price.raw * fill.quantity.raw).sum

/-- The record of an order whose submit request is outstanding and for which no
event has been applied. -/
structure OrderRecord.JustSubmitted (order : OrderRecord) : Prop where
  state : order.state = .pendingNew
  request : order.pendingRequest ≠ 0
  unfilled : order.cumulativeQuantity.raw = 0
  unpriced : order.averageFillPrice.raw = 0
  unseen : order.seenTrades.Holds []
  unacknowledged : order.acknowledgedNs = 0
  unsequenced : order.lastAppliedSequence = kNoSeq
  unbound : order.exchangeOrderId = .empty

/-- Every New the adapter takes leaves such a record. -/
theorem OmsState.NewRecord.justSubmitted {s t base : OmsState} {action : OrderAction}
    {clientId : ClientOrderId} {record : OrderRecord} {id : LogicalOrderId}
    (h : NewRecord s (t.newOrder action clientId) record base [.sent id .submit true]) :
    record.JustSubmitted := by
  cases h with
  | accepted =>
      exact ⟨rfl, Nat.succ_ne_zero _, rfl, rfl, SeenTradeIds.holds_empty, rfl, rfl, rfl⟩

/-- An order just submitted, one acknowledgement of it, and fills of it: all well
formed, the fills later than the acknowledgement, with distinct trades, within
the order's size and for a value in range. -/
structure AckAndFills (s : OmsState) (i : Nat) (order : OrderRecord) (ack : OrderAckEvent)
    (fills : List FillEvent) : Prop where
  found : s.findByClientId order.clientOrderId = some (i, order)
  indexed : s.findById order.logicalId = some (i, order)
  submitted : order.JustSubmitted
  ackValid : (validateExecutionEvent (.orderAck ack)).isError = false
  ackFor : ack.clientOrderId = order.clientOrderId
  ackStatus : ack.status = .new
  ackNames : ack.exchangeOrderId.isEmpty = false
  fillsValid : ∀ fill ∈ fills, (validateExecutionEvent (.fill fill)).isError = false
  fillsFor : ∀ fill ∈ fills, fill.clientOrderId = order.clientOrderId
  later : ∀ fill ∈ fills, ack.seq < fill.seq
  distinct : (fills.map FillEvent.tradeId).Nodup
  few : fills.length ≤ 32
  size : quantityOf fills ≤ order.originalQuantity.raw
  range : valueOf fills ≤ rawMax * Fixed.kScale

/-- The state an order ends in: working without fills, filled when they add up to
its size, partially filled otherwise. -/
def stateAfter (size : Int) (fills : List FillEvent) : OrderState :=
  if fills.isEmpty then .working
  else if quantityOf fills = size then .filled
  else .partiallyFilled

/-- The record is as the fills leave it. -/
def FillsApplied (s : OmsState) (i : Nat) (order : OrderRecord) (fills : List FillEvent) : Prop :=
  ∃ record, s.orders[i]? = some record ∧
    record.state = stateAfter order.originalQuantity.raw fills ∧
    record.cumulativeQuantity.raw = quantityOf fills

/-- The record is as an acknowledgement and then the fills leave it: the fills
are applied, the venue identity is bound and leads to the record, and no request
is outstanding. -/
def AckedAndFilled (s : OmsState) (i : Nat) (order : OrderRecord) (ack : OrderAckEvent)
    (fills : List FillEvent) : Prop :=
  ∃ record, s.orders[i]? = some record ∧
    record.state = stateAfter order.originalQuantity.raw fills ∧
    record.cumulativeQuantity.raw = quantityOf fills ∧
    record.exchangeOrderId = ack.exchangeOrderId ∧
    s.findByExchangeId ack.exchangeOrderId = some (i, record) ∧
    record.pendingRequest = 0

/-! ## The record along the delivery -/

/-- What the fills applied so far, and the acknowledgement if it was, have made
of the record. -/
structure Progress (order : OrderRecord) (ack : OrderAckEvent) (applied : List FillEvent)
    (acked : Bool) (record : OrderRecord) : Prop where
  logicalId : record.logicalId = order.logicalId
  size : record.originalQuantity = order.originalQuantity
  cumulative : record.cumulativeQuantity.raw = quantityOf applied
  average : 0 ≤ record.averageFillPrice.raw
  paid : record.averageFillPrice.raw * record.cumulativeQuantity.raw ≤ valueOf applied
  seen : record.seenTrades.Holds (applied.map FillEvent.tradeId)
  state : record.state =
    if applied.isEmpty && !acked then .pendingNew
    else stateAfter order.originalQuantity.raw applied
  request : acked = true ∨ record.state = .filled → record.pendingRequest = 0
  exchange : record.exchangeOrderId =
    if acked then ack.exchangeOrderId else order.exchangeOrderId
  unacknowledged : acked = false → record.acknowledgedNs = 0
  sequence : acked = false →
    applied = [] ∧ record.lastAppliedSequence = kNoSeq ∨
      applied ≠ [] ∧ ack.seq < record.lastAppliedSequence

/-- The progress of the record at `i`, that it is still found, and that the
acknowledged identity is `taken` for as long as an acknowledgement could bind it. -/
structure Delivering (i : Nat) (order : OrderRecord) (ack : OrderAckEvent) (taken : Bool)
    (applied : List FillEvent) (acked : Bool) (s : OmsState) : Prop where
  record : ∃ record, s.orders[i]? = some record ∧ Progress order ack applied acked record
  client : s.byClientId.lookup order.clientOrderId = some i
  logical : s.byLogicalId.lookup order.logicalId = some i
  exchange : acked = true → s.byExchangeId.lookup ack.exchangeOrderId = some i
  identity : applied = [] ∨ quantityOf applied < order.originalQuantity.raw → acked = false →
    s.identityTaken order ack.exchangeOrderId = taken

theorem OrderRecord.JustSubmitted.progress {order : OrderRecord} (h : order.JustSubmitted)
    (ack : OrderAckEvent) : Progress order ack [] false order where
  logicalId := rfl
  size := rfl
  cumulative := h.unfilled
  average := h.unpriced.ge
  paid := by rw [h.unpriced, Int.zero_mul]; exact le_refl _
  seen := h.unseen
  state := h.state
  request := by
    rintro (hfalse | hfilled)
    · cases hfalse
    · rw [h.state] at hfilled
      cases hfilled
  exchange := rfl
  unacknowledged := fun _ => h.unacknowledged
  sequence := fun _ => .inl ⟨rfl, h.unsequenced⟩

theorem quantityOf_concat (fills : List FillEvent) (fill : FillEvent) :
    quantityOf (fills ++ [fill]) = quantityOf fills + fill.quantity.raw := by
  simp [quantityOf]

theorem valueOf_concat (fills : List FillEvent) (fill : FillEvent) :
    valueOf (fills ++ [fill]) = valueOf fills + fill.price.raw * fill.quantity.raw := by
  simp [valueOf]

theorem quantityOf_append (fills later : List FillEvent) :
    quantityOf (fills ++ later) = quantityOf fills + quantityOf later := by
  simp [quantityOf]

theorem valueOf_append (fills later : List FillEvent) :
    valueOf (fills ++ later) = valueOf fills + valueOf later := by
  simp [valueOf]

theorem quantityOf_perm {fills others : List FillEvent} (h : others.Perm fills) :
    quantityOf others = quantityOf fills := (h.map _).sum_eq

theorem valueOf_perm {fills others : List FillEvent} (h : others.Perm fills) :
    valueOf others = valueOf fills := (h.map _).sum_eq

/-- Fills are for positive quantities at prices in range. -/
theorem value_le_of_positive {fills : List FillEvent}
    (h : ∀ fill ∈ fills, 0 < fill.quantity.raw ∧ 0 < fill.price.raw) :
    0 ≤ quantityOf fills ∧ 0 ≤ valueOf fills ∧ valueOf fills ≤ rawMax * quantityOf fills := by
  induction fills with
  | nil => decide
  | cons fill fills ih =>
      obtain ⟨hquantity, hprice⟩ := h fill List.mem_cons_self
      obtain ⟨hsum, hvalue, hbound⟩ := ih fun other hother =>
          h other (List.mem_cons_of_mem _ hother)
      have hone : fill.price.raw * fill.quantity.raw ≤ rawMax * fill.quantity.raw :=
        Int.mul_le_mul_of_nonneg_right fill.price.raw_le hquantity.le
      have hpositive := Int.mul_pos hprice hquantity
      simp only [quantityOf, valueOf, List.map_cons, List.sum_cons, Int.mul_add] at *
      omega

/-- Nothing is open exactly when the order has filled to its size. -/
theorem remaining_isZero_iff {order : OrderRecord} (hlo : 0 ≤ order.cumulativeQuantity.raw)
    (hhi : order.cumulativeQuantity.raw ≤ order.originalQuantity.raw) :
    order.remaining.isZero = true ↔
      order.cumulativeQuantity.raw = order.originalQuantity.raw := by
  have hmax := order.originalQuantity.raw_le
  obtain ⟨left, hleft⟩ : ∃ left,
      Fixed.checkedSub order.originalQuantity order.cumulativeQuantity = some left := by
    refine ⟨⟨order.originalQuantity.raw - order.cumulativeQuantity.raw, ?_, by omega⟩,
      Fixed.checkedSub_eq_some_iff.mpr rfl⟩
    exact (show rawMin ≤ 0 by decide).trans (by omega)
  have hraw := Fixed.checkedSub_eq_some_iff.mp hleft
  rw [OrderRecord.remaining, hleft]
  dsimp only
  by_cases hpositive : left.isPositive = true
  · rw [if_pos hpositive, Fixed.isZero_iff]
    rw [Fixed.isPositive_iff] at hpositive
    omega
  · rw [if_neg hpositive]
    rw [Bool.not_eq_true, Fixed.isPositive_eq_false_iff] at hpositive
    simp only [Fixed.isZero_iff, Fixed.zero_raw, true_iff]
    omega

/-- The states a fill can meet here let it through. -/
theorem landing_fill :
    ∀ {source target : OrderState},
      source = .pendingNew ∨ source = .working ∨ source = .partiallyFilled →
        target = .filled ∨ target = .partiallyFilled → landing source target = target := by
  decide

theorem filled_legal :
    ∀ {source : OrderState},
      source = .pendingNew ∨ source = .working ∨ source = .partiallyFilled →
        (isLegalTransition source .filled && OrderState.filled.isTerminal) = true := by
  decide

theorem stateAfter_ne_filled {size : Int} {fills : List FillEvent} (h : quantityOf fills < size) :
    stateAfter size fills = .working ∨ stateAfter size fills = .partiallyFilled := by
  rw [stateAfter]
  split
  · exact .inl rfl
  · rw [if_neg (by omega)]
    exact .inr rfl

namespace Progress

variable {order record : OrderRecord} {ack : OrderAckEvent} {applied : List FillEvent}
  {acked : Bool}

/-- As long as something is open, the order is in one of three states. -/
theorem state_of_open (h : Progress order ack applied acked record)
    (hopen : quantityOf applied < order.originalQuantity.raw) :
    record.state = .pendingNew ∨ record.state = .working ∨ record.state = .partiallyFilled := by
  rw [h.state]
  split
  · exact .inl rfl
  · exact .inr (stateAfter_ne_filled hopen)

/-- A fill of the order is booked, and moves the record to where the fills put it. -/
theorem fill (h : Progress order ack applied acked record) {fill : FillEvent}
    (happlied : ∀ other ∈ applied, 0 < other.quantity.raw ∧ 0 < other.price.raw)
    (hquantity : 0 < fill.quantity.raw) (hprice : 0 < fill.price.raw)
    (hnew : fill.tradeId ∉ applied.map FillEvent.tradeId) (hroom : applied.length < 32)
    (hsize : quantityOf applied + fill.quantity.raw ≤ order.originalQuantity.raw)
    (hrange : valueOf applied + fill.price.raw * fill.quantity.raw ≤ rawMax * Fixed.kScale)
    (hlater : ack.seq < fill.seq) (now : Nanos) :
    ∃ seen booked, record.seenTrades.insert fill.tradeId = some seen ∧
      (record.withTrades seen).bookFill fill = .ok booked ∧
      Progress order ack (applied ++ [fill]) acked (booked.transition
        (if booked.remaining.isZero then .filled else .partiallyFilled) now) := by
  obtain ⟨hsum, _, hpaid⟩ := value_le_of_positive happlied
  obtain ⟨seen, hinsert, hholds⟩ := h.seen.insert (by simpa using hroom) hnew
  have hcumulative := h.cumulative
  have hstates := h.state_of_open (by omega)
  obtain ⟨booked, hbook, haverage, hbelow⟩ :
      ∃ booked, (record.withTrades seen).bookFill fill = .ok booked ∧
        0 ≤ booked.averageFillPrice.raw ∧
        booked.averageFillPrice.raw * booked.cumulativeQuantity.raw ≤
          valueOf applied + fill.price.raw * fill.quantity.raw := by
    apply exists_bookFill (record.withTrades seen) _ hquantity hprice _ h.average h.paid
    · show valueOf applied ≤ rawMax * record.cumulativeQuantity.raw
      rw [hcumulative]
      exact hpaid
    · exact hrange
    · show 0 ≤ record.cumulativeQuantity.raw
      omega
    · show record.cumulativeQuantity.raw + fill.quantity.raw ≤ record.originalQuantity.raw
      rw [h.size]
      omega
  refine ⟨seen, booked, hinsert, hbook, ?_⟩
  obtain ⟨htotal, _, hbooked⟩ := bookFill_eq_ok hbook
  have htotal : booked.cumulativeQuantity.raw = quantityOf (applied ++ [fill]) := by
    rw [quantityOf_concat, htotal, ← hcumulative]
    rfl
  have hbookedSize : booked.originalQuantity = order.originalQuantity := by
    rw [hbooked]
    exact h.size
  have hzero : booked.remaining.isZero = true ↔
      quantityOf (applied ++ [fill]) = order.originalQuantity.raw := by
    rw [remaining_isZero_iff, htotal, hbookedSize]
    · rw [htotal, quantityOf_concat]
      omega
    · rw [htotal, quantityOf_concat, hbookedSize]
      exact hsize
  have hstate : booked.state = record.state := by
    rw [hbooked]
    rfl
  have hland : (booked.transition (if booked.remaining.isZero then .filled else .partiallyFilled)
      now).state = stateAfter order.originalQuantity.raw (applied ++ [fill]) := by
    rw [OrderRecord.transition_state, hstate, landing_fill hstates (by split <;> simp)]
    simp [stateAfter, hzero]
  constructor
  · rw [OrderRecord.transition_logicalId, hbooked]
    exact h.logicalId
  · rw [OrderRecord.transition_originalQuantity]
    exact hbookedSize
  · rw [OrderRecord.transition_cumulativeQuantity]
    exact htotal
  · rw [OrderRecord.transition_averageFillPrice]
    exact haverage
  · rw [OrderRecord.transition_averageFillPrice, OrderRecord.transition_cumulativeQuantity,
      valueOf_concat]
    exact hbelow
  · rw [OrderRecord.transition_seenTrades, hbooked, List.map_append]
    exact hholds
  · rw [hland, if_neg (by simp)]
  · intro hdone
    rw [OrderRecord.transition_pendingRequest]
    rcases hdone with rfl | hfilled
    · have hrequest : booked.pendingRequest = 0 := by
        rw [hbooked]
        exact h.request (.inl rfl)
      rw [hrequest, ite_self]
    · have hdone : booked.remaining.isZero = true := by
        by_contra hopen
        rw [if_neg hopen, OrderRecord.transition_state, hstate,
          landing_fill hstates (.inr rfl)] at hfilled
        cases hfilled
      rw [if_pos hdone, hstate, if_pos (filled_legal hstates)]
  · rw [OrderRecord.transition_exchangeOrderId, hbooked]
    exact h.exchange
  · intro hfalse
    rw [OrderRecord.transition_acknowledgedNs, hbooked]
    exact h.unacknowledged hfalse
  · intro _
    rw [OrderRecord.transition_lastAppliedSequence, hbooked]
    exact .inr ⟨by simp, hlater⟩

/-- A first acknowledgement of an open order moves it to where its fills put it. -/
theorem acknowledge (h : Progress order ack applied false record)
    (hopen : applied = [] ∨ quantityOf applied < order.originalQuantity.raw) (now : Nanos) :
    Progress order ack applied true
      (({ record with exchangeOrderId := ack.exchangeOrderId }.acknowledged ack now).transition
        (OrderRecord.ackTarget .new) now) := by
  constructor
  · exact (OrderRecord.transition_logicalId _ _ _).trans h.logicalId
  · exact (OrderRecord.transition_originalQuantity _ _ _).trans h.size
  · rw [OrderRecord.transition_cumulativeQuantity]
    exact h.cumulative
  · rw [OrderRecord.transition_averageFillPrice]
    exact h.average
  · rw [OrderRecord.transition_averageFillPrice, OrderRecord.transition_cumulativeQuantity]
    exact h.paid
  · rw [OrderRecord.transition_seenTrades]
    exact h.seen
  · have hstate := h.state
    rw [OrderRecord.transition_state, Bool.not_true, Bool.and_false, if_neg Bool.false_ne_true]
    show landing record.state _ = stateAfter order.originalQuantity.raw applied
    cases applied with
    | nil =>
        rw [hstate]
        rfl
    | cons first rest =>
        -- A fill has moved the order beyond what the acknowledgement reports.
        have hlt := hopen.resolve_left (by simp)
        have hpartial :
            stateAfter order.originalQuantity.raw (first :: rest) = .partiallyFilled := by
          rw [stateAfter, if_neg (by simp), if_neg hlt.ne]
        rw [hstate, hpartial]
        rfl
  · intro _
    rw [OrderRecord.transition_pendingRequest]
    exact ite_self _
  · exact OrderRecord.transition_exchangeOrderId _ _ _
  · intro hfalse
    cases hfalse
  · intro hfalse
    cases hfalse

end Progress

theorem IdMap.lookup_emplace {K : Type} [DecidableEq K] {map : IdMap K} {key : K} {index : Nat}
    (h : map.lookup key = some index) (other : K) (last : Nat) :
    (map.emplace other last).lookup key = some index := by
  rw [IdMap.emplace]
  split
  · exact h
  · rename_i hfree
    have hne : key ≠ other := by
      rintro rfl
      exact hfree (by rw [h]; rfl)
    rw [AList.lookup_insert_ne hne, h]

/-- The second state has every order of the first where it was, found as it was. -/
structure OmsState.Extends (s t : OmsState) : Prop where
  orders : ∀ {i : Nat} {record : OrderRecord}, s.orders[i]? = some record →
    t.orders[i]? = some record
  client : ∀ {id : ClientOrderId} {i : Nat}, s.byClientId.lookup id = some i →
    t.byClientId.lookup id = some i
  logical : ∀ {id : LogicalOrderId} {i : Nat}, s.byLogicalId.lookup id = some i →
    t.byLogicalId.lookup id = some i
  exchange : t.byExchangeId = s.byExchangeId

theorem OmsState.Extends.refl (s : OmsState) : s.Extends s := ⟨id, id, id, rfl⟩

theorem OmsState.Extends.trans {s t u : OmsState} (h : s.Extends t) (h' : t.Extends u) :
    s.Extends u :=
  ⟨h'.orders ∘ h.orders, h'.client ∘ h.client, h'.logical ∘ h.logical,
    h'.exchange.trans h.exchange⟩

theorem OmsState.extended_addOrder (s : OmsState) (record : OrderRecord) :
    s.Extends (s.addOrder record) where
  orders hrecord := by
    rw [OmsState.addOrder, List.getElem?_append_left (List.getElem?_eq_some_iff.mp hrecord).1,
      hrecord]
  client hlookup := IdMap.lookup_emplace hlookup _ _
  logical hlookup := IdMap.lookup_emplace hlookup _ _
  exchange := rfl

theorem OmsState.NewOutcome.extended {s after : OmsState} {action : OrderAction}
    {observed : List Observation} (h : NewOutcome s action after observed) : s.Extends after := by
  cases h with
  | refused => exact .refl s
  | burned => exact ⟨id, id, id, rfl⟩
  | deferred => exact ⟨id, id, id, rfl⟩
  | created _ _ _ _ hrecord =>
      rcases hrecord.base_eq with rfl | rfl
      · have hburned : s.Extends s.burnClientId := ⟨id, id, id, rfl⟩
        exact hburned.trans (extended_addOrder _ _)
      · have hrequested : s.Extends s.burnClientId.nextRequest := ⟨id, id, id, rfl⟩
        exact hrequested.trans (extended_addOrder _ _)

/-- Releasing deferrals adds orders and moves none. -/
theorem release_extends (port : IExchangeExecution σ) (w : World σ)
    (resolved : Option LogicalOrderId) :
    w.oms.toOmsState.Extends (w.release port resolved).oms.toOmsState := by
  apply release_keeps (I := w.oms.toOmsState.Extends) port resolved _ _ (.refl _)
  · exact fun s entry hs => hs.trans ⟨fun h => h, fun h => h, fun h => h, rfl⟩
  · exact fun _ _ _ _ hs hnew => hs.trans hnew.extended

/-- What the handler does with a fill it books. -/
theorem applyFill_booked {m : OrderManager} {fill : FillEvent} {i : Nat}
    {order booked : OrderRecord} {seen : SeenTradeIds}
    (hfound : m.findByClientId fill.clientOrderId = some (i, order))
    (hterminal : order.isTerminal = false) (hquantity : 0 < fill.quantity.raw)
    (hprice : 0 < fill.price.raw) (hinsert : order.seenTrades.insert fill.tradeId = some seen)
    (hbook : (order.withTrades seen).bookFill fill = .ok booked) :
    (m.applyFill fill).manager.toOmsState = m.toOmsState.store i
        (booked.transition (if booked.remaining.isZero then .filled else .partiallyFilled)
          m.clock) ∧
      (m.applyFill fill).resolved =
        if booked.remaining.isZero then some order.logicalId else none := by
  have hpositive : (!fill.quantity.isPositive || !fill.price.isPositive) = false := by
    simp [Fixed.isPositive_iff, hquantity, hprice]
  rw [applyFill]
  simp only [hfound, hterminal, hpositive, hinsert, hbook, Bool.false_eq_true, if_false]
  by_cases hzero : booked.remaining.isZero = true
  · simp [hzero]
  · simp [hzero]

/-- A fill that the booking refuses is stored with its trade in the ring. -/
theorem applyFill_unbooked {m : OrderManager} {fill : FillEvent} {i : Nat} {order : OrderRecord}
    {seen : SeenTradeIds} {reason : OmsReject}
    (hfound : m.findByClientId fill.clientOrderId = some (i, order))
    (hterminal : order.isTerminal = false) (hquantity : 0 < fill.quantity.raw)
    (hprice : 0 < fill.price.raw) (hinsert : order.seenTrades.insert fill.tradeId = some seen)
    (hbook : (order.withTrades seen).bookFill fill = .error reason) :
    (m.applyFill fill).manager =
      ((m.store i (order.withTrades seen)).quarantine).recordReject reason := by
  have hpositive : (!fill.quantity.isPositive || !fill.price.isPositive) = false := by
    simp [Fixed.isPositive_iff, hquantity, hprice]
  rw [applyFill]
  simp [hfound, hterminal, hpositive, hinsert, hbook]

/-- A taken identity stays taken when a record is rewritten as the same order. -/
theorem identityTaken_store {s : OmsState} {i : Nat} {order before after : OrderRecord}
    (hbefore : s.orders[i]? = some before) (hid : after.logicalId = before.logicalId)
    (id : ExchangeOrderId) :
    (s.store i after).identityTaken order id = s.identityTaken order id := by
  unfold OmsState.identityTaken OmsState.findByExchangeId OmsState.entryAt OmsState.store
  dsimp only
  cases s.byExchangeId.lookup id with
  | none => rfl
  | some j =>
      dsimp only
      by_cases hij : i = j
      · subst hij
        rw [List.getElem?_set_self (List.getElem?_eq_some_iff.mp hbefore).1, hbefore]
        simp [hid]
      · rw [List.getElem?_set_ne hij]

theorem identityTaken_congr (s : OmsState) {order record : OrderRecord}
    (h : record.logicalId = order.logicalId) (id : ExchangeOrderId) :
    s.identityTaken record id = s.identityTaken order id := by
  simp only [OmsState.identityTaken]
  rw [h]

/-- An acknowledgement never releases a deferral. -/
theorem applyAck_resolved (m : OrderManager) (ack : OrderAckEvent) :
    (m.applyAck ack).resolved = none := by
  rw [applyAck]
  repeat' split
  all_goals rfl

theorem applyAck_discarded {m : OrderManager} {ack : OrderAckEvent} {i : Nat} {order : OrderRecord}
    (hfound : m.findByClientId ack.clientOrderId = some (i, order))
    (hnot : order.isTerminal = true ∨ m.toOmsState.ackIsNews order ack = false) :
    (m.applyAck ack).manager.toOmsState = m.toOmsState := by
  rw [applyAck]
  rw [hfound]
  dsimp only
  split
  · rfl
  rename_i hterminal
  split
  · rfl
  rename_i hstale
  split
  · rfl
  rename_i hfirst
  cases hbind : m.toOmsState.bindExchangeId order ack.exchangeOrderId with
  | none => rfl
  | some result =>
      have hnews : ack.seq = kNoSeq ∨ order.lastAppliedSequence = kNoSeq ∨
          order.lastAppliedSequence ≤ ack.seq := by
        by_contra hold
        push Not at hold
        exact hstale (by simp [hold])
      have hisNews := ackIsNews_of_bind hnews (by simpa using hfirst) hbind
      simp [hterminal, hisNews] at hnot

/-- An acknowledgement that is news can be bound. -/
theorem exists_bind_of_ackIsNews {s : OmsState} {order : OrderRecord} {ack : OrderAckEvent}
    (hnews : s.ackIsNews order ack = true) :
    ∃ base bound, s.bindExchangeId order ack.exchangeOrderId = some (base, bound) := by
  cases hbind : s.bindExchangeId order ack.exchangeOrderId with
  | some result => exact ⟨result.1, result.2, rfl⟩
  | none =>
      have hfree : (ack.exchangeOrderId.isEmpty || !s.identityTaken order ack.exchangeOrderId) =
          true := (Bool.and_eq_true_iff.mp hnews).2
      rw [bindExchangeId] at hbind
      by_cases hempty : ack.exchangeOrderId.isEmpty = true
      · rw [if_pos hempty] at hbind
        cases hbind
      · have hnot : s.identityTaken order ack.exchangeOrderId = false := by
          simpa [hempty] using hfree
        rw [if_neg hempty, hnot] at hbind
        cases hlookup : s.byLogicalId.lookup order.logicalId <;> simp [hlookup] at hbind

/-- What the handler does with an acknowledgement that is news. -/
theorem applyAck_bound {m : OrderManager} {ack : OrderAckEvent} {i : Nat}
    {order bound : OrderRecord} {base : OmsState}
    (hfound : m.findByClientId ack.clientOrderId = some (i, order))
    (hterminal : order.isTerminal = false) (hnews : m.toOmsState.ackIsNews order ack = true)
    (hbind : m.toOmsState.bindExchangeId order ack.exchangeOrderId = some (base, bound)) :
    (m.applyAck ack).manager.toOmsState =
      base.store i ((bound.acknowledged ack base.clock).transition
        (OrderRecord.ackTarget ack.status) base.clock) := by
  simp only [OmsState.ackIsNews, Bool.and_eq_true, Bool.or_eq_true, decide_eq_true_eq] at hnews
  obtain ⟨⟨hfresh, hfirst⟩, _⟩ := hnews
  have hstale : ¬ (ack.seq ≠ kNoSeq && order.lastAppliedSequence ≠ kNoSeq &&
      ack.seq < order.lastAppliedSequence) = true := by
    simp only [Bool.and_eq_true, decide_eq_true_eq]
    rintro ⟨⟨hsequence, hlast⟩, hlt⟩
    rcases hfresh with (hnone | hnone) | hle
    · exact hsequence hnone
    · exact hlast hnone
    · exact absurd hlt (not_lt.mpr hle)
  rw [applyAck]
  rw [hfound]
  dsimp only
  rw [if_neg (by simp [hterminal]), if_neg hstale, if_neg (by simp [hfirst]), hbind]
  exact move_toOmsState _ _ _ _ _ _

theorem applyAck_news {m : OrderManager} {ack : OrderAckEvent} {i j : Nat} {order : OrderRecord}
    (hfound : m.findByClientId ack.clientOrderId = some (i, order))
    (hterminal : order.isTerminal = false) (hnews : m.toOmsState.ackIsNews order ack = true)
    (hnames : ack.exchangeOrderId.isEmpty = false)
    (hindex : m.byLogicalId.lookup order.logicalId = some j) :
    (m.applyAck ack).manager.toOmsState =
      (m.toOmsState.withIndices m.byClientId (m.byExchangeId.insert ack.exchangeOrderId j)).store i
        (({ order with exchangeOrderId := ack.exchangeOrderId }.acknowledged ack
          m.clock).transition (OrderRecord.ackTarget ack.status) m.clock) := by
  have hfree : m.toOmsState.identityTaken order ack.exchangeOrderId = false := by
    have hlast := (Bool.and_eq_true_iff.mp hnews).2
    simpa [hnames] using hlast
  have hbind : m.toOmsState.bindExchangeId order ack.exchangeOrderId =
      some (m.toOmsState.withIndices m.byClientId (m.byExchangeId.insert ack.exchangeOrderId j),
        { order with exchangeOrderId := ack.exchangeOrderId }) := by
    simp [bindExchangeId, hnames, hfree, hindex, withIndices]
  exact applyAck_bound hfound hterminal hnews hbind

theorem step_ack (port : IExchangeExecution σ) (w : World σ) {ack : OrderAckEvent}
    (hvalid : (validateExecutionEvent (.orderAck ack)).isError = false) :
    (step port (.apply (.orderAck ack)) w).oms = (w.oms.applyAck ack).manager := by
  have hdispatch : w.oms.dispatch (.orderAck ack) = w.oms.applyAck ack := by
    simp [dispatch, hvalid]
  rw [step_apply, apply, hdispatch, applyAck_resolved]
  rfl

namespace Delivering

variable {i : Nat} {order : OrderRecord} {ack : OrderAckEvent} {taken acked : Bool}
  {applied : List FillEvent}

/-- An event that names the order finds its record. -/
theorem exists_found {m : OrderManager} {clientId : ClientOrderId}
    (h : Delivering i order ack taken applied acked m.toOmsState)
    (hfor : clientId = order.clientOrderId) :
    ∃ record, m.orders[i]? = some record ∧ Progress order ack applied acked record ∧
      m.findByClientId clientId = some (i, record) := by
  obtain ⟨record, hrecord, hprogress⟩ := h.record
  refine ⟨record, hrecord, hprogress, ?_⟩
  rw [hfor]
  exact findByClientId_eq_some_iff.mpr ⟨h.client, hrecord⟩

theorem fill {w : World σ} (h : Delivering i order ack taken applied acked w.oms.toOmsState)
    (port : IExchangeExecution σ) {fill : FillEvent}
    (hvalid : (validateExecutionEvent (.fill fill)).isError = false)
    (hfor : fill.clientOrderId = order.clientOrderId)
    (happlied : ∀ other ∈ applied, 0 < other.quantity.raw ∧ 0 < other.price.raw)
    (hquantity : 0 < fill.quantity.raw) (hprice : 0 < fill.price.raw)
    (hnew : fill.tradeId ∉ applied.map FillEvent.tradeId) (hroom : applied.length < 32)
    (hsize : quantityOf applied + fill.quantity.raw ≤ order.originalQuantity.raw)
    (hrange : valueOf applied + fill.price.raw * fill.quantity.raw ≤ rawMax * Fixed.kScale)
    (hlater : ack.seq < fill.seq) :
    Delivering i order ack taken (applied ++ [fill]) acked
      (step port (.apply (.fill fill)) w).oms.toOmsState := by
  obtain ⟨record, hrecord, hprogress, hfound⟩ := h.exists_found hfor
  have hstates := hprogress.state_of_open (by omega)
  have hterminal : record.isTerminal = false := by
    rcases hstates with hstate | hstate | hstate
    all_goals simp [OrderRecord.isTerminal, hstate, OrderState.isTerminal]
  obtain ⟨seen, booked, hinsert, hbook, hafter⟩ := hprogress.fill happlied hquantity hprice hnew
    hroom hsize hrange hlater w.oms.clock
  obtain ⟨hstate, hresolved⟩ :=
    applyFill_booked hfound hterminal hquantity hprice hinsert hbook
  have hdispatch : w.oms.dispatch (.fill fill) = w.oms.applyFill fill := by
    simp [dispatch, hvalid]
  obtain ⟨_, _, hbooked⟩ := bookFill_eq_ok hbook
  have hsame : (booked.transition (if booked.remaining.isZero then .filled else .partiallyFilled)
      w.oms.clock).logicalId = record.logicalId := by
    rw [OrderRecord.transition_logicalId, hbooked]
    rfl
  rw [step_apply, apply, hdispatch]
  have hextends := release_extends port (w.adopt (w.oms.applyFill fill))
    (w.oms.applyFill fill).resolved
  have hadopted : (w.adopt (w.oms.applyFill fill)).oms.toOmsState = _ := hstate
  rw [hadopted] at hextends
  have hlt := (List.getElem?_eq_some_iff.mp hrecord).1
  refine ⟨⟨_, hextends.orders (List.getElem?_set_self hlt), hafter⟩, hextends.client h.client,
    hextends.logical h.logical, ?_, ?_⟩
  · intro hacked
    rw [hextends.exchange]
    exact h.exchange hacked
  · -- Deferrals are released by the completing fill only.
    intro hopen hfresh
    have hopen : quantityOf (applied ++ [fill]) < order.originalQuantity.raw :=
      hopen.resolve_left (by simp)
    have hzero : booked.remaining.isZero = false := by
      by_contra hdone
      rw [Bool.not_eq_false] at hdone
      have hbookedState : booked.state = record.state := by
        rw [hbooked]
        rfl
      have hstates' := hafter.state_of_open hopen
      rw [if_pos hdone, OrderRecord.transition_state, hbookedState,
        landing_fill hstates (.inl rfl)] at hstates'
      simp at hstates'
    rw [hresolved, hzero]
    show (w.oms.applyFill fill).manager.toOmsState.identityTaken order _ = taken
    rw [hstate, identityTaken_store hrecord hsame]
    exact h.identity (.inr (by omega)) hfresh

/-- An acknowledgement is news unless the order is filled, a fill is newer, or
another order carries the identity. -/
theorem ack_news_iff {s : OmsState} (h : Delivering i order ack taken applied false s)
    {record : OrderRecord} (hprogress : Progress order ack applied false record)
    (hnames : ack.exchangeOrderId.isEmpty = false)
    (hsize : quantityOf applied ≤ order.originalQuantity.raw) :
    (record.isTerminal = false ∧ s.ackIsNews record ack = true) ↔
      taken = false ∧ (applied = [] ∨
        ack.seq = kNoSeq ∧ quantityOf applied < order.originalQuantity.raw) := by
  have htaken := identityTaken_congr s hprogress.logicalId ack.exchangeOrderId
  have hstate := hprogress.state
  have hfirst := hprogress.unacknowledged rfl
  rcases hprogress.sequence rfl with ⟨rfl, hnone⟩ | ⟨hne, hlater⟩
  · have hidentity := h.identity (.inl rfl) rfl
    simp [OrderRecord.isTerminal, hstate, OrderState.isTerminal, OmsState.ackIsNews, hnone, hfirst,
      hnames, htaken, hidentity]
  · have hafter : record.state = stateAfter order.originalQuantity.raw applied := by
      simpa [hne] using hstate
    by_cases hlt : quantityOf applied < order.originalQuantity.raw
    · have hopen : record.isTerminal = false := by
        rcases stateAfter_ne_filled hlt with heq | heq
        all_goals rw [OrderRecord.isTerminal, hafter, heq]; rfl
      have hidentity := h.identity (.inr hlt) rfl
      have hlast : record.lastAppliedSequence ≠ kNoSeq := Nat.ne_zero_of_lt hlater
      simp [hopen, OmsState.ackIsNews, hfirst, hnames, htaken, hidentity, hne, hlt, hlast,
        not_le.mpr hlater, and_comm]
    · have hfilled : record.isTerminal = true := by
        rw [OrderRecord.isTerminal, hafter, stateAfter, if_neg (by simpa using hne),
          if_pos (by omega)]
        rfl
      simp [hfilled, hne, hlt]

/-- An acknowledgement that is not news changes nothing. -/
theorem ack_discarded {w : World σ}
    (h : Delivering i order ack taken applied false w.oms.toOmsState)
    (port : IExchangeExecution σ)
    (hvalid : (validateExecutionEvent (.orderAck ack)).isError = false)
    (hfor : ack.clientOrderId = order.clientOrderId)
    (hnames : ack.exchangeOrderId.isEmpty = false)
    (hsize : quantityOf applied ≤ order.originalQuantity.raw)
    (hnot : ¬ (taken = false ∧ (applied = [] ∨
      ack.seq = kNoSeq ∧ quantityOf applied < order.originalQuantity.raw))) :
    (step port (.apply (.orderAck ack)) w).oms.toOmsState = w.oms.toOmsState := by
  obtain ⟨record, hrecord, hprogress, hfound⟩ := h.exists_found hfor
  rw [← h.ack_news_iff hprogress hnames hsize] at hnot
  rw [step_ack port w hvalid]
  apply applyAck_discarded hfound
  by_contra hnews
  rw [not_or, Bool.not_eq_true, Bool.not_eq_false] at hnews
  exact hnot hnews

/-- Any other acknowledgement binds the identity and answers the request. -/
theorem ack_applied {w : World σ}
    (h : Delivering i order ack taken applied false w.oms.toOmsState)
    (port : IExchangeExecution σ)
    (hvalid : (validateExecutionEvent (.orderAck ack)).isError = false)
    (hfor : ack.clientOrderId = order.clientOrderId) (hstatus : ack.status = .new)
    (hnames : ack.exchangeOrderId.isEmpty = false)
    (hsize : quantityOf applied ≤ order.originalQuantity.raw)
    (hnews : taken = false ∧ (applied = [] ∨
      ack.seq = kNoSeq ∧ quantityOf applied < order.originalQuantity.raw)) :
    Delivering i order ack taken applied true
      (step port (.apply (.orderAck ack)) w).oms.toOmsState := by
  obtain ⟨record, hrecord, hprogress, hfound⟩ := h.exists_found hfor
  obtain ⟨hterminal, hisNews⟩ := (h.ack_news_iff hprogress hnames hsize).mpr hnews
  have hindex : w.oms.byLogicalId.lookup record.logicalId = some i := by
    rw [hprogress.logicalId]
    exact h.logical
  rw [step_ack port w hvalid, applyAck_news hfound hterminal hisNews hnames hindex, hstatus]
  refine ⟨⟨_, List.getElem?_set_self (List.getElem?_eq_some_iff.mp hrecord).1, ?_⟩, h.client,
    h.logical, fun _ => AList.lookup_insert _, fun _ hfalse => ?_⟩
  · exact hprogress.acknowledge (hnews.2.imp_right And.right) _
  · cases hfalse

end Delivering

/-! ## The whole delivery -/

theorem AckAndFills.perm {s : OmsState} {i : Nat} {order : OrderRecord} {ack : OrderAckEvent}
    {fills others : List FillEvent} (h : AckAndFills s i order ack fills)
    (hperm : others.Perm fills) : AckAndFills s i order ack others :=
  { h with
    fillsValid := fun fill hmem => h.fillsValid fill (hperm.mem_iff.mp hmem)
    fillsFor := fun fill hmem => h.fillsFor fill (hperm.mem_iff.mp hmem)
    later := fun fill hmem => h.later fill (hperm.mem_iff.mp hmem)
    distinct := (hperm.map _).nodup_iff.mpr h.distinct
    few := hperm.length_eq.trans_le h.few
    size := (quantityOf_perm hperm).trans_le h.size
    range := (valueOf_perm hperm).trans_le h.range }

theorem AckAndFills.positive {s : OmsState} {i : Nat} {order : OrderRecord} {ack : OrderAckEvent}
    {fills : List FillEvent} (h : AckAndFills s i order ack fills) :
    ∀ fill ∈ fills, 0 < fill.quantity.raw ∧ 0 < fill.price.raw :=
  fun fill hmem => FillEvent.positive_of_validate (h.fillsValid fill hmem)

/-- Fills one after the other, with more to come. -/
theorem Delivering.fills {s : OmsState} {i : Nat} {order : OrderRecord} {ack : OrderAckEvent}
    {taken acked : Bool} (port : IExchangeExecution σ) {rest more : List FillEvent} :
    ∀ {applied : List FillEvent} {w : World σ},
      AckAndFills s i order ack (applied ++ rest ++ more) →
        Delivering i order ack taken applied acked w.oms.toOmsState →
          Delivering i order ack taken (applied ++ rest) acked
            (Machine.run (step port) (rest.map fun fill => .apply (.fill fill))
              w).oms.toOmsState := by
  induction rest with
  | nil =>
      intro applied w _ h
      simpa using h
  | cons fill rest ih =>
      intro applied w hall h
      have hsplit : applied ++ fill :: rest = applied ++ [fill] ++ rest := by simp
      rw [hsplit] at hall ⊢
      obtain ⟨hquantity, hprice⟩ := hall.positive fill (by simp)
      have hcoming : ∀ other ∈ rest ++ more, 0 < other.quantity.raw ∧ 0 < other.price.raw := by
        intro other hother
        apply hall.positive other
        rw [List.append_assoc]
        exact List.mem_append_right _ hother
      obtain ⟨hcomingQuantity, hcomingValue, _⟩ := value_le_of_positive hcoming
      have hsize := hall.size
      have hrange := hall.range
      have hfew := hall.few
      have hdistinct := hall.distinct
      rw [List.append_assoc, quantityOf_append, quantityOf_concat] at hsize
      rw [List.append_assoc, valueOf_append, valueOf_concat] at hrange
      rw [List.append_assoc, List.append_assoc, List.map_append, List.nodup_append] at hdistinct
      simp only [List.length_append, List.length_singleton] at hfew
      refine ih hall (h.fill port (hall.fillsValid fill (by simp)) (hall.fillsFor fill (by simp))
        ?_ hquantity hprice ?_ (by omega) (by omega) (by omega) (hall.later fill (by simp)))
      · exact fun other hother => hall.positive other (by simp [hother])
      · exact fun hseen => hdistinct.2.2 _ hseen _ List.mem_cons_self rfl

/-- The events in the order they are delivered. -/
def delivery (before : List FillEvent) (ack : OrderAckEvent) (later : List FillEvent) :
    List (Op σ) :=
  before.map (fun fill => .apply (.fill fill)) ++
    .apply (.orderAck ack) :: later.map fun fill => .apply (.fill fill)

theorem stateAfter_perm {size : Int} {fills others : List FillEvent} (h : others.Perm fills) :
    stateAfter size others = stateAfter size fills := by
  have hempty : others.isEmpty = fills.isEmpty := by
    rw [Bool.eq_iff_iff, List.isEmpty_iff_length_eq_zero, List.isEmpty_iff_length_eq_zero,
      h.length_eq]
  rw [stateAfter, stateAfter, hempty, quantityOf_perm h]

/-- After the whole delivery every fill is applied, and the acknowledgement is if
it was news when it came. -/
theorem AckAndFills.delivered (port : IExchangeExecution σ) {w : World σ} {i : Nat}
    {order : OrderRecord} {ack : OrderAckEvent} {before later : List FillEvent}
    (h : AckAndFills w.oms.toOmsState i order ack (before ++ later)) :
    ∃ acked, Delivering i order ack
        (w.oms.toOmsState.identityTaken order ack.exchangeOrderId) (before ++ later) acked
        (Machine.run (step port) (delivery before ack later) w).oms.toOmsState ∧
      (acked = true ↔
        w.oms.toOmsState.identityTaken order ack.exchangeOrderId = false ∧
          (before = [] ∨
            ack.seq = kNoSeq ∧ quantityOf before < order.originalQuantity.raw)) := by
  obtain ⟨hclient, horder⟩ := findByClientId_eq_some_iff.mp h.found
  have hlogical := (findById_eq_some_iff.mp h.indexed).1
  have hstart : Delivering i order ack
      (w.oms.toOmsState.identityTaken order ack.exchangeOrderId) [] false w.oms.toOmsState :=
    ⟨⟨order, horder, h.submitted.progress ack⟩, hclient, hlogical, by simp, fun _ _ => rfl⟩
  have hbefore : Delivering i order ack _ ([] ++ before) false
      (Machine.run (step port) (before.map fun fill => .apply (.fill fill)) w).oms.toOmsState :=
    hstart.fills port h
  have hpositive : ∀ other ∈ later, 0 < other.quantity.raw ∧ 0 < other.price.raw :=
    fun other hother => h.positive other (List.mem_append_right _ hother)
  have hsize : quantityOf before ≤ order.originalQuantity.raw := by
    have htotal := h.size
    rw [quantityOf_append] at htotal
    have hcoming := (value_le_of_positive hpositive).1
    omega
  have hwhole : AckAndFills w.oms.toOmsState i order ack (before ++ later ++ []) := by
    rwa [List.append_nil]
  rw [delivery, Machine.run_append, Machine.run_cons]
  by_cases hnews : w.oms.toOmsState.identityTaken order ack.exchangeOrderId = false ∧
      (before = [] ∨ ack.seq = kNoSeq ∧ quantityOf before < order.originalQuantity.raw)
  · have hacked := hbefore.ack_applied port h.ackValid h.ackFor h.ackStatus h.ackNames hsize hnews
    exact ⟨true, hacked.fills port hwhole, by simpa using hnews⟩
  · have hsame := hbefore.ack_discarded port h.ackValid h.ackFor h.ackNames hsize hnews
    rw [List.nil_append, ← hsame] at hbefore
    exact ⟨false, hbefore.fills port hwhole, by simpa using hnews⟩

/-- One acknowledgement and any fills of an order just submitted, in any order.
The fills are applied whatever the order. The delivery ends as if the
acknowledgement had come first exactly when no other order carries the
acknowledged identity, and no fill comes before the acknowledgement or it is
unsequenced and the fills before it do not complete the order. -/
theorem ack_and_fills_in_any_order (port : IExchangeExecution σ) {w : World σ} {i : Nat}
    {order : OrderRecord} {ack : OrderAckEvent} {fills before later : List FillEvent}
    (h : AckAndFills w.oms.toOmsState i order ack fills) (hperm : (before ++ later).Perm fills) :
    (w.oms.toOmsState.identityTaken order ack.exchangeOrderId = false →
      FillsApplied (Machine.run (step port) (delivery before ack later) w).oms.toOmsState i order
        fills) ∧
    (AckedAndFilled (Machine.run (step port) (delivery before ack later) w).oms.toOmsState i order
        ack fills ↔
      w.oms.toOmsState.identityTaken order ack.exchangeOrderId = false ∧
        (before = [] ∨
          ack.seq = kNoSeq ∧ quantityOf before < order.originalQuantity.raw)) := by
  obtain ⟨acked, hdelivered, hacked⟩ := (h.perm hperm).delivered port
  obtain ⟨record, hrecord, hprogress⟩ := hdelivered.record
  have hstate := hprogress.state
  have hcumulative := hprogress.cumulative
  rw [quantityOf_perm hperm] at hcumulative
  rw [stateAfter_perm hperm] at hstate
  rw [← hacked]
  constructor
  · intro hfree
    refine ⟨record, hrecord, ?_, hcumulative⟩
    rw [hstate, if_neg]
    -- Without fills the acknowledgement comes first, and is applied.
    intro hnothing
    rw [Bool.and_eq_true, List.isEmpty_iff, Bool.not_eq_true', List.append_eq_nil_iff] at hnothing
    obtain ⟨⟨hnone, _⟩, hmissed⟩ := hnothing
    rw [hacked.mpr ⟨hfree, .inl hnone⟩] at hmissed
    cases hmissed
  · constructor
    · rintro ⟨other, hother, _, _, hid, _⟩
      rw [hrecord] at hother
      cases hother
      by_contra hmissed
      rw [Bool.not_eq_true] at hmissed
      have hnames := h.ackNames
      rw [← hid, hprogress.exchange, hmissed, if_neg Bool.false_ne_true, h.submitted.unbound]
        at hnames
      cases hnames
    · rintro rfl
      refine ⟨record, hrecord, ?_, hcumulative, ?_, ?_, hprogress.request (.inl rfl)⟩
      · rw [hstate, Bool.not_true, Bool.and_false, if_neg Bool.false_ne_true]
      · rw [hprogress.exchange, if_pos rfl]
      · exact findByExchangeId_eq_some_iff.mpr ⟨hdelivered.exchange rfl, hrecord⟩

namespace Sample

/-- An order of quantity ten is submitted. -/
def opened : World Unit := after [.attachExecution, submitNew 10]

theorem opened_orders : 0 < opened.oms.orders.length := by decide +kernel

def openedOrder : OrderRecord := opened.oms.orders.get ⟨0, opened_orders⟩

theorem openedOrder_justSubmitted : openedOrder.JustSubmitted where
  state := by decide +kernel
  request := by decide +kernel
  unfilled := by decide +kernel
  unpriced := by decide +kernel
  unseen := ⟨by decide +kernel, by decide +kernel, by decide +kernel⟩
  unacknowledged := by decide +kernel
  unsequenced := by decide +kernel
  unbound := by decide +kernel

def newAck (seq : Seq) : OrderAckEvent := ackEvent '1' (exchangeId 'x') .new seq

/-- A fill of four and one of five, later than an acknowledgement numbered below
two. -/
def twoFills : List FillEvent := [fillEvent '1' 'a' 4 2, fillEvent '1' 'b' 5 3]

theorem opened_ackAndFills {seq : Seq} (hseq : seq < 2) :
    AckAndFills opened.oms.toOmsState 0 openedOrder (newAck seq) twoFills where
  found :=
    findByClientId_eq_some_iff.mpr ⟨by decide +kernel, List.getElem?_eq_getElem opened_orders⟩
  indexed := findById_eq_some_iff.mpr ⟨by decide +kernel, List.getElem?_eq_getElem opened_orders⟩
  submitted := openedOrder_justSubmitted
  ackValid := rfl
  ackFor := show clientId '1' = openedOrder.clientOrderId by decide +kernel
  ackStatus := rfl
  ackNames := rfl
  fillsValid := by decide
  fillsFor := by decide +kernel
  later := by
    have htwo : ∀ fill ∈ twoFills, 2 ≤ fill.seq := by decide
    exact fun fill hfill => hseq.trans_le (htwo fill hfill)
  distinct := by decide
  few := by decide
  size := by decide +kernel
  range := by decide +kernel

end Sample

/-- Between the two fills an unsequenced acknowledgement is applied. -/
theorem unsequenced_ack_between_fills :
    AckedAndFilled
      (Machine.run (step Sample.acceptAll)
        (delivery (Sample.twoFills.take 1) (Sample.newAck 0) (Sample.twoFills.drop 1))
        Sample.opened).oms.toOmsState
      0 Sample.openedOrder (Sample.newAck 0) Sample.twoFills := by
  have hperm : (Sample.twoFills.take 1 ++ Sample.twoFills.drop 1).Perm Sample.twoFills := by
    rw [List.take_append_drop]
  have hall := Sample.opened_ackAndFills (show 0 < 2 by decide)
  refine (ack_and_fills_in_any_order Sample.acceptAll hall hperm).2.mpr ⟨?_, .inr ⟨rfl, ?_⟩⟩
  · decide +kernel
  · decide +kernel

/-- Between the same fills a sequenced acknowledgement is stale: the identity is
never bound and the submit request stays outstanding. -/
theorem sequenced_ack_between_fills_discarded :
    AckAndFills Sample.opened.oms.toOmsState 0 Sample.openedOrder (Sample.newAck 1)
        Sample.twoFills ∧
      Sample.opened.oms.identityTaken Sample.openedOrder (Sample.newAck 1).exchangeOrderId =
        false ∧
      ¬ AckedAndFilled
        (Machine.run (step Sample.acceptAll)
          (delivery (Sample.twoFills.take 1) (Sample.newAck 1) (Sample.twoFills.drop 1))
          Sample.opened).oms.toOmsState
        0 Sample.openedOrder (Sample.newAck 1) Sample.twoFills := by
  refine ⟨Sample.opened_ackAndFills (by decide), by decide +kernel, ?_⟩
  rintro ⟨record, hrecord, _, _, hid, _, hrequest⟩
  have hunanswered : ((Machine.run (step Sample.acceptAll)
      (delivery (Sample.twoFills.take 1) (Sample.newAck 1) (Sample.twoFills.drop 1))
      Sample.opened).oms.orders[0]?).map (fun order =>
        (order.exchangeOrderId.isEmpty, order.pendingRequest)) = some (true, 1) := by
    decide +kernel
  rw [hrecord, Option.map_some, hid, hrequest] at hunanswered
  cases hunanswered

end MmEngine.Oms
