/-
# Depth messages come out whole

Two cursors advance through the levels of a depth message in step, and one of them may be
done long before the other. The loop ends when both are, so the events of a message hold
all its levels in order, the last event alone is marked as the last, and there is one even
when there are no levels. A level that cannot be read anywhere takes all of them back.
-/

import MmEngine.Exchange.Binance.WireCodec

namespace MmEngine.Exchange.Wire

/-- The levels of a side, when all of them can be read. -/
def readLevels (nodes : List Json) : Option (List PriceLevel) := nodes.mapM readLevel

theorem readLevels_append (xs ys : List Json) :
    readLevels (xs ++ ys) =
      (readLevels xs).bind fun levels => (readLevels ys).map fun more => levels ++ more := by
  unfold readLevels
  rw [List.mapM_append]
  cases xs.mapM readLevel with
  | none => rfl
  | some levels => cases ys.mapM readLevel <;> rfl

theorem readLevels_cons (node : Json) (nodes : List Json) :
    readLevels (node :: nodes) =
      (readLevel node).bind fun level => (readLevels nodes).map fun levels => level :: levels := by
  unfold readLevels
  rw [List.mapM_cons]
  cases readLevel node with
  | none => rfl
  | some level => cases nodes.mapM readLevel <;> rfl

theorem length_readLevels {nodes : List Json} {levels : List PriceLevel}
    (h : readLevels nodes = some levels) : levels.length = nodes.length := by
  induction nodes generalizing levels with
  | nil =>
      cases h
      rfl
  | cons node nodes ih =>
      rw [readLevels_cons] at h
      obtain ⟨_, _, h⟩ := Option.bind_eq_some_iff.mp h
      obtain ⟨_, hrest, h⟩ := Option.map_eq_some_iff.mp h
      cases h
      rw [List.length_cons, List.length_cons, ih hrest]

theorem fillChunk_eq (room : Nat) (cursor : List Json) :
    fillChunk room cursor =
      (readLevels (cursor.take room)).map fun levels => (levels, cursor.drop room) := by
  induction room generalizing cursor with
  | zero => rfl
  | succ room ih =>
      cases cursor with
      | nil => rfl
      | cons node cursor =>
          rw [fillChunk, ih, List.take_succ_cons, List.drop_succ_cons, readLevels_cons]
          cases readLevel node with
          | none => rfl
          | some level => cases readLevels (cursor.take room) <;> rfl

/-- A side that can be read is a chunk and a rest that can be. -/
theorem readLevels_split {nodes : List Json} {levels : List PriceLevel} (room : Nat)
    (h : readLevels nodes = some levels) :
    ∃ chunk rest, readLevels (nodes.take room) = some chunk ∧
      readLevels (nodes.drop room) = some rest ∧ chunk ++ rest = levels := by
  rw [← List.take_append_drop room nodes, readLevels_append] at h
  obtain ⟨chunk, hchunk, h⟩ := Option.bind_eq_some_iff.mp h
  obtain ⟨rest, hrest, h⟩ := Option.map_eq_some_iff.mp h
  exact ⟨chunk, rest, hchunk, hrest, h⟩

/-- A side that cannot be read fails in its first chunk or behind it. -/
theorem readLevels_split_none {nodes : List Json} (room : Nat) (h : readLevels nodes = none) :
    readLevels (nodes.take room) = none ∨ readLevels (nodes.drop room) = none := by
  rw [← List.take_append_drop room nodes, readLevels_append] at h
  cases hchunk : readLevels (nodes.take room) with
  | none => exact .inl rfl
  | some chunk =>
      rw [hchunk] at h
      exact .inr (Option.map_eq_none_iff.mp h)

/-- A chunk of a side that can be read, and what is left of it. -/
theorem fillChunk_split {room : Nat} {nodes rest : List Json} {chunk levels : List PriceLevel}
    (hfill : fillChunk room nodes = some (chunk, rest)) (hread : readLevels nodes = some levels) :
    ∃ more, readLevels rest = some more ∧ chunk ++ more = levels ∧ chunk.length ≤ room := by
  obtain ⟨chunk', more, hchunk, hmore, hlevels⟩ := readLevels_split room hread
  rw [fillChunk_eq, hchunk] at hfill
  cases hfill
  refine ⟨more, hmore, hlevels, ?_⟩
  rw [length_readLevels hchunk]
  exact List.length_take_le _ _

/-- What follows a chunk of a side that cannot be read cannot be read. -/
theorem readLevels_rest_none {room : Nat} {nodes rest : List Json} {chunk : List PriceLevel}
    (hfill : fillChunk room nodes = some (chunk, rest)) (hread : readLevels nodes = none) :
    readLevels rest = none := by
  rw [fillChunk_eq] at hfill
  obtain ⟨levels, hchunk, heq⟩ := Option.map_eq_some_iff.mp hfill
  cases heq
  rcases readLevels_split_none room hread with hnone | hnone
  · rw [hchunk] at hnone
    cases hnone
  · exact hnone

/-- A side that can be read has a next chunk. -/
theorem exists_fillChunk (room : Nat) {nodes : List Json} {levels : List PriceLevel}
    (hread : readLevels nodes = some levels) :
    ∃ chunk rest, fillChunk room nodes = some (chunk, rest) := by
  obtain ⟨chunk, _, hchunk, _, _⟩ := readLevels_split room hread
  rw [fillChunk_eq, hchunk]
  exact ⟨_, _, rfl⟩

section Loop

variable (build : Bool → Bool → BookLevels → Nanos → MarketDataEvent) (steadyNs : Nat → Nanos)

/-- The events of a run of chunks: the last of them is marked. -/
def runEvents (first : Bool) (reading : Nat) : List BookLevels → List MarketDataEvent
  | [] => []
  | levels :: rest =>
      build first rest.isEmpty levels (steadyNs reading) :: runEvents false (reading + 1) rest

/-- A run of chunks holds the levels of both sides. -/
structure Covers (chunks : List BookLevels) (bids asks : List PriceLevel) : Prop where
  nonempty : chunks ≠ []
  bids_eq : chunks.flatMap BookLevels.bids = bids
  asks_eq : chunks.flatMap BookLevels.asks = asks
  sane : ∀ levels ∈ chunks, levels.countsAreSane = true

/-- A run of one chunk more. -/
theorem Covers.cons {chunks : List BookLevels} {bids asks : List PriceLevel}
    (h : Covers chunks bids asks) {levels : BookLevels} (hsane : levels.countsAreSane = true) :
    Covers (levels :: chunks) (levels.bids ++ bids) (levels.asks ++ asks) where
  nonempty := List.cons_ne_nil _ _
  bids_eq := by rw [List.flatMap_cons, h.bids_eq]
  asks_eq := by rw [List.flatMap_cons, h.asks_eq]
  sane := List.forall_mem_cons.mpr ⟨hsane, h.sane⟩

/-- Where every level can be read, the events of the message are a run of chunks that
holds them all. -/
theorem chunkLoop_of_readable (before reading : Nat) (first : Bool) (out : List MarketDataEvent)
    {bids asks : List Json} {bidLevels askLevels : List PriceLevel}
    (hbids : readLevels bids = some bidLevels) (hasks : readLevels asks = some askLevels) :
    ∃ chunks, Covers chunks bidLevels askLevels ∧
      chunkLoop build steadyNs before first reading bids asks out =
        (true, out ++ runEvents build steadyNs first reading chunks) := by
  fun_induction chunkLoop build steadyNs before first reading bids asks out
    generalizing bidLevels askLevels with
  | case1 first reading bids asks out chunkBids bids' chunkAsks asks' hb ha isLast =>
      rename_i event hlast
      obtain ⟨moreBids, hmoreBids, rfl, hbidRoom⟩ := fillChunk_split hb hbids
      obtain ⟨moreAsks, hmoreAsks, rfl, haskRoom⟩ := fillChunk_split ha hasks
      obtain ⟨hnoBids, hnoAsks⟩ := Bool.and_eq_true_iff.mp hlast
      rw [List.isEmpty_iff.mp hnoBids] at hmoreBids
      rw [List.isEmpty_iff.mp hnoAsks] at hmoreAsks
      cases hmoreBids
      cases hmoreAsks
      refine ⟨[{ bids := chunkBids, asks := chunkAsks }], ⟨by simp, by simp, by simp, ?_⟩, ?_⟩
      · simpa [BookLevels.countsAreSane] using ⟨hbidRoom, haskRoom⟩
      · simp only [event, hlast, runEvents, List.isEmpty_nil]
  | case2 first reading bids asks out chunkBids bids' chunkAsks asks' hb ha isLast event =>
      rename_i hmore ih
      obtain ⟨moreBids, hmoreBids, rfl, hbidRoom⟩ := fillChunk_split hb hbids
      obtain ⟨moreAsks, hmoreAsks, rfl, haskRoom⟩ := fillChunk_split ha hasks
      obtain ⟨chunks, hcovers, hloop⟩ := ih hmoreBids hmoreAsks
      refine ⟨{ bids := chunkBids, asks := chunkAsks } :: chunks, hcovers.cons ?_, ?_⟩
      · simpa [BookLevels.countsAreSane] using ⟨hbidRoom, haskRoom⟩
      · have hrest : chunks.isEmpty = false := by
          simpa using hcovers.nonempty
        rw [hloop, runEvents, hrest, List.append_assoc]
        simp only [event, Bool.eq_false_iff.mpr hmore, List.singleton_append]
  | case3 first reading bids asks out hstuck =>
      obtain ⟨_, _, hb⟩ := exists_fillChunk kMaxLevelsPerEvent hbids
      obtain ⟨_, _, ha⟩ := exists_fillChunk kMaxLevelsPerEvent hasks
      exact (hstuck _ _ _ _ hb ha).elim

/-- A level that cannot be read, in any chunk, takes back what the message has given. -/
theorem chunkLoop_of_unreadable (reading : Nat) (first : Bool) {before : Nat}
    {out : List MarketDataEvent} {bids asks : List Json}
    (hread : readLevels bids = none ∨ readLevels asks = none)
    (hbefore : before ≤ out.length) :
    chunkLoop build steadyNs before first reading bids asks out = (false, out.take before) := by
  fun_induction chunkLoop build steadyNs before first reading bids asks out with
  | case1 first reading bids asks out chunkBids bids' chunkAsks asks' hb ha isLast =>
      rename_i event hlast
      obtain ⟨hnoBids, hnoAsks⟩ := Bool.and_eq_true_iff.mp hlast
      rw [List.isEmpty_iff] at hnoBids hnoAsks
      -- Nothing is left on either side, so nothing was unreadable.
      rcases hread with hbids | hasks
      · have hnone := readLevels_rest_none hb hbids
        rw [hnoBids] at hnone
        cases hnone
      · have hnone := readLevels_rest_none ha hasks
        rw [hnoAsks] at hnone
        cases hnone
  | case2 first reading bids asks out chunkBids bids' chunkAsks asks' hb ha isLast event =>
      rename_i hmore ih
      have hrest : readLevels bids' = none ∨ readLevels asks' = none := by
        rcases hread with hbids | hasks
        · exact .inl (readLevels_rest_none hb hbids)
        · exact .inr (readLevels_rest_none ha hasks)
      rw [ih hrest (by simp; omega), List.take_append_of_le_length hbefore]
  | case3 first reading bids asks out hstuck => rfl

end Loop

/-! ## Runs of events -/

/-- The updates of a run of chunks. -/
def updatesOf (header : DepthHeader) : List BookLevels → List BookUpdateEvent
  | [] => []
  | levels :: rest =>
      { symbol := header.symbol
        firstUpdateId := header.firstId
        finalUpdateId := header.finalId
        prevFinalUpdateId := header.prevFinal
        levels := levels
        isLast := rest.isEmpty } :: updatesOf header rest

/-- The images of a run of chunks. -/
def snapshotsOf (symbol : Symbol) (lastUpdateId : Seq64) (first : Bool) :
    List BookLevels → List BookSnapshotEvent
  | [] => []
  | levels :: rest =>
      { symbol := symbol
        lastUpdateId := lastUpdateId
        levels := levels
        isFirst := first
        isLast := rest.isEmpty } :: snapshotsOf symbol lastUpdateId false rest

/-- What the events of a depth update keep of it. -/
structure UpdateRun (header : DepthHeader) (bids asks : List PriceLevel)
    (updates : List BookUpdateEvent) : Prop where
  bids_eq : updates.flatMap (fun update => update.levels.bids) = bids
  asks_eq : updates.flatMap (fun update => update.levels.asks) = asks
  sane : ∀ update ∈ updates, update.levels.countsAreSane = true
  ids : ∀ update ∈ updates, update.symbol = header.symbol ∧
    update.firstUpdateId = header.firstId ∧ update.finalUpdateId = header.finalId ∧
      update.prevFinalUpdateId = header.prevFinal
  last : updates.map BookUpdateEvent.isLast = List.replicate (updates.length - 1) false ++ [true]

/-- What the events of a depth snapshot keep of it. -/
structure SnapshotRun (symbol : Symbol) (lastUpdateId : Seq64) (bids asks : List PriceLevel)
    (images : List BookSnapshotEvent) : Prop where
  bids_eq : images.flatMap (fun image => image.levels.bids) = bids
  asks_eq : images.flatMap (fun image => image.levels.asks) = asks
  sane : ∀ image ∈ images, image.levels.countsAreSane = true
  ids : ∀ image ∈ images, image.symbol = symbol ∧ image.lastUpdateId = lastUpdateId
  first : images.map BookSnapshotEvent.isFirst = true :: List.replicate (images.length - 1) false
  last : images.map BookSnapshotEvent.isLast = List.replicate (images.length - 1) false ++ [true]

theorem runEvents_updates (header : DepthHeader) (recvNs : Nanos) (steadyNs : Nat → Nanos)
    (chunks : List BookLevels) (first : Bool) (reading : Nat) :
    (runEvents (updateEvent header recvNs) steadyNs first reading chunks).map
        MarketDataEvent.payload =
      (updatesOf header chunks).map .bookUpdate := by
  induction chunks generalizing first reading with
  | nil => rfl
  | cons levels chunks ih =>
      rw [runEvents, updatesOf, List.map_cons, List.map_cons, ih]
      rfl

theorem runEvents_snapshots (symbol : Symbol) (lastUpdateId : Seq64) (recvNs : Nanos)
    (steadyNs : Nat → Nanos) (chunks : List BookLevels) (first : Bool) (reading : Nat) :
    (runEvents (snapshotEvent symbol lastUpdateId recvNs) steadyNs first reading chunks).map
        MarketDataEvent.payload =
      (snapshotsOf symbol lastUpdateId first chunks).map .bookSnapshot := by
  induction chunks generalizing first reading with
  | nil => rfl
  | cons levels chunks ih =>
      rw [runEvents, snapshotsOf, List.map_cons, List.map_cons, ih]
      rfl

theorem map_levels_updatesOf (header : DepthHeader) (chunks : List BookLevels) :
    (updatesOf header chunks).map BookUpdateEvent.levels = chunks := by
  induction chunks with
  | nil => rfl
  | cons levels chunks ih => rw [updatesOf, List.map_cons, ih]

theorem map_levels_snapshotsOf (symbol : Symbol) (lastUpdateId : Seq64) (first : Bool)
    (chunks : List BookLevels) :
    (snapshotsOf symbol lastUpdateId first chunks).map BookSnapshotEvent.levels = chunks := by
  induction chunks generalizing first with
  | nil => rfl
  | cons levels chunks ih => rw [snapshotsOf, List.map_cons, ih]

theorem ids_updatesOf (header : DepthHeader) (chunks : List BookLevels) :
    ∀ update ∈ updatesOf header chunks, update.symbol = header.symbol ∧
      update.firstUpdateId = header.firstId ∧ update.finalUpdateId = header.finalId ∧
        update.prevFinalUpdateId = header.prevFinal := by
  induction chunks with
  | nil => simp [updatesOf]
  | cons levels chunks ih => exact List.forall_mem_cons.mpr ⟨⟨rfl, rfl, rfl, rfl⟩, ih⟩

theorem ids_snapshotsOf (symbol : Symbol) (lastUpdateId : Seq64) (first : Bool)
    (chunks : List BookLevels) :
    ∀ image ∈ snapshotsOf symbol lastUpdateId first chunks,
      image.symbol = symbol ∧ image.lastUpdateId = lastUpdateId := by
  induction chunks generalizing first with
  | nil => simp [snapshotsOf]
  | cons levels chunks ih => exact List.forall_mem_cons.mpr ⟨⟨rfl, rfl⟩, ih false⟩

/-- The last event of a run alone is marked. -/
theorem map_isLast_updatesOf (header : DepthHeader) {chunks : List BookLevels} (h : chunks ≠ []) :
    (updatesOf header chunks).map BookUpdateEvent.isLast =
      List.replicate ((updatesOf header chunks).length - 1) false ++ [true] := by
  induction chunks with
  | nil => exact absurd rfl h
  | cons levels chunks ih =>
      cases chunks with
      | nil => rfl
      | cons next chunks =>
          rw [updatesOf, List.map_cons, ih (List.cons_ne_nil _ _)]
          rfl

theorem map_isLast_snapshotsOf (symbol : Symbol) (lastUpdateId : Seq64) (first : Bool)
    {chunks : List BookLevels} (h : chunks ≠ []) :
    (snapshotsOf symbol lastUpdateId first chunks).map BookSnapshotEvent.isLast =
      List.replicate ((snapshotsOf symbol lastUpdateId first chunks).length - 1) false ++
        [true] := by
  induction chunks generalizing first with
  | nil => exact absurd rfl h
  | cons levels chunks ih =>
      cases chunks with
      | nil => rfl
      | cons next chunks =>
          rw [snapshotsOf, List.map_cons, ih false (List.cons_ne_nil _ _)]
          rfl

theorem map_isFirst_snapshotsOf (symbol : Symbol) (lastUpdateId : Seq64)
    (chunks : List BookLevels) :
    (snapshotsOf symbol lastUpdateId false chunks).map BookSnapshotEvent.isFirst =
      List.replicate (snapshotsOf symbol lastUpdateId false chunks).length false := by
  induction chunks with
  | nil => rfl
  | cons levels chunks ih =>
      rw [snapshotsOf, List.map_cons, ih]
      rfl

theorem Covers.updateRun {chunks : List BookLevels} {bids asks : List PriceLevel}
    (h : Covers chunks bids asks) (header : DepthHeader) :
    UpdateRun header bids asks (updatesOf header chunks) where
  bids_eq := by
    rw [← h.bids_eq]
    conv_rhs => rw [← map_levels_updatesOf header chunks, List.flatMap_map]
  asks_eq := by
    rw [← h.asks_eq]
    conv_rhs => rw [← map_levels_updatesOf header chunks, List.flatMap_map]
  sane update hmem := by
    apply h.sane
    rw [← map_levels_updatesOf header chunks]
    exact List.mem_map_of_mem hmem
  ids := ids_updatesOf header chunks
  last := map_isLast_updatesOf header h.nonempty

theorem Covers.snapshotRun {chunks : List BookLevels} {bids asks : List PriceLevel}
    (h : Covers chunks bids asks) (symbol : Symbol) (lastUpdateId : Seq64) :
    SnapshotRun symbol lastUpdateId bids asks (snapshotsOf symbol lastUpdateId true chunks) where
  bids_eq := by
    rw [← h.bids_eq]
    conv_rhs => rw [← map_levels_snapshotsOf symbol lastUpdateId true chunks, List.flatMap_map]
  asks_eq := by
    rw [← h.asks_eq]
    conv_rhs => rw [← map_levels_snapshotsOf symbol lastUpdateId true chunks, List.flatMap_map]
  sane image hmem := by
    apply h.sane
    rw [← map_levels_snapshotsOf symbol lastUpdateId true chunks]
    exact List.mem_map_of_mem hmem
  ids := ids_snapshotsOf symbol lastUpdateId true chunks
  first := by
    obtain ⟨levels, rest, rfl⟩ := List.exists_cons_of_ne_nil h.nonempty
    rw [snapshotsOf, List.map_cons, map_isFirst_snapshotsOf]
    rfl
  last := map_isLast_snapshotsOf symbol lastUpdateId true h.nonempty

section Messages

/-- The integer that a number is. -/
def Json.integer? : Json → Option Int
  | .numberUnsigned value => some value.toNat
  | .numberInteger value => some value.toInt
  | _ => none

theorem readSeq_iff {node : Json} {seq : Seq64} :
    readSeq node = some seq ↔ node.integer? = some (seq.toNat : Int) := by
  cases node with
  | numberUnsigned value =>
      rw [readSeq, Json.integer?, Option.some.injEq, Option.some.injEq, Int.natCast_inj,
        UInt64.toNat_inj]
  | numberInteger value =>
      rw [readSeq, Json.integer?, Option.some.injEq]
      split
      · rename_i hneg
        have hvalue : value.toInt < 0 := Int64.lt_iff_toInt_lt.mp hneg
        constructor
        · intro h
          cases h
        · intro h
          omega
      · rename_i hpos
        have hle : 0 ≤ value := Int64.not_lt.mp hpos
        have hvalue : (0 : Int) ≤ value.toInt := Int64.le_iff_toInt_le.mp hle
        have hnat : value.toUInt64.toNat = value.toInt.toNat := Int64.toNat_toUInt64_of_le hle
        rw [Option.some.injEq, ← UInt64.toNat_inj, hnat]
        omega
  | _ => simp [readSeq, Json.integer?]

theorem bind_readSeq_iff {node : Option Json} {seq : Seq64} :
    node.bind readSeq = some seq ↔ node.bind Json.integer? = some (seq.toNat : Int) := by
  cases node with
  | none => simp
  | some node => exact readSeq_iff

/-- The payload of a depth update names a symbol, the first and the last identifier of a
range and, where the venue publishes it, the last one of the update before. -/
structure DescribesDepth (payload : Json) (header : DepthHeader) : Prop where
  symbol : ∃ name, payload.get? "s" = some (.string name) ∧ header.symbol = fromVenueSymbol name
  named : header.symbol.isEmpty = false
  first : (payload.get? "U").bind Json.integer? = some (header.firstId.toNat : Int)
  final : (payload.get? "u").bind Json.integer? = some (header.finalId.toNat : Int)
  ordered : header.firstId ≤ header.finalId
  prev : ∀ seq : Seq64, (payload.get? "pu").bind Json.integer? = some (seq.toNat : Int) →
    header.prevFinal = seq
  prev_none : (∀ seq : Seq64, (payload.get? "pu").bind Json.integer? ≠ some (seq.toNat : Int)) →
    header.prevFinal = kNoSeq64

/-- What the payload says is what the decoder reads, at some time of the venue. -/
theorem DescribesDepth.readDepthHeader_eq {payload : Json} {header : DepthHeader}
    (h : DescribesDepth payload header) :
    ∃ exchangeNs, readDepthHeader payload = .ok { header with exchangeNs := exchangeNs } := by
  obtain ⟨⟨name, hname, hsymbol⟩, hnamed, hfirst, hfinal, hordered, hprev, hnone⟩ := h
  have hprevFinal : optional payload "pu" readSeq kNoSeq64 = header.prevFinal := by
    rw [optional]
    cases hread : (payload.get? "pu").bind readSeq with
    | some seq => exact (hprev seq (bind_readSeq_iff.mp hread)).symm
    | none =>
        refine (hnone fun seq hseq => ?_).symm
        rw [bind_readSeq_iff.mpr hseq] at hread
        cases hread
  rw [hsymbol] at hnamed
  refine ⟨optional payload "E" readMillisAsNanos 0, ?_⟩
  rw [readDepthHeader, hname]
  simp only [hnamed, Bool.false_eq_true, if_false, bind_readSeq_iff.mpr hfirst,
    bind_readSeq_iff.mpr hfinal, UInt64.not_lt.mpr hordered, hprevFinal, hsymbol]

/-- The payload is in the envelope of a combined stream, or bare. -/
def Envelops (root payload : Json) : Prop :=
  root.get? "data" = some payload ∧ payload.isObject = true ∨
    payload = root ∧ ∀ data, root.get? "data" = some data → data.isObject = false

theorem Envelops.payloadOf_eq {root payload : Json} (h : Envelops root payload) :
    payloadOf root = payload := by
  rw [payloadOf]
  rcases h with ⟨hdata, hobject⟩ | ⟨rfl, hbare⟩
  · simp only [hdata, hobject, if_true]
  · split
    · rename_i data hdata
      rw [if_neg (Bool.eq_false_iff.mp (hbare data hdata))]
    · rfl

/-- The levels of a side: an array, or none when the field is absent. -/
def IsSide (payload : Json) (name : String) (nodes : List Json) : Prop :=
  (payload.get? name).getD (.array []) = .array nodes

theorem IsSide.levelNodes_eq {payload : Json} {name : String} {nodes : List Json}
    (h : IsSide payload name nodes) : levelNodes payload name = some nodes := by
  rw [IsSide] at h
  rw [levelNodes]
  cases hnode : payload.get? name with
  | none =>
      rw [hnode] at h
      cases h
      rfl
  | some node =>
      rw [hnode, Option.getD_some] at h
      rw [h]

variable (parse : List Char → Option Json) (steadyNs : Nat → Nanos)

/-- The frame is a depth update with the header and the levels. -/
structure IsDepthUpdate (frame : List Char) (header : DepthHeader) (bids asks : List Json) :
    Prop where
  small : frame.length ≤ kMaxFrameBytes
  parsed : ∃ root payload, parse frame = some root ∧ root.isObject = true ∧
    Envelops root payload ∧ payload.get? "e" = some (.string "depthUpdate") ∧
    DescribesDepth payload header ∧ IsSide payload "b" bids ∧ IsSide payload "a" asks

/-- The body is a depth snapshot with the identifier and the levels. -/
structure IsDepthSnapshot (body : List Char) (lastUpdateId : Seq64) (bids asks : List Json) :
    Prop where
  small : body.length ≤ kMaxFrameBytes
  parsed : ∃ root, parse body = some root ∧ root.isObject = true ∧
    (root.contains "code" && root.contains "msg") = false ∧
    (root.get? "lastUpdateId").bind Json.integer? = some (lastUpdateId.toNat : Int) ∧
    root.get? "bids" = some (.array bids) ∧ root.get? "asks" = some (.array asks)

theorem decodeStreamFrame_eq {frame : List Char} {header : DepthHeader} {bids asks : List Json}
    (h : IsDepthUpdate parse frame header bids asks) (recvNs : Nanos) (out : List MarketDataEvent) :
    ∃ exchangeNs, decodeStreamFrame parse steadyNs frame recvNs out =
      match chunkLoop (updateEvent { header with exchangeNs := exchangeNs } recvNs) steadyNs
          out.length true 0 bids asks out with
      | (true, out) => succeed out
      | (false, out) => fail .levelParseFailed "depthUpdate level is malformed" out := by
  obtain ⟨hsmall, root, payload, hparse, hobject, henvelops, htype, hheader, hbids, hasks⟩ := h
  obtain ⟨exchangeNs, hread⟩ := hheader.readDepthHeader_eq
  refine ⟨exchangeNs, ?_⟩
  rw [decodeStreamFrame, if_neg (Nat.not_lt.mpr hsmall), hparse]
  simp only [hobject, henvelops.payloadOf_eq, htype, decodeDepthUpdate, hread,
    hbids.levelNodes_eq, hasks.levelNodes_eq]
  rfl

theorem decodeDepthSnapshot_eq {body : List Char} {lastUpdateId : Seq64} {bids asks : List Json}
    (h : IsDepthSnapshot parse body lastUpdateId bids asks) (symbol : Symbol) (recvNs : Nanos)
    (out : List MarketDataEvent) :
    decodeDepthSnapshot parse steadyNs body symbol recvNs out =
      match chunkLoop (snapshotEvent symbol lastUpdateId recvNs) steadyNs out.length true 0 bids
          asks out with
      | (true, out) => succeed out
      | (false, out) => fail .levelParseFailed "snapshot level is malformed" out := by
  obtain ⟨hsmall, root, hparse, hobject, hrefused, hid, hbids, hasks⟩ := h
  rw [decodeDepthSnapshot, if_neg (Nat.not_lt.mpr hsmall), hparse]
  simp only [hobject, hrefused, bind_readSeq_iff.mpr hid, hbids, hasks]
  rfl

/-- A depth message whose levels can be read comes out whole, as a run of events behind
those that were there; one with a level that cannot be read leaves them as they were. -/
theorem depth_preserved (recvNs : Nanos) (out : List MarketDataEvent)
    (bidNodes askNodes : List Json) :
    (∀ frame header, IsDepthUpdate parse frame header bidNodes askNodes →
      (∀ bids asks, readLevels bidNodes = some bids → readLevels askNodes = some asks →
        ∃ events updates,
          decodeStreamFrame parse steadyNs frame recvNs out = succeed (out ++ events) ∧
          events.map MarketDataEvent.payload = updates.map .bookUpdate ∧
          UpdateRun header bids asks updates) ∧
      (readLevels bidNodes = none ∨ readLevels askNodes = none →
        (decodeStreamFrame parse steadyNs frame recvNs out).out = out ∧
        (decodeStreamFrame parse steadyNs frame recvNs out).status.isError = true)) ∧
    ∀ body symbol lastUpdateId, IsDepthSnapshot parse body lastUpdateId bidNodes askNodes →
      (∀ bids asks, readLevels bidNodes = some bids → readLevels askNodes = some asks →
        ∃ events images,
          decodeDepthSnapshot parse steadyNs body symbol recvNs out = succeed (out ++ events) ∧
          events.map MarketDataEvent.payload = images.map .bookSnapshot ∧
          SnapshotRun symbol lastUpdateId bids asks images) ∧
      (readLevels bidNodes = none ∨ readLevels askNodes = none →
        (decodeDepthSnapshot parse steadyNs body symbol recvNs out).out = out ∧
        (decodeDepthSnapshot parse steadyNs body symbol recvNs out).status.isError = true) := by
  refine ⟨fun frame header h => ⟨fun bids asks hbids hasks => ?_, fun hread => ?_⟩,
    fun body symbol lastUpdateId h => ⟨fun bids asks hbids hasks => ?_, fun hread => ?_⟩⟩
  · obtain ⟨exchangeNs, hdecode⟩ := decodeStreamFrame_eq parse steadyNs h recvNs out
    obtain ⟨chunks, hcovers, hloop⟩ := chunkLoop_of_readable
      (updateEvent { header with exchangeNs := exchangeNs } recvNs) steadyNs out.length 0 true out
      hbids hasks
    obtain ⟨hbidsEq, hasksEq, hsane, hids, hlast⟩ :=
      hcovers.updateRun { header with exchangeNs := exchangeNs }
    refine ⟨_, _, ?_, runEvents_updates _ recvNs steadyNs chunks true 0,
      ⟨hbidsEq, hasksEq, hsane, hids, hlast⟩⟩
    rw [hdecode, hloop]
  · obtain ⟨exchangeNs, hdecode⟩ := decodeStreamFrame_eq parse steadyNs h recvNs out
    have hloop := chunkLoop_of_unreadable
      (updateEvent { header with exchangeNs := exchangeNs } recvNs) steadyNs 0 true hread
      (le_refl out.length)
    rw [hdecode, hloop, List.take_length]
    exact ⟨rfl, rfl⟩
  · obtain ⟨chunks, hcovers, hloop⟩ := chunkLoop_of_readable
      (snapshotEvent symbol lastUpdateId recvNs) steadyNs out.length 0 true out hbids hasks
    refine ⟨_, snapshotsOf symbol lastUpdateId true chunks, ?_,
      runEvents_snapshots symbol lastUpdateId recvNs steadyNs chunks true 0,
      hcovers.snapshotRun symbol lastUpdateId⟩
    rw [decodeDepthSnapshot_eq parse steadyNs h, hloop]
  · have hloop := chunkLoop_of_unreadable (snapshotEvent symbol lastUpdateId recvNs) steadyNs 0
      true hread (le_refl out.length)
    rw [decodeDepthSnapshot_eq parse steadyNs h, hloop, List.take_length]
    exact ⟨rfl, rfl⟩

end Messages

/-- A level as the venue writes it, and as it is parsed. -/
def levelText (level : String × String) : List Char :=
  "[\"".toList ++ level.1.toList ++ "\",\"".toList ++ level.2.toList ++ "\"]".toList

def levelJson (level : String × String) : Json := .array [.string level.1, .string level.2]

def levelsText (levels : List (String × String)) : List Char :=
  '[' :: ((levels.map levelText).intersperse [',']).flatten ++ [']']

/-- A depth update in the envelope of a combined stream. -/
def sampleFrame (bids asks : List (String × String)) : List Char :=
  "\x7b\"stream\":\"btcusdt@depth\",\"data\":\x7b\"e\":\"depthUpdate\",".toList ++
    "\"E\":1700000000000,\"s\":\"BTCUSDT\",\"U\":5,\"u\":7,\"b\":".toList ++ levelsText bids ++
    ",\"a\":".toList ++ levelsText asks ++ "\x7d\x7d".toList

def sampleUpdate (bids asks : List (String × String)) : Json :=
  .object [("e", .string "depthUpdate"), ("E", .numberUnsigned 1700000000000),
    ("s", .string "BTCUSDT"), ("U", .numberUnsigned 5), ("u", .numberUnsigned 7),
    ("b", .array (bids.map levelJson)), ("a", .array (asks.map levelJson))]

/-- The parser, on that frame and on no other text. -/
def sampleParse (bids asks : List (String × String)) (text : List Char) : Option Json :=
  if text = sampleFrame bids asks then
    some (.object [("stream", .string "btcusdt@depth"), ("data", sampleUpdate bids asks)])
  else none

def sampleHeader : DepthHeader :=
  ⟨fromVenueSymbol "BTCUSDT", 5, 7, kNoSeq64, 0⟩

/-- Seventeen bids and two asks, the second of which is a deletion. -/
def sampleBidTexts : List (String × String) :=
  [("117", "1"), ("116", "2.5"), ("115", "1"), ("114", "1"), ("113", "1"), ("112", "1"),
    ("111", "1"), ("110", "1"), ("109", "1"), ("108", "1"), ("107", "1"), ("106", "1"),
    ("105", "1"), ("104", "1"), ("103", "1"), ("102", "1"), ("101", "0.5")]

def sampleAskTexts : List (String × String) := [("118", "2"), ("119", "0")]

theorem describesDepth_sample (bids asks : List (String × String)) :
    DescribesDepth (sampleUpdate bids asks) sampleHeader where
  symbol := ⟨"BTCUSDT", rfl, rfl⟩
  named := by decide
  first := rfl
  final := rfl
  ordered := by decide
  prev seq h := by cases h
  prev_none _ := rfl

theorem isDepthUpdate_sample :
    IsDepthUpdate (sampleParse sampleBidTexts sampleAskTexts)
      (sampleFrame sampleBidTexts sampleAskTexts) sampleHeader
      (sampleBidTexts.map levelJson) (sampleAskTexts.map levelJson) :=
  ⟨by decide +kernel, _, sampleUpdate sampleBidTexts sampleAskTexts, if_pos rfl, rfl,
    .inl ⟨rfl, rfl⟩, rfl, describesDepth_sample _ _, rfl, rfl⟩

def sampleLevels (raws : List (Int × Int)) : List PriceLevel :=
  raws.map fun (price, quantity) => ⟨Fixed.narrow price, Fixed.narrow quantity⟩

def sampleBids : List PriceLevel :=
  sampleLevels [(11700000000, 100000000), (11600000000, 250000000), (11500000000, 100000000),
    (11400000000, 100000000), (11300000000, 100000000), (11200000000, 100000000),
    (11100000000, 100000000), (11000000000, 100000000), (10900000000, 100000000),
    (10800000000, 100000000), (10700000000, 100000000), (10600000000, 100000000),
    (10500000000, 100000000), (10400000000, 100000000), (10300000000, 100000000),
    (10200000000, 100000000), (10100000000, 50000000)]

def sampleAsks : List PriceLevel := sampleLevels [(11800000000, 200000000), (11900000000, 0)]

/-- One event holds no more than sixteen of the bids, so the message takes two. -/
theorem depth_preserved_sample :
    let parse := sampleParse sampleBidTexts sampleAskTexts
    let frame := sampleFrame sampleBidTexts sampleAskTexts
    ∃ events updates,
      decodeStreamFrame parse (fun _ => 0) frame 0 [] = succeed ([] ++ events) ∧
      events.map MarketDataEvent.payload = updates.map .bookUpdate ∧
      UpdateRun sampleHeader sampleBids sampleAsks updates :=
  ((depth_preserved _ (fun _ => 0) 0 [] _ _).1 _ sampleHeader isDepthUpdate_sample).1 sampleBids
    sampleAsks (by decide +kernel) (by decide +kernel)

/-- What the codec of numbers is given for a message with the header. -/
def DepthHeader.update (header : DepthHeader) : DepthUpdate where
  symbol := header.symbol
  firstId := header.firstId
  finalId := header.finalId
  prevFinal := header.prevFinal

theorem readLevel_acceptable {node : Json} {level : PriceLevel} (h : readLevel node = some level) :
    BinanceCodec.readLevel level = true := by
  unfold readLevel at h
  split at h
  · obtain ⟨price, _, h⟩ := Option.bind_eq_some_iff.mp h
    obtain ⟨quantity, _, h⟩ := Option.bind_eq_some_iff.mp h
    split at h
    · rename_i hsigns
      cases h
      exact hsigns
    · cases h
  · cases h

theorem readLevels_acceptable {nodes : List Json} {levels : List PriceLevel}
    (h : readLevels nodes = some levels) : levels.all BinanceCodec.readLevel = true := by
  induction nodes generalizing levels with
  | nil =>
      cases h
      rfl
  | cons node nodes ih =>
      rw [readLevels_cons] at h
      obtain ⟨level, hlevel, h⟩ := Option.bind_eq_some_iff.mp h
      obtain ⟨rest, hrest, h⟩ := Option.map_eq_some_iff.mp h
      cases h
      rw [List.all_cons, readLevel_acceptable hlevel, ih hrest]
      rfl

/-- A chunk of nodes is a chunk of numbers. -/
theorem fillChunk_numbers {nodes rest : List Json} {chunk levels : List PriceLevel}
    (hfill : fillChunk kMaxLevelsPerEvent nodes = some (chunk, rest))
    (hread : readLevels nodes = some levels) :
    BinanceCodec.fillChunk levels = some chunk ∧
      readLevels rest = some (levels.drop kMaxLevelsPerEvent) ∧
      rest.isEmpty = (levels.drop kMaxLevelsPerEvent).isEmpty := by
  obtain ⟨chunk', more, hchunk, hmore, hlevels⟩ := readLevels_split kMaxLevelsPerEvent hread
  rw [fillChunk_eq, hchunk] at hfill
  cases hfill
  have hlength := length_readLevels hchunk
  have hall := length_readLevels hread
  rw [List.length_take] at hlength
  have htake : levels.take kMaxLevelsPerEvent = chunk := by
    have hleft : levels.take chunk.length = chunk := by rw [← hlevels, List.take_left']; rfl
    rw [← hleft, List.take_eq_take_iff]
    omega
  have hdrop : levels.drop kMaxLevelsPerEvent = more := by
    have hsplit := List.take_append_drop kMaxLevelsPerEvent levels
    rw [htake, ← hlevels] at hsplit
    rw [← hlevels]
    exact List.append_cancel_left hsplit
  refine ⟨?_, by rw [hdrop, hmore], ?_⟩
  · have hacceptable := readLevels_acceptable hchunk
    rw [BinanceCodec.fillChunk, htake, if_pos hacceptable]
  · have hmoreLength := length_readLevels hmore
    rw [hdrop, Bool.eq_iff_iff, List.isEmpty_iff_length_eq_zero, List.isEmpty_iff_length_eq_zero,
      hmoreLength]

/-- The loop makes the events that the codec of numbers makes. -/
theorem chunkLoop_eq_fillChunks (header : DepthHeader) (recvNs : Nanos) (steadyNs : Nat → Nanos)
    (before reading : Nat) (first : Bool) (out : List MarketDataEvent) {bids asks : List Json}
    {bidLevels askLevels : List PriceLevel} (hbids : readLevels bids = some bidLevels)
    (hasks : readLevels asks = some askLevels) :
    ∃ updates, BinanceCodec.fillChunks header.update bidLevels askLevels = some updates ∧
      (chunkLoop (updateEvent header recvNs) steadyNs before first reading bids asks out).2.map
          MarketDataEvent.payload =
        out.map MarketDataEvent.payload ++ updates.map .bookUpdate := by
  fun_induction chunkLoop (updateEvent header recvNs) steadyNs before first reading bids asks out
    generalizing bidLevels askLevels with
  | case1 first reading bids asks out chunkBids bids' chunkAsks asks' hb ha isLast =>
      rename_i event hlast
      obtain ⟨hbidChunk, hbidRest, hbidEmpty⟩ := fillChunk_numbers hb hbids
      obtain ⟨haskChunk, haskRest, haskEmpty⟩ := fillChunk_numbers ha hasks
      have hlevels : ((bidLevels.drop kMaxLevelsPerEvent).isEmpty &&
          (askLevels.drop kMaxLevelsPerEvent).isEmpty) = true := by
        rw [← hbidEmpty, ← haskEmpty]
        exact hlast
      rw [BinanceCodec.fillChunks, hbidChunk, haskChunk]
      dsimp only
      rw [if_pos hlevels]
      refine ⟨_, rfl, ?_⟩
      rw [List.map_append, hlevels]
      simp only [event, hlast]
      rfl
  | case2 first reading bids asks out chunkBids bids' chunkAsks asks' hb ha isLast event =>
      rename_i hmore ih
      obtain ⟨hbidChunk, hbidRest, hbidEmpty⟩ := fillChunk_numbers hb hbids
      obtain ⟨haskChunk, haskRest, haskEmpty⟩ := fillChunk_numbers ha hasks
      have hlevels : ((bidLevels.drop kMaxLevelsPerEvent).isEmpty &&
          (askLevels.drop kMaxLevelsPerEvent).isEmpty) = false := by
        rw [← hbidEmpty, ← haskEmpty]
        exact Bool.eq_false_iff.mpr hmore
      obtain ⟨updates, hupdates, hevents⟩ := ih hbidRest haskRest
      rw [BinanceCodec.fillChunks, hbidChunk, haskChunk]
      dsimp only
      rw [hlevels, if_neg Bool.false_ne_true, hupdates]
      refine ⟨_, rfl, ?_⟩
      rw [hevents, List.map_append, List.append_assoc]
      simp only [event, Bool.eq_false_iff.mpr hmore]
      rfl
  | case3 first reading bids asks out hstuck =>
      obtain ⟨_, _, hb⟩ := exists_fillChunk kMaxLevelsPerEvent hbids
      obtain ⟨_, _, ha⟩ := exists_fillChunk kMaxLevelsPerEvent hasks
      exact (hstuck _ _ _ _ hb ha).elim

end MmEngine.Exchange.Wire
