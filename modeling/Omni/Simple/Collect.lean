import Omni.Simple.Desk

/-!
# Collecting batches

The serving loop of `StreamingSimpleScheduler`: it takes one message after another, collects
requests or chunks that follow into a batch, and puts the first message that does not fit back.
Batches contain what has arrived, in its order, without the messages of aborted or failed requests.
-/

namespace Omni.Simple

open Transition List

variable {D : Type} {batch : List (Incoming D)} {cost : ℕ} {discarded : List String}

/-- The configuration, and the hooks that the collectors call. -/
structure StreamConfig (D : Type) where
  /-- There is a `batch_compute_fn`. -/
  hasBatchFn : Bool
  maxBatchSize : ℕ
  maxBatchCost : Option ℕ
  requestCostFn : Option (D → Except Unit ℕ)
  isStreamingPayload : D → Except Unit Bool
  canBatchStreamChunks : Bool
  streamChunkBatchMax : Option ℕ
  distinctRequests : Bool
  maxBatchSize_pos : 0 < maxBatchSize

/-- What has become of a message that has been taken. -/
inductive Fate
  | batched
  | aborted
  | failed
  deriving DecidableEq

/-- Where the loop is. -/
inductive CollectPoint (D : Type)
  | idle
  | taken (msg : Incoming D)
  | collectingNew (batch : List (Incoming D)) (cost : ℕ)
  | collectingChunks (batch : List (Incoming D))
  | handling (batch : List (Incoming D))
  deriving DecidableEq

/-- The message in the loop's hands. -/
def CollectPoint.held : CollectPoint D → List (Incoming D)
  | .taken msg => [msg]
  | _ => []

/-- The batch that is being collected. -/
def CollectPoint.opened : CollectPoint D → List (Incoming D)
  | .collectingNew batch _ | .collectingChunks batch => batch
  | _ => []

/-- The scheduler. -/
structure Collector (D : Type) where
  inbox : List (Incoming D)
  /-- `_pending_messages`. -/
  pending : List (Incoming D)
  /-- `_aborted_request_ids`. -/
  aborted : List String
  point : CollectPoint D
  /-- All messages that have been put into the inbox. -/
  arrived : List (Incoming D)
  /-- The messages that have been taken, in this order. -/
  log : List (Incoming D × Fate)
  /-- The batches that have been handed to their handlers. -/
  handled : List (List (Incoming D))
  /-- All ids that have been recorded as aborted. -/
  recorded : List String
  /-- The ids of the errors in the outbox. -/
  errors : List String

/-- The steps of the loop, and what other threads do. Some recorded ids may be discarded. -/
inductive CollectAction (D : Type)
  | put (requestId : String) (type : MessageType) (data : D)
  | abort (requestId : String) (discarded : List String)
  | take
  | check (discarded : List String)
  | pull (discarded : List String)
  | close
  /-- A handler fails a request. -/
  | fail (requestId : String) (discarded : List String)
  /-- A streaming request starts or ends: its id is not aborted any more. -/
  | revive (requestId : String)
  | finish

namespace Collector

/-- Before the first message. -/
def init (D : Type) : Collector D := ⟨[], [], [], .idle, [], [], [], [], []⟩

variable (cfg : StreamConfig D) (s : Collector D)

/-- `_message_cost` of a request. -/
def messageCost (msg : Incoming D) : Except Unit ℕ :=
  match cfg.requestCostFn with
  | none => .ok 0
  | some requestCost => requestCost msg.data

/-- The cap of a batch of chunks. -/
def chunkCap : ℕ :=
  match cfg.streamChunkBatchMax with
  | none | some 0 => max cfg.maxBatchSize 1
  | some cap => cap

/-- A message becomes part of the batch. -/
def enter (msg : Incoming D) (point : CollectPoint D) : Collector D :=
  { s with log := s.log ++ [(msg, .batched)], point := point }

/-- The batch is handed to its handler. -/
def handle (batch : List (Incoming D)) : Collector D :=
  { s with handled := s.handled ++ [batch], point := .handling batch }

/-- The message of an aborted request is passed over. -/
def skip (msg : Incoming D) : Collector D := { s with log := s.log ++ [(msg, .aborted)] }

/-- `_abort_state` records an id. -/
def record (requestId : String) (discarded : List String) : Option (Collector D) :=
  (recordAborted s.aborted requestId discarded).map fun aborted =>
    { s with aborted := aborted, recorded := s.recorded ++ [requestId] }

/-- `_emit_error` and `abort`. -/
def failId (requestId : String) (discarded : List String) : Option (Collector D) :=
  { s with errors := s.errors ++ [requestId] }.record requestId discarded

/-- The request of the message has failed. -/
def failMsg (msg : Incoming D) (discarded : List String) : Option (Collector D) :=
  { s with log := s.log ++ [(msg, Fate.failed)] }.failId msg.requestId discarded

/-- The message is put back, and the batch is closed. -/
def pushBack (msg : Incoming D) (batch : List (Incoming D)) : Collector D :=
  { s with pending := msg :: s.pending }.handle batch

/-- The begin of `_collect_new_request_batch`. -/
def checkNew (msg : Incoming D) (discarded : List String) : Option (Collector D) :=
  if cfg.hasBatchFn = false ∨ cfg.maxBatchSize ≤ 1 then
    some ((s.enter msg .idle).handle [msg])
  else match cfg.isStreamingPayload msg.data with
    | .error _ => ({ s with point := .idle }).failMsg msg discarded
    | .ok true => some ((s.enter msg .idle).handle [msg])
    | .ok false =>
      match messageCost cfg msg with
      | .error _ => ({ s with point := .idle }).failMsg msg discarded
      | .ok cost => some (s.enter msg (.collectingNew [msg] cost))

/-- The check of a message that has been taken, and the begin of its batch. -/
def check (msg : Incoming D) (discarded : List String) : Option (Collector D) :=
  if msg.requestId ∈ s.aborted then some { s.skip msg with point := .idle }
  else match msg.type with
    | .newRequest => s.checkNew cfg msg discarded
    | .streamChunk =>
      if cfg.canBatchStreamChunks ∧ 1 < chunkCap cfg then
        some (s.enter msg (.collectingChunks [msg]))
      else some ((s.enter msg .idle).handle [msg])
    | .streamDone => some ((s.enter msg .idle).handle [msg])

/-- A turn of the loop of `_collect_new_request_batch`, after a message has been got. -/
def pullNew (batch : List (Incoming D)) (cost : ℕ) (msg : Incoming D) (discarded : List String) :
    Option (Collector D) :=
  if msg.requestId ∈ s.aborted then some (s.skip msg)
  else if msg.type ≠ .newRequest then some (s.pushBack msg batch)
  else match cfg.isStreamingPayload msg.data with
    | .error _ => s.failMsg msg discarded
    | .ok true => some (s.pushBack msg batch)
    | .ok false =>
      match cfg.maxBatchCost with
      | none => some (s.enter msg (.collectingNew (batch ++ [msg]) cost))
      | some bound =>
        match messageCost cfg msg with
        | .error _ => s.failMsg msg discarded
        | .ok msgCost =>
          if bound < cost + msgCost then some (s.pushBack msg batch)
          else some (s.enter msg (.collectingNew (batch ++ [msg]) (cost + msgCost)))

/-- A turn of the loop of `_collect_stream_chunk_batch`, after a message has been got. -/
def pullChunk (batch : List (Incoming D)) (msg : Incoming D) : Collector D :=
  if msg.type ≠ .streamChunk then s.pushBack msg batch
  else if msg.requestId ∈ s.aborted then s.skip msg
  else if cfg.distinctRequests = true ∧ msg.requestId ∈ batch.map (·.requestId) then
    s.pushBack msg batch
  else s.enter msg (.collectingChunks (batch ++ [msg]))

/-- A turn of a collector's loop. -/
def pull (discarded : List String) : Option (Collector D) :=
  match s.point, s.inbox with
  | .collectingNew batch cost, msg :: rest =>
    if batch.length < cfg.maxBatchSize then
      { s with inbox := rest }.pullNew cfg batch cost msg discarded
    else none
  | .collectingChunks batch, msg :: rest =>
    if batch.length < chunkCap cfg then some ({ s with inbox := rest }.pullChunk cfg batch msg)
    else none
  | _, _ => none

/-- The batch is full, or nothing has come in time. -/
def close : Option (Collector D) :=
  match s.point with
  | .collectingNew batch _ =>
    if cfg.maxBatchSize ≤ batch.length ∨ s.inbox = [] then some (s.handle batch) else none
  | .collectingChunks batch =>
    if chunkCap cfg ≤ batch.length ∨ s.inbox = [] then some (s.handle batch) else none
  | _ => none

/-- `_next_message`. -/
def take : Option (Collector D) :=
  match s.pending, s.inbox with
  | msg :: rest, _ => some { s with pending := rest, point := .taken msg }
  | [], msg :: rest => some { s with inbox := rest, point := .taken msg }
  | [], [] => none

/-- The transition function. -/
def step (s : Collector D) : CollectAction D → Option (Collector D)
  | .put requestId type data =>
    let msg : Incoming D := ⟨s.arrived.length, requestId, type, data⟩
    some { s with inbox := s.inbox ++ [msg], arrived := s.arrived ++ [msg] }
  | .abort requestId discarded => s.record requestId discarded
  | .take =>
    match s.point with
    | .idle => s.take
    | _ => none
  | .check discarded =>
    match s.point with
    | .taken msg => s.check cfg msg discarded
    | _ => none
  | .pull discarded => s.pull cfg discarded
  | .close => s.close cfg
  | .fail requestId discarded =>
    match s.point with
    | .handling _ => s.failId requestId discarded
    | _ => none
  | .revive requestId =>
    match s.point with
    | .handling batch =>
      if requestId ∈ batch.map (·.requestId) then
        some { s with aborted := s.aborted.filter (· ≠ requestId) }
      else none
    | _ => none
  | .finish =>
    match s.point with
    | .handling _ => some { s with point := .idle }
    | _ => none

/-- A batch of requests. Only a single request may be a streaming one or cost too much. -/
structure NewBatch (cfg : StreamConfig D) (batch : List (Incoming D)) : Prop where
  requests : ∀ msg ∈ batch, msg.type = .newRequest
  size : batch.length ≤ cfg.maxBatchSize
  streaming : 1 < batch.length → ∀ msg ∈ batch, cfg.isStreamingPayload msg.data = .ok false
  cost : 1 < batch.length → ∀ bound, cfg.maxBatchCost = some bound →
    ∃ costs : List ℕ, batch.map (messageCost cfg) = costs.map Except.ok ∧ costs.sum ≤ bound

/-- A batch of chunks. -/
structure ChunkBatch (cfg : StreamConfig D) (batch : List (Incoming D)) : Prop where
  chunks : ∀ msg ∈ batch, msg.type = .streamChunk
  size : batch.length ≤ chunkCap cfg
  distinct : cfg.distinctRequests = true → (batch.map (·.requestId)).Nodup

/-- A batch as a handler gets it. -/
def GoodBatch (cfg : StreamConfig D) (batch : List (Incoming D)) : Prop :=
  NewBatch cfg batch ∨ ChunkBatch cfg batch ∨ ∃ msg, batch = [msg] ∧ msg.type = .streamDone

/-- A batch of requests that is being collected. -/
structure OpenNew (cfg : StreamConfig D) (batch : List (Incoming D)) (cost : ℕ) : Prop where
  requests : ∀ msg ∈ batch, msg.type = .newRequest
  size : batch.length ≤ cfg.maxBatchSize
  streaming : ∀ msg ∈ batch, cfg.isStreamingPayload msg.data = .ok false
  costs : ∀ bound, cfg.maxBatchCost = some bound → ∃ costs : List ℕ,
    batch.map (messageCost cfg) = costs.map Except.ok ∧ costs.sum = cost
  bounded : 1 < batch.length → ∀ bound, cfg.maxBatchCost = some bound → cost ≤ bound

variable {cfg} {s}

theorem chunkCap_pos : 0 < chunkCap cfg := by
  unfold chunkCap
  split
  · exact Nat.lt_of_lt_of_le Nat.one_pos (Nat.le_max_right _ _)
  · exact Nat.lt_of_lt_of_le Nat.one_pos (Nat.le_max_right _ _)
  next hcap hsome =>
    refine Nat.pos_of_ne_zero fun hzero => ?_
    exact hcap hzero

theorem OpenNew.good (h : OpenNew cfg batch cost) :
    GoodBatch cfg batch := by
  refine Or.inl ⟨h.requests, h.size, fun _ => h.streaming, fun hmore bound hbound => ?_⟩
  obtain ⟨costs, hcosts, hsum⟩ := h.costs bound hbound
  exact ⟨costs, hcosts, hsum ▸ h.bounded hmore bound hbound⟩

theorem goodBatch_single (msg : Incoming D) : GoodBatch cfg [msg] := by
  cases htype : msg.type with
  | newRequest =>
    refine Or.inl ⟨fun other hother => ?_, cfg.maxBatchSize_pos, fun hmore => ?_, fun hmore => ?_⟩
    · rwa [mem_singleton.mp hother]
    · exact absurd hmore (Nat.lt_irrefl 1)
    · exact absurd hmore (Nat.lt_irrefl 1)
  | streamChunk =>
    refine Or.inr (Or.inl ⟨fun other hother => ?_, chunkCap_pos, fun _ => ?_⟩)
    · rwa [mem_singleton.mp hother]
    · exact nodup_singleton _
  | streamDone => exact Or.inr (Or.inr ⟨msg, rfl, htype⟩)

variable {msg : Incoming D}

/-- The first request of a batch. -/
theorem openNew_single (hnew : msg.type = .newRequest)
    (hstreaming : cfg.isStreamingPayload msg.data = .ok false)
    (hcost : messageCost cfg msg = .ok cost) : OpenNew cfg [msg] cost where
  requests other hother := by rwa [mem_singleton.mp hother]
  size := cfg.maxBatchSize_pos
  streaming other hother := by rwa [mem_singleton.mp hother]
  costs _ _ := ⟨[cost], by rw [map_singleton, hcost, map_singleton], sum_singleton⟩
  bounded hmore := absurd hmore (Nat.lt_irrefl 1)

theorem OpenNew.append {cost' : ℕ} (h : OpenNew cfg batch cost) (hnew : msg.type = .newRequest)
    (hstreaming : cfg.isStreamingPayload msg.data = .ok false)
    (hroom : batch.length < cfg.maxBatchSize)
    (hcost : ∀ bound, cfg.maxBatchCost = some bound → ∃ msgCost,
      messageCost cfg msg = .ok msgCost ∧ cost' = cost + msgCost ∧ cost' ≤ bound) :
    OpenNew cfg (batch ++ [msg]) cost' where
  requests other hother := by
    rcases mem_append.mp hother with hold | hlast
    · exact h.requests other hold
    · rwa [mem_singleton.mp hlast]
  size := by
    rw [length_append, length_singleton]
    exact hroom
  streaming other hother := by
    rcases mem_append.mp hother with hold | hlast
    · exact h.streaming other hold
    · rwa [mem_singleton.mp hlast]
  costs bound hbound := by
    obtain ⟨costs, hcosts, hsum⟩ := h.costs bound hbound
    obtain ⟨msgCost, hmsgCost, htotal, _⟩ := hcost bound hbound
    refine ⟨costs ++ [msgCost], ?_, ?_⟩
    · rw [map_append, hcosts, map_append, map_singleton, hmsgCost,
        map_singleton]
    · rw [sum_append, sum_singleton, hsum, htotal]
  bounded _ bound hbound := by
    obtain ⟨_, _, _, hle⟩ := hcost bound hbound
    exact hle

theorem chunkBatch_single (hchunk : msg.type = .streamChunk) :
    ChunkBatch cfg [msg] where
  chunks other hother := by rwa [mem_singleton.mp hother]
  size := chunkCap_pos
  distinct _ := nodup_singleton _

theorem ChunkBatch.append (h : ChunkBatch cfg batch) (hchunk : msg.type = .streamChunk)
    (hroom : batch.length < chunkCap cfg)
    (hdistinct : ¬(cfg.distinctRequests = true ∧ msg.requestId ∈ batch.map (·.requestId))) :
    ChunkBatch cfg (batch ++ [msg]) where
  chunks other hother := by
    rcases mem_append.mp hother with hold | hlast
    · exact h.chunks other hold
    · rwa [mem_singleton.mp hlast]
  size := by
    rw [length_append, length_singleton]
    exact hroom
  distinct hmode := by
    rw [map_append, map_singleton, nodup_append_comm, singleton_append, nodup_cons]
    exact ⟨fun hmem => hdistinct ⟨hmode, hmem⟩, h.distinct hmode⟩

/-- The messages that have become part of a batch. -/
def batched (s : Collector D) : List (Incoming D) :=
  (s.log.filter (·.2 = .batched)).map Prod.fst

/-- The scheduler's books, with a message in the loop's hands and a batch that is open. -/
structure Ordered (cfg : StreamConfig D) (s : Collector D) (held opened : List (Incoming D)) :
    Prop where
  order : s.arrived = s.log.map Prod.fst ++ held ++ s.pending ++ s.inbox
  numbered : s.arrived.map (·.seq) = List.range s.arrived.length
  few : s.pending.length + held.length ≤ 1
  alone : opened ≠ [] → s.pending = []
  batches : s.batched = s.handled.flatten ++ opened
  good : ∀ batch ∈ s.handled, GoodBatch cfg batch
  marked : ∀ requestId ∈ s.aborted, requestId ∈ s.recorded
  skipped : ∀ msg, (msg, Fate.aborted) ∈ s.log → msg.requestId ∈ s.recorded
  failures : ∀ msg, (msg, Fate.failed) ∈ s.log → msg.requestId ∈ s.errors

variable {held opened : List (Incoming D)} {msg : Incoming D}

/-- Where the loop is plays no part. -/
theorem Ordered.withPoint (h : Ordered cfg s held opened) (point : CollectPoint D) :
    Ordered cfg { s with point := point } held opened :=
  { h with }

/-- Entries of a log that has grown by one. -/
theorem mem_log_append {msg other : Incoming D} {fate fate' : Fate}
    (hmem : (other, fate') ∈ s.log ++ [(msg, fate)]) :
    (other, fate') ∈ s.log ∨ (other = msg ∧ fate' = fate) := by
  rcases mem_append.mp hmem with hold | hlast
  · exact Or.inl hold
  · rw [mem_singleton, Prod.mk.injEq] at hlast
    exact Or.inr hlast

/-- The order of the messages when the one in hand is logged. -/
theorem Ordered.order_log (h : Ordered cfg s [msg] opened) (fate : Fate) :
    s.arrived = (s.log ++ [(msg, fate)]).map Prod.fst ++ [] ++ s.pending ++ s.inbox := by
  rw [map_append, map_singleton, append_nil]
  exact h.order

/-- With a message in hand nothing is pending. -/
theorem Ordered.pending_nil (h : Ordered cfg s [msg] opened) : s.pending = [] :=
  eq_nil_of_length_eq_zero (Nat.le_zero.mp (Nat.le_of_succ_le_succ h.few))

theorem Ordered.enter (h : Ordered cfg s [msg] opened) (point : CollectPoint D) :
    Ordered cfg (s.enter msg point) [] (opened ++ [msg]) := { h with
  order := h.order_log .batched
  few := by
    change s.pending.length + 0 ≤ 1
    rw [h.pending_nil]
    exact Nat.zero_le 1
  alone _ := h.pending_nil
  batches := by
    change ((s.log ++ [(msg, Fate.batched)]).filter _).map Prod.fst = _
    rw [filter_append, map_append]
    exact (congrArg (· ++ [msg]) h.batches).trans (append_assoc ..)
  skipped other hother := by
    rcases mem_log_append hother with hold | ⟨_, hfate⟩
    · exact h.skipped other hold
    · cases hfate
  failures other hother := by
    rcases mem_log_append hother with hold | ⟨_, hfate⟩
    · exact h.failures other hold
    · cases hfate }

theorem Ordered.handle (h : Ordered cfg s [] batch) (hgood : GoodBatch cfg batch) :
    Ordered cfg (s.handle batch) [] [] := { h with
  alone hne := absurd rfl hne
  batches := by
    change s.batched = (s.handled ++ [batch]).flatten ++ []
    rw [flatten_append, flatten_singleton, append_nil]
    exact h.batches
  good other hother := by
    rcases mem_append.mp hother with hold | hlast
    · exact h.good other hold
    · rwa [mem_singleton.mp hlast] }

theorem Ordered.skip (h : Ordered cfg s [msg] opened) (haborted : msg.requestId ∈ s.aborted) :
    Ordered cfg (s.skip msg) [] opened := { h with
  order := h.order_log .aborted
  few := Nat.le_of_succ_le h.few
  batches := by
    change ((s.log ++ [(msg, Fate.aborted)]).filter _).map Prod.fst = _
    rw [filter_append, map_append]
    exact (append_nil _).trans h.batches
  skipped other hother := by
    rcases mem_log_append hother with hold | ⟨rfl, _⟩
    · exact h.skipped other hold
    · exact h.marked _ haborted
  failures other hother := by
    rcases mem_log_append hother with hold | ⟨_, hfate⟩
    · exact h.failures other hold
    · cases hfate }

variable {s' : Collector D} {requestId : String}

theorem Ordered.record (h : Ordered cfg s held opened)
    (hrecord : s.record requestId discarded = some s') :
    Ordered cfg s' held opened ∧ s'.point = s.point := by
  obtain ⟨aborted, haborted, rfl⟩ := Option.map_eq_some_iff.mp hrecord
  refine ⟨{ h with marked := fun id hid => ?_, skipped := fun msg hmsg => ?_ }, rfl⟩
  · rcases mem_recordAborted haborted hid with hold | rfl
    · exact mem_append_left _ (h.marked id hold)
    · exact mem_append_right _ (mem_singleton_self _)
  · exact mem_append_left _ (h.skipped msg hmsg)

theorem Ordered.failId (h : Ordered cfg s held opened)
    (hfail : s.failId requestId discarded = some s') :
    Ordered cfg s' held opened ∧ s'.point = s.point := by
  have herror : Ordered cfg { s with errors := s.errors ++ [requestId] } held opened :=
    { h with failures := fun msg hmsg => mem_append_left _ (h.failures msg hmsg) }
  exact herror.record hfail

theorem Ordered.failMsg (h : Ordered cfg s [msg] opened)
    (hfail : s.failMsg msg discarded = some s') :
    Ordered cfg s' [] opened ∧ s'.point = s.point := by
  -- the error and the entry of the log belong together
  have hlogged : Ordered cfg
      { s with log := s.log ++ [(msg, .failed)], errors := s.errors ++ [msg.requestId] }
      [] opened := by
    refine ⟨h.order_log .failed, h.numbered, Nat.le_of_succ_le h.few, h.alone, ?_, h.good,
      h.marked, fun other hother => ?_, fun other hother => ?_⟩
    · change ((s.log ++ [(msg, Fate.failed)]).filter _).map Prod.fst = _
      rw [filter_append, map_append]
      exact (append_nil _).trans h.batches
    · rcases mem_log_append hother with hold | ⟨_, hfate⟩
      · exact h.skipped other hold
      · cases hfate
    · rcases mem_log_append hother with hold | ⟨heq, _⟩
      · exact mem_append_left _ (h.failures other hold)
      · exact heq ▸ mem_append_right _ (mem_singleton_self _)
  exact hlogged.record hfail

theorem Ordered.pushBack (h : Ordered cfg s [msg] batch) (hgood : GoodBatch cfg batch) :
    Ordered cfg (s.pushBack msg batch) [] [] := { h with
  order := by
    change s.arrived = s.log.map Prod.fst ++ [] ++ (msg :: s.pending) ++ s.inbox
    rw [h.order, append_nil, append_assoc (s.log.map Prod.fst) [msg], singleton_append]
  few := by
    change (msg :: s.pending).length + 0 ≤ 1
    rw [h.pending_nil]
    exact Nat.le_refl 1
  alone hne := absurd rfl hne
  batches := by
    change s.batched = (s.handled ++ [batch]).flatten ++ []
    rw [flatten_append, flatten_singleton, append_nil]
    exact h.batches
  good other hother := by
    rcases mem_append.mp hother with hold | hlast
    · exact h.good other hold
    · rwa [mem_singleton.mp hlast] }

/-- The batch that is being collected is one that a handler may get. -/
inductive GoodPoint (cfg : StreamConfig D) : CollectPoint D → Prop
  | idle : GoodPoint cfg .idle
  | taken (msg : Incoming D) : GoodPoint cfg (.taken msg)
  | collectingNew {batch : List (Incoming D)} {cost : ℕ} (hne : batch ≠ [])
    (h : OpenNew cfg batch cost) : GoodPoint cfg (.collectingNew batch cost)
  | collectingChunks {batch : List (Incoming D)} (hne : batch ≠ []) (h : ChunkBatch cfg batch) :
    GoodPoint cfg (.collectingChunks batch)
  | handling (batch : List (Incoming D)) : GoodPoint cfg (.handling batch)

/-- The invariant of the loop. -/
structure Collected (cfg : StreamConfig D) (s : Collector D) : Prop where
  ordered : Ordered cfg s s.point.held s.point.opened
  point : GoodPoint cfg s.point

theorem collected_init : Collected cfg (init D) where
  ordered :=
    ⟨rfl, rfl, Nat.zero_le 1, fun hne => absurd rfl hne, rfl, nofun, nofun, nofun, nofun⟩
  point := .idle

/-- A message that a handler gets alone. -/
theorem Ordered.handle_single (h : Ordered cfg s [msg] []) :
    Collected cfg ((s.enter msg .idle).handle [msg]) :=
  ⟨(h.enter .idle).handle (goodBatch_single msg), .handling _⟩

theorem Ordered.checkNew (h : Ordered cfg s [msg] []) (hnew : msg.type = .newRequest)
    (hcheck : s.checkNew cfg msg discarded = some s') : Collected cfg s' := by
  have hidle : ∀ {s' : Collector D},
      ({ s with point := .idle } : Collector D).failMsg msg discarded = some s' →
      Collected cfg s' := by
    intro s' hfail
    obtain ⟨hordered, hpoint⟩ := (h.withPoint .idle).failMsg hfail
    refine ⟨?_, ?_⟩
    · rw [hpoint]
      exact hordered
    · rw [hpoint]
      exact .idle
  unfold Collector.checkNew at hcheck
  split at hcheck
  · cases hcheck
    exact h.handle_single
  · split at hcheck
    · exact hidle hcheck
    · cases hcheck
      exact h.handle_single
    next hstreaming =>
      split at hcheck
      · exact hidle hcheck
      next cost hcost =>
        cases hcheck
        exact ⟨h.enter _, .collectingNew (cons_ne_nil _ _) (openNew_single hnew hstreaming hcost)⟩

theorem Ordered.check (h : Ordered cfg s [msg] []) (hcheck : s.check cfg msg discarded = some s') :
    Collected cfg s' := by
  unfold Collector.check at hcheck
  split at hcheck
  next haborted =>
    cases hcheck
    exact ⟨(h.skip haborted).withPoint .idle, .idle⟩
  · split at hcheck
    next hnew => exact h.checkNew hnew hcheck
    next hchunk =>
      split at hcheck
      · cases hcheck
        exact ⟨h.enter _, .collectingChunks (cons_ne_nil _ _) (chunkBatch_single hchunk)⟩
      · cases hcheck
        exact h.handle_single
    · cases hcheck
      exact h.handle_single

theorem Ordered.pullNew (h : Ordered cfg s [msg] batch)
    (hpoint : s.point = .collectingNew batch cost) (hne : batch ≠ [])
    (hopen : OpenNew cfg batch cost) (hroom : batch.length < cfg.maxBatchSize)
    (hpull : s.pullNew cfg batch cost msg discarded = some s') : Collected cfg s' := by
  have hstay : ∀ {t : Collector D}, Ordered cfg t [] batch → t.point = s.point →
      Collected cfg t := by
    intro t hordered ht
    rw [hpoint] at ht
    refine ⟨?_, ?_⟩
    · rw [ht]
      exact hordered
    · rw [ht]
      exact .collectingNew hne hopen
  have hback : Collected cfg (s.pushBack msg batch) := ⟨h.pushBack hopen.good, .handling _⟩
  unfold Collector.pullNew at hpull
  split at hpull
  next haborted =>
    cases hpull
    exact hstay (h.skip haborted) rfl
  · split at hpull
    · cases hpull
      exact hback
    next hnew =>
      rw [not_not] at hnew
      split at hpull
      · obtain ⟨hordered, hsame⟩ := h.failMsg hpull
        exact hstay hordered hsame
      · cases hpull
        exact hback
      next hstreaming =>
        split at hpull
        next hunbounded =>
          cases hpull
          refine ⟨h.enter _, .collectingNew (append_ne_nil_of_left_ne_nil hne _)
            (hopen.append hnew hstreaming hroom fun bound hbound => ?_)⟩
          rw [hunbounded] at hbound
          cases hbound
        next bound hbound =>
          split at hpull
          · obtain ⟨hordered, hsame⟩ := h.failMsg hpull
            exact hstay hordered hsame
          next msgCost hmsgCost =>
            split at hpull
            · cases hpull
              exact hback
            next hfits =>
              cases hpull
              refine ⟨h.enter _, .collectingNew (append_ne_nil_of_left_ne_nil hne _)
                (hopen.append hnew hstreaming hroom fun bound' hbound' => ?_)⟩
              rw [hbound, Option.some.injEq] at hbound'
              exact ⟨msgCost, hmsgCost, rfl, hbound' ▸ Nat.le_of_not_lt hfits⟩

theorem Ordered.pullChunk (h : Ordered cfg s [msg] batch)
    (hpoint : s.point = .collectingChunks batch) (hne : batch ≠ []) (hopen : ChunkBatch cfg batch)
    (hroom : batch.length < chunkCap cfg) :
    Collected cfg (s.pullChunk cfg batch msg) := by
  have hback : Collected cfg (s.pushBack msg batch) :=
    ⟨h.pushBack (Or.inr (Or.inl hopen)), .handling _⟩
  unfold Collector.pullChunk
  split
  · exact hback
  next hchunk =>
    rw [not_not] at hchunk
    split
    next haborted =>
      have hsame : (s.skip msg).point = .collectingChunks batch := hpoint
      refine ⟨?_, ?_⟩
      · rw [hsame]
        exact h.skip haborted
      · rw [hsame]
        exact .collectingChunks hne hopen
    · split
      · exact hback
      next hdistinct =>
        exact ⟨h.enter _, .collectingChunks (append_ne_nil_of_left_ne_nil hne _)
          (hopen.append hchunk hroom hdistinct)⟩

/-- While a batch is open, the next message comes out of the inbox. -/
theorem Ordered.pop {rest : List (Incoming D)} (h : Ordered cfg s [] opened) (hne : opened ≠ [])
    (hinbox : s.inbox = msg :: rest) :
    Ordered cfg { s with inbox := rest } [msg] opened := { h with
  order := by
    change s.arrived = s.log.map Prod.fst ++ [msg] ++ s.pending ++ rest
    rw [h.order, h.alone hne, hinbox, append_nil, append_nil, append_nil,
      append_assoc, singleton_append]
  few := by
    change s.pending.length + 1 ≤ 1
    rw [h.alone hne]
    exact Nat.le_refl 1 }

theorem Collected.pull (h : Collected cfg s) (hpull : s.pull cfg discarded = some s') :
    Collected cfg s' := by
  obtain ⟨hordered, hgood⟩ := h
  unfold Collector.pull at hpull
  split at hpull
  next batch cost msg rest hpoint hinbox =>
    rw [hpoint] at hordered hgood
    obtain _ | _ | ⟨hne, hopen⟩ | _ | _ := hgood
    split at hpull
    next hroom => exact (hordered.pop hne hinbox).pullNew hpoint hne hopen hroom hpull
    · cases hpull
  next batch msg rest hpoint hinbox =>
    rw [hpoint] at hordered hgood
    obtain _ | _ | _ | ⟨hne, hopen⟩ | _ := hgood
    split at hpull
    next hroom =>
      cases hpull
      exact (hordered.pop hne hinbox).pullChunk hpoint hne hopen hroom
    · cases hpull
  · cases hpull

theorem Collected.close (h : Collected cfg s) (hclose : s.close cfg = some s') :
    Collected cfg s' := by
  obtain ⟨hordered, hgood⟩ := h
  unfold Collector.close at hclose
  split at hclose
  next batch cost hpoint =>
    rw [hpoint] at hordered hgood
    obtain _ | _ | ⟨_, hopen⟩ | _ | _ := hgood
    split at hclose
    · cases hclose
      exact ⟨hordered.handle hopen.good, .handling _⟩
    · cases hclose
  next batch hpoint =>
    rw [hpoint] at hordered hgood
    obtain _ | _ | _ | ⟨_, hopen⟩ | _ := hgood
    split at hclose
    · cases hclose
      exact ⟨hordered.handle (Or.inr (Or.inl hopen)), .handling _⟩
    · cases hclose
  · cases hclose

/-- The pending message comes before the inbox. -/
theorem Ordered.take (h : Ordered cfg s [] []) (htake : s.take = some s') : Collected cfg s' := by
  unfold Collector.take at htake
  split at htake
  next msg rest hpending =>
    cases htake
    have hrest : rest = [] := by
      have hfew := h.few
      rw [hpending] at hfew
      exact eq_nil_of_length_eq_zero (Nat.le_zero.mp (Nat.le_of_succ_le_succ hfew))
    subst hrest
    refine ⟨{ h with order := ?_, few := Nat.le_refl 1, alone := fun hne => absurd rfl hne },
      .taken msg⟩
    change s.arrived = s.log.map Prod.fst ++ [msg] ++ [] ++ s.inbox
    rw [h.order, hpending, append_nil, append_nil]
  next msg rest hpending hinbox =>
    cases htake
    refine ⟨{ h with order := ?_, few := ?_, alone := fun hne => absurd rfl hne }, .taken msg⟩
    · change s.arrived = s.log.map Prod.fst ++ [msg] ++ s.pending ++ rest
      rw [h.order, hpending, hinbox, append_nil, append_nil, append_nil,
        append_assoc, singleton_append]
    · change s.pending.length + 1 ≤ 1
      rw [hpending]
      exact Nat.le_refl 1
  · cases htake

theorem Ordered.put (h : Ordered cfg s held opened) (requestId : String) (type : MessageType)
    (data : D) :
    Ordered cfg { s with
      inbox := s.inbox ++ [⟨s.arrived.length, requestId, type, data⟩],
      arrived := s.arrived ++ [⟨s.arrived.length, requestId, type, data⟩] } held opened := { h with
  order := by
    change s.arrived ++ _ = s.log.map Prod.fst ++ held ++ s.pending ++ (s.inbox ++ _)
    rw [← append_assoc, ← h.order]
  numbered := by
    change (s.arrived ++ [_]).map _ = List.range (s.arrived ++ [_]).length
    rw [map_append, h.numbered, length_append, length_singleton, range_succ]
    rfl }

theorem Collected.step {a : CollectAction D} (h : Collected cfg s)
    (hstep : step cfg s a = some s') :
    Collected cfg s' := by
  have hsame : ∀ {t : Collector D}, Ordered cfg t s.point.held s.point.opened →
      t.point = s.point → Collected cfg t := by
    intro t hordered hpoint
    refine ⟨?_, ?_⟩
    · rw [hpoint]
      exact hordered
    · rw [hpoint]
      exact h.point
  have hordered := h.ordered
  cases a with
  | put requestId type data =>
    cases hstep
    exact hsame (hordered.put requestId type data) rfl
  | abort requestId discarded =>
    obtain ⟨hrecorded, hpoint⟩ := hordered.record hstep
    exact hsame hrecorded hpoint
  | take =>
    simp only [Collector.step] at hstep
    split at hstep
    next hpoint =>
      rw [hpoint] at hordered
      exact hordered.take hstep
    · cases hstep
  | check discarded =>
    simp only [Collector.step] at hstep
    split at hstep
    next msg hpoint =>
      rw [hpoint] at hordered
      exact hordered.check hstep
    · cases hstep
  | pull discarded => exact h.pull hstep
  | close => exact h.close hstep
  | fail requestId discarded =>
    simp only [Collector.step] at hstep
    split at hstep
    · obtain ⟨hfailed, hpoint⟩ := hordered.failId hstep
      exact hsame hfailed hpoint
    · cases hstep
  | revive requestId =>
    simp only [Collector.step] at hstep
    split at hstep
    · split at hstep
      · cases hstep
        have hfewer : ∀ id ∈ s.aborted.filter (· ≠ requestId), id ∈ s.recorded :=
          fun id hid => hordered.marked id (mem_filter.mp hid).1
        exact hsame { hordered with marked := hfewer } rfl
      · cases hstep
    · cases hstep
  | finish =>
    simp only [Collector.step] at hstep
    split at hstep
    next batch hpoint =>
      cases hstep
      rw [hpoint] at hordered
      exact ⟨hordered.withPoint .idle, .idle⟩
    · cases hstep

theorem collected_run {as : List (CollectAction D)}
    (hrun : Run (step cfg) anyAction (init D) as s) :
    Collected cfg s :=
  hrun.invariant (I := Collected cfg) (fun _ _ _ h _ hstep => h.step hstep) collected_init

/-- A log contains every message once. -/
theorem Ordered.log_nodup (h : Ordered cfg s held opened) : (s.log.map Prod.fst).Nodup := by
  have harrived : s.arrived.Nodup := by
    refine List.Nodup.of_map (·.seq) ?_
    rw [h.numbered]
    exact nodup_range
  rw [h.order, append_assoc, append_assoc] at harrived
  exact (nodup_append.mp harrived).1

/-- Nothing is handled twice. -/
theorem Ordered.handled_nodup (h : Ordered cfg s held opened) : s.handled.flatten.Nodup := by
  have hbatched : s.batched.Nodup := h.log_nodup.sublist (filter_sublist.map _)
  rw [h.batches] at hbatched
  exact (nodup_append.mp hbatched).1

/-- In every run, whatever arrives and whatever is aborted: the messages taken so far, the message
in hand, the pending one and the inbox are the arrival sequence; the batches that have been handed
over and the open one are the messages taken, without those of requests that had been aborted or
had failed. -/
theorem batches_of_run {as : List (CollectAction D)}
    (hrun : Run (step cfg) anyAction (init D) as s) :
    s.pending.length ≤ 1 ∧
      s.arrived = s.log.map Prod.fst ++ s.point.held ++ s.pending ++ s.inbox ∧
      s.handled.flatten ++ s.point.opened = (s.log.filter (·.2 = .batched)).map Prod.fst ∧
      (∀ msg fate, (msg, fate) ∈ s.log → fate ≠ .batched →
        (fate = .aborted ∧ msg.requestId ∈ s.recorded) ∨
          (fate = .failed ∧ msg.requestId ∈ s.errors)) ∧
      s.arrived.Nodup ∧ s.handled.flatten.Nodup ∧
      ∀ batch ∈ s.handled, GoodBatch cfg batch := by
  have h := (collected_run hrun).ordered
  refine ⟨Nat.le_of_add_right_le h.few, h.order, h.batches.symm, fun msg fate hmem hfate => ?_,
    ?_, h.handled_nodup, h.good⟩
  · cases fate with
    | batched => exact absurd rfl hfate
    | aborted => exact Or.inl ⟨rfl, h.skipped msg hmem⟩
    | failed => exact Or.inr ⟨rfl, h.failures msg hmem⟩
  · refine List.Nodup.of_map (·.seq) ?_
    rw [h.numbered]
    exact nodup_range

/-- Batches of up to three requests, whose costs add up to at most five, and of chunks of different
requests. -/
def upToThree : StreamConfig ℕ where
  hasBatchFn := true
  maxBatchSize := 3
  maxBatchCost := some 5
  requestCostFn := some .ok
  isStreamingPayload data := .ok (decide (data = 100))
  canBatchStreamChunks := true
  streamChunkBatchMax := none
  distinctRequests := true
  maxBatchSize_pos := Nat.succ_pos 2

/-- A request costs too much for the batch and is put back, a chunk ends its batch, another one is
passed over since its request has been aborted, and a request has two chunks. -/
theorem batches_of_run_five : ∃ s : Collector ℕ,
    s.handled.map (·.map (·.seq)) = [[0, 1], [2], [3, 5], [6]] ∧
      s.log.map (fun entry => (entry.1.seq, entry.2)) =
        [(0, .batched), (1, .batched), (2, .batched), (3, .batched), (4, .aborted), (5, .batched),
          (6, .batched)] ∧
      s.pending =
    [] ∧ s.handled.flatten.Nodup ∧ ∀ batch ∈ s.handled, GoodBatch upToThree batch := by
  have hrun := run_of_isSome (step upToThree) (init ℕ)
    [.put "a" .newRequest 2, .put "b" .newRequest 1, .put "c" .newRequest 4, .take, .check [],
      .pull [], .pull [], .finish, .take, .put "a" .streamChunk 0, .check [], .pull [], .finish,
      .put "b" .streamChunk 0, .put "c" .streamChunk 0, .put "a" .streamChunk 0, .abort "b" [],
      .take, .check [], .pull [], .pull [], .pull [], .finish, .take, .check [], .close]
    (by decide +kernel)
  obtain ⟨_, _, _, _, _, hnodup, hgood⟩ := batches_of_run hrun
  exact ⟨_, by decide +kernel, by decide +kernel, by decide +kernel, hnodup, hgood⟩

end Collector

end Omni.Simple
