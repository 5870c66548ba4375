import Omni.Simple.Collect

/-!
# Streaming vocoders

`StreamingVocoderBase` as two threads run it: the scheduler's thread, which handles the batches that
its serving loop collects, and the stage's thread, which aborts requests. Steps are the sections
between two looks at the marks of aborted requests. What hooks do is given with a step.
-/

namespace Omni.Streaming

open Transition Simple

variable {D : Type}

/-- `OutgoingMessage.type`. -/
inductive Kind
  | stream
  | result
  | error
  deriving DecidableEq

/-- An `OutgoingMessage`. -/
structure Reply where
  requestId : String
  kind : Kind
  deriving DecidableEq

/-- Where the handling of a streaming request leads. -/
inductive Next (D : Type)
  | streams (todo nonStreaming : List (Incoming D))
  | finish

/-- What the handler of a batch has before it. -/
inductive Work (D : Type)
  | idle
  /-- `_handle_new_request_batch_with_loop`, first loop. -/
  | classify (todo streaming nonStreaming : List (Incoming D))
  /-- Its second loop. -/
  | streams (todo nonStreaming : List (Incoming D))
  /-- `_handle_streaming_new_request` begins. -/
  | unmark (requestId : String) (next : Next D)
  /-- It asks for the state lock. -/
  | register (requestId : String) (next : Next D)
  /-- `_handle_stream_done` asks for the state lock. -/
  | done (requestId : String)
  /-- `on_stream_done`. The lock is held. -/
  | flush (requestId : String) (next : Next D)
  /-- The loop over the messages that a hook has returned. The lock is held. -/
  | replies (requestId : String) (outs : List Kind) (closing : Bool) (next : Next D)
  /-- The last `_is_aborted` of `_handle_stream_done` was negative. The lock is held. -/
  | closed (requestId : String) (next : Next D)
  /-- `_on_chunk`. -/
  | chunk (requestId : String)
  /-- `_handle_stream_chunk_batch`, whose items are `StreamItem`s. -/
  | validate (todo : List (Incoming D)) (items : List String)
  /-- `on_stream_chunk_batch`. The lock is held, as in the next three. -/
  | ingest (items : List String)
  /-- `_pump_streams`. -/
  | pump
  | decoded (todo : List String) (waveforms : List String)
  /-- `on_step_failure`. -/
  | stepFailed (todo : List String)
  /-- `_run_non_streaming_batch`. -/
  | active (batch : List (Incoming D))
  | validateData (todo valid : List (Incoming D))
  | compute (todo : List (Incoming D))
  | computeBatch (valid : List (Incoming D))
  | answer (todo : List (String × Kind)) (rest : List (Incoming D))
  /-- The exception handler of `start`. -/
  | failing

/-- What the hooks of a step do, and which ids an eviction discards. -/
structure Choice where
  /-- The hooks return. -/
  ok : Bool := true
  /-- `decode_delta` has a waveform. -/
  waveform : Bool := false
  /-- `select_step_participants`. -/
  participants : List String := []
  /-- The ids with a waveform in what `run_step` returns. -/
  waveforms : List String := []
  /-- The number of results of `batch_compute_fn`. -/
  results : ℕ := 0
  discarded : List String := []

/-- The scheduler, and the two threads. -/
structure Vocoder (D : Type) where
  loop : Collector D
  /-- `_stream_payloads`. -/
  payloads : List String
  /-- `_pending_done`. -/
  pendingDone : List String
  /-- `_stream_states`. -/
  states : List String
  /-- `_emitted_stream_ids`. -/
  emitted : List String
  /-- `_completed_stream_request_ids`. -/
  completedStream : List String
  /-- `_completed_non_streaming_request_ids`. -/
  completedNonStreaming : List String
  outbox : List Reply
  work : Work D
  /-- The request that the stage's thread is aborting, when its mark has been recorded. -/
  aborting : Option String
  /-- Requests that the stage's thread has marked. -/
  calls : List String
  /-- Requests whose `abort` has returned. -/
  returned : List String

/-- The steps of the two threads. -/
inductive VocoderAction (D : Type)
  | put (requestId : String) (type : MessageType) (data : D)
  /-- `abort` on the stage's thread: the mark, and the rest. -/
  | record (requestId : String) (discarded : List String)
  | clear
  | take
  | check (discarded : List String)
  | pull (discarded : List String)
  | close
  | work (x : Choice)

/-- `resolve_initial_codec_chunk_frames` for a value that is not negative. -/
def resolveInitialCodecChunkFrames (value : Option ℕ) (steadyChunkFrames : ℕ) : ℕ :=
  value.elim 0 fun frames => min frames steadyChunkFrames

/-- Insertion into a set or a dict. -/
def addId (ids : List String) (requestId : String) : List String :=
  if requestId ∈ ids then ids else ids ++ [requestId]

/-- Deletion. -/
def dropId (ids : List String) (requestId : String) : List String := ids.filter (· ≠ requestId)

namespace Vocoder

/-- Before the first message. -/
def init (D : Type) : Vocoder D :=
  ⟨.init D, [], [], [], [], [], [], [], .idle, none, [], []⟩

variable (cfg : StreamConfig D) (s : Vocoder D)

/-- `_aborted_request_ids`. -/
def marks : List String := s.loop.aborted

/-- `outbox.put`. -/
def put (requestId : String) (kind : Kind) : Vocoder D :=
  { s with outbox := s.outbox ++ [⟨requestId, kind⟩] }

/-- `_clear_request_state`, without the mark. -/
def clearState (requestId : String) : Vocoder D :=
  { s with
    payloads := dropId s.payloads requestId
    pendingDone := dropId s.pendingDone requestId
    states := dropId s.states requestId
    emitted := dropId s.emitted requestId }

/-- `_emit_error` and `abort`, or `_abort_state`, by the scheduler's thread. -/
def failId (requestId : String) (discarded : List String) : Option (Vocoder D) :=
  (s.loop.failId requestId discarded).map fun loop =>
    ({ s with loop := loop }.put requestId .error).clearState requestId

/-- The mark of a request is removed. -/
def removeMark (requestId : String) : Vocoder D :=
  { s with loop := { s.loop with aborted := dropId s.loop.aborted requestId } }

/-- The handler has ended. -/
def finish : Vocoder D := { s with loop := { s.loop with point := .idle }, work := .idle }

/-- The handling of a streaming request has ended. -/
def continueWith : Next D → Vocoder D
  | .streams todo nonStreaming => { s with work := .streams todo nonStreaming }
  | .finish => s.finish

/-- `_get_or_create_stream_state` is not `None`. -/
def hasState (requestId : String) : Bool :=
  requestId ∈ s.states || (requestId ∉ s.marks && requestId ∉ s.completedStream)

/-- `_record_completed_stream_request_id`. -/
def recordCompletedStream (requestId : String) : Vocoder D :=
  let ids := addId s.completedStream requestId
  { s with completedStream := if ids.length ≤ 10000 then ids else ids.drop (ids.length - 5000) }

/-- `_record_completed_non_streaming_request_id`. -/
def recordCompleted (requestId : String) (discarded : List String) : Option (Vocoder D) :=
  (recordAborted s.completedNonStreaming requestId discarded).map fun ids =>
    { s with completedNonStreaming := ids }

/-- `_handle_streaming_new_request` under the lock. -/
def register (requestId : String) (next : Next D) (x : Choice) : Vocoder D :=
  let t : Vocoder D := { s with
    completedNonStreaming := dropId s.completedNonStreaming requestId
    payloads := addId s.payloads requestId
    completedStream := dropId s.completedStream requestId }
  let u := if t.hasState requestId then { t with states := addId t.states requestId } else t
  if t.hasState requestId = true ∧ x.ok = false then { u with work := .failing }
  else if requestId ∈ u.pendingDone then
    { u with pendingDone := dropId u.pendingDone requestId, work := .flush requestId next }
  else u.continueWith next

/-- `_handle_stream_done`, until it calls `on_stream_done`. -/
def handleDone (requestId : String) : Vocoder D :=
  if requestId ∈ s.payloads then { s with work := .flush requestId .finish }
  else if requestId ∈ s.completedNonStreaming then s.finish
  else { s with pendingDone := addId s.pendingDone requestId }.finish

/-- `on_stream_done`. If `final_result_data` raises, the stream may have been marked as emitted. -/
def flush (requestId : String) (next : Next D) (x : Choice) : Vocoder D :=
  if s.hasState requestId then
    let t := { s with
      states := addId s.states requestId
      emitted := if x.waveform then addId s.emitted requestId else s.emitted }
    if x.ok then
      { t.recordCompletedStream requestId with
        work := .replies requestId (if x.waveform then [.stream, .result] else [.result]) true
          next }
    else { t with work := .failing }
  else { s with work := .replies requestId [] true next }

/-- The next message that a hook has returned. -/
def reply (requestId : String) (closing : Bool) (next : Next D) : List Kind → Vocoder D
  | kind :: outs =>
    { (if requestId ∈ s.marks then s else s.put requestId kind) with
      work := .replies requestId outs closing next }
  | [] =>
    if closing = true ∧ requestId ∉ s.marks then { s with work := .closed requestId next }
    else s.continueWith next

/-- `_handle_stream_chunk` for chunks that are not batched. -/
def chunk (requestId : String) (x : Choice) : Vocoder D :=
  if s.hasState requestId then
    let t := { s with states := addId s.states requestId }
    if x.ok = false then { t with work := .failing }
    else if x.waveform then
      { t with
        emitted := addId t.emitted requestId
        work := .replies requestId [.stream] false .finish }
    else t.finish
  else s.finish

/-- An item of `on_stream_chunk_batch`. -/
def ingest (requestId : String) (items : List String) (x : Choice) : Option (Vocoder D) :=
  if requestId ∈ s.marks then some { s with work := .ingest items }
  else if s.hasState requestId then
    let t : Vocoder D := { s with
      states := addId s.states requestId
      work := .ingest items }
    if x.ok then some t else t.failId requestId x.discarded
  else some { s with work := .ingest items }

/-- A turn of `_pump_streams`. -/
def pump (x : Choice) : Option (Vocoder D) :=
  if x.participants.Nodup ∧ ∀ id ∈ x.participants, id ∈ s.states then
    if x.participants = [] then some s.finish
    else if x.ok then some { s with work := .decoded x.participants x.waveforms }
    else some { s with work := .stepFailed x.participants }
  else none

/-- A participant of a step. -/
def emitDecoded (requestId : String) (todo waveforms : List String) : Vocoder D :=
  if requestId ∈ waveforms ∧ requestId ∉ s.marks then
    { s.put requestId .stream with
      emitted := addId s.emitted requestId
      work := .decoded todo waveforms }
  else { s with work := .decoded todo waveforms }

/-- The valid requests are computed. -/
def computeValid (valid : List (Incoming D)) : Vocoder D :=
  if valid = [] then s.finish
  else if cfg.hasBatchFn = false ∨ valid.length ≤ 1 then { s with work := .compute valid }
  else { s with work := .computeBatch valid }

/-- The reply to a request that is not streaming. -/
def answer (requestId : String) (kind : Kind) (discarded : List String) : Option (Vocoder D) :=
  if requestId ∈ s.marks then some s
  else (s.put requestId kind).recordCompleted requestId discarded

/-- The exception handler of `start`: the first message of the batch fails. -/
def fail (discarded : List String) : Option (Vocoder D) :=
  match s.loop.point with
  | .handling (msg :: _) => (s.failId msg.requestId discarded).map finish
  | _ => none

/-- A step of the handler. -/
def workStep (x : Choice) : Option (Vocoder D) :=
  match s.work with
  | .idle => none
  | .classify (msg :: todo) streaming nonStreaming =>
    match cfg.isStreamingPayload msg.data with
    | .error _ =>
      { s with work := .classify todo streaming nonStreaming }.failId msg.requestId x.discarded
    | .ok true => some { s with work := .classify todo (streaming ++ [msg]) nonStreaming }
    | .ok false => some { s with work := .classify todo streaming (nonStreaming ++ [msg]) }
  | .classify [] streaming nonStreaming => some { s with work := .streams streaming nonStreaming }
  | .streams (msg :: todo) nonStreaming =>
    if msg.requestId ∈ s.marks then some { s with work := .streams todo nonStreaming }
    else some { s with work := .unmark msg.requestId (.streams todo nonStreaming) }
  | .streams [] nonStreaming =>
    if nonStreaming = [] then some s.finish else some { s with work := .active nonStreaming }
  | .unmark requestId next => some { s.removeMark requestId with work := .register requestId next }
  | .register requestId next => some (s.register requestId next x)
  | .done requestId => some (s.handleDone requestId)
  | .flush requestId next => some (s.flush requestId next x)
  | .replies requestId outs closing next => some (s.reply requestId closing next outs)
  | .closed requestId next =>
    some (((s.clearState requestId).removeMark requestId).continueWith next)
  | .chunk requestId => some (s.chunk requestId x)
  | .validate (msg :: todo) items =>
    if msg.requestId ∈ s.marks then some { s with work := .validate todo items }
    else some { s with work := .validate todo (items ++ [msg.requestId]) }
  | .validate [] items =>
    if items.filter (· ∉ s.marks) = [] then some s.finish
    else some { s with work := .ingest (items.filter (· ∉ s.marks)) }
  | .ingest (requestId :: items) => s.ingest requestId items x
  | .ingest [] => some { s with work := .pump }
  | .pump => s.pump x
  | .decoded (requestId :: todo) waveforms => some (s.emitDecoded requestId todo waveforms)
  | .decoded [] _ => some { s with work := .pump }
  | .stepFailed (requestId :: todo) =>
    { s with work := .stepFailed todo }.failId requestId x.discarded
  | .stepFailed [] => some s.finish
  | .active batch =>
    let msgs := batch.filter (·.requestId ∉ s.marks)
    if msgs = [] then some s.finish
    else some { s with
      pendingDone := s.pendingDone.filter (· ∉ msgs.map (·.requestId))
      work := .validateData msgs [] }
  | .validateData (msg :: todo) valid =>
    if x.ok then some { s with work := .validateData todo (valid ++ [msg]) }
    else ({ s with work := .validateData todo valid }.put msg.requestId .error).recordCompleted
      msg.requestId x.discarded
  | .validateData [] valid => some (s.computeValid cfg valid)
  | .compute (msg :: todo) =>
    if msg.requestId ∈ s.marks then some { s with work := .compute todo }
    else some { s with
      work := .answer [(msg.requestId, if x.ok then .result else .error)] todo }
  | .compute [] => some s.finish
  | .computeBatch valid =>
    let kind : Kind := if x.ok = true ∧ x.results = valid.length then .result else .error
    some { s with work := .answer (valid.map fun msg => (msg.requestId, kind)) [] }
  | .answer ((requestId, kind) :: todo) rest =>
    { s with work := .answer todo rest }.answer requestId kind x.discarded
  | .answer [] rest => some { s with work := .compute rest }
  | .failing => s.fail x.discarded

/-- The handler that the loop calls for a batch. -/
def handler : List (Incoming D) → Work D
  | [] => .idle
  | msg :: rest =>
    match msg.type with
    | .newRequest => .classify (msg :: rest) [] []
    | .streamChunk =>
      if cfg.canBatchStreamChunks then .validate (msg :: rest) [] else .chunk msg.requestId
    | .streamDone => .done msg.requestId

/-- The loop has made a step. A message may have failed, and a batch may be complete. -/
def collected (loop : Collector D) : Vocoder D :=
  let t := (loop.errors.drop s.loop.errors.length).foldl
    (fun t requestId => (t.put requestId .error).clearState requestId) { s with loop := loop }
  match loop.point with
  | .handling batch => { t with work := handler cfg batch }
  | _ => t

/-- A step of the serving loop. -/
def loopStep (a : CollectAction D) : Option (Vocoder D) :=
  match s.work with
  | .idle => (Collector.step cfg s.loop a).map (s.collected cfg)
  | _ => none

/-- The scheduler's thread holds the state lock. -/
def locked : Bool :=
  match s.work with
  | .flush .. | .replies .. | .closed .. | .ingest .. | .pump | .decoded .. | .stepFailed .. => true
  | _ => false

/-- The transition function. -/
def step (s : Vocoder D) : VocoderAction D → Option (Vocoder D)
  | .put requestId type data =>
    (Collector.step cfg s.loop (.put requestId type data)).map fun loop => { s with loop := loop }
  | .record requestId discarded =>
    match s.aborting with
    | none => (s.loop.record requestId discarded).map fun loop =>
      { s with
        loop := loop
        aborting := some requestId
        calls := addId s.calls requestId }
    | some _ => none
  | .clear =>
    match s.aborting with
    | some requestId =>
      if s.locked then none
      else some { s.clearState requestId with
        aborting := none
        returned := addId s.returned requestId }
    | none => none
  | .take => s.loopStep cfg .take
  | .check discarded => s.loopStep cfg (.check discarded)
  | .pull discarded => s.loopStep cfg (.pull discarded)
  | .close => s.loopStep cfg .close
  | .work x => s.workStep cfg x

end Vocoder

end Omni.Streaming
