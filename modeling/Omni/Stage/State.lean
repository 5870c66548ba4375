import Mathlib.Data.List.Perm.Basic
import Mathlib.Data.String.Basic
import Mathlib.Logic.Function.Basic

/-!
# The state of a stage

`Stage` of `runtime.py`, for a stage that owns its external I/O: what it remembers of requests,
its receive tasks and its outbox drain. All of them run on one event loop, so the state
changes in pieces between two awaits.
-/

namespace Omni.Stage

variable (V : Type)

/-- What goes from one stage to another for a request: a stream chunk with its id, the signal
that a stream is done, or the payload. -/
inductive Item
  | chunk (chunkId : ℕ) (data : V)
  | done
  | payload (value : V)
  deriving DecidableEq

/-- A transfer that a message refers to. -/
structure DataRef where
  objectId : String
  /-- The value travels in the message, as a CUDA IPC handle. -/
  direct : Bool
  value : V
  deriving DecidableEq

/-- `DataReadyMessage`. -/
structure DataReadyMessage where
  requestId : String
  fromStage : String
  dataRef : Option (DataRef V)
  isDone : Bool
  error : Option String
  chunkId : Option ℕ
  deriving DecidableEq

/-- The handler that `_schedule_receive_task` chooses. -/
inductive Handler
  | streamSignal
  | streamChunk
  | dataReady
  deriving DecidableEq

/-- Where a receive task is suspended. -/
inductive ReceivePc
  /-- Created, and not yet running. -/
  | created
  | reading
  /-- Awaits `_send_data_ack`. -/
  | acking
  /-- Awaits the predecessor in the lane. -/
  | waiting
  /-- `_send_failure` awaits `send_complete`. -/
  | reporting
  /-- Reads the data of an aborted request. -/
  | discarding
  /-- Awaits `_send_data_ack` for discarded data. -/
  | discardAcking
  /-- In the `finally` of `_run_receive_task`. -/
  | ending
  | ended
  deriving DecidableEq

/-- A task of `_run_receive_task`. Its completion future is done when it has ended. -/
structure ReceiveTask where
  msg : DataReadyMessage V
  predecessor : Option ℕ
  pc : ReceivePc
  /-- What the read or the deserialization raised. -/
  exc : Option String
  /-- The exception that leaves the handler. -/
  raised : Option String
  deriving DecidableEq

/-- `OutgoingMessage` of a scheduler. -/
inductive Outgoing
  | result (data : V)
  | stream (data : V) (target : Option String)
  | error (text : String)
  deriving DecidableEq

/-- How an item goes to the next stage. -/
inductive Transport
  | localObject
  /-- The item travels in the message, if it needs data at all. -/
  | direct
  | relay
  deriving DecidableEq

/-- Where a coroutine of `_send_stream_to_target` is suspended. -/
inductive JobPc
  /-- Passed to `asyncio.gather` and not yet running. -/
  | created
  /-- Awaits `send_to_stage` or `send_stream_chunk` of the communication engine. -/
  | sending (transport : Transport) (chunkId : ℕ)
  /-- Awaits the local dispatcher. -/
  | calling
  | ended
  deriving DecidableEq

/-- A coroutine of `_send_stream_to_target`. -/
structure Job where
  requestId : String
  data : V
  target : String
  pc : JobPc
  deriving DecidableEq

/-- Where the outbox drain is suspended. -/
inductive DrainPc
  /-- Awaits the next message of the outbox. -/
  | idle
  /-- Awaits the coroutines that send a chunk. -/
  | streams (requestId : String)
  | toCoordinator (requestId : String) (chunkId : ℕ) (data : V)
  /-- `_route_result` awaits the stream signal to `target`, which may have left; `all` are the
  targets of signals. -/
  | signals (requestId : String) (result : V) (left : Bool) (target : String)
      (rest all : List String)
  | completing (requestId : String) (result : V)
  /-- `_route_result` awaits `_send_to_stage` to `target`; the payload may have left. -/
  | payloads (requestId : String) (result : V) (left : Bool) (transport : Transport)
      (target : String) (projected : V) (rest all : List String) (single : Bool)
  /-- `_send_failure` awaits `send_complete`. -/
  | failing (requestId : String)
  | crashed
  deriving DecidableEq

/-- What has become of the acknowledgement of a transfer. -/
inductive AckState
  | waiting
  | acked
  | failed (error : String)
  /-- The watcher of the transfer has ended. -/
  | ended
  deriving DecidableEq

/-- A transfer of the communication engine that left for another stage. -/
structure Transfer where
  requestId : String
  target : String
  ack : AckState
  deriving DecidableEq

/-- What happened, in the order in which it happened. -/
inductive Entry
  /-- An item of a request was handed to the scheduler inbox or, a payload, to the input handler,
  by a receive task or by a local call. -/
  | delivered (task : Option ℕ) (requestId fromStage : String) (item : Item V)
  /-- `_execute` put a payload into the scheduler inbox. -/
  | executed (requestId : String) (payload : V)
  /-- `_send_failure` was called. -/
  | failed (task : Option ℕ) (requestId error : String)
  /-- An error was dropped, because the request is already in `_aborted`. -/
  | dropped (task : Option ℕ) (requestId error : String)
  /-- The failure completion was sent. -/
  | reported (task : Option ℕ) (requestId : String)
  /-- `_on_abort` was called. -/
  | aborted (requestId : String)
  /-- `scheduler.abort` was called. -/
  | schedulerAborted (requestId : String)
  /-- An id left `_aborted`. -/
  | forgotten (requestId : String)
  /-- An item left for a target, in the order in which the sends returned. -/
  | sent (requestId target : String) (transport : Transport) (item : Item V)
  /-- A chunk was sent to the coordinator. -/
  | streamed (requestId : String) (chunkId : ℕ) (data : V)
  /-- The result was sent to the coordinator. -/
  | completed (requestId : String) (result : V)
  deriving DecidableEq

/-- What a stage is configured with, and the code of others that it calls. -/
structure Config where
  name : String
  /-- The stages with an endpoint. -/
  endpoints : List String
  streamTargets : List String
  sameProcessTargets : List String
  /-- The stages that the local dispatcher knows, if there is one. -/
  localDispatcher : Option (List String)
  hasStreamQueue : Bool
  canAcceptStreamBeforePayload : Bool
  isTerminal : Bool
  getNext : String → V → Except String (Option (List String))
  getStreamDoneTargets : Option (String → V → Except String (Option (List String)))
  projectPayload : String → Option (V → Except String V)
  /-- `_is_isolated_projected_payload` for a payload and what its projector made of it. -/
  isIsolated : V → V → Except String Bool
  /-- Whether a payload that is not sent as a local object travels in the message. Deciding it,
  or choosing a relay otherwise, raises for a payload that cannot be sent. -/
  payloadIsDirect : String → V → Except String Bool
  /-- The same for a chunk; it raises for a chunk that is no tensor. -/
  chunkIsDirect : String → V → Except String Bool
  /-- The order in which a set of ids is iterated over. -/
  iterationOrder : List String → List String
  iterationOrder_perm : ∀ ids, (iterationOrder ids).Perm ids

/-- A stage that owns its external I/O. -/
structure State where
  running : Bool
  controlPlaneOpen : Bool
  backgroundTaskError : Option String
  /-- `_aborted`. -/
  abortedIds : List String
  activeRequests : List String
  /-- The requests with an open stream queue. -/
  streamQueue : List String
  /-- The requests of which the input handler holds something. -/
  inputHandler : List String
  streamChunkCounters : String → String → Option ℕ
  firstStreamChunkSeen : List String
  localStreamTargets : String → List String
  nonlocalStreamTargets : String → List String
  receiveTasks : List (ReceiveTask V)
  receiveLaneTails : String → String → Option ℕ
  /-- Local calls of other stages that await `send_complete` in `_send_failure`. -/
  localCalls : List String
  outbox : List (String × Outgoing V)
  drain : DrainPc V
  jobs : List (Job V)
  /-- The transfers of the communication engine. -/
  pending : List Transfer
  log : List (Entry V)

variable {V}

/-- A stage after `start()`. -/
def State.init : State V where
  running := true
  controlPlaneOpen := true
  backgroundTaskError := none
  abortedIds := []
  activeRequests := []
  streamQueue := []
  inputHandler := []
  streamChunkCounters _ _ := none
  firstStreamChunkSeen := []
  localStreamTargets _ := []
  nonlocalStreamTargets _ := []
  receiveTasks := []
  receiveLaneTails _ _ := none
  localCalls := []
  outbox := []
  drain := .idle
  jobs := []
  pending := []
  log := []

variable (cfg : Config V) (s : State V)

/-- The ids that `_record_aborted_request_id` removes from the set. -/
def evicted (ids : List String) : List String :=
  if ids.length > 10000 then (cfg.iterationOrder ids).take (ids.length - 5000) else []

/-- `_record_aborted_request_id`. -/
def State.recordAborted (requestId : String) : State V :=
  let ids := s.abortedIds.insert requestId
  let gone := evicted cfg ids
  { s with abortedIds := ids.filter (· ∉ gone), log := s.log ++ gone.map .forgotten }

/-- `_clear_request_state`. -/
def State.clearRequestState (requestId : String) : State V :=
  { s with
    activeRequests := s.activeRequests.filter (· ≠ requestId)
    inputHandler := s.inputHandler.filter (· ≠ requestId)
    streamQueue := s.streamQueue.filter (· ≠ requestId)
    streamChunkCounters := Function.update s.streamChunkCounters requestId fun _ => none
    firstStreamChunkSeen := s.firstStreamChunkSeen.filter (· ≠ requestId)
    localStreamTargets := Function.update s.localStreamTargets requestId []
    nonlocalStreamTargets := Function.update s.nonlocalStreamTargets requestId [] }

/-- `_active_requests.add`. -/
def State.activate (requestId : String) : State V :=
  { s with activeRequests := s.activeRequests.insert requestId }

/-- `StreamQueue.open`, if the stage has a stream queue. -/
def State.openStreamQueue (requestId : String) : State V :=
  let opened := if cfg.hasStreamQueue then s.streamQueue.insert requestId else s.streamQueue
  { s with streamQueue := opened }

/-- What happens is written down. -/
def State.record (entry : Entry V) : State V := { s with log := s.log ++ [entry] }

/-- `_on_abort`. -/
def State.onAbort (requestId : String) : State V :=
  (((s.record (.aborted requestId)).recordAborted cfg requestId).clearRequestState requestId).record
    (.schedulerAborted requestId)

/-- `_on_background_task_done` for a task that raised. -/
def State.onBackgroundTaskDone (error : String) : State V :=
  { s with
    backgroundTaskError := s.backgroundTaskError.or (some error)
    running := false
    controlPlaneOpen := false }

/-- `_open_pre_payload_stream_if_allowed`: the result says whether there is a queue. -/
def State.openPrePayloadStreamIfAllowed (requestId : String) : State V × Bool :=
  if ¬cfg.hasStreamQueue then (s, false)
  else if requestId ∈ s.streamQueue then (s, true)
  else if ¬cfg.canAcceptStreamBeforePayload then (s, false)
  else ((s.activate requestId).openStreamQueue cfg requestId, true)

/-- `_record_local_stream_target`. -/
def State.recordLocalStreamTarget (requestId target : String) : State V :=
  let targets := (s.localStreamTargets requestId).insert target
  { s with localStreamTargets := Function.update s.localStreamTargets requestId targets }

/-- `_record_nonlocal_stream_target`. -/
def State.recordNonlocalStreamTarget (requestId target : String) : State V :=
  let targets := (s.nonlocalStreamTargets requestId).insert target
  { s with nonlocalStreamTargets := Function.update s.nonlocalStreamTargets requestId targets }

/-- `_can_send_full_payload_locally`. -/
def State.canSendFullPayloadLocally (requestId target : String)
    (streamTargetsForRequest : List String) : Bool :=
  if target ∈ s.nonlocalStreamTargets requestId then false
  else if target ∉ streamTargetsForRequest then true
  else target ∈ s.localStreamTargets requestId

end Omni.Stage
