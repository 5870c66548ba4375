import Omni.Coordinator.State
import Omni.Library.Transition

/-!
# The handlers of the pipeline coordinator

Each function is one atomic piece of a handler: from its start, or from the
point where an awaited call returns, to its next suspension point. The
suspension points are `submit_to_stage`, `broadcast_abort`, the completion
future and the stream queue. `queue.put` on an unbounded queue and `await` on a
finished future do not suspend.
-/

namespace Omni.Coordinator

open Function

variable {V Q : Type}

/-- `sorted(names)` as Python prints it. -/
def showSorted (names : Finset String) : String :=
  "[" ++ ", ".intercalate ((names.sort (· ≤ ·)).map fun name => "'" ++ name ++ "'") ++ "]"

/-- `_resolve_terminal_stages`. -/
def resolveTerminalStages (cfg : Config Q) (request : Q) : Except Failure (Finset String) :=
  match cfg.terminalStagesResolver with
  | none => .ok cfg.terminalStages
  | some resolver => do
    match ← resolver request with
    | .useDefault => .ok cfg.terminalStages
    | .notSequence => .error (.valueError
        "terminal_stages_resolver must return a sequence of terminal stage names or None")
    | .sequence items =>
      if none ∈ items then
        .error (.valueError "terminal_stages_resolver must return terminal stage names")
      else
        let resolvedStages := (items.filterMap id).toFinset
        if resolvedStages = ∅ then
          .error (.valueError "terminal_stages_resolver returned no terminal stages")
        else if resolvedStages ⊆ cfg.terminalStages then
          .ok resolvedStages
        else
          .error (.valueError (
            "terminal_stages_resolver returned stages outside the static " ++
            "terminal stages: " ++ showSorted (resolvedStages \ cfg.terminalStages) ++
            ". Allowed terminal stages: " ++ showSorted cfg.terminalStages))

/-- `_expected_terminal_stages`. -/
def expectedTerminalStages (cfg : Config Q) (s : State V) (requestId : String) : Finset String :=
  match s.requests requestId with
  | none => cfg.terminalStages
  | some c => (s.calls c).info.terminalStages

/-- Resolve the completion future of `requestId` unless there is none or it is done. -/
def resolveFuture (s : State V) (requestId : String) (value : Future V) : State V :=
  match s.completionFutures requestId with
  | none => s
  | some c => if (s.calls c).future.done then s
      else s.updateCall c fun call => { call with future := value }

/-- `_reject_completion_future`: a streaming call gets its error through the queue
and never awaits the future, which is cancelled instead. -/
def rejectCompletionFuture (s : State V) (requestId : String) (exc : Failure) : State V :=
  resolveFuture s requestId
    (if (s.streamQueues requestId).isSome then .cancelled else .exception exc)

/-- `if request_id in self._stream_queues: await self._stream_queues[request_id].put(msg)`. -/
def putStream (s : State V) (requestId : String) (msg : Message V) : State V :=
  match s.streamQueues requestId with
  | none => s
  | some c => s.updateCall c fun call => { call with queue := call.queue ++ [msg] }

/-- `self._requests.pop(request_id, None)` and `self._partial_results.pop(request_id, None)`. -/
def dropRequest (s : State V) (requestId : String) : State V :=
  { s with
    requests := update s.requests requestId none
    partialResults := update s.partialResults requestId none }

/-- `msg.error or "Unknown error"`. -/
def errorText (error : Option String) : String :=
  match error with
  | some message => if message = "" then "Unknown error" else message
  | none => "Unknown error"

/-- The completion that the coordinator itself puts on a stream queue. -/
def coordinatorError (requestId message : String) : Message V :=
  .complete ⟨requestId, "coordinator", false, none, some message⟩

/-- The checks of `_submit_request`, with the terminal stages of an accepted request. -/
def checkSubmission (cfg : Config Q) (s : State V) (requestId : String) (request : Q) :
    Except Failure (Finset String) :=
  match s.fatalError with
  | some message => .error (.runtimeError message)
  | none =>
    if (s.requests requestId).isSome then
      .error (.valueError s!"Request {requestId} already exists")
    else if cfg.entryStage ∉ s.stages then
      .error (.valueError s!"Entry stage {cfg.entryStage} not registered")
    else resolveTerminalStages cfg request

/-- `_submit_request` between its checks and its suspension in `submit_to_stage`:
the request is tracked and its completion future created. -/
def trackRequest (cfg : Config Q) (s : State V) (c : ℕ) (requestId : String)
    (terminalStages : Finset String) : State V :=
  { s.updateCall c fun call => { call with
      info := ⟨.pending, cfg.entryStage, terminalStages, none, none⟩
      future := .pending
      phase := .submitting } with
    requests := update s.requests requestId (some c)
    completionFutures := update s.completionFutures requestId (some c) }

/-- `_submit_request` up to its suspension in `submit_to_stage`. -/
def submitRequest (cfg : Config Q) (s : State V) (c : ℕ) (requestId : String) (request : Q) :
    Except Failure (State V) :=
  (checkSubmission cfg s requestId request).map (trackRequest cfg s c requestId)

/-- The record of a call that has just been made. -/
def Call.start (kind : Kind) (requestId : String) : Call V :=
  { (Call.idle : Call V) with kind := kind, requestId := requestId }

/-- End a call with an exception. -/
def raiseCall (s : State V) (c : ℕ) (failure : Failure) : State V :=
  s.setPhase c (.raised failure)

/-- The `finally` block of `stream`. -/
def streamFinally (s : State V) (requestId : String) : State V :=
  { s with
    streamQueues := update s.streamQueues requestId none
    completionFutures := update s.completionFutures requestId none }

/-- `self._stream_queues[request_id] = queue`. -/
def openQueue (s : State V) (c : ℕ) (requestId : String) : State V :=
  { s with streamQueues := update s.streamQueues requestId (some c) }

/-- `submit` up to its first suspension. -/
def submit (cfg : Config Q) (s : State V) (c : ℕ) (requestId : String) (request : Q) : State V :=
  let s := s.updateCall c fun _ => Call.start .submit requestId
  match submitRequest cfg s c requestId request with
  | .error failure => raiseCall s c failure
  | .ok s => s

/-- `stream` up to its first suspension. -/
def stream (cfg : Config Q) (s : State V) (c : ℕ) (requestId : String) (request : Q) : State V :=
  let s := s.updateCall c fun _ => Call.start .stream requestId
  if (s.streamQueues requestId).isSome then
    raiseCall s c (.valueError s!"Request {requestId} already streaming")
  else
    let s := openQueue s c requestId
    match submitRequest cfg s c requestId request with
    | .error failure => raiseCall (streamFinally s requestId) c failure
    | .ok s => s

/-- An exception inside `_submit_request` after its suspension leaves `submit` at
once and `stream` through its `finally` block. -/
def failSubmission (s : State V) (c : ℕ) (failure : Failure) : State V :=
  match (s.calls c).kind with
  | .submit => raiseCall s c failure
  | .stream => raiseCall (streamFinally s (s.calls c).requestId) c failure

/-- The rest of `_submit_request` once `submit_to_stage` has returned, and the
caller up to its next suspension. Every access goes through the maps, by id. -/
def submitted (cfg : Config Q) (s : State V) (c : ℕ) : State V :=
  let requestId := (s.calls c).requestId
  match s.requests requestId with
  | none => failSubmission s c (.keyError requestId)
  | some k =>
    let s := s.updateInfo k fun info => { info with state := .running }
    match (s.calls c).kind with
    | .submit =>
      match s.completionFutures requestId with
      | none => raiseCall s c (.keyError requestId)
      | some owner => s.setPhase c (.awaiting owner)
    | .stream =>
      let expected := expectedTerminalStages cfg s requestId
      s.setPhase c (.receiving expected ∅)

/-- How `await future` ends once the future is done. -/
def Future.outcome : Future V → Option (Phase V)
  | .pending => none
  | .result value => some (.returned (some value))
  | .exception failure => some (.raised failure)
  | .cancelled => some (.raised (.cancelledError ""))

/-- `submit` after `await future`, with its `finally` block. -/
def submitReturns (s : State V) (c : ℕ) (outcome : Phase V) : State V :=
  let requestId := (s.calls c).requestId
  { s.setPhase c outcome with
    completionFutures := update s.completionFutures requestId none }

/-- `msg = await queue.get()` and the loop body up to the `yield`. -/
def receive (s : State V) (c : ℕ) (expected completed : Finset String) (msg : Message V)
    (rest : List (Message V)) : State V :=
  let s := s.updateCall c fun call => { call with queue := rest }
  match msg with
  | .complete done =>
    if done.success then
      s.updateCall c fun call => { call with
        phase := .yielding expected completed msg, yielded := call.yielded ++ [msg] }
    else
      raiseCall (streamFinally s (s.calls c).requestId) c (.runtimeError (errorText done.error))
  | .stream _ =>
    s.updateCall c fun call => { call with
      phase := .yielding expected completed msg, yielded := call.yielded ++ [msg] }

/-- The loop body after the `yield`, up to the next `queue.get()` or the end. -/
def resume (s : State V) (c : ℕ) (expected completed : Finset String) (msg : Message V) :
    State V :=
  match msg with
  | .complete done =>
    let completed := insert done.fromStage completed
    if expected = ∅ ∨ expected ⊆ completed then
      (streamFinally s (s.calls c).requestId).setPhase c (.returned none)
    else s.setPhase c (.receiving expected completed)
  | .stream _ => s.setPhase c (.receiving expected completed)

/-- `info.state in (COMPLETED, FAILED, ABORTED)`. -/
def RequestState.ended : RequestState → Bool
  | .completed | .failed | .aborted => true
  | .pending | .running => false

/-- `abort` up to its suspension in `broadcast_abort`. -/
def abort (s : State V) (h : ℕ) (requestId : String) : State V :=
  match s.requests requestId with
  | none => s.setHandler h (.ended (some false))
  | some c =>
    if (s.calls c).info.state.ended then s.setHandler h (.ended (some false))
    else s.setHandler h (.aborting requestId c)

/-- The rest of `abort` after `broadcast_abort`. -/
def abortBroadcast (s : State V) (h : ℕ) (requestId : String) (info : ℕ) : State V :=
  let s := s.updateInfo info fun info => { info with state := .aborted }
  let s := rejectCompletionFuture s requestId (.cancelledError s!"Request {requestId} aborted")
  let s := putStream s requestId (coordinatorError requestId "aborted")
  (dropRequest s requestId).setHandler h (.ended (some true))

/-- `_handle_completion` of a successful completion of a request that is tracked
as `c`. -/
def handleSuccess (cfg : Config Q) (s : State V) (c : ℕ) (msg : CompleteMessage V) : State V :=
  let requestId := msg.requestId
  let expected := expectedTerminalStages cfg s requestId
  if expected ≠ ∅ ∧ msg.fromStage ∉ expected then s
  else if expected.card ≤ 1 then
    let s := s.updateInfo c fun info =>
      { info with state := .completed, result := some (.single msg.result) }
    let s := resolveFuture s requestId (.result (.single msg.result))
    let s := putStream s requestId (.complete msg)
    { s with requests := update s.requests requestId none }
  else
    let partials := ((s.partialResults requestId).getD ∅).insert msg.fromStage msg.result
    let s := { s with
      partialResults := update s.partialResults requestId (some partials) }
    let s := putStream s requestId (.complete msg)
    if partials.keys ⊂ expected then s
    else
      let s := s.updateInfo c fun info =>
        { info with state := .completed, result := some (.merged partials) }
      dropRequest (resolveFuture s requestId (.result (.merged partials))) requestId

/-- `_handle_completion` up to its end, or up to `broadcast_abort` of a failure. -/
def handleCompletion (cfg : Config Q) (s : State V) (h : ℕ) (msg : CompleteMessage V) :
    State V :=
  match s.requests msg.requestId with
  | none => s.setHandler h (.ended none)
  | some c =>
    if msg.success then (handleSuccess cfg s c msg).setHandler h (.ended none)
    else
      (s.updateInfo c fun info => { info with state := .failed, error := msg.error }).setHandler h
        (.failing msg)

/-- The rest of `_handle_completion` of a failure after `broadcast_abort`. -/
def failureBroadcast (s : State V) (h : ℕ) (msg : CompleteMessage V) : State V :=
  let requestId := msg.requestId
  let s := rejectCompletionFuture s requestId (.runtimeError (errorText msg.error))
  let s := putStream s requestId (.complete msg)
  (dropRequest s requestId).setHandler h (.ended none)

/-- `_handle_stream`. -/
def handleStream (s : State V) (msg : StreamMessage V) : State V :=
  putStream s msg.requestId (.stream msg)

/-- What `fail_pending_requests` does to the objects of call `k`: the loop over
`_requests` reaches each of them through the map entry of its request id. -/
def failCall (s : State V) (message : String) (k : ℕ) : Call V :=
  let call := s.calls k
  let tracked := (s.requests call.requestId).isSome
  { call with
    info := if s.requests call.requestId = some k then
        { call.info with state := .failed, error := some message }
      else call.info
    future := if tracked ∧ s.completionFutures call.requestId = some k ∧
          call.future.done = false then
        if (s.streamQueues call.requestId).isSome then .cancelled
        else .exception (.runtimeError message)
      else call.future
    queue := if tracked ∧ s.streamQueues call.requestId = some k then
        call.queue ++ [coordinatorError call.requestId message]
      else call.queue }

/-- `fail_pending_requests`, with `message = str(error)`. -/
def failPendingRequests (s : State V) (message : String) : State V :=
  { s with
    running := false
    fatalError := some message
    calls := failCall s message
    requests := fun _ => none
    partialResults := fun _ => none }

end Omni.Coordinator
