import Omni.Stage.State

/-!
# What a stage receives

Every `DataReadyMessage` gets a task of its own. It reads its data at once, and then waits for
the task of the message before it in its lane. Stages of the same process call the stage
without a message.
-/

namespace Omni.Stage

variable {V : Type} (cfg : Config V) (s : State V) {s' : State V} {i : ℕ} {pc : ReceivePc}
  {go : ReceiveTask V → State V}

/-- `_schedule_receive_task`. -/
def State.scheduleReceiveTask (msg : DataReadyMessage V) : State V :=
  let predecessor := s.receiveLaneTails msg.requestId msg.fromStage
  let lane := Function.update (s.receiveLaneTails msg.requestId) msg.fromStage
    (some s.receiveTasks.length)
  { s with
    receiveTasks := s.receiveTasks ++ [⟨msg, predecessor, .created, none, none⟩]
    receiveLaneTails := Function.update s.receiveLaneTails msg.requestId lane }

/-- The handler that `_schedule_receive_task` chooses. -/
def DataReadyMessage.handler (msg : DataReadyMessage V) : Handler :=
  if msg.isDone ∨ msg.error.isSome then .streamSignal
  else if msg.chunkId.isSome then .streamChunk
  else .dataReady

/-- The completion future of a task is done. -/
def State.taskDone (i : ℕ) : Bool := (s.receiveTasks[i]?).any fun task => task.pc = .ended

/-- `predecessor is None`, or it is done. -/
def State.predecessorDone (task : ReceiveTask V) : Bool := task.predecessor.all s.taskDone

/-- Task `i`, if it is suspended at `pc`, goes on. -/
def State.resume (i : ℕ) (pc : ReceivePc) (go : ReceiveTask V → State V) : Option (State V) :=
  match s.receiveTasks[i]? with
  | some task => if task.pc = pc then some (go task) else none
  | none => none

/-- The same, if its predecessor has ended. -/
def State.resumeInTurn (i : ℕ) (pc : ReceivePc) (go : ReceiveTask V → State V) :
    Option (State V) :=
  match s.receiveTasks[i]? with
  | some task => if task.pc = pc ∧ s.predecessorDone task then some (go task) else none
  | none => none

/-- When a task goes on. -/
theorem State.resume_eq_some {s : State V} : s.resume i pc go = some s' ↔
      ∃ task, s.receiveTasks[i]? = some task ∧ task.pc = pc ∧ go task = s' := by
  unfold State.resume
  cases s.receiveTasks[i]? <;> simp

/-- When a task goes on that waits for its predecessor. -/
theorem State.resumeInTurn_eq_some {s : State V} : s.resumeInTurn i pc go = some s' ↔
      ∃ task, s.receiveTasks[i]? = some task ∧ task.pc = pc ∧ s.predecessorDone task ∧
        go task = s' := by
  unfold State.resumeInTurn
  cases s.receiveTasks[i]? <;> simp [and_assoc]

/-- Task `i` goes on to another await. -/
def State.setPc (i : ℕ) (pc : ReceivePc) : State V :=
  { s with receiveTasks := s.receiveTasks.modify i fun task => { task with pc := pc } }

/-- Task `i` keeps what was raised and goes on to another await. -/
def State.setExc (i : ℕ) (exc : Option String) (pc : ReceivePc) : State V :=
  { s with receiveTasks := s.receiveTasks.modify i fun task => { task with pc := pc, exc := exc } }

/-- An exception leaves the handler of task `i`. -/
def State.raise (i : ℕ) (error : String) : State V :=
  { s with receiveTasks := s.receiveTasks.modify i fun task =>
      { task with pc := .ending, raised := some error } }

/-- The handler of task `i` returns; a local call returns to its caller. -/
def State.leave (task : Option ℕ) : State V :=
  match task with
  | some i => s.setPc i .ending
  | none => s

/-- An exception leaves the handler of task `i`; that of a local call is raised at its caller. -/
def State.throw (task : Option ℕ) (error : String) : State V :=
  match task with
  | some i => s.raise i error
  | none => s

/-- `_send_failure` up to its await. -/
def State.beginFailure (task : Option ℕ) (requestId error : String) : State V :=
  (s.record (.failed task requestId error)).recordAborted cfg requestId

/-- `_send_failure` up to its await, in task `i` or in a local call. -/
def State.sendFailure (task : Option ℕ) (requestId error : String) : State V :=
  let s := s.beginFailure cfg task requestId error
  match task with
  | some i => s.setPc i .reporting
  | none => { s with localCalls := s.localCalls ++ [requestId] }

/-- `_send_failure` after `send_complete`. -/
def State.failureSent (task : Option ℕ) (requestId : String) : State V :=
  (s.record (.reported task requestId)).clearRequestState requestId

/-- `_queue_stream_error`. -/
def State.queueStreamError (task : Option ℕ) (requestId error : String) : State V :=
  if requestId ∈ s.abortedIds then (s.record (.dropped task requestId error)).leave task
  else (s.record (.schedulerAborted requestId)).sendFailure cfg task requestId error

/-- What `input_handler.receive` does: `holds` says whether it then holds something of the
request. -/
structure Merge (V : Type) where
  holds : Bool
  merged : Except String (Option V)

/-- `_execute`. -/
def State.execute (requestId : String) (payload : V) : State V :=
  s.record (.executed requestId payload)

/-- `_on_submit`. -/
def State.onSubmit (requestId : String) (payload : V) : State V :=
  if requestId ∈ s.abortedIds then s
  else ((s.activate requestId).openStreamQueue cfg requestId).execute requestId payload

/-- The payload is handed to `input_handler.receive`. -/
def State.inputReceive (task : Option ℕ) (requestId fromStage : String) (payload : V)
    (merge : Merge V) : State V :=
  let held := if merge.holds then s.inputHandler.insert requestId
    else s.inputHandler.filter (· ≠ requestId)
  { s with inputHandler := held }.record (.delivered task requestId fromStage (.payload payload))

/-- `_receive_payload_from_stage`. -/
def State.receivePayloadFromStage (task : Option ℕ) (requestId fromStage : String) (payload : V)
    (merge : Merge V) : State V :=
  if requestId ∈ s.abortedIds then s.leave task
  else
    let s := (s.activate requestId).openStreamQueue cfg requestId
    let s := s.inputReceive task requestId fromStage payload merge
    match merge.merged with
    | .error error => s.throw task error
    | .ok none => s.leave task
    | .ok (some merged) => (s.execute requestId merged).leave task

/-- `_route_stream_item_or_fail`, and the same for the signal that a stream is done. -/
def State.routeStreamItemOrFail (task : Option ℕ) (requestId fromStage : String) (item : Item V)
    (error : String) : State V :=
  let (s, isOpen) := s.openPrePayloadStreamIfAllowed cfg requestId
  if isOpen then (s.record (.delivered task requestId fromStage item)).leave task
  else (s.record (.schedulerAborted requestId)).sendFailure cfg task requestId error

/-- The text for an item that comes too early. -/
def tooEarly (what fromStage : String) : String :=
  s!"Stage {cfg.name}: {what} from '" ++ fromStage ++ "' arrived before the request payload, " ++
    "but this stage is not configured to accept pre-payload stream data"

/-- The end of `_on_stream_chunk` and of `receive_local_stream_chunk`. -/
def State.receiveStreamChunk (task : Option ℕ) (requestId fromStage : String) (chunkId : ℕ)
    (data : V) : State V :=
  if requestId ∈ s.abortedIds then s.leave task
  else s.routeStreamItemOrFail cfg task requestId fromStage (.chunk chunkId data)
    (tooEarly cfg "stream chunk" fromStage)

/-- `receive_local_stream_chunk`. -/
def State.receiveLocalStreamChunk (requestId fromStage : String) (chunkId : ℕ) (data : V) :
    State V :=
  if requestId ∈ s.abortedIds then s
  else (s.activate requestId).receiveStreamChunk cfg none requestId fromStage chunkId data

/-- `_receive_stream_signal`. -/
def State.receiveStreamSignal (task : Option ℕ) (requestId fromStage : String) (isDone : Bool)
    (error : Option String) : State V :=
  if requestId ∈ s.abortedIds then
    match error.filter (· ≠ "") with
    | some text => (s.record (.dropped task requestId text)).leave task
    | none => s.leave task
  else
    let s := s.activate requestId
    match error.filter (· ≠ "") with
    | some text => s.queueStreamError cfg task requestId text
    | none =>
      if isDone then
        s.routeStreamItemOrFail cfg task requestId fromStage .done
          (tooEarly cfg "stream_done" fromStage)
      else s.leave task

/-- `_on_stream_chunk` and `_on_data_ready` up to their first await. `exc` is what the
deserialization of a CUDA IPC handle, or the look at the transfer, raises. -/
def State.startRead (i : ℕ) (task : ReceiveTask V) (exc : Option String) : State V :=
  match task.msg.dataRef, exc with
  | some ref, exc =>
    if ref.direct then s.setExc i exc .waiting
    else match exc with
      | some error => s.raise i error
      | none => s.setPc i .reading
  | none, _ => s.raise i "data_ready message is missing transfer data_ref"

/-- `_discard_stream_chunk_data` and `_discard_payload_data` up to their first await. -/
def State.startDiscard (i : ℕ) (task : ReceiveTask V) (exc : Option String) : State V :=
  match task.msg.dataRef, exc with
  | some _, some error => s.raise i error
  | some ref, none => if ref.direct then s.leave (some i) else s.setPc i .discarding
  | none, _ => s.raise i "data_ready message is missing transfer data_ref"

/-- A task runs up to its first await. -/
def State.startReceive (i : ℕ) (exc : Option String) : Option (State V) :=
  s.resume i .created fun task =>
    match task.msg.handler with
    | .streamSignal => s.setPc i .waiting
    | .streamChunk =>
      if task.msg.requestId ∈ s.abortedIds then s.startDiscard i task exc
      else (s.activate task.msg.requestId).startRead i task exc
    | .dataReady =>
      if task.msg.requestId ∈ s.abortedIds then s.startDiscard i task exc
      else ((s.activate task.msg.requestId).openStreamQueue cfg task.msg.requestId).startRead i
        task exc

/-- `_send_data_ack` up to its await; `pc` is where the task then waits. -/
def State.sendDataAck (i : ℕ) (task : ReceiveTask V) (exc : Option String) (pc : ReceivePc) :
    State V :=
  if task.msg.fromStage ∈ cfg.endpoints then s.setExc i exc pc
  else s.raise i (s!"Stage {cfg.name}: no endpoint configured for ack target '" ++
    task.msg.fromStage ++ "'")

/-- The read of a task ends, with what it raised. -/
def State.readDone (i : ℕ) (exc : Option String) : Option (State V) :=
  s.resume i .reading fun task => s.sendDataAck cfg i task exc .acking

/-- The read of data that is discarded ends. What it raised is only told to the sender. -/
def State.discardRead (i : ℕ) : Option (State V) :=
  s.resume i .discarding fun task => s.sendDataAck cfg i task none .discardAcking

/-- `_send_data_ack` returns, or raises. -/
def State.ackSent (i : ℕ) (raised : Option String) : Option (State V) :=
  s.resume i .acking fun _ =>
    match raised with
    | some error => s.raise i error
    | none => s.setPc i .waiting

/-- The same for data that is discarded. -/
def State.discardAckSent (i : ℕ) (raised : Option String) : Option (State V) :=
  s.resume i .discardAcking fun _ =>
    match raised with
    | some error => s.raise i error
    | none => s.leave (some i)

/-- The error that an item fails with, when `exc` was raised for it. -/
def DataReadyMessage.failure (msg : DataReadyMessage V) (exc : String) : String :=
  match msg.handler with
  | .streamSignal | .streamChunk => exc
  | .dataReady =>
    if msg.dataRef.any (·.direct) then "direct IPC payload deserialize failed: " ++ exc
    else "relay read failed: " ++ exc

/-- What a task does when its predecessor has ended. -/
def State.takeTurn (i : ℕ) (task : ReceiveTask V) (merge : Merge V) : State V :=
  let requestId := task.msg.requestId
  let fromStage := task.msg.fromStage
  match task.msg.handler, task.msg.dataRef, task.exc with
  | .streamSignal, _, _ =>
    s.receiveStreamSignal cfg (some i) requestId fromStage task.msg.isDone task.msg.error
  | .streamChunk, _, some exc =>
    s.queueStreamError cfg (some i) requestId (task.msg.failure exc)
  | .streamChunk, some ref, none =>
    s.receiveStreamChunk cfg (some i) requestId fromStage (task.msg.chunkId.getD 0) ref.value
  | .dataReady, _, some exc => s.sendFailure cfg (some i) requestId (task.msg.failure exc)
  | .dataReady, some ref, none =>
    s.receivePayloadFromStage cfg (some i) requestId fromStage ref.value merge
  -- no task without a transfer gets here
  | _, none, none => s.leave (some i)

/-- The await for the predecessor returns. -/
def State.turn (i : ℕ) (merge : Merge V) : Option (State V) :=
  s.resumeInTurn i .waiting fun task => s.takeTurn cfg i task merge

/-- `send_complete` of a failure returns, or raises. -/
def State.taskFailureSent (i : ℕ) (raised : Option String) : Option (State V) :=
  s.resume i .reporting fun task =>
    match raised with
    | some error => s.raise i error
    | none => (s.failureSent (some i) task.msg.requestId).leave (some i)

/-- The end of the `finally` of `_run_receive_task`, and the callback of the task. -/
def State.finishTask (i : ℕ) (task : ReceiveTask V) : State V :=
  let s := s.setPc i .ended
  let requestId := task.msg.requestId
  let lane := s.receiveLaneTails requestId
  let s := if lane task.msg.fromStage = some i then
      let lane := Function.update lane task.msg.fromStage none
      { s with receiveLaneTails := Function.update s.receiveLaneTails requestId lane }
    else s
  match task.raised with
  | some error => s.onBackgroundTaskDone error
  | none => s

/-- A task ends. -/
def State.finish (i : ℕ) : Option (State V) :=
  s.resumeInTurn i .ending (s.finishTask i)

/-- `send_complete` of a failure in a local call returns, or raises. -/
def State.localFailureSent (k : ℕ) (raised : Option String) : Option (State V) :=
  match s.localCalls[k]? with
  | some requestId =>
    let s := { s with localCalls := s.localCalls.eraseIdx k }
    match raised with
    | some _ => some s
    | none => some (s.failureSent none requestId)
  | none => none

end Omni.Stage
