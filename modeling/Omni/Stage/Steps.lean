import Omni.Stage.Send
import Omni.Library.Transition

/-!
# The steps of a stage

One step is what happens between two awaits of one of the coroutines of the stage.
-/

namespace Omni.Stage

variable {V : Type}

/-- What can happen next. -/
inductive Action (V : Type)
  /-- A `SubmitMessage` of the coordinator. -/
  | submit (requestId : String) (payload : V)
  | dataReady (msg : DataReadyMessage V)
  | abort (requestId : String)
  /-- The scheduler puts a message into the outbox. -/
  | emit (requestId : String) (out : Outgoing V)
  /-- Calls of stages in the same process. -/
  | receiveLocalPayload (requestId fromStage : String) (payload : V) (merge : Merge V)
  | receiveLocalStreamChunk (requestId fromStage : String) (chunkId : ℕ) (data : V)
  | receiveLocalStreamSignal (requestId fromStage : String) (isDone : Bool)
      (error : Option String)
  | localFailureSent (k : ℕ) (raised : Option String)
  /-- Receive task `i` goes on. -/
  | startReceive (i : ℕ) (exc : Option String)
  | readDone (i : ℕ) (exc : Option String)
  | discardRead (i : ℕ)
  | ackSent (i : ℕ) (raised : Option String)
  | discardAckSent (i : ℕ) (raised : Option String)
  | turn (i : ℕ) (merge : Merge V)
  | taskFailureSent (i : ℕ) (raised : Option String)
  | finish (i : ℕ)
  /-- The outbox drain and the coroutines it awaits go on. -/
  | take
  | startJob (k : ℕ)
  | jobDone (k : ℕ) (raised : Option String)
  | joined
  | drainSent
  | drainReturned
  | drainRaised (error : String)
  /-- A `DataAckMessage`, and the end of the watcher of a transfer. -/
  | ackTransfer (k : ℕ) (error : Option String)
  | watchDone (k : ℕ) (raised : Option String)

/-- The receive task that goes on. -/
def Action.task : Action V → Option ℕ
  | .startReceive i _ | .readDone i _ | .discardRead i | .ackSent i _ | .discardAckSent i _
  | .turn i _ | .taskFailureSent i _ | .finish i => some i
  | _ => none

/-- A message comes in, if the control plane is open. -/
def State.receive (s : State V) (handle : State V → Option (State V)) : Option (State V) :=
  if s.controlPlaneOpen then handle s else none

theorem State.receive_eq_some {s s' : State V} {handle : State V → Option (State V)} :
    s.receive handle = some s' ↔ s.controlPlaneOpen = true ∧ handle s = some s' := by
  unfold State.receive
  split <;> simp_all

/-- The state after an action. -/
def step (cfg : Config V) (s : State V) : Action V → Option (State V)
  | .submit requestId payload => s.receive fun s => some (s.onSubmit cfg requestId payload)
  | .dataReady msg => s.receive fun s => some (s.scheduleReceiveTask msg)
  | .abort requestId => s.receive fun s => some (s.onAbort cfg requestId)
  | .emit requestId out => some { s with outbox := s.outbox ++ [(requestId, out)] }
  | .receiveLocalPayload requestId fromStage payload merge =>
    some (s.receivePayloadFromStage cfg none requestId fromStage payload merge)
  | .receiveLocalStreamChunk requestId fromStage chunkId data =>
    some (s.receiveLocalStreamChunk cfg requestId fromStage chunkId data)
  | .receiveLocalStreamSignal requestId fromStage isDone error =>
    some (s.receiveStreamSignal cfg none requestId fromStage isDone error)
  | .localFailureSent k raised => s.localFailureSent k raised
  | .startReceive i exc => s.startReceive cfg i exc
  | .readDone i exc => s.readDone cfg i exc
  | .discardRead i => s.discardRead cfg i
  | .ackSent i raised => s.ackSent i raised
  | .discardAckSent i raised => s.discardAckSent i raised
  | .turn i merge => s.turn cfg i merge
  | .taskFailureSent i raised => s.taskFailureSent i raised
  | .finish i => s.finish i
  | .take => s.take cfg
  | .startJob k => s.startJob cfg k
  | .jobDone k raised => s.jobDone k raised
  | .joined => s.joined
  | .drainSent => s.drainSent
  | .drainReturned => s.drainReturned cfg
  | .drainRaised error => s.drainRaised error
  | .ackTransfer k error => s.receive fun s => s.ackTransfer k error
  | .watchDone k raised => s.watchDone k raised

end Omni.Stage
