import Mathlib.Logic.Function.Basic
import Omni.Comm.Payload

/-!
# The communication engine over a credit relay

`CommEngine` and `ShmRelay` run on one event loop. The state keeps the semaphore
of the relay, its put operations, the pending transfers with their watchers and
the sends that are under way. Python objects that outlive their entry in a map
are kept under the number of their creation.
-/

namespace Omni.Comm

open Function

/-- The exceptions of sends and transfers. `external` is raised by code that the
engine calls: packing, shared memory, pickling, the control plane. -/
inductive Failure
  | runtimeError (message : String)
  | valueError (message : String)
  | keyError (key : String)
  | assertionError
  | timeoutError
  | external (message : String)
  deriving DecidableEq

/-- The future `_receiver_done` of a put operation. -/
inductive Receipt
  | waiting
  | done
  | failed (exc : Failure)
  deriving DecidableEq

/-- `ShmPutOperation`. -/
structure PutOperation where
  receiverDone : Receipt
  completed : Bool
  deriving DecidableEq

/-- The future `ack` of a pending transfer. -/
inductive Ack
  | waiting
  | received
  | failed (exc : Failure)
  | cancelled
  deriving DecidableEq

/-- The task of a pending transfer: `_watch_pending` waits for the acknowledgement
and then for the operations `rest`, after `failure` if the transfer has failed. -/
inductive Watcher
  | unarmed
  | waiting
  | completing (rest : List ℕ) (failure : Option Failure)
  | ended (failure : Option Failure)
  deriving DecidableEq

/-- `_PendingTransfer`, with the id that it is registered under. -/
structure PendingTransfer where
  objectId : String
  ops : List ℕ
  ack : Ack
  task : Watcher
  deriving DecidableEq

variable (D L : Type)

/-- `_PayloadSendJob` and `_StreamSendJob`. -/
inductive SendJob
  | payload (requestId fromStage toStage : String) (data : Tree D L)
  | stream (requestId fromStage targetStage : String) (chunkId : ℕ) (data : Tensor D)
      (metadata : Option (Tree D L))

/-- Where `_run_payload_send` or `_run_stream_send` stands. -/
inductive SendPhase
  /-- Not taken from the send queue yet. -/
  | queued
  /-- Before the next of `remaining` puts, with the operations of the puts so far. -/
  | putting (held : List ℕ) (remaining : ℕ)
  /-- Suspended in `send_to_stage`. -/
  | announcing
  /-- The future `ready` of the job has a result or an exception. -/
  | ended (ready : Except Failure String)
  deriving DecidableEq

/-- A job with the state of its send. -/
structure Send where
  job : SendJob D L
  phase : SendPhase

/-- The engine, its relay and its sends. -/
structure State where
  credits : ℕ
  ops : ℕ → PutOperation
  opCount : ℕ
  pending : String → Option ℕ
  transfers : ℕ → PendingTransfer
  transferCount : ℕ
  sendWorkers : String → Option ℕ
  sends : ℕ → Send D L

variable {D L}

/-- The object id of the transfer that the job makes. -/
def SendJob.objectId : SendJob D L → String
  | .payload requestId fromStage toStage _ => s!"{requestId}:payload:{fromStage}:{toStage}"
  | .stream requestId fromStage targetStage chunkId _ _ =>
    s!"{requestId}:stream:{fromStage}:{targetStage}:{chunkId}"

/-- The key of the send queue that the job is put on. -/
def SendJob.queueKey : SendJob D L → String
  | .payload _ _ toStage _ => toStage
  | .stream _ _ targetStage _ _ _ => targetStage

/-- The tensors of the stream metadata, which `_with_stream_metadata` writes one by one. -/
def metadataTensors : Option (Tree D L) → List (String × Tensor D)
  | none => []
  | some metadata => (extractTensors metadata "").2

/-- How often the job calls `put_async`: once for the packed payload or the chunk,
and once for each tensor of the stream metadata. -/
def SendJob.puts : SendJob D L → ℕ
  | .payload _ _ _ _ => 1
  | .stream _ _ _ _ _ metadata => 1 + (metadataTensors metadata).length

theorem SendJob.puts_pos (job : SendJob D L) : 0 < job.puts := by
  cases job with
  | payload => exact Nat.one_pos
  | stream => exact Nat.add_pos_left Nat.one_pos _

/-- `future.done()`. -/
def Ack.done : Ack → Bool
  | .waiting => false
  | _ => true

/-- A put operation that has just been made. -/
def PutOperation.new : PutOperation := ⟨.waiting, false⟩

/-- The relay with its credits and an engine without transfers. The jobs are those
that will be put on the send queues. -/
def State.init (credits : ℕ) (jobs : ℕ → SendJob D L) : State D L where
  credits := credits
  ops := fun _ => .new
  opCount := 0
  pending := fun _ => none
  transfers := fun _ => ⟨"", [], .waiting, .unarmed⟩
  transferCount := 0
  sendWorkers := fun _ => none
  sends := fun i => ⟨jobs i, .queued⟩

/-- Replace the phase of a send. -/
def State.setSend (s : State D L) (i : ℕ) (phase : SendPhase) : State D L :=
  { s with sends := update s.sends i { s.sends i with phase := phase } }

/-- Assign to fields of a pending transfer. -/
def State.updateTransfer (s : State D L) (e : ℕ) (f : PendingTransfer → PendingTransfer) :
    State D L :=
  { s with transfers := update s.transfers e (f (s.transfers e)) }

/-- `_arm_pending`. -/
def armPending (s : State D L) (objectId : String) : Except Failure (State D L) :=
  match s.pending objectId with
  | none => .error (.keyError objectId)
  | some e =>
    match (s.transfers e).task with
    | .unarmed => .ok (s.updateTransfer e fun pending => { pending with task := .waiting })
    | _ => .error .assertionError

/-- `_fail_pending`. -/
def failPending (s : State D L) (objectId : String) (exc : Failure) : State D L :=
  match s.pending objectId with
  | none => s
  | some e => s.updateTransfer e fun pending => { pending with
      ack := if pending.ack.done then pending.ack else .failed exc
      task := if pending.task = .unarmed then .waiting else pending.task }

/-- `_register_pending`. -/
def registerPending (s : State D L) (objectId : String) (ops : List ℕ) :
    Except Failure (State D L) :=
  match s.pending objectId with
  | some _ => .error (.runtimeError s!"duplicate pending transfer '{objectId}'")
  | none => .ok { s with
      pending := update s.pending objectId (some s.transferCount)
      transfers := update s.transfers s.transferCount ⟨objectId, ops, .waiting, .unarmed⟩
      transferCount := s.transferCount + 1 }

/-- `DataAckMessage`, as far as the engine reads it. -/
structure DataAckMessage where
  objectId : String
  toStage : String
  success : Bool
  error : Option String

/-- `ack_transfer` in the engine of stage `stageName`. -/
def ackTransfer (stageName : String) (s : State D L) (ack : DataAckMessage) :
    Except Failure (State D L) :=
  if ack.toStage ≠ stageName then
    .error (.valueError s!"data_ack for '{ack.toStage}' delivered to '{stageName}'")
  else match s.pending ack.objectId with
    | none => .ok s
    | some e =>
      if ack.success then .ok (s.updateTransfer e fun pending => { pending with
        ack := if pending.ack.done then pending.ack else .received })
      else match ack.error with
        | none => .error (.valueError "failed data_ack is missing error")
        | some error => .ok (s.updateTransfer e fun pending => { pending with
          ack := if pending.ack.done then pending.ack else .failed (.runtimeError error) })

/-- The end of a send: its worker is free for the next job of the queue. -/
def endSend (s : State D L) (i : ℕ) (ready : Except Failure String) : State D L :=
  { s.setSend i (.ended ready) with
    sendWorkers := update s.sendWorkers (s.sends i).job.queueKey none }

/-- The `except` clause of a send whose `object_id` has been assigned. -/
def failSend (s : State D L) (i : ℕ) (exc : Failure) : State D L :=
  endSend (failPending s (s.sends i).job.objectId exc) i (.error exc)

/-- The worker of a queue takes the job: the send up to its first `put_async`. -/
def startSend (s : State D L) (i : ℕ) : State D L :=
  { s.setSend i (.putting [] (s.sends i).job.puts) with
    sendWorkers := update s.sendWorkers (s.sends i).job.queueKey (some i) }

/-- `put_async` that succeeds: it takes a credit and makes a put operation. -/
def putAsync (s : State D L) : State D L :=
  { s with
    credits := s.credits - 1
    ops := update s.ops s.opCount .new
    opCount := s.opCount + 1 }

/-- The send once all puts have succeeded: the transfer is registered and announced. -/
def announce (s : State D L) (i : ℕ) (held : List ℕ) : State D L :=
  match registerPending s (s.sends i).job.objectId held with
  | .error exc => failSend s i exc
  | .ok s => s.setSend i .announcing

/-- The send after `send_to_stage` has returned. -/
def announced (s : State D L) (i : ℕ) : State D L :=
  match armPending s (s.sends i).job.objectId with
  | .error exc => failSend s i exc
  | .ok s => endSend s i (.ok (s.sends i).job.objectId)

/-- `for op in pending.ops: op.mark_receiver_done()`, or `mark_receiver_failed(exc)`. -/
def markReceivers (s : State D L) (ops : List ℕ) (receipt : Receipt) : State D L :=
  { s with
    ops := fun o => if o ∈ ops ∧ (s.ops o).receiverDone = .waiting then
        { s.ops o with receiverDone := receipt }
      else s.ops o }

/-- The `finally` block of `wait_for_completion`: the credit is released. -/
def completeOp (s : State D L) (o : ℕ) : State D L :=
  { s with
    credits := s.credits + 1
    ops := update s.ops o { s.ops o with completed := true } }

/-- The `except` clause of `_watch_pending` up to its loop over the operations. -/
def failTransfer (s : State D L) (e : ℕ) (exc : Failure) : State D L :=
  (markReceivers s (s.transfers e).ops (.failed exc)).updateTransfer e fun pending =>
    { pending with task := .completing pending.ops (some exc) }

/-- `_watch_pending` once the acknowledgement has arrived, up to its first
`wait_for_completion`. -/
def watchAck (s : State D L) (e : ℕ) : Option (State D L) :=
  match (s.transfers e).ack with
  | .waiting | .cancelled => none
  | .received => some ((markReceivers s (s.transfers e).ops .done).updateTransfer e fun pending =>
      { pending with task := .completing pending.ops none })
  | .failed exc => some (failTransfer s e exc)

/-- `_watch_pending` at the `wait_for_completion` of one operation. -/
def watchCompletion (s : State D L) (e o : ℕ) (rest : List ℕ) (failure : Option Failure) :
    Option (State D L) :=
  let next := s.updateTransfer e fun pending => { pending with task := .completing rest failure }
  if (s.ops o).completed then some next
  else match (s.ops o).receiverDone, failure with
    | .waiting, _ => none
    | .failed exc, none => some (failTransfer (completeOp s o) e exc)
    | _, _ => some (completeOp next o)

/-- The `finally` block of `_watch_pending`. -/
def endWatch (s : State D L) (e : ℕ) (failure : Option Failure) : State D L :=
  { s.updateTransfer e fun pending => { pending with task := .ended failure } with
    pending := update s.pending (s.transfers e).objectId none }

end Omni.Comm
