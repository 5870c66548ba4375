import Omni.Comm.Engine
import Omni.Library.Transition

/-!
# Interleavings of sends, acknowledgements and watchers

An action is one atomic piece of a send or of a watcher, or the arrival of an
acknowledgement. Each send queue has one worker, which runs one send at a time;
the sends of different queues, and all watchers, interleave freely.
-/

namespace Omni.Comm

open Option

variable {D L : Type} {i j : ℕ} {s t : State D L} {stageName : String}

/-- How the piece of a send around one `put_async` goes. -/
inductive PutOutcome
  /-- The put succeeds, and what follows it as well. -/
  | succeeds
  /-- Something raises before the semaphore is acquired. -/
  | raisesBefore (message : String)
  /-- `put_async` raises after acquiring and releases the credit. -/
  | raisesInside (message : String)
  /-- The put succeeds, but building the data ref from it raises. -/
  | raisesAfter (message : String)

/-- One atomic piece. -/
inductive Action
  /-- The worker of its queue takes job `i`. -/
  | start (i : ℕ)
  /-- Send `i` goes through its next `put_async`. -/
  | put (i : ℕ) (outcome : PutOutcome)
  /-- `send_to_stage` of send `i` returns, or raises the given error. -/
  | sent (i : ℕ) (error : Option String)
  /-- `ack_transfer` is called. -/
  | ack (msg : DataAckMessage)
  /-- The watcher of transfer `e` goes on. -/
  | watch (e : ℕ)
  /-- The acknowledgement of transfer `e` has not arrived in time. -/
  | timeout (e : ℕ)

/-- A send goes through its next `put_async`. Once all puts have succeeded the
transfer is registered in the same piece. -/
def put (s : State D L) (i : ℕ) (held : List ℕ) (remaining : ℕ) :
    PutOutcome → Option (State D L)
  | .raisesBefore message => some (endSend s i (.error (.external message)))
  | .raisesInside message =>
    if 0 < s.credits then some (endSend s i (.error (.external message))) else none
  | .raisesAfter message =>
    if 0 < s.credits then some (endSend (putAsync s) i (.error (.external message))) else none
  | .succeeds =>
    if 0 < s.credits then
      some (if remaining ≤ 1 then announce (putAsync s) i (held ++ [s.opCount])
        else (putAsync s).setSend i (.putting (held ++ [s.opCount]) (remaining - 1)))
    else none

/-- The transition function of the engine of stage `stageName`. -/
def step (stageName : String) (s : State D L) : Action → Option (State D L)
  | .start i =>
    match (s.sends i).phase, s.sendWorkers (s.sends i).job.queueKey with
    | .queued, none => some (startSend s i)
    | _, _ => none
  | .put i outcome =>
    match (s.sends i).phase with
    | .putting held remaining => put s i held remaining outcome
    | _ => none
  | .sent i error =>
    match (s.sends i).phase with
    | .announcing => some (match error with
      | none => announced s i
      | some message => failSend s i (.external message))
    | _ => none
  | .ack msg =>
    match ackTransfer stageName s msg with
    | .error _ => some s
    | .ok s => some s
  | .watch e =>
    match (s.transfers e).task with
    | .waiting => watchAck s e
    | .completing (o :: rest) failure => watchCompletion s e o rest failure
    | .completing [] failure => some (endWatch s e failure)
    | _ => none
  | .timeout e =>
    match (s.transfers e).task, (s.transfers e).ack with
    | .waiting, .waiting => some (failTransfer (s.updateTransfer e fun pending =>
        { pending with ack := .cancelled }) e .timeoutError)
    | _, _ => none

theorem setSend_ne (s : State D L) (phase : SendPhase) (hne : j ≠ i) :
    (s.setSend i phase).sends j = s.sends j := by
  simp [State.setSend, hne]

/-- Watchers change no send. -/
theorem watch_sends {e : ℕ} (hstep : step stageName s (.watch e) = some t) : t.sends = s.sends := by
  simp only [step] at hstep
  split at hstep
  · unfold watchAck at hstep
    split at hstep
    · cases hstep
    · cases hstep
    · rw [← some.inj hstep]
      rfl
    · rw [← some.inj hstep]
      rfl
  · unfold watchCompletion at hstep
    split at hstep
    · rw [← some.inj hstep]
      rfl
    · split at hstep
      · cases hstep
      · rw [← some.inj hstep]
        rfl
      · rw [← some.inj hstep]
        rfl
  · rw [← some.inj hstep]
    rfl
  · cases hstep

end Omni.Comm
