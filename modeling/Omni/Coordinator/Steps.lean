import Omni.Coordinator.Handlers

/-!
# Interleavings of the coordinator's handlers

An action is one atomic piece of one handler. Any handler may run while others
are suspended, so a run is an arbitrary sequence of enabled actions. Calls and
handlers are numbered by the environment, each number being used once.
-/

namespace Omni.Coordinator

open Omni.Transition

variable {V Q : Type}

/-- One atomic piece of one handler. -/
inductive Action (V Q : Type)
  /-- `submit(request_id, request)` is called. -/
  | submit (c : ℕ) (requestId : String) (request : Q)
  /-- `stream(request_id, request)` is called and its generator started. -/
  | stream (c : ℕ) (requestId : String) (request : Q)
  /-- `submit_to_stage` of call `c` returns, or raises the given error. -/
  | handed (c : ℕ) (error : Option String)
  /-- The future awaited by call `c` is done and `submit` goes on. -/
  | wake (c : ℕ)
  /-- `stream` takes the next item of its queue. -/
  | receive (c : ℕ)
  /-- The consumer of `stream` asks for the next item. -/
  | resume (c : ℕ)
  /-- `abort(request_id)` is called. -/
  | abort (h : ℕ) (requestId : String)
  /-- The completion loop hands a message to `_handle_completion`. -/
  | complete (h : ℕ) (msg : CompleteMessage V)
  /-- `broadcast_abort` of handler `h` returns. -/
  | broadcast (h : ℕ)
  /-- The completion loop hands a message to `_handle_stream`. -/
  | chunk (msg : StreamMessage V)
  /-- `fail_pending_requests(error)` is called. -/
  | failPending (message : String)
  /-- `register_stage(name, endpoint)` is called. -/
  | registerStage (name : String)

/-- The call of one of the two entry points. -/
def Kind.call (kind : Kind) (c : ℕ) (requestId : String) (request : Q) : Action V Q :=
  match kind with
  | .submit => .submit c requestId request
  | .stream => .stream c requestId request

/-- The coordinator's transition function. -/
def step (cfg : Config Q) (s : State V) : Action V Q → Option (State V)
  | .submit c requestId request =>
    match (s.calls c).phase with
    | .idle => some (submit cfg s c requestId request)
    | _ => none
  | .stream c requestId request =>
    match (s.calls c).phase with
    | .idle => some (stream cfg s c requestId request)
    | _ => none
  | .handed c error =>
    match (s.calls c).phase with
    | .submitting => some (match error with
      | none => submitted cfg s c
      | some message => failSubmission s c (.external message))
    | _ => none
  | .wake c =>
    match (s.calls c).phase with
    | .awaiting owner => (s.calls owner).future.outcome.map (submitReturns s c)
    | _ => none
  | .receive c =>
    match (s.calls c).phase, (s.calls c).queue with
    | .receiving expected completed, msg :: rest => some (receive s c expected completed msg rest)
    | _, _ => none
  | .resume c =>
    match (s.calls c).phase with
    | .yielding expected completed msg => some (resume s c expected completed msg)
    | _ => none
  | .abort h requestId =>
    match s.handlers h with
    | .idle => some (abort s h requestId)
    | _ => none
  | .complete h msg =>
    match s.handlers h with
    | .idle => some (handleCompletion cfg s h msg)
    | _ => none
  | .broadcast h =>
    match s.handlers h with
    | .aborting requestId info => some (abortBroadcast s h requestId info)
    | .failing msg => some (failureBroadcast s h msg)
    | _ => none
  | .chunk msg => some (handleStream s msg)
  | .failPending message => some (failPendingRequests s message)
  | .registerStage name => some { s with stages := insert name s.stages }

/-- The states of all interleavings of all calls and messages. -/
def Reachable (cfg : Config Q) (s : State V) : Prop :=
  Transition.Reachable (step cfg) (State.init : State V) s

/-- A pipeline with one terminal stage. -/
def oneTerminal : Config Unit := ⟨"preprocessing", {"decode"}, none⟩

end Omni.Coordinator
