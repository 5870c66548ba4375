import Mathlib.Data.Finmap
import Mathlib.Data.Finset.Sort
import Mathlib.Data.String.Basic

/-!
# The state of the pipeline coordinator

The coordinator runs on one event loop, so its state changes in atomic pieces
between two suspension points. Python objects that outlive their entry in a map
(`RequestInfo`, the completion future, the stream queue, the local variables of a
suspended call) belong to the call that creates them and are kept in its record;
the maps of the coordinator refer to them by the number of that call.
-/

namespace Omni.Coordinator

/-- `RequestState` of `proto/request.py`. -/
inductive RequestState
  | pending
  | running
  | completed
  | failed
  | aborted
  deriving DecidableEq, Repr

/-- The exceptions that leave `submit` and `stream`. `external` is raised by code
that the coordinator calls: the terminal-stage resolver or the control plane. -/
inductive Failure
  | runtimeError (message : String)
  | valueError (message : String)
  | cancelledError (message : String)
  | keyError (key : String)
  | external (message : String)
  deriving DecidableEq, Repr

variable (V : Type)

/-- What a request resolves to: the result of its only terminal stage, or the
dictionary merged from all its terminal stages. -/
inductive Result
  | single (value : Option V)
  | merged (values : Finmap fun _ : String => Option V)
  deriving DecidableEq

/-- `CompleteMessage` of `proto/messages.py`; a `result` of `none` is Python's `None`. -/
structure CompleteMessage where
  requestId : String
  fromStage : String
  success : Bool
  result : Option V
  error : Option String
  deriving DecidableEq

/-- `StreamMessage` of `proto/messages.py`, of which the routing reads the id. -/
structure StreamMessage where
  requestId : String
  fromStage : String
  chunk : V
  deriving DecidableEq

/-- An item of a stream queue: `CompleteMessage | StreamMessage`. -/
inductive Message
  | complete (msg : CompleteMessage V)
  | stream (msg : StreamMessage V)
  deriving DecidableEq

/-- `RequestInfo` of `proto/request.py`. -/
structure RequestInfo where
  state : RequestState
  currentStage : String
  terminalStages : Finset String
  result : Option (Result V)
  error : Option String
  deriving DecidableEq

/-- An `asyncio.Future`. -/
inductive Future
  | pending
  | result (value : Result V)
  | exception (failure : Failure)
  | cancelled
  deriving DecidableEq

/-- Where a call of `submit` or `stream` stands. -/
inductive Phase
  /-- Not called yet. -/
  | idle
  /-- Suspended inside `submit_to_stage`. -/
  | submitting
  /-- `submit`: suspended in `await future`, on the future created by call `owner`. -/
  | awaiting (owner : ℕ)
  /-- `stream`: about to take the next item of its queue. -/
  | receiving (expected completed : Finset String)
  /-- `stream`: suspended at `yield msg`. -/
  | yielding (expected completed : Finset String) (msg : Message V)
  /-- `submit` returned a result; `stream` ended (`none`). -/
  | returned (value : Option (Result V))
  | raised (failure : Failure)
  deriving DecidableEq

/-- The two public entry points. -/
inductive Kind
  | submit
  | stream
  deriving DecidableEq, Repr

/-- One call of `submit` or `stream` with the objects it creates. `yielded` lists
what the consumer of `stream()` has been given so far. -/
structure Call where
  kind : Kind
  requestId : String
  info : RequestInfo V
  future : Future V
  queue : List (Message V)
  phase : Phase V
  yielded : List (Message V)
  deriving DecidableEq

/-- A running `abort` or `_handle_completion`. -/
inductive Handler
  /-- Not called yet. -/
  | idle
  /-- `abort`, suspended in `broadcast_abort`, with its local `info`. -/
  | aborting (requestId : String) (info : ℕ)
  /-- `_handle_completion` of a failure, suspended in `broadcast_abort`. -/
  | failing (msg : CompleteMessage V)
  /-- Ended; `abort` returned the given answer. -/
  | ended (answer : Option Bool)
  deriving DecidableEq

/-- The state of `Coordinator` and of all calls and handlers running on it. -/
structure State where
  requests : String → Option ℕ
  completionFutures : String → Option ℕ
  streamQueues : String → Option ℕ
  partialResults : String → Option (Finmap fun _ : String => Option V)
  stages : Finset String
  running : Bool
  fatalError : Option String
  calls : ℕ → Call V
  handlers : ℕ → Handler V

/-- What a `terminal_stages_resolver` may return. A `none` item of a sequence
stands for an item that is not a string. -/
inductive Resolved
  | useDefault
  | notSequence
  | sequence (items : List (Option String))
  deriving DecidableEq, Repr

/-- The constructor arguments of `Coordinator` that its handlers read. -/
structure Config (Q : Type) where
  entryStage : String
  terminalStages : Finset String
  terminalStagesResolver : Option (Q → Except Failure Resolved)

variable {V}

/-- `future.done()`. -/
def Future.done : Future V → Bool
  | .pending => false
  | _ => true

/-- The record of a call that has not been made. -/
def Call.idle : Call V where
  kind := .submit
  requestId := ""
  info := ⟨.pending, "", ∅, none, none⟩
  future := .pending
  queue := []
  phase := .idle
  yielded := []

/-- `Coordinator.__init__` followed by `start`. -/
def State.init : State V where
  requests := fun _ => none
  completionFutures := fun _ => none
  streamQueues := fun _ => none
  partialResults := fun _ => none
  stages := ∅
  running := true
  fatalError := none
  calls := fun _ => .idle
  handlers := fun _ => .idle

/-- The request id of a queue item. -/
def Message.requestId : Message V → String
  | .complete msg => msg.requestId
  | .stream msg => msg.requestId

/-- Replace the record of one call. -/
def State.updateCall (s : State V) (c : ℕ) (f : Call V → Call V) : State V :=
  { s with calls := Function.update s.calls c (f (s.calls c)) }

/-- Assign to fields of the tracking info of one call. -/
def State.updateInfo (s : State V) (c : ℕ) (f : RequestInfo V → RequestInfo V) : State V :=
  s.updateCall c fun call => { call with info := f call.info }

/-- Move one call to another phase. -/
def State.setPhase (s : State V) (c : ℕ) (phase : Phase V) : State V :=
  s.updateCall c fun call => { call with phase := phase }

/-- Replace one handler. -/
def State.setHandler (s : State V) (h : ℕ) (handler : Handler V) : State V :=
  { s with handlers := Function.update s.handlers h handler }

section Access

variable (s : State V) (c d h : ℕ) (f : Call V → Call V) (handler : Handler V)
  (g : RequestInfo V → RequestInfo V) (phase : Phase V)

@[simp] theorem updateCall_requests : (s.updateCall c f).requests = s.requests := rfl

@[simp] theorem updateCall_completionFutures :
    (s.updateCall c f).completionFutures = s.completionFutures := rfl

@[simp] theorem updateCall_streamQueues :
    (s.updateCall c f).streamQueues = s.streamQueues := rfl

@[simp] theorem updateCall_partialResults :
    (s.updateCall c f).partialResults = s.partialResults := rfl

@[simp] theorem updateCall_handlers : (s.updateCall c f).handlers = s.handlers := rfl

@[simp] theorem updateCall_fatalError : (s.updateCall c f).fatalError = s.fatalError := rfl

@[simp] theorem updateCall_stages : (s.updateCall c f).stages = s.stages := rfl

@[simp] theorem updateCall_self : (s.updateCall c f).calls c = f (s.calls c) := by
  simp [State.updateCall]

theorem updateCall_ne (hne : d ≠ c) : (s.updateCall c f).calls d = s.calls d := by
  simp [State.updateCall, hne]

@[simp] theorem updateInfo_requests : (s.updateInfo c g).requests = s.requests := rfl

@[simp] theorem updateInfo_completionFutures :
    (s.updateInfo c g).completionFutures = s.completionFutures := rfl

@[simp] theorem updateInfo_streamQueues :
    (s.updateInfo c g).streamQueues = s.streamQueues := rfl

@[simp] theorem updateInfo_partialResults :
    (s.updateInfo c g).partialResults = s.partialResults := rfl

@[simp] theorem updateInfo_handlers : (s.updateInfo c g).handlers = s.handlers := rfl

theorem updateInfo_calls : (s.updateInfo c g).calls d =
    { s.calls d with info := if d = c then g (s.calls d).info else (s.calls d).info } := by
  by_cases hd : d = c
  · subst hd
    simp [State.updateInfo]
  · simp [State.updateInfo, updateCall_ne, hd]

@[simp] theorem setPhase_requests : (s.setPhase c phase).requests = s.requests := rfl

@[simp] theorem setPhase_completionFutures :
    (s.setPhase c phase).completionFutures = s.completionFutures := rfl

@[simp] theorem setPhase_streamQueues : (s.setPhase c phase).streamQueues = s.streamQueues := rfl

@[simp] theorem setPhase_partialResults :
    (s.setPhase c phase).partialResults = s.partialResults := rfl

@[simp] theorem setPhase_handlers : (s.setPhase c phase).handlers = s.handlers := rfl

theorem setPhase_calls : (s.setPhase c phase).calls d =
    { s.calls d with phase := if d = c then phase else (s.calls d).phase } := by
  by_cases hd : d = c
  · subst hd
    simp [State.setPhase]
  · simp [State.setPhase, updateCall_ne, hd]

@[simp] theorem setHandler_requests : (s.setHandler h handler).requests = s.requests := rfl

@[simp] theorem setHandler_completionFutures :
    (s.setHandler h handler).completionFutures = s.completionFutures := rfl

@[simp] theorem setHandler_streamQueues :
    (s.setHandler h handler).streamQueues = s.streamQueues := rfl

@[simp] theorem setHandler_partialResults :
    (s.setHandler h handler).partialResults = s.partialResults := rfl

@[simp] theorem setHandler_handlers :
    (s.setHandler h handler).handlers = Function.update s.handlers h handler := rfl

@[simp] theorem setHandler_calls : (s.setHandler h handler).calls = s.calls := rfl

@[simp] theorem setHandler_fatalError : (s.setHandler h handler).fatalError = s.fatalError := rfl

@[simp] theorem setHandler_stages : (s.setHandler h handler).stages = s.stages := rfl

end Access

end Omni.Coordinator
