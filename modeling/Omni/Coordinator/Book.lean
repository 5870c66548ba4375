import Omni.Library.Ledger
import Omni.Coordinator.Steps

/-!
# What the coordinator promises

The book is the coordinator seen from its callers: a ledger of accepted
requests, and for each live request the terminal stages it waits for and the
results they have sent. It knows neither futures nor suspended handlers. Every
atomic piece of a handler is observed as at most one event.
-/

namespace Omni.Coordinator

variable {V Q : Type}

/-- How an accepted request ends for its caller. -/
inductive Outcome (V : Type)
  | returns (result : Result V)
  | raises (failure : Failure)
  deriving DecidableEq

/-- The state of a completion future that carries an outcome. -/
def Outcome.future : Outcome V → Future V
  | .returns result => .result result
  | .raises failure => .exception failure

/-- How a call of `submit` ends that gets an outcome. -/
def Outcome.phase : Outcome V → Phase V
  | .returns result => .returned (some result)
  | .raises failure => .raised failure

/-- An occurrence that matters to the callers. -/
inductive Event (V : Type)
  | accepted (c : ℕ) (requestId : String) (expected : Finset String)
  | refused (c : ℕ) (message : String)
  | aborted (requestId : String)
  | failed (requestId : String) (error : Option String)
  | completed (requestId fromStage : String) (result : Option V)
  | fatal (message : String)

/-- The ledger of requests with what is known about the live ones, and the calls
whose hand-over to the entry stage has failed. -/
structure Book (V : Type) where
  ledger : Ledger String ℕ (Outcome V)
  refused : ℕ → Option String
  expected : String → Finset String
  collected : String → Finmap fun _ : String => Option V

/-- Nothing accepted yet. -/
def Book.empty : Book V := ⟨.empty, fun _ => none, fun _ => ∅, fun _ => ∅⟩

/-- The first terminal event of a live request settles it; events about other
requests change nothing. -/
def Book.settle (B : Book V) (requestId : String) (outcome : Outcome V) : Book V :=
  { B with
    ledger := B.ledger.settle requestId outcome
    collected := Function.update B.collected requestId ∅ }

/-- The outcome with which an abort ends a request. -/
def abortOutcome (requestId : String) : Outcome V :=
  .raises (.cancelledError s!"Request {requestId} aborted")

/-- The outcome with which a failing stage ends a request. -/
def failureOutcome (error : Option String) : Outcome V :=
  .raises (.runtimeError (errorText error))

/-- A stage's result: ignored unless it is expected, final if it is the only one
expected, and otherwise merged once every expected stage has sent one. -/
def Book.complete (B : Book V) (requestId fromStage : String) (result : Option V) : Book V :=
  let expected := B.expected requestId
  if expected ≠ ∅ ∧ fromStage ∉ expected then B
  else if expected.card ≤ 1 then B.settle requestId (.returns (.single result))
  else
    let collected := (B.collected requestId).insert fromStage result
    if expected ⊆ collected.keys then B.settle requestId (.returns (.merged collected))
    else { B with collected := Function.update B.collected requestId collected }

/-- Record one event. -/
def Book.record (B : Book V) : Event V → Book V
  | .accepted c requestId expected =>
    { B with
      ledger := B.ledger.enter requestId c
      expected := Function.update B.expected requestId expected
      collected := Function.update B.collected requestId ∅ }
  | .refused c message => { B with refused := Function.update B.refused c (some message) }
  | .aborted requestId => B.settle requestId (abortOutcome requestId)
  | .failed requestId error => B.settle requestId (failureOutcome error)
  | .completed requestId fromStage result =>
    match B.ledger.live requestId with
    | none => B
    | some _ => B.complete requestId fromStage result
  | .fatal message =>
    { B with
      ledger := B.ledger.settleAll (.raises (.runtimeError message))
      collected := fun _ => ∅ }

/-- The event of a submission that passes its checks. -/
def observeSubmission (cfg : Config Q) (s : State V) (c : ℕ) (requestId : String)
    (request : Q) : Option (Event V) :=
  (checkSubmission cfg s requestId request).toOption.map (.accepted c requestId)

/-- The event that an atomic piece means to the callers. A failure or an abort
counts when its handler has come back from `broadcast_abort`. -/
def observe (cfg : Config Q) (s : State V) : Action V Q → Option (Event V)
  | .submit c requestId request => observeSubmission cfg s c requestId request
  | .stream c requestId request =>
    if (s.streamQueues requestId).isSome then none
    else observeSubmission cfg s c requestId request
  | .handed c (some message) => some (.refused c message)
  | .complete _ msg =>
    if msg.success then some (.completed msg.requestId msg.fromStage msg.result) else none
  | .broadcast h =>
    match s.handlers h with
    | .aborting requestId _ => some (.aborted requestId)
    | .failing msg => some (.failed msg.requestId msg.error)
    | _ => none
  | .failPending message => some (.fatal message)
  | _ => none

/-- The call has entered the maps and its hand-over has not failed. -/
def Book.Accepted (B : Book V) (c : ℕ) : Prop := B.ledger.Accepted c ∧ B.refused c = none

/-- The book's verdict on an accepted request never changes. -/
theorem Book.record_final {B : Book V} {c : ℕ} {o : Outcome V}
    (hverdict : B.ledger.verdict c = some o) (e : Event V) :
    (B.record e).ledger.verdict c = some o := by
  cases e with
  | accepted c' requestId expected => simpa [Book.record] using hverdict
  | refused c' message => exact hverdict
  | aborted requestId => exact Ledger.settle_final hverdict
  | failed requestId error => exact Ledger.settle_final hverdict
  | completed requestId fromStage result =>
    simp only [Book.record]
    split
    · exact hverdict
    · simp only [Book.complete]
      split_ifs
      · exact hverdict
      · exact Ledger.settle_final hverdict
      · exact Ledger.settle_final hverdict
      · exact hverdict
  | fatal message => exact Ledger.settleAll_final hverdict

/-- The coordinator watched by the book. -/
def watched (cfg : Config Q) : State V × Book V → Action V Q → Option (State V × Book V) :=
  Transition.watch (step cfg) (observe cfg) Book.record

end Omni.Coordinator
