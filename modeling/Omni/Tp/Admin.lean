import Omni.Library.Transition
import Mathlib.Data.String.Basic
import Mathlib.Logic.Function.Basic

/-!
# Admin operations of a tensor-parallel stage

The leader fans an operation out to its followers, runs it, and then takes one result from
the queue of each follower. The queue is kept as all results that the follower has sent,
with the number of those that have been taken.
-/

namespace Omni.Tp

open Function

/-- `AdminOperation`, without its payload and its targets. -/
structure AdminOperation where
  opId : String
  action : String
  deriving DecidableEq

/-- `AdminResult`. -/
structure AdminResult (D : Type) where
  opId : String
  stage : String
  action : String
  success : Bool
  message : String
  data : D
  error : Option String
  rank : Option ℕ
  role : Option String
  deriving DecidableEq

/-- The `AdminResult` of the leader, whose data have got `tp_size` and `rank_results`. -/
structure Answer (D : Type) where
  opId : String
  stage : String
  action : String
  success : Bool
  message : String
  data : D
  tpSize : ℕ
  rankResults : List (AdminResult D)
  error : Option String
  rank : ℕ
  role : String
  deriving DecidableEq

/-- A call of `q.get(timeout=timeout_s)` in a thread of its own. -/
inductive Get (D : Type)
  | notCalled
  | waiting
  | got (result : AdminResult D)
  /-- It has raised `queue.Empty`. -/
  | empty
  deriving DecidableEq

/-- What `_on_admin` of the leader is doing. -/
inductive Phase
  | idle
  /-- It runs the operation itself. -/
  | running
  | collecting
  deriving DecidableEq

variable {D : Type}

/-- The leader and its followers. Operations are numbered in their order, and `gets k f` is
the call for operation `k` at follower `f`. -/
structure State (D : Type) where
  ops : List AdminOperation
  phase : Phase
  ownResult : ℕ → Option (AdminResult D)
  sent : ℕ → List (AdminResult D)
  taken : ℕ → ℕ
  gets : ℕ → ℕ → Get D
  outcome : ℕ → Option (Answer D)

/-- Before the first operation. -/
def State.init (D : Type) : State D :=
  ⟨[], .idle, fun _ => none, fun _ => [], fun _ => 0, fun _ _ => .notCalled, fun _ => none⟩

/-- The non-empty errors. -/
def errors (results : List (AdminResult D)) : List String :=
  results.filterMap fun result => result.error.filter fun error => error ≠ ""

/-- `"; ".join(errors)`. -/
def joined (results : List (AdminResult D)) : String := "; ".intercalate (errors results)

/-- What the leader makes of its own result and those of its followers. -/
def combine (stage : String) (op : AdminOperation) (own : AdminResult D)
    (followers : List (AdminResult D)) : Answer D :=
  let rankResults := own :: followers
  let success := rankResults.all AdminResult.success
  let text := joined rankResults
  { opId := op.opId
    stage := stage
    action := op.action
    success := success
    message := if success then own.message else if text = "" then own.message else text
    data := own.data
    tpSize := rankResults.length
    rankResults := rankResults
    error := if success then none else if text = "" then own.error else some text
    rank := 0
    role := "leader" }

/-- The answer when `collect_admin_results` has raised. -/
def collectFailed (stage : String) (op : AdminOperation) (own : AdminResult D) (error : String) :
    Answer D :=
  combine stage op { own with
    success := false
    error := some error
    message := "failed to collect TP follower admin results" } []

/-- The check of the collected results: the text of the exception, if there is one. -/
def checkOpIds (opId : String) : List (AdminResult D) → Option String
  | [] => none
  | result :: results =>
    if result.opId ≠ opId then
      some s!"Unexpected TP follower admin op id: {result.opId} != {opId}"
    else checkOpIds opId results

/-- The result that a call has returned. -/
def Get.result? : Get D → Option (AdminResult D)
  | .got result => some result
  | _ => none

/-- What the leader, its followers and the threads of the calls do. -/
inductive Action (D : Type)
  | begin (op : AdminOperation)
  /-- `_run_admin_operation` of the leader returns. -/
  | ranOperation (result : AdminResult D)
  /-- A follower answers the first operation that it has not answered. -/
  | send (f : ℕ) (result : AdminResult D)
  /-- A call takes the first result of the queue. -/
  | take (k f : ℕ)
  /-- A call times out, which it does at an empty queue only. -/
  | timeout (k f : ℕ)
  /-- All calls of the operation have returned. -/
  | finish
  /-- `asyncio.gather` raises what a call has raised. -/
  | fail (f : ℕ)

/-- The operation that the leader works on. -/
def State.current (s : State D) : ℕ := s.ops.length - 1

/-- The leader sends its answer. -/
def State.answer (s : State D) (answer : Answer D) : State D :=
  { s with phase := .idle, outcome := update s.outcome s.current (some answer) }

/-- Set the state of one call. -/
def State.setGet (s : State D) (k f : ℕ) (get : Get D) : State D :=
  { s with gets := update s.gets k (update (s.gets k) f get) }

/-- The transition function of a stage with the given number of followers. -/
def step (stage : String) (followers : ℕ) (s : State D) : Action D → Option (State D)
  | .begin op =>
    if s.phase = .idle then some { s with ops := s.ops ++ [op], phase := .running } else none
  | .ranOperation result =>
    match s.ops[s.current]? with
    | some op =>
      if s.phase = .running ∧ result.opId = op.opId then
        some { s with
          phase := .collecting
          ownResult := update s.ownResult s.current (some result)
          gets := update s.gets s.current fun f =>
            if f < followers then .waiting else .notCalled }
      else none
    | none => none
  | .send f result =>
    match s.ops[(s.sent f).length]? with
    | some op =>
      if f < followers ∧ result.opId = op.opId then
        some { s with sent := update s.sent f (s.sent f ++ [result]) }
      else none
    | none => none
  | .take k f =>
    match s.gets k f, (s.sent f)[s.taken f]? with
    | .waiting, some result =>
      some { s.setGet k f (.got result) with
        taken := update s.taken f (s.taken f + 1) }
    | _, _ => none
  | .timeout k f =>
    match s.gets k f, (s.sent f)[s.taken f]? with
    | .waiting, none => some (s.setGet k f .empty)
    | _, _ => none
  | .finish =>
    match s.phase, s.ops[s.current]?, s.ownResult s.current,
        (List.range followers).mapM fun f => (s.gets s.current f).result? with
    | .collecting, some op, some own, some results =>
      some (s.answer (match checkOpIds op.opId results with
        | none => combine stage op own results
        | some error => collectFailed stage op own error))
    | _, _, _, _ => none
  | .fail f =>
    match s.phase, s.ops[s.current]?, s.ownResult s.current, s.gets s.current f with
    | .collecting, some op, some own, .empty => some (s.answer (collectFailed stage op own ""))
    | _, _, _, _ => none

end Omni.Tp
