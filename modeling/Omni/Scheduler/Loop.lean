import Omni.Library.Rows
import Omni.Library.Transition
import Omni.Scheduler.Abort

/-!
# The event loops

The pieces of `_event_loop_async_decode`. A run of `_event_loop_normal` is a run that
never launches. What the scheduler takes from upstream (the choice of the next batch,
filtering, merging, finishing) follows its documented behaviour, with the choices as
arguments of the actions.
-/

namespace Omni.Scheduler

variable {V : Type}

/-- Keep the indices of some requests in the requests and in all tensors. -/
def Batch.reslice (batch : Batch) (keep : ℕ → Bool) : Batch :=
  { batch with
    reqs := batch.reqs.filter keep
    rows := Omni.reslice keep batch.reqs batch.rows }

/-- `filter_batch`, which does nothing when all requests are kept. -/
def filterBatch (s : State V) (b : ℕ) (keep : ℕ → Bool) : State V :=
  if (s.batches b).reqs.all keep then s else s.updateBatch b fun batch => batch.reslice keep

/-- `merge_batch`. -/
def Batch.merge (batch other : Batch) : Batch :=
  { batch with reqs := batch.reqs ++ other.reqs, rows := batch.rows ++ other.rows }

/-- The request has finished or has been retracted. -/
def State.stale (s : State V) (q : ℕ) : Bool :=
  (s.reqs q).finished || (s.reqs q).isRetracted

/-- Assign to `running_batch`. -/
def State.setRunning (s : State V) (b : ℕ) : State V :=
  { s with runningBatch := b }

/-- `self.cur_batch = batch`, the end of the choice of a batch. -/
def State.setCurrent (s : State V) (batch : Option ℕ) : State V :=
  { s with curBatch := batch, point := .selected }

/-- What `get_next_batch_to_run` decides. -/
inductive Choice
  /-- Prefill the admitted requests, with KV cache from the given slots. The last one may
  be prefilled in part, and the running batch may be mixed in. -/
  | prefill (admitted : List ℕ) (slot : ℕ → ℕ) (chunked : Option ℕ) (mixed : Bool)
  /-- Decode the running batch, after retracting some requests. -/
  | decode (retracted : List ℕ)
  | nothing

/-- The first part of `get_next_batch_to_run`: the batch that has been prefilled is merged
into the running batch. -/
def mergeLast (s : State V) : State V :=
  match s.lastBatch with
  | none => s
  | some l =>
    if (s.batches l).isExtend then
      let excluded := s.chunkedReq.toList ++ (s.batches l).chunkedReq.toList
      let s := filterBatch s l fun q => !(s.reqs q).finished && q ∉ excluded
      if (s.batches l).reqs = [] then s
      else if (s.batches s.runningBatch).reqs = [] then s.setRunning l
      else s.updateBatch s.runningBatch fun batch => batch.merge (s.batches l)
    else s

/-- The admitted requests leave the waiting queue and get their KV cache. -/
def admitRequests (s : State V) (admitted : List ℕ) (slot : ℕ → ℕ) (chunked : Option ℕ) :
    State V :=
  { s with
    reqs := fun q => if q ∈ admitted then
        { s.reqs q with reqPoolIdx := some (slot q), isRetracted := false }
      else s.reqs q
    waitingQueue := s.waitingQueue.filter fun q => q ∉ admitted
    chunkedReq := chunked }

/-- The new batch with what is left of the running batch mixed in, which starts anew. -/
def mixWithRunning (s : State V) (batch : Batch) : State V :=
  let s := filterBatch s s.runningBatch fun q => !(s.reqs q).finished
  let running := s.batches s.runningBatch
  ((s.newBatch (if running.reqs = [] then batch else batch.merge running)).newBatch
    .empty).setRunning (s.batchCount + 1)

/-- A retracted request gives up its KV cache. -/
def retractRequest (s : State V) (q : ℕ) : State V :=
  (releaseRequestKvCache s q).updateReq q fun req => { req with isRetracted := true }

/-- Requests enter the waiting queue. -/
def extendWaitingQueue (s : State V) (qs : List ℕ) : State V :=
  { s with waitingQueue := s.waitingQueue ++ qs }

/-- `update_running_batch`: finished requests are filtered out, and then the retracted ones,
which go back to the waiting queue. -/
def updateRunningBatch (s : State V) (retracted : List ℕ) : State V :=
  let s := filterBatch s s.runningBatch fun q => !(s.reqs q).finished
  let leaving := (s.batches s.runningBatch).reqs.filter fun q => q ∈ retracted
  let s := filterBatch s s.runningBatch fun q => q ∉ retracted
  leaving.foldl retractRequest (extendWaitingQueue s leaving)

/-- The second part of `get_next_batch_to_run`: a new prefill batch or the running batch. -/
def selectBatch (s : State V) : Choice → Option (State V × Option ℕ)
  | .prefill admitted slot chunked mixed =>
    if (∀ q ∈ admitted, q ∈ s.waitingQueue ∨ s.chunkedReq = some q) ∧
        (∀ q ∈ s.chunkedReq, q ∈ admitted) ∧ (∀ q ∈ chunked, q ∈ admitted) ∧ admitted ≠ [] then
      let s := admitRequests s admitted slot chunked
      let batch : Batch := ⟨admitted, admitted, true, chunked, false⟩
      some (if mixed ∧ (s.batches s.runningBatch).reqs ≠ [] then mixWithRunning s batch
        else s.newBatch batch, some s.batchCount)
    else none
  | .decode retracted =>
    if s.chunkedReq = none ∧ (s.batches s.runningBatch).reqs ≠ [] then
      let s := updateRunningBatch s retracted
      if (s.batches s.runningBatch).reqs = [] then some (s, none)
      else some (s.updateBatch s.runningBatch fun batch => { batch with isExtend := false },
        some s.runningBatch)
    else none
  | .nothing =>
    if s.chunkedReq = none ∧ (s.batches s.runningBatch).reqs = [] then some (s, none) else none

/-- How the forward pass of a step and its processing go. -/
inductive StepOutcome
  /-- The given requests are found to be finished, and building a result may raise. -/
  | done (finished : List ℕ) (adapterError : ℕ → Option String)
  /-- Running, launching or resolving the step raises. -/
  | fails (error : String)
  /-- `execute_resolve` returns `None`. -/
  | refused

/-- A request is found to be finished and gives up its KV cache. -/
def finishRequest (s : State V) (q : ℕ) : State V :=
  releaseRequestKvCache (s.updateReq q fun req => { req with finished := true }) q

/-- The event flags of an id are dropped. -/
def discardEvents (s : State V) (requestId : String) : State V :=
  { s with
    firstEmitDone := s.firstEmitDone.erase requestId
    prefillStartDone := s.prefillStartDone.erase requestId }

/-- The end of `stream_output` for a finished request that has not been aborted. -/
def emitResult (adapterError : ℕ → Option String) (s : State V) (q : ℕ) : State V :=
  match adapterError q with
  | some error => emitRequestError s (s.reqs q).rid error
  | none => { s with outbox := s.outbox ++ [.result (s.reqs q).rid q] }

/-- `stream_output` for one request. -/
def streamOutput (adapterError : ℕ → Option String) (s : State V) (q : ℕ) : State V :=
  if (s.reqs q).finished then
    if (s.reqs q).rid ∈ s.aborted.ids then discardEvents s (s.reqs q).rid
    else emitResult adapterError (discardEvents s (s.reqs q).rid) q
  else s

/-- `process_batch_result` for the requests of a batch, which leaves those that have just
finished in the batch. -/
def processBatchResult (s : State V) (reqs finished : List ℕ)
    (adapterError : ℕ → Option String) : State V :=
  let finishing := reqs.filter fun q => q ∈ finished ∧ (s.reqs q).finished = false
  reqs.foldl (streamOutput adapterError) (finishing.foldl finishRequest s)

/-- The requests and the rows of `next_token_ids` that `_resolve_and_process` hands to
`process_batch_result`. -/
def handedOver (s : State V) (pending : PendingStep) : List ℕ × List ℕ :=
  let reqs := (s.batches pending.batch).reqs
  let keep := reqs.filter fun q => !s.stale q
  if keep.length < reqs.length then
    (keep, if keep = [] then pending.nextTokenIds
      else reslice (fun q => !s.stale q) reqs pending.nextTokenIds)
  else (reqs, pending.nextTokenIds)

/-- `_resolve_and_process`, with the handler of its exceptions. -/
def resolveAndProcess (s : State V) (pending : PendingStep) : StepOutcome → State V
  | .fails error => handleBatchFailure s pending.batch error
  | .refused => s
  | .done finished adapterError =>
    let reqs := (handedOver s pending).1
    let s := s.updateBatch pending.batch fun batch => { batch with reqs := reqs }
    if reqs = [] then s else processBatchResult s reqs finished adapterError

/-- `_drop_stale_overrun`. -/
def dropStaleOverrun (s : State V) : State V :=
  match s.curBatch with
  | none => s
  | some b =>
    if (s.batches b).reqs.any s.stale then
      let s := filterBatch s b fun q => !s.stale q
      if (s.batches b).reqs = [] then { s with curBatch := none } else s
    else s

/-- A piece of the event loop, or a call from outside between two pieces. -/
inductive Action
  /-- A request that has been built enters the waiting queue. -/
  | enqueue (requestId : String)
  /-- The stage calls `abort`. -/
  | abort (requestId : String)
  /-- `_resolve_pending_async` before the next batch is chosen. -/
  | flush (outcome : StepOutcome)
  /-- `get_next_batch_to_run`. -/
  | select (choice : Choice)
  /-- `_run_batch_launch` of the current batch. -/
  | launch (error : Option String)
  /-- The step before the one that has just been launched is resolved. -/
  | resolve (outcome : StepOutcome)
  /-- `_resolve_pending_async` before the current batch runs. -/
  | drain (outcome : StepOutcome)
  | dropStale
  /-- `run_batch` of the current batch, and `process_batch_result`. -/
  | run (outcome : StepOutcome)

/-- The end of an iteration. -/
def State.endIteration (s : State V) : State V :=
  { s with lastBatch := s.curBatch, point := .top }

/-- `_run_batch_launch` has succeeded. -/
def launchBatch (s : State V) (b : ℕ) : State V :=
  let launched := { s.newBatch (s.batches b) with
    asyncPending := some ⟨s.batchCount, (s.batches b).reqs⟩ }
  match s.asyncPending with
  | none => launched.endIteration
  | some prevPending => { launched with point := .launched prevPending }

/-- `run_batch` and `process_batch_result` of the current batch. -/
def runBatch (s : State V) (outcome : StepOutcome) : State V :=
  match s.curBatch, outcome with
  | none, _ => s
  | some b, .fails error => handleBatchFailure s b error
  | some b, .done finished adapterError =>
    processBatchResult s (s.batches b).reqs finished adapterError
  | some _, .refused => s

/-- The transition function. -/
def step (s : State V) : Action → Option (State V)
  | .enqueue requestId =>
    if requestId ∈ s.aborted.ids then none
    else some { s with
      reqs := Function.update s.reqs s.reqCount ⟨requestId, false, false, false, none, none⟩
      reqCount := s.reqCount + 1
      waitingQueue := s.waitingQueue ++ [s.reqCount] }
  | .abort requestId => some (Scheduler.abort s requestId true)
  | .flush outcome =>
    match s.point, s.asyncPending with
    | .top, some pending =>
      some (resolveAndProcess { s with asyncPending := none } pending outcome)
    | _, _ => none
  | .select choice =>
    match s.point with
    | .top => (selectBatch (mergeLast s) choice).map fun (s, batch) => s.setCurrent batch
    | _ => none
  | .launch error =>
    match s.point, s.curBatch with
    | .selected, some b =>
      if (s.batches b).isExtend then none
      else some (match error with
        | none => launchBatch s b
        | some error => (handleBatchFailure s b error).endIteration)
    | _, _ => none
  | .resolve outcome =>
    match s.point with
    | .launched prevPending => some (resolveAndProcess s prevPending outcome).endIteration
    | _ => none
  | .drain outcome =>
    match s.point, s.asyncPending with
    | .selected, some pending =>
      some { resolveAndProcess { s with asyncPending := none } pending outcome with
        point := .drained }
    | _, _ => none
  | .dropStale =>
    match s.point with
    | .drained => some { dropStaleOverrun s with point := .ready }
    | _ => none
  | .run outcome =>
    match s.point, s.asyncPending with
    | .selected, none => some (runBatch s outcome).endIteration
    | .ready, _ => some (runBatch s outcome).endIteration
    | _, _ => none

/-- What a step has been. -/
inductive Stepped (s : State V) : Action → State V → Prop
  | enqueue (requestId : String) (hnew : requestId ∉ s.aborted.ids) :
    Stepped s (.enqueue requestId) { s with
      reqs := Function.update s.reqs s.reqCount ⟨requestId, false, false, false, none, none⟩
      reqCount := s.reqCount + 1
      waitingQueue := s.waitingQueue ++ [s.reqCount] }
  | abort (requestId : String) : Stepped s (.abort requestId) (Scheduler.abort s requestId true)
  | flush (outcome : StepOutcome) (pending : PendingStep) (htop : s.point = .top)
    (hpending : s.asyncPending = some pending) :
    Stepped s (.flush outcome) (resolveAndProcess { s with asyncPending := none } pending outcome)
  | select (choice : Choice) (u : State V) (batch : Option ℕ) (htop : s.point = .top)
    (hselect : selectBatch (mergeLast s) choice = some (u, batch)) :
    Stepped s (.select choice) (u.setCurrent batch)
  | launch (b : ℕ) (hpoint : s.point = .selected) (hcur : s.curBatch = some b)
    (hdecode : (s.batches b).isExtend = false) : Stepped s (.launch none) (launchBatch s b)
  | launchFails (b : ℕ) (error : String) (hcur : s.curBatch = some b)
    (hdecode : (s.batches b).isExtend = false) :
    Stepped s (.launch (some error)) (handleBatchFailure s b error).endIteration
  | resolve (outcome : StepOutcome) (prevPending : PendingStep)
    (hpoint : s.point = .launched prevPending) :
    Stepped s (.resolve outcome) (resolveAndProcess s prevPending outcome).endIteration
  | drain (outcome : StepOutcome) (pending : PendingStep) (hpoint : s.point = .selected)
    (hpending : s.asyncPending = some pending) :
    Stepped s (.drain outcome)
      { resolveAndProcess { s with asyncPending := none } pending outcome with point := .drained }
  | dropStale (hpoint : s.point = .drained) :
    Stepped s .dropStale { dropStaleOverrun s with point := .ready }
  | run (outcome : StepOutcome)
    (hpoint : s.point = .selected ∧ s.asyncPending = none ∨ s.point = .ready) :
    Stepped s (.run outcome) (runBatch s outcome).endIteration

theorem stepped {s t : State V} {a : Action} (hstep : step s a = some t) : Stepped s a t := by
  cases a with
  | launch error =>
    cases error <;> simp only [step] at hstep <;> repeat' first | cases hstep | split at hstep
    · exact .launch _ ‹_› ‹_› (Bool.eq_false_of_not_eq_true ‹_›)
    · exact .launchFails _ _ ‹_› (Bool.eq_false_of_not_eq_true ‹_›)
  | select choice =>
    simp only [step] at hstep
    split at hstep
    · obtain ⟨⟨u, batch⟩, hselect, rfl⟩ := Option.map_eq_some_iff.mp hstep
      exact .select choice u batch ‹_› hselect
    · cases hstep
  | run outcome =>
    simp only [step] at hstep
    repeat' first | cases hstep | split at hstep
    · exact .run outcome (Or.inl ⟨‹_›, ‹_›⟩)
    · exact .run outcome (Or.inr ‹_›)
  | _ =>
    simp only [step] at hstep
    repeat' first | cases hstep | split at hstep
    all_goals
      constructor
      all_goals assumption

end Omni.Scheduler
