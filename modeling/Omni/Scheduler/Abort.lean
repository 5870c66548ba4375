import Omni.Scheduler.State

/-!
# Aborting a request

`abort` marks a request that is still running, or else cuts it out of the four batches.
`_handle_batch_failure` always cuts.
-/

namespace Omni.Scheduler

variable {V : Type}

/-- `_mark_running_request_aborted`. -/
def markRunningRequestAborted (s : State V) (requestId : String) : State V × Bool :=
  let hits := s.batched.filter fun q => (s.reqs q).rid = requestId ∧ (s.reqs q).finished = false
  ({ s with reqs := fun q =>
      if q ∈ hits then { s.reqs q with toFinish := true } else s.reqs q }, hits ≠ [])

/-- `_release_request_kv_cache`. -/
def releaseRequestKvCache (s : State V) (q : ℕ) : State V :=
  if (s.reqs q).holdsKv then
    { s.updateReq q fun req => { req with reqPoolIdx := none, mambaPoolIdx := none } with
      released := s.released ++ [q] }
  else s

/-- `_release_immediate_request_resources`. A request that is met again holds nothing,
so its set `seen` is not needed here. -/
def releaseImmediateRequestResources (s : State V) (requestId : String) : State V :=
  (s.batched.filter fun q => (s.reqs q).rid = requestId).foldl releaseRequestKvCache s

/-- The batch without the requests of an id. The rows of its tensors stay. -/
def Batch.without (batch : Batch) (reqs : ℕ → Req) (requestId : String) : Batch :=
  let kept := batch.reqs.filter fun q => (reqs q).rid ≠ requestId
  { batch with
    reqs := kept
    batchIsFull := if kept = [] then false else batch.batchIsFull }

/-- `_remove_from_batch`. -/
def removeFromBatch (s : State V) (batch : Option ℕ) (requestId : String) : State V :=
  match batch with
  | none => s
  | some b => s.updateBatch b fun batch => batch.without s.reqs requestId

/-- What `abort` does for a request that it has not marked. -/
def cutOut (s : State V) (requestId : String) : State V :=
  [some s.runningBatch, s.curBatch, s.lastBatch, s.asyncPending.map PendingStep.batch].foldl
    (fun s batch => removeFromBatch s batch requestId)
    (releaseImmediateRequestResources s requestId)

/-- The bookkeeping of `abort`, from the admission lock to `_prefill_start_done`. -/
def forgetRequest (s : State V) (requestId : String) : State V :=
  { s with
    aborted := s.aborted.add requestId
    pendingRequestBuilds := s.pendingRequestBuilds.erase requestId
    backloggedRequestBuildPayloads :=
      s.backloggedRequestBuildPayloads.filter fun r => r ≠ requestId
    waitingQueue := s.waitingQueue.filter fun q => (s.reqs q).rid ≠ requestId
    pendingStreamChunks := s.pendingStreamChunks.erase requestId
    pendingStreamDone := s.pendingStreamDone.erase requestId
    deferredRequestPayloads := s.deferredRequestPayloads.erase requestId
    dirtyDeferredRequestIds := s.dirtyDeferredRequestIds.erase requestId
    firstEmitDone := s.firstEmitDone.erase requestId
    prefillStartDone := s.prefillStartDone.erase requestId }

/-- `_drain_inbox_for_request`, when nothing interrupts it. -/
def drainInboxForRequest (s : State V) (requestId : String) : State V :=
  { s with inbox := s.inbox.filter fun msg => msg.requestId ≠ requestId }

/-- `abort`. -/
def abort (s : State V) (requestId : String) (deferRunningCleanup : Bool) : State V :=
  let (s, runningAbort) :=
    if deferRunningCleanup then markRunningRequestAborted s requestId else (s, false)
  let s := forgetRequest s requestId
  let s := if runningAbort then s else cutOut s requestId
  drainInboxForRequest s requestId

/-- `_emit_request_error`. -/
def emitRequestError (s : State V) (requestId error : String) : State V :=
  if s.isEntryRank then { s with outbox := s.outbox ++ [.error requestId error] } else s

/-- `_handle_batch_failure`. -/
def handleBatchFailure (s : State V) (b : ℕ) (error : String) : State V :=
  (s.batches b).reqs.foldl (fun s q =>
    let requestId := (s.reqs q).rid
    abort (emitRequestError s requestId error) requestId false) s

end Omni.Scheduler
