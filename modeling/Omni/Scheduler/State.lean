import Mathlib.Data.Finset.Card
import Mathlib.Data.String.Basic
import Mathlib.Logic.Function.Basic

/-!
# The state of `OmniScheduler`

Requests and batches are objects that several attributes refer to, so they are kept
under the numbers of their creation. The rows of a batch name the request that each
row of its per-request tensors was made for.
-/

namespace Omni.Scheduler

/-- `Req`, as far as the scheduler reads it. -/
structure Req where
  rid : String
  /-- `req.finished()`. -/
  finished : Bool
  /-- `req.to_finish` has been set to `FINISH_ABORT()`. -/
  toFinish : Bool
  isRetracted : Bool
  reqPoolIdx : Option ℕ
  mambaPoolIdx : Option ℕ
  deriving DecidableEq

/-- `ScheduleBatch`. `rows` are the owners of the rows of `seq_lens` and `req_pool_indices`. -/
structure Batch where
  reqs : List ℕ
  rows : List ℕ
  /-- `forward_mode.is_extend()`. -/
  isExtend : Bool
  chunkedReq : Option ℕ
  batchIsFull : Bool
  deriving DecidableEq

/-- `_async_pending`: a copy of the launched batch and its pending step. `nextTokenIds`
are the owners of the rows of `next_token_ids`. -/
structure PendingStep where
  batch : ℕ
  nextTokenIds : List ℕ
  deriving DecidableEq

inductive MessageType
  | newRequest
  | streamChunk
  | streamDone
  deriving DecidableEq

/-- `IncomingMessage`. -/
structure IncomingMessage (V : Type) where
  requestId : String
  type : MessageType
  data : V
  deriving DecidableEq

/-- `OutgoingMessage`. A result is built from the request that it belongs to. -/
inductive OutgoingMessage
  | result (requestId : String) (req : ℕ)
  | error (requestId : String) (error : String)
  deriving DecidableEq

/-- Where the event loop stands between two of its pieces. -/
inductive LoopPoint
  /-- Before `get_next_batch_to_run`. -/
  | top
  /-- `cur_batch` has been set. -/
  | selected
  /-- `cur_batch` has been launched, the step before it has still to be resolved. -/
  | launched (prevPending : PendingStep)
  /-- The step in flight has been resolved, `cur_batch` may be stale. -/
  | drained
  /-- `cur_batch` is about to run. -/
  | ready
  deriving DecidableEq

/-- `_aborted_request_ids` with `_aborted_request_id_order`. -/
structure AbortedIds where
  ids : Finset String
  order : List String
  deriving DecidableEq

/-- The scheduler. The maps of pending and deferred work are kept as their keys.
`released` is the list of the requests in the order of `release_kv_cache`. -/
structure State (V : Type) where
  reqs : ℕ → Req
  reqCount : ℕ
  batches : ℕ → Batch
  batchCount : ℕ
  runningBatch : ℕ
  curBatch : Option ℕ
  lastBatch : Option ℕ
  asyncPending : Option PendingStep
  chunkedReq : Option ℕ
  waitingQueue : List ℕ
  point : LoopPoint
  aborted : AbortedIds
  pendingRequestBuilds : Finset String
  backloggedRequestBuildPayloads : List String
  pendingStreamChunks : Finset String
  pendingStreamDone : Finset String
  deferredRequestPayloads : Finset String
  dirtyDeferredRequestIds : Finset String
  firstEmitDone : Finset String
  prefillStartDone : Finset String
  inbox : List (IncomingMessage V)
  outbox : List OutgoingMessage
  isEntryRank : Bool
  released : List ℕ

/-- A batch without requests. -/
def Batch.empty : Batch := ⟨[], [], false, none, false⟩

/-- The scheduler before its first iteration. -/
def State.init (V : Type) (isEntryRank : Bool) : State V where
  reqs := fun _ => ⟨"", false, false, false, none, none⟩
  reqCount := 0
  batches := fun _ => .empty
  batchCount := 1
  runningBatch := 0
  curBatch := none
  lastBatch := none
  asyncPending := none
  chunkedReq := none
  waitingQueue := []
  point := .top
  aborted := ⟨∅, []⟩
  pendingRequestBuilds := ∅
  backloggedRequestBuildPayloads := []
  pendingStreamChunks := ∅
  pendingStreamDone := ∅
  deferredRequestPayloads := ∅
  dirtyDeferredRequestIds := ∅
  firstEmitDone := ∅
  prefillStartDone := ∅
  inbox := []
  outbox := []
  isEntryRank := isEntryRank
  released := []

variable {V : Type}

/-- Assign to fields of a request. -/
def State.updateReq (s : State V) (q : ℕ) (f : Req → Req) : State V :=
  { s with reqs := Function.update s.reqs q (f (s.reqs q)) }

/-- Assign to fields of a batch. -/
def State.updateBatch (s : State V) (b : ℕ) (f : Batch → Batch) : State V :=
  { s with batches := Function.update s.batches b (f (s.batches b)) }

/-- Make a batch object. -/
def State.newBatch (s : State V) (batch : Batch) : State V :=
  { s with
    batches := Function.update s.batches s.batchCount batch
    batchCount := s.batchCount + 1 }

/-- The four batches that `abort` looks at: `running_batch`, `cur_batch`, `last_batch` and
the batch of the step in flight. -/
def State.fourBatches (s : State V) : List ℕ :=
  s.runningBatch :: s.curBatch.toList ++ s.lastBatch.toList ++
    (s.asyncPending.map PendingStep.batch).toList

/-- The requests of the four batches. -/
def State.batched (s : State V) : List ℕ :=
  s.fourBatches.flatMap fun b => (s.batches b).reqs

/-- The request holds KV cache. -/
def Req.holdsKv (req : Req) : Bool :=
  req.reqPoolIdx.isSome || req.mambaPoolIdx.isSome

/-- `_ABORTED_REQUEST_ID_LIMIT`. -/
def abortedRequestIdLimit : ℕ := 10000

/-- `_ABORTED_REQUEST_ID_RETAINED`. -/
def abortedRequestIdRetained : ℕ := 5000

/-- The loop that evicts aborted ids, the oldest first. -/
def evictAborted : Finset String → List String → AbortedIds
  | ids, [] => ⟨ids, []⟩
  | ids, oldest :: order =>
    if abortedRequestIdRetained ≤ ids.card then evictAborted (ids.erase oldest) order
    else ⟨ids, oldest :: order⟩

/-- The first statement of `abort` under the admission lock. -/
def AbortedIds.add (aborted : AbortedIds) (requestId : String) : AbortedIds :=
  if requestId ∈ aborted.ids then aborted
  else
    let kept := if abortedRequestIdLimit ≤ aborted.ids.card then
      evictAborted aborted.ids aborted.order else aborted
    ⟨insert requestId kept.ids, kept.order ++ [requestId]⟩

/-- Evicting brings no id in. -/
theorem evictAborted_subset (ids : Finset String) (order : List String) :
    (evictAborted ids order).ids ⊆ ids := by
  induction order generalizing ids with
  | nil => exact Finset.Subset.refl ids
  | cons oldest order ih =>
    unfold evictAborted
    split
    · exact (ih (ids.erase oldest)).trans (ids.erase_subset oldest)
    · exact Finset.Subset.refl ids

/-- No other id comes in. -/
theorem mem_of_mem_add {aborted : AbortedIds} {requestId r : String}
    (hmem : r ∈ (aborted.add requestId).ids) (hne : r ≠ requestId) : r ∈ aborted.ids := by
  unfold AbortedIds.add at hmem
  split at hmem
  · exact hmem
  · have hkept := (Finset.mem_insert.mp hmem).resolve_left hne
    split at hkept
    · exact evictAborted_subset _ _ hkept
    · exact hkept

end Omni.Scheduler
