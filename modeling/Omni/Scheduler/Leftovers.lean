import Mathlib.Data.Finset.Basic
import Mathlib.Data.List.Count
import Mathlib.Tactic.Common
import Omni.Library.Transition
import Omni.Scheduler.State

/-!
# What an ended request leaves behind

The maps of `OmniScheduler` that hold something for a request id, from its first message to its
end. A call of `abort` falls between two pieces of the scheduler's loop, and the pieces may follow
each other in any order. An id is submitted once.
-/

namespace Omni.Scheduler.Leftovers

open Transition State List

variable {V : Type} {pendingStreamDone : Bool} {r : String} {requestIds : List String}

/-- `StagePayload`, as far as the scheduler adds to it. -/
structure Payload (V : Type) where
  requestId : String
  prefetchedChunks : List V
  prefetchedStreamDone : Bool
  deriving DecidableEq

/-- `IncomingMessage`. -/
inductive Message (V : Type)
  | newRequest (payload : Payload V)
  | streamChunk (requestId : String) (chunk : V)
  | streamDone (requestId : String)
  deriving DecidableEq

/-- `msg.request_id`. -/
def Message.requestId : Message V → String
  | .newRequest payload => payload.requestId
  | .streamChunk requestId _ => requestId
  | .streamDone requestId => requestId

/-- The parts of the scheduler that a subclass or the configuration decides. -/
structure Config (V : Type) where
  /-- There is a `_request_build_executor`. -/
  executor : Bool
  /-- `_should_recheck_deferred_request_on_stream_chunk`. -/
  recheck : String → V → Bool

/-- The scheduler, as far as its maps go. The fields after `finished` are history. -/
structure State (V : Type) where
  inbox : List (Message V)
  /-- The messages that `recv_requests` has taken and not yet handled. -/
  received : List (Message V)
  /-- `recv_reqs`, before it has been staged. -/
  newReqs : List (Payload V)
  /-- The payloads that `process_input_requests` has still to look at. -/
  staged : List (Payload V)
  backlog : List (Payload V)
  /-- `_pending_request_builds`, with `pending_stream_done`. -/
  pendingRequestBuilds : List (Payload V × Bool)
  pendingStreamChunks : List (String × V)
  pendingStreamDone : Finset String
  deferredRequestPayloads : List (Payload V)
  dirtyDeferredRequestIds : Finset String
  firstEmitDone : Finset String
  prefillStartDone : Finset String
  aborted : AbortedIds
  waitingQueue : List String
  /-- The requests of `running_batch`, `cur_batch` and `last_batch`. -/
  batched : List String
  /-- The requests with `req.finished()`. -/
  finished : Finset String
  submitted : Finset String
  admitted : List String
  /-- The requests that have got their result or error or have been aborted. -/
  ended : Finset String

/-- A scheduler that has not seen any message. -/
def State.init (V : Type) : State V where
  inbox := []
  received := []
  newReqs := []
  staged := []
  backlog := []
  pendingRequestBuilds := []
  pendingStreamChunks := []
  pendingStreamDone := ∅
  deferredRequestPayloads := []
  dirtyDeferredRequestIds := ∅
  firstEmitDone := ∅
  prefillStartDone := ∅
  aborted := ⟨∅, []⟩
  waitingQueue := []
  batched := []
  finished := ∅
  submitted := ∅
  admitted := []
  ended := ∅

/-- `abort`. A request that is still running stays in its batches. -/
def abort (s : State V) (requestId : String) (deferRunningCleanup : Bool) : State V :=
  let runningAbort := deferRunningCleanup ∧ requestId ∈ s.batched ∧ requestId ∉ s.finished
  { s with
    aborted := s.aborted.add requestId
    pendingRequestBuilds := s.pendingRequestBuilds.filter fun build =>
      build.1.requestId ≠ requestId
    backlog := s.backlog.filter fun payload => payload.requestId ≠ requestId
    waitingQueue := s.waitingQueue.filter fun q => q ≠ requestId
    pendingStreamChunks := s.pendingStreamChunks.filter fun entry => entry.1 ≠ requestId
    pendingStreamDone := s.pendingStreamDone.erase requestId
    deferredRequestPayloads := s.deferredRequestPayloads.filter fun payload =>
      payload.requestId ≠ requestId
    dirtyDeferredRequestIds := s.dirtyDeferredRequestIds.erase requestId
    firstEmitDone := s.firstEmitDone.erase requestId
    prefillStartDone := s.prefillStartDone.erase requestId
    batched := if runningAbort then s.batched else s.batched.filter fun q => q ≠ requestId
    inbox := s.inbox.filter fun msg => msg.requestId ≠ requestId
    ended := insert requestId s.ended }

/-- `_emit_request_error` and `abort`, as the paths on which a request is refused do it. -/
def refuse (s : State V) (requestId : String) : State V :=
  abort { s with ended := insert requestId s.ended } requestId true

/-- `_find_request_data` finds the request. -/
def State.finds (s : State V) (requestId : String) : Bool :=
  requestId ∈ s.batched ∨ requestId ∈ s.waitingQueue

/-- `requestId in self._deferred_request_payloads`. -/
def State.defers (s : State V) (requestId : String) : Bool :=
  s.deferredRequestPayloads.any fun payload => payload.requestId = requestId

/-- `requestId in self._pending_request_builds`. -/
def State.builds (s : State V) (requestId : String) : Bool :=
  s.pendingRequestBuilds.any fun build => build.1.requestId = requestId

/-- `_on_stream_chunk`. -/
def onStreamChunk (cfg : Config V) (s : State V) (requestId : String) (chunk : V) : State V :=
  if s.finds requestId then s
  else
    { s with
      pendingStreamChunks := s.pendingStreamChunks ++ [(requestId, chunk)]
      dirtyDeferredRequestIds :=
        if s.defers requestId && cfg.recheck requestId chunk then
          insert requestId s.dirtyDeferredRequestIds
        else s.dirtyDeferredRequestIds }

/-- `_on_stream_done`. -/
def onStreamDone (s : State V) (requestId : String) : State V :=
  if s.finds requestId then s
  else
    { s with
      pendingStreamDone := insert requestId s.pendingStreamDone
      dirtyDeferredRequestIds :=
        if s.defers requestId then insert requestId s.dirtyDeferredRequestIds
        else s.dirtyDeferredRequestIds }

/-- The body of the loop of `recv_requests`. -/
def handle (cfg : Config V) (s : State V) (msg : Message V) : State V :=
  if msg.requestId ∈ s.aborted.ids then s
  else
    match msg with
    | .newRequest payload => { s with newReqs := s.newReqs ++ [payload] }
    | .streamChunk requestId chunk => onStreamChunk cfg s requestId chunk
    | .streamDone requestId => onStreamDone s requestId

/-- How a request build ends. -/
inductive BuildOutcome
  /-- The builder raises. -/
  | failed
  /-- The request is built; it may be over its limits or over the capacity of the cache. -/
  | built (refused : Bool)
  deriving DecidableEq

/-- `_enqueue_built_request`. -/
def enqueueBuiltRequest (s : State V) (requestId : String) (pendingStreamDone refused : Bool) :
    State V :=
  let s := { s with
    pendingStreamDone :=
      if pendingStreamDone then s.pendingStreamDone.erase requestId else s.pendingStreamDone
    deferredRequestPayloads := s.deferredRequestPayloads.filter fun payload =>
      payload.requestId ≠ requestId }
  if refused then refuse s requestId
  else
    let s := { s with
      pendingStreamChunks := s.pendingStreamChunks.filter fun entry => entry.1 ≠ requestId
      pendingStreamDone := s.pendingStreamDone.erase requestId }
    if requestId ∈ s.aborted.ids then s
    else
      { s with
        waitingQueue := s.waitingQueue ++ [requestId]
        admitted := s.admitted ++ [requestId] }

/-- What follows a build. -/
def buildDone (s : State V) (requestId : String) (pendingStreamDone : Bool) :
    BuildOutcome → State V
  | .failed => refuse s requestId
  | .built refused => enqueueBuiltRequest s requestId pendingStreamDone refused

/-- The body of the loop of `process_input_requests`. -/
def processPayload (cfg : Config V) (s : State V) (payload : Payload V) (ready : Bool)
    (outcome : BuildOutcome) : State V :=
  let requestId := payload.requestId
  if requestId ∈ s.aborted.ids ∨ s.builds requestId then s
  else
    let bufferedChunks := (s.pendingStreamChunks.filter fun entry => entry.1 = requestId).map
      Prod.snd
    let pendingStreamDone : Bool := requestId ∈ s.pendingStreamDone
    let payload := { payload with
      prefetchedChunks := payload.prefetchedChunks ++ bufferedChunks
      prefetchedStreamDone := pendingStreamDone }
    let s := { s with
      pendingStreamChunks := s.pendingStreamChunks.filter fun entry => entry.1 ≠ requestId }
    if !ready then { s with deferredRequestPayloads := s.deferredRequestPayloads ++ [payload] }
    else if cfg.executor then
      { s with pendingRequestBuilds := s.pendingRequestBuilds ++ [(payload, pendingStreamDone)] }
    else buildDone s requestId pendingStreamDone outcome

/-- What `_stage_request_build_payloads` does with a payload, as its limits have it. -/
inductive Staging
  | select
  | keepBack
  | reject
  deriving DecidableEq

/-- The pieces of the scheduler's loop, and what comes from outside. -/
inductive Action (V : Type)
  | arrive (msg : Message V)
  /-- The stage calls `abort`. -/
  | abort (requestId : String)
  /-- `_drain_local_inbox` takes a message. -/
  | take
  /-- `recv_requests` handles a message. -/
  | handle
  /-- `_take_deferred_request_payloads`. -/
  | takeDeferred
  /-- `_stage_request_build_payloads` looks at a payload. -/
  | stage (staging : Staging)
  /-- It takes a payload from the backlog. -/
  | unbacklog
  /-- `process_input_requests` looks at a payload. -/
  | process (ready : Bool) (outcome : BuildOutcome)
  /-- `_drain_request_build_results` takes the result of a build. -/
  | collect (outcome : BuildOutcome)
  /-- A waiting request gets into a batch. -/
  | select (requestId : String)
  /-- A batch is run or launched. -/
  | runBatch (requestIds : List String)
  /-- `_emit_stream_output` emits for these requests. -/
  | emitStream (requestIds : List String)
  /-- `stream_output` meets a request that has finished. An aborted one gets no result, but what is
  noted of it is dropped as well. -/
  | finish (requestId : String)
  /-- A finished request is filtered out of the batches. -/
  | leave (requestId : String)
  | retract (requestId : String)
  /-- `_handle_batch_failure`, for one of the requests. -/
  | batchFailure (requestId : String)
  deriving DecidableEq

/-- One step. -/
def step (cfg : Config V) (s : State V) : Action V → Option (State V)
  | .arrive msg =>
    match msg with
    | .newRequest payload =>
      if payload.requestId ∈ s.submitted then none
      else some { s with
        inbox := s.inbox ++ [msg]
        submitted := insert payload.requestId s.submitted }
    | _ => some { s with inbox := s.inbox ++ [msg] }
  | .abort requestId => some (Leftovers.abort s requestId true)
  | .take =>
    match s.inbox with
    | msg :: rest => some { s with inbox := rest, received := s.received ++ [msg] }
    | [] => none
  | .handle =>
    match s.received with
    | msg :: rest => some (Leftovers.handle cfg { s with received := rest } msg)
    | [] => none
  | .takeDeferred =>
    let isDirty (payload : Payload V) : Bool := payload.requestId ∈ s.dirtyDeferredRequestIds
    some { s with
      newReqs := s.newReqs ++ s.deferredRequestPayloads.filter isDirty
      deferredRequestPayloads := s.deferredRequestPayloads.filter fun payload => !isDirty payload
      dirtyDeferredRequestIds := ∅ }
  | .stage staging =>
    match s.newReqs with
    | payload :: rest =>
      let s := { s with newReqs := rest }
      if !cfg.executor then some { s with staged := s.staged ++ [payload] }
      else if payload.requestId ∈ s.aborted.ids ∨ s.builds payload.requestId then some s
      else
        match staging with
        | .select => some { s with staged := s.staged ++ [payload] }
        | .keepBack => some { s with backlog := s.backlog ++ [payload] }
        | .reject => some (refuse s payload.requestId)
    | [] => none
  | .unbacklog =>
    match s.backlog with
    | payload :: rest =>
      let s := { s with backlog := rest }
      if payload.requestId ∈ s.aborted.ids ∨ s.builds payload.requestId then some s
      else some { s with staged := s.staged ++ [payload] }
    | [] => none
  | .process ready outcome =>
    match s.staged with
    | payload :: rest => some (processPayload cfg { s with staged := rest } payload ready outcome)
    | [] => none
  | .collect outcome =>
    match s.pendingRequestBuilds with
    | (payload, pendingStreamDone) :: rest =>
      let s := { s with pendingRequestBuilds := rest }
      if payload.requestId ∈ s.aborted.ids then some s
      else some (buildDone s payload.requestId pendingStreamDone outcome)
    | [] => none
  | .select requestId =>
    if requestId ∈ s.waitingQueue then
      some { s with
        waitingQueue := s.waitingQueue.filter fun q => q ≠ requestId
        batched := s.batched ++ [requestId] }
    else none
  | .runBatch requestIds =>
    if ∀ q ∈ requestIds, q ∈ s.batched ∧ q ∉ s.finished then
      some { s with prefillStartDone := s.prefillStartDone ∪ requestIds.toFinset }
    else none
  | .emitStream requestIds =>
    if ∀ q ∈ requestIds, q ∈ s.admitted then
      some { s with
        firstEmitDone := s.firstEmitDone ∪
          (requestIds.filter fun q => q ∉ s.finished ∧ q ∉ s.aborted.ids).toFinset }
    else none
  | .finish requestId =>
    if requestId ∈ s.batched then
      some { s with
        finished := insert requestId s.finished
        firstEmitDone := s.firstEmitDone.erase requestId
        prefillStartDone := s.prefillStartDone.erase requestId
        ended := insert requestId s.ended }
    else none
  | .leave requestId =>
    if requestId ∈ s.finished then
      some { s with batched := s.batched.filter fun q => q ≠ requestId }
    else none
  | .retract requestId =>
    if requestId ∈ s.batched ∧ requestId ∉ s.finished then
      some { s with
        batched := s.batched.filter fun q => q ≠ requestId
        waitingQueue := s.waitingQueue ++ [requestId] }
    else none
  | .batchFailure requestId =>
    if requestId ∈ s.batched then
      some (Leftovers.abort { s with ended := insert requestId s.ended } requestId false)
    else none

/-- The seven maps hold nothing for a request id. -/
structure Forgotten (s : State V) (requestId : String) : Prop where
  chunks : ∀ entry ∈ s.pendingStreamChunks, entry.1 ≠ requestId
  done : requestId ∉ s.pendingStreamDone
  deferred : ∀ payload ∈ s.deferredRequestPayloads, payload.requestId ≠ requestId
  dirty : requestId ∉ s.dirtyDeferredRequestIds
  builds : ∀ build ∈ s.pendingRequestBuilds, build.1.requestId ≠ requestId
  firstEmit : requestId ∉ s.firstEmitDone
  prefillStart : requestId ∉ s.prefillStartDone

/-- Nothing of an ended request stays behind, once all that has come for it has been handled. -/
def NothingLeft (s : State V) : Prop :=
  ∀ r ∈ s.ended, (∀ msg ∈ s.inbox ++ s.received, msg.requestId ≠ r) → Forgotten s r

/-- A message that brings a request. -/
def Message.isNew : Message V → Bool
  | .newRequest _ => true
  | _ => false

/-- No piece of the loop touches an ended request, unless the request is still known as aborted
or is still found. -/
def Action.Tidy (cfg : Config V) (s : State V) : Action V → Prop
  | .handle => ∀ msg ∈ s.received.head?, msg.isNew = false → msg.requestId ∈ s.ended →
      msg.requestId ∈ s.aborted.ids ∨ s.finds msg.requestId
  | .process ready _ => ∀ payload ∈ s.staged.head?, (ready = false ∨ cfg.executor) →
      payload.requestId ∈ s.ended → payload.requestId ∈ s.aborted.ids
  | .runBatch requestIds => ∀ q ∈ requestIds, q ∉ s.ended
  | .emitStream requestIds => ∀ q ∈ requestIds, q ∈ s.ended → q ∈ s.finished ∨ q ∈ s.aborted.ids
  | _ => True

/-- A message that brings the request of an id. -/
def Message.brings (r : String) : Message V → Bool
  | .newRequest payload => payload.requestId = r
  | _ => false

/-- In how many places the payload or the request of an id is. -/
def State.held (s : State V) (r : String) : ℕ :=
  s.inbox.countP (Message.brings r) +
  s.received.countP (Message.brings r) +
  s.newReqs.countP (fun payload => payload.requestId = r) +
  s.staged.countP (fun payload => payload.requestId = r) +
  s.backlog.countP (fun payload => payload.requestId = r) +
  s.deferredRequestPayloads.countP (fun payload => payload.requestId = r) +
  s.pendingRequestBuilds.countP (fun build => build.1.requestId = r) +
  s.admitted.count r

/-- What holds in every run whose steps are tidy. -/
structure Sound (s : State V) : Prop where
  unique : ∀ r, s.held r ≤ 1
  fresh : ∀ r, r ∉ s.submitted → s.held r = 0
  dirty : ∀ r ∈ s.dirtyDeferredRequestIds, ∃ payload ∈ s.deferredRequestPayloads,
    payload.requestId = r
  resident : ∀ q, q ∈ s.batched ∨ q ∈ s.waitingQueue → q ∈ s.admitted
  aborted : ∀ r ∈ s.aborted.ids, r ∈ s.ended
  finished : ∀ r ∈ s.finished, r ∈ s.ended
  found : ∀ r ∈ s.admitted, r ∈ s.ended ∨ s.finds r
  handed : ∀ r ∈ s.admitted, (∀ entry ∈ s.pendingStreamChunks, entry.1 ≠ r) ∧
    r ∉ s.pendingStreamDone
  forgotten : ∀ r ∈ s.ended, Forgotten s r

theorem sound_init : Sound (State.init V) where
  unique := by simp [State.init, State.held]
  fresh := by simp [State.init, State.held]
  dirty := by simp [State.init]
  resident := by simp [State.init]
  aborted := by simp [State.init]
  finished := by simp [State.init]
  found := by simp [State.init]
  handed := by simp [State.init]
  forgotten := by simp [State.init]

section Steps

variable {cfg : Config V} {s t : State V} {requestId : String} {payload : Payload V}

theorem finds_iff : s.finds r = true ↔ r ∈ s.batched ∨ r ∈ s.waitingQueue := by
  simp [State.finds]

theorem countP_filter_le {α : Type} (p q : α → Bool) (l : List α) :
    (l.filter q).countP p ≤ l.countP p :=
  List.Sublist.countP_le filter_sublist

theorem Sound.elsewhere (h : Sound s) (hr : r ∈ s.admitted) :
    (∀ payload ∈ s.deferredRequestPayloads, payload.requestId ≠ r) ∧
      ∀ build ∈ s.pendingRequestBuilds, build.1.requestId ≠ r := by
  have hone := h.unique r
  have hcount := count_pos_iff.mpr hr
  unfold State.held at hone
  constructor
  · intro payload hmem heq
    have hpos : 0 < s.deferredRequestPayloads.countP fun payload => payload.requestId = r :=
      countP_pos_iff.mpr ⟨payload, hmem, decide_eq_true heq⟩
    omega
  · intro build hmem heq
    have hpos : 0 < s.pendingRequestBuilds.countP fun build => build.1.requestId = r :=
      countP_pos_iff.mpr ⟨build, hmem, decide_eq_true heq⟩
    omega

theorem refuse_eq : refuse s requestId = abort s requestId true := by
  simp [refuse, abort]

theorem held_abort (deferCleanup : Bool) (r : String) :
    (abort s requestId deferCleanup).held r ≤ s.held r := by
  refine Nat.add_le_add_right (Nat.add_le_add (Nat.add_le_add (Nat.add_le_add
    (Nat.add_le_add_right (Nat.add_le_add_right (Nat.add_le_add_right ?_ _) _) _) ?_) ?_) ?_) _
  all_goals exact countP_filter_le _ _ _

theorem Sound.abort (h : Sound s) (deferCleanup : Bool) :
    Sound (abort s requestId deferCleanup) where
  unique r := (held_abort deferCleanup r).trans (h.unique r)
  fresh r hr := Nat.le_zero.mp ((held_abort deferCleanup r).trans (h.fresh r hr).le)
  dirty r hr := by
    obtain ⟨hne, hmem⟩ := Finset.mem_erase.mp hr
    obtain ⟨payload, hpayload, heq⟩ := h.dirty r hmem
    exact ⟨payload, mem_filter.mpr ⟨hpayload, by simp [heq, hne]⟩, heq⟩
  resident q hq := by
    refine h.resident q (hq.imp (fun hbatched => ?_) fun hwaiting =>
      (mem_filter.mp hwaiting).1)
    simp only [Leftovers.abort] at hbatched
    split at hbatched
    · exact hbatched
    · exact (mem_filter.mp hbatched).1
  aborted r hr := by
    by_cases hne : r = requestId
    · exact hne ▸ Finset.mem_insert_self _ _
    · exact Finset.mem_insert_of_mem (h.aborted r (mem_of_mem_add hr hne))
  finished r hr := Finset.mem_insert_of_mem (h.finished r hr)
  found r hr := by
    by_cases hne : r = requestId
    · exact Or.inl (hne ▸ Finset.mem_insert_self _ _)
    · refine (h.found r hr).imp (Finset.mem_insert_of_mem) fun hfinds => ?_
      rw [finds_iff] at hfinds ⊢
      simp only [Leftovers.abort]
      refine hfinds.imp (fun hbatched => ?_) fun hwaiting =>
        mem_filter.mpr ⟨hwaiting, decide_eq_true hne⟩
      split
      · exact hbatched
      · exact mem_filter.mpr ⟨hbatched, decide_eq_true hne⟩
  handed r hr := by
    obtain ⟨hchunks, hdone⟩ := h.handed r hr
    exact ⟨fun entry hentry => hchunks entry (mem_filter.mp hentry).1,
      fun hmem => hdone (Finset.mem_of_mem_erase hmem)⟩
  forgotten r hr := by
    rcases Finset.mem_insert.mp hr with rfl | hold
    · exact
        { chunks := fun entry hentry => of_decide_eq_true (mem_filter.mp hentry).2
          done := Finset.notMem_erase r _
          deferred := fun payload hmem => of_decide_eq_true (mem_filter.mp hmem).2
          dirty := Finset.notMem_erase r _
          builds := fun build hmem => of_decide_eq_true (mem_filter.mp hmem).2
          firstEmit := Finset.notMem_erase r _
          prefillStart := Finset.notMem_erase r _ }
    · have hforgotten := h.forgotten r hold
      exact
        { chunks := fun entry hentry => hforgotten.chunks entry (mem_filter.mp hentry).1
          done := fun hmem => hforgotten.done (Finset.mem_of_mem_erase hmem)
          deferred := fun payload hmem => hforgotten.deferred payload (mem_filter.mp hmem).1
          dirty := fun hmem => hforgotten.dirty (Finset.mem_of_mem_erase hmem)
          builds := fun build hmem => hforgotten.builds build (mem_filter.mp hmem).1
          firstEmit := fun hmem => hforgotten.firstEmit (Finset.mem_of_mem_erase hmem)
          prefillStart := fun hmem => hforgotten.prefillStart (Finset.mem_of_mem_erase hmem) }

/-- The messages and payloads in hand do not matter, as long as none is added. -/
theorem Sound.of_lists (h : Sound s) {inbox received : List (Message V)}
    {newReqs staged backlog : List (Payload V)}
    (hheld : ∀ r, ({ s with
      inbox := inbox, received := received, newReqs := newReqs, staged := staged
      backlog := backlog } : State V).held r ≤ s.held r) :
    Sound { s with
      inbox := inbox, received := received, newReqs := newReqs, staged := staged
      backlog := backlog } :=
  { h with
    unique := fun r => (hheld r).trans (h.unique r)
    fresh := fun r hr => Nat.le_zero.mp ((hheld r).trans (h.fresh r hr).le)
    forgotten := fun r hr => { h.forgotten r hr with } }

theorem Sound.arrive (h : Sound s) {msg : Message V}
    (hstep : step cfg s (.arrive msg) = some t) : Sound t := by
  cases msg with
  | newRequest payload =>
    simp only [step] at hstep
    split at hstep
    · cases hstep
    next hnew =>
      cases hstep
      have hheld (r : String) : ({ s with
          inbox := s.inbox ++ [.newRequest payload]
          submitted := insert payload.requestId s.submitted } : State V).held r =
            s.held r + if payload.requestId = r then 1 else 0 := by
        simp only [State.held, countP_append, countP_singleton, Message.brings,
          decide_eq_true_eq]
        omega
      refine
        { h with
          unique := fun r => ?_
          fresh := fun r hr => ?_
          forgotten := fun r hr => { h.forgotten r hr with } }
      · rw [hheld]
        split
        next heq => rw [h.fresh r (heq ▸ hnew)]
        next => exact h.unique r
      · rw [hheld, if_neg fun heq => hr (Finset.mem_insert.mpr (Or.inl heq.symm))]
        exact h.fresh r fun hmem => hr (Finset.mem_insert_of_mem hmem)
  | streamChunk requestId chunk =>
    cases hstep
    exact h.of_lists fun r => by simp [State.held, Message.brings]
  | streamDone requestId =>
    cases hstep
    exact h.of_lists fun r => by simp [State.held, Message.brings]

theorem Sound.take (h : Sound s) (hstep : step cfg s .take = some t) : Sound t := by
  simp only [step] at hstep
  split at hstep
  next msg rest hinbox =>
    cases hstep
    refine h.of_lists fun r => ?_
    simp only [State.held, hinbox, countP_append, countP_cons, countP_nil]
    omega
  next => cases hstep

theorem Sound.onStreamChunk (h : Sound s) {chunk : V}
    (hlive : requestId ∈ s.ended → s.finds requestId) :
    Sound (onStreamChunk cfg s requestId chunk) := by
  unfold Leftovers.onStreamChunk
  split
  · exact h
  next hfinds =>
    have hended : requestId ∉ s.ended := fun hmem => hfinds (hlive hmem)
    refine
      { h with
        dirty := fun r hr => ?_
        handed := fun r hr => ⟨fun entry hentry => ?_, (h.handed r hr).2⟩
        forgotten := fun r hr =>
          { h.forgotten r hr with
            chunks := fun entry hentry => ?_
            dirty := fun hmem => ?_ } }
    · split at hr
      next hdefers =>
        rcases Finset.mem_insert.mp hr with rfl | hold
        · obtain ⟨payload, hpayload, heq⟩ := any_eq_true.mp (Bool.and_eq_true_iff.mp hdefers).1
          exact ⟨payload, hpayload, of_decide_eq_true heq⟩
        · exact h.dirty r hold
      next => exact h.dirty r hr
    · rcases mem_append.mp hentry with hold | hnew
      · exact (h.handed r hr).1 entry hold
      · rw [mem_singleton.mp hnew]
        rintro rfl
        exact (h.found _ hr).elim hended hfinds
    · rcases mem_append.mp hentry with hold | hnew
      · exact (h.forgotten r hr).chunks entry hold
      · rw [mem_singleton.mp hnew]
        rintro rfl
        exact hended hr
    · have hne : r ≠ requestId := fun heq => hended (heq ▸ hr)
      split at hmem
      · exact (h.forgotten r hr).dirty ((Finset.mem_insert.mp hmem).resolve_left hne)
      · exact (h.forgotten r hr).dirty hmem

theorem Sound.onStreamDone (h : Sound s) (hlive : requestId ∈ s.ended → s.finds requestId) :
    Sound (onStreamDone s requestId) := by
  unfold Leftovers.onStreamDone
  split
  · exact h
  next hfinds =>
    have hended : requestId ∉ s.ended := fun hmem => hfinds (hlive hmem)
    refine
      { h with
        dirty := fun r hr => ?_
        handed := fun r hr => ⟨(h.handed r hr).1, fun hmem => ?_⟩
        forgotten := fun r hr =>
          { h.forgotten r hr with
            done := fun hmem => ?_
            dirty := fun hmem => ?_ } }
    · split at hr
      next hdefers =>
        rcases Finset.mem_insert.mp hr with rfl | hold
        · obtain ⟨payload, hpayload, heq⟩ := any_eq_true.mp hdefers
          exact ⟨payload, hpayload, of_decide_eq_true heq⟩
        · exact h.dirty r hold
      next => exact h.dirty r hr
    · rcases Finset.mem_insert.mp hmem with rfl | hold
      · exact (h.found _ hr).elim hended hfinds
      · exact (h.handed r hr).2 hold
    · rcases Finset.mem_insert.mp hmem with rfl | hold
      · exact hended hr
      · exact (h.forgotten r hr).done hold
    · have hne : r ≠ requestId := fun heq => hended (heq ▸ hr)
      split at hmem
      · exact (h.forgotten r hr).dirty ((Finset.mem_insert.mp hmem).resolve_left hne)
      · exact (h.forgotten r hr).dirty hmem

theorem Sound.handle (h : Sound s) (hok : (Action.handle : Action V).Tidy cfg s)
    (hstep : step cfg s .handle = some t) : Sound t := by
  simp only [step] at hstep
  split at hstep
  next msg rest hreceived =>
    cases hstep
    have hdropped : Sound { s with received := rest } := by
      refine h.of_lists fun r => ?_
      simp only [State.held, hreceived, countP_cons]
      omega
    have hlive (hnew : msg.isNew = false) (hnot : msg.requestId ∉ s.aborted.ids)
        (hended : msg.requestId ∈ s.ended) : s.finds msg.requestId := by
      have hmsg := hok msg (by rw [hreceived]; rfl) hnew hended
      exact hmsg.resolve_left hnot
    unfold Leftovers.handle
    split
    · exact hdropped
    next hnot =>
      cases msg with
      | newRequest payload =>
        refine h.of_lists fun r => ?_
        simp only [State.held, hreceived, countP_cons, countP_append, countP_nil,
          Message.brings, decide_eq_true_eq]
        omega
      | streamChunk requestId chunk => exact hdropped.onStreamChunk (hlive rfl hnot)
      | streamDone requestId => exact hdropped.onStreamDone (hlive rfl hnot)
  next => cases hstep

theorem Sound.takeDeferred (h : Sound s) (hstep : step cfg s .takeDeferred = some t) :
    Sound t := by
  cases hstep
  have hheld (r : String) : ({ s with
      newReqs := s.newReqs ++ s.deferredRequestPayloads.filter fun payload =>
        payload.requestId ∈ s.dirtyDeferredRequestIds
      deferredRequestPayloads := s.deferredRequestPayloads.filter fun payload =>
        !decide (payload.requestId ∈ s.dirtyDeferredRequestIds)
      dirtyDeferredRequestIds := ∅ } : State V).held r = s.held r := by
    have hsplit := countP_eq_countP_filter_add s.deferredRequestPayloads
      (fun payload => payload.requestId = r)
      (fun payload => payload.requestId ∈ s.dirtyDeferredRequestIds)
    simp only [State.held, countP_append]
    omega
  exact
    { h with
      unique := fun r => (hheld r).le.trans (h.unique r)
      fresh := fun r hr => (hheld r).trans (h.fresh r hr)
      dirty := fun r hr => absurd hr (Finset.notMem_empty r)
      forgotten := fun r hr =>
        { h.forgotten r hr with
          deferred := fun payload hmem =>
            (h.forgotten r hr).deferred payload (mem_filter.mp hmem).1
          dirty := Finset.notMem_empty r } }

theorem Sound.refuse (h : Sound s) : Sound (refuse s requestId) := by
  rw [refuse_eq]
  exact h.abort true

theorem Sound.stage (h : Sound s) {staging : Staging}
    (hstep : step cfg s (.stage staging) = some t) : Sound t := by
  simp only [step] at hstep
  split at hstep
  next payload rest hnew =>
    have hdropped : Sound { s with newReqs := rest } := by
      refine h.of_lists fun r => ?_
      simp only [State.held, hnew, countP_cons]
      omega
    have hstaged : Sound { s with newReqs := rest, staged := s.staged ++ [payload] } := by
      refine h.of_lists fun r => ?_
      simp only [State.held, hnew, countP_cons, countP_append, countP_nil]
      omega
    split at hstep
    · cases hstep
      exact hstaged
    · split at hstep
      · cases hstep
        exact hdropped
      · cases staging with
        | select =>
          cases hstep
          exact hstaged
        | keepBack =>
          cases hstep
          refine h.of_lists fun r => ?_
          simp only [State.held, hnew, countP_cons, countP_append, countP_nil]
          omega
        | reject =>
          cases hstep
          exact hdropped.refuse
  next => cases hstep

theorem Sound.unbacklog (h : Sound s) (hstep : step cfg s .unbacklog = some t) : Sound t := by
  simp only [step] at hstep
  split at hstep
  next payload rest hbacklog =>
    split at hstep
    · cases hstep
      refine h.of_lists fun r => ?_
      simp only [State.held, hbacklog, countP_cons]
      omega
    · cases hstep
      refine h.of_lists fun r => ?_
      simp only [State.held, hbacklog, countP_cons, countP_append, countP_nil]
      omega
  next => cases hstep

/-- Chunks and the end of a stream may be taken out of the maps. -/
theorem Sound.of_streams (h : Sound s) (chunks : List (String × V)) (done : Finset String)
    (hchunks : ∀ entry ∈ chunks, entry ∈ s.pendingStreamChunks)
    (hdone : ∀ r ∈ done, r ∈ s.pendingStreamDone) :
    Sound { s with pendingStreamChunks := chunks, pendingStreamDone := done } :=
  { h with
    handed := fun r hr =>
      ⟨fun entry hentry => (h.handed r hr).1 entry (hchunks entry hentry),
        fun hmem => (h.handed r hr).2 (hdone r hmem)⟩
    forgotten := fun r hr =>
      { h.forgotten r hr with
        chunks := fun entry hentry => (h.forgotten r hr).chunks entry (hchunks entry hentry)
        done := fun hmem => (h.forgotten r hr).done (hdone r hmem) } }

/-- A request that is nowhere else is built, and waits. -/
theorem Sound.enqueueBuilt (h : Sound s) (hnone : s.held requestId = 0)
    (hsubmitted : requestId ∈ s.submitted) {refused : Bool} :
    Sound (enqueueBuiltRequest s requestId pendingStreamDone refused) := by
  have hdeferred : (s.deferredRequestPayloads.filter fun payload =>
      payload.requestId ≠ requestId) = s.deferredRequestPayloads := by
    refine filter_eq_self.mpr fun payload hmem => decide_eq_true fun heq => ?_
    have hpos : 0 < s.deferredRequestPayloads.countP fun payload =>
        payload.requestId = requestId :=
      countP_pos_iff.mpr ⟨payload, hmem, decide_eq_true heq⟩
    unfold State.held at hnone
    omega
  have hdone : ∀ r ∈ (if pendingStreamDone then s.pendingStreamDone.erase requestId
      else s.pendingStreamDone), r ∈ s.pendingStreamDone := by
    intro r hr
    split at hr
    · exact Finset.mem_of_mem_erase hr
    · exact hr
  unfold enqueueBuiltRequest
  simp only [hdeferred]
  split
  · exact (h.of_streams _ _ (fun _ => id) hdone).refuse
  · have hcut := h.of_streams
      (s.pendingStreamChunks.filter fun entry => entry.1 ≠ requestId)
      ((if pendingStreamDone then s.pendingStreamDone.erase requestId
        else s.pendingStreamDone).erase requestId)
      (fun entry hentry => (mem_filter.mp hentry).1)
      (fun r hr => hdone r (Finset.mem_of_mem_erase hr))
    split
    · exact hcut
    · have hheld (r : String) : ({ s with
          admitted := s.admitted ++ [requestId] } : State V).held r =
            s.held r + if requestId = r then 1 else 0 := by
        simp only [State.held, count_append, count_singleton, beq_iff_eq]
        omega
      refine
        { hcut with
          unique := fun r => ?_
          fresh := fun r hr => ?_
          resident := fun q hq => ?_
          found := fun r hr => ?_
          handed := fun r hr => ?_
          forgotten := fun r hr => { hcut.forgotten r hr with } }
      · refine (hheld r).le.trans ?_
        split
        next heq => rw [← heq, hnone]
        next => exact h.unique r
      · refine (hheld r).trans ?_
        rw [if_neg (show requestId ≠ r from fun heq => hr (heq ▸ hsubmitted))]
        exact h.fresh r hr
      · rcases hq with hbatched | hwaiting
        · exact mem_append_left _ (h.resident q (Or.inl hbatched))
        · rcases mem_append.mp hwaiting with hold | hnew
          · exact mem_append_left _ (h.resident q (Or.inr hold))
          · exact mem_append_right _ hnew
      · rcases mem_append.mp hr with hold | hnew
        · refine (h.found r hold).imp_right fun hfinds => ?_
          rw [finds_iff] at hfinds ⊢
          exact hfinds.imp_right (mem_append_left _)
        · exact Or.inr (finds_iff.mpr (Or.inr (mem_append_right _ hnew)))
      · rcases mem_append.mp hr with hold | hnew
        · exact hcut.handed r hold
        · rw [mem_singleton.mp hnew]
          exact ⟨fun entry hentry => of_decide_eq_true (mem_filter.mp hentry).2,
            Finset.notMem_erase requestId _⟩

variable {outcome : BuildOutcome}

theorem Sound.buildDone (h : Sound s) (hnone : s.held requestId = 0)
    (hsubmitted : requestId ∈ s.submitted) :
    Sound (buildDone s requestId pendingStreamDone outcome) := by
  cases outcome with
  | failed => exact h.refuse
  | built refused => exact h.enqueueBuilt hnone hsubmitted

/-- A payload that has been taken from a list is in no other place. -/
theorem Sound.held_rest (h : Sound s) (hheld : t.held requestId + 1 = s.held requestId) :
    t.held requestId = 0 ∧ requestId ∈ s.submitted := by
  have hone := h.unique requestId
  refine ⟨by omega, ?_⟩
  by_contra hnot
  have hzero := h.fresh requestId hnot
  omega

theorem Sound.defer (h : Sound s) (hnone : s.held payload.requestId = 0)
    (hsubmitted : payload.requestId ∈ s.submitted) (hended : payload.requestId ∉ s.ended) :
    Sound { s with deferredRequestPayloads := s.deferredRequestPayloads ++ [payload] } := by
  have hheld (r : String) : ({ s with
      deferredRequestPayloads := s.deferredRequestPayloads ++ [payload] } : State V).held r =
        s.held r + if payload.requestId = r then 1 else 0 := by
    simp only [State.held, countP_append, countP_singleton, decide_eq_true_eq]
    omega
  refine
    { h with
      unique := fun r => ?_
      fresh := fun r hr => ?_
      dirty := fun r hr => ?_
      forgotten := fun r hr => { h.forgotten r hr with deferred := fun other hmem => ?_ } }
  · rw [hheld]
    split
    next heq => rw [← heq, hnone]
    next => exact h.unique r
  · rw [hheld, if_neg (show payload.requestId ≠ r from fun heq => hr (heq ▸ hsubmitted))]
    exact h.fresh r hr
  · obtain ⟨other, hmem, heq⟩ := h.dirty r hr
    exact ⟨other, mem_append_left _ hmem, heq⟩
  · rcases mem_append.mp hmem with hold | hnew
    · exact (h.forgotten r hr).deferred other hold
    · rw [mem_singleton.mp hnew]
      exact fun heq => hended (heq ▸ hr)

/-- So it is given to the executor. -/
theorem Sound.submit (h : Sound s) (hnone : s.held payload.requestId = 0)
    (hsubmitted : payload.requestId ∈ s.submitted) (hended : payload.requestId ∉ s.ended) :
    Sound { s with
      pendingRequestBuilds := s.pendingRequestBuilds ++ [(payload, pendingStreamDone)] } := by
  have hheld (r : String) : ({ s with
      pendingRequestBuilds := s.pendingRequestBuilds ++ [(payload, pendingStreamDone)] } :
        State V).held r = s.held r + if payload.requestId = r then 1 else 0 := by
    simp only [State.held, countP_append, countP_singleton, decide_eq_true_eq]
    omega
  refine
    { h with
      unique := fun r => ?_
      fresh := fun r hr => ?_
      forgotten := fun r hr => { h.forgotten r hr with builds := fun build hmem => ?_ } }
  · rw [hheld]
    split
    next heq => rw [← heq, hnone]
    next => exact h.unique r
  · rw [hheld, if_neg (show payload.requestId ≠ r from fun heq => hr (heq ▸ hsubmitted))]
    exact h.fresh r hr
  · rcases mem_append.mp hmem with hold | hnew
    · exact (h.forgotten r hr).builds build hold
    · rw [mem_singleton.mp hnew]
      exact fun heq => hended (heq ▸ hr)

theorem Sound.process (h : Sound s) {ready : Bool}
    (hok : (Action.process ready outcome : Action V).Tidy cfg s)
    (hstep : step cfg s (.process ready outcome) = some t) : Sound t := by
  simp only [step] at hstep
  split at hstep
  next payload rest hstaged =>
    cases hstep
    have hheld : ({ s with staged := rest } : State V).held payload.requestId + 1 =
        s.held payload.requestId := by
      simp only [State.held, hstaged, countP_cons, decide_true, if_true]
      omega
    obtain ⟨hnone, hsubmitted⟩ := h.held_rest hheld
    have hdropped : Sound { s with staged := rest } := by
      refine h.of_lists fun r => ?_
      simp only [State.held, hstaged, countP_cons]
      omega
    unfold processPayload
    dsimp only
    split
    · exact hdropped
    next hfree =>
      have hlive (hkept : ready = false ∨ cfg.executor) : payload.requestId ∉ s.ended :=
        fun hended => hfree (Or.inl (hok payload (by rw [hstaged]; rfl) hkept hended))
      have hcut := hdropped.of_streams
        (s.pendingStreamChunks.filter fun entry => entry.1 ≠ payload.requestId)
        s.pendingStreamDone (fun entry hentry => (mem_filter.mp hentry).1) (fun _ => id)
      cases ready with
      | false => exact hcut.defer hnone hsubmitted (hlive (Or.inl rfl))
      | true =>
        rw [if_neg (by decide)]
        split
        next hexecutor =>
          refine hcut.submit ?_ ?_ ?_
          · exact hnone
          · exact hsubmitted
          · exact hlive (Or.inr hexecutor)
        next => exact hcut.buildDone hnone hsubmitted
  next => cases hstep

theorem Sound.collect (h : Sound s) (hstep : step cfg s (.collect outcome) = some t) : Sound t := by
  simp only [step] at hstep
  split at hstep
  next payload pendingStreamDone rest hbuilds =>
    have hheld : ({ s with pendingRequestBuilds := rest } : State V).held payload.requestId + 1 =
        s.held payload.requestId := by
      simp only [State.held, hbuilds, countP_cons, decide_true, if_true]
      omega
    obtain ⟨hnone, hsubmitted⟩ := h.held_rest hheld
    have hle (r : String) : ({ s with pendingRequestBuilds := rest } : State V).held r ≤
        s.held r := by
      simp only [State.held, hbuilds, countP_cons]
      omega
    have hdropped : Sound { s with pendingRequestBuilds := rest } :=
      { h with
        unique := fun r => (hle r).trans (h.unique r)
        fresh := fun r hr => Nat.le_zero.mp ((hle r).trans (h.fresh r hr).le)
        forgotten := fun r hr =>
          { h.forgotten r hr with
            builds := fun build hmem => (h.forgotten r hr).builds build (by
              rw [hbuilds]
              exact mem_cons_of_mem _ hmem) } }
    split at hstep
    · cases hstep
      exact hdropped
    · cases hstep
      exact hdropped.buildDone hnone hsubmitted
  next => cases hstep

theorem Sound.select (h : Sound s) (hstep : step cfg s (.select requestId) = some t) :
    Sound t := by
  simp only [step] at hstep
  split at hstep
  next hwaiting =>
    cases hstep
    exact
      { h with
        resident := fun q hq => by
          rcases hq with hbatched | hrest
          · rcases mem_append.mp hbatched with hold | hnew
            · exact h.resident q (Or.inl hold)
            · rw [mem_singleton.mp hnew]
              exact h.resident requestId (Or.inr hwaiting)
          · exact h.resident q (Or.inr (mem_filter.mp hrest).1)
        found := fun r hr => by
          refine (h.found r hr).imp_right fun hfinds => ?_
          rw [finds_iff] at hfinds ⊢
          rcases hfinds with hbatched | hrest
          · exact Or.inl (mem_append_left _ hbatched)
          · by_cases hne : r = requestId
            · exact Or.inl (mem_append_right _ (mem_singleton.mpr hne))
            · exact Or.inr (mem_filter.mpr ⟨hrest, decide_eq_true hne⟩)
        forgotten := fun r hr => { h.forgotten r hr with } }
  next => cases hstep

theorem Sound.retract (h : Sound s) (hstep : step cfg s (.retract requestId) = some t) :
    Sound t := by
  simp only [step] at hstep
  split at hstep
  next hrunning =>
    cases hstep
    exact
      { h with
        resident := fun q hq => by
          rcases hq with hbatched | hrest
          · exact h.resident q (Or.inl (mem_filter.mp hbatched).1)
          · rcases mem_append.mp hrest with hold | hnew
            · exact h.resident q (Or.inr hold)
            · rw [mem_singleton.mp hnew]
              exact h.resident requestId (Or.inl hrunning.1)
        found := fun r hr => by
          refine (h.found r hr).imp_right fun hfinds => ?_
          rw [finds_iff] at hfinds ⊢
          rcases hfinds with hbatched | hrest
          · by_cases hne : r = requestId
            · exact Or.inr (mem_append_right _ (mem_singleton.mpr hne))
            · exact Or.inl (mem_filter.mpr ⟨hbatched, decide_eq_true hne⟩)
          · exact Or.inr (mem_append_left _ hrest)
        forgotten := fun r hr => { h.forgotten r hr with } }
  next => cases hstep

theorem Sound.leave (h : Sound s) (hstep : step cfg s (.leave requestId) = some t) :
    Sound t := by
  simp only [step] at hstep
  split at hstep
  next hfinished =>
    cases hstep
    exact
      { h with
        resident := fun q hq => h.resident q (hq.imp_left fun hmem => (mem_filter.mp hmem).1)
        found := fun r hr => by
          by_cases hne : r = requestId
          · exact Or.inl (hne ▸ h.finished requestId hfinished)
          · refine (h.found r hr).imp_right fun hfinds => ?_
            rw [finds_iff] at hfinds ⊢
            exact hfinds.imp_left fun hmem => mem_filter.mpr ⟨hmem, decide_eq_true hne⟩
        forgotten := fun r hr => { h.forgotten r hr with } }
  next => cases hstep

theorem Sound.runBatch (h : Sound s) (hok : (Action.runBatch requestIds : Action V).Tidy cfg s)
    (hstep : step cfg s (.runBatch requestIds) = some t) : Sound t := by
  simp only [step] at hstep
  split at hstep
  · cases hstep
    refine
      { h with
        forgotten := fun r hr =>
          { h.forgotten r hr with prefillStart := fun hmem => ?_ } }
    rcases Finset.mem_union.mp hmem with hold | hnew
    · exact (h.forgotten r hr).prefillStart hold
    · exact hok r (mem_toFinset.mp hnew) hr
  · cases hstep

theorem Sound.emitStream (h : Sound s) (hok : (Action.emitStream requestIds : Action V).Tidy cfg s)
    (hstep : step cfg s (.emitStream requestIds) = some t) : Sound t := by
  simp only [step] at hstep
  split at hstep
  · cases hstep
    refine
      { h with
        forgotten := fun r hr =>
          { h.forgotten r hr with firstEmit := fun hmem => ?_ } }
    rcases Finset.mem_union.mp hmem with hold | hnew
    · exact (h.forgotten r hr).firstEmit hold
    · obtain ⟨hids, hlive⟩ := mem_filter.mp (mem_toFinset.mp hnew)
      obtain ⟨hunfinished, hknown⟩ := of_decide_eq_true hlive
      exact (hok r hids hr).elim hunfinished hknown
  · cases hstep

theorem Sound.finish (h : Sound s) (hstep : step cfg s (.finish requestId) = some t) :
    Sound t := by
  simp only [step] at hstep
  split at hstep
  next hbatched =>
    cases hstep
    have hadmitted := h.resident requestId (Or.inl hbatched)
    obtain ⟨hdeferred, hbuilds⟩ := h.elsewhere hadmitted
    refine
      { h with
        aborted := fun r hr => Finset.mem_insert_of_mem (h.aborted r hr)
        finished := fun r hr => ?_
        found := fun r hr => (h.found r hr).imp_left Finset.mem_insert_of_mem
        forgotten := fun r hr => ?_ }
    · exact Finset.insert_subset_insert requestId h.finished hr
    · rcases Finset.mem_insert.mp hr with rfl | hold
      · obtain ⟨hchunks, hdone⟩ := h.handed r hadmitted
        exact
          { chunks := hchunks
            done := hdone
            deferred := hdeferred
            dirty := fun hmem => by
              obtain ⟨payload, hpayload, heq⟩ := h.dirty r hmem
              exact hdeferred payload hpayload heq
            builds := hbuilds
            firstEmit := Finset.notMem_erase r _
            prefillStart := Finset.notMem_erase r _ }
      · exact
          { h.forgotten r hold with
            firstEmit := fun hmem =>
              (h.forgotten r hold).firstEmit (Finset.mem_of_mem_erase hmem)
            prefillStart := fun hmem =>
              (h.forgotten r hold).prefillStart (Finset.mem_of_mem_erase hmem) }
  next => cases hstep

theorem Sound.batchFailure (h : Sound s)
    (hstep : step cfg s (.batchFailure requestId) = some t) : Sound t := by
  simp only [step] at hstep
  split at hstep
  · cases hstep
    have heq : Leftovers.abort { s with ended := insert requestId s.ended } requestId false =
        Leftovers.abort s requestId false := by
      simp [Leftovers.abort]
    rw [heq]
    exact h.abort false
  · cases hstep

theorem Sound.step {a : Action V} (h : Sound s) (hok : a.Tidy cfg s)
    (hstep : step cfg s a = some t) : Sound t := by
  cases a with
  | arrive msg => exact h.arrive hstep
  | abort requestId =>
    cases hstep
    exact h.abort true
  | take => exact h.take hstep
  | handle => exact h.handle hok hstep
  | takeDeferred => exact h.takeDeferred hstep
  | stage staging => exact h.stage hstep
  | unbacklog => exact h.unbacklog hstep
  | process ready outcome => exact h.process hok hstep
  | collect outcome => exact h.collect hstep
  | select requestId => exact h.select hstep
  | runBatch requestIds => exact h.runBatch hok hstep
  | emitStream requestIds => exact h.emitStream hok hstep
  | finish requestId => exact h.finish hstep
  | leave requestId => exact h.leave hstep
  | retract requestId => exact h.retract hstep
  | batchFailure requestId => exact h.batchFailure hstep

end Steps

instance (cfg : Config V) (s : State V) : ∀ a : Action V, Decidable (a.Tidy cfg s)
  | .handle => inferInstanceAs (Decidable (∀ msg ∈ s.received.head?, _ → _ → _))
  | .process _ _ => inferInstanceAs (Decidable (∀ payload ∈ s.staged.head?, _ → _ → _))
  | .runBatch requestIds => inferInstanceAs (Decidable (∀ q ∈ requestIds, _))
  | .emitStream requestIds => inferInstanceAs (Decidable (∀ q ∈ requestIds, _))
  | .arrive _ | .abort _ | .take | .takeDeferred | .stage _ | .unbacklog | .collect _
  | .select _ | .finish _ | .leave _ | .retract _ | .batchFailure _ =>
    inferInstanceAs (Decidable True)

/-- A configuration with an executor for the builds. -/
def withExecutor : Config ℕ := ⟨true, fun _ _ => true⟩

/-- A request whose first chunk comes before it. It is deferred until its stream has ended, gets
its result, and a chunk that comes late finds it in its batch; another one is aborted while it is
being built. -/
def orderlyStream : List (Action ℕ) :=
  [.arrive (.streamChunk "a" 7), .arrive (.newRequest ⟨"a", [], false⟩), .take, .take, .handle,
    .handle, .stage .select, .process false (.built false), .arrive (.streamDone "a"), .take,
    .handle, .takeDeferred, .stage .select, .process true (.built false), .collect (.built false),
    .select "a", .runBatch ["a"], .emitStream ["a"], .finish "a", .arrive (.streamChunk "a" 8),
    .take, .handle, .leave "a", .arrive (.newRequest ⟨"b", [], false⟩), .take, .handle,
    .stage .select, .process true (.built false), .abort "b", .arrive (.streamChunk "b" 9), .take,
    .handle]

end Omni.Scheduler.Leftovers
