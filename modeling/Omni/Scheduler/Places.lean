import Omni.Scheduler.Alignment

/-!
# Where requests can be

A request that is being served is in the waiting queue, half prefilled, or in a batch that
something refers to. The pieces of the loop move requests between these places. A request
that has left all of them does not come back, and only requests in a place get results.
-/

namespace Omni.Scheduler

open Omni.Transition Function List Option

variable {V : Type} {P : OutgoingMessage → Prop} {batch : Option ℕ} {q : ℕ}

/-- The batches that the loop or a launched step refers to. -/
def State.refs (s : State V) : List ℕ := s.loopBatches ++ s.pendings.map PendingStep.batch

/-- The request is in one of the places. -/
def Present (s : State V) (q : ℕ) : Prop :=
  q ∈ s.waitingQueue ∨ s.chunkedReq = some q ∨ ∃ b ∈ s.refs, q ∈ (s.batches b).reqs

theorem not_present_init (isEntryRank : Bool) (q : ℕ) :
    ¬Present (State.init V isEntryRank) q := by
  rintro (hq | hq | ⟨b, _, hq⟩)
  · simp [State.init] at hq
  · simp [State.init] at hq
  · simp [State.init, Batch.empty] at hq

/-- The batches of launched steps are copies, which the loop does not refer to. -/
structure Apart (s : State V) : Prop where
  loopBatches_lt : ∀ b ∈ s.loopBatches, b < s.batchCount
  pendings : ∀ pending ∈ s.pendings, pending.batch < s.batchCount ∧ pending.batch ∉ s.loopBatches

theorem apart_init (isEntryRank : Bool) : Apart (State.init V isEntryRank) :=
  ⟨(sound_init isEntryRank).loopBatches_lt, (sound_init isEntryRank).pendings⟩

/-- What all pieces of the loop do but the launches: requests move between places, old batches
that the loop does not refer to get no requests, and no steps are launched. -/
structure Moves (s t : State V) : Prop where
  reqCount : t.reqCount = s.reqCount
  batchCount : s.batchCount ≤ t.batchCount
  loopBatches : ∀ b ∈ t.loopBatches, b ∈ s.loopBatches ∨ s.batchCount ≤ b ∧ b < t.batchCount
  pendings : ∀ pending ∈ t.pendings, pending ∈ s.pendings
  shrinks : ∀ b < s.batchCount, b ∉ s.loopBatches → ∀ q ∈ (t.batches b).reqs, q ∈ (s.batches b).reqs
  within : ∀ q, Present t q → Present s q

namespace Moves

variable {s t u : State V}

theorem trans (h : Moves s t) (k : Moves t u) : Moves s u where
  reqCount := k.reqCount.trans h.reqCount
  batchCount := h.batchCount.trans k.batchCount
  loopBatches b hb := by
    rcases k.loopBatches b hb with hb | ⟨hle, hlt⟩
    · rcases h.loopBatches b hb with hb | ⟨hle, hlt⟩
      · exact Or.inl hb
      · exact Or.inr ⟨hle, hlt.trans_le k.batchCount⟩
    · exact Or.inr ⟨h.batchCount.trans hle, hlt⟩
  pendings pending hp := h.pendings pending (k.pendings pending hp)
  shrinks b hlt hb := by
    have hb' : b ∉ t.loopBatches := by
      intro hmem
      rcases h.loopBatches b hmem with hold | ⟨hle, _⟩
      · exact hb hold
      · omega
    exact fun q hq => h.shrinks b hlt hb q (k.shrinks b (hlt.trans_le h.batchCount) hb' q hq)
  within q hq := h.within q (k.within q hq)

/-- Fewer references, with batches that have fewer requests. -/
theorem of_refs (hwaiting : ∀ q ∈ t.waitingQueue, q ∈ s.waitingQueue)
    (hchunked : t.chunkedReq = s.chunkedReq) (hreqs : t.reqCount = s.reqCount)
    (hcount : t.batchCount = s.batchCount) (hloop : ∀ b ∈ t.loopBatches, b ∈ s.loopBatches)
    (hpendings : ∀ pending ∈ t.pendings, pending ∈ s.pendings)
    (hbatches : ∀ b, ∀ q ∈ (t.batches b).reqs, q ∈ (s.batches b).reqs) : Moves s t where
  reqCount := hreqs
  batchCount := hcount.ge
  loopBatches b hb := Or.inl (hloop b hb)
  pendings := hpendings
  shrinks b _ _ := hbatches b
  within q hq := by
    rcases hq with hq | hq | ⟨b, hb, hq⟩
    · exact Or.inl (hwaiting q hq)
    · exact Or.inr (Or.inl (hchunked ▸ hq))
    · refine Or.inr (Or.inr ⟨b, ?_, hbatches b q hq⟩)
      rcases mem_append.mp hb with hb | hb
      · exact mem_append_left _ (hloop b hb)
      · obtain ⟨pending, hp, rfl⟩ := mem_map.mp hb
        exact mem_append_right _ (mem_map_of_mem (hpendings pending hp))

theorem refl (s : State V) : Moves s s :=
  .of_refs (fun _ hq => hq) rfl rfl rfl (fun _ hb => hb) (fun _ hp => hp) fun _ _ hq => hq

theorem of_same (h : SameBatches s t) (hwaiting : ∀ q ∈ t.waitingQueue, q ∈ s.waitingQueue)
    (hchunked : t.chunkedReq = s.chunkedReq) (hreqs : t.reqCount = s.reqCount) : Moves s t := by
  refine .of_refs hwaiting hchunked hreqs h.batchCount (fun b hb => h.loopBatches ▸ hb)
    (fun pending hp => ?_) fun b q hq => by rwa [h.batches] at hq
  unfold State.pendings at hp ⊢
  rwa [h.asyncPending, h.point] at hp

end Moves

variable {s t : State V}

/-- What moves keeps launched batches apart. -/
theorem Apart.moves (h : Apart s) (hmoves : Moves s t) : Apart t where
  loopBatches_lt b hb := by
    rcases hmoves.loopBatches b hb with hb | ⟨_, hlt⟩
    · exact (h.loopBatches_lt b hb).trans_le hmoves.batchCount
    · exact hlt
  pendings pending hp := by
    obtain ⟨hlt, hnot⟩ := h.pendings pending (hmoves.pendings pending hp)
    refine ⟨hlt.trans_le hmoves.batchCount, fun hb => ?_⟩
    rcases hmoves.loopBatches _ hb with hb | ⟨hle, _⟩
    · exact hnot hb
    · omega

/-- The waiting queue, the half-prefilled request and the outbox are as before. -/
structure SameQueues (s t : State V) : Prop where
  waitingQueue : t.waitingQueue = s.waitingQueue
  chunkedReq : t.chunkedReq = s.chunkedReq
  outbox : t.outbox = s.outbox
  reqCount : t.reqCount = s.reqCount

/-- The outbox has grown by messages with a property. -/
def Emits (P : OutgoingMessage → Prop) (s t : State V) : Prop :=
  ∃ new, t.outbox = s.outbox ++ new ∧ ∀ message ∈ new, P message

theorem Emits.refl (h : t.outbox = s.outbox) :
    Emits P s t := ⟨[], by rw [h, append_nil], by simp⟩

theorem Emits.trans {u : State V} (h : Emits P s t) (k : Emits P t u) : Emits P s u := by
  obtain ⟨first, hfirst, hP⟩ := h
  obtain ⟨second, hsecond, hP'⟩ := k
  refine ⟨first ++ second, by rw [hsecond, hfirst, append_assoc], fun message hm => ?_⟩
  rcases mem_append.mp hm with hm | hm
  · exact hP message hm
  · exact hP' message hm

theorem Emits.mono {Q : OutgoingMessage → Prop} (h : Emits P s t)
    (himp : ∀ message, P message → Q message) : Emits Q s t := by
  obtain ⟨new, hnew, hP⟩ := h
  exact ⟨new, hnew, fun message hm => himp message (hP message hm)⟩

namespace SameQueues

variable {s t u : State V}

theorem refl (s : State V) : SameQueues s s := ⟨rfl, rfl, rfl, rfl⟩

theorem trans (h : SameQueues s t) (k : SameQueues t u) : SameQueues s u :=
  ⟨k.waitingQueue.trans h.waitingQueue, k.chunkedReq.trans h.chunkedReq,
    k.outbox.trans h.outbox, k.reqCount.trans h.reqCount⟩

/-- Folding operations that keep the queues. -/
theorem foldl {α : Type} {f : State V → α → State V} (hf : ∀ s a, SameQueues s (f s a))
    (s : State V) (as : List α) : SameQueues s (as.foldl f s) := by
  induction as generalizing s with
  | nil => exact .refl s
  | cons a as ih => exact (hf s a).trans (ih (f s a))

theorem moves (h : SameQueues s t) (hsame : SameBatches s t) : Moves s t :=
  .of_same hsame (fun q hq => by rwa [h.waitingQueue] at hq) h.chunkedReq h.reqCount

end SameQueues

theorem sameQueues_release (s : State V) (q : ℕ) :
    SameQueues s (releaseRequestKvCache s q) := by
  unfold releaseRequestKvCache
  split <;> exact ⟨rfl, rfl, rfl, rfl⟩

theorem sameQueues_finish (s : State V) (q : ℕ) : SameQueues s (finishRequest s q) := by
  have hupdate : SameQueues s (s.updateReq q fun req => { req with finished := true }) :=
    ⟨rfl, rfl, rfl, rfl⟩
  exact hupdate.trans (sameQueues_release _ q)

theorem sameQueues_retract (s : State V) (q : ℕ) : SameQueues s (retractRequest s q) := by
  have hupdate : SameQueues (releaseRequestKvCache s q) (retractRequest s q) :=
    ⟨rfl, rfl, rfl, rfl⟩
  exact (sameQueues_release s q).trans hupdate

/-- A message that is no result. -/
def NoResult (message : OutgoingMessage) : Prop :=
  ∀ requestId q, message ≠ .result requestId q

/-- If the message is a result, the request has the property. -/
def ResultOf (P : ℕ → Prop) (message : OutgoingMessage) : Prop :=
  ∀ requestId q, message = .result requestId q → P q

theorem emits_error (s : State V) (r error : String) :
    Emits NoResult s (emitRequestError s r error) := by
  unfold emitRequestError
  split
  · exact ⟨[.error r error], rfl, by simp [NoResult]⟩
  · exact .refl rfl

/-- `stream_output` leaves the queues alone and gives results to its request only. -/
theorem emits_streamOutput (adapterError : ℕ → Option String) (s : State V) (q : ℕ) :
    (streamOutput adapterError s q).waitingQueue = s.waitingQueue ∧
      (streamOutput adapterError s q).chunkedReq = s.chunkedReq ∧
      (streamOutput adapterError s q).reqCount = s.reqCount ∧
      Emits (ResultOf (· = q)) s (streamOutput adapterError s q) := by
  unfold streamOutput emitResult emitRequestError
  split
  · split
    · exact ⟨rfl, rfl, rfl, .refl rfl⟩
    · split
      · split
        · exact ⟨rfl, rfl, rfl, _, rfl, by simp [ResultOf]⟩
        · exact ⟨rfl, rfl, rfl, .refl rfl⟩
      · exact ⟨rfl, rfl, rfl, _, rfl, by simp [ResultOf, eq_comm]⟩
  · exact ⟨rfl, rfl, rfl, .refl rfl⟩

/-- `process_batch_result` leaves the places alone and gives results to the processed requests
only. -/
theorem moves_process (s : State V) (reqs finished : List ℕ) (adapterError : ℕ → Option String) :
    Moves s (processBatchResult s reqs finished adapterError) ∧
      (processBatchResult s reqs finished adapterError).waitingQueue = s.waitingQueue ∧
      (processBatchResult s reqs finished adapterError).chunkedReq = s.chunkedReq ∧
      Emits (ResultOf (· ∈ reqs)) s (processBatchResult s reqs finished adapterError) := by
  have hsame := sameBatches_process s reqs finished adapterError
  unfold processBatchResult at hsame ⊢
  generalize (reqs.filter fun q => q ∈ finished ∧ (s.reqs q).finished = false) = finishing
    at hsame ⊢
  have hfinish := SameQueues.foldl sameQueues_finish s finishing
  have hstream : ∀ (qs : List ℕ) (u : State V), (∀ q ∈ qs, q ∈ reqs) →
      (qs.foldl (streamOutput adapterError) u).waitingQueue = u.waitingQueue ∧
        (qs.foldl (streamOutput adapterError) u).chunkedReq = u.chunkedReq ∧
        (qs.foldl (streamOutput adapterError) u).reqCount = u.reqCount ∧
        Emits (ResultOf (· ∈ reqs)) u (qs.foldl (streamOutput adapterError) u) := by
    intro qs
    induction qs with
    | nil => exact fun u _ => ⟨rfl, rfl, rfl, .refl rfl⟩
    | cons q qs ih =>
      intro u hqs
      obtain ⟨hwaiting, hchunked, hcount, hemits⟩ := emits_streamOutput adapterError u q
      obtain ⟨hwaiting', hchunked', hcount', hemits'⟩ := ih (streamOutput adapterError u q)
        fun p hp => hqs p (mem_cons_of_mem q hp)
      refine ⟨hwaiting'.trans hwaiting, hchunked'.trans hchunked, hcount'.trans hcount,
        .trans (hemits.mono ?_) hemits'⟩
      intro message hm r p hp
      exact hm r p hp ▸ hqs q mem_cons_self
  obtain ⟨hwaiting, hchunked, hcount, hemits⟩ := hstream reqs (finishing.foldl finishRequest s)
    fun _ hq => hq
  have hwaiting' := hwaiting.trans hfinish.waitingQueue
  have hchunked' := hchunked.trans hfinish.chunkedReq
  exact ⟨.of_same hsame (fun q hq => hwaiting' ▸ hq) hchunked' (hcount.trans hfinish.reqCount),
    hwaiting', hchunked', .trans (.refl hfinish.outbox) hemits⟩

/-- Cutting keeps the queues. -/
theorem sameQueues_cutOut (s : State V) (r : String) : SameQueues s (cutOut s r) := by
  have hrelease : SameQueues s (releaseImmediateRequestResources s r) :=
    .foldl sameQueues_release s _
  refine hrelease.trans (.foldl (fun s batch => ?_) _ _)
  cases batch with
  | none => exact .refl s
  | some b => exact ⟨rfl, rfl, rfl, rfl⟩

/-- An abort takes the requests of the id out of the waiting queue, and maybe out of batches. -/
theorem moves_abort (s : State V) (r : String) (deferCleanup : Bool) :
    Moves s (abort s r deferCleanup) ∧
      (abort s r deferCleanup).outbox = s.outbox ∧
      (abort s r deferCleanup).waitingQueue =
        s.waitingQueue.filter fun q => (s.reqs q).rid ≠ r := by
  have hframe := sameFrame_abort s r deferCleanup
  have hbatches : ∀ b, ∀ q ∈ ((abort s r deferCleanup).batches b).reqs, q ∈ (s.batches b).reqs := by
    intro b q hq
    have hcut : q ∈ (cutBatches s r s.fourBatches b).reqs → q ∈ (s.batches b).reqs := by
      unfold cutBatches
      split
      · exact fun h => (mem_filter.mp h).1
      · exact id
    cases deferCleanup with
    | false =>
      rw [abort_batches_of_not_deferred] at hq
      exact hcut hq
    | true =>
      by_cases hmarked : Marked s r
      · rwa [abort_batches_of_marked hmarked] at hq
      · rw [abort_batches_of_not_marked hmarked] at hq
        exact hcut hq
  have hqueues : (abort s r deferCleanup).outbox = s.outbox ∧
      (abort s r deferCleanup).waitingQueue =
        s.waitingQueue.filter fun q => (s.reqs q).rid ≠ r := by
    have hmarked : ∀ u : State V, SameFrame s u → u.outbox = s.outbox →
        u.waitingQueue = s.waitingQueue → (forgetRequest u r).outbox = s.outbox ∧
          (forgetRequest u r).waitingQueue = s.waitingQueue.filter fun q => (s.reqs q).rid ≠ r := by
      intro u hu hout hwaiting
      refine ⟨hout, ?_⟩
      change u.waitingQueue.filter _ = _
      rw [hwaiting]
      exact filter_congr fun q _ => by rw [hu.rid]
    have hforgot := hmarked (if deferCleanup then markRunningRequestAborted s r else (s, false)).1
      (by split; exacts [sameFrame_mark s r, .refl s]) (by split <;> rfl) (by split <;> rfl)
    unfold abort
    generalize (if deferCleanup then markRunningRequestAborted s r else (s, false)) = marking
      at hforgot ⊢
    obtain ⟨u, runningAbort⟩ := marking
    cases runningAbort with
    | true => exact hforgot
    | false =>
      have hcut := sameQueues_cutOut (forgetRequest u r) r
      exact ⟨hcut.outbox.trans hforgot.1, hcut.waitingQueue.trans hforgot.2⟩
  refine ⟨.of_refs (fun q hq => ?_) hframe.chunkedReq hframe.reqCount
    hframe.batchCount (fun b hb => hframe.loopBatches ▸ hb) (fun pending hp => hframe.pendings ▸ hp)
      hbatches, hqueues⟩
  rw [hqueues.2] at hq
  exact (mem_filter.mp hq).1

/-- The handler of a failed batch takes its requests out of the waiting queue and gives no
results. -/
theorem moves_failure (s : State V) (b : ℕ) (error : String) :
    Moves s (handleBatchFailure s b error) ∧ Emits NoResult s (handleBatchFailure s b error) ∧
      (handleBatchFailure s b error).waitingQueue =
        s.waitingQueue.filter fun q => (s.reqs q).rid ∉ s.requestIds b := by
  rw [handleBatchFailure_eq]
  generalize s.requestIds b = ids
  induction ids generalizing s with
  | nil => exact ⟨.refl s, .refl rfl, by simp⟩
  | cons r ids ih =>
    have hemit : Moves s (emitRequestError s r error) := by
      unfold emitRequestError
      split
      · exact .of_same ⟨rfl, rfl, rfl, rfl, rfl, rfl, rfl⟩ (fun _ hq => hq) rfl rfl
      · exact .refl s
    have hqueue : (emitRequestError s r error).waitingQueue = s.waitingQueue := by
      unfold emitRequestError
      split <;> rfl
    obtain ⟨hmoves, hout, hwaiting⟩ := moves_abort (emitRequestError s r error) r false
    obtain ⟨hrest, hemits, hwaiting'⟩ := ih (failRequest error s r)
    refine ⟨(hemit.trans hmoves).trans hrest,
      ((emits_error s r error).trans (.refl hout)).trans hemits, ?_⟩
    rw [List.foldl_cons, hwaiting', failRequest, hwaiting, hqueue, List.filter_filter]
    refine filter_congr fun q _ => ?_
    have hrid := (sameFrame_failRequest error s r).rid q
    rw [failRequest] at hrid
    simp [hrid, (sameFrame_emit s r error).rid q, Bool.and_comm]

theorem moves_filterBatch (s : State V) (b : ℕ) (keep : ℕ → Bool) :
    Moves s (filterBatch s b keep) ∧ SameQueues s (filterBatch s b keep) := by
  have hqueues : SameQueues s (filterBatch s b keep) := by
    unfold filterBatch
    split <;> exact ⟨rfl, rfl, rfl, rfl⟩
  obtain ⟨_, _, hcount, hpendings⟩ := filterBatch_refs s b keep
  refine ⟨.of_refs (fun q hq => hqueues.waitingQueue ▸ hq) hqueues.chunkedReq
    hqueues.reqCount hcount
    (fun c hc => filterBatch_loopBatches s b keep ▸ hc) (fun p hp => hpendings ▸ hp)
    fun c q hq => ?_, hqueues⟩
  unfold filterBatch at hq
  split at hq
  · exact hq
  · by_cases hc : c = b
    · subst hc
      have hkept : q ∈ (s.batches c).reqs.filter keep := by
        simpa [State.updateBatch, Batch.reslice] using hq
      exact (mem_filter.mp hkept).1
    · simpa [State.updateBatch, hc] using hq

/-- References of the loop to batches that it refers to already. -/
theorem Moves.of_loop (hqueues : SameQueues s t) (hcount : t.batchCount = s.batchCount)
    (hloop : ∀ b ∈ t.loopBatches, b ∈ s.loopBatches)
    (hpendings : ∀ pending ∈ t.pendings, pending ∈ s.pendings)
    (hold : ∀ b, b ∉ s.loopBatches → t.batches b = s.batches b)
    (hreqs : ∀ b ∈ s.loopBatches, ∀ q ∈ (t.batches b).reqs,
      ∃ c ∈ s.loopBatches, q ∈ (s.batches c).reqs) : Moves s t where
  reqCount := hqueues.reqCount
  batchCount := hcount.ge
  loopBatches b hb := Or.inl (hloop b hb)
  pendings := hpendings
  shrinks b _ hb q hq := by rwa [hold b hb] at hq
  within q hq := by
    rcases hq with hq | hq | ⟨b, hb, hq⟩
    · exact Or.inl (hqueues.waitingQueue ▸ hq)
    · exact Or.inr (Or.inl (hqueues.chunkedReq ▸ hq))
    · right; right
      by_cases hmem : b ∈ s.loopBatches
      · obtain ⟨c, hc, hq⟩ := hreqs b hmem q hq
        exact ⟨c, mem_append_left _ hc, hq⟩
      · rw [hold b hmem] at hq
        refine ⟨b, ?_, hq⟩
        rcases mem_append.mp hb with hb | hb
        · exact absurd (hloop b hb) hmem
        · obtain ⟨pending, hp, rfl⟩ := mem_map.mp hb
          exact mem_append_right _ (mem_map_of_mem (hpendings pending hp))

theorem moves_mergeLast (s : State V) :
    Moves s (mergeLast s) ∧ SameQueues s (mergeLast s) := by
  unfold mergeLast
  split
  · exact ⟨.refl s, .refl s⟩
  next l hlast =>
  split
  swap
  · exact ⟨.refl s, .refl s⟩
  dsimp only
  obtain ⟨hmoves, hqueues⟩ := moves_filterBatch s l fun q => !(s.reqs q).finished &&
    decide (q ∉ s.chunkedReq.toList ++ (s.batches l).chunkedReq.toList)
  have hlast' := (filterBatch_refs s l fun q => !(s.reqs q).finished &&
    decide (q ∉ s.chunkedReq.toList ++ (s.batches l).chunkedReq.toList)).2.1
  generalize filterBatch s l _ = u at hmoves hqueues hlast' ⊢
  have hl : l ∈ u.loopBatches := mem_loopBatches_last (hlast'.trans hlast)
  split
  · exact ⟨hmoves, hqueues⟩
  split
  · have hset : SameQueues u (u.setRunning l) := ⟨rfl, rfl, rfl, rfl⟩
    refine ⟨hmoves.trans (.of_loop hset rfl (fun b hb => ?_) (fun _ hp => hp) (fun _ _ => rfl)
      fun b hb q hq => ⟨b, hb, hq⟩), hqueues.trans hset⟩
    rcases mem_loopBatches.mp hb with rfl | hcur | hb
    · exact hl
    · exact mem_loopBatches_cur hcur
    · exact mem_loopBatches_last hb
  · have hset : SameQueues u (u.updateBatch u.runningBatch fun batch =>
        batch.merge (u.batches l)) := ⟨rfl, rfl, rfl, rfl⟩
    have hrunning := mem_loopBatches_running u
    refine ⟨hmoves.trans (.of_loop hset rfl (fun _ hb => hb) (fun _ hp => hp) (fun b hb => ?_)
      fun b hb q hq => ?_), hqueues.trans hset⟩
    · have hne : b ≠ u.runningBatch := fun heq => hb (heq ▸ hrunning)
      simp [State.updateBatch, hne]
    · by_cases hb' : b = u.runningBatch
      · subst hb'
        have hmerged : q ∈ (u.batches u.runningBatch).reqs ++ (u.batches l).reqs := by
          simpa [State.updateBatch, Batch.merge] using hq
        rcases mem_append.mp hmerged with hq | hq
        · exact ⟨_, hrunning, hq⟩
        · exact ⟨l, hl, hq⟩
      · exact ⟨b, hb, by simpa [State.updateBatch, hb'] using hq⟩

theorem moves_updateRunningBatch (s : State V) (retracted : List ℕ) :
    Moves s (updateRunningBatch s retracted) ∧
      (updateRunningBatch s retracted).chunkedReq = s.chunkedReq ∧
      (updateRunningBatch s retracted).point = s.point ∧
      (updateRunningBatch s retracted).outbox = s.outbox := by
  unfold updateRunningBatch
  dsimp only
  obtain ⟨hmoves, hqueues⟩ :=
    moves_filterBatch s s.runningBatch fun q => !(s.reqs q).finished
  have hpoint := filterBatch_point s s.runningBatch fun q => !(s.reqs q).finished
  generalize filterBatch s s.runningBatch _ = u at *
  obtain ⟨hmoves', hqueues'⟩ := moves_filterBatch u u.runningBatch fun q => decide (q ∉ retracted)
  have hpoint' := filterBatch_point u u.runningBatch fun q => decide (q ∉ retracted)
  -- Those that leave the running batch are present before it is filtered.
  have hleaving : ∀ q ∈ (u.batches u.runningBatch).reqs.filter fun q => decide (q ∈ retracted),
      Present u q := by
    intro q hq
    refine Or.inr (Or.inr ⟨u.runningBatch, ?_, (mem_filter.mp hq).1⟩)
    exact mem_append_left _ (mem_loopBatches_running u)
  generalize ((u.batches u.runningBatch).reqs.filter fun q => decide (q ∈ retracted)) = leaving at *
  generalize filterBatch u u.runningBatch _ = v at *
  have hextend : Moves u (extendWaitingQueue v leaving) := by
    refine { hmoves' with within := fun q hq => ?_ }
    rcases hq with hq | hq | hq
    · rcases mem_append.mp hq with hq | hq
      · exact hmoves'.within q (Or.inl hq)
      · exact hleaving q hq
    · exact hmoves'.within q (Or.inr (Or.inl hq))
    · exact hmoves'.within q (Or.inr (Or.inr hq))
  have hretract := SameQueues.foldl sameQueues_retract (extendWaitingQueue v leaving) leaving
  have hsame := SameBatches.foldl sameBatches_retract (extendWaitingQueue v leaving) leaving
  refine ⟨(hmoves.trans hextend).trans (hretract.moves hsame), ?_,
    hsame.point.trans (hpoint'.trans hpoint), ?_⟩
  · exact hretract.chunkedReq.trans (hqueues'.chunkedReq.trans hqueues.chunkedReq)
  · exact hretract.outbox.trans (hqueues'.outbox.trans hqueues.outbox)

theorem moves_setCurrent (htop : s.point = .top)
    (hbatch : ∀ b, batch = some b → b ∈ s.loopBatches) : Moves s (s.setCurrent batch) := by
  refine .of_refs (fun _ hq => hq) rfl rfl rfl (fun b hb => ?_) (fun pending hp => ?_)
    fun _ _ hq => hq
  · rcases mem_loopBatches.mp hb with hrunning | hcur | hlast
    · exact hrunning ▸ mem_loopBatches_running s
    · exact hbatch b hcur
    · exact mem_loopBatches_last hlast
  · rwa [pendings_setCurrent htop] at hp

variable {admitted : List ℕ} {chunked : Option ℕ}

/-- A batch of admitted requests, with some of the running batch, is the current one. The
running batch may be a new one without requests. -/
theorem moves_admit {u : State V} (hadmitted : ∀ q ∈ admitted, Present s q)
    (hchunked : ∀ q ∈ chunked, q ∈ admitted) (hu : Moves s u)
    (hwaiting : ∀ q ∈ t.waitingQueue, q ∈ u.waitingQueue) (hchunkedReq : t.chunkedReq = chunked)
    (hreqs : t.reqCount = u.reqCount) (hcount : u.batchCount < t.batchCount)
    (hloop : ∀ b ∈ t.loopBatches, b ∈ u.loopBatches ∨ u.batchCount ≤ b ∧ b < t.batchCount)
    (hpendings : ∀ pending ∈ t.pendings, pending ∈ u.pendings)
    (hbatches : ∀ b, (t.batches b).reqs = (u.batches b).reqs ∧ (b ∈ t.refs → b ∈ u.refs) ∨
      u.batchCount ≤ b ∧
        ∀ q ∈ (t.batches b).reqs, q ∈ admitted ∨ q ∈ (u.batches u.runningBatch).reqs) :
    Moves s t where
  reqCount := hreqs.trans hu.reqCount
  batchCount := hu.batchCount.trans hcount.le
  loopBatches b hb := by
    rcases hloop b hb with hb | ⟨hle, hlt⟩
    · rcases hu.loopBatches b hb with hb | ⟨hle, hlt⟩
      · exact Or.inl hb
      · exact Or.inr ⟨hle, hlt.trans hcount⟩
    · exact Or.inr ⟨hu.batchCount.trans hle, hlt⟩
  pendings pending hp := hu.pendings pending (hpendings pending hp)
  shrinks b hlt hb q hq := by
    rcases hbatches b with ⟨heq, _⟩ | ⟨hle, _⟩
    · exact hu.shrinks b hlt hb q (heq ▸ hq)
    · exact absurd (hu.batchCount.trans hle) (Nat.not_le_of_lt hlt)
  within q hq := by
    rcases hq with hq | hq | ⟨b, hb, hq⟩
    · exact hu.within q (Or.inl (hwaiting q hq))
    · exact hadmitted q (hchunked q (hchunkedReq.symm.trans hq))
    · rcases hbatches b with ⟨heq, hrefs⟩ | ⟨_, hreqs⟩
      · exact hu.within q (Or.inr (Or.inr ⟨b, hrefs hb, heq ▸ hq⟩))
      · rcases hreqs q hq with hq | hq
        · exact hadmitted q hq
        · refine hu.within q (Or.inr (Or.inr ⟨u.runningBatch, ?_, hq⟩))
          exact mem_append_left _ (mem_loopBatches_running u)

/-- Filtering reads nothing that admission changes. -/
theorem filterBatch_admitted (s : State V) (admitted : List ℕ) (slot : ℕ → ℕ) (chunked : Option ℕ)
    (b : ℕ) (keep : ℕ → Bool) :
    filterBatch (admitRequests s admitted slot chunked) b keep =
      admitRequests (filterBatch s b keep) admitted slot chunked := by
  unfold filterBatch
  change (if (s.batches b).reqs.all keep then _ else _) = _
  split <;> rfl

theorem newBatches_reqs (s : State V) (first second : Batch) (b : ℕ) :
    b = s.batchCount + 1 ∧ ((s.newBatch first).newBatch second).batches b = second ∨
      b = s.batchCount ∧ ((s.newBatch first).newBatch second).batches b = first ∨
      b ≠ s.batchCount ∧ b ≠ s.batchCount + 1 ∧
        ((s.newBatch first).newBatch second).batches b = s.batches b := by
  by_cases hsecond : b = s.batchCount + 1
  · exact Or.inl ⟨hsecond, by simp [State.newBatch, hsecond]⟩
  · by_cases hfirst : b = s.batchCount
    · exact Or.inr (Or.inl ⟨hfirst, by simp [State.newBatch, hfirst]⟩)
    · exact Or.inr (Or.inr ⟨hfirst, hsecond, by simp [State.newBatch, hfirst, hsecond]⟩)

section Admit

variable {s u : State V} {admitted : List ℕ} {slot : ℕ → ℕ} {chunked : Option ℕ}

theorem moves_admit_mixed (htop : u.point = .top) (hadmitted : ∀ q ∈ admitted, Present s q)
    (hchunked : ∀ q ∈ chunked, q ∈ admitted) (hu : Moves s u) {mixed : Batch}
    (hmixed : ∀ q ∈ mixed.reqs, q ∈ admitted ∨ q ∈ (u.batches u.runningBatch).reqs) :
    Moves s (((((admitRequests u admitted slot chunked).newBatch mixed).newBatch
      .empty).setRunning (u.batchCount + 1)).setCurrent (some u.batchCount)) := by
  have hpendings := pendings_setCurrent (s := (((admitRequests u admitted slot chunked).newBatch
    mixed).newBatch .empty).setRunning (u.batchCount + 1)) htop (some u.batchCount)
  have hloop : ∀ b ∈ (((((admitRequests u admitted slot chunked).newBatch mixed).newBatch
      .empty).setRunning (u.batchCount + 1)).setCurrent (some u.batchCount)).loopBatches,
      b ∈ u.loopBatches ∨ u.batchCount ≤ b ∧ b < u.batchCount + 2 := by
    intro b hb
    rcases mem_loopBatches.mp hb with hrunning | hcur | hlast
    · obtain rfl : b = u.batchCount + 1 := hrunning
      exact Or.inr ⟨Nat.le_succ _, Nat.lt_succ_self _⟩
    · obtain rfl : u.batchCount = b := some.inj hcur
      exact Or.inr ⟨Nat.le_refl _, by omega⟩
    · exact Or.inl (mem_loopBatches_last hlast)
  refine moves_admit hadmitted hchunked hu (fun q hq => (mem_filter.mp hq).1) rfl rfl
    (show u.batchCount < u.batchCount + 2 by omega) hloop (fun pending hp => hpendings ▸ hp)
    fun b => ?_
  rcases newBatches_reqs (admitRequests u admitted slot chunked) mixed .empty b with
    ⟨rfl, hb⟩ | ⟨rfl, hb⟩ | ⟨hfirst, hsecond, hb⟩
  · refine Or.inr ⟨Nat.le_succ _, fun q hq => ?_⟩
    have hempty : q ∈ Batch.empty.reqs := hb ▸ hq
    simp [Batch.empty] at hempty
  · exact Or.inr ⟨Nat.le_refl _, fun q hq => hmixed q (hb ▸ hq)⟩
  · refine Or.inl ⟨congrArg Batch.reqs hb, fun hmem => ?_⟩
    rcases mem_append.mp hmem with hmem | hmem
    · rcases hloop b hmem with hold | ⟨hle, hlt⟩
      · exact mem_append_left _ hold
      · change b ≠ u.batchCount at hfirst
        change b ≠ u.batchCount + 1 at hsecond
        omega
    · rw [hpendings] at hmem
      exact mem_append_right _ hmem

theorem moves_admit_new (htop : s.point = .top) (hadmitted : ∀ q ∈ admitted, Present s q)
    (hchunked : ∀ q ∈ chunked, q ∈ admitted) {batch : Batch} (hbatch : batch.reqs = admitted) :
    Moves s (((admitRequests s admitted slot chunked).newBatch batch).setCurrent
      (some s.batchCount)) := by
  have hpendings := pendings_setCurrent (s := (admitRequests s admitted slot chunked).newBatch
    batch) htop (some s.batchCount)
  have hloop : ∀ b ∈ (((admitRequests s admitted slot chunked).newBatch batch).setCurrent
      (some s.batchCount)).loopBatches,
      b ∈ s.loopBatches ∨ s.batchCount ≤ b ∧ b < s.batchCount + 1 := by
    intro b hb
    rcases mem_loopBatches.mp hb with hrunning | hcur | hlast
    · exact Or.inl (mem_loopBatches.mpr (Or.inl hrunning))
    · obtain rfl : s.batchCount = b := some.inj hcur
      exact Or.inr ⟨Nat.le_refl _, Nat.lt_succ_self _⟩
    · exact Or.inl (mem_loopBatches_last hlast)
  refine moves_admit hadmitted hchunked (.refl s) (fun q hq => (mem_filter.mp hq).1) rfl rfl
    (Nat.lt_succ_self _) hloop (fun pending hp => hpendings ▸ hp) fun b => ?_
  by_cases hb : b = s.batchCount
  · subst hb
    refine Or.inr ⟨Nat.le_refl _, fun q hq => Or.inl ?_⟩
    have hself := newBatch_self (admitRequests s admitted slot chunked) batch
    exact hbatch ▸ hself ▸ hq
  · refine Or.inl ⟨?_, fun hmem => ?_⟩
    · change (update s.batches s.batchCount batch b).reqs = _
      rw [update_of_ne hb]
    · rcases mem_append.mp hmem with hmem | hmem
      · rcases hloop b hmem with hold | ⟨hle, hlt⟩
        · exact mem_append_left _ hold
        · omega
      · rw [hpendings] at hmem
        exact mem_append_right _ hmem

end Admit

/-- `get_next_batch_to_run` after the merge, when it makes a prefill batch. -/
theorem moves_prefill (htop : s.point = .top) {slot : ℕ → ℕ} {mixed : Bool}
    (hselect : selectBatch s (.prefill admitted slot chunked mixed) = some (t, batch)) :
    Moves s (t.setCurrent batch) ∧ t.outbox = s.outbox := by
  obtain ⟨⟨hadmitted, _, hchunked, _⟩, hselect⟩ := ite_none_right_eq_some.mp hselect
  have hpresent : ∀ q ∈ admitted, Present s q := by
    intro q hq
    rcases hadmitted q hq with hq | hq
    · exact Or.inl hq
    · exact Or.inr (Or.inl hq)
  obtain ⟨rfl, rfl⟩ := Prod.mk.inj (some.inj hselect)
  split
  · -- The running batch is filtered first.
    obtain ⟨hmoves, hqueues⟩ := moves_filterBatch s s.runningBatch fun q =>
      !((admitRequests s admitted slot chunked).reqs q).finished
    have hpoint := (filterBatch_point s s.runningBatch fun q =>
      !((admitRequests s admitted slot chunked).reqs q).finished).trans htop
    have hcount := (filterBatch_refs s s.runningBatch fun q =>
      !((admitRequests s admitted slot chunked).reqs q).finished).2.2.1
    have hfilter := filterBatch_admitted s admitted slot chunked s.runningBatch fun q =>
      !((admitRequests s admitted slot chunked).reqs q).finished
    unfold mixWithRunning
    change Moves s (State.setCurrent (State.setRunning _ _) (some s.batchCount)) ∧ _
    erw [hfilter]
    generalize filterBatch s s.runningBatch _ = u at *
    rw [← hcount]
    refine ⟨moves_admit_mixed hpoint hpresent hchunked hmoves fun q hq => ?_, hqueues.outbox⟩
    change q ∈ (if (u.batches u.runningBatch).reqs = [] then _ else _ : Batch).reqs at hq
    split at hq
    · exact Or.inl hq
    · exact mem_append.mp hq
  · exact ⟨moves_admit_new htop hpresent hchunked rfl, rfl⟩

/-- `get_next_batch_to_run` after the merge. -/
theorem moves_select (htop : s.point = .top) {choice : Choice}
    (hselect : selectBatch s choice = some (t, batch)) :
    Moves s (t.setCurrent batch) ∧ t.outbox = s.outbox := by
  cases choice with
  | prefill admitted slot chunked mixed => exact moves_prefill htop hselect
  | decode retracted =>
    obtain ⟨_, hselect⟩ := ite_none_right_eq_some.mp hselect
    obtain ⟨hmoves, _, hpoint, hout⟩ := moves_updateRunningBatch s retracted
    have htop' := hpoint.trans htop
    generalize updateRunningBatch s retracted = u at *
    split at hselect
    · obtain ⟨rfl, rfl⟩ := Prod.mk.inj (some.inj hselect)
      exact ⟨hmoves.trans (moves_setCurrent htop' (by simp)), hout⟩
    · obtain ⟨rfl, rfl⟩ := Prod.mk.inj (some.inj hselect)
      have hdecode : Moves u (u.updateBatch u.runningBatch fun batch =>
          { batch with isExtend := false }) := by
        refine .of_refs (fun _ hq => hq) rfl rfl rfl (fun _ hb => hb) (fun _ hp => hp) fun b q hq =>
          ?_
        by_cases hb : b = u.runningBatch
        · subst hb
          simpa [State.updateBatch] using hq
        · simpa [State.updateBatch, hb] using hq
      refine ⟨(hmoves.trans hdecode).trans (moves_setCurrent (s := u.updateBatch u.runningBatch _)
        htop' fun b hb => ?_), hout⟩
      exact some.inj hb ▸ mem_loopBatches_running u
  | nothing =>
    obtain ⟨_, hselect⟩ := ite_none_right_eq_some.mp hselect
    obtain ⟨rfl, rfl⟩ := Prod.mk.inj (some.inj hselect)
    exact ⟨moves_setCurrent htop (by simp), rfl⟩

/-- The current batch becomes the last one. -/
theorem moves_endIteration (s : State V) : Moves s s.endIteration := by
  refine .of_refs (fun _ hq => hq) rfl rfl rfl (fun b hb => ?_) (fun pending hp => ?_)
    fun _ _ hq => hq
  · rcases mem_loopBatches.mp hb with hrunning | hcur | hcur
    · exact hrunning ▸ mem_loopBatches_running s
    · exact mem_loopBatches_cur hcur
    · exact mem_loopBatches_cur hcur
  · have hmem : pending ∈ s.asyncPending.toList := by
      simpa [State.pendings, State.endIteration] using hp
    exact mem_append_left _ hmem

theorem moves_setPoint (s : State V) {point : LoopPoint}
    (hpoint : ∀ prevPending, point ≠ .launched prevPending) :
    Moves s { s with point := point } := by
  refine .of_refs (fun _ hq => hq) rfl rfl rfl (fun _ hb => hb) (fun pending hp => ?_)
    fun _ _ hq => hq
  have hmem : pending ∈ s.asyncPending.toList := by
    cases point <;> simp_all [State.pendings]
  exact mem_append_left _ hmem

/-- The step in flight is taken. -/
theorem moves_take (s : State V) : Moves s { s with asyncPending := none } := by
  refine .of_refs (fun _ hq => hq) rfl rfl rfl (fun _ hb => hb) (fun pending hp => ?_)
    fun _ _ hq => hq
  exact mem_append_right _ (by simpa [State.pendings] using hp)

theorem moves_resolve (s : State V) (pending : PendingStep) (outcome : StepOutcome) :
    Moves s (resolveAndProcess s pending outcome) ∧
      (resolveAndProcess s pending outcome).point = s.point ∧
      (resolveAndProcess s pending outcome).chunkedReq = s.chunkedReq ∧
      Emits (ResultOf (· ∈ (s.batches pending.batch).reqs)) s
        (resolveAndProcess s pending outcome) := by
  cases outcome with
  | fails error =>
    obtain ⟨hmoves, hemits, _⟩ := moves_failure s pending.batch error
    have hframe := sameFrame_handleBatchFailure s pending.batch error
    exact ⟨hmoves, hframe.point, hframe.chunkedReq,
      hemits.mono fun message hm r q heq => absurd heq (hm r q)⟩
  | refused => exact ⟨.refl s, rfl, rfl, .refl rfl⟩
  | done finished adapterError =>
    have hhanded : ∀ q ∈ (handedOver s pending).1, q ∈ (s.batches pending.batch).reqs := by
      intro q hq
      unfold handedOver at hq
      dsimp only at hq
      split at hq
      · exact (mem_filter.mp hq).1
      · exact hq
    have hupdate : Moves s (s.updateBatch pending.batch fun batch =>
        { batch with reqs := (handedOver s pending).1 }) := by
      refine .of_refs (fun _ hq => hq) rfl rfl rfl (fun _ hb => hb) (fun _ hp => hp) fun b q hq =>
        ?_
      by_cases hb : b = pending.batch
      · subst hb
        exact hhanded q (by simpa [State.updateBatch] using hq)
      · simpa [State.updateBatch, hb] using hq
    have hpoint := (resolve_done s pending finished adapterError).point
    unfold resolveAndProcess at hpoint ⊢
    dsimp only at hpoint ⊢
    split
    · exact ⟨hupdate, rfl, rfl, .refl rfl⟩
    next hsome =>
      rw [if_neg hsome] at hpoint
      obtain ⟨hmoves, _, hchunked, hemits⟩ := moves_process (s.updateBatch pending.batch
        fun batch =>
        { batch with reqs := (handedOver s pending).1 }) (handedOver s pending).1 finished
        adapterError
      refine ⟨hupdate.trans hmoves, hpoint, hchunked, .trans (.refl rfl) (hemits.mono ?_)⟩
      exact fun message hm r q heq => hhanded q (hm r q heq)

theorem moves_dropStale (s : State V) :
    Moves s (dropStaleOverrun s) ∧ SameQueues s (dropStaleOverrun s) := by
  unfold dropStaleOverrun
  split
  · exact ⟨.refl s, .refl s⟩
  next b hcur =>
  split
  swap
  · exact ⟨.refl s, .refl s⟩
  obtain ⟨hmoves, hqueues⟩ := moves_filterBatch s b fun q => !s.stale q
  dsimp only
  generalize filterBatch s b _ = u at *
  split
  · refine ⟨hmoves.trans (.of_refs (fun _ hq => hq) rfl rfl rfl (fun c hc => ?_) (fun _ hp => hp)
      fun _ _ hq => hq), hqueues.trans ⟨rfl, rfl, rfl, rfl⟩⟩
    rcases mem_loopBatches.mp hc with hrunning | hnone | hlast
    · exact hrunning ▸ mem_loopBatches_running u
    · cases hnone
    · exact mem_loopBatches_last hlast
  · exact ⟨hmoves, hqueues⟩

/-- Running the current batch gives results to its requests only. -/
theorem moves_run (s : State V) (outcome : StepOutcome) :
    Moves s (runBatch s outcome) ∧ Emits (ResultOf fun q => ∃ b, s.curBatch = some b ∧
      q ∈ (s.batches b).reqs) s (runBatch s outcome) := by
  unfold runBatch
  split
  · exact ⟨.refl s, .refl rfl⟩
  next b error _ =>
    obtain ⟨hmoves, hemits, _⟩ := moves_failure s b error
    exact ⟨hmoves, hemits.mono fun message hm r q heq => absurd heq (hm r q)⟩
  next b finished adapterError hcur =>
    obtain ⟨hmoves, _, _, hemits⟩ := moves_process s (s.batches b).reqs finished adapterError
    exact ⟨hmoves, hemits.mono fun message hm r q heq => ⟨b, hcur, hm r q heq⟩⟩
  · exact ⟨.refl s, .refl rfl⟩

/-- A batch has been chosen and will run, be launched, or be dropped. -/
def Chosen : LoopPoint → Prop
  | .selected | .drained | .ready => True
  | _ => False

theorem run_step {outcome : StepOutcome} (hstep : step s (.run outcome) = some t) :
    Chosen s.point ∧ t = (runBatch s outcome).endIteration := by
  cases stepped hstep with
  | run _ hpoint =>
    rcases hpoint with ⟨hpoint, _⟩ | hpoint
    · exact ⟨by rw [hpoint]; trivial, rfl⟩
    · exact ⟨by rw [hpoint]; trivial, rfl⟩

/-- The request is in a batch that has been launched and not resolved. -/
def InFlight (s : State V) (q : ℕ) : Prop :=
  ∃ pending ∈ s.pendings, q ∈ (s.batches pending.batch).reqs

/-- All steps move requests between places, but those that admit a request or launch a batch. -/
theorem moves_step {a : Action} (hstep : step s a = some t) (hlaunch : a ≠ .launch none)
    (hadmits : ∀ requestId, a ≠ .enqueue requestId) :
    Moves s t ∧ Emits (ResultOf (Present s)) s t := by
  cases stepped hstep with
  | enqueue requestId => exact absurd rfl (hadmits requestId)
  | abort requestId =>
    obtain ⟨hmoves, hout, _⟩ := moves_abort s requestId true
    exact ⟨hmoves, .refl hout⟩
  | flush outcome pending _ hpending =>
    obtain ⟨hmoves, _, _, hemits⟩ := moves_resolve { s with asyncPending := none } pending outcome
    refine ⟨(moves_take s).trans hmoves, hemits.mono ?_⟩
    intro message hm r q heq
    refine Or.inr (Or.inr ⟨pending.batch, mem_append_right _ ?_, hm r q heq⟩)
    exact mem_map_of_mem (by simp [State.pendings, hpending])
  | select choice u batch htop hselect =>
    obtain ⟨hmerge, hqueues⟩ := moves_mergeLast s
    obtain ⟨hmoves, hout⟩ := moves_select ((mergeLast_point s).trans htop) hselect
    exact ⟨hmerge.trans hmoves, .refl (hout.trans hqueues.outbox)⟩
  | launch => exact absurd rfl hlaunch
  | launchFails b error =>
    obtain ⟨hmoves, hemits, _⟩ := moves_failure s b error
    refine ⟨hmoves.trans (moves_endIteration _), ?_⟩
    exact hemits.mono fun message hm r q heq => absurd heq (hm r q)
  | resolve outcome prevPending hpoint =>
    obtain ⟨hmoves, _, _, hemits⟩ := moves_resolve s prevPending outcome
    refine ⟨hmoves.trans (moves_endIteration _), hemits.mono ?_⟩
    intro message hm r q heq
    refine Or.inr (Or.inr ⟨prevPending.batch, mem_append_right _ ?_, hm r q heq⟩)
    exact mem_map_of_mem (by simp [State.pendings, hpoint])
  | drain outcome pending _ hpending =>
    obtain ⟨hmoves, _, _, hemits⟩ := moves_resolve { s with asyncPending := none } pending outcome
    refine ⟨((moves_take s).trans hmoves).trans (moves_setPoint _ (by simp)), hemits.mono ?_⟩
    intro message hm r q heq
    refine Or.inr (Or.inr ⟨pending.batch, mem_append_right _ ?_, hm r q heq⟩)
    exact mem_map_of_mem (by simp [State.pendings, hpending])
  | dropStale =>
    obtain ⟨hmoves, hqueues⟩ := moves_dropStale s
    exact ⟨hmoves.trans (moves_setPoint _ (by simp)), .refl hqueues.outbox⟩
  | run outcome =>
    obtain ⟨hmoves, hemits⟩ := moves_run s outcome
    refine ⟨hmoves.trans (moves_endIteration _), hemits.mono ?_⟩
    rintro message hm r q heq
    obtain ⟨b, hcur, hq⟩ := hm r q heq
    exact Or.inr (Or.inr ⟨b, mem_append_left _ (mem_loopBatches_cur hcur), hq⟩)

/-- What a launch does: the launched step has a copy of the current batch. -/
structure Launches (s t : State V) (b : ℕ) : Prop where
  curBatch : s.curBatch = some b
  batches : t.batches = update s.batches s.batchCount (s.batches b)
  batchCount : t.batchCount = s.batchCount + 1
  loopBatches : ∀ c ∈ t.loopBatches, c ∈ s.loopBatches
  pendings : ∀ pending ∈ t.pendings, pending.batch = s.batchCount ∨ pending ∈ s.pendings
  waitingQueue : t.waitingQueue = s.waitingQueue
  chunkedReq : t.chunkedReq = s.chunkedReq
  outbox : t.outbox = s.outbox
  reqs : t.reqs = s.reqs
  reqCount : t.reqCount = s.reqCount

theorem launches_of_step (hstep : step s (.launch none) = some t) :
    ∃ b, Launches s t b := by
  cases stepped hstep
  next b _ hcur _ =>
  refine ⟨b, ?_⟩
  unfold launchBatch
  split
  next hpending =>
    refine ⟨hcur, rfl, rfl, fun c hc => ?_, fun pending hp => ?_, rfl, rfl, rfl, rfl, rfl⟩
    · rcases mem_loopBatches.mp hc with hrunning | hc | hc
      · exact hrunning ▸ mem_loopBatches_running s
      · exact mem_loopBatches_cur hc
      · exact mem_loopBatches_cur hc
    · left
      have hmem : pending = ⟨s.batchCount, (s.batches b).reqs⟩ := by
        simpa [State.pendings, State.endIteration] using hp
      rw [hmem]
  next prevPending hpending =>
    refine ⟨hcur, rfl, rfl, fun _ hc => hc, fun pending hp => ?_, rfl, rfl, rfl, rfl,
      rfl⟩
    have hmem : pending = ⟨s.batchCount, (s.batches b).reqs⟩ ∨ pending = prevPending := by
      simpa [State.pendings] using hp
    rcases hmem with rfl | rfl
    · exact Or.inl rfl
    · exact Or.inr (by simp [State.pendings, hpending])

section Step

variable {s t : State V} {a : Action}

theorem step_cases (hstep : step s a = some t) :
    (Moves s t ∧ Emits (ResultOf (Present s)) s t) ∨ (∃ b, a = .launch none ∧ Launches s t b) ∨
      ∃ requestId, a = .enqueue requestId ∧ t = { s with
        reqs := update s.reqs s.reqCount ⟨requestId, false, false, false, none, none⟩
        reqCount := s.reqCount + 1
        waitingQueue := s.waitingQueue ++ [s.reqCount] } := by
  by_cases hlaunch : a = .launch none
  · subst hlaunch
    obtain ⟨b, hlaunches⟩ := launches_of_step hstep
    exact Or.inr (Or.inl ⟨b, rfl, hlaunches⟩)
  by_cases hadmits : ∃ requestId, a = .enqueue requestId
  · obtain ⟨requestId, rfl⟩ := hadmits
    obtain ⟨_, hstep⟩ := ite_none_left_eq_some.mp hstep
    exact Or.inr (Or.inr ⟨requestId, rfl, (some.inj hstep).symm⟩)
  · exact Or.inl (moves_step hstep hlaunch fun requestId heq => hadmits ⟨requestId, heq⟩)

/-- Launched batches stay apart. -/
theorem Apart.step (h : Apart s) (hstep : step s a = some t) : Apart t := by
  rcases step_cases hstep with ⟨hmoves, _⟩ | ⟨b, _, hl⟩ | ⟨requestId, _, rfl⟩
  · exact h.moves hmoves
  · refine ⟨fun c hc => ?_, fun pending hp => ?_⟩
    · rw [hl.batchCount]
      exact Nat.lt_succ_of_lt (h.loopBatches_lt c (hl.loopBatches c hc))
    · rw [hl.batchCount]
      rcases hl.pendings pending hp with hnew | hold
      · rw [hnew]
        refine ⟨Nat.lt_succ_self _, fun hc => ?_⟩
        exact Nat.lt_irrefl _ (h.loopBatches_lt _ (hl.loopBatches _ hc))
      · obtain ⟨hlt, hnot⟩ := h.pendings pending hold
        exact ⟨Nat.lt_succ_of_lt hlt, fun hc => hnot (hl.loopBatches _ hc)⟩
  · exact ⟨h.loopBatches_lt, h.pendings⟩

/-- Only a new request gets into a place from outside. -/
theorem present_step (hstep : step s a = some t) (hq : Present t q) :
    Present s q ∨ q = s.reqCount ∧ ∃ requestId, a = .enqueue requestId := by
  rcases step_cases hstep with ⟨hmoves, _⟩ | ⟨b, _, hl⟩ | ⟨requestId, ha, rfl⟩
  · exact Or.inl (hmoves.within q hq)
  · left
    rcases hq with hq | hq | ⟨c, hc, hq⟩
    · exact Or.inl (hl.waitingQueue ▸ hq)
    · exact Or.inr (Or.inl (hl.chunkedReq ▸ hq))
    · right; right
      have hb := mem_loopBatches_cur hl.curBatch
      rw [hl.batches] at hq
      by_cases hnew : c = s.batchCount
      · rw [hnew, update_self] at hq
        exact ⟨b, mem_append_left _ hb, hq⟩
      · rw [update_of_ne hnew] at hq
        refine ⟨c, ?_, hq⟩
        rcases mem_append.mp hc with hc | hc
        · exact mem_append_left _ (hl.loopBatches c hc)
        · obtain ⟨pending, hp, rfl⟩ := mem_map.mp hc
          refine mem_append_right _ (mem_map_of_mem ?_)
          exact (hl.pendings pending hp).resolve_left hnew
  · rcases hq with hq | hq | hq
    · rcases mem_append.mp hq with hq | hq
      · exact Or.inl (Or.inl hq)
      · exact Or.inr ⟨mem_singleton.mp hq, requestId, ha⟩
    · exact Or.inl (Or.inr (Or.inl hq))
    · exact Or.inl (Or.inr (Or.inr hq))

theorem inFlight_step (h : Apart s) (hstep : step s a = some t) (hq : InFlight t q) :
    InFlight s q ∨ a = .launch none ∧ ∃ b, s.curBatch = some b ∧ q ∈ (s.batches b).reqs := by
  obtain ⟨pending, hp, hq⟩ := hq
  rcases step_cases hstep with ⟨hmoves, _⟩ | ⟨b, ha, hl⟩ | ⟨requestId, _, rfl⟩
  · have hold := hmoves.pendings pending hp
    obtain ⟨hlt, hnot⟩ := h.pendings pending hold
    exact Or.inl ⟨pending, hold, hmoves.shrinks _ hlt hnot q hq⟩
  · rw [hl.batches] at hq
    by_cases hnew : pending.batch = s.batchCount
    · rw [hnew, update_self] at hq
      exact Or.inr ⟨ha, b, hl.curBatch, hq⟩
    · rw [update_of_ne hnew] at hq
      exact Or.inl ⟨pending, (hl.pendings pending hp).resolve_left hnew, hq⟩
  · exact Or.inl ⟨pending, hp, hq⟩

theorem reqCount_le_step (hstep : step s a = some t) : s.reqCount ≤ t.reqCount := by
  rcases step_cases hstep with ⟨hmoves, _⟩ | ⟨b, _, hl⟩ | ⟨requestId, _, rfl⟩
  · exact hmoves.reqCount.ge
  · exact hl.reqCount.ge
  · exact Nat.le_succ _

/-- Requests in places have been admitted. -/
theorem present_lt_step (h : ∀ q, Present s q → q < s.reqCount) (hstep : step s a = some t) :
    ∀ q, Present t q → q < t.reqCount := by
  intro q hq
  rcases present_step hstep hq with hq | ⟨rfl, requestId, rfl⟩
  · exact (h q hq).trans_le (reqCount_le_step hstep)
  · obtain ⟨_, hstep⟩ := ite_none_left_eq_some.mp hstep
    rw [← some.inj hstep]
    exact Nat.lt_succ_self _

/-- A request that has left all places does not come back. -/
theorem not_present_step (hstep : step s a = some t) (hgone : ¬Present s q) (hlt : q < s.reqCount) :
    ¬Present t q ∧ q < t.reqCount := by
  refine ⟨fun hq => ?_, hlt.trans_le (reqCount_le_step hstep)⟩
  rcases present_step hstep hq with hq | ⟨rfl, _⟩
  · exact hgone hq
  · exact Nat.lt_irrefl _ hlt

/-- Only requests in a place get results. -/
theorem emits_step (hstep : step s a = some t) : Emits (ResultOf (Present s)) s t := by
  rcases step_cases hstep with ⟨_, hemits⟩ | ⟨b, _, hl⟩ | ⟨requestId, _, rfl⟩
  · exact hemits
  · exact .refl hl.outbox
  · exact .refl rfl

theorem chosen_step (hstep : step s a = some t) (hchosen : Chosen t.point) :
    (∃ choice, a = .select choice) ∨
      Chosen s.point ∧ t.chunkedReq = s.chunkedReq ∧ ∀ outcome, a ≠ .run outcome := by
  cases stepped hstep with
  | enqueue => exact Or.inr ⟨hchosen, rfl, by simp⟩
  | abort requestId =>
    have hframe := sameFrame_abort s requestId true
    exact Or.inr ⟨hframe.point ▸ hchosen, hframe.chunkedReq, by simp⟩
  | flush outcome pending =>
    obtain ⟨_, hpoint, hchunked, _⟩ := moves_resolve { s with asyncPending := none } pending outcome
    exact Or.inr ⟨hpoint ▸ hchosen, hchunked, by simp⟩
  | select choice => exact Or.inl ⟨choice, rfl⟩
  | launch =>
    unfold launchBatch at hchosen
    split at hchosen
    · exact hchosen.elim
    · exact hchosen.elim
  | launchFails | resolve | run => exact hchosen.elim
  | drain outcome pending hpoint =>
    obtain ⟨_, _, hchunked, _⟩ := moves_resolve { s with asyncPending := none } pending outcome
    exact Or.inr ⟨by rw [hpoint]; trivial, hchunked, by simp⟩
  | dropStale hpoint =>
    exact Or.inr ⟨by rw [hpoint]; trivial, (moves_dropStale s).2.chunkedReq, by simp⟩

/-- What is half prefilled after the choice of a batch. -/
theorem select_chunkedReq {choice : Choice} (hstep : step s (.select choice) = some t) :
    t.chunkedReq = match choice with
      | .prefill _ _ chunked _ => chunked
      | _ => none := by
  cases stepped hstep
  next u _ _ hselect =>
  change u.chunkedReq = _
  cases choice with
  | prefill admitted slot chunked mixed =>
    obtain ⟨_, hselect⟩ := ite_none_right_eq_some.mp hselect
    obtain ⟨rfl, _⟩ := Prod.mk.inj (some.inj hselect)
    split
    · exact (moves_filterBatch (admitRequests (mergeLast s) admitted slot chunked) _ _).2.chunkedReq
    · rfl
  | decode retracted =>
    obtain ⟨⟨hnone, _⟩, hselect⟩ := ite_none_right_eq_some.mp hselect
    obtain ⟨_, hchunked, _⟩ := moves_updateRunningBatch (mergeLast s) retracted
    split at hselect
    · obtain ⟨rfl, _⟩ := Prod.mk.inj (some.inj hselect)
      exact hchunked.trans hnone
    · obtain ⟨rfl, _⟩ := Prod.mk.inj (some.inj hselect)
      exact hchunked.trans hnone
  | nothing =>
    obtain ⟨⟨hnone, _⟩, hselect⟩ := ite_none_right_eq_some.mp hselect
    obtain ⟨rfl, _⟩ := Prod.mk.inj (some.inj hselect)
    exact hnone

/-- The handler of a failed batch takes its requests out of all places, but not out of
`chunked_req` and out of the batch of the step before the one that has just been launched. -/
theorem not_present_of_failure {b : ℕ} {error : String} (hq : q ∈ (s.batches b).reqs)
    (hchunked : s.chunkedReq ≠ some q) (hlaunched : ∀ prevPending, s.point = .launched prevPending →
      q ∉ (s.batches prevPending.batch).reqs) : ¬Present (handleBatchFailure s b error) q := by
  have hframe := sameFrame_handleBatchFailure s b error
  have hid : (s.reqs q).rid ∈ s.requestIds b := mem_map_of_mem hq
  have hcut : ∀ c ∈ s.fourBatches, q ∉ ((handleBatchFailure s b error).batches c).reqs := by
    intro c hc hmem
    rw [(handleBatchFailure_batches hc b error).reqs] at hmem
    simpa [hid] using (mem_filter.mp hmem).2
  rintro (hmem | hmem | ⟨c, hc, hmem⟩)
  · rw [(moves_failure s b error).2.2] at hmem
    simpa [hid] using (mem_filter.mp hmem).2
  · exact hchunked (hframe.chunkedReq ▸ hmem)
  · by_cases hfour : c ∈ s.fourBatches
    · exact hcut c hfour hmem
    · have hsame := foldl_failRequest_batches error s (s.requestIds b) c
      rw [if_neg hfour, ← handleBatchFailure_eq] at hsame
      rw [hsame] at hmem
      rcases mem_append.mp hc with hc | hc
      · rw [hframe.loopBatches] at hc
        exact hfour (mem_fourBatches_of_mem_loopBatches hc)
      · obtain ⟨pending, hp, rfl⟩ := mem_map.mp hc
        rw [hframe.pendings] at hp
        rcases mem_append.mp hp with hp | hp
        · have hpending := mem_toList.mp hp
          exact hfour (by simp [State.fourBatches, hpending])
        · cases hpoint : s.point with
          | launched prevPending =>
            rw [hpoint] at hp
            obtain rfl := mem_singleton.mp hp
            exact hlaunched _ hpoint hmem
          | _ => simp [hpoint] at hp

end Step

end Omni.Scheduler
