import Omni.Scheduler.Selection

/-!
# Every request has one place

A request that is unfinished and has not been aborted is in the waiting queue, in the running
batch, in the prefill batch that has been chosen last, or half prefilled: in exactly one of
them, in every state of the loops.
-/

namespace Omni.Scheduler

open Omni.Transition State List Option

variable {V : Type} {b : ℕ} {admitted : List ℕ} {chunked batch : Option ℕ} {outcome : StepOutcome}
  {a : Action}

/-- The requests of the current batch, if it is a prefill batch. Before the next choice it is
the last batch, which has not been merged into the running batch. -/
def State.prefilled (s : State V) : List ℕ :=
  match s.curBatch with
  | none => []
  | some b => if (s.batches b).isExtend then (s.batches b).reqs else []

/-- How often the request is in the waiting queue, in the running batch, and in the prefill
batch. A half-prefilled request is in the batch that prefills it, and counts once. -/
def tally (s : State V) (q : ℕ) : ℕ :=
  s.waitingQueue.count q + (s.batches s.runningBatch).reqs.count q +
    if s.chunkedReq = some q then 1 else s.prefilled.count q

/-- The ids of the batch whose failure an action is. -/
def State.failedIds (s : State V) : Action → List String
  | .flush (.fails _) | .drain (.fails _) =>
    match s.asyncPending with
    | none => []
    | some pending => s.requestIds pending.batch
  | .launch (some _) | .run (.fails _) =>
    match s.curBatch with
    | none => []
    | some b => s.requestIds b
  | .resolve (.fails _) =>
    match s.point with
    | .launched prevPending => s.requestIds prevPending.batch
    | _ => []
  | _ => []

/-- The action takes the request out of its place: it is part of a failed batch, or an abort
finds it in the waiting queue or marks nothing. -/
def State.drops (s : State V) : Action → ℕ → Bool
  | .abort requestId, q => decide ((s.reqs q).rid = requestId) &&
      (decide (q ∈ s.waitingQueue) || !(markRunningRequestAborted s requestId).2)
  | a, q => decide ((s.reqs q).rid ∈ s.failedIds a)

/-- Each live request has one place, and the current batch is a prefill batch or the running
batch. -/
structure Tallied (live : ℕ → Prop) (s : State V) : Prop where
  unfinished : ∀ q, live q → (s.reqs q).finished = false
  tally : ∀ q, live q → tally s q = 1
  retracted : ∀ q, live q → (s.reqs q).isRetracted = true → q ∈ s.waitingQueue
  current : ∀ b, s.curBatch = some b → ((s.batches b).isExtend = false ↔ b = s.runningBatch)
  decode : ∀ b, s.curBatch = some b → (s.batches b).isExtend = false → s.chunkedReq = none
  chunked : ∀ b, s.curBatch = some b → (s.batches b).isExtend = true → ∀ q,
    live q ∨ s.reqCount ≤ q → (s.batches b).chunkedReq = some q → s.chunkedReq = some q
  last : s.point = .top → s.lastBatch = s.curBatch
  pending : s.point = .top ∧ s.asyncPending ≠ none ∨ (∃ prevPending, s.point =
    .launched prevPending) → ∃ b, s.curBatch = some b ∧ (s.batches b).isExtend = false
  drained : s.point = .drained ∨ s.point = .ready → s.asyncPending = none

/-- What a piece of the loop leaves of a batch, as far as the live requests are concerned. -/
structure SameFor (live : ℕ → Prop) (before after : Batch) : Prop where
  isExtend : after.isExtend = before.isExtend
  chunkedReq : after.chunkedReq = before.chunkedReq
  count : ∀ q, live q → after.reqs.count q = before.reqs.count q

theorem SameFor.refl (live : ℕ → Prop) (batch : Batch) : SameFor live batch batch :=
  ⟨rfl, rfl, fun _ _ => rfl⟩

/-- The places of live requests are as before. -/
structure SamePlaces (live : ℕ → Prop) (s t : State V) : Prop where
  unfinished : ∀ q, live q → (t.reqs q).finished = false
  isRetracted : ∀ q, live q → (t.reqs q).isRetracted = (s.reqs q).isRetracted
  waitingQueue : ∀ q, live q → t.waitingQueue.count q = s.waitingQueue.count q
  chunkedReq : t.chunkedReq = s.chunkedReq
  runningBatch : t.runningBatch = s.runningBatch
  curBatch : t.curBatch = s.curBatch
  batches : ∀ b ∈ s.loopBatches, SameFor live (s.batches b) (t.batches b)
  reqCount : t.reqCount = s.reqCount

section Tallied

variable {s t : State V} {live live' : ℕ → Prop}

theorem SamePlaces.tally (h : SamePlaces live s t) {q : ℕ} (hq : live q) :
    tally t q = tally s q := by
  have hprefilled : t.prefilled.count q = s.prefilled.count q := by
    unfold prefilled
    rw [h.curBatch]
    cases hcur : s.curBatch with
    | none => rfl
    | some b =>
      have hsame := h.batches b (mem_loopBatches_cur hcur)
      dsimp only
      rw [hsame.isExtend]
      split
      · exact hsame.count q hq
      · rfl
  unfold Omni.Scheduler.tally
  rw [h.waitingQueue q hq, h.runningBatch, (h.batches _ (mem_loopBatches_running s)).count q hq,
    h.chunkedReq, hprefilled]

/-- The rule for pieces of the loop that leave the live requests where they are. -/
theorem Tallied.same (h : Tallied live s) (hsub : ∀ q, live' q → live q)
    (hsame : SamePlaces live' s t) (hlast : t.point = .top → t.lastBatch = t.curBatch)
    (hpending : t.point = .top ∧ t.asyncPending ≠ none ∨ (∃ prevPending, t.point =
      .launched prevPending) → ∃ b, s.curBatch = some b ∧ (s.batches b).isExtend = false)
    (hdrained : t.point = .drained ∨ t.point = .ready → t.asyncPending = none) :
    Tallied live' t := by
  have hcurrent : ∀ b, t.curBatch = some b → s.curBatch = some b ∧
      SameFor live' (s.batches b) (t.batches b) := by
    intro b hb
    rw [hsame.curBatch] at hb
    exact ⟨hb, hsame.batches b (mem_loopBatches_cur hb)⟩
  refine ⟨hsame.unfinished, fun q hq => ?_, fun q hq hretracted => ?_, fun b hb => ?_,
    fun b hb hextend => ?_, fun b hb hextend q hq hchunked => ?_, hlast, fun hp => ?_, hdrained⟩
  · rw [hsame.tally hq]
    exact h.tally q (hsub q hq)
  · rw [hsame.isRetracted q hq] at hretracted
    have hmem := count_pos_iff.mpr (h.retracted q (hsub q hq) hretracted)
    rw [← hsame.waitingQueue q hq] at hmem
    exact count_pos_iff.mp hmem
  · obtain ⟨hb, hbatch⟩ := hcurrent b hb
    rw [hbatch.isExtend, hsame.runningBatch]
    exact h.current b hb
  · obtain ⟨hb, hbatch⟩ := hcurrent b hb
    rw [hsame.chunkedReq]
    exact h.decode b hb (hbatch.isExtend ▸ hextend)
  · obtain ⟨hb, hbatch⟩ := hcurrent b hb
    rw [hsame.chunkedReq]
    rw [hsame.reqCount] at hq
    exact h.chunked b hb (hbatch.isExtend ▸ hextend) q (hq.imp_left (hsub q))
      (hbatch.chunkedReq ▸ hchunked)
  · obtain ⟨b, hb, hextend⟩ := hpending hp
    have hb' := hsame.curBatch.trans hb
    exact ⟨b, hb', (hcurrent b hb').2.isExtend.trans hextend⟩

theorem Tallied.stay (h : Tallied live s) (hsub : ∀ q, live' q → live q)
    (hsame : SamePlaces live' s t) (hpoint : t.point = s.point) (hlast : t.lastBatch = s.lastBatch)
    (hasync : t.asyncPending = s.asyncPending) : Tallied live' t := by
  refine h.same hsub hsame (fun htop => ?_) (fun hp => ?_) fun hd => ?_
  · rw [hlast, hsame.curBatch]
    exact h.last (hpoint ▸ htop)
  · rw [hpoint, hasync] at hp
    exact h.pending hp
  · rw [hasync]
    rw [hpoint] at hd
    exact h.drained hd

/-- The end of an iteration that has no step in flight or has just launched one. -/
theorem Tallied.endIteration (h : Tallied live s)
    (hpending : s.asyncPending ≠ none → ∃ b, s.curBatch = some b ∧
      (s.batches b).isExtend = false) : Tallied live s.endIteration := by
  refine h.same (fun _ hq => hq) ⟨h.unfinished, fun _ _ => rfl, fun _ _ => rfl, rfl, rfl, rfl,
    fun b _ => .refl live _, rfl⟩ (fun _ => rfl) (fun hp => ?_) (by simp [State.endIteration])
  rcases hp with ⟨_, hp⟩ | ⟨prevPending, hp⟩
  · exact hpending hp
  · cases hp

theorem process_isRetracted (s : State V) (reqs finished : List ℕ)
    (adapterError : ℕ → Option String) (q : ℕ) :
    ((processBatchResult s reqs finished adapterError).reqs q).isRetracted =
      (s.reqs q).isRetracted := by
  have hrelease : ∀ (u : State V) (p : ℕ), ((releaseRequestKvCache u p).reqs q).isRetracted =
      (u.reqs q).isRetracted := fun u p => (sameFrame_release u p).isRetracted q
  have hfinish : ∀ (ps : List ℕ) (u : State V),
      ((ps.foldl finishRequest u).reqs q).isRetracted = (u.reqs q).isRetracted := by
    intro ps
    induction ps with
    | nil => exact fun _ => rfl
    | cons p ps ih =>
      intro u
      rw [foldl_cons, ih, finishRequest, hrelease]
      by_cases hq : q = p
      · subst hq
        simp [updateReq]
      · simp [updateReq, hq]
  have hstream : ∀ (ps : List ℕ) (u : State V),
      (ps.foldl (streamOutput adapterError) u).reqs = u.reqs := by
    intro ps
    induction ps with
    | nil => exact fun _ => rfl
    | cons p ps ih => exact fun u => (ih _).trans (streamOutput_reqs adapterError u p)
  unfold processBatchResult
  rw [hstream, hfinish]

/-- `process_batch_result` leaves unfinished requests where they are. -/
theorem samePlaces_process (s : State V) (reqs finished : List ℕ)
    (adapterError : ℕ → Option String) (hunfinished : ∀ q, live q →
      ((processBatchResult s reqs finished adapterError).reqs q).finished = false) :
    SamePlaces live s (processBatchResult s reqs finished adapterError) := by
  have hsame := sameBatches_process s reqs finished adapterError
  obtain ⟨hmoves, hwaiting, hchunked, _⟩ := moves_process s reqs finished adapterError
  refine ⟨hunfinished, fun q _ => process_isRetracted s reqs finished adapterError q, fun q _ => ?_,
    hchunked, hsame.runningBatch, hsame.curBatch, fun b _ => ?_, hmoves.reqCount⟩
  · rw [hwaiting]
  · rw [hsame.batches]
    exact .refl live _

/-- Aborting some ids leaves unfinished requests with other ids where they are. -/
theorem samePlaces_cut {ids : List String} (hframe : SameFrame s t)
    (hunfinished : ∀ q, live q → (s.reqs q).finished = false)
    (hspared : ∀ q, live q → (s.reqs q).rid ∉ ids)
    (hwaiting : t.waitingQueue = s.waitingQueue.filter fun q => (s.reqs q).rid ∉ ids)
    (hbatches : ∀ b ∈ s.loopBatches, CutTo s.reqs ids (s.batches b) (t.batches b) ∨
      t.batches b = s.batches b) : SamePlaces live s t := { hframe with
  unfinished q hq := (hframe.finished q).trans (hunfinished q hq)
  isRetracted q _ := hframe.isRetracted q
  waitingQueue q hq := by
    rw [hwaiting]
    exact count_filter (by simpa using hspared q hq)
  batches b hb := by
    rcases hbatches b hb with hcut | hsame
    · refine ⟨hcut.isExtend, hcut.chunkedReq, fun q hq => ?_⟩
      rw [hcut.reqs]
      exact count_filter (by simpa using hspared q hq)
    · rw [hsame]
      exact .refl live _ }

/-- An abort leaves the unfinished requests that it does not take out where they are. -/
theorem samePlaces_abort {r : String} (deferCleanup : Bool)
    (hunfinished : ∀ q, live q → (s.reqs q).finished = false)
    (hspared : ∀ q, live q → (s.reqs q).rid = r →
      deferCleanup = true ∧ Marked s r ∧ q ∉ s.waitingQueue) :
    SamePlaces live s (abort s r deferCleanup) := by
  have hframe := sameFrame_abort s r deferCleanup
  refine { hframe with
    unfinished := fun q hq => (hframe.finished q).trans (hunfinished q hq)
    isRetracted := fun q _ => hframe.isRetracted q, waitingQueue := fun q hq => ?_
    batches := fun b hb => ?_ }
  · rw [(moves_abort s r deferCleanup).2.2]
    by_cases hrid : (s.reqs q).rid = r
    · have hout := (hspared q hq hrid).2.2
      rw [count_eq_zero_of_not_mem hout, count_eq_zero_of_not_mem]
      exact fun hmem => hout (mem_filter.mp hmem).1
    · exact count_filter (by simpa using hrid)
  · by_cases hmarked : deferCleanup = true ∧ Marked s r
    · obtain ⟨rfl, hmarked⟩ := hmarked
      rw [abort_batches_of_marked hmarked]
      exact .refl live _
    · have hcut : (abort s r deferCleanup).batches = cutBatches s r s.fourBatches := by
        cases deferCleanup with
        | false => exact abort_batches_of_not_deferred s r
        | true => exact abort_batches_of_not_marked fun h => hmarked ⟨rfl, h⟩
      rw [hcut, cutBatches, if_pos (mem_fourBatches_of_mem_loopBatches hb)]
      refine ⟨rfl, rfl, fun q hq => count_filter ?_⟩
      have hrid : (s.reqs q).rid ≠ r := fun hrid =>
        hmarked ⟨(hspared q hq hrid).1, (hspared q hq hrid).2.1⟩
      simpa using hrid

theorem samePlaces_failure (error : String)
    (hunfinished : ∀ q, live q → (s.reqs q).finished = false)
    (hspared : ∀ q, live q → (s.reqs q).rid ∉ s.requestIds b) :
    SamePlaces live s (handleBatchFailure s b error) :=
  samePlaces_cut (sameFrame_handleBatchFailure s b error) hunfinished hspared
    (moves_failure s b error).2.2 fun _ hc =>
      Or.inl (handleBatchFailure_batches (mem_fourBatches_of_mem_loopBatches hc) b error)

theorem Tallied.failure (h : Tallied live s) (hsub : ∀ q, live' q → live q) (error : String)
    (hspared : ∀ q, live' q → (s.reqs q).rid ∉ s.requestIds b) :
    Tallied live' (handleBatchFailure s b error) := by
  have hframe := sameFrame_handleBatchFailure s b error
  exact h.stay hsub (samePlaces_failure error (fun q hq => h.unfinished q (hsub q hq)) hspared)
    hframe.point hframe.lastBatch hframe.asyncPending

theorem Tallied.resolve (h : Tallied live s) (hsub : ∀ q, live' q → live q)
    {pending : PendingStep} (hnot : pending.batch ∉ s.loopBatches) (outcome : StepOutcome)
    (hunfinished : ∀ q, live' q → ((resolveAndProcess s pending outcome).reqs q).finished = false)
    (hspared : ∀ error, outcome = .fails error →
      ∀ q, live' q → (s.reqs q).rid ∉ s.requestIds pending.batch) :
    Tallied live' (resolveAndProcess s pending outcome) := by
  cases outcome with
  | fails error => exact h.failure hsub error (hspared error rfl)
  | refused =>
    exact h.stay hsub ⟨fun q hq => h.unfinished q (hsub q hq), fun _ _ => rfl, fun _ _ => rfl,
      rfl, rfl, rfl, fun b _ => .refl live' _, rfl⟩ rfl rfl rfl
  | done finished adapterError =>
    have hupdate : Tallied live (s.updateBatch pending.batch fun batch =>
        { batch with reqs := (handedOver s pending).1 }) := by
      refine h.stay (fun _ hq => hq) ⟨h.unfinished, fun _ _ => rfl, fun _ _ => rfl, rfl, rfl, rfl,
        fun b hb => ?_, rfl⟩ rfl rfl rfl
      have hne : b ≠ pending.batch := fun heq => hnot (heq ▸ hb)
      simp only [updateBatch, Function.update_of_ne hne]
      exact .refl live _
    have hsame := resolve_done s pending finished adapterError
    unfold resolveAndProcess at hsame hunfinished ⊢
    dsimp only at hsame hunfinished ⊢
    split
    · exact hupdate.stay hsub ⟨fun q hq => h.unfinished q (hsub q hq), fun _ _ => rfl,
        fun _ _ => rfl, rfl, rfl, rfl, fun b _ => .refl live' _, rfl⟩ rfl rfl rfl
    next hsome =>
      rw [if_neg hsome] at hsame
      simp only [if_neg hsome] at hunfinished
      exact hupdate.stay hsub (samePlaces_process _ _ _ _ hunfinished) hsame.point hsame.lastBatch
        hsame.asyncPending

/-- What the merge takes over from the prefill batch: unfinished requests that are not half
prefilled. -/
def State.merging (s : State V) : List ℕ :=
  s.prefilled.filter fun q => !(s.reqs q).finished && decide (q ∉ s.chunkedReq.toList ++
    (s.curBatch.bind fun b => (s.batches b).chunkedReq).toList)

theorem Tallied.count_mergeLast (h : Tallied live s) (htop : s.point = .top) (q : ℕ) :
    ((mergeLast s).batches (mergeLast s).runningBatch).reqs.count q =
      (s.batches s.runningBatch).reqs.count q + s.merging.count q := by
  have hlast := h.last htop
  have hnone : s.prefilled = [] → s.merging.count q = 0 := by
    intro hprefilled
    simp [merging, hprefilled]
  unfold Omni.Scheduler.mergeLast
  cases hl : s.lastBatch with
  | none => rw [hnone (by simp [prefilled, ← hlast, hl]), Nat.add_zero]
  | some l =>
    have hcur : s.curBatch = some l := hlast.symm.trans hl
    dsimp only
    by_cases hextend : (s.batches l).isExtend = true
    swap
    · rw [if_neg hextend, hnone (by simp [prefilled, hcur, hextend]), Nat.add_zero]
    have hmerging : s.merging = (s.batches l).reqs.filter fun q => !(s.reqs q).finished &&
        decide (q ∉ s.chunkedReq.toList ++ (s.batches l).chunkedReq.toList) := by
      simp [merging, prefilled, hcur, hextend]
    have hne : l ≠ s.runningBatch := by
      intro heq
      have hdecode := (h.current l hcur).mpr heq
      rw [hextend] at hdecode
      cases hdecode
    rw [if_pos hextend]
    obtain ⟨hself, hothers, _, _⟩ := filterBatch_batches s l fun q =>
      !(s.reqs q).finished && decide (q ∉ s.chunkedReq.toList ++ (s.batches l).chunkedReq.toList)
    obtain ⟨hrunning, _, _, _⟩ := filterBatch_refs s l fun q =>
      !(s.reqs q).finished && decide (q ∉ s.chunkedReq.toList ++ (s.batches l).chunkedReq.toList)
    rw [hmerging, ← hself, ← hothers _ hne.symm, ← hrunning]
    split
    next hempty => rw [hempty, count_nil, Nat.add_zero]
    · split
      next hempty =>
        rw [hempty, count_nil, Nat.zero_add]
        rfl
      · simp only [updateBatch, Function.update_self, Batch.merge, count_append]

/-- After the merge there is no prefill batch left: every live request is in the waiting queue,
in the running batch, or half prefilled. -/
theorem Tallied.mergeLast (h : Tallied live s) (htop : s.point = .top) (q : ℕ) (hq : live q) :
    s.waitingQueue.count q + ((mergeLast s).batches (mergeLast s).runningBatch).reqs.count q +
      (if s.chunkedReq = some q then 1 else 0) = 1 := by
  have hkept : s.merging.count q + (if s.chunkedReq = some q then 1 else 0) =
      if s.chunkedReq = some q then 1 else s.prefilled.count q := by
    by_cases hq' : s.chunkedReq = some q
    · rw [if_pos hq', if_pos hq', count_eq_zero_of_not_mem, Nat.zero_add]
      exact fun hmem => by simpa [hq'] using (mem_filter.mp hmem).2
    rw [if_neg hq', if_neg hq', Nat.add_zero]
    by_cases hmem : q ∈ s.prefilled
    · refine count_filter ?_
      rw [h.unfinished q hq]
      refine (Bool.true_and _).trans (decide_eq_true fun hout => ?_)
      rcases mem_append.mp hout with hout | hout
      · exact hq' (mem_toList.mp hout)
      · obtain ⟨b, hcur, hchunked⟩ := bind_eq_some_iff.mp (mem_toList.mp hout)
        have hextend : (s.batches b).isExtend = true := by
          by_contra hnot
          simp [prefilled, hcur, hnot] at hmem
        exact hq' (h.chunked b hcur hextend q (Or.inl hq) hchunked)
    · rw [count_eq_zero_of_not_mem hmem]
      exact count_eq_zero_of_not_mem fun hin => hmem (mem_filter.mp hin).1
  have htally : Omni.Scheduler.tally s q = 1 := h.tally q hq
  unfold Omni.Scheduler.tally at htally
  rw [h.count_mergeLast htop]
  omega

/-- The state between the merge and the choice of the next batch. -/
structure Merged (live : ℕ → Prop) (s : State V) : Prop where
  unfinished : ∀ q, live q → (s.reqs q).finished = false
  tally : ∀ q, live q → s.waitingQueue.count q + (s.batches s.runningBatch).reqs.count q +
    (if s.chunkedReq = some q then 1 else 0) = 1
  retracted : ∀ q, live q → (s.reqs q).isRetracted = true → q ∈ s.waitingQueue
  runningBatch_lt : s.runningBatch < s.batchCount

theorem Tallied.merged (h : Tallied live s) (hapart : Apart s) (htop : s.point = .top) :
    Merged live (Omni.Scheduler.mergeLast s) := by
  have hreqs := mergeLast_reqs s
  obtain ⟨hmoves, hqueues⟩ := moves_mergeLast s
  refine ⟨fun q hq => ?_, fun q hq => ?_, fun q hq hretracted => ?_, ?_⟩
  · rw [hreqs]
    exact h.unfinished q hq
  · rw [hqueues.chunkedReq, hqueues.waitingQueue]
    exact h.mergeLast htop q hq
  · rw [hreqs] at hretracted
    rw [hqueues.waitingQueue]
    exact h.retracted q hq hretracted
  · exact (hapart.moves hmoves).loopBatches_lt _ (mem_loopBatches_running _)

theorem Merged.count_unfinishedRunning (h : Merged live s) {q : ℕ} (hq : live q) :
    s.unfinishedRunning.count q = (s.batches s.runningBatch).reqs.count q := by
  refine count_filter ?_
  rw [h.unfinished q hq]
  rfl

/-- A new prefill batch of admitted requests, and maybe of the requests that ran. -/
theorem Merged.prefills (h : Merged live s) {running : List ℕ}
    (hp : Prefills s t admitted chunked running b) (hnodup : admitted.Nodup) : Tallied live t := by
  have hprefilled : t.prefilled = admitted ++ running := by
    simp [prefilled, hp.curBatch, hp.isExtend, hp.reqs]
  have hrunning : ∀ q, live q → running.count q + (t.batches t.runningBatch).reqs.count q =
      (s.batches s.runningBatch).reqs.count q := by
    intro q hq
    rcases hp.ofRunning with ⟨hnil, hsame⟩ | ⟨hsome, hempty⟩
    · rw [hnil, hsame, count_nil, Nat.zero_add]
    · rw [hsome, hempty, count_nil, Nat.add_zero, h.count_unfinishedRunning hq]
  have hcur : ∀ c, t.curBatch = some c → c = b := fun c hc =>
    (some.inj (hp.curBatch.symm.trans hc)).symm
  refine ⟨fun q hq => (hp.finished q).trans (h.unfinished q hq), fun q hq => ?_,
    fun q hq hretracted => ?_, fun c hc => ?_, fun c hc hdecode => ?_, fun c hc _ q _ hq => ?_,
    by simp [hp.point], by simp [hp.point], by simp [hp.point]⟩
  · have hbefore := h.tally q hq
    have hcount := hrunning q hq
    unfold Omni.Scheduler.tally
    rw [hp.chunkedReq, hprefilled, count_append, hp.waitingQueue]
    by_cases hmem : q ∈ admitted
    · -- The request has left its one place for the new batch.
      have hzero : (s.waitingQueue.filter fun q => decide (q ∉ admitted)).count q = 0 :=
        count_eq_zero_of_not_mem fun hout => by simp [hmem] at hout
      have hone : admitted.count q = 1 := count_eq_one_of_mem hnodup hmem
      have hplace : 0 < s.waitingQueue.count q + (if s.chunkedReq = some q then 1 else 0) := by
        rcases hp.ofAdmitted q hmem with hq' | hq'
        · have hpos := count_pos_iff.mpr hq'
          omega
        · simp [hq']
      split <;> omega
    · have hsame : (s.waitingQueue.filter fun q => decide (q ∉ admitted)).count q =
          s.waitingQueue.count q := count_filter (by simpa using hmem)
      have hnone : s.chunkedReq ≠ some q := fun hq' => hmem (hp.oldChunked q hq')
      have hnone' : chunked ≠ some q := fun hq' => hmem (hp.newChunked q hq')
      have hzero : admitted.count q = 0 := count_eq_zero_of_not_mem hmem
      rw [if_neg hnone] at hbefore
      rw [if_neg hnone', hsame, hzero]
      omega
  · rw [hp.isRetracted] at hretracted
    obtain ⟨hmem, hbefore⟩ := Bool.and_eq_true_iff.mp hretracted
    rw [hp.waitingQueue]
    exact mem_filter.mpr ⟨h.retracted q hq hbefore, hmem⟩
  · obtain rfl := hcur c hc
    simp [hp.isExtend, hp.ne_running]
  · obtain rfl := hcur c hc
    rw [hp.isExtend] at hdecode
    cases hdecode
  · obtain rfl := hcur c hc
    rw [hp.chunkedReq, ← hp.batchChunked]
    exact hq

/-- What stays and what leaves. -/
theorem count_filter_add (xs ys : List ℕ) (q : ℕ) :
    (xs.filter fun q => q ∈ ys).count q + (xs.filter fun q => q ∉ ys).count q = xs.count q := by
  by_cases hq : q ∈ ys
  · have hout : (xs.filter fun q => q ∉ ys).count q = 0 :=
      count_eq_zero_of_not_mem fun hmem => by simp [hq] at hmem
    rw [hout, count_filter (by simpa using hq), Nat.add_zero]
  · have hout : (xs.filter fun q => q ∈ ys).count q = 0 :=
      count_eq_zero_of_not_mem fun hmem => by simp [hq] at hmem
    rw [hout, count_filter (by simpa using hq), Nat.zero_add]

/-- The running batch decodes, and retracted requests move to the waiting queue. -/
theorem Merged.decodes (h : Merged live s) {retracted : List ℕ} (hd : Decodes s t retracted) :
    Tallied live t := by
  have hprefilled : t.prefilled = [] := by
    unfold prefilled
    cases hcur : t.curBatch with
    | none => rfl
    | some b => simp [(hd.curBatch b hcur).2]
  refine ⟨fun q hq => (hd.finished q).trans (h.unfinished q hq), fun q hq => ?_,
    fun q hq hretracted => ?_, fun c hc => ?_, fun _ _ _ => hd.chunkedReq, fun c hc hextend => ?_,
    by simp [hd.point], by simp [hd.point], by simp [hd.point]⟩
  · have hbefore := h.tally q hq
    have hparts := count_filter_add s.unfinishedRunning retracted q
    rw [h.count_unfinishedRunning hq] at hparts
    rw [hd.oldChunked, if_neg (by simp)] at hbefore
    unfold Omni.Scheduler.tally
    rw [hd.waitingQueue, hd.reqs, hd.chunkedReq, hprefilled, count_append, count_nil,
      if_neg (by simp)]
    omega
  · rw [hd.waitingQueue]
    rw [hd.isRetracted] at hretracted
    rcases Bool.or_eq_true_iff.mp hretracted with hnew | hbefore
    · exact mem_append_right _ (mem_filter.mpr ((of_decide_eq_true hnew).imp_right decide_eq_true))
    · exact mem_append_left _ (h.retracted q hq hbefore)
  · obtain ⟨rfl, hdecode⟩ := hd.curBatch c hc
    exact ⟨fun _ => rfl, fun _ => hdecode⟩
  · rw [(hd.curBatch c hc).2] at hextend
    cases hextend

/-- `get_next_batch_to_run`. -/
theorem Tallied.select (h : Tallied live s) (hapart : Apart s) {choice : Choice}
    (hnodup : ∀ admitted slot chunked mixed, choice = .prefill admitted slot chunked mixed →
      admitted.Nodup) (hstep : step s (.select choice) = some t) : Tallied live t := by
  have hlt := (hapart.moves (moves_mergeLast s).1).loopBatches_lt _ (mem_loopBatches_running _)
  obtain ⟨htop, ⟨admitted, slot, chunked, mixed, running, b, rfl, hp⟩ | ⟨retracted, -, hd⟩ |
    ⟨-, hidles⟩⟩ := select_cases hlt hstep
  · exact (h.merged hapart htop).prefills hp (hnodup _ _ _ _ rfl)
  · exact (h.merged hapart htop).decodes hd
  · have hmerged := h.merged hapart htop
    rw [hidles.eq]
    refine ⟨hmerged.unfinished, fun q hq => ?_, hmerged.retracted, by simp [setCurrent],
      by simp [setCurrent], by simp [setCurrent], by simp [setCurrent],
      by simp [setCurrent], by simp [setCurrent]⟩
    have hbefore := hmerged.tally q hq
    rw [hidles.oldChunked, if_neg (by simp)] at hbefore
    change _ + _ + (if (Omni.Scheduler.mergeLast s).chunkedReq = some q then 1 else 0) = 1
    rw [hidles.oldChunked, if_neg (by simp)]
    exact hbefore

/-- A step has been launched for a copy of the current batch. -/
theorem Tallied.launch (h : Tallied live s) (hapart : Apart s)
    (hstep : step s (.launch none) = some t) : Tallied live t := by
  cases stepped hstep
  next b hpoint hcur hdecode =>
  have hplaces : ∀ (async : Option PendingStep) (point : LoopPoint),
      SamePlaces live s { s.newBatch (s.batches b) with
        asyncPending := async, point := point } := by
    refine fun async point => ⟨h.unfinished, fun _ _ => rfl, fun _ _ => rfl, rfl, rfl, rfl,
      fun c hc => ?_, rfl⟩
    rw [newBatch_old _ (hapart.loopBatches_lt c hc)]
    exact .refl live _
  unfold launchBatch
  split
  next hnone =>
    have hlaunched : Tallied live { s.newBatch (s.batches b) with
        asyncPending := some ⟨s.batchCount, (s.batches b).reqs⟩ } :=
      h.same (fun _ hq => hq) (hplaces _ s.point) (by simp [newBatch, hpoint])
        (by simp [newBatch, hpoint]) (by simp [newBatch, hpoint])
    refine hlaunched.endIteration fun _ => ⟨b, hcur, ?_⟩
    rw [newBatch_old _ (hapart.loopBatches_lt b (mem_loopBatches_cur hcur))]
    exact hdecode
  · exact h.same (fun _ hq => hq) (hplaces _ _) (by simp) (fun _ => ⟨b, hcur, hdecode⟩) (by simp)

/-- Stale requests are dropped from the current batch. None of them is live. -/
theorem Tallied.dropStale (h : Tallied live s) (hpoint : s.point = .drained) :
    Tallied live { dropStaleOverrun s with point := .ready } := by
  have hasync := h.drained (Or.inl hpoint)
  have hready : ∀ u : State V, u.asyncPending = none → SamePlaces live s u →
      Tallied live { u with point := .ready } := by
    intro u hu hsame
    exact h.same (fun _ hq => hq) { hsame with } (by simp) (by simp) fun _ => hu
  have hsame : SamePlaces live s s := ⟨h.unfinished, fun _ _ => rfl, fun _ _ => rfl, rfl, rfl,
    rfl, fun b _ => .refl live _, rfl⟩
  unfold dropStaleOverrun
  cases hcur : s.curBatch with
  | none => exact hready s hasync hsame
  | some b =>
    dsimp only
    split
    swap
    · exact hready s hasync hsame
    have hkept : ∀ q, live q → q ∈ (s.batches b).reqs → s.stale q = false := by
      intro q hq hmem
      have htally := h.tally q hq
      have hcount := count_pos_iff.mpr hmem
      have hplace : 0 < (s.batches s.runningBatch).reqs.count q +
          (if s.chunkedReq = some q then 1 else s.prefilled.count q) := by
        by_cases hextend : (s.batches b).isExtend = true
        · have hprefilled : s.prefilled = (s.batches b).reqs := by
            simp [prefilled, hcur, hextend]
          rw [hprefilled]
          split <;> omega
        · rw [← (h.current b hcur).mp (by simpa using hextend)]
          omega
      unfold Omni.Scheduler.tally at htally
      have hwaiting : q ∉ s.waitingQueue := fun hw => by
        have hpos := count_pos_iff.mpr hw
        omega
      unfold stale
      rw [h.unfinished q hq, Bool.false_or, Bool.eq_false_iff]
      exact fun hretracted => hwaiting (h.retracted q hq hretracted)
    obtain ⟨hself, hothers, hflags, hreqs⟩ := filterBatch_batches s b fun q => !s.stale q
    obtain ⟨hmoves, hqueues⟩ := moves_filterBatch s b fun q => !s.stale q
    obtain ⟨hrunning, hlast, _, _⟩ := filterBatch_refs s b fun q => !s.stale q
    have hcur' : (filterBatch s b fun q => !s.stale q).curBatch = s.curBatch := by
      unfold filterBatch
      split <;> rfl
    have hasync' : (filterBatch s b fun q => !s.stale q).asyncPending = none := by
      unfold filterBatch
      split <;> exact hasync
    generalize filterBatch s b _ = u at *
    have hplaces : SamePlaces live s u := by
      refine ⟨fun q hq => hreqs ▸ h.unfinished q hq, fun q _ => by rw [hreqs], fun q _ => by
        rw [hqueues.waitingQueue], hqueues.chunkedReq, hrunning, hcur', fun c _ =>
          ⟨(hflags c).1, (hflags c).2, fun q hq => ?_⟩, hmoves.reqCount⟩
      by_cases hc : c = b
      · subst hc
        rw [hself]
        by_cases hmem : q ∈ (s.batches c).reqs
        · exact count_filter (by simp [hkept q hq hmem])
        · rw [count_eq_zero_of_not_mem hmem, count_eq_zero_of_not_mem]
          exact fun hout => hmem (mem_filter.mp hout).1
      · rw [hothers c hc]
    split
    swap
    · exact hready u hasync' hplaces
    next hempty =>
    have hu := hready u hasync' hplaces
    have hprefilled : u.prefilled = [] := by
      simp [prefilled, hcur'.trans hcur, hempty]
    refine ⟨hu.unfinished, fun q hq => ?_, hu.retracted, by simp, by simp, by simp, by simp,
      by simp, fun _ => hasync'⟩
    have hbefore := hu.tally q hq
    change _ + _ + (if u.chunkedReq = some q then 1 else u.prefilled.count q) = 1 at hbefore
    rw [hprefilled] at hbefore
    exact hbefore

/-- Running the current batch. -/
theorem Tallied.run (h : Tallied live s) (hsub : ∀ q, live' q → live q)
    (hstep : step s (.run outcome) = some t)
    (hunfinished : ∀ q, live' q → (t.reqs q).finished = false)
    (hspared : ∀ q, live' q → (s.reqs q).rid ∉ s.failedIds (.run outcome)) : Tallied live' t := by
  have hend : ∀ u : State V, u.asyncPending = none → Tallied live' u →
      Tallied live' u.endIteration := fun u hu htallied =>
    htallied.endIteration fun hpending => absurd hu hpending
  cases stepped hstep
  next hpoint =>
  have hasync : s.asyncPending = none := by
    rcases hpoint with ⟨_, hasync⟩ | hready
    · exact hasync
    · exact h.drained (Or.inr hready)
  have hrest : Tallied live' s := h.stay hsub ⟨fun q hq => h.unfinished q (hsub q hq),
    fun _ _ => rfl, fun _ _ => rfl, rfl, rfl, rfl, fun b _ => .refl live' _, rfl⟩ rfl rfl rfl
  unfold runBatch at hunfinished ⊢
  cases hcur : s.curBatch with
  | none => exact hend s hasync hrest
  | some b =>
    rw [hcur] at hunfinished
    cases outcome with
    | fails error =>
      have hframe := sameFrame_handleBatchFailure s b error
      refine hend _ (hframe.asyncPending.trans hasync) (h.failure hsub error fun q hq => ?_)
      have hout := hspared q hq
      simp only [failedIds, hcur] at hout
      exact hout
    | refused => exact hend s hasync hrest
    | done finished adapterError =>
      have hsame := sameBatches_process s (s.batches b).reqs finished adapterError
      refine hend _ (hsame.asyncPending.trans hasync) (h.stay hsub ?_ hsame.point hsame.lastBatch
        hsame.asyncPending)
      exact samePlaces_process s (s.batches b).reqs finished adapterError hunfinished

/-- A new request enters the waiting queue. -/
theorem Tallied.enqueue (h : Tallied live s) (hpresent : ∀ q, Present s q → q < s.reqCount)
    {requestId : String} (hlive : ∀ q, live' q → live q ∨ q = s.reqCount)
    (hold : ∀ q, live q → q < s.reqCount) (hstep : step s (.enqueue requestId) = some t) :
    Tallied live' t := by
  cases stepped hstep
  have hnew : ∀ q, live q → q ≠ s.reqCount := fun q hq => Nat.ne_of_lt (hold q hq)
  have hfresh : ¬Present s s.reqCount := fun hp => Nat.lt_irrefl _ (hpresent _ hp)
  have hchunked : s.chunkedReq ≠ some s.reqCount := fun hq => hfresh (Or.inr (Or.inl hq))
  have hbatch : ∀ b ∈ s.loopBatches, s.reqCount ∉ (s.batches b).reqs := fun b hb hq =>
    hfresh (Or.inr (Or.inr ⟨b, mem_append_left _ hb, hq⟩))
  have hprefilled : s.prefilled.count s.reqCount = 0 := by
    refine count_eq_zero_of_not_mem fun hq => ?_
    unfold prefilled at hq
    cases hcur : s.curBatch with
    | none => simp [hcur] at hq
    | some b =>
      simp only [hcur] at hq
      split at hq
      · exact hbatch b (mem_loopBatches_cur hcur) hq
      · cases hq
  refine { h with unfinished := fun q hq => ?_, tally := fun q hq => ?_, retracted :=
    fun q hq hretracted => ?_, chunked := fun b hb hextend q hq hchunkedReq => ?_ }
  · rcases hlive q hq with hq | rfl
    · dsimp only
      rw [Function.update_of_ne (hnew q hq)]
      exact h.unfinished q hq
    · simp
  · change (s.waitingQueue ++ [s.reqCount]).count q + (s.batches s.runningBatch).reqs.count q +
      (if s.chunkedReq = some q then 1 else s.prefilled.count q) = 1
    rw [count_append]
    rcases hlive q hq with hq | rfl
    · have hbefore := h.tally q hq
      rw [show [s.reqCount].count q = 0 by simp [(hnew q hq).symm]]
      exact hbefore
    · rw [if_neg hchunked, hprefilled, count_eq_zero_of_not_mem fun hq => hfresh (Or.inl hq),
        count_eq_zero_of_not_mem (hbatch _ (mem_loopBatches_running s))]
      simp
  · rcases hlive q hq with hq | rfl
    · dsimp only at hretracted
      rw [Function.update_of_ne (hnew q hq)] at hretracted
      exact mem_append_left _ (h.retracted q hq hretracted)
    · exact mem_append_right _ mem_cons_self
  · refine h.chunked b hb hextend q ?_ hchunkedReq
    rcases hq with hq | hle
    · exact (hlive q hq).imp_right fun heq => Nat.le_of_eq heq.symm
    · exact Or.inr (Nat.le_of_succ_le hle)

/-- The launched step is taken to be resolved. -/
theorem Tallied.take (h : Tallied live s) (hpoint : s.point = .top ∨ s.point = .selected) :
    Tallied live { s with asyncPending := none } := by
  refine h.same (fun _ hq => hq) ⟨h.unfinished, fun _ _ => rfl, fun _ _ => rfl, rfl, rfl, rfl,
    fun b _ => .refl live _, rfl⟩ h.last (fun hp => ?_) fun _ => rfl
  rcases hp with ⟨_, hp⟩ | ⟨prevPending, hp⟩
  · exact absurd rfl hp
  · rcases hpoint with htop | hselected
    · simp [htop] at hp
    · simp [hselected] at hp

theorem resolve_asyncPending (s : State V) (pending : PendingStep) (outcome : StepOutcome) :
    (resolveAndProcess s pending outcome).asyncPending = s.asyncPending := by
  cases outcome with
  | fails error => exact (sameFrame_handleBatchFailure s pending.batch error).asyncPending
  | refused => rfl
  | done finished adapterError => exact (resolve_done s pending finished adapterError).asyncPending

theorem Tallied.resolveStep (h : Tallied live s) (hapart : Apart s) (hstep : step s a = some t)
    (ha : a = .flush outcome ∨ a = .resolve outcome ∨ a = .drain outcome)
    (hsub : ∀ q, live' q → live q) (hunfinished : ∀ q, live' q → (t.reqs q).finished = false)
    (hspared : ∀ q, live' q → s.drops a q = false) : Tallied live' t := by
  rcases ha with rfl | rfl | rfl
  · cases stepped hstep
    next pending htop hpending =>
    have hnot := (hapart.pendings pending (by simp [pendings, hpending])).2
    refine (h.take (Or.inl htop)).resolve hsub hnot outcome hunfinished ?_
    rintro error rfl q hq hid
    have hout := hspared q hq
    simp only [drops, failedIds, hpending] at hout
    exact of_decide_eq_false hout hid
  · cases stepped hstep
    next prevPending hpoint =>
    have hnot := (hapart.pendings prevPending (by simp [pendings, hpoint])).2
    have hresolved : Tallied live' (resolveAndProcess s prevPending outcome) := by
      refine h.resolve hsub hnot outcome hunfinished ?_
      rintro error rfl q hq hid
      have hout := hspared q hq
      simp only [drops, failedIds, hpoint] at hout
      exact of_decide_eq_false hout hid
    have hlaunched := (moves_resolve s prevPending outcome).2.1.trans hpoint
    exact hresolved.endIteration fun _ => hresolved.pending (Or.inr ⟨prevPending, hlaunched⟩)
  · cases stepped hstep
    next pending hpoint hpending =>
    have hnot := (hapart.pendings pending (by simp [pendings, hpending])).2
    have hresolved : Tallied live'
        (resolveAndProcess { s with asyncPending := none } pending outcome) := by
      refine (h.take (Or.inr hpoint)).resolve hsub hnot outcome hunfinished ?_
      rintro error rfl q hq hid
      have hout := hspared q hq
      simp only [drops, failedIds, hpending] at hout
      exact of_decide_eq_false hout hid
    refine hresolved.same (fun _ hq => hq) ⟨hresolved.unfinished, fun _ _ => rfl, fun _ _ => rfl,
      rfl, rfl, rfl, fun b _ => .refl live' _, rfl⟩ (by simp) (by simp) fun _ => ?_
    exact resolve_asyncPending { s with asyncPending := none } pending outcome

/-- **Step lemma.** Live requests keep exactly one place. -/
theorem Tallied.step (h : Tallied live s) (hapart : Apart s)
    (hpresent : ∀ q, Present s q → q < s.reqCount) (hold : ∀ q, live q → q < s.reqCount)
    (hstep : Omni.Scheduler.step s a = some t)
    (hnodup : ∀ admitted slot chunked mixed, a = .select (.prefill admitted slot chunked mixed) →
      admitted.Nodup)
    (hlive : ∀ q, live' q → live q ∨ q = s.reqCount ∧ ∃ requestId, a = .enqueue requestId)
    (hunfinished : ∀ q, live' q → (t.reqs q).finished = false)
    (hspared : ∀ q, live' q → q < s.reqCount → s.drops a q = false) : Tallied live' t := by
  by_cases henqueue : ∃ requestId, a = .enqueue requestId
  · obtain ⟨requestId, rfl⟩ := henqueue
    exact h.enqueue hpresent (fun q hq => (hlive q hq).imp_right And.left) hold hstep
  have hsub : ∀ q, live' q → live q := fun q hq =>
    (hlive q hq).resolve_right fun hnew => henqueue hnew.2
  have hdrops : ∀ q, live' q → s.drops a q = false := fun q hq =>
    hspared q hq (hold q (hsub q hq))
  have hmono : Tallied live t → Tallied live' t := fun htallied =>
    htallied.stay hsub ⟨hunfinished, fun _ _ => rfl, fun _ _ => rfl, rfl, rfl, rfl,
      fun b _ => .refl live' _, rfl⟩ rfl rfl rfl
  cases stepped hstep with
  | enqueue requestId => exact absurd ⟨requestId, rfl⟩ henqueue
  | abort requestId =>
    have hframe := sameFrame_abort s requestId true
    refine h.stay hsub (samePlaces_abort true (fun q hq => h.unfinished q (hsub q hq))
      fun q hq hrid => ?_) hframe.point hframe.lastBatch hframe.asyncPending
    have hout := hdrops q hq
    simp only [drops, hrid, decide_true, Bool.true_and, Bool.or_eq_false_iff,
      Bool.not_eq_false', mark_snd_iff, decide_eq_false_iff_not] at hout
    exact ⟨rfl, hout.2, hout.1⟩
  | flush => exact h.resolveStep hapart hstep (Or.inl rfl) hsub hunfinished hdrops
  | resolve => exact h.resolveStep hapart hstep (Or.inr (Or.inl rfl)) hsub hunfinished hdrops
  | drain => exact h.resolveStep hapart hstep (Or.inr (Or.inr rfl)) hsub hunfinished hdrops
  | select choice =>
    refine hmono (h.select hapart ?_ hstep)
    rintro admitted slot chunked mixed rfl
    exact hnodup admitted slot chunked mixed rfl
  | launch => exact hmono (h.launch hapart hstep)
  | launchFails b error hcur hdecode =>
    have hout : ∀ q, live' q → (s.reqs q).rid ∉ s.requestIds b := by
      intro q hq
      have hout := hdrops q hq
      simp only [drops, failedIds, hcur] at hout
      exact of_decide_eq_false hout
    refine (h.failure hsub error hout).endIteration fun _ => ⟨b, ?_, ?_⟩
    · exact (sameFrame_handleBatchFailure s b error).curBatch.trans hcur
    · have hsame := samePlaces_failure error (fun q hq => h.unfinished q (hsub q hq)) hout
      rw [(hsame.batches b (mem_loopBatches_cur hcur)).isExtend]
      exact hdecode
  | dropStale hpoint => exact hmono (h.dropStale hpoint)
  | run outcome =>
    refine h.run hsub hstep hunfinished fun q hq hid => ?_
    have hout := hdrops q hq
    exact of_decide_eq_false hout hid

end Tallied

end Omni.Scheduler
