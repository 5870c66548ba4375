import Omni.Scheduler.Conservation
import Omni.Scheduler.Selection

/-!
# No request is in two places

Aborted and finished requests may leave their places in many ways. What holds of all
requests is that none of them is in two places, so that no batch has a request twice.
-/

namespace Omni.Scheduler

open Omni.Transition List

variable {V : Type} {q b : ℕ} {a : Action} {choice : Choice}

/-- What `Tallied` says when no request is live: how the current batch, the running batch and
the pending step go together. -/
def Shaped (s : State V) : Prop := Tallied (fun _ => False) s

/-- No request is in two places or twice in a batch, and retracted ones are in no batch of the
loop. -/
structure Distinct (s : State V) : Prop where
  once : ∀ q, tally s q ≤ 1
  prefilled : ∀ q, s.prefilled.count q ≤ 1
  fresh : ∀ q, (s.reqs q).isRetracted = true → q ∉ (s.batches s.runningBatch).reqs ∧ q ∉ s.prefilled

/-- Requests may have left the queue and the batches of the loop. -/
structure Fewer (s t : State V) : Prop where
  isRetracted : ∀ q, (t.reqs q).isRetracted = (s.reqs q).isRetracted
  waitingQueue : ∀ q, t.waitingQueue.count q ≤ s.waitingQueue.count q
  chunkedReq : t.chunkedReq = s.chunkedReq
  runningBatch : t.runningBatch = s.runningBatch
  curBatch : t.curBatch = s.curBatch
  batches : ∀ b ∈ s.runningBatch :: s.curBatch.toList,
    (t.batches b).isExtend = (s.batches b).isExtend ∧
      ∀ q, (t.batches b).reqs.count q ≤ (s.batches b).reqs.count q

section Distinct

variable {s t u : State V}

theorem Fewer.trans (h : Fewer s t) (k : Fewer t u) : Fewer s u where
  isRetracted q := (k.isRetracted q).trans (h.isRetracted q)
  waitingQueue q := (k.waitingQueue q).trans (h.waitingQueue q)
  chunkedReq := k.chunkedReq.trans h.chunkedReq
  runningBatch := k.runningBatch.trans h.runningBatch
  curBatch := k.curBatch.trans h.curBatch
  batches b hb := by
    have hfirst := h.batches b hb
    rw [← h.runningBatch, ← h.curBatch] at hb
    have hsecond := k.batches b hb
    exact ⟨hsecond.1.trans hfirst.1, fun q => (hsecond.2 q).trans (hfirst.2 q)⟩

theorem Fewer.of_eq (hreqs : ∀ q, (t.reqs q).isRetracted = (s.reqs q).isRetracted)
    (hwaiting : t.waitingQueue = s.waitingQueue) (hchunked : t.chunkedReq = s.chunkedReq)
    (hrunning : t.runningBatch = s.runningBatch) (hcur : t.curBatch = s.curBatch)
    (hbatches : ∀ b ∈ s.runningBatch :: s.curBatch.toList, t.batches b = s.batches b) :
    Fewer s t where
  isRetracted := hreqs
  waitingQueue q := by rw [hwaiting]
  chunkedReq := hchunked
  runningBatch := hrunning
  curBatch := hcur
  batches b hb := by
    rw [hbatches b hb]
    exact ⟨rfl, fun _ => Nat.le_refl _⟩

theorem Fewer.prefilled (h : Fewer s t) (q : ℕ) : t.prefilled.count q ≤ s.prefilled.count q := by
  unfold State.prefilled
  rw [h.curBatch]
  cases hcur : s.curBatch with
  | none => exact Nat.le_refl _
  | some b =>
    obtain ⟨hextend, hcount⟩ := h.batches b (by simp [hcur])
    dsimp only
    rw [hextend]
    split
    · exact hcount q
    · exact Nat.le_refl _

theorem Fewer.mem_running (h : Fewer s t) (hq : q ∈ (t.batches t.runningBatch).reqs) :
    q ∈ (s.batches s.runningBatch).reqs := by
  have hcount := (h.batches s.runningBatch mem_cons_self).2 q
  rw [h.runningBatch] at hq
  exact count_pos_iff.mp ((count_pos_iff.mpr hq).trans_le hcount)

theorem Fewer.mem_prefilled (h : Fewer s t) (hq : q ∈ t.prefilled) : q ∈ s.prefilled :=
  count_pos_iff.mp ((count_pos_iff.mpr hq).trans_le (h.prefilled q))

theorem Distinct.fewer (h : Distinct s) (hfewer : Fewer s t) : Distinct t := by
  have hrunning := hfewer.batches s.runningBatch mem_cons_self
  refine ⟨fun q => ?_, fun q => (hfewer.prefilled q).trans (h.prefilled q), fun q hq => ?_⟩
  · have honce := h.once q
    have hwaiting := hfewer.waitingQueue q
    have hcount := hrunning.2 q
    have hprefilled := hfewer.prefilled q
    unfold tally at honce ⊢
    rw [hfewer.chunkedReq, hfewer.runningBatch]
    by_cases hq : s.chunkedReq = some q
    · rw [if_pos hq] at honce ⊢
      omega
    · rw [if_neg hq] at honce ⊢
      omega
  · rw [hfewer.isRetracted] at hq
    obtain ⟨hnot, hnot'⟩ := h.fresh q hq
    exact ⟨fun hmem => hnot (hfewer.mem_running hmem),
      fun hmem => hnot' (hfewer.mem_prefilled hmem)⟩

theorem mem_loopBatches_of_mem (hb : b ∈ s.runningBatch :: s.curBatch.toList) :
    b ∈ s.loopBatches := mem_append_left _ hb

/-- What aborts and failures do. -/
theorem fewer_cut (keep : ℕ → Bool) (hframe : SameFrame s t)
    (hwaiting : t.waitingQueue = s.waitingQueue.filter keep)
    (hbatches : ∀ b ∈ s.loopBatches, (t.batches b).isExtend = (s.batches b).isExtend ∧
      (t.batches b).reqs.Sublist (s.batches b).reqs) : Fewer s t := { hframe with
  waitingQueue q := by
    rw [hwaiting]
    exact filter_sublist.count_le q
  batches b hb := by
    obtain ⟨hextend, hsub⟩ := hbatches b (mem_loopBatches_of_mem hb)
    exact ⟨hextend, hsub.count_le⟩ }

theorem fewer_abort (s : State V) (r : String) (deferCleanup : Bool) :
    Fewer s (abort s r deferCleanup) := by
  refine fewer_cut (fun q => decide ((s.reqs q).rid ≠ r)) (sameFrame_abort s r deferCleanup)
    (moves_abort s r deferCleanup).2.2 fun b hb => ?_
  have hcut : ((cutBatches s r s.fourBatches b).isExtend = (s.batches b).isExtend) ∧
      (cutBatches s r s.fourBatches b).reqs.Sublist (s.batches b).reqs := by
    rw [cutBatches, if_pos (mem_fourBatches_of_mem_loopBatches hb)]
    exact ⟨rfl, filter_sublist⟩
  cases deferCleanup with
  | false => rwa [abort_batches_of_not_deferred]
  | true =>
    by_cases hmarked : Marked s r
    · rw [abort_batches_of_marked hmarked]
      exact ⟨rfl, List.Sublist.refl _⟩
    · rwa [abort_batches_of_not_marked hmarked]

theorem fewer_failure (s : State V) (b : ℕ) (error : String) :
    Fewer s (handleBatchFailure s b error) := by
  refine fewer_cut (fun q => decide ((s.reqs q).rid ∉ s.requestIds b))
    (sameFrame_handleBatchFailure s b error) (moves_failure s b error).2.2 fun c hc => ?_
  have hcut := handleBatchFailure_batches (mem_fourBatches_of_mem_loopBatches hc) b error
  refine ⟨hcut.isExtend, ?_⟩
  rw [hcut.reqs]
  exact filter_sublist

theorem fewer_process (s : State V) (reqs finished : List ℕ) (adapterError : ℕ → Option String) :
    Fewer s (processBatchResult s reqs finished adapterError) := by
  have hsame := sameBatches_process s reqs finished adapterError
  obtain ⟨_, hwaiting, hchunked, _⟩ := moves_process s reqs finished adapterError
  exact .of_eq (process_isRetracted s reqs finished adapterError) hwaiting hchunked
    hsame.runningBatch hsame.curBatch fun b _ => by rw [hsame.batches]

theorem fewer_resolve {pending : PendingStep} (hnot : pending.batch ∉ s.loopBatches)
    (outcome : StepOutcome) : Fewer s (resolveAndProcess s pending outcome) := by
  have hrefl : Fewer s s := .of_eq (fun _ => rfl) rfl rfl rfl rfl fun _ _ => rfl
  cases outcome with
  | fails error => exact fewer_failure s pending.batch error
  | refused => exact hrefl
  | done finished adapterError =>
    have hupdate : Fewer s (s.updateBatch pending.batch fun batch =>
        { batch with reqs := (handedOver s pending).1 }) := by
      refine .of_eq (fun _ => rfl) rfl rfl rfl rfl fun b hb => ?_
      have hne : b ≠ pending.batch := fun heq => hnot (heq ▸ mem_loopBatches_of_mem hb)
      simp [State.updateBatch, hne]
    unfold resolveAndProcess
    dsimp only
    split
    · exact hupdate
    · exact hupdate.trans (fewer_process _ _ _ _)

/-- A batch that fails is empty afterwards. -/
theorem not_mem_prefilled_failure (hcur : s.curBatch = some b) (error : String) (q : ℕ) :
    q ∉ (handleBatchFailure s b error).prefilled := by
  have hfewer := fewer_failure s b error
  intro hq
  unfold State.prefilled at hq
  rw [hfewer.curBatch, hcur] at hq
  dsimp only at hq
  split at hq
  swap
  · cases hq
  have hfour := mem_fourBatches_of_mem_loopBatches (mem_loopBatches_cur hcur)
  rw [(handleBatchFailure_batches hfour b error).reqs] at hq
  obtain ⟨hmem, hkept⟩ := mem_filter.mp hq
  exact of_decide_eq_true hkept (mem_map_of_mem (f := fun q => (s.reqs q).rid) hmem)

theorem fewer_run (s : State V) (outcome : StepOutcome) : Fewer s (runBatch s outcome) := by
  have hrefl : Fewer s s := .of_eq (fun _ => rfl) rfl rfl rfl rfl fun _ _ => rfl
  unfold runBatch
  split
  · exact hrefl
  next b error _ => exact fewer_failure s b error
  next b finished adapterError _ => exact fewer_process s (s.batches b).reqs finished adapterError
  · exact hrefl

/-- The state between the merge and the choice of the next batch. -/
structure MergedDistinct (s : State V) : Prop where
  once : ∀ q, s.waitingQueue.count q + (s.batches s.runningBatch).reqs.count q +
    (if s.chunkedReq = some q then 1 else 0) ≤ 1
  fresh : ∀ q, (s.reqs q).isRetracted = true → q ∉ (s.batches s.runningBatch).reqs
  runningBatch_lt : s.runningBatch < s.batchCount

/-- After the merge there is no prefill batch left: what it held is in the running batch. -/
theorem Distinct.mergeLast (h : Distinct s) (hshaped : Shaped s) (htop : s.point = .top) (q : ℕ) :
    s.waitingQueue.count q + ((mergeLast s).batches (mergeLast s).runningBatch).reqs.count q +
        (if s.chunkedReq = some q then 1 else 0) ≤ 1 ∧
      (q ∈ ((mergeLast s).batches (mergeLast s).runningBatch).reqs →
        q ∈ (s.batches s.runningBatch).reqs ∨ q ∈ s.prefilled) := by
  have hcount := hshaped.count_mergeLast htop q
  have honce := h.once q
  unfold tally at honce
  refine ⟨?_, fun hmem => ?_⟩
  · by_cases hq : s.chunkedReq = some q
    · have hzero : s.merging.count q = 0 := count_eq_zero_of_not_mem fun hmem => by
        simpa [hq] using (mem_filter.mp hmem).2
      rw [if_pos hq] at honce ⊢
      omega
    · have hle : s.merging.count q ≤ s.prefilled.count q := filter_sublist.count_le q
      rw [if_neg hq] at honce ⊢
      omega
  · have hpos := count_pos_iff.mpr hmem
    rw [hcount, Nat.add_pos_iff_pos_or_pos] at hpos
    exact hpos.imp count_pos_iff.mp fun hin => (mem_filter.mp (count_pos_iff.mp hin)).1

theorem Distinct.merged (h : Distinct s) (hshaped : Shaped s) (hapart : Apart s)
    (htop : s.point = .top) : MergedDistinct (Omni.Scheduler.mergeLast s) := by
  obtain ⟨hmoves, hqueues⟩ := moves_mergeLast s
  refine ⟨fun q => ?_, fun q hq hmem => ?_,
    (hapart.moves hmoves).loopBatches_lt _ (mem_loopBatches_running _)⟩
  · rw [hqueues.chunkedReq, hqueues.waitingQueue]
    exact (h.mergeLast hshaped htop q).1
  · rw [mergeLast_reqs] at hq
    obtain ⟨hnot, hnot'⟩ := h.fresh q hq
    exact ((h.mergeLast hshaped htop q).2 hmem).elim hnot hnot'

/-- A request of the running batch is in one place at most. -/
theorem MergedDistinct.prefills (h : MergedDistinct s) {admitted running : List ℕ}
    {chunked : Option ℕ} (hprefills : Prefills s t admitted chunked running b)
    (hnodup : admitted.Nodup) : Distinct t := by
  have hprefilled : t.prefilled = admitted ++ running := by
    simp [State.prefilled, hprefills.curBatch, hprefills.isExtend, hprefills.reqs]
  have hrunning : ∀ q, running.count q + (t.batches t.runningBatch).reqs.count q ≤
      (s.batches s.runningBatch).reqs.count q := by
    intro q
    rcases hprefills.ofRunning with ⟨hnil, hsame⟩ | ⟨hsome, hempty⟩
    · rw [hnil, hsame, count_nil, Nat.zero_add]
    · rw [hsome, hempty, count_nil, Nat.add_zero]
      exact filter_sublist.count_le q
  have hsub : ∀ q, q ∈ running ∨ q ∈ (t.batches t.runningBatch).reqs →
      q ∈ (s.batches s.runningBatch).reqs := by
    intro q hq
    have hcount := hrunning q
    have hpos : 0 < running.count q + (t.batches t.runningBatch).reqs.count q := by
      rcases hq with hq | hq
      · exact Nat.add_pos_left (count_pos_iff.mpr hq) _
      · exact Nat.add_pos_right _ (count_pos_iff.mpr hq)
    exact count_pos_iff.mp (hpos.trans_le hcount)
  have hin : ∀ q ∈ admitted, running.count q + (t.batches t.runningBatch).reqs.count q = 0 ∧
      t.waitingQueue.count q = 0 ∧ admitted.count q = 1 := by
    intro q hq
    have hbefore := h.once q
    have hcount := hrunning q
    have hplace : 0 < s.waitingQueue.count q + (if s.chunkedReq = some q then 1 else 0) := by
      rcases hprefills.ofAdmitted q hq with hq' | hq'
      · exact Nat.add_pos_left (count_pos_iff.mpr hq') _
      · simp [hq']
    refine ⟨by omega, ?_, count_eq_one_of_mem hnodup hq⟩
    rw [hprefills.waitingQueue]
    exact count_eq_zero_of_not_mem fun hout => by simp [hq] at hout
  have hout : ∀ q ∉ admitted, t.waitingQueue.count q + running.count q +
      (t.batches t.runningBatch).reqs.count q ≤ 1 ∧ t.chunkedReq ≠ some q ∧
        admitted.count q = 0 := by
    intro q hq
    have hbefore := h.once q
    have hcount := hrunning q
    have hsame : t.waitingQueue.count q = s.waitingQueue.count q := by
      rw [hprefills.waitingQueue]
      exact count_filter (by simpa using hq)
    have hnone : ¬s.chunkedReq = some q := fun hq' => hq (hprefills.oldChunked q hq')
    rw [if_neg hnone] at hbefore
    refine ⟨by omega, fun hq' => ?_, count_eq_zero_of_not_mem hq⟩
    exact hq (hprefills.newChunked q (hprefills.chunkedReq ▸ hq'))
  refine ⟨fun q => ?_, fun q => ?_, fun q hq => ?_⟩
  · unfold tally
    rw [hprefilled, count_append]
    by_cases hmem : q ∈ admitted
    · obtain ⟨hzero, hgone, hone⟩ := hin q hmem
      split <;> omega
    · obtain ⟨hle, hnone, hzero⟩ := hout q hmem
      rw [if_neg hnone]
      omega
  · rw [hprefilled, count_append]
    by_cases hmem : q ∈ admitted
    · obtain ⟨hzero, _, hone⟩ := hin q hmem
      omega
    · obtain ⟨hle, _, hzero⟩ := hout q hmem
      omega
  · rw [hprefills.isRetracted] at hq
    obtain ⟨hnot, hretracted⟩ := Bool.and_eq_true_iff.mp hq
    have hrun := h.fresh q hretracted
    refine ⟨fun hmem => hrun (hsub q (Or.inr hmem)), fun hmem => ?_⟩
    rw [hprefilled] at hmem
    rcases mem_append.mp hmem with hmem | hmem
    · exact of_decide_eq_true hnot hmem
    · exact hrun (hsub q (Or.inl hmem))

/-- Retracted requests move to the waiting queue. -/
theorem MergedDistinct.decodes (h : MergedDistinct s) {retracted : List ℕ}
    (hdecodes : Decodes s t retracted) : Distinct t := by
  have hprefilled : t.prefilled = [] := by
    unfold State.prefilled
    cases hcur : t.curBatch with
    | none => rfl
    | some b => simp [(hdecodes.curBatch b hcur).2]
  refine ⟨fun q => ?_, fun q => by simp [hprefilled], fun q hq => ⟨fun hmem => ?_, ?_⟩⟩
  · have hbefore := h.once q
    have hparts := count_filter_add s.unfinishedRunning retracted q
    have hsub : s.unfinishedRunning.count q ≤ (s.batches s.runningBatch).reqs.count q :=
      filter_sublist.count_le q
    unfold tally
    rw [hdecodes.waitingQueue, hdecodes.reqs, hdecodes.chunkedReq, hprefilled, count_append,
      count_nil, if_neg (by simp)]
    omega
  · rw [hdecodes.isRetracted] at hq
    rw [hdecodes.reqs] at hmem
    obtain ⟨hrun, hstays⟩ := mem_filter.mp hmem
    rcases Bool.or_eq_true_iff.mp hq with hq | hq
    · exact of_decide_eq_true hstays (of_decide_eq_true hq).2
    · exact h.fresh q hq (mem_filter.mp hrun).1
  · rw [hprefilled]
    exact not_mem_nil

/-- Launching makes a batch, and changes none of the loop. -/
theorem fewer_launch (hapart : Apart s) (hstep : Omni.Scheduler.step s (.launch none) = some t) :
    Fewer s t := by
  obtain ⟨b, hlaunches⟩ := launches_of_step hstep
  have hrefs : t.runningBatch = s.runningBatch ∧ t.curBatch = s.curBatch := by
    cases stepped hstep
    unfold launchBatch
    split <;> exact ⟨rfl, rfl⟩
  refine .of_eq (fun q => by rw [hlaunches.reqs]) hlaunches.waitingQueue hlaunches.chunkedReq
    hrefs.1 hrefs.2 fun c hc => ?_
  have hlt := hapart.loopBatches_lt c (mem_loopBatches_of_mem hc)
  rw [hlaunches.batches, Function.update_of_ne (Nat.ne_of_lt hlt)]

/-- A new request is in the waiting queue only. -/
theorem Distinct.enqueue {requestId : String} (h : Distinct s)
    (hpresent : ∀ q, Present s q → q < s.reqCount)
    (hstep : Omni.Scheduler.step s (.enqueue requestId) = some t) : Distinct t := by
  cases stepped hstep
  have hfresh : ¬Present s s.reqCount := fun hp => Nat.lt_irrefl _ (hpresent _ hp)
  have hprefilled : s.reqCount ∉ s.prefilled := by
    intro hq
    unfold State.prefilled at hq
    cases hcur : s.curBatch with
    | none => simp [hcur] at hq
    | some b =>
      simp only [hcur] at hq
      split at hq
      · exact hfresh (Or.inr (Or.inr ⟨b, mem_append_left _ (mem_loopBatches_cur hcur), hq⟩))
      · cases hq
  have hrunning : s.reqCount ∉ (s.batches s.runningBatch).reqs := fun hq =>
    hfresh (Or.inr (Or.inr ⟨_, mem_append_left _ (mem_loopBatches_running s), hq⟩))
  refine ⟨fun q => ?_, h.prefilled, fun q hq => ?_⟩
  · have honce := h.once q
    unfold tally at honce ⊢
    change (s.waitingQueue ++ [s.reqCount]).count q + (s.batches s.runningBatch).reqs.count q +
      (if s.chunkedReq = some q then 1 else s.prefilled.count q) ≤ 1
    rw [count_append]
    by_cases hnew : q = s.reqCount
    · subst hnew
      rw [count_eq_zero_of_not_mem fun hq => hfresh (Or.inl hq),
        count_eq_zero_of_not_mem hrunning, count_eq_zero_of_not_mem hprefilled,
        if_neg fun hq => hfresh (Or.inr (Or.inl hq))]
      simp
    · rw [show [s.reqCount].count q = 0 by simp [Ne.symm hnew]]
      exact honce
  · by_cases hnew : q = s.reqCount
    · subst hnew
      simp at hq
    · dsimp only at hq
      rw [Function.update_of_ne hnew] at hq
      exact h.fresh q hq

/-- Dropping stale requests. -/
theorem Distinct.dropStale (h : Distinct s) : Distinct (dropStaleOverrun s) := by
  unfold dropStaleOverrun
  split
  · exact h
  next b hcur =>
  split
  swap
  · exact h
  have hfewer : Fewer s (filterBatch s b fun q => !s.stale q) := by
    obtain ⟨hself, hothers, hflags, hreqs⟩ := filterBatch_batches s b fun q => !s.stale q
    obtain ⟨_, hqueues⟩ := moves_filterBatch s b fun q => !s.stale q
    obtain ⟨hrunning, _, _, _⟩ := filterBatch_refs s b fun q => !s.stale q
    refine ⟨fun q => by rw [hreqs], fun q => by rw [hqueues.waitingQueue], hqueues.chunkedReq,
      hrunning, ?_, fun c _ => ⟨(hflags c).1, fun q => ?_⟩⟩
    · unfold filterBatch
      split <;> rfl
    · by_cases hc : c = b
      · subst hc
        rw [hself]
        exact filter_sublist.count_le q
      · rw [hothers c hc]
  have hfiltered := h.fewer hfewer
  dsimp only
  split
  · refine ⟨fun q => ?_, fun _ => Nat.zero_le 1, fun q hq =>
      ⟨(hfiltered.fresh q hq).1, not_mem_nil⟩⟩
    have honce := hfiltered.once q
    unfold tally at honce ⊢
    change _ + _ + (if (filterBatch s b fun q => !s.stale q).chunkedReq = some q then 1 else 0) ≤ 1
    by_cases hq : (filterBatch s b fun q => !s.stale q).chunkedReq = some q
    · rwa [if_pos hq] at honce ⊢
    · rw [if_neg hq] at honce ⊢
      exact (Nat.le_add_right _ _).trans honce
  · exact hfiltered

/-- The actions that neither admit a request nor choose, launch or filter a batch. -/
def Action.Quiet : Action → Prop
  | .enqueue _ | .select _ | .launch none | .dropStale => False
  | _ => True

/-- Such an action takes requests out of their places, and moves none. -/
theorem fewer_step (hquiet : a.Quiet) (hapart : Apart s)
    (hstep : Omni.Scheduler.step s a = some t) :
    Fewer s t := by
  have htake : Fewer s { s with asyncPending := none } :=
    .of_eq (fun _ => rfl) rfl rfl rfl rfl fun _ _ => rfl
  have hend : ∀ u : State V, Fewer u u.endIteration := fun _ =>
    .of_eq (fun _ => rfl) rfl rfl rfl rfl fun _ _ => rfl
  have hpoint : ∀ (u : State V) (point : LoopPoint), Fewer u { u with point := point } :=
    fun _ _ => .of_eq (fun _ => rfl) rfl rfl rfl rfl fun _ _ => rfl
  cases stepped hstep with
  | enqueue | select | launch | dropStale => exact hquiet.elim
  | abort requestId => exact fewer_abort s requestId true
  | flush outcome pending _ hpending =>
    have hnot := (hapart.pendings pending (by simp [State.pendings, hpending])).2
    exact htake.trans (fewer_resolve (s := { s with asyncPending := none }) hnot outcome)
  | launchFails b error => exact (fewer_failure s b error).trans (hend _)
  | resolve outcome prevPending hlaunched =>
    have hnot := (hapart.pendings prevPending (by simp [State.pendings, hlaunched])).2
    exact (fewer_resolve hnot outcome).trans (hend _)
  | drain outcome pending _ hpending =>
    have hnot := (hapart.pendings pending (by simp [State.pendings, hpending])).2
    exact (htake.trans (fewer_resolve (s := { s with asyncPending := none }) hnot
      outcome)).trans (hpoint _ _)
  | run outcome => exact (fewer_run s outcome).trans (hend _)

/-- **Step lemma.** No request gets into two places. -/
theorem Distinct.step (h : Distinct s) (hshaped : Shaped s) (hapart : Apart s)
    (hpresent : ∀ q, Present s q → q < s.reqCount) (hstep : Omni.Scheduler.step s a = some t)
    (hnodup : ∀ admitted slot chunked mixed, a = .select (.prefill admitted slot chunked mixed) →
      admitted.Nodup) : Distinct t := by
  cases a with
  | enqueue requestId => exact h.enqueue hpresent hstep
  | select choice =>
    have hlt := ((hapart.moves (moves_mergeLast s).1).loopBatches_lt _ (mem_loopBatches_running _))
    obtain ⟨htop, hcases⟩ := select_cases hlt hstep
    have hmerged := h.merged hshaped hapart htop
    rcases hcases with ⟨admitted, slot, chunked, mixed, running, b, rfl, hprefills⟩ |
      ⟨retracted, rfl, hdecodes⟩ | ⟨rfl, hidles⟩
    · exact hmerged.prefills hprefills (hnodup admitted slot chunked mixed rfl)
    · exact hmerged.decodes hdecodes
    · rw [hidles.eq]
      refine ⟨fun q => ?_, fun _ => Nat.zero_le 1, fun q hq => ⟨hmerged.fresh q hq, ?_⟩⟩
      · have honce := hmerged.once q
        rw [hidles.oldChunked] at honce
        unfold tally
        change _ + _ + (if (Omni.Scheduler.mergeLast s).chunkedReq = some q then 1 else 0) ≤ 1
        rwa [hidles.oldChunked]
      · exact not_mem_nil
  | launch error =>
    cases error with
    | none => exact h.fewer (fewer_launch hapart hstep)
    | some error => exact h.fewer (fewer_step (a := .launch (some error)) trivial hapart hstep)
  | dropStale =>
    cases stepped hstep
    exact h.dropStale.fewer (.of_eq (fun _ => rfl) rfl rfl rfl rfl fun _ _ => rfl)
  | _ => exact h.fewer (fewer_step (by trivial) hapart hstep)

/-- What is current keeps its shape. -/
theorem Shaped.step (h : Shaped s) (hapart : Apart s) (hpresent : ∀ q, Present s q → q < s.reqCount)
    (hstep : Omni.Scheduler.step s a = some t)
    (hnodup : ∀ admitted slot chunked mixed, a = .select (.prefill admitted slot chunked mixed) →
      admitted.Nodup) : Shaped t :=
  Tallied.step h hapart hpresent (fun _ hq => hq.elim) hstep hnodup (fun _ hq => hq.elim)
    (fun _ hq => hq.elim) fun _ hq => hq.elim

/-- The action takes no request into a prefill batch twice. -/
def Action.AdmitsOnce (a : Action) : Prop :=
  ∀ admitted slot chunked mixed, a = .select (.prefill admitted slot chunked mixed) → admitted.Nodup

/-- What holds of the places of requests in all runs. -/
structure Orderly (s : State V) : Prop where
  apart : Apart s
  admitted : ∀ q, Present s q → q < s.reqCount
  shaped : Shaped s
  distinct : Distinct s

theorem orderly_init (isEntryRank : Bool) : Orderly (State.init V isEntryRank) where
  apart := apart_init isEntryRank
  admitted q hq := absurd hq (not_present_init isEntryRank q)
  shaped := ⟨fun _ hq => hq.elim, fun _ hq => hq.elim, fun _ hq => hq.elim, by simp [State.init],
    by simp [State.init], by simp [State.init], fun _ => rfl, by simp [State.init],
    by simp [State.init]⟩
  distinct := ⟨fun q => by simp [tally, State.init, State.prefilled, Batch.empty],
    fun q => by simp [State.init, State.prefilled], fun q hq => by simp [State.init] at hq⟩

/-- **Step lemma.** -/
theorem Orderly.step (h : Orderly s) (honce : a.AdmitsOnce)
    (hstep : Omni.Scheduler.step s a = some t) : Orderly t where
  apart := h.apart.step hstep
  admitted := present_lt_step h.admitted hstep
  shaped := h.shaped.step h.apart h.admitted hstep honce
  distinct := h.distinct.step h.shaped h.apart h.admitted hstep honce

/-- Who is in the running batch when the next batch has been chosen was in it after the merge. -/
theorem Orderly.select_merged (h : Orderly s)
    (hstep : Omni.Scheduler.step s (.select choice) = some t)
    (hq : q ∈ (t.batches t.runningBatch).reqs) :
    s.point = .top ∧ q ∈ ((mergeLast s).batches (mergeLast s).runningBatch).reqs := by
  have hlt := ((h.apart.moves (moves_mergeLast s).1).loopBatches_lt _ (mem_loopBatches_running _))
  obtain ⟨htop, hcases⟩ := select_cases hlt hstep
  refine ⟨htop, ?_⟩
  rcases hcases with ⟨admitted, slot, chunked, mixed, running, b, rfl, hprefills⟩ |
    ⟨retracted, rfl, hdecodes⟩ | ⟨rfl, hidles⟩
  · rcases hprefills.ofRunning with ⟨_, hsame⟩ | ⟨_, hempty⟩
    · rwa [hsame] at hq
    · rw [hempty] at hq
      cases hq
  · rw [hdecodes.reqs] at hq
    exact (mem_filter.mp (mem_filter.mp hq).1).1
  · rw [hidles.eq] at hq
    exact hq

theorem Orderly.select_running (h : Orderly s)
    (hstep : Omni.Scheduler.step s (.select choice) = some t)
    (hq : q ∈ (t.batches t.runningBatch).reqs) :
    q ∈ (s.batches s.runningBatch).reqs ∨ q ∈ s.prefilled := by
  obtain ⟨htop, hmerged⟩ := h.select_merged hstep hq
  exact (h.distinct.mergeLast h.shaped htop q).2 hmerged

/-- And it is not prefilled in part. -/
theorem Orderly.select_unchunked (h : Orderly s)
    (hstep : Omni.Scheduler.step s (.select choice) = some t)
    (hq : q ∈ (t.batches t.runningBatch).reqs) : s.chunkedReq ≠ some q := by
  obtain ⟨htop, hmerged⟩ := h.select_merged hstep hq
  intro hchunked
  have honce := (h.distinct.mergeLast h.shaped htop q).1
  have hcount := count_pos_iff.mpr hmerged
  rw [if_pos hchunked] at honce
  omega

end Distinct

end Omni.Scheduler
