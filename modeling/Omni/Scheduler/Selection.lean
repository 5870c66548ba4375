import Omni.Scheduler.Aging

/-!
# What the choice of a batch does

`get_next_batch_to_run` after the merge, told once: who is admitted, who is mixed in, who is
retracted, and what the current batch is then.
-/

namespace Omni.Scheduler

open Omni.Transition

variable {V : Type}

/-- The unfinished requests of the running batch. -/
def State.unfinishedRunning (s : State V) : List ℕ :=
  (s.batches s.runningBatch).reqs.filter fun q => !(s.reqs q).finished

/-- A new prefill batch `b` of admitted requests and some of the running batch. -/
structure Prefills (s t : State V) (admitted : List ℕ) (chunked : Option ℕ) (running : List ℕ)
    (b : ℕ) : Prop where
  ofAdmitted : ∀ q ∈ admitted, q ∈ s.waitingQueue ∨ s.chunkedReq = some q
  oldChunked : ∀ q, s.chunkedReq = some q → q ∈ admitted
  newChunked : ∀ q, chunked = some q → q ∈ admitted
  waitingQueue : t.waitingQueue = s.waitingQueue.filter fun q => q ∉ admitted
  chunkedReq : t.chunkedReq = chunked
  curBatch : t.curBatch = some b
  isExtend : (t.batches b).isExtend = true
  reqs : (t.batches b).reqs = admitted ++ running
  batchChunked : (t.batches b).chunkedReq = chunked
  ne_running : b ≠ t.runningBatch
  ofRunning : running = [] ∧ (t.batches t.runningBatch).reqs = (s.batches s.runningBatch).reqs ∨
    running = s.unfinishedRunning ∧ (t.batches t.runningBatch).reqs = []
  rid : ∀ q, (t.reqs q).rid = (s.reqs q).rid
  finished : ∀ q, (t.reqs q).finished = (s.reqs q).finished
  isRetracted : ∀ q, (t.reqs q).isRetracted = (decide (q ∉ admitted) && (s.reqs q).isRetracted)
  asyncPending : t.asyncPending = s.asyncPending
  point : t.point = .selected
  reqCount : t.reqCount = s.reqCount

/-- The running batch decodes, after finished requests have been filtered out and some have been
retracted. -/
structure Decodes (s t : State V) (retracted : List ℕ) : Prop where
  oldChunked : s.chunkedReq = none
  waitingQueue : t.waitingQueue = s.waitingQueue ++ s.unfinishedRunning.filter fun q =>
    q ∈ retracted
  chunkedReq : t.chunkedReq = none
  curBatch : ∀ b, t.curBatch = some b → b = t.runningBatch ∧ (t.batches b).isExtend = false
  reqs : (t.batches t.runningBatch).reqs = s.unfinishedRunning.filter fun q => q ∉ retracted
  rid : ∀ q, (t.reqs q).rid = (s.reqs q).rid
  finished : ∀ q, (t.reqs q).finished = (s.reqs q).finished
  isRetracted : ∀ q, (t.reqs q).isRetracted = (decide (q ∈ s.unfinishedRunning ∧ q ∈ retracted) ||
    (s.reqs q).isRetracted)
  asyncPending : t.asyncPending = s.asyncPending
  point : t.point = .selected
  reqCount : t.reqCount = s.reqCount

/-- There is nothing to run. -/
structure Idles (s t : State V) : Prop where
  oldChunked : s.chunkedReq = none
  empty : (s.batches s.runningBatch).reqs = []
  eq : t = s.setCurrent none

section Select

variable {s t : State V}

theorem filterBatch_asyncPending (s : State V) (b : ℕ) (keep : ℕ → Bool) :
    (filterBatch s b keep).asyncPending = s.asyncPending := by
  unfold filterBatch
  split <;> rfl

theorem mergeLast_asyncPending (s : State V) : (mergeLast s).asyncPending = s.asyncPending := by
  unfold mergeLast
  split
  · rfl
  · split
    · dsimp only
      split
      · exact filterBatch_asyncPending ..
      · split <;> exact filterBatch_asyncPending ..
    · rfl

theorem prefills_of_select {admitted : List ℕ} {slot : ℕ → ℕ} {chunked : Option ℕ} {mixed : Bool}
    {batch : Option ℕ} (hlt : s.runningBatch < s.batchCount)
    (hselect : selectBatch s (.prefill admitted slot chunked mixed) = some (t, batch)) :
    ∃ running b, batch = some b ∧ Prefills s (t.setCurrent batch) admitted chunked running b := by
  obtain ⟨⟨hadmitted, hold, hnew, _⟩, hselect⟩ := Option.ite_none_right_eq_some.mp hselect
  obtain ⟨rfl, rfl⟩ := Prod.mk.inj (Option.some.inj hselect)
  have hflags : ∀ q, ((admitRequests s admitted slot chunked).reqs q).rid = (s.reqs q).rid ∧
      ((admitRequests s admitted slot chunked).reqs q).finished = (s.reqs q).finished ∧
      ((admitRequests s admitted slot chunked).reqs q).isRetracted =
        (decide (q ∉ admitted) && (s.reqs q).isRetracted) := by
    intro q
    unfold admitRequests
    by_cases hq : q ∈ admitted <;> simp [hq]
  split
  swap
  · have hself := newBatch_self (admitRequests s admitted slot chunked)
      ⟨admitted, admitted, true, chunked, false⟩
    have hrunning := newBatch_old (s := admitRequests s admitted slot chunked)
      ⟨admitted, admitted, true, chunked, false⟩ hlt
    exact ⟨[], s.batchCount, rfl, hadmitted, hold, hnew, rfl, rfl, rfl,
      congrArg Batch.isExtend hself, (congrArg Batch.reqs hself).trans (List.append_nil _).symm,
      congrArg Batch.chunkedReq hself, Nat.ne_of_gt hlt, Or.inl ⟨rfl, congrArg Batch.reqs hrunning⟩,
      fun q => (hflags q).1, fun q => (hflags q).2.1, fun q => (hflags q).2.2, rfl, rfl, rfl⟩
  · unfold mixWithRunning
    rw [filterBatch_admitted]
    have hkeep : (fun q => !((admitRequests s admitted slot chunked).reqs q).finished) =
        fun q => !(s.reqs q).finished := by
      funext q
      rw [(hflags q).2.1]
    rw [hkeep, show (admitRequests s admitted slot chunked).runningBatch = s.runningBatch from rfl]
    obtain ⟨hself, _, _, hsame⟩ := filterBatch_batches s s.runningBatch fun q =>
      !(s.reqs q).finished
    obtain ⟨hrunning, _, hcount, _⟩ := filterBatch_refs s s.runningBatch fun q =>
      !(s.reqs q).finished
    obtain ⟨hmoves, hqueues⟩ := moves_filterBatch s s.runningBatch fun q => !(s.reqs q).finished
    have hasync := filterBatch_asyncPending s s.runningBatch fun q => !(s.reqs q).finished
    generalize (filterBatch s s.runningBatch fun q => !(s.reqs q).finished) = u at *
    have hflags' : (admitRequests u admitted slot chunked).reqs =
        (admitRequests s admitted slot chunked).reqs := by
      unfold admitRequests
      rw [hsame]
    have hmixed : ∀ mixed : Batch, mixed.isExtend = true → mixed.chunkedReq = chunked →
        mixed.reqs = admitted ++ s.unfinishedRunning → Prefills s
          (((((admitRequests u admitted slot chunked).newBatch mixed).newBatch
            .empty).setRunning (u.batchCount + 1)).setCurrent (some u.batchCount)) admitted chunked
          s.unfinishedRunning u.batchCount := by
      intro mixed hextend hchunked hreqs
      have hfirst : ((((admitRequests u admitted slot chunked).newBatch mixed).newBatch
          .empty).batches u.batchCount) = mixed :=
        (newBatch_old (s := (admitRequests u admitted slot chunked).newBatch mixed) .empty
          (Nat.lt_succ_self u.batchCount)).trans
          (newBatch_self (admitRequests u admitted slot chunked) mixed)
      have hsecond := newBatch_self ((admitRequests u admitted slot chunked).newBatch mixed) .empty
      exact ⟨hadmitted, hold, hnew, congrArg (List.filter _) hqueues.waitingQueue, rfl, rfl,
        (congrArg Batch.isExtend hfirst).trans hextend, (congrArg Batch.reqs hfirst).trans hreqs,
        (congrArg Batch.chunkedReq hfirst).trans hchunked, (Nat.succ_ne_self _).symm,
        Or.inr ⟨rfl, congrArg Batch.reqs hsecond⟩,
        fun q => (congrArg (fun reqs => (reqs q).rid) hflags').trans (hflags q).1,
        fun q => (congrArg (fun reqs => (reqs q).finished) hflags').trans (hflags q).2.1,
        fun q => (congrArg (fun reqs => (reqs q).isRetracted) hflags').trans (hflags q).2.2,
        hasync, rfl, hqueues.reqCount⟩
    have hrest : (u.batches u.runningBatch).reqs = s.unfinishedRunning := by
      rw [hrunning]
      exact hself
    refine ⟨s.unfinishedRunning, u.batchCount, congrArg some hcount.symm, ?_⟩
    change Prefills s (State.setCurrent _ (some s.batchCount)) _ _ _ _
    rw [← hcount]
    refine hmixed _ ?_ ?_ ?_
    · split <;> rfl
    · split <;> rfl
    · change (if (u.batches u.runningBatch).reqs = [] then _ else _ : Batch).reqs = _
      split
      next hempty =>
        rw [← hrest, hempty, List.append_nil]
      · exact congrArg (admitted ++ ·) hrest

theorem foldl_retract_reqs (s : State V) (qs : List ℕ) (q : ℕ) :
    ((qs.foldl retractRequest s).reqs q).rid = (s.reqs q).rid ∧
      ((qs.foldl retractRequest s).reqs q).finished = (s.reqs q).finished ∧
      ((qs.foldl retractRequest s).reqs q).isRetracted =
        (decide (q ∈ qs) || (s.reqs q).isRetracted) := by
  induction qs generalizing s with
  | nil => simp
  | cons p qs ih =>
    obtain ⟨hrid, hfinished, hretracted⟩ := ih (retractRequest s p)
    have hrelease := sameFrame_release s p
    rw [List.foldl_cons, hrid, hfinished, hretracted]
    unfold retractRequest
    by_cases hq : q = p
    · subst hq
      simp [State.updateReq, hrelease.rid, hrelease.finished]
    · simp [State.updateReq, hq, hrelease.rid, hrelease.finished, hrelease.isRetracted]

theorem updateRunningBatch_eq (s : State V) (retracted : List ℕ) : ∃ v : State V,
    updateRunningBatch s retracted =
    (s.unfinishedRunning.filter fun q => decide (q ∈ retracted)).foldl retractRequest
    (extendWaitingQueue v (s.unfinishedRunning.filter fun q => decide (q ∈ retracted))) ∧
    (v.batches v.runningBatch).reqs = (s.unfinishedRunning.filter fun q => q ∉ retracted) ∧
    SameQueues s v ∧ v.asyncPending = s.asyncPending ∧ v.reqs = s.reqs := by
  unfold updateRunningBatch
  dsimp only
  obtain ⟨hself, _, _, hreqs⟩ := filterBatch_batches s s.runningBatch fun q =>
    !(s.reqs q).finished
  obtain ⟨hrunning, _, _, _⟩ := filterBatch_refs s s.runningBatch fun q => !(s.reqs q).finished
  obtain ⟨_, hqueues⟩ := moves_filterBatch s s.runningBatch fun q => !(s.reqs q).finished
  have hasync := filterBatch_asyncPending s s.runningBatch fun q => !(s.reqs q).finished
  generalize filterBatch s s.runningBatch _ = u at *
  have hkept : (u.batches u.runningBatch).reqs = s.unfinishedRunning := by
    rw [hrunning]
    exact hself
  obtain ⟨hself', _, _, hreqs'⟩ := filterBatch_batches u u.runningBatch fun q =>
    decide (q ∉ retracted)
  obtain ⟨hrunning', _, _, _⟩ := filterBatch_refs u u.runningBatch fun q => decide (q ∉ retracted)
  obtain ⟨_, hqueues'⟩ := moves_filterBatch u u.runningBatch fun q => decide (q ∉ retracted)
  have hasync' := filterBatch_asyncPending u u.runningBatch fun q => decide (q ∉ retracted)
  refine ⟨filterBatch u u.runningBatch fun q => decide (q ∉ retracted), by rw [hkept], ?_,
    hqueues.trans hqueues', hasync'.trans hasync, hreqs'.trans hreqs⟩
  rw [hrunning', hself', hkept]

/-- Choosing the running batch. -/
theorem decodes_of_select {retracted : List ℕ} {batch : Option ℕ}
    (hselect : selectBatch s (.decode retracted) = some (t, batch)) :
    Decodes s (t.setCurrent batch) retracted := by
  obtain ⟨⟨hnone, _⟩, hselect⟩ := Option.ite_none_right_eq_some.mp hselect
  obtain ⟨v, heq, hstaying, hqueues, hasync, hall⟩ := updateRunningBatch_eq s retracted
  have hflags := foldl_retract_reqs
    (extendWaitingQueue v (s.unfinishedRunning.filter fun q => decide (q ∈ retracted)))
    (s.unfinishedRunning.filter fun q => decide (q ∈ retracted))
  have hqueues' := SameQueues.foldl sameQueues_retract
    (extendWaitingQueue v (s.unfinishedRunning.filter fun q => decide (q ∈ retracted)))
    (s.unfinishedRunning.filter fun q => decide (q ∈ retracted))
  have hsame := SameBatches.foldl sameBatches_retract
    (extendWaitingQueue v (s.unfinishedRunning.filter fun q => decide (q ∈ retracted)))
    (s.unfinishedRunning.filter fun q => decide (q ∈ retracted))
  rw [← heq] at hflags hqueues' hsame
  generalize updateRunningBatch s retracted = w at *
  have hbatch : (w.batches w.runningBatch).reqs =
      s.unfinishedRunning.filter fun q => q ∉ retracted := by
    rw [hsame.batches, hsame.runningBatch]
    exact hstaying
  have hset : ∀ x : State V, x.waitingQueue = w.waitingQueue → x.chunkedReq = w.chunkedReq →
      x.reqs = w.reqs → x.asyncPending = w.asyncPending → x.reqCount = w.reqCount →
      (x.batches x.runningBatch).reqs = (w.batches w.runningBatch).reqs → ∀ b : Option ℕ,
      (∀ c, b = some c → c = x.runningBatch ∧ (x.batches c).isExtend = false) →
      Decodes s (x.setCurrent b) retracted := by
    intro x hxwaiting hxchunked hxreqs hxasync hxcount hxbatch b hb
    refine ⟨hnone, ?_, ?_, hb, hxbatch.trans hbatch, fun q => ?_, fun q => ?_, fun q => ?_, ?_, rfl,
      ?_⟩
    · exact (hxwaiting.trans hqueues'.waitingQueue).trans
        (congrArg (· ++ _) hqueues.waitingQueue)
    · exact ((hxchunked.trans hqueues'.chunkedReq).trans hqueues.chunkedReq).trans hnone
    · exact ((congrArg (fun reqs => (reqs q).rid) hxreqs).trans (hflags q).1).trans
        (congrArg (fun reqs => (reqs q).rid) hall)
    · exact ((congrArg (fun reqs => (reqs q).finished) hxreqs).trans (hflags q).2.1).trans
        (congrArg (fun reqs => (reqs q).finished) hall)
    · refine ((congrArg (fun reqs => (reqs q).isRetracted) hxreqs).trans (hflags q).2.2).trans ?_
      change (_ || (v.reqs q).isRetracted) = _
      rw [hall]
      simp only [List.mem_filter, decide_eq_true_eq]
    · exact (hxasync.trans hsame.asyncPending).trans hasync
    · exact (hxcount.trans hqueues'.reqCount).trans hqueues.reqCount
  split at hselect
  · obtain ⟨rfl, rfl⟩ := Prod.mk.inj (Option.some.inj hselect)
    exact hset w rfl rfl rfl rfl rfl rfl none (by simp)
  · obtain ⟨rfl, rfl⟩ := Prod.mk.inj (Option.some.inj hselect)
    refine hset (w.updateBatch w.runningBatch fun batch => { batch with isExtend := false }) rfl rfl
      rfl rfl rfl (by simp [State.updateBatch]) _ fun c hc => ?_
    cases hc
    exact ⟨rfl, by simp [State.updateBatch]⟩

/-- **Choice.** What a step that chooses the next batch does after the merge. -/
theorem select_cases {choice : Choice} (hlt : (mergeLast s).runningBatch < (mergeLast s).batchCount)
    (hstep : step s (.select choice) = some t) : s.point = .top ∧
      ((∃ admitted slot chunked mixed running b, choice = .prefill admitted slot chunked mixed ∧
        Prefills (mergeLast s) t admitted chunked running b) ∨
      (∃ retracted, choice = .decode retracted ∧ Decodes (mergeLast s) t retracted) ∨
      choice = .nothing ∧ Idles (mergeLast s) t) := by
  cases stepped hstep
  next u batch htop hselect =>
  refine ⟨htop, ?_⟩
  cases choice with
  | prefill admitted slot chunked mixed =>
    obtain ⟨running, b, _, hprefills⟩ := prefills_of_select hlt hselect
    exact Or.inl ⟨admitted, slot, chunked, mixed, running, b, rfl, hprefills⟩
  | decode retracted =>
    exact Or.inr (Or.inl ⟨retracted, rfl, decodes_of_select hselect⟩)
  | nothing =>
    obtain ⟨⟨hnone, hempty⟩, hselect⟩ := Option.ite_none_right_eq_some.mp hselect
    obtain ⟨rfl, rfl⟩ := Prod.mk.inj (Option.some.inj hselect)
    exact Or.inr (Or.inr ⟨rfl, hnone, hempty, rfl⟩)

end Select

end Omni.Scheduler
