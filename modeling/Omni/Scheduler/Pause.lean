import Mathlib.Data.Finset.Sort
import Omni.Scheduler.Conservation

/-!
# Pausing generation

The admin requests that stop the engine are handled before the next batch is chosen.
Pausing with `mode=retract` looks at the running batch only. What has just been prefilled
and is not yet merged, or is half prefilled, is not in it.
-/

namespace Omni.Scheduler

open Omni.Transition Function List

variable {V : Type} {a : Action} {u s : State V}

/-- `_last_pause_mode`. -/
inductive PauseMode
  | abort
  | retract
  | inPlace
  deriving DecidableEq

/-- The scheduler with its pause flags. `dropped` are the requests that an abort or a failure
has taken out of their places. -/
structure Engine (V : Type) where
  scheduler : State V
  enginePaused : Bool
  lastPauseMode : Option PauseMode
  dropped : ℕ → Bool

/-- The engine before its first iteration. -/
def Engine.init (V : Type) (isEntryRank : Bool) : Engine V :=
  ⟨.init V isEntryRank, false, none, fun _ => false⟩

/-- `_resolve_pending_async`. -/
def resolvePendingAsync (s : State V) (outcome : StepOutcome) : State V :=
  match s.asyncPending with
  | none => s
  | some pending => resolveAndProcess { s with asyncPending := none } pending outcome

/-! The order in which ids are sorted. -/

theorem isTrans_requestIds : IsTrans String fun r r' => r ≤ r' := inferInstance

theorem antisymm_requestIds : Std.Antisymm fun r r' : String => r ≤ r' := inferInstance

theorem total_requestIds : Std.Total fun r r' : String => r ≤ r' := inferInstance

/-- `_active_request_ids`. -/
def activeRequestIds (s : State V) : List String :=
  let ids := s.pendingRequestBuilds ∪
    (s.backloggedRequestBuildPayloads.filter fun r => r ∉ s.aborted.ids).toFinset ∪
    (s.waitingQueue.map fun q => (s.reqs q).rid).toFinset ∪
    ((s.batched.filter fun q => !(s.reqs q).finished).map fun q => (s.reqs q).rid).toFinset
  @Finset.sort String ids (fun r r' => r ≤ r') _ isTrans_requestIds antisymm_requestIds
    total_requestIds

/-- The batch gives up all its requests, which go back to the waiting queue. -/
def retractAll (s : State V) (b : ℕ) : State V :=
  let retracted := (s.batches b).reqs
  let s := extendWaitingQueue (filterBatch (retracted.foldl retractRequest s) b fun _ => false)
    retracted
  s.updateBatch b fun batch => { batch with batchIsFull := false }

/-- `_retract_running_requests`. -/
def retractRunningRequests (s : State V) : State V :=
  if (s.batches s.runningBatch).reqs = [] then s
  else
    let s := filterBatch s s.runningBatch fun q => !(s.reqs q).finished
    if (s.batches s.runningBatch).reqs = [] then s
    else { retractAll s s.runningBatch with chunkedReq := none }

/-- `_abort_all_requests`. -/
def abortAllRequests (s : State V) : State V :=
  (activeRequestIds s).foldl (fun s r => abort s r false) s

/-- A piece of the event loop, or an admin request. -/
inductive EngineAction
  | loop (a : Action)
  /-- `_admin_pause_generation`, in which a pending step is resolved. -/
  | pause (mode : PauseMode) (outcome : StepOutcome)
  /-- `_admin_continue_generation`. -/
  | resume
  /-- `_run_weight_update_with_lifecycle`. -/
  | updateWeights (abortAll keepEnginePaused : Bool) (outcome : StepOutcome)

/-- The loop does not choose a batch while the engine is paused, and it admits a request to a
batch once. -/
def Engine.permits (e : Engine V) : Action → Bool
  | .select choice => !e.enginePaused && match choice with
    | .prefill admitted _ _ _ => decide admitted.Nodup
    | _ => true
  | _ => true

/-- Take requests out of the live ones. -/
def Engine.drop (e : Engine V) (drops : ℕ → Bool) : Engine V :=
  { e with dropped := fun q => e.dropped q || (decide (q < e.scheduler.reqCount) && drops q) }

/-- `_resolve_pending_async`, which drops the requests of a step that fails. -/
def Engine.resolvePending (e : Engine V) (outcome : StepOutcome) : Engine V :=
  { e.drop (e.scheduler.drops (.flush outcome)) with
    scheduler := resolvePendingAsync e.scheduler outcome }

/-- `_abort_all_requests`, which drops the requests with active ids. -/
def Engine.abortAll (e : Engine V) : Engine V :=
  { e.drop (fun q => (e.scheduler.reqs q).rid ∈ activeRequestIds e.scheduler) with
    scheduler := abortAllRequests e.scheduler }

/-- The transition function. -/
def Engine.step (e : Engine V) : EngineAction → Option (Engine V)
  | .loop a =>
    if e.permits a then
      (Scheduler.step e.scheduler a).map fun s =>
        { e.drop (e.scheduler.drops a) with scheduler := s }
    else none
  | .pause mode outcome =>
    match e.scheduler.point with
    | .top =>
      let e := { e.resolvePending outcome with enginePaused := true, lastPauseMode := some mode }
      some (match mode with
        | .abort => e.abortAll
        | .retract => { e with scheduler := retractRunningRequests e.scheduler }
        | .inPlace => e)
    | _ => none
  | .resume =>
    match e.scheduler.point with
    | .top => some { e with enginePaused := false, lastPauseMode := none }
    | _ => none
  | .updateWeights abortAll keepEnginePaused outcome =>
    match e.scheduler.point with
    | .top =>
      let e := { e.resolvePending outcome with
        enginePaused := keepEnginePaused || e.enginePaused }
      some (if abortAll then e.abortAll else e)
    | _ => none

/-- The request has been admitted, it has not finished, and nothing has taken it out. -/
structure Engine.Live (e : Engine V) (q : ℕ) : Prop where
  lt : q < e.scheduler.reqCount
  unfinished : (e.scheduler.reqs q).finished = false
  dropped : e.dropped q = false

/-- The request is half prefilled, or it is in a prefill batch that is not yet merged into the
running batch. -/
def Prefilling (s : State V) (q : ℕ) : Prop :=
  s.chunkedReq = some q ∨
    ∃ l, s.lastBatch = some l ∧ (s.batches l).isExtend = true ∧ q ∈ (s.batches l).reqs

/-- Every live request waits for a new prefill, in one place of the waiting queue, and no batch
leads to it. -/
def Engine.Unloaded (e : Engine V) : Prop :=
  ∀ q, e.Live q → e.scheduler.waitingQueue.count q = 1 ∧
    q ∉ (e.scheduler.batches e.scheduler.runningBatch).reqs ∧ ¬Prefilling e.scheduler q

/-- The action, if it pauses with `mode=retract`, leads to a state without loaded requests. -/
def RetractUnloads (e : Engine V) (a : EngineAction) : Prop :=
  ∀ outcome, a = .pause .retract outcome → ∀ t, e.step a = some t → t.Unloaded

/-- The action, if it pauses with `mode=retract`, is taken when no live request is prefilling. -/
def RetractBetweenPrefills (e : Engine V) (a : EngineAction) : Prop :=
  ∀ outcome, a = .pause .retract outcome → ∀ q, e.Live q → ¬Prefilling e.scheduler q

/-- The retraction of all requests of the running batch. -/
structure Retracts (s t : State V) (retracted : List ℕ) : Prop where
  waitingQueue : t.waitingQueue = s.waitingQueue ++ retracted
  running : (t.batches t.runningBatch).reqs = []
  chunkedReq : t.chunkedReq = if retracted = [] then s.chunkedReq else none
  runningBatch : t.runningBatch = s.runningBatch
  others : ∀ b ≠ s.runningBatch, t.batches b = s.batches b
  flags : ∀ b, (t.batches b).isExtend = (s.batches b).isExtend ∧
    (t.batches b).chunkedReq = (s.batches b).chunkedReq
  finished : ∀ q, (t.reqs q).finished = (s.reqs q).finished
  isRetracted : ∀ q, (t.reqs q).isRetracted = true → q ∈ retracted ∨ (s.reqs q).isRetracted = true
  curBatch : t.curBatch = s.curBatch
  lastBatch : t.lastBatch = s.lastBatch
  asyncPending : t.asyncPending = s.asyncPending
  point : t.point = s.point
  reqCount : t.reqCount = s.reqCount
  batchCount : t.batchCount = s.batchCount

theorem retracts_retractAll (s : State V) (hsome : (s.batches s.runningBatch).reqs ≠ []) :
    Retracts s { retractAll s s.runningBatch with chunkedReq := none }
      (s.batches s.runningBatch).reqs := by
  have hreqs := foldl_retract_reqs s (s.batches s.runningBatch).reqs
  have hqueues := SameQueues.foldl sameQueues_retract s (s.batches s.runningBatch).reqs
  have hsame := SameBatches.foldl sameBatches_retract s (s.batches s.runningBatch).reqs
  unfold retractAll
  dsimp only
  generalize (s.batches s.runningBatch).reqs.foldl retractRequest s = u at *
  obtain ⟨hself, hothers, hflags, hkept⟩ := filterBatch_batches u s.runningBatch fun _ => false
  obtain ⟨hrunning, hlast, hcount, _⟩ := filterBatch_refs u s.runningBatch fun _ => false
  obtain ⟨hmoves, hqueues'⟩ := moves_filterBatch u s.runningBatch fun _ => false
  have hpoint := filterBatch_point u s.runningBatch fun _ => false
  have hrest : (filterBatch u s.runningBatch fun _ => false).curBatch = u.curBatch ∧
      (filterBatch u s.runningBatch fun _ => false).asyncPending = u.asyncPending := by
    unfold filterBatch
    split <;> exact ⟨rfl, rfl⟩
  generalize filterBatch u s.runningBatch _ = v at *
  rw [hsame.batches] at hself hothers hflags
  have hrunning' : v.runningBatch = s.runningBatch := hrunning.trans hsame.runningBatch
  refine ⟨?_, ?_, (if_neg hsome).symm, hrunning', fun b hb => ?_, fun b => ?_, fun q => ?_,
    fun q hq => ?_, hrest.1.trans hsame.curBatch, hlast.trans hsame.lastBatch,
    hrest.2.trans hsame.asyncPending, hpoint.trans hsame.point,
    hqueues'.reqCount.trans hqueues.reqCount, hcount.trans hsame.batchCount⟩
  · exact congrArg (· ++ _) (hqueues'.waitingQueue.trans hqueues.waitingQueue)
  · change (update v.batches s.runningBatch _ v.runningBatch).reqs = []
    rw [hrunning', update_self]
    exact hself.trans (by simp)
  · change update v.batches s.runningBatch _ b = _
    rw [update_of_ne hb]
    exact hothers b hb
  · change (update v.batches s.runningBatch _ b).isExtend = _ ∧
      (update v.batches s.runningBatch _ b).chunkedReq = _
    by_cases hb : b = s.runningBatch
    · subst hb
      rw [update_self]
      exact hflags _
    · rw [update_of_ne hb]
      exact hflags b
  · change (v.reqs q).finished = _
    rw [hkept]
    exact (hreqs q).2.1
  · change (v.reqs q).isRetracted = true at hq
    rw [hkept, (hreqs q).2.2] at hq
    exact (Bool.or_eq_true_iff.mp hq).imp_left of_decide_eq_true

theorem retracts_running (s : State V) :
    Retracts s (retractRunningRequests s)
      ((s.batches s.runningBatch).reqs.filter fun q => !(s.reqs q).finished) := by
  unfold retractRunningRequests
  split
  next hempty =>
    rw [hempty]
    exact ⟨(append_nil _).symm, hempty, rfl, rfl, fun _ _ => rfl, fun _ => ⟨rfl, rfl⟩,
      fun _ => rfl, fun _ => Or.inr, rfl, rfl, rfl, rfl, rfl, rfl⟩
  obtain ⟨hself, hothers, hflags, hreqs⟩ := filterBatch_batches s s.runningBatch fun q =>
    !(s.reqs q).finished
  obtain ⟨hrunning, hlast, hcount, _⟩ := filterBatch_refs s s.runningBatch fun q =>
    !(s.reqs q).finished
  obtain ⟨hmoves, hqueues⟩ := moves_filterBatch s s.runningBatch fun q => !(s.reqs q).finished
  have hpoint := filterBatch_point s s.runningBatch fun q => !(s.reqs q).finished
  have hrest : (filterBatch s s.runningBatch fun q => !(s.reqs q).finished).curBatch =
      s.curBatch ∧ (filterBatch s s.runningBatch fun q => !(s.reqs q).finished).asyncPending =
        s.asyncPending := by
    unfold filterBatch
    split <;> exact ⟨rfl, rfl⟩
  dsimp only
  generalize filterBatch s s.runningBatch _ = u at *
  rw [← hrunning] at hself hothers
  rw [← hrunning, ← hself]
  split
  next hempty =>
    rw [hempty]
    refine ⟨?_, hempty, hqueues.chunkedReq, hrunning, fun b hb => hothers b (hrunning ▸ hb),
      hflags, fun q => by rw [hreqs],
      fun q hq => Or.inr (hreqs ▸ hq), hrest.1, hlast, hrest.2, hpoint, hqueues.reqCount, hcount⟩
    rw [hqueues.waitingQueue, append_nil]
  next hsome =>
    have hall := retracts_retractAll u hsome
    refine ⟨?_, hall.running, hall.chunkedReq.trans ?_, hall.runningBatch.trans hrunning,
      fun b hb => ?_, fun b => ?_, fun q => ?_, fun q hq => ?_, hall.curBatch.trans hrest.1,
      hall.lastBatch.trans hlast, hall.asyncPending.trans hrest.2, hall.point.trans hpoint,
      hall.reqCount.trans hqueues.reqCount, hall.batchCount.trans hcount⟩
    · exact hall.waitingQueue.trans (congrArg (· ++ _) hqueues.waitingQueue)
    · rw [if_neg hsome, if_neg hsome]
    · exact (hall.others b (hrunning ▸ hb)).trans (hothers b (hrunning ▸ hb))
    · exact ⟨(hall.flags b).1.trans (hflags b).1, (hall.flags b).2.trans (hflags b).2⟩
    · exact (hall.finished q).trans (congrArg (fun reqs => (reqs q).finished) hreqs)
    · exact (hall.isRetracted q hq).imp_right fun hr => hreqs ▸ hr

/-- The invariant of the engine. -/
structure EngineInv (e : Engine V) : Prop where
  apart : Apart e.scheduler
  present : ∀ q, Present e.scheduler q → q < e.scheduler.reqCount
  tallied : Tallied e.Live e.scheduler

theorem engineInv_init (isEntryRank : Bool) : EngineInv (Engine.init V isEntryRank) where
  apart := apart_init isEntryRank
  present q hq := absurd hq (not_present_init isEntryRank q)
  tallied := by
    have hnone : ∀ q, ¬(Engine.init V isEntryRank).Live q := fun q hq => Nat.not_lt_zero q hq.lt
    refine ⟨fun q hq => absurd hq (hnone q), fun q hq => absurd hq (hnone q),
      fun q hq => absurd hq (hnone q), by simp [Engine.init, State.init],
      by simp [Engine.init, State.init], by simp [Engine.init, State.init], fun _ => rfl,
      fun hp => ?_, fun _ => rfl⟩
    rcases hp with ⟨_, hp⟩ | ⟨prevPending, hp⟩
    · exact absurd rfl hp
    · cases hp

section Steps

variable {e t : Engine V}

theorem live_of_step (hstep : step e.scheduler a = some u) (ht : t.scheduler = u)
    (hdropped : t.dropped = (e.drop (e.scheduler.drops a)).dropped) {q : ℕ} (hq : t.Live q) :
    (e.Live q ∨ q = e.scheduler.reqCount ∧ ∃ requestId, a = .enqueue requestId) ∧
      (q < e.scheduler.reqCount → e.scheduler.drops a q = false) := by
  have hflags := hq.dropped
  rw [hdropped, Engine.drop] at hflags
  obtain ⟨hbefore, hnow⟩ := Bool.or_eq_false_iff.mp hflags
  have hspared : q < e.scheduler.reqCount → e.scheduler.drops a q = false := fun hlt => by
    simpa [hlt] using hnow
  have hlt := hq.lt
  have hunfinished := hq.unfinished
  rw [ht] at hlt hunfinished
  refine ⟨?_, hspared⟩
  by_cases hnew : ∃ requestId, a = .enqueue requestId
  · obtain ⟨requestId, rfl⟩ := hnew
    obtain ⟨_, hstep⟩ := Option.ite_none_left_eq_some.mp hstep
    rw [← Option.some.inj hstep] at hlt hunfinished
    have hle : q ≤ e.scheduler.reqCount := Nat.le_of_lt_succ hlt
    by_cases heq : q = e.scheduler.reqCount
    · exact Or.inr ⟨heq, requestId, rfl⟩
    · refine Or.inl ⟨Nat.lt_of_le_of_ne hle heq, ?_, hbefore⟩
      simpa [heq] using hunfinished
  · have hcount : u.reqCount = e.scheduler.reqCount := by
      rcases step_cases hstep with ⟨hmoves, _⟩ | ⟨b, _, hl⟩ | ⟨requestId, ha, _⟩
      · exact hmoves.reqCount
      · exact hl.reqCount
      · exact absurd ⟨requestId, ha⟩ hnew
    refine Or.inl ⟨hcount ▸ hlt, ?_, hbefore⟩
    rcases ages_step hstep with hages | ⟨requestId, ha, _⟩
    · cases hfinished : (e.scheduler.reqs q).finished with
      | false => rfl
      | true => exact absurd (hages.finished q hfinished) (by simp [hunfinished])
    · exact absurd ⟨requestId, ha⟩ hnew

theorem EngineInv.loop (h : EngineInv e)
    (hnodup : ∀ admitted slot chunked mixed, a = .select (.prefill admitted slot chunked mixed) →
      admitted.Nodup) (hstep : step e.scheduler a = some u) (ht : t.scheduler = u)
    (hdropped : t.dropped = (e.drop (e.scheduler.drops a)).dropped) :
    EngineInv t where
  apart := ht ▸ h.apart.step hstep
  present := ht ▸ present_lt_step h.present hstep
  tallied := by
    have hlive := fun q (hq : t.Live q) => live_of_step hstep ht hdropped hq
    rw [ht]
    exact h.tallied.step h.apart h.present (fun q hq => hq.lt) hstep hnodup
      (fun q hq => (hlive q hq).1) (fun q hq => ht ▸ hq.unfinished) fun q hq => (hlive q hq).2

/-- The flags of the engine do not matter. -/
theorem EngineInv.congr (h : EngineInv e) (hscheduler : t.scheduler = e.scheduler)
    (hdropped : t.dropped = e.dropped) : EngineInv t := by
  have hlive : t.Live = e.Live := by
    funext q
    refine propext ⟨fun hq => ⟨?_, ?_, ?_⟩, fun hq => ⟨?_, ?_, ?_⟩⟩
    · exact hscheduler ▸ hq.lt
    · exact hscheduler ▸ hq.unfinished
    · exact hdropped ▸ hq.dropped
    · exact hscheduler ▸ hq.lt
    · exact hscheduler ▸ hq.unfinished
    · exact hdropped ▸ hq.dropped
  exact ⟨hscheduler ▸ h.apart, hscheduler ▸ h.present, hlive ▸ hscheduler ▸ h.tallied⟩

theorem EngineInv.resolvePending (h : EngineInv e) (htop : e.scheduler.point = .top)
    (outcome : StepOutcome) : EngineInv (e.resolvePending outcome) := by
  cases hpending : e.scheduler.asyncPending with
  | none =>
    refine h.congr ?_ ?_
    · simp only [Engine.resolvePending, resolvePendingAsync, hpending]
    · funext q
      cases outcome <;>
        simp [Engine.resolvePending, Engine.drop, State.drops, State.failedIds, hpending]
  | some pending =>
    refine h.loop (a := .flush outcome) (by simp) ?_ rfl rfl
    simp only [step, htop, hpending, Engine.resolvePending, resolvePendingAsync]

theorem tallied_abortAll {live live' : ℕ → Prop} (h : Tallied live s) (hsub : ∀ q, live' q → live q)
    (ids : List String) (hspared : ∀ q, live' q → (s.reqs q).rid ∉ ids) :
    Tallied live' (ids.foldl (fun s r => abort s r false) s) := by
  induction ids generalizing s live with
  | nil =>
    exact h.stay hsub ⟨fun q hq => h.unfinished q (hsub q hq), fun _ _ => rfl, fun _ _ => rfl,
      rfl, rfl, rfl, fun b _ => .refl live' _, rfl⟩ rfl rfl rfl
  | cons r ids ih =>
    have hframe := sameFrame_abort s r false
    have hfirst : Tallied live' (abort s r false) :=
      h.stay hsub (samePlaces_abort false (fun q hq => h.unfinished q (hsub q hq))
        fun q hq hrid => absurd (hrid ▸ mem_cons_self) (hspared q hq)) hframe.point
        hframe.lastBatch hframe.asyncPending
    refine ih hfirst (fun _ hq => hq) fun q hq hmem => hspared q hq ?_
    rw [hframe.rid] at hmem
    exact mem_cons_of_mem r hmem

/-- Aborting all active requests. -/
theorem EngineInv.abortAll (h : EngineInv e) : EngineInv e.abortAll := by
  have hmoves : ∀ (ids : List String) (s : State V),
      Moves s (ids.foldl (fun s r => abort s r false) s) ∧
        SameFrame s (ids.foldl (fun s r => abort s r false) s) := by
    intro ids
    induction ids with
    | nil => exact fun s => ⟨.refl s, .refl s⟩
    | cons r ids ih =>
      exact fun s => ⟨(moves_abort s r false).1.trans (ih _).1,
        (sameFrame_abort s r false).trans (ih _).2⟩
  obtain ⟨hall, hframe⟩ := hmoves (activeRequestIds e.scheduler) e.scheduler
  refine ⟨h.apart.moves hall, fun q hq => ?_, ?_⟩
  · exact hall.reqCount ▸ h.present q (hall.within q hq)
  · have hlive : ∀ q, e.abortAll.Live q →
        e.Live q ∧ (e.scheduler.reqs q).rid ∉ activeRequestIds e.scheduler := by
      intro q hq
      have hlt : q < e.scheduler.reqCount := hall.reqCount ▸ hq.lt
      obtain ⟨hbefore, hnow⟩ := Bool.or_eq_false_iff.mp hq.dropped
      refine ⟨⟨hlt, (hframe.finished q).symm.trans hq.unfinished, hbefore⟩, ?_⟩
      simpa [hlt] using hnow
    exact tallied_abortAll h.tallied (fun q hq => (hlive q hq).1) _ fun q hq => (hlive q hq).2

theorem prefilling_iff (hlast : s.lastBatch = s.curBatch) (q : ℕ) :
    Prefilling s q ↔ 0 < if s.chunkedReq = some q then 1 else s.prefilled.count q := by
  unfold Prefilling State.prefilled
  rw [hlast]
  by_cases hchunked : s.chunkedReq = some q
  · simp [hchunked]
  · rw [if_neg hchunked]
    cases hcur : s.curBatch with
    | none => simp [hchunked]
    | some b =>
      by_cases hextend : (s.batches b).isExtend = true
      · simp [hchunked, hextend, count_pos_iff]
      · simp [hchunked, hextend]

theorem live_retract (ht : t.scheduler = retractRunningRequests e.scheduler)
    (hdropped : t.dropped = e.dropped) (q : ℕ) : t.Live q ↔ e.Live q := by
  have hretracts := retracts_running e.scheduler
  refine ⟨fun hq => ⟨?_, ?_, hdropped ▸ hq.dropped⟩, fun hq => ⟨?_, ?_, hdropped ▸ hq.dropped⟩⟩
  · exact hretracts.reqCount ▸ ht ▸ hq.lt
  · exact (hretracts.finished q).symm.trans (ht ▸ hq.unfinished)
  · rw [ht, hretracts.reqCount]
    exact hq.lt
  · rw [ht, hretracts.finished]
    exact hq.unfinished

theorem EngineInv.unloaded_iff (h : EngineInv e) (htop : e.scheduler.point = .top)
    (ht : t.scheduler = retractRunningRequests e.scheduler) (hdropped : t.dropped = e.dropped) :
    t.Unloaded ↔ ∀ q, e.Live q → ¬Prefilling e.scheduler q := by
  have hretracts := retracts_running e.scheduler
  have hlive := live_retract ht hdropped
  -- What waits afterwards, and what is left of the other places.
  have hplaces : ∀ q, e.Live q → t.scheduler.waitingQueue.count q +
      (if e.scheduler.chunkedReq = some q then 1 else e.scheduler.prefilled.count q) = 1 := by
    intro q hq
    have htally := h.tallied.tally q hq
    have hkept : ((e.scheduler.batches e.scheduler.runningBatch).reqs.filter fun q =>
        !(e.scheduler.reqs q).finished).count q =
          (e.scheduler.batches e.scheduler.runningBatch).reqs.count q := by
      refine count_filter ?_
      rw [hq.unfinished]
      rfl
    rw [ht, hretracts.waitingQueue, count_append, hkept]
    exact htally
  constructor
  · intro hunloaded q hq hprefilling
    have hcount := hplaces q hq
    rw [(hunloaded q ((hlive q).mpr hq)).1] at hcount
    have hpos := (prefilling_iff (h.tallied.last htop) q).mp hprefilling
    omega
  · intro hidle q hq
    have hlive' := (hlive q).mp hq
    have hnot := hidle q hlive'
    have hcount := hplaces q hlive'
    have hzero := mt (prefilling_iff (h.tallied.last htop) q).mpr hnot
    refine ⟨by omega, ?_, ?_⟩
    · rw [ht, hretracts.running]
      exact not_mem_nil
    · rintro (hchunked | ⟨l, hl, hextend, hmem⟩)
      · rw [ht, hretracts.chunkedReq] at hchunked
        split at hchunked
        · exact hnot (Or.inl hchunked)
        · cases hchunked
      · rw [ht, hretracts.lastBatch] at hl
        rw [ht, (hretracts.flags l).1] at hextend
        by_cases hrunning : l = e.scheduler.runningBatch
        · rw [ht, hrunning, ← hretracts.runningBatch, hretracts.running] at hmem
          exact not_mem_nil hmem
        · rw [ht, hretracts.others l hrunning] at hmem
          exact hnot (Or.inr ⟨l, hl, hextend, hmem⟩)

theorem EngineInv.retract (h : EngineInv e) (htop : e.scheduler.point = .top)
    (hasync : e.scheduler.asyncPending = none)
    (ht : t.scheduler = retractRunningRequests e.scheduler) (hdropped : t.dropped = e.dropped)
    (hunloaded : t.Unloaded) : EngineInv t := by
  have hretracts := retracts_running e.scheduler
  have hidle := (h.unloaded_iff htop ht hdropped).mp hunloaded
  have hlive := live_retract ht hdropped
  rw [← ht] at hretracts
  have hloop : t.scheduler.loopBatches = e.scheduler.loopBatches := by
    unfold State.loopBatches
    rw [hretracts.runningBatch, hretracts.curBatch, hretracts.lastBatch]
  have hpendings : t.scheduler.pendings = e.scheduler.pendings := by
    unfold State.pendings
    rw [hretracts.asyncPending, hretracts.point]
  have hlast : t.scheduler.lastBatch = t.scheduler.curBatch := by
    rw [hretracts.lastBatch, hretracts.curBatch]
    exact h.tallied.last htop
  refine ⟨⟨fun b hb => ?_, fun pending hp => ?_⟩, fun q hq => ?_,
    ⟨fun q hq => hq.unfinished, fun q hq => ?_, fun q hq _ => ?_, fun b hb => ?_,
      fun b hb hextend => ?_, fun b hb hextend q hq hchunked => ?_, fun _ => hlast, fun hp => ?_,
      fun _ => hretracts.asyncPending.trans hasync⟩⟩
  · rw [hretracts.batchCount]
    exact h.apart.loopBatches_lt b (hloop ▸ hb)
  · rw [hretracts.batchCount, hloop]
    exact h.apart.pendings pending (hpendings ▸ hp)
  · rw [hretracts.reqCount]
    rcases hq with hq | hq | ⟨b, hb, hq⟩
    · rw [hretracts.waitingQueue] at hq
      rcases mem_append.mp hq with hq | hq
      · exact h.present q (Or.inl hq)
      · exact h.present q (Or.inr (Or.inr ⟨e.scheduler.runningBatch,
          mem_append_left _ (mem_loopBatches_running _), (mem_filter.mp hq).1⟩))
    · rw [hretracts.chunkedReq] at hq
      split at hq
      · exact h.present q (Or.inr (Or.inl hq))
      · cases hq
    · by_cases hrunning : b = e.scheduler.runningBatch
      · rw [hrunning, ← hretracts.runningBatch, hretracts.running] at hq
        exact absurd hq not_mem_nil
      · rw [hretracts.others b hrunning] at hq
        refine h.present q (Or.inr (Or.inr ⟨b, ?_, hq⟩))
        unfold State.refs at hb ⊢
        rwa [← hloop, ← hpendings]
  · obtain ⟨hwaiting, hrunning, hprefilling⟩ := hunloaded q hq
    have hzero := mt (prefilling_iff hlast q).mpr hprefilling
    unfold tally
    rw [hwaiting, count_eq_zero_of_not_mem hrunning]
    omega
  · refine count_pos_iff.mp ?_
    rw [(hunloaded q hq).1]
    exact Nat.one_pos
  · rw [(hretracts.flags b).1, hretracts.runningBatch]
    exact h.tallied.current b (hretracts.curBatch ▸ hb)
  · rw [(hretracts.flags b).1] at hextend
    rw [hretracts.chunkedReq, h.tallied.decode b (hretracts.curBatch ▸ hb) hextend, ite_self]
  · rw [(hretracts.flags b).1] at hextend
    rw [(hretracts.flags b).2] at hchunked
    rw [hretracts.reqCount] at hq
    have hhalf := h.tallied.chunked b (hretracts.curBatch ▸ hb) hextend q
      (hq.imp_left (hlive q).mp) hchunked
    rcases hq with hq | hle
    · exact absurd (Or.inl hhalf) (hidle q ((hlive q).mp hq))
    · exact absurd (h.present q (Or.inr (Or.inl hhalf))) (Nat.not_lt.mpr hle)
  · rcases hp with ⟨_, hp⟩ | ⟨prevPending, hp⟩
    · exact absurd (hretracts.asyncPending.trans hasync) hp
    · rw [hretracts.point, htop] at hp
      cases hp

theorem resolve_isExtend (s : State V) (pending : PendingStep) (outcome : StepOutcome) (b : ℕ) :
    ((resolveAndProcess s pending outcome).batches b).isExtend = (s.batches b).isExtend := by
  cases outcome with
  | fails error =>
    have hcut := foldl_failRequest_batches error s (s.requestIds pending.batch) b
    rw [← handleBatchFailure_eq] at hcut
    split at hcut
    · exact hcut.isExtend
    · exact congrArg Batch.isExtend hcut
  | refused => rfl
  | done finished adapterError =>
    rw [(resolve_done s pending finished adapterError).batches]
    unfold State.updateBatch
    by_cases hb : b = pending.batch
    · subst hb
      simp
    · simp [hb]

theorem resolve_lastBatch (s : State V) (pending : PendingStep) (outcome : StepOutcome) :
    (resolveAndProcess s pending outcome).lastBatch = s.lastBatch := by
  cases outcome with
  | fails error => exact (sameFrame_handleBatchFailure s pending.batch error).lastBatch
  | refused => rfl
  | done finished adapterError => exact (resolve_done s pending finished adapterError).lastBatch

theorem EngineInv.prefilling_resolvePending (h : EngineInv e) (htop : e.scheduler.point = .top)
    (outcome : StepOutcome) :
    (∀ q, (e.resolvePending outcome).Live q →
      ¬Prefilling (e.resolvePending outcome).scheduler q) ↔
        ∀ q, e.Live q → ¬Prefilling e.scheduler q := by
  cases hpending : e.scheduler.asyncPending with
  | none =>
    have hsame : e.resolvePending outcome = e := by
      have hdrops : ∀ q, e.scheduler.drops (.flush outcome) q = false := by
        cases outcome <;> simp [State.drops, State.failedIds, hpending]
      simp [Engine.resolvePending, Engine.drop, resolvePendingAsync, hpending, hdrops]
    rw [hsame]
  | some pending =>
    -- A step is pending only after a decode batch, and then nothing is half prefilled.
    obtain ⟨b, hcur, hdecode⟩ := h.tallied.pending (Or.inl ⟨htop, by simp [hpending]⟩)
    have hchunked := h.tallied.decode b hcur hdecode
    have hlast := (h.tallied.last htop).trans hcur
    have hnone : ∀ s : State V, s.chunkedReq = none → s.lastBatch = some b →
        (s.batches b).isExtend = false → ∀ q, ¬Prefilling s q := by
      rintro s hs hl hextend q (hq | ⟨l, hl', hextend', _⟩)
      · rw [hs] at hq
        cases hq
      · obtain rfl := Option.some.inj (hl.symm.trans hl')
        rw [hextend] at hextend'
        cases hextend'
    have hscheduler : (e.resolvePending outcome).scheduler =
        resolveAndProcess { e.scheduler with asyncPending := none } pending outcome := by
      simp only [Engine.resolvePending, resolvePendingAsync, hpending]
    refine ⟨fun _ q _ => hnone _ hchunked hlast hdecode q, fun _ q _ => ?_⟩
    rw [hscheduler]
    refine hnone _ ?_ ?_ ?_ q
    · exact (moves_resolve { e.scheduler with asyncPending := none } pending outcome).2.2.1.trans
        hchunked
    · exact (resolve_lastBatch { e.scheduler with asyncPending := none } pending outcome).trans
        hlast
    · exact (resolve_isExtend { e.scheduler with asyncPending := none } pending outcome b).trans
        hdecode

/-- The state in which a pause retracts. -/
theorem Engine.resolved (htop : e.scheduler.point = .top)
    (outcome : StepOutcome) : (e.resolvePending outcome).scheduler.point = .top ∧
      (e.resolvePending outcome).scheduler.asyncPending = none := by
  cases hpending : e.scheduler.asyncPending with
  | none => simp [resolvePending, resolvePendingAsync, hpending, htop]
  | some pending =>
    simp only [resolvePending, resolvePendingAsync, hpending]
    exact ⟨(moves_resolve { e.scheduler with asyncPending := none } pending outcome).2.1.trans htop,
      resolve_asyncPending { e.scheduler with asyncPending := none } pending outcome⟩

/-- A pause with `mode=retract` unloads all live requests exactly if none was prefilling. -/
theorem EngineInv.unloads_iff (h : EngineInv e) {a : EngineAction} (hstep : e.step a = some t) :
    RetractUnloads e a ↔ RetractBetweenPrefills e a := by
  have hpause : ∀ outcome, a = .pause .retract outcome →
      (t.Unloaded ↔ ∀ q, e.Live q → ¬Prefilling e.scheduler q) := by
    rintro outcome rfl
    simp only [Engine.step] at hstep
    split at hstep
    swap
    · cases hstep
    next htop =>
    have hresolved := h.resolvePending htop outcome
    have htop' := (Engine.resolved htop outcome).1
    rw [← Option.some.inj hstep, ← h.prefilling_resolvePending htop outcome]
    exact hresolved.unloaded_iff htop' rfl rfl
  constructor
  · intro hunloads outcome ha
    exact (hpause outcome ha).mp (hunloads outcome ha t hstep)
  · intro hbetween outcome ha u hu
    obtain rfl : t = u := Option.some.inj (hstep.symm.trans hu)
    exact (hpause outcome ha).mpr (hbetween outcome ha)

/-- **Step lemma.** What keeps the places of live requests. -/
theorem EngineInv.step (h : EngineInv e) {a : EngineAction} (hunloads : RetractUnloads e a)
    (hstep : e.step a = some t) : EngineInv t := by
  cases a with
  | loop a =>
    obtain ⟨hpermits, hstep⟩ := Option.ite_none_right_eq_some.mp hstep
    obtain ⟨u, hu, rfl⟩ := Option.map_eq_some_iff.mp hstep
    refine h.loop ?_ hu rfl rfl
    rintro admitted slot chunked mixed rfl
    simpa using (Bool.and_eq_true_iff.mp hpermits).2
  | pause mode outcome =>
    have hunloaded := fun hmode : mode = .retract =>
      hunloads outcome (hmode ▸ rfl) t hstep
    simp only [Engine.step] at hstep
    split at hstep
    swap
    · cases hstep
    next htop =>
    have hresolved := h.resolvePending htop outcome
    obtain ⟨htop', hasync⟩ := Engine.resolved htop outcome
    rw [← Option.some.inj hstep] at hunloaded ⊢
    cases mode with
    | abort => exact EngineInv.abortAll (hresolved.congr rfl rfl)
    | retract => exact hresolved.retract htop' hasync rfl rfl (hunloaded rfl)
    | inPlace => exact hresolved.congr rfl rfl
  | resume =>
    simp only [Engine.step] at hstep
    split at hstep
    · exact Option.some.inj hstep ▸ h.congr rfl rfl
    · cases hstep
  | updateWeights abortAll keepEnginePaused outcome =>
    simp only [Engine.step] at hstep
    split at hstep
    swap
    · cases hstep
    next htop =>
    have hresolved := h.resolvePending htop outcome
    rw [← Option.some.inj hstep]
    split
    · exact EngineInv.abortAll (hresolved.congr rfl rfl)
    · exact hresolved.congr rfl rfl

end Steps

/-- **Pausing with `mode=retract` unloads every live request exactly between prefills.** In a
run, each such pause leaves every live request once in the waiting queue and nowhere else, if
and only if each is taken when no live request is half prefilled or in a prefill batch that has
not been merged. -/
theorem retract_unloads_iff (isEntryRank : Bool) (as : List EngineAction) (e : Engine V) :
    Transition.Run Engine.step RetractUnloads (.init V isEntryRank) as e ↔
      Transition.Run Engine.step RetractBetweenPrefills (.init V isEntryRank) as e :=
  Transition.Run.congr (I := EngineInv) (fun _ _ _ h hunloads hstep => h.step hunloads hstep)
    (fun _ _ _ h hstep => h.unloads_iff hstep) (engineInv_init isEntryRank)

/-- A request is prefilled, and the engine is paused before the next choice of a batch. -/
def pauseAfterPrefill : List EngineAction :=
  [.loop (.enqueue "a"), .loop (.select (.prefill [0] id none false)),
    .loop (.run (.done [] fun _ => none)), .pause .retract .refused]

/-- `_retract_running_requests` finds the running batch empty and leaves the request in
`last_batch`. After `continue_generation` it is merged, and decodes with its old KV cache. -/
theorem retract_misses_last_batch :
    (∃ e, Transition.Run Engine.step Transition.anyAction (.init Unit true)
      pauseAfterPrefill e ∧ e.Live 0 ∧ e.scheduler.waitingQueue = [] ∧ ¬e.Unloaded) ∧
    ∃ e, Transition.Run Engine.step Transition.anyAction (.init Unit true)
      (pauseAfterPrefill ++ [.resume, .loop (.select (.decode []))]) e ∧ e.Live 0 ∧
      (e.scheduler.batches e.scheduler.runningBatch).reqs = [0] ∧
      e.scheduler.curBatch = some e.scheduler.runningBatch ∧
      ((e.scheduler.reqs 0).reqPoolIdx = some 0) := by
  have hpause := Transition.run_of_isSome Engine.step (Engine.init Unit true)
    pauseAfterPrefill (by decide +kernel)
  have hdecode := Transition.run_of_isSome Engine.step (Engine.init Unit true)
    (pauseAfterPrefill ++ [.resume, .loop (.select (.decode []))]) (by decide +kernel)
  constructor
  · refine ⟨_, hpause, ⟨?_, ?_, ?_⟩, ?_, fun hunloaded => ?_⟩
    · decide +kernel
    · decide +kernel
    · decide +kernel
    · decide +kernel
    · have hwaits := (hunloaded 0 ⟨by decide +kernel, by decide +kernel, by decide +kernel⟩).1
      exact absurd hwaits (by decide +kernel)
  · refine ⟨_, hdecode, ⟨?_, ?_, ?_⟩, ?_, ?_, ?_⟩ <;> decide +kernel

end Omni.Scheduler
