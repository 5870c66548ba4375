import Omni.Scheduler.Pieces

/-!
# Batches stay aligned with their rows

`_remove_from_batch` shortens the list of requests and leaves the tensors alone. A batch
that keeps some of its requests is then out of step with its rows. Nothing else in the
loops does this.
-/

namespace Omni.Scheduler

open Omni.Transition State Option

variable {V : Type} {b : ℕ} {a : Action} {ids : List String} {s t : State V} {batch : Batch}
  {outcome : StepOutcome}

/-- Row `i` belongs to request `i`, unless the batch has no requests. -/
def Batch.Aligned (batch : Batch) : Prop := Fits batch.reqs batch.rows

/-- The batches whose rows the loop reads. -/
def State.loopBatches (s : State V) : List ℕ :=
  s.runningBatch :: s.curBatch.toList ++ s.lastBatch.toList

/-- `running_batch`, `cur_batch` and `last_batch` are aligned. -/
def Aligned (s : State V) : Prop := ∀ b ∈ s.loopBatches, (s.batches b).Aligned

/-- The launched steps that have not been resolved. -/
def State.pendings (s : State V) : List PendingStep :=
  s.asyncPending.toList ++ (match s.point with
    | .launched prevPending => [prevPending]
    | _ => [])

/-- The ids that an action cuts, and the batches among which the loop goes on. -/
inductive Cuts (s : State V) : Action → List String → List ℕ → Prop
  | abort {r : String} : ¬Marked s r → Cuts s (.abort r) [r] s.loopBatches
  | flush {pending : PendingStep} {error : String} : s.asyncPending = some pending →
      Cuts s (.flush (.fails error)) (s.requestIds pending.batch) s.loopBatches
  | launch {b : ℕ} {error : String} : s.curBatch = some b →
      Cuts s (.launch (some error)) (s.requestIds b) [s.runningBatch, b]
  | resolve {prevPending : PendingStep} {error : String} : s.point = .launched prevPending →
      Cuts s (.resolve (.fails error)) (s.requestIds prevPending.batch)
        (s.runningBatch :: s.curBatch.toList)
  | drain {pending : PendingStep} {error : String} : s.asyncPending = some pending →
      Cuts s (.drain (.fails error)) (s.requestIds pending.batch) s.loopBatches
  | run {b : ℕ} {error : String} : s.curBatch = some b →
      Cuts s (.run (.fails error)) (s.requestIds b) [s.runningBatch, b]

/-- The action cuts some requests out of a batch and leaves others in it. -/
def Tears (s : State V) (a : Action) : Prop :=
  ∃ ids refs, Cuts s a ids refs ∧ ∃ b ∈ refs,
    (∃ q ∈ (s.batches b).reqs, (s.reqs q).rid ∈ ids) ∧ ∃ q ∈ (s.batches b).reqs, (s.reqs q).rid ∉
        ids

/-- The invariant of the loops. -/
structure Sound (s : State V) : Prop where
  aligned : Aligned s
  loopBatches_lt : ∀ b ∈ s.loopBatches, b < s.batchCount
  pendings : ∀ pending ∈ s.pendings, pending.batch < s.batchCount ∧ pending.batch ∉ s.loopBatches

theorem sound_init (isEntryRank : Bool) : Sound (init V isEntryRank) where
  aligned b _ := Or.inl rfl
  loopBatches_lt b hb := by
    simp [loopBatches, init] at hb
    simp [init, hb]
  pendings pending hpending := by simp [pendings, init] at hpending

theorem mem_fourBatches_of_mem_loopBatches (hb : b ∈ s.loopBatches) :
    b ∈ s.fourBatches :=
  List.mem_append_left _ hb

theorem SameBatches.loopBatches (h : SameBatches s t) :
    t.loopBatches = s.loopBatches := by
  unfold State.loopBatches
  rw [h.runningBatch, h.curBatch, h.lastBatch]

theorem Sound.congr (h : Sound s) (hsame : SameBatches s t) : Sound t where
  aligned b hb := by
    rw [hsame.loopBatches] at hb
    rw [hsame.batches]
    exact h.aligned b hb
  loopBatches_lt b hb := by
    rw [hsame.loopBatches] at hb
    rw [hsame.batchCount]
    exact h.loopBatches_lt b hb
  pendings pending hpending := by
    unfold State.pendings at hpending
    rw [hsame.asyncPending, hsame.point] at hpending
    rw [hsame.batchCount, hsame.loopBatches]
    exact h.pendings pending hpending

/-- References to old batches, and to new ones that are aligned. -/
theorem Sound.extend (h : Sound s) (hold : ∀ b < s.batchCount, t.batches b = s.batches b)
    (hcount : s.batchCount ≤ t.batchCount) (hrefs : ∀ b ∈ t.loopBatches, b ∈ s.loopBatches ∨
      (s.batchCount ≤ b ∧ b < t.batchCount ∧ (t.batches b).Aligned))
    (hpendings : ∀ pending ∈ t.pendings, pending ∈ s.pendings ∨
      (s.batchCount ≤ pending.batch ∧ pending.batch < t.batchCount ∧
        pending.batch ∉ t.loopBatches)) : Sound t where
  aligned b hb := by
    rcases hrefs b hb with hmem | ⟨_, _, haligned⟩
    · rw [hold b (h.loopBatches_lt b hmem)]
      exact h.aligned b hmem
    · exact haligned
  loopBatches_lt b hb := by
    rcases hrefs b hb with hmem | ⟨_, hlt, _⟩
    · exact (h.loopBatches_lt b hmem).trans_le hcount
    · exact hlt
  pendings pending hpending := by
    rcases hpendings pending hpending with hmem | ⟨_, hlt, hnot⟩
    · obtain ⟨hlt, hnot⟩ := h.pendings pending hmem
      refine ⟨hlt.trans_le hcount, fun hb => ?_⟩
      rcases hrefs _ hb with hb | ⟨hle, _, _⟩
      · exact hnot hb
      · omega
    · exact ⟨hlt, hnot⟩

/-- Fewer references to batches and steps. -/
theorem Sound.refs (h : Sound s) (hbatches : t.batches = s.batches)
    (hcount : t.batchCount = s.batchCount) (hrefs : ∀ b ∈ t.loopBatches, b ∈ s.loopBatches)
    (hpendings : ∀ pending ∈ t.pendings, pending ∈ s.pendings) : Sound t :=
  h.extend (fun b _ => by rw [hbatches]) hcount.ge (fun b hb => Or.inl (hrefs b hb))
    fun pending hp => Or.inl (hpendings pending hp)

theorem Sound.updateBatch (h : Sound s) (b : ℕ) {f : Batch → Batch}
    (hf : b ∈ s.loopBatches → (f (s.batches b)).Aligned) : Sound (s.updateBatch b f) := { h with
  aligned c hc := by
    by_cases hcb : c = b
    · subst hcb
      simpa [State.updateBatch] using hf hc
    · simpa [State.updateBatch, hcb] using h.aligned c hc }

theorem Sound.filterBatch (h : Sound s) (b : ℕ) (keep : ℕ → Bool) :
    Sound (filterBatch s b keep) := by
  unfold Omni.Scheduler.filterBatch
  split
  · exact h
  · exact h.updateBatch b fun hb => (h.aligned b hb).reslice keep

theorem filterBatch_loopBatches (s : State V) (b : ℕ) (keep : ℕ → Bool) :
    (filterBatch s b keep).loopBatches = s.loopBatches := by
  unfold filterBatch
  split <;> rfl

theorem filterBatch_refs (s : State V) (b : ℕ) (keep : ℕ → Bool) :
    (filterBatch s b keep).runningBatch = s.runningBatch ∧
      (filterBatch s b keep).lastBatch = s.lastBatch ∧
      (filterBatch s b keep).batchCount = s.batchCount ∧
      (filterBatch s b keep).pendings = s.pendings := by
  unfold filterBatch
  split
  · exact ⟨rfl, rfl, rfl, rfl⟩
  · exact ⟨rfl, rfl, rfl, rfl⟩

theorem filterBatch_point (s : State V) (b : ℕ) (keep : ℕ → Bool) :
    (filterBatch s b keep).point = s.point := by
  unfold filterBatch
  split <;> rfl

theorem mem_loopBatches_running (s : State V) : s.runningBatch ∈ s.loopBatches := by
  simp [loopBatches]

theorem mem_loopBatches_cur (hb : s.curBatch = some b) :
    b ∈ s.loopBatches := by
  simp [loopBatches, hb]

theorem mem_loopBatches_last (hb : s.lastBatch = some b) :
    b ∈ s.loopBatches := by
  simp [loopBatches, hb]

theorem mem_loopBatches :
    b ∈ s.loopBatches ↔ b = s.runningBatch ∨ s.curBatch = some b ∨ s.lastBatch = some b := by
  simp [loopBatches]

theorem mergeLast_point (s : State V) : (mergeLast s).point = s.point := by
  unfold mergeLast
  split
  · rfl
  · split
    · dsimp only
      split
      · exact filterBatch_point ..
      · split
        · exact filterBatch_point ..
        · exact filterBatch_point ..
    · rfl

/-- Merging what has been prefilled into the running batch. -/
theorem Sound.mergeLast (h : Sound s) : Sound (mergeLast s) := by
  unfold Omni.Scheduler.mergeLast
  split
  · exact h
  next l hlast =>
  split
  swap
  · exact h
  dsimp only
  have hkept := h.filterBatch l fun q => !(s.reqs q).finished &&
    decide (q ∉ s.chunkedReq.toList ++ (s.batches l).chunkedReq.toList)
  have hlast' := (filterBatch_refs s l fun q => !(s.reqs q).finished &&
    decide (q ∉ s.chunkedReq.toList ++ (s.batches l).chunkedReq.toList)).2.1
  generalize Omni.Scheduler.filterBatch s l _ = u at hkept hlast' ⊢
  have hl : l ∈ u.loopBatches := mem_loopBatches_last (hlast'.trans hlast)
  split
  · exact hkept
  next hentries =>
  split
  · refine hkept.refs rfl rfl (fun b hb => ?_) fun _ hp => hp
    rcases mem_loopBatches.mp hb with rfl | hcur | hb
    · exact hl
    · exact mem_loopBatches_cur hcur
    · exact mem_loopBatches_last hb
  next hrunning =>
    exact hkept.updateBatch _ fun hb =>
      (hkept.aligned _ hb).append (hkept.aligned l hl) hrunning hentries

/-- A new batch, which nothing refers to yet. -/
theorem newBatch_old (batch : Batch) (hb : b < s.batchCount) :
    (s.newBatch batch).batches b = s.batches b := by
  simp [newBatch, hb.ne]

@[simp] theorem newBatch_self (s : State V) (batch : Batch) :
    (s.newBatch batch).batches s.batchCount = batch := by
  simp [newBatch]

/-- Selecting a batch changes no launched step. -/
theorem pendings_setCurrent (htop : s.point = .top) (batch : Option ℕ) :
    (s.setCurrent batch).pendings = s.pendings := by
  simp [pendings, setCurrent, htop]

theorem Sound.selectNew (h : Sound s) (htop : s.point = .top) (haligned : batch.Aligned) :
    Sound ((s.newBatch batch).setCurrent (some s.batchCount)) := by
  refine h.extend (fun b hb => newBatch_old batch hb) (Nat.le_succ _) (fun b hb => ?_)
    fun pending hp => Or.inl ?_
  · rcases mem_loopBatches.mp hb with hrunning | hcur | hlast
    · exact Or.inl (hrunning ▸ mem_loopBatches_running s)
    · obtain rfl : s.batchCount = b := some.inj hcur
      exact Or.inr ⟨le_rfl, Nat.lt_succ_self _, (newBatch_self s batch).symm ▸ haligned⟩
    · exact Or.inl (mem_loopBatches_last hlast)
  · rw [pendings_setCurrent (s := s.newBatch batch) htop] at hp
    exact hp

theorem Sound.selectMixed (h : Sound s) (htop : s.point = .top) (haligned : batch.Aligned)
    (hentries : batch.reqs ≠ []) :
    Sound ((mixWithRunning s batch).setCurrent (some s.batchCount)) := by
  have hkept := h.filterBatch s.runningBatch fun q => !(s.reqs q).finished
  obtain ⟨_, _, hcount, _⟩ := filterBatch_refs s s.runningBatch fun q => !(s.reqs q).finished
  have hpoint : (Omni.Scheduler.filterBatch s s.runningBatch
      fun q => !(s.reqs q).finished).point = .top := by
    unfold Omni.Scheduler.filterBatch
    split <;> exact htop
  unfold mixWithRunning
  dsimp only
  generalize Omni.Scheduler.filterBatch s s.runningBatch _ = u at *
  rw [← hcount]
  have hmixed : (if (u.batches u.runningBatch).reqs = [] then batch
      else batch.merge (u.batches u.runningBatch)).Aligned := by
    split
    · exact haligned
    next hnonempty =>
      exact haligned.append (hkept.aligned _ (mem_loopBatches_running u)) hentries hnonempty
  generalize (if (u.batches u.runningBatch).reqs = [] then batch
      else batch.merge (u.batches u.runningBatch)) = mixed at *
  have hself : ((u.newBatch mixed).newBatch .empty).batches u.batchCount = mixed :=
    (newBatch_old (s := u.newBatch mixed) .empty (Nat.lt_succ_self u.batchCount)).trans
      (newBatch_self u mixed)
  refine hkept.extend (fun b hb => ?_) (Nat.le_add_right u.batchCount 2) (fun b hb => ?_)
    fun pending hp => Or.inl ?_
  · exact (newBatch_old (s := u.newBatch mixed) .empty (Nat.lt_succ_of_lt hb)).trans
      (newBatch_old mixed hb)
  · rcases mem_loopBatches.mp hb with hrunning | hcur | hlast
    · obtain rfl : b = u.batchCount + 1 := hrunning
      refine Or.inr ⟨Nat.le_succ _, Nat.lt_succ_self _, Or.inl ?_⟩
      exact congrArg Batch.reqs (newBatch_self (u.newBatch mixed) .empty)
    · obtain rfl : u.batchCount = b := some.inj hcur
      exact Or.inr ⟨le_rfl, Nat.lt_add_of_pos_right Nat.two_pos, hself.symm ▸ hmixed⟩
    · exact Or.inl (mem_loopBatches_last hlast)
  · rw [pendings_setCurrent (s := ((u.newBatch mixed).newBatch .empty).setRunning _) hpoint] at hp
    exact hp

/-- A batch that is there already, or none. -/
theorem Sound.setCurrent (h : Sound s) (htop : s.point = .top) {batch : Option ℕ}
    (hbatch : ∀ b, batch = some b → b ∈ s.loopBatches) : Sound (s.setCurrent batch) := by
  refine h.refs rfl rfl (fun b hb => ?_) fun pending hp => ?_
  · rcases mem_loopBatches.mp hb with hrunning | hcur | hlast
    · exact hrunning ▸ mem_loopBatches_running s
    · exact hbatch b hcur
    · exact mem_loopBatches_last hlast
  · rwa [pendings_setCurrent htop] at hp

theorem Sound.updateRunningBatch (h : Sound s) (retracted : List ℕ) :
    Sound (updateRunningBatch s retracted) ∧
      (Omni.Scheduler.updateRunningBatch s retracted).point = s.point := by
  unfold Omni.Scheduler.updateRunningBatch
  dsimp only
  have hkept := h.filterBatch s.runningBatch fun q => !(s.reqs q).finished
  have hpoint := filterBatch_point s s.runningBatch fun q => !(s.reqs q).finished
  generalize Omni.Scheduler.filterBatch s s.runningBatch _ = u at *
  have hleft := hkept.filterBatch u.runningBatch fun q => decide (q ∉ retracted)
  have hpoint' := filterBatch_point u u.runningBatch fun q => decide (q ∉ retracted)
  generalize Omni.Scheduler.filterBatch u u.runningBatch _ = v at *
  generalize (List.filter _ (u.batches u.runningBatch).reqs) = leaving
  have hwaiting : SameBatches v (extendWaitingQueue v leaving) :=
    ⟨rfl, rfl, rfl, rfl, rfl, rfl, rfl⟩
  have hretract := hwaiting.trans (.foldl sameBatches_retract _ leaving)
  exact ⟨hleft.congr hretract, hretract.point.trans (hpoint'.trans hpoint)⟩

/-- `get_next_batch_to_run` after the merge. -/
theorem Sound.select (h : Sound s) (htop : s.point = .top) {choice : Choice} {batch : Option ℕ}
    (hselect : selectBatch s choice = some (t, batch)) :
    Sound (t.setCurrent batch) := by
  cases choice with
  | prefill admitted slot chunked mixed =>
    obtain ⟨hguard, hselect⟩ := ite_none_right_eq_some.mp hselect
    have hadmits : SameBatches s (admitRequests s admitted slot chunked) :=
      ⟨rfl, rfl, rfl, rfl, rfl, rfl, rfl⟩
    have hsound := h.congr hadmits
    obtain ⟨rfl, rfl⟩ := Prod.mk.inj (some.inj hselect)
    split
    · exact hsound.selectMixed htop (Or.inr rfl) hguard.2.2.2
    · exact hsound.selectNew htop (Or.inr rfl)
  | decode retracted =>
    obtain ⟨_, hselect⟩ := ite_none_right_eq_some.mp hselect
    obtain ⟨hsound, hpoint⟩ := h.updateRunningBatch retracted
    have htop' := hpoint.trans htop
    generalize Omni.Scheduler.updateRunningBatch s retracted = u at *
    split at hselect
    · obtain ⟨rfl, rfl⟩ := Prod.mk.inj (some.inj hselect)
      exact hsound.setCurrent htop' (by simp)
    · obtain ⟨rfl, rfl⟩ := Prod.mk.inj (some.inj hselect)
      have hdecode := hsound.updateBatch u.runningBatch
        (f := fun batch => { batch with isExtend := false }) fun hb => hsound.aligned _ hb
      refine hdecode.setCurrent htop' fun b hb => ?_
      exact some.inj hb ▸ mem_loopBatches_running u
  | nothing =>
    obtain ⟨_, hselect⟩ := ite_none_right_eq_some.mp hselect
    obtain ⟨rfl, rfl⟩ := Prod.mk.inj (some.inj hselect)
    exact h.setCurrent htop (by simp)

/-- The current batch becomes the last one. -/
theorem Sound.endIteration (h : Sound s) : Sound s.endIteration := by
  refine h.refs rfl rfl (fun b hb => ?_) fun pending hp => ?_
  · rcases mem_loopBatches.mp hb with hrunning | hcur | hcur
    · exact hrunning ▸ mem_loopBatches_running s
    · exact mem_loopBatches_cur hcur
    · exact mem_loopBatches_cur hcur
  · have hmem : pending ∈ s.asyncPending.toList := by
      simpa [State.pendings, State.endIteration] using hp
    exact List.mem_append_left _ hmem

/-- A step has been launched for a copy of the current batch. -/
theorem Sound.launchBatch (h : Sound s) (hpoint : s.point = .selected) (b : ℕ) :
    Sound (launchBatch s b) := by
  have hlaunched : ∀ point, (∀ prevPending, point = .launched prevPending →
      s.asyncPending = some prevPending) →
      Sound { s.newBatch (s.batches b) with
        asyncPending := some ⟨s.batchCount, (s.batches b).reqs⟩, point := point } := by
    intro point hprev
    refine h.extend (fun c hc => newBatch_old _ hc) (Nat.le_succ _) (fun c hc => Or.inl hc)
      fun pending hp => ?_
    rcases List.mem_append.mp hp with hnew | hold
    · obtain rfl : pending = ⟨s.batchCount, (s.batches b).reqs⟩ := by simpa using hnew
      refine Or.inr ⟨le_rfl, Nat.lt_succ_self _, fun hc => ?_⟩
      exact absurd (h.loopBatches_lt _ hc) (lt_irrefl _)
    · left
      cases point with
      | launched prevPending =>
        obtain rfl : pending = prevPending := by simpa using hold
        simp [State.pendings, hprev pending rfl]
      | _ => simp at hold
  unfold Omni.Scheduler.launchBatch
  cases hpending : s.asyncPending with
  | none =>
    have hsound := hlaunched s.point fun prevPending hp => by simp [hpoint] at hp
    exact hsound.endIteration
  | some prevPending =>
    exact hlaunched _ fun p hp => by
      rw [hpending]
      simpa using hp

theorem Sound.resolveDone (h : Sound s) {pending : PendingStep}
    (hnot : pending.batch ∉ s.loopBatches) (hdone : ∀ error, outcome ≠ .fails error)
    (ht : resolveAndProcess s pending outcome = t) :
    Sound t ∧ t.loopBatches = s.loopBatches ∧ t.batchCount = s.batchCount ∧
      t.pendings = s.pendings := by
  subst ht
  cases outcome with
  | fails error => exact absurd rfl (hdone error)
  | refused => exact ⟨h, rfl, rfl, rfl⟩
  | done finished adapterError =>
    have hsame := resolve_done s pending finished adapterError
    refine ⟨(h.updateBatch pending.batch fun hb => absurd hb hnot).congr hsame,
      hsame.loopBatches, hsame.batchCount, ?_⟩
    unfold State.pendings
    rw [hsame.asyncPending, hsame.point]
    rfl

/-- Stale requests are filtered out of the current batch with their rows. -/
theorem Sound.dropStale (h : Sound s) : Sound (dropStaleOverrun s) := by
  unfold dropStaleOverrun
  split
  · exact h
  next b hcur =>
    split
    · have hkept := h.filterBatch b fun q => !s.stale q
      dsimp only
      generalize Omni.Scheduler.filterBatch s b _ = u at *
      split
      · refine hkept.refs rfl rfl (fun c hc => ?_) fun _ hp => hp
        rcases mem_loopBatches.mp hc with hrunning | hnone | hlast
        · exact hrunning ▸ mem_loopBatches_running u
        · cases hnone
        · exact mem_loopBatches_last hlast
      · exact hkept
    · exact h

theorem Sound.setPoint (h : Sound s) {point : LoopPoint}
    (hpoint : ∀ prevPending, point ≠ .launched prevPending) :
    Sound { s with point := point } := by
  refine h.refs rfl rfl (fun _ hb => hb) fun pending hp => ?_
  have hmem : pending ∈ s.asyncPending.toList := by
    cases point <;> simp_all [State.pendings]
  exact List.mem_append_left _ hmem

/-- Running the current batch without a failure. -/
theorem Sound.runDone (h : Sound s) (hdone : ∀ error, outcome ≠ .fails error) :
    Sound (runBatch s outcome) := by
  unfold runBatch
  split
  · exact h
  next b error _ => exact absurd rfl (hdone error)
  · exact h.congr (sameBatches_process s _ _ _)
  · exact h

variable {refs : List ℕ}

/-- An action cuts in one way only. -/
theorem Cuts.unique {ids' : List String} {refs' : List ℕ} (h : Cuts s a ids refs)
    (h' : Cuts s a ids' refs') : ids = ids' ∧ refs = refs' := by
  cases h with
  | abort => cases h'; exact ⟨rfl, rfl⟩
  | flush hpending =>
    cases h' with
    | flush hpending' =>
      obtain rfl := some.inj (hpending.symm.trans hpending')
      exact ⟨rfl, rfl⟩
  | launch hcur =>
    cases h' with
    | launch hcur' =>
      obtain rfl := some.inj (hcur.symm.trans hcur')
      exact ⟨rfl, rfl⟩
  | resolve hpoint =>
    cases h' with
    | resolve hpoint' =>
      obtain rfl := LoopPoint.launched.inj (hpoint.symm.trans hpoint')
      exact ⟨rfl, rfl⟩
  | drain hpending =>
    cases h' with
    | drain hpending' =>
      obtain rfl := some.inj (hpending.symm.trans hpending')
      exact ⟨rfl, rfl⟩
  | run hcur =>
    cases h' with
    | run hcur' =>
      obtain rfl := some.inj (hcur.symm.trans hcur')
      exact ⟨rfl, rfl⟩

theorem SameFrame.loopBatches (h : SameFrame s t) :
    t.loopBatches = s.loopBatches := by
  unfold State.loopBatches
  rw [h.runningBatch, h.curBatch, h.lastBatch]

theorem SameFrame.pendings (h : SameFrame s t) : t.pendings = s.pendings := by
  unfold State.pendings
  rw [h.asyncPending, h.point]

/-- What a step that cuts leaves: the batches in `refs`, each without the cut requests. -/
structure LeftBy (s t : State V) (ids : List String) (refs : List ℕ) : Prop where
  loopBatches : ∀ b, b ∈ t.loopBatches ↔ b ∈ refs
  before : ∀ b ∈ refs, b ∈ s.loopBatches
  cut : ∀ b ∈ refs, CutTo s.reqs ids (s.batches b) (t.batches b)
  batchCount : t.batchCount = s.batchCount
  pendings : ∀ pending ∈ t.pendings, pending ∈ s.pendings

theorem leftBy_failure (s : State V) (failed : ℕ) (error : String) :
    LeftBy s (handleBatchFailure { s with asyncPending := none } failed error)
      (s.requestIds failed) s.loopBatches := by
  have hframe := sameFrame_handleBatchFailure { s with asyncPending := none } failed error
  refine ⟨fun b => by rw [hframe.loopBatches]; rfl, fun _ hb => hb, fun b hb => ?_,
    hframe.batchCount, fun pending hp => ?_⟩
  · exact handleBatchFailure_batches (s := { s with asyncPending := none })
      (mem_fourBatches_of_mem_loopBatches hb) failed error
  · rw [hframe.pendings] at hp
    exact List.mem_append_right _ (by simpa [pendings] using hp)

theorem leftBy_failure_end (s : State V) (failed : ℕ) (error : String) :
    LeftBy s (handleBatchFailure s failed error).endIteration (s.requestIds failed)
      (s.runningBatch :: s.curBatch.toList) := by
  have hframe := sameFrame_handleBatchFailure s failed error
  have hbefore : ∀ b ∈ s.runningBatch :: s.curBatch.toList, b ∈ s.loopBatches :=
    fun b hb => List.mem_append_left _ hb
  refine ⟨fun b => ?_, hbefore, fun b hb => ?_, hframe.batchCount, fun pending hp => ?_⟩
  · rw [mem_loopBatches]
    simp [endIteration, hframe.runningBatch, hframe.curBatch]
  · exact handleBatchFailure_batches (mem_fourBatches_of_mem_loopBatches (hbefore b hb)) failed
      error
  · have hmem : pending ∈ s.asyncPending.toList := by
      simpa [pendings, endIteration, hframe.asyncPending] using hp
    exact List.mem_append_left _ hmem

theorem LeftBy.drained (h : LeftBy s t ids refs) :
    LeftBy s { t with point := .drained } ids refs := by
  refine { h with pendings := fun pending hp => h.pendings pending ?_ }
  have hmem : pending ∈ t.asyncPending.toList := by simpa [State.pendings] using hp
  exact List.mem_append_left _ hmem

theorem leftBy_of_cuts (hcuts : Cuts s a ids refs) (hstep : step s a = some t) :
    LeftBy s t ids refs := by
  cases hcuts with
  | abort hnot =>
    rename_i r
    rw [← some.inj hstep]
    have hframe := sameFrame_abort s r true
    refine ⟨fun b => by rw [hframe.loopBatches], fun _ hb => hb, fun b hb => ?_,
      hframe.batchCount, fun pending hp => by rwa [hframe.pendings] at hp⟩
    rw [abort_batches_of_not_marked hnot, cutBatches,
      if_pos (mem_fourBatches_of_mem_loopBatches hb)]
    exact cutTo_without _ _ _
  | flush hpending =>
    cases stepped hstep
    next hpending' =>
    obtain rfl := some.inj (hpending.symm.trans hpending')
    exact leftBy_failure s _ _
  | launch hcur =>
    cases stepped hstep
    next hcur' _ =>
    obtain rfl := some.inj (hcur.symm.trans hcur')
    simpa only [hcur, toList_some] using leftBy_failure_end s _ _
  | resolve hpoint =>
    simp only [step, hpoint] at hstep
    rw [← some.inj hstep]
    exact leftBy_failure_end s _ _
  | drain hpending =>
    cases stepped hstep
    next hpending' =>
    obtain rfl := some.inj (hpending.symm.trans hpending')
    exact (leftBy_failure s _ _).drained
  | run hcur =>
    cases stepped hstep
    simpa only [runBatch, hcur, toList_some] using leftBy_failure_end s _ _

/-- Taking requests out of batches that are aligned. -/
theorem LeftBy.aligned_iff (h : LeftBy s t ids refs) (haligned : Aligned s)
    (hcuts : Cuts s a ids refs) :
    Aligned t ↔ ¬Tears s a := by
  have hone : ∀ b ∈ refs, (t.batches b).Aligned ↔
      ¬((∃ q ∈ (s.batches b).reqs, (s.reqs q).rid ∈ ids) ∧
        ∃ q ∈ (s.batches b).reqs, (s.reqs q).rid ∉ ids) := by
    intro b hb
    have hcut := h.cut b hb
    rw [Batch.Aligned, hcut.reqs, hcut.rows, (haligned b (h.before b hb)).filter_iff]
    simp
  constructor
  · rintro ht ⟨ids', refs', hcuts', b, hb, htorn⟩
    obtain ⟨rfl, rfl⟩ := hcuts.unique hcuts'
    exact (hone b hb).mp (ht b ((h.loopBatches b).mpr hb)) htorn
  · intro hnot b hb
    have hmem := (h.loopBatches b).mp hb
    exact (hone b hmem).mpr fun htorn => hnot ⟨ids, refs, hcuts, b, hmem, htorn⟩

theorem Sound.taken (h : Sound s) : Sound { s with asyncPending := none } :=
  h.refs rfl rfl (fun _ hb => hb) fun p hp => List.mem_append_right _ (by
    simpa [State.pendings] using hp)

theorem Sound.keepStep (h : Sound s) (hnot : ∀ ids refs, ¬Cuts s a ids refs)
    (hstep : step s a = some t) : Sound t := by
  cases stepped hstep with
  | enqueue => exact h.congr ⟨rfl, rfl, rfl, rfl, rfl, rfl, rfl⟩
  | abort r =>
    have hmarked : Marked s r := by
      by_contra hnone
      exact hnot _ _ (.abort hnone)
    have hframe := sameFrame_abort s r true
    exact h.congr { hframe with batches := abort_batches_of_marked hmarked }
  | flush outcome pending _ hpending =>
    have hbatch := (h.pendings pending (by simp [State.pendings, hpending])).2
    refine (h.taken.resolveDone hbatch (fun error heq => ?_) rfl).1
    subst heq
    exact hnot _ _ (Cuts.flush hpending)
  | select choice u batch htop hselect =>
    exact h.mergeLast.select ((mergeLast_point s).trans htop) hselect
  | launch b hpoint => exact h.launchBatch hpoint b
  | launchFails b error hcur => exact absurd (Cuts.launch hcur) (hnot _ _)
  | resolve outcome prevPending hpoint =>
    have hbatch := (h.pendings prevPending (by simp [State.pendings, hpoint])).2
    refine (h.resolveDone hbatch (fun error heq => ?_) rfl).1.endIteration
    subst heq
    exact hnot _ _ (Cuts.resolve hpoint)
  | drain outcome pending _ hpending =>
    have hbatch := (h.pendings pending (by simp [State.pendings, hpending])).2
    refine (h.taken.resolveDone hbatch (fun error heq => ?_) rfl).1.setPoint (by simp)
    subst heq
    exact hnot _ _ (Cuts.drain hpending)
  | dropStale => exact h.dropStale.setPoint (by simp)
  | run outcome =>
    have hdone : s.curBatch = none ∨ ∀ error, outcome ≠ .fails error := by
      cases hcur : s.curBatch with
      | none => exact Or.inl rfl
      | some b =>
        refine Or.inr fun error heq => ?_
        subst heq
        exact hnot _ _ (Cuts.run hcur)
    have hrun : Sound (runBatch s outcome) := by
      rcases hdone with hcur | hdone
      · simpa only [runBatch, hcur] using h
      · exact h.runDone hdone
    exact hrun.endIteration

/-- A step that cuts keeps the invariant, if what it leaves is aligned. -/
theorem Sound.cut (h : Sound s) (hleft : LeftBy s t ids refs) (haligned : Aligned t) :
    Sound t where
  aligned := haligned
  loopBatches_lt b hb := by
    rw [hleft.batchCount]
    exact h.loopBatches_lt b (hleft.before b ((hleft.loopBatches b).mp hb))
  pendings pending hpending := by
    obtain ⟨hlt, hnot⟩ := h.pendings pending (hleft.pendings pending hpending)
    rw [hleft.batchCount]
    exact ⟨hlt, fun hb => hnot (hleft.before _ ((hleft.loopBatches _).mp hb))⟩

/-- One step leaves the batches aligned exactly if it does not tear one of them. -/
theorem Sound.aligned_iff (h : Sound s) (hstep : step s a = some t) :
    Aligned t ↔ ¬Tears s a := by
  by_cases hcuts : ∃ ids refs, Cuts s a ids refs
  · obtain ⟨ids, refs, hcuts⟩ := hcuts
    exact (leftBy_of_cuts hcuts hstep).aligned_iff h.aligned hcuts
  · have hkept : Sound t := h.keepStep (fun ids refs hc => hcuts ⟨ids, refs, hc⟩) hstep
    have hnot : ¬Tears s a := fun ⟨ids, refs, hc, _⟩ => hcuts ⟨ids, refs, hc⟩
    exact iff_of_true hkept.aligned hnot

/-- One step that leaves the batches aligned keeps the invariant. -/
theorem Sound.step (h : Sound s) (hstep : Omni.Scheduler.step s a = some t) (haligned : Aligned t) :
    Sound t := by
  by_cases hcuts : ∃ ids refs, Cuts s a ids refs
  · obtain ⟨ids, refs, hcuts⟩ := hcuts
    exact h.cut (leftBy_of_cuts hcuts hstep) haligned
  · exact h.keepStep (fun ids refs hc => hcuts ⟨ids, refs, hc⟩) hstep

/-- The action leads to a state with aligned batches. -/
def KeepsAligned (s : State V) (a : Action) : Prop := ∀ t, step s a = some t → Aligned t

/-- The batches are aligned in every state of a run exactly if no step of the run tears a
batch of which the loop goes on to read the rows. -/
theorem rows_stay_aligned (isEntryRank : Bool) (as : List Action) (s : State V) :
    Transition.Run step KeepsAligned (.init V isEntryRank) as s ↔
      Transition.Run step (fun s a => ¬Tears s a) (.init V isEntryRank) as s := by
  refine Transition.Run.congr (I := Sound) (fun s a t h hok hstep => ?_)
    (fun s a t h hstep => ?_) (sound_init isEntryRank)
  · exact h.step hstep (hok t hstep)
  · constructor
    · exact fun hok => (h.aligned_iff hstep).mp (hok t hstep)
    · intro hnot u hu
      obtain rfl : t = u := some.inj (hstep.symm.trans hu)
      exact (h.aligned_iff hstep).mpr hnot

/-- Two requests are prefilled and decode together, and the first of them finishes. -/
def finishFirst : List Action :=
  [.enqueue "a", .enqueue "b", .select (.prefill [0, 1] id none false),
    .run (.done [] fun _ => none), .select (.decode []), .run (.done [0] fun _ => none)]

/-- `abort("a")` finds a request that has finished and still stands in `running_batch`. It
cuts it out, so that the first row stands for "b". The next filter does not change that. -/
theorem abort_misaligns :
    (∃ t, Transition.Run step Transition.anyAction (.init Unit true)
      (finishFirst ++ [.abort "a"]) t ∧ (t.batches t.runningBatch).reqs = [1] ∧
      (t.batches t.runningBatch).rows = [0, 1] ∧ ¬Aligned t) ∧
    ∃ t, Transition.Run step Transition.anyAction (.init Unit true)
      (finishFirst ++ [.abort "a", .select (.decode [])]) t ∧
      (t.batches t.runningBatch).reqs = [1] ∧
      (t.batches t.runningBatch).rows = [0, 1] ∧ ¬Aligned t := by
  have hnot : ∀ {s : State Unit}, (s.batches s.runningBatch).reqs = [1] →
      (s.batches s.runningBatch).rows = [0, 1] → ¬Aligned s := by
    intro s hreqs hrows h
    have hfits := h _ (mem_loopBatches_running s)
    simp [Batch.Aligned, Fits, hreqs, hrows] at hfits
  have habort := Transition.run_of_isSome step (init Unit true)
    (finishFirst ++ [.abort "a"]) (by decide +kernel)
  have hselect := Transition.run_of_isSome step (init Unit true)
    (finishFirst ++ [.abort "a", .select (.decode [])]) (by decide +kernel)
  constructor
  · refine ⟨_, habort, ?_, ?_, hnot ?_ ?_⟩ <;> decide +kernel
  · refine ⟨_, hselect, ?_, ?_, hnot ?_ ?_⟩ <;> decide +kernel

end Omni.Scheduler
