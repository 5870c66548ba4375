import Omni.Scheduler.Places

/-!
# What happens to requests

The loops filter batches, and they set the flags of requests. A request keeps its id, and
once it has finished it stays so.
-/

namespace Omni.Scheduler

open Omni.Transition

variable {V : Type}

theorem filterBatch_batches (s : State V) (b : ℕ) (keep : ℕ → Bool) :
    ((filterBatch s b keep).batches b).reqs = (s.batches b).reqs.filter keep ∧
      (∀ c ≠ b, (filterBatch s b keep).batches c = s.batches c) ∧
      (∀ c, ((filterBatch s b keep).batches c).isExtend = (s.batches c).isExtend ∧
        ((filterBatch s b keep).batches c).chunkedReq = (s.batches c).chunkedReq) ∧
      (filterBatch s b keep).reqs = s.reqs := by
  unfold filterBatch
  split
  next hall => exact ⟨(List.filter_eq_self.mpr (List.all_eq_true.mp hall)).symm,
      fun _ _ => rfl, fun _ => ⟨rfl, rfl⟩, rfl⟩
  · refine ⟨by simp [State.updateBatch, Batch.reslice], fun c hc => ?_, fun c => ?_, rfl⟩
    · simp [State.updateBatch, hc]
    · by_cases hc : c = b
      · subst hc
        simp [State.updateBatch, Batch.reslice]
      · simp [State.updateBatch, hc]

theorem filterBatch_reqs (s : State V) (b : ℕ) (keep : ℕ → Bool) :
    (filterBatch s b keep).reqs = s.reqs :=
  (filterBatch_batches s b keep).2.2.2

theorem streamOutput_reqs (adapterError : ℕ → Option String) (s : State V) (q : ℕ) :
    (streamOutput adapterError s q).reqs = s.reqs := by
  unfold streamOutput emitResult emitRequestError discardEvents
  split
  · split
    · rfl
    · split
      · split <;> rfl
      · rfl
  · rfl

/-- Admitted requests keep their ids, and finished ones stay finished. -/
structure Ages (s t : State V) : Prop where
  rid : ∀ q, (t.reqs q).rid = (s.reqs q).rid
  finished : ∀ q, (s.reqs q).finished = true → (t.reqs q).finished = true

namespace Ages

variable {s t u : State V}

theorem trans (h : Ages s t) (k : Ages t u) : Ages s u :=
  ⟨fun q => (k.rid q).trans (h.rid q), fun q hq => k.finished q (h.finished q hq)⟩

theorem of_reqs (h : t.reqs = s.reqs) : Ages s t :=
  ⟨fun _ => by rw [h], fun _ hq => by rwa [h]⟩

theorem of_frame (h : SameFrame s t) : Ages s t :=
  ⟨h.rid, fun q hq => (h.finished q).trans hq⟩

theorem foldl {α : Type} {f : State V → α → State V} (hf : ∀ s a, Ages s (f s a))
    (s : State V) (as : List α) : Ages s (as.foldl f s) := by
  induction as generalizing s with
  | nil => exact of_reqs rfl
  | cons a as ih => exact (hf s a).trans (ih (f s a))

theorem updateReq (s : State V) (q : ℕ) {f : Req → Req} (hrid : (f (s.reqs q)).rid = (s.reqs q).rid)
    (hfinished : (s.reqs q).finished = true → (f (s.reqs q)).finished = true) :
    Ages s (s.updateReq q f) := by
  refine ⟨fun p => ?_, fun p hp => ?_⟩ <;> by_cases hpq : p = q
  · subst hpq
    simpa [State.updateReq] using hrid
  · simp [State.updateReq, hpq]
  · subst hpq
    simpa [State.updateReq] using hfinished hp
  · simpa [State.updateReq, hpq] using hp

end Ages

theorem ages_retract (s : State V) (q : ℕ) : Ages s (retractRequest s q) :=
  (Ages.of_frame (sameFrame_release s q)).trans (.updateReq _ q rfl id)

theorem ages_process (s : State V) (reqs finished : List ℕ) (adapterError : ℕ → Option String) :
    Ages s (processBatchResult s reqs finished adapterError) := by
  have hfinish : ∀ (u : State V) (q : ℕ), Ages u (finishRequest u q) := fun u q =>
    (Ages.updateReq u q rfl fun _ => rfl).trans (.of_frame (sameFrame_release _ q))
  exact (Ages.foldl hfinish s _).trans
    (.foldl (fun u q => .of_reqs (streamOutput_reqs adapterError u q)) _ _)

theorem ages_resolve (s : State V) (pending : PendingStep) (outcome : StepOutcome) :
    Ages s (resolveAndProcess s pending outcome) := by
  cases outcome with
  | fails error => exact .of_frame (sameFrame_handleBatchFailure s pending.batch error)
  | refused => exact .of_reqs rfl
  | done finished adapterError =>
    have hupdate : Ages s (s.updateBatch pending.batch fun batch =>
        { batch with reqs := (handedOver s pending).1 }) := .of_reqs rfl
    unfold resolveAndProcess
    dsimp only
    split
    · exact hupdate
    · exact hupdate.trans (ages_process _ _ _ _)

theorem mergeLast_reqs (s : State V) : (mergeLast s).reqs = s.reqs := by
  unfold mergeLast
  split
  · rfl
  · split
    · dsimp only
      split
      · exact filterBatch_reqs ..
      · split <;> exact filterBatch_reqs ..
    · rfl

theorem ages_select {s t : State V} {choice : Choice} {batch : Option ℕ}
    (hselect : selectBatch s choice = some (t, batch)) : Ages s t := by
  cases choice with
  | prefill admitted slot chunked mixed =>
    obtain ⟨_, hselect⟩ := Option.ite_none_right_eq_some.mp hselect
    obtain ⟨rfl, _⟩ := Prod.mk.inj (Option.some.inj hselect)
    have hadmits : Ages s (admitRequests s admitted slot chunked) := by
      refine ⟨fun q => ?_, fun q hq => ?_⟩ <;> unfold admitRequests <;> dsimp only <;> split
      · rfl
      · rfl
      · exact hq
      · exact hq
    split
    · refine hadmits.trans (.of_reqs ?_)
      exact filterBatch_reqs ..
    · exact hadmits.trans (.of_reqs rfl)
  | decode retracted =>
    obtain ⟨_, hselect⟩ := Option.ite_none_right_eq_some.mp hselect
    have hupdate : Ages s (updateRunningBatch s retracted) := by
      refine Ages.trans (.of_reqs ?_) (.foldl ages_retract _ _)
      exact (filterBatch_reqs ..).trans (filterBatch_reqs ..)
    split at hselect
    · obtain ⟨rfl, _⟩ := Prod.mk.inj (Option.some.inj hselect)
      exact hupdate
    · obtain ⟨rfl, _⟩ := Prod.mk.inj (Option.some.inj hselect)
      exact hupdate.trans (.of_reqs rfl)
  | nothing =>
    obtain ⟨_, hselect⟩ := Option.ite_none_right_eq_some.mp hselect
    obtain ⟨rfl, _⟩ := Prod.mk.inj (Option.some.inj hselect)
    exact .of_reqs rfl

/-- **Step lemma.** Admitted requests keep their ids, and finished ones stay finished. -/
theorem ages_step {s t : State V} {a : Action} (hstep : step s a = some t) :
    Ages s t ∨ ∃ requestId, a = .enqueue requestId ∧
      t.reqs = Function.update s.reqs s.reqCount ⟨requestId, false, false, false, none, none⟩ := by
  have hend : ∀ u : State V, Ages u u.endIteration := fun _ => .of_reqs rfl
  have htake : Ages s { s with asyncPending := none } := .of_reqs rfl
  cases stepped hstep with
  | enqueue requestId => exact Or.inr ⟨requestId, rfl, rfl⟩
  | abort requestId => exact Or.inl (.of_frame (sameFrame_abort s requestId true))
  | flush outcome pending => exact Or.inl (htake.trans (ages_resolve _ pending outcome))
  | select choice u batch htop hselect =>
    left
    exact ((Ages.of_reqs (mergeLast_reqs s)).trans (ages_select hselect)).trans (.of_reqs rfl)
  | launch =>
    obtain ⟨b, hlaunches⟩ := launches_of_step hstep
    exact Or.inl (.of_reqs hlaunches.reqs)
  | launchFails b error =>
    exact Or.inl ((Ages.of_frame (sameFrame_handleBatchFailure s b error)).trans (hend _))
  | resolve outcome prevPending =>
    exact Or.inl ((ages_resolve s prevPending outcome).trans (hend _))
  | drain outcome pending =>
    exact Or.inl ((htake.trans (ages_resolve _ pending outcome)).trans (.of_reqs rfl))
  | dropStale =>
    refine Or.inl (.of_reqs ?_)
    change (dropStaleOverrun s).reqs = s.reqs
    unfold dropStaleOverrun
    split
    · rfl
    · split
      · dsimp only
        split <;> exact filterBatch_reqs ..
      · rfl
  | run outcome =>
    refine Or.inl (Ages.trans ?_ (hend _))
    unfold runBatch
    split
    · exact .of_reqs rfl
    next b error _ => exact .of_frame (sameFrame_handleBatchFailure s b error)
    next b finished adapterError _ => exact ages_process s (s.batches b).reqs finished adapterError
    · exact .of_reqs rfl

end Omni.Scheduler
