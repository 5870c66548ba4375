import Omni.Scheduler.Distinct

/-!
# Launched steps and their requests

The runner goes by the list of requests that a step had when it was launched. Until the step is
resolved the scheduler may finish, retract and cut its requests. Here is what holds of the list
as long as no batch fails while another launched step has unfinished requests.
-/

namespace Omni.Scheduler

open Omni.Transition

variable {V : Type} {b : ℕ} {pending : PendingStep}

section Flags

variable {s t : State V} {a : Action}

end Flags

section Old

variable {s t : State V}

theorem mergeLast_old (hb : b ∉ s.loopBatches) :
    (mergeLast s).batches b = s.batches b ∧ (mergeLast s).batchCount = s.batchCount ∧
      (mergeLast s).runningBatch ∈ s.loopBatches := by
  have hrunning := mem_loopBatches_running s
  unfold mergeLast
  split
  · exact ⟨rfl, rfl, hrunning⟩
  next l hlast =>
  split
  swap
  · exact ⟨rfl, rfl, hrunning⟩
  have hl := mem_loopBatches_last hlast
  obtain ⟨_, hothers, _, _⟩ := filterBatch_batches s l fun q =>
    !(s.reqs q).finished && decide (q ∉ s.chunkedReq.toList ++ (s.batches l).chunkedReq.toList)
  obtain ⟨hrefs, _, hcount, _⟩ := filterBatch_refs s l fun q =>
    !(s.reqs q).finished && decide (q ∉ s.chunkedReq.toList ++ (s.batches l).chunkedReq.toList)
  have hsame := hothers b fun heq => hb (heq ▸ hl)
  dsimp only
  generalize filterBatch s l _ = u at *
  split
  · exact ⟨hsame, hcount, hrefs ▸ hrunning⟩
  split
  · exact ⟨hsame, hcount, hl⟩
  · refine ⟨?_, hcount, hrefs ▸ hrunning⟩
    have hne : b ≠ u.runningBatch := fun heq => hb (heq ▸ hrefs ▸ hrunning)
    simpa [State.updateBatch, hne] using hsame

/-- Choosing touches the running batch and makes new ones. -/
theorem selectBatch_old {choice : Choice} {batch : Option ℕ}
    (hselect : selectBatch s choice = some (t, batch)) (hb : b < s.batchCount)
    (hne : b ≠ s.runningBatch) : t.batches b = s.batches b := by
  cases choice with
  | prefill admitted slot chunked mixed =>
    obtain ⟨_, hselect⟩ := Option.ite_none_right_eq_some.mp hselect
    obtain ⟨rfl, _⟩ := Prod.mk.inj (Option.some.inj hselect)
    split
    · unfold mixWithRunning
      rw [filterBatch_admitted]
      obtain ⟨_, hothers, _, _⟩ := filterBatch_batches s s.runningBatch fun q =>
        !((admitRequests s admitted slot chunked).reqs q).finished
      obtain ⟨_, _, hcount, _⟩ := filterBatch_refs s s.runningBatch fun q =>
        !((admitRequests s admitted slot chunked).reqs q).finished
      have hsame := hothers b hne
      change b ≠ (admitRequests s admitted slot chunked).runningBatch at hne
      generalize hu : filterBatch s (admitRequests s admitted slot chunked).runningBatch _ = u at *
      rw [show filterBatch s s.runningBatch (fun q =>
        !((admitRequests s admitted slot chunked).reqs q).finished) = u from hu] at hsame hcount
      have hlt : b < (admitRequests u admitted slot chunked).batchCount := hcount ▸ hb
      exact ((newBatch_old _ (Nat.lt_succ_of_lt hlt)).trans (newBatch_old _ hlt)).trans hsame
    · exact newBatch_old (s := admitRequests s admitted slot chunked) _ hb
  | decode retracted =>
    obtain ⟨_, hselect⟩ := Option.ite_none_right_eq_some.mp hselect
    have hupdate : (updateRunningBatch s retracted).batches b = s.batches b ∧
        (updateRunningBatch s retracted).runningBatch = s.runningBatch := by
      unfold updateRunningBatch
      dsimp only
      obtain ⟨_, hothers, _, _⟩ := filterBatch_batches s s.runningBatch fun q =>
        !(s.reqs q).finished
      obtain ⟨hrefs, _, _, _⟩ := filterBatch_refs s s.runningBatch fun q => !(s.reqs q).finished
      generalize filterBatch s s.runningBatch _ = u at *
      obtain ⟨_, hothers', _, _⟩ := filterBatch_batches u u.runningBatch fun q =>
        decide (q ∉ retracted)
      obtain ⟨hrefs', _, _, _⟩ := filterBatch_refs u u.runningBatch fun q => decide (q ∉ retracted)
      generalize filterBatch u u.runningBatch _ = v at *
      have hsame : ∀ leaving : List ℕ, SameBatches (extendWaitingQueue v leaving)
          (leaving.foldl retractRequest (extendWaitingQueue v leaving)) := fun leaving =>
        SameBatches.foldl sameBatches_retract (extendWaitingQueue v leaving) leaving
      refine ⟨?_, ?_⟩
      · rw [(hsame _).batches]
        exact (hothers' b (hrefs ▸ hne)).trans (hothers b hne)
      · exact (hsame _).runningBatch.trans (hrefs'.trans hrefs)
    split at hselect
    · obtain ⟨rfl, _⟩ := Prod.mk.inj (Option.some.inj hselect)
      exact hupdate.1
    · obtain ⟨rfl, _⟩ := Prod.mk.inj (Option.some.inj hselect)
      have hne' : b ≠ (updateRunningBatch s retracted).runningBatch := hupdate.2 ▸ hne
      simpa [State.updateBatch, hne'] using hupdate.1
  | nothing =>
    obtain ⟨_, hselect⟩ := Option.ite_none_right_eq_some.mp hselect
    obtain ⟨rfl, _⟩ := Prod.mk.inj (Option.some.inj hselect)
    rfl

/-- The batches of launched steps stay as they are when the next batch is chosen. -/
theorem select_old (hapart : Apart s) {choice : Choice} (hstep : step s (.select choice) = some t)
    (hpending : pending ∈ s.pendings) : t.batches pending.batch = s.batches pending.batch := by
  obtain ⟨hlt, hnot⟩ := hapart.pendings pending hpending
  obtain ⟨hsame, hcount, hrunning⟩ := mergeLast_old hnot
  cases stepped hstep
  next hselect =>
  exact (selectBatch_old hselect (hcount ▸ hlt) fun heq =>
    hnot (by rw [heq]; exact hrunning)).trans hsame

end Old

section Step

variable {s t : State V} {a : Action}

theorem pendings_quiet (hdrained : s.point = .drained ∨ s.point = .ready → s.asyncPending = none)
    (hquiet : a.Quiet) (hstep : step s a = some t) :
    (∃ r, a = .abort r) ∧ t.pendings = s.pendings ∧ t.point = s.point ∧
        t.asyncPending = s.asyncPending ∨
      (∃ error, a = .launch (some error)) ∧ t.pendings = s.asyncPending.toList ∧
        t.point = .top ∧ t.asyncPending = s.asyncPending ∨
      (∃ outcome prevPending, a = .resolve outcome ∧ s.point = .launched prevPending) ∧
        t.pendings = s.asyncPending.toList ∧ t.point = .top ∧ t.asyncPending = s.asyncPending ∨
      t.pendings = [] ∧ (t.point = .top ∨ t.point = .drained) ∧ t.asyncPending = none := by
  have hnone : ∀ u : State V, u.asyncPending = none → (∀ p, u.point ≠ .launched p) →
      u.pendings = [] := by
    intro u hasync hpoint
    unfold State.pendings
    rw [hasync]
    cases hp : u.point with
    | launched p => exact absurd hp (hpoint p)
    | _ => rfl
  have htop : ∀ u : State V, u.point = .top → u.pendings = u.asyncPending.toList := by
    intro u hpoint
    simp [State.pendings, hpoint]
  cases stepped hstep with
  | enqueue | select | launch | dropStale => exact hquiet.elim
  | abort requestId =>
    have hframe := sameFrame_abort s requestId true
    refine Or.inl ⟨⟨requestId, rfl⟩, ?_, hframe.point, hframe.asyncPending⟩
    unfold State.pendings
    rw [hframe.point, hframe.asyncPending]
  | flush outcome pending hpoint =>
    have hafter := (moves_resolve { s with asyncPending := none } pending outcome).2.1.trans hpoint
    have hasync := resolve_asyncPending { s with asyncPending := none } pending outcome
    exact Or.inr (Or.inr (Or.inr ⟨hnone _ hasync (by simp [hafter]), Or.inl hafter, hasync⟩))
  | launchFails b error =>
    have hasync := (sameFrame_handleBatchFailure s b error).asyncPending
    exact Or.inr (Or.inl ⟨⟨error, rfl⟩, (htop _ rfl).trans (congrArg _ hasync), rfl, hasync⟩)
  | resolve outcome prevPending hpoint =>
    have hasync := resolve_asyncPending s prevPending outcome
    exact Or.inr (Or.inr (Or.inl ⟨⟨outcome, prevPending, rfl, hpoint⟩,
      (htop _ rfl).trans (congrArg _ hasync), rfl, hasync⟩))
  | drain outcome pending =>
    have hasync := resolve_asyncPending { s with asyncPending := none } pending outcome
    exact Or.inr (Or.inr (Or.inr ⟨hnone _ hasync (by simp), Or.inr rfl, hasync⟩))
  | run outcome hpoint =>
    have hasync : s.asyncPending = none := by
      rcases hpoint with ⟨_, hasync⟩ | hready
      · exact hasync
      · exact hdrained (Or.inr hready)
    have hasync' : (runBatch s outcome).asyncPending = none := by
      unfold runBatch
      split
      · exact hasync
      next b error _ => exact (sameFrame_handleBatchFailure s b error).asyncPending.trans hasync
      next b finished adapterError _ =>
        exact (sameBatches_process s (s.batches b).reqs finished adapterError).asyncPending.trans
          hasync
      · exact hasync
    exact Or.inr (Or.inr (Or.inr ⟨hnone _ hasync' (by simp [State.endIteration]), Or.inl rfl,
      hasync'⟩))

theorem mem_pendings_async (hpending : s.asyncPending = some pending) :
    pending ∈ s.pendings := by
  simp [State.pendings, hpending]

/-- A copy of the current batch `b` is in flight. -/
structure LaunchedFrom (s t : State V) (b : ℕ) : Prop where
  selected : s.point = .selected
  curBatch : s.curBatch = some b
  isExtend : (s.batches b).isExtend = false
  batches : t.batches = Function.update s.batches s.batchCount (s.batches b)
  asyncPending : t.asyncPending = some ⟨s.batchCount, (s.batches b).reqs⟩
  after : s.asyncPending = none ∧ t.point = .top ∨
    ∃ prevPending, s.asyncPending = some prevPending ∧ t.point = .launched prevPending

theorem launched_of_step (hstep : step s (.launch none) = some t) : ∃ b, LaunchedFrom s t b := by
  cases stepped hstep
  next b hpoint hcur hdecode =>
  unfold launchBatch
  split
  next hnone => exact ⟨b, hpoint, hcur, hdecode, rfl, rfl, Or.inl ⟨hnone, rfl⟩⟩
  next prevPending hsome =>
    exact ⟨b, hpoint, hcur, hdecode, rfl, rfl, Or.inr ⟨prevPending, hsome, rfl⟩⟩

/-- The steps in flight are the new one and the one before it. -/
theorem LaunchedFrom.mem_pendings (hl : LaunchedFrom s t b) (hp : pending ∈ t.pendings) :
    pending = ⟨s.batchCount, (s.batches b).reqs⟩ ∨ s.asyncPending = some pending := by
  rcases hl.after with ⟨_, hpoint⟩ | ⟨prevPending, hprev, hpoint⟩
  · left
    simpa [State.pendings, hl.asyncPending, hpoint] using hp
  · simpa [State.pendings, hl.asyncPending, hpoint, hprev, eq_comm] using hp

/-- Stale requests are dropped when no step is in flight. -/
theorem dropStale_launched (hstep : step s .dropStale = some t) :
    s.point = .drained ∧ t.point = .ready ∧ t.asyncPending = s.asyncPending := by
  cases stepped hstep
  next hpoint =>
  refine ⟨hpoint, rfl, ?_⟩
  unfold dropStaleOverrun
  split
  · rfl
  · split
    · dsimp only
      split <;> exact filterBatch_asyncPending ..
    · rfl

end Step

end Omni.Scheduler
