import Omni.Scheduler.Lookahead

/-!
# Token rows and the requests of a launched step

A launched step has one row of `next_token_ids` for each request that its batch had at the
launch. `_resolve_and_process` drops stale requests and their rows together. An abort or the
handler of a failed batch drops requests of the launched batch only, and the rows behind them
are then out of step.
-/

namespace Omni.Scheduler

open Omni.Transition

variable {V : Type} {pending : PendingStep}

/-- The rows that `process_batch_result` would get with the requests of a launched step, if the
step were resolved now, are the rows of these requests. -/
def RowsMatch (s : State V) : Prop :=
  ∀ pending ∈ s.pendings, Paired (fun _ => True) (handedOver s pending).1 (handedOver s pending).2

/-- The action cuts a request out of the batch of the launched step, in front of one that has
not finished. -/
def ShiftsRows (s : State V) (a : Action) : Prop :=
  ∃ ids refs, Cuts s a ids refs ∧ ∃ pending, s.asyncPending = some pending ∧
    ∃ p q, [p, q].Sublist (s.batches pending.batch).reqs ∧ (s.reqs p).rid ∈ ids ∧
      (s.reqs q).rid ∉ ids ∧ (s.reqs q).finished = false

/-- How launched steps and the batches of the loop go together. -/
structure InLine (s : State V) : Prop where
  apart : Apart s
  admitted : ∀ q, Present s q → q < s.reqCount
  drained : s.point = .drained ∨ s.point = .ready → s.asyncPending = none
  two : ∀ prevPending pending, s.point = .launched prevPending →
    s.asyncPending = some pending → pending.batch ≠ prevPending.batch

/-- The rows of unfinished requests are at the places of these requests. -/
def Lined (s : State V) : Prop :=
  ∀ pending ∈ s.pendings, Paired (fun q => (s.reqs q).finished = false)
    (s.batches pending.batch).reqs pending.nextTokenIds

theorem inLine_init (isEntryRank : Bool) : InLine (State.init V isEntryRank) where
  apart := apart_init isEntryRank
  admitted q hq := absurd hq (not_present_init isEntryRank q)
  drained := by simp [State.init]
  two := by simp [State.init]

theorem lined_init (isEntryRank : Bool) : Lined (State.init V isEntryRank) := by
  intro pending hpending
  simp [State.pendings, State.init] at hpending

/-- Requests and rows that are in line are handed over in line. -/
theorem Lined.rowsMatch {s : State V} (h : Lined s) : RowsMatch s := by
  intro pending hpending
  have hpaired := h pending hpending
  have hkept : ∀ q, (!s.stale q) = true → (s.reqs q).finished = false := by
    intro q hq
    simp only [State.stale, Bool.not_or, Bool.and_eq_true, Bool.not_eq_true'] at hq
    exact hq.1
  unfold handedOver
  dsimp only
  split
  · split
    next hnone =>
      rw [hnone]
      exact paired_nil _ _
    · exact hpaired.reslice hkept
  next hlong =>
    have hsub : ((s.batches pending.batch).reqs.filter fun q => !s.stale q).Sublist
      (s.batches pending.batch).reqs := List.filter_sublist
    have hall := hsub.eq_of_length_le (Nat.le_of_not_lt hlong)
    refine hpaired.imp fun q hq _ => hkept q ?_
    rw [← hall] at hq
    exact (List.mem_filter.mp hq).2

section Step

variable {s t : State V} {a : Action}

/-- **Step lemma.** -/
theorem InLine.step (h : InLine s) (hstep : Omni.Scheduler.step s a = some t) : InLine t := by
  have hboth : (t.point = .drained ∨ t.point = .ready → t.asyncPending = none) ∧
      ∀ prevPending pending, t.point = .launched prevPending →
        t.asyncPending = some pending → pending.batch ≠ prevPending.batch := by
    by_cases hquiet : a.Quiet
    · rcases pendings_quiet h.drained hquiet hstep with ⟨_, _, hpoint, hasync⟩ |
        ⟨_, _, hpoint, _⟩ | ⟨_, _, hpoint, _⟩ | ⟨_, _, hasync⟩
      · rw [hpoint, hasync]
        exact ⟨h.drained, h.two⟩
      · simp [hpoint]
      · simp [hpoint]
      · simp [hasync]
    cases stepped hstep with
    | enqueue => exact ⟨h.drained, h.two⟩
    | select => simp [State.setCurrent]
    | launch =>
      obtain ⟨b, hl⟩ := launched_of_step hstep
      rcases hl.after with ⟨_, hpoint⟩ | ⟨prevPending, hprev, hpoint⟩
      · simp [hpoint]
      · refine ⟨by simp [hpoint], fun other pending hother hpending => ?_⟩
        obtain rfl := LoopPoint.launched.inj (hpoint.symm.trans hother)
        obtain rfl := Option.some.inj (hl.asyncPending.symm.trans hpending)
        exact (h.apart.pendings prevPending (mem_pendings_async hprev)).1.ne'
    | dropStale =>
      obtain ⟨hdrained, _, hasync⟩ := dropStale_launched hstep
      rw [hasync, h.drained (Or.inl hdrained)]
      simp
    | _ => exact absurd trivial hquiet
  exact ⟨h.apart.step hstep, present_lt_step h.admitted hstep, hboth.1, hboth.2⟩

/-- What becomes of the requests of a launched step. -/
inductive Rest (s t : State V) (a : Action) (pending : PendingStep) : Prop
  /-- They are as before. -/
  | same : pending ∈ s.pendings →
      (t.batches pending.batch).reqs = (s.batches pending.batch).reqs → Rest s t a pending
  /-- Some of them are cut. -/
  | cut {ids : List String} {refs : List ℕ} : s.asyncPending = some pending →
      Cuts s a ids refs → (t.batches pending.batch).reqs =
        ((s.batches pending.batch).reqs.filter fun q => (s.reqs q).rid ∉ ids) →
      Rest s t a pending
  /-- The step has just been launched. -/
  | new : (t.batches pending.batch).reqs = pending.nextTokenIds → Rest s t a pending

/-- An abort cuts the step in flight only. -/
theorem InLine.rest_abort (h : InLine s) (requestId : String) (hp : pending ∈ s.pendings) :
    Rest s (abort s requestId true) (.abort requestId) pending := by
  by_cases hmarked : Marked s requestId
  · exact .same hp (by rw [abort_batches_of_marked hmarked])
  by_cases hmem : pending.batch ∈ s.fourBatches
  · have hasync : s.asyncPending = some pending := by
      rcases List.mem_append.mp hmem with hloop | hmem
      · exact absurd hloop (h.apart.pendings pending hp).2
      rcases List.mem_append.mp hp with hp | hp
      · exact Option.mem_toList.mp hp
      · cases hpoint : s.point with
        | launched prevPending =>
          -- The step before the one in flight is in none of the four batches.
          rw [hpoint] at hp
          obtain rfl := List.mem_singleton.mp hp
          obtain ⟨next, hnext, hbatch⟩ := Option.map_eq_some_iff.mp (Option.mem_toList.mp hmem)
          exact absurd hbatch (h.two pending next hpoint hnext)
        | _ =>
          rw [hpoint] at hp
          cases hp
    refine .cut hasync (.abort hmarked) ?_
    rw [abort_batches_of_not_marked hmarked, cutBatches, if_pos hmem]
    simp [Batch.without]
  · refine .same hp ?_
    rw [abort_batches_of_not_marked hmarked, cutBatches, if_neg hmem]

/-- The handler of a failed batch cuts its requests out of the step in flight. -/
theorem failure_pending (hpending : s.asyncPending = some pending) (b : ℕ) (error : String) :
    ((handleBatchFailure s b error).batches pending.batch).reqs =
      (s.batches pending.batch).reqs.filter fun q => (s.reqs q).rid ∉ s.requestIds b :=
  (handleBatchFailure_batches (by simp [State.fourBatches, hpending]) b error).reqs

theorem InLine.rest_resolve (h : InLine s) {prevPending : PendingStep}
    (hpoint : s.point = .launched prevPending) (hpending : s.asyncPending = some pending)
    (outcome : StepOutcome) :
    Rest s (resolveAndProcess s prevPending outcome) (.resolve outcome) pending := by
  have hmem := mem_pendings_async hpending
  cases outcome with
  | fails error => exact .cut hpending (.resolve hpoint) (failure_pending hpending _ error)
  | refused => exact .same hmem rfl
  | done finished adapterError =>
    refine .same hmem ?_
    rw [(resolve_done s prevPending finished adapterError).batches]
    simp [State.updateBatch, h.two prevPending pending hpoint hpending]

/-- **Frame.** What an action does to the requests of the steps that are launched afterwards. -/
theorem InLine.rest (h : InLine s) (hstep : Omni.Scheduler.step s a = some t)
    (hp : pending ∈ t.pendings) : Rest s t a pending := by
  by_cases hquiet : a.Quiet
  · rcases pendings_quiet h.drained hquiet hstep with ⟨⟨requestId, rfl⟩, hsame, _⟩ |
      ⟨⟨error, rfl⟩, hsame, _⟩ | ⟨⟨outcome, prevPending, rfl, hpoint⟩, hsame, _⟩ | ⟨hnone, _⟩
    · rw [← Option.some.inj hstep]
      exact h.rest_abort requestId (hsame ▸ hp)
    · have hasync := Option.mem_toList.mp (hsame ▸ hp)
      cases stepped hstep
      next hcur _ _ =>
      exact .cut hasync (.launch hcur) (failure_pending hasync _ error)
    · have hasync := Option.mem_toList.mp (hsame ▸ hp)
      simp only [Omni.Scheduler.step, hpoint, Option.some.injEq] at hstep
      have hrest := h.rest_resolve hpoint hasync outcome
      rw [← hstep]
      cases hrest with
      | same hmem hreqs => exact .same hmem hreqs
      | cut hsome hcuts hreqs => exact .cut hsome hcuts hreqs
      | new hreqs => exact .new hreqs
    · rw [hnone] at hp
      cases hp
  cases stepped hstep with
  | enqueue => exact .same hp rfl
  | select =>
    have hp := (moves_step hstep (by simp) (by simp)).1.pendings pending hp
    exact .same hp (congrArg Batch.reqs (select_old h.apart hstep hp))
  | launch =>
    obtain ⟨b, hl⟩ := launched_of_step hstep
    rcases hl.mem_pendings hp with rfl | hprev
    · refine .new ?_
      simp [hl.batches]
    · have hmem := mem_pendings_async hprev
      refine .same hmem ?_
      simp [hl.batches, (h.apart.pendings pending hmem).1.ne]
  | dropStale =>
    obtain ⟨hdrained, _, hasync⟩ := dropStale_launched hstep
    have hnone : (dropStaleOverrun s).asyncPending = none :=
      hasync.trans (h.drained (Or.inl hdrained))
    simp [State.pendings, hnone] at hp
  | _ => exact absurd trivial hquiet

/-- **Step lemma.** A step that does not shift rows leaves them in line. -/
theorem Lined.step (h : Lined s) (hline : InLine s) (hnot : ¬ShiftsRows s a)
    (hstep : Omni.Scheduler.step s a = some t) : Lined t := by
  have hunfinished : ∀ pending ∈ s.pendings, ∀ q ∈ (s.batches pending.batch).reqs,
      (t.reqs q).finished = false → (s.reqs q).finished = false := by
    intro pending hp q hq hunfinished
    have hlt := hline.admitted q (Or.inr (Or.inr
      ⟨pending.batch, List.mem_append_right _ (List.mem_map_of_mem hp), hq⟩))
    rcases ages_step hstep with hages | ⟨_, _, hreqs⟩
    · by_contra hfinished
      rw [Bool.not_eq_false] at hfinished
      rw [hages.finished q hfinished] at hunfinished
      cases hunfinished
    · rwa [hreqs, Function.update_of_ne hlt.ne] at hunfinished
  intro pending hp
  cases hline.rest hstep hp with
  | same hmem hreqs =>
    rw [hreqs]
    exact (h pending hmem).imp (hunfinished pending hmem)
  | @cut ids refs hasync hcuts hreqs =>
    have hmem := mem_pendings_async hasync
    have hfiltered := (h pending hmem).filter fun q => (s.reqs q).rid ∉ ids
    rw [hreqs]
    refine Paired.imp (hfiltered fun p q hsub hp hq hfirst => ?_) fun q hq =>
      hunfinished pending hmem q (List.mem_filter.mp hq).1
    exact hnot ⟨ids, refs, hcuts, pending, hasync, p, q, hsub, by simpa using hp,
      by simpa using hq, hfirst⟩
  | new hreqs =>
    rw [hreqs]
    exact paired_self _ _

end Step

/-- Two requests decode together, a second step is launched, and the first request finishes
in the first step. -/
def finishAhead : List Action :=
  [.enqueue "a", .enqueue "b", .select (.prefill [0, 1] id none false),
    .run (.done [] fun _ => none), .select (.decode []), .launch none, .select (.decode []),
    .launch none, .resolve (.done [0] fun _ => none)]

/-- Whenever a launched step is resolved, the rows that are handed over with its requests are
those that were computed for them, as long as no request has been cut out of the batch of the
step in front of an unfinished one. -/
theorem token_rows_kept (isEntryRank : Bool) (as : List Action) (s : State V)
    (hrun : Transition.Run step (fun s a => ¬ShiftsRows s a) (.init V isEntryRank) as s) :
    RowsMatch s := by
  have hkept : InLine s ∧ Lined s :=
    hrun.invariant (I := fun s => InLine s ∧ Lined s)
      (fun s a t h hok hstep => ⟨h.1.step hstep, h.2.step h.1 hok hstep⟩)
      ⟨inLine_init isEntryRank, lined_init isEntryRank⟩
  exact hkept.2.rowsMatch

/-- The second step is handed over without request 0 and its row. -/
theorem token_rows_kept_ahead : ∃ s : State Unit,
    s.asyncPending.map (handedOver s) = some ([1], [1]) ∧ RowsMatch s := by
  have hcuts : ∀ a ∈ finishAhead, ∀ s : State Unit, ¬ShiftsRows s a := by
    rintro a ha s ⟨ids, refs, hcuts, _⟩
    simp only [finishAhead, List.mem_cons, List.not_mem_nil, or_false] at ha
    rcases ha with rfl | rfl | rfl | rfl | rfl | rfl | rfl | rfl | rfl <;> cases hcuts
  have hrun := run_of_exec_of_forall hcuts (Option.some_get
    (show (exec step (State.init Unit true) finishAhead).isSome by decide +kernel)).symm
  exact ⟨_, by decide +kernel, token_rows_kept true finishAhead _ hrun⟩

/-- `abort("a")` finds that request 0 has finished and cuts it out of the second step. When this
step is resolved, request 1 gets the row of request 0. -/
theorem token_rows_shifted :
    ∃ t, Transition.Run step Transition.anyAction (.init Unit true)
      (finishAhead ++ [.abort "a"]) t ∧
      t.asyncPending.map (handedOver t) = some ([1], [0, 1]) ∧
      (step t (.flush (.done [] fun _ => none))).isSome ∧ ¬RowsMatch t := by
  have hrun := Transition.run_of_isSome step (State.init Unit true)
    (finishAhead ++ [.abort "a"]) (by decide +kernel)
  refine ⟨_, hrun, by decide +kernel, by decide +kernel, fun hmatch => ?_⟩
  have hhanded : ∀ {t : State Unit}, t.asyncPending.map (handedOver t) = some ([1], [0, 1]) →
      RowsMatch t → Paired (fun _ => True) [1] [0, 1] := by
    intro t hrows hmatch
    obtain ⟨pending, hpending, hpair⟩ := Option.map_eq_some_iff.mp hrows
    have hpaired := hmatch pending (mem_pendings_async hpending)
    rwa [hpair] at hpaired
  have hrow := hhanded (by decide +kernel) hmatch 0 1 rfl trivial
  simp at hrow

end Omni.Scheduler
