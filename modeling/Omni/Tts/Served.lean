import Omni.Scheduler.Distinct

/-!
# Requests with data in the scheduler

The scheduler together with a model runner that keeps data for each request, in which a row of
a batch depends on the data of its own request only. The engines never look ahead, so a batch is
chosen, runs, and is processed before the next one is chosen. What holds of the rows of all
batches holds of the data of all requests.
-/

namespace Omni.Tts

open Omni.Scheduler Option

variable {V R D : Type} {b : ℕ} {data : ℕ → D} {d : D}

/-- A prefill of the first request. -/
def prefillChoice : Choice := .prefill [0] id none false

/-- A run of the current batch in which no request is found to be finished. -/
def goesOn : Action := .run (.done [] fun _ => none)

/-- The only request runs. -/
structure OnlyRuns (s : State V) : Prop where
  point : s.point = .top
  asyncPending : s.asyncPending = none
  chunkedReq : s.chunkedReq = none
  finished : (s.reqs 0).finished = false
  running : ((mergeLast s).batches (mergeLast s).runningBatch).reqs = [0]

/-- Its batch has been chosen. -/
structure OnlyChosen (s : State V) (b : ℕ) : Prop where
  point : s.point = .selected
  asyncPending : s.asyncPending = none
  chunkedReq : s.chunkedReq = none
  finished : (s.reqs 0).finished = false
  curBatch : s.curBatch = some b
  reqs : (s.batches b).reqs = [0]

theorem first_steps (V : Type) (isEntryRank : Bool) : ∃ s t : State V,
    Scheduler.step (.init V isEntryRank) (.enqueue "") = some s ∧
      Scheduler.step s (.select prefillChoice) = some t ∧ OnlyChosen t 1 ∧
      (t.batches 1).isExtend = true ∧ OnlyRuns t.endIteration :=
  ⟨_, _, rfl, rfl, ⟨rfl, rfl, rfl, rfl, rfl, rfl⟩, rfl, ⟨rfl, rfl, rfl, rfl, rfl⟩⟩

theorem OnlyRuns.select {s : State V} (h : OnlyRuns s) : ∃ t : State V,
    Scheduler.step s (.select (.decode [])) = some t ∧ OnlyChosen t t.runningBatch ∧
      (t.batches t.runningBatch).isExtend = false := by
  have hchunked : (mergeLast s).chunkedReq = none :=
    (moves_mergeLast s).2.chunkedReq.trans h.chunkedReq
  have hunfinished : (mergeLast s).unfinishedRunning = [0] := by
    unfold State.unfinishedRunning
    rw [h.running, mergeLast_reqs]
    simp [h.finished]
  obtain ⟨v, heq, hstaying, _, _, _⟩ := updateRunningBatch_eq (mergeLast s) []
  have hkept : ((updateRunningBatch (mergeLast s) []).batches
      (updateRunningBatch (mergeLast s) []).runningBatch).reqs = [0] := by
    rw [heq]
    simpa [hunfinished, extendWaitingQueue] using hstaying
  have hselect : selectBatch (mergeLast s) (.decode []) =
      some ((updateRunningBatch (mergeLast s) []).updateBatch
        (updateRunningBatch (mergeLast s) []).runningBatch
        fun batch => { batch with isExtend := false },
          some (updateRunningBatch (mergeLast s) []).runningBatch) := by
    unfold selectBatch
    dsimp only
    rw [if_pos ⟨hchunked, by simp [h.running]⟩, if_neg (by simp [hkept])]
  have hdecodes := decodes_of_select hselect
  refine ⟨_, by simp only [Scheduler.step, h.point, hselect, map_some], ⟨rfl, ?_,
    hdecodes.chunkedReq, ?_, rfl, ?_⟩, ?_⟩
  · exact (hdecodes.asyncPending.trans (mergeLast_asyncPending s)).trans h.asyncPending
  · rw [hdecodes.finished, mergeLast_reqs]
    exact h.finished
  · exact hdecodes.reqs.trans (by simp [hunfinished])
  · exact (hdecodes.curBatch _ rfl).2

theorem OnlyChosen.run {s : State V} (h : OnlyChosen s b) :
    Scheduler.step s goesOn = some s.endIteration := by
  have hprocess : processBatchResult s [0] [] (fun _ => none) = s := by
    simp [processBatchResult, streamOutput, h.finished]
  unfold goesOn
  simp only [Scheduler.step, h.point, h.asyncPending]
  unfold runBatch
  simp only [h.curBatch, h.reqs, hprocess]

/-- After a decode step, the request runs. -/
theorem OnlyChosen.onlyRuns {s : State V} (h : OnlyChosen s s.runningBatch)
    (hextend : (s.batches s.runningBatch).isExtend = false) : OnlyRuns s.endIteration := by
  have hmerge : mergeLast s.endIteration = s.endIteration := by
    unfold mergeLast
    have hlast : s.endIteration.lastBatch = some s.runningBatch := h.curBatch
    rw [hlast]
    dsimp only
    rw [if_neg (by simpa [State.endIteration] using hextend)]
  refine { h with point := rfl, running := ?_ }
  rw [hmerge]
  exact h.reqs

/-- A model runner, by what it does to the data of a request when it runs a row of it. -/
structure Runner (R D : Type) where
  promptLen : R → ℕ
  /-- `len(req.output_ids)`. -/
  outputs : D → ℕ
  init : R → D
  /-- A row of a prefill of some positions after a prefix, of a chunk or not. -/
  prefill : R → ℕ → ℕ → Bool → D → Option D
  /-- A row of a decode step. -/
  decode : R → D → Option D
  outputs_init : ∀ r, outputs (init r) = 0
  /-- `process_batch_result` appends a token, unless the row is one of a chunk. -/
  outputs_prefill : ∀ {r prefixLen extendLen isChunked d d'},
    prefill r prefixLen extendLen isChunked d = some d' →
      outputs d' = if isChunked then outputs d else outputs d + 1
  outputs_decode : ∀ {r d d'}, decode r d = some d' → outputs d' = outputs d + 1

/-- The request alone: its prompt is prefilled at once, and then it decodes. -/
def Runner.alone (r : Runner R D) (request : R) : ℕ → Option D
  | 0 => some (r.init request)
  | 1 => r.prefill request 0 (r.promptLen request) false (r.init request)
  | n + 2 => (r.alone request (n + 1)).bind (r.decode request)

/-- The scheduler with the data of its requests. -/
structure Served (V D : Type) where
  scheduler : State V
  data : ℕ → D

/-- An action of the scheduler. In a prefill, `len(req.prefix_indices)` and
`req.extend_input_len` are given for each request. -/
structure ServedAction where
  action : Action
  prefixLen : ℕ → ℕ
  extendLen : ℕ → ℕ

/-- The action runs the current batch. -/
def ServedAction.isRun (a : ServedAction) : Bool :=
  match a.action with
  | .run _ => true
  | _ => false

namespace Served

/-- Before the first request. -/
def init (V : Type) (r : Runner R D) (request : ℕ → R) (isEntryRank : Bool) : Served V D :=
  ⟨.init V isEntryRank, fun q => r.init (request q)⟩

variable (r : Runner R D) (request : ℕ → R)

/-- The request is prefilled in part. -/
def isChunked (s : Served V D) (q : ℕ) : Bool := s.scheduler.chunkedReq = some q

/-- A prefill reaches the end of what the request has, and ends before it in a chunk. -/
def fits (s : Served V D) (a : ServedAction) (q : ℕ) : Bool :=
  let total := r.promptLen (request q) + r.outputs (s.data q)
  if s.isChunked q then a.prefixLen q + a.extendLen q < total
  else a.prefixLen q + a.extendLen q = total

/-- The row of a request. -/
def row (s : Served V D) (a : ServedAction) (isExtend : Bool) (q : ℕ) : Option D :=
  if isExtend then
    r.prefill (request q) (a.prefixLen q) (a.extendLen q) (s.isChunked q) (s.data q)
  else r.decode (request q) (s.data q)

/-- `execute` and the tokens of `process_batch_result`. The outputs go by request id, and the
ids of a batch differ. -/
def runData (s : Served V D) (a : ServedAction) (batch : Batch) : Option (ℕ → D) :=
  if (batch.reqs.map fun q => (s.scheduler.reqs q).rid).Nodup ∧
      (batch.isExtend → batch.reqs.all (s.fits r request a)) ∧
      batch.reqs.all (fun q => (s.row r request a batch.isExtend q).isSome) then
    some fun q => if q ∈ batch.reqs then (s.row r request a batch.isExtend q).getD (s.data q)
      else s.data q
  else none

/-- What an action writes to the data. An admission takes a request once. -/
def dataAfter (s : Served V D) (a : ServedAction) : Option (ℕ → D) :=
  match a.action with
  | .enqueue _ | .abort _ | .select (.decode _) | .select .nothing | .run (.fails _) =>
    some s.data
  | .select (.prefill admitted _ _ _) => if admitted.Nodup then some s.data else none
  | .run (.done _ _) =>
    match s.scheduler.curBatch with
    | none => some s.data
    | some b => s.runData r request a (s.scheduler.batches b)
  | _ => none

/-- The transition function. -/
def step (s : Served V D) (a : ServedAction) : Option (Served V D) := do
  let after ← Scheduler.step s.scheduler a.action
  let data ← s.dataAfter r request a
  return ⟨after, data⟩

end Served

/-- All prefills that run are of rows as given. -/
def Served.Prefills (request : ℕ → R) (ok : R → ℕ → ℕ → Bool → D → Prop) (s : Served V D)
    (a : ServedAction) : Prop :=
  a.isRun = true → ∀ q ∈ s.scheduler.prefilled,
    ok (request q) (a.prefixLen q) (a.extendLen q) (s.isChunked q) (s.data q)

instance {request : ℕ → R} {ok : R → ℕ → ℕ → Bool → D → Prop}
    [∀ r p e c d, Decidable (ok r p e c d)] (s : Served V D) (a : ServedAction) :
    Decidable (s.Prefills request ok a) :=
  inferInstanceAs (Decidable (_ → ∀ q ∈ s.scheduler.prefilled, _))

section Rows

variable {r : Runner R D} {request : ℕ → R} {s t : Served V D} {a : ServedAction}

theorem Served.step_some (hstep : s.step r request a = some t) :
    Scheduler.step s.scheduler a.action = some t.scheduler ∧
      s.dataAfter r request a = some t.data := by
  obtain ⟨after, hafter, hstep⟩ := bind_eq_some_iff.mp hstep
  obtain ⟨data, hdata, hstep⟩ := bind_eq_some_iff.mp hstep
  cases hstep
  exact ⟨hafter, hdata⟩

theorem Served.step_of {after : State V} (hsched : Scheduler.step s.scheduler a.action = some after)
    (hdata : s.dataAfter r request a = some data) :
    s.step r request a = some ⟨after, data⟩ := by
  unfold Served.step
  rw [hsched]
  simp only [bind_eq_bind, bind_some, hdata, pure_def]

/-- Who has an output token: the requests that are decoded, and those that have been prefilled to
their ends. -/
structure Fed (r : Runner R D) (s : Served V D) : Prop where
  orderly : Orderly s.scheduler
  running : ∀ q ∈ (s.scheduler.batches s.scheduler.runningBatch).reqs, 0 < r.outputs (s.data q)
  prefilled : s.scheduler.point = .top → ∀ q ∈ s.scheduler.prefilled,
    s.isChunked q = false → 0 < r.outputs (s.data q)

theorem fed_init (r : Runner R D) (request : ℕ → R) (isEntryRank : Bool) :
    Fed r (Served.init V r request isEntryRank) where
  orderly := orderly_init isEntryRank
  running _ hq := by simp [Served.init, State.init, Batch.empty] at hq
  prefilled _ _ hq := by simp [Served.init, State.init, State.prefilled] at hq

theorem Served.rows {batch : Batch} (hdata : s.runData r request a batch = some data) (q : ℕ) :
    q ∉ batch.reqs ∧ data q = s.data q ∨
      q ∈ batch.reqs ∧ s.row r request a batch.isExtend q = some (data q) ∧
        (batch.isExtend → s.fits r request a q) := by
  obtain ⟨⟨_, hfits, hrows⟩, hdata⟩ := ite_none_right_eq_some.mp hdata
  rw [← some.inj hdata]
  by_cases hq : q ∈ batch.reqs
  swap
  · exact Or.inl ⟨hq, if_neg hq⟩
  refine Or.inr ⟨hq, ?_, fun hextend => List.all_eq_true.mp (hfits hextend) q hq⟩
  obtain ⟨d, hd⟩ := isSome_iff_exists.mp (List.all_eq_true.mp hrows q hq)
  dsimp only
  rw [if_pos hq, hd, getD_some]

/-- A step that leaves the data alone. -/
theorem Fed.same (h : Fed r s) (horderly : Orderly t.scheduler) (hdata : t.data = s.data)
    (hfewer : Fewer s.scheduler t.scheduler)
    (hprefilled : t.scheduler.point = .top → ∀ q ∈ t.scheduler.prefilled,
      s.isChunked q = false → 0 < r.outputs (s.data q)) : Fed r t where
  orderly := horderly
  running q hq := by
    rw [hdata]
    exact h.running q (hfewer.mem_running hq)
  prefilled hpoint q hq hchunked := by
    rw [hdata]
    refine hprefilled hpoint q hq ?_
    rw [Served.isChunked, hfewer.chunkedReq] at hchunked
    exact hchunked

theorem fewer_endIteration (s : State V) : Fewer s s.endIteration :=
  .of_eq (fun _ => rfl) rfl rfl rfl rfl fun _ _ => rfl

/-- A batch that runs to its end. -/
theorem Fed.done (h : Fed r s) (horderly : Orderly t.scheduler)
    (hstep : s.step r request a = some t) {finished : List ℕ} {adapterError : ℕ → Option String}
    (ha : a.action = .run (.done finished adapterError)) : Fed r t := by
  obtain ⟨hsched, hdata⟩ := Served.step_some hstep
  rw [ha] at hsched
  have hfewer : Fewer s.scheduler t.scheduler := by
    rw [(run_step hsched).2]
    exact (fewer_run _ _).trans (fewer_endIteration _)
  unfold Served.dataAfter at hdata
  simp only [ha] at hdata
  cases hcur : s.scheduler.curBatch with
  | none =>
    simp only [hcur, Option.some.injEq] at hdata
    refine h.same horderly hdata.symm hfewer fun _ q hq _ => ?_
    have hnone := hfewer.mem_prefilled hq
    simp [State.prefilled, hcur] at hnone
  | some b =>
    simp only [hcur] at hdata
    have hrows := Served.rows hdata
    have hgrows : ∀ q, r.outputs (s.data q) ≤ r.outputs (t.data q) := by
      intro q
      rcases hrows q with ⟨_, hsame⟩ | ⟨_, hrow, _⟩
      · rw [hsame]
      · unfold Served.row at hrow
        split at hrow
        · have hnext := r.outputs_prefill hrow
          split at hnext <;> omega
        · have hnext := r.outputs_decode hrow
          omega
    refine ⟨horderly, fun q hq => ?_, fun _ q hq hchunked => ?_⟩
    · exact (h.running q (hfewer.mem_running hq)).trans_le (hgrows q)
    · rw [Served.isChunked, hfewer.chunkedReq] at hchunked
      have hbefore := hfewer.mem_prefilled hq
      unfold State.prefilled at hbefore
      simp only [hcur] at hbefore
      split at hbefore
      swap
      · cases hbefore
      next hextend =>
        obtain ⟨_, hrow, _⟩ := (hrows q).resolve_left fun hnot => hnot.1 hbefore
        unfold Served.row at hrow
        rw [if_pos hextend] at hrow
        have hnext := r.outputs_prefill hrow
        rw [Served.isChunked, hchunked, if_neg (by simp)] at hnext
        omega

theorem Fed.fails (h : Fed r s) (horderly : Orderly t.scheduler)
    (hstep : s.step r request a = some t) {error : String} (ha : a.action = .run (.fails error)) :
    Fed r t ∧ t.data = s.data := by
  obtain ⟨hsched, hdata⟩ := Served.step_some hstep
  rw [ha] at hsched
  have hafter := (run_step hsched).2
  have hfewer : Fewer s.scheduler t.scheduler := by
    rw [hafter]
    exact (fewer_run _ _).trans (fewer_endIteration _)
  unfold Served.dataAfter at hdata
  simp only [ha, Option.some.injEq] at hdata
  refine ⟨h.same horderly hdata.symm hfewer fun _ q hq _ => ?_, hdata.symm⟩
  cases hcur : s.scheduler.curBatch with
  | none =>
    have hnone := hfewer.mem_prefilled hq
    simp [State.prefilled, hcur] at hnone
  | some b =>
    rw [hafter] at hq
    have hbefore := (fewer_endIteration _).mem_prefilled hq
    unfold runBatch at hbefore
    simp only [hcur] at hbefore
    exact absurd hbefore (not_mem_prefilled_failure hcur error q)

/-- Choosing a batch. -/
theorem Fed.select (h : Fed r s) (horderly : Orderly t.scheduler)
    (hdata : t.data = s.data) {choice : Choice}
    (hsched : Scheduler.step s.scheduler (.select choice) = some t.scheduler) : Fed r t := by
  have htop : s.scheduler.point = .top ∧ t.scheduler.point = .selected := by
    have hstep := hsched
    simp only [Scheduler.step] at hstep
    split at hstep
    next htop =>
      obtain ⟨_, _, hafter⟩ := map_eq_some_iff.mp hstep
      rw [← hafter]
      exact ⟨htop, rfl⟩
    · cases hstep
  refine ⟨horderly, fun q hq => ?_, fun hpoint => ?_⟩
  · rw [hdata]
    rcases h.orderly.select_running hsched hq with hrunning | hprefilled
    · exact h.running q hrunning
    · exact h.prefilled htop.1 q hprefilled
        (decide_eq_false (h.orderly.select_unchunked hsched hq))
  · rw [htop.2] at hpoint
    cases hpoint

/-- What a step writes: nothing, or the rows of the current batch. -/
inductive Writes (r : Runner R D) (request : ℕ → R) (s t : Served V D) (a : ServedAction) : Prop
  | nothing (hdata : t.data = s.data)
  | batch (b : ℕ) (hrun : a.isRun = true) (hcur : s.scheduler.curBatch = some b)
    (hdata : s.runData r request a (s.scheduler.batches b) = some t.data)

/-- **Step lemma.** -/
theorem Fed.step (h : Fed r s) (hstep : s.step r request a = some t) :
    Fed r t ∧ Writes r request s t a := by
  obtain ⟨hsched, hdata⟩ := Served.step_some hstep
  have honce : a.action.AdmitsOnce := by
    intro admitted slot chunked mixed ha
    unfold Served.dataAfter at hdata
    simp only [ha] at hdata
    exact (ite_none_right_eq_some.mp hdata).1
  have horderly := h.orderly.step honce hsched
  cases ha : a.action with
  | enqueue requestId =>
    rw [ha] at hsched
    obtain ⟨_, hsched⟩ := ite_none_left_eq_some.mp hsched
    unfold Served.dataAfter at hdata
    simp only [ha, Option.some.injEq] at hdata
    refine ⟨⟨horderly, ?_, ?_⟩, .nothing hdata.symm⟩
    · rw [← some.inj hsched, ← hdata]
      exact h.running
    · unfold Served.isChunked
      rw [← some.inj hsched, ← hdata]
      exact h.prefilled
  | abort requestId =>
    rw [ha] at hsched
    have hfewer := fewer_abort s.scheduler requestId true
    have hframe := sameFrame_abort s.scheduler requestId true
    rw [some.inj hsched] at hfewer hframe
    unfold Served.dataAfter at hdata
    simp only [ha, Option.some.injEq] at hdata
    exact ⟨h.same horderly hdata.symm hfewer fun hpoint q hq =>
      h.prefilled (hframe.point ▸ hpoint) q (hfewer.mem_prefilled hq), .nothing hdata.symm⟩
  | select choice =>
    rw [ha] at hsched
    have hsame : t.data = s.data := by
      unfold Served.dataAfter at hdata
      cases choice with
      | prefill admitted slot chunked mixed =>
        simp only [ha] at hdata
        exact (some.inj (ite_none_right_eq_some.mp hdata).2).symm
      | decode retracted =>
        simp only [ha, Option.some.injEq] at hdata
        exact hdata.symm
      | nothing =>
        simp only [ha, Option.some.injEq] at hdata
        exact hdata.symm
    exact ⟨h.select horderly hsame hsched, .nothing hsame⟩
  | run outcome =>
    cases outcome with
    | done finished adapterError =>
      refine ⟨h.done horderly hstep ha, ?_⟩
      unfold Served.dataAfter at hdata
      simp only [ha] at hdata
      cases hcur : s.scheduler.curBatch with
      | none =>
        simp only [hcur, Option.some.injEq] at hdata
        exact .nothing hdata.symm
      | some b =>
        simp only [hcur] at hdata
        exact .batch b (by unfold ServedAction.isRun; rw [ha]) hcur hdata
    | fails error =>
      obtain ⟨hfed, hsame⟩ := h.fails horderly hstep ha
      exact ⟨hfed, .nothing hsame⟩
    | refused =>
      unfold Served.dataAfter at hdata
      simp only [ha] at hdata
      cases hdata
  | flush | launch | resolve | drain | dropStale =>
    unfold Served.dataAfter at hdata
    simp only [ha] at hdata
    cases hdata

theorem Fed.current (h : Fed r s) (hcur : s.scheduler.curBatch = some b) {q : ℕ}
    (hq : q ∈ (s.scheduler.batches b).reqs) :
    (s.scheduler.batches b).isExtend = true ∧ q ∈ s.scheduler.prefilled ∨
      (s.scheduler.batches b).isExtend = false ∧ 0 < r.outputs (s.data q) := by
  cases hextend : (s.scheduler.batches b).isExtend with
  | true =>
    refine Or.inl ⟨rfl, ?_⟩
    unfold State.prefilled
    simp only [hcur, hextend, if_true]
    exact hq
  | false =>
    have hrunning : b = s.scheduler.runningBatch :=
      (h.orderly.shaped.current b hcur).mp hextend
    exact Or.inr ⟨rfl, h.running q (hrunning ▸ hq)⟩

/-- **Row rule.** A property of the data of each request holds in all runs, if it holds at the
start, and if every row keeps it. -/
theorem Fed.of_run {A : ℕ → D → Prop} {ok : R → ℕ → ℕ → Bool → D → Prop}
    (hinit : ∀ q, A q (r.init (request q)))
    (hprefill : ∀ q prefixLen extendLen isChunked d d', A q d →
      ok (request q) prefixLen extendLen isChunked d →
      (if isChunked then prefixLen + extendLen < r.promptLen (request q) + r.outputs d
        else prefixLen + extendLen = r.promptLen (request q) + r.outputs d) →
      r.prefill (request q) prefixLen extendLen isChunked d = some d' → A q d')
    (hdecode : ∀ q d d', A q d → 0 < r.outputs d → r.decode (request q) d = some d' → A q d')
    {isEntryRank : Bool} {as : List ServedAction}
    (hrun : Transition.Run (Served.step r request) (Served.Prefills request ok)
      (Served.init V r request isEntryRank) as s) : Fed r s ∧ ∀ q, A q (s.data q) := by
  refine hrun.invariant (I := fun s => Fed r s ∧ ∀ q, A q (s.data q)) ?_
    ⟨fed_init r request isEntryRank, hinit⟩
  intro s a t hs hok hstep
  obtain ⟨hfed, hrows⟩ := hs
  obtain ⟨ht, hwrites⟩ := hfed.step hstep
  refine ⟨ht, fun q => ?_⟩
  cases hwrites with
  | nothing hdata =>
    rw [hdata]
    exact hrows q
  | batch b hisRun hcur hdata =>
    rcases Served.rows hdata q with ⟨_, hsame⟩ | ⟨hq, hrow, hfits⟩
    · rw [hsame]
      exact hrows q
    unfold Served.row at hrow
    rcases hfed.current hcur hq with ⟨hextend, hmem⟩ | ⟨hextend, hpos⟩
    · rw [if_pos hextend] at hrow
      refine hprefill q _ _ _ _ _ (hrows q) (hok hisRun q hmem) ?_ hrow
      have hfit := hfits hextend
      unfold Served.fits at hfit
      split at hfit
      next hchunked => rw [if_pos hchunked]; exact of_decide_eq_true hfit
      next hchunked => rw [if_neg hchunked]; exact of_decide_eq_true hfit
    · rw [if_neg (by simp [hextend])] at hrow
      exact hdecode q _ _ (hrows q) hpos hrow

end Rows

section Alone

variable (r : Runner R D) (request : ℕ → R)

/-- What a request does alone: its prompt is prefilled at once, and then it decodes. -/
def Runner.aloneActions (prompt : R) : ℕ → List ServedAction
  | 0 => [⟨.enqueue "", fun _ => 0, fun _ => 0⟩]
  | 1 => aloneActions prompt 0 ++ [⟨.select prefillChoice, fun _ => 0, fun _ => 0⟩] ++
      [⟨goesOn, fun _ => 0, fun _ => r.promptLen prompt⟩]
  | n + 2 => aloneActions prompt (n + 1) ++ [⟨.select (.decode []), fun _ => 0, fun _ => 0⟩] ++
      [⟨goesOn, fun _ => 0, fun _ => 0⟩]

/-- A chosen batch runs, and what it writes. -/
theorem OnlyChosen.served {s : Served V D} {a : ServedAction} (h : OnlyChosen s.scheduler b)
    (ha : a.action = goesOn)
    (hfits : (s.scheduler.batches b).isExtend = true → s.fits r request a 0 = true)
    (hrow : s.row r request a (s.scheduler.batches b).isExtend 0 = some d) :
    ∃ data, s.step r request a = some ⟨s.scheduler.endIteration, data⟩ ∧ data 0 = d := by
  obtain ⟨data, hdata, hzero⟩ : ∃ data,
      s.runData r request a (s.scheduler.batches b) = some data ∧ data 0 = d := by
    unfold Served.runData
    refine ⟨_, if_pos ⟨by simp [h.reqs], fun hextend => by simp [h.reqs, hfits hextend],
      by simp [h.reqs, hrow]⟩, ?_⟩
    rw [if_pos (by simp [h.reqs]), hrow, getD_some]
  have hafter : s.dataAfter r request a = some data := by
    unfold Served.dataAfter
    simp only [ha, goesOn, h.curBatch]
    exact hdata
  have hsched : Scheduler.step s.scheduler a.action = some s.scheduler.endIteration := by
    rw [ha]
    exact h.run
  exact ⟨data, Served.step_of hsched hafter, hzero⟩

/-- **The request alone.** `alone` is what the system does with a request that is alone. -/
theorem Runner.alone_run (isEntryRank : Bool) (n : ℕ) (halone : r.alone (request 0) n = some d) :
    ∃ s : Served V D,
      Transition.Run (Served.step r request) Transition.anyAction
        (.init V r request isEntryRank) (r.aloneActions (request 0) n) s ∧
      s.data 0 = d ∧ (0 < n → OnlyRuns s.scheduler) := by
  obtain ⟨s, t, henqueue, hselect, hchosen, hextend, hruns⟩ := first_steps V isEntryRank
  have hfirst : Transition.Run (Served.step r request) Transition.anyAction
      (.init V r request isEntryRank) (r.aloneActions (request 0) 0)
        ⟨s, fun q => r.init (request q)⟩ :=
    .single trivial (Served.step_of henqueue rfl)
  induction n using Nat.twoStepInduction generalizing d with
  | zero =>
    cases halone
    exact ⟨_, hfirst, rfl, fun hpos => absurd hpos (Nat.lt_irrefl 0)⟩
  | one =>
    have hchoice : Served.step r request ⟨s, fun q => r.init (request q)⟩
        ⟨.select prefillChoice, fun _ => 0, fun _ => 0⟩ =
          some ⟨t, fun q => r.init (request q)⟩ := Served.step_of hselect rfl
    have hsecond := hfirst.snoc trivial hchoice
    have hchunked : Served.isChunked (D := D) ⟨t, fun q => r.init (request q)⟩ 0 = false := by
      unfold Served.isChunked
      simp [hchosen.chunkedReq]
    obtain ⟨data, hstep, hzero⟩ := OnlyChosen.served r request
      (s := ⟨t, fun q => r.init (request q)⟩)
      (a := ⟨goesOn, fun _ => 0, fun _ => r.promptLen (request 0)⟩) (d := d) hchosen rfl
      (fun _ => by simp [Served.fits, hchunked, r.outputs_init])
      (by
        rw [Served.row, hextend, if_pos rfl, hchunked]
        exact halone)
    exact ⟨_, hsecond.snoc trivial hstep, hzero, fun _ => hruns⟩
  | more n _ ih =>
    obtain ⟨d', halone', hdecode⟩ := bind_eq_some_iff.mp halone
    obtain ⟨s, hrun, hdata, honly⟩ := ih halone'
    obtain ⟨t, hselect, hchosen, hextend⟩ := (honly (Nat.succ_pos n)).select
    have hchoice : s.step r request ⟨.select (.decode []), fun _ => 0, fun _ => 0⟩ =
        some ⟨t, s.data⟩ := Served.step_of hselect rfl
    have hchoose := hrun.snoc trivial hchoice
    obtain ⟨data, hstep, hzero⟩ := OnlyChosen.served r request (s := ⟨t, s.data⟩)
      (a := ⟨goesOn, fun _ => 0, fun _ => 0⟩) (d := d) hchosen rfl
      (fun hprefill => by rw [hextend] at hprefill; cases hprefill)
      (by simpa [Served.row, hextend, hdata] using hdecode)
    exact ⟨_, hchoose.snoc trivial hstep, hzero, fun _ => hchosen.onlyRuns hextend⟩

end Alone

end Omni.Tts
