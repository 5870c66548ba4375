import Omni.Scheduler.Places

/-!
# Rollout logprobs

The thinker of Qwen3-Omni records the logprob of a token where the token is sampled, and the
scheduler appends the token where it processes the batch. This is the scheduler together with
what both write.
-/

namespace Omni.Thinker

open Omni.Scheduler List Option

variable {V LP : Type} {q : ℕ} {reqs : List ℕ} {sampled : List (LP × ℕ)} {after : State V}

/-- What is written for a request: `req.is_chunked`, `req.output_ids`, and
`data.output_token_logprobs`. -/
structure RolloutData (LP : Type) where
  isChunked : ℕ
  outputIds : List ℕ
  outputTokenLogprobs : List (LP × ℕ)
  deriving DecidableEq

/-- The data of a request that has just been built. -/
def RolloutData.empty : RolloutData LP := ⟨0, [], []⟩

/-- The logprobs have one entry for each token, with the same id in the same order. -/
def RolloutData.LinedUp (data : RolloutData LP) : Prop :=
  data.outputTokenLogprobs.map Prod.snd = data.outputIds

/-- The scheduler with the data of its requests. `built` are the results in the order of their
building, each with the data as it was. -/
structure Rollout (V LP : Type) where
  scheduler : State V
  data : ℕ → RolloutData LP
  built : List (ℕ × RolloutData LP)

/-- Before the first request. -/
def Rollout.init (V LP : Type) (isEntryRank : Bool) : Rollout V LP :=
  ⟨.init V isEntryRank, fun _ => .empty, []⟩

/-- The loop of `_record_rollout_logprobs`, for one row. -/
def recordRow (returnLogprob : ℕ → Bool) (data : ℕ → RolloutData LP) (row : ℕ × LP × ℕ) :
    ℕ → RolloutData LP :=
  if returnLogprob row.1 then
    Function.update data row.1 { data row.1 with
      outputTokenLogprobs := (data row.1).outputTokenLogprobs ++ [row.2] }
  else data

/-- `_record_rollout_logprobs`, which raises if the sizes differ. -/
def recordRolloutLogprobs (returnLogprob : ℕ → Bool) (data : ℕ → RolloutData LP)
    (reqs : List ℕ) (sampled : List (LP × ℕ)) : Option (ℕ → RolloutData LP) :=
  if sampled.length ≠ reqs.length then none
  else some ((reqs.zip sampled).foldl (recordRow returnLogprob) data)

/-- `_sample_next_token_ids`. -/
def sampleNextTokenIds (returnLogprob : ℕ → Bool) (data : ℕ → RolloutData LP)
    (reqs : List ℕ) (sampled : List (LP × ℕ)) : Option (ℕ → RolloutData LP) :=
  if reqs.any returnLogprob then recordRolloutLogprobs returnLogprob data reqs sampled
  else some data

/-- `execute`, with the `next_token_ids` of its result. A batch that only prefills is not
sampled. -/
def execute (returnLogprob : ℕ → Bool) (isPrefillOnly : Bool) (data : ℕ → RolloutData LP)
    (reqs : List ℕ) (sampled : List (LP × ℕ)) : Option ((ℕ → RolloutData LP) × List ℕ) :=
  if isPrefillOnly then some (data, sampled.map fun _ => 0)
  else (sampleNextTokenIds returnLogprob data reqs sampled).map fun data =>
    (data, sampled.map Prod.snd)

/-- The part of `lookahead_eligible` that concerns logprobs. -/
def lookaheadEligible (returnLogprob : ℕ → Bool) (reqs : List ℕ) : Bool :=
  !reqs.any returnLogprob

/-- `process_batch_result` for one row: the token is appended if `is_chunked` is 0, and
`is_chunked` is counted down otherwise. -/
def appendToken (data : ℕ → RolloutData LP) (row : ℕ × ℕ) : ℕ → RolloutData LP :=
  Function.update data row.1
    (if (data row.1).isChunked = 0 then
      { data row.1 with outputIds := (data row.1).outputIds ++ [row.2] }
    else { data row.1 with isChunked := (data row.1).isChunked - 1 })

/-- `process_batch_result`, as far as it writes to the requests' data. -/
def appendTokens (data : ℕ → RolloutData LP) (reqs tokens : List ℕ) : ℕ → RolloutData LP :=
  (reqs.zip tokens).foldl appendToken data

/-- An action of the scheduler with what the sampler returns in it. -/
structure RolloutAction (LP : Type) where
  action : Action
  /-- `is_prefill_only` of the batch. -/
  isPrefillOnly : Bool
  /-- The rows that are sampled or collected. -/
  sampled : List (LP × ℕ)
  /-- A run that fails has sampled before. -/
  sampledFirst : Bool

/-- A new partial prefill is counted in `is_chunked`. -/
def countChunk (data : ℕ → RolloutData LP) : Option ℕ → ℕ → RolloutData LP
  | none => data
  | some q => Function.update data q { data q with isChunked := (data q).isChunked + 1 }

/-- `reset_for_retract` for the requests that have been retracted. -/
def resetRetracted (before after : State V) (data : ℕ → RolloutData LP) : ℕ → RolloutData LP :=
  fun q => if (after.reqs q).isRetracted ∧ (before.reqs q).isRetracted = false then
    { data q with isChunked := 0 } else data q

/-- What resolving a launched step writes. -/
def resolveData (scheduler : State V) (data : ℕ → RolloutData LP) (pending : PendingStep)
    (sampled : List (LP × ℕ)) : StepOutcome → ℕ → RolloutData LP
  | .done _ _ => appendTokens data (handedOver scheduler pending).1 (sampled.map Prod.snd)
  | _ => data

/-- What running a batch writes. -/
def runData (returnLogprob : ℕ → Bool) (a : RolloutAction LP) (data : ℕ → RolloutData LP)
    (reqs : List ℕ) : StepOutcome → Option (ℕ → RolloutData LP)
  | .done _ _ => (execute returnLogprob a.isPrefillOnly data reqs a.sampled).map
      fun (data, tokens) => appendTokens data reqs tokens
  | .fails _ =>
    if a.sampledFirst then
      (execute returnLogprob a.isPrefillOnly data reqs a.sampled).map Prod.fst
    else some data
  | .refused => some data

namespace Rollout

/-- What an action that leads the scheduler to `after` writes. -/
def dataAfter (returnLogprob : ℕ → Bool) (s : Rollout V LP) (a : RolloutAction LP)
    (after : State V) : Option (ℕ → RolloutData LP) :=
  match a.action with
  | .select (.prefill _ _ chunked _) => some (countChunk s.data chunked)
  | .select (.decode _) => some (resetRetracted s.scheduler after s.data)
  | .launch _ =>
    match s.scheduler.curBatch with
    | none => none
    | some b => if lookaheadEligible returnLogprob (s.scheduler.batches b).reqs then some s.data
      else none
  | .flush outcome | .drain outcome =>
    some (match s.scheduler.asyncPending with
      | none => s.data
      | some pending => resolveData s.scheduler s.data pending a.sampled outcome)
  | .resolve outcome =>
    some (match s.scheduler.point with
      | .launched prevPending => resolveData s.scheduler s.data prevPending a.sampled outcome
      | _ => s.data)
  | .run outcome =>
    match s.scheduler.curBatch with
    | none => some s.data
    | some b => runData returnLogprob a s.data (s.scheduler.batches b).reqs outcome
  | _ => some s.data

/-- The results among new messages, with the data of their requests. -/
def results (data : ℕ → RolloutData LP) (messages : List OutgoingMessage) :
    List (ℕ × RolloutData LP) :=
  messages.filterMap fun
    | .result _ q => some (q, data q)
    | .error _ _ => none

/-- The transition function. -/
def step (returnLogprob : ℕ → Bool) (s : Rollout V LP) (a : RolloutAction LP) :
    Option (Rollout V LP) := do
  let after ← Scheduler.step s.scheduler a.action
  let data ← s.dataAfter returnLogprob a after
  return ⟨after, data, s.built ++ results data (after.outbox.drop s.scheduler.outbox.length)⟩

end Rollout

section Rows

variable {returnLogprob : ℕ → Bool}

theorem foldl_recordRow (data : ℕ → RolloutData LP) (rows : List (ℕ × LP × ℕ))
    (hq : returnLogprob q = true) :
    rows.foldl (recordRow returnLogprob) data q = { data q with
      outputTokenLogprobs := (data q).outputTokenLogprobs ++
        (rows.filter fun row => row.1 = q).map Prod.snd } := by
  induction rows generalizing data with
  | nil => simp
  | cons row rows ih =>
    rw [foldl_cons, ih]
    by_cases hrow : row.1 = q
    · subst hrow
      simp [recordRow, hq]
    · have hsame : recordRow returnLogprob data row q = data q := by
        unfold recordRow
        split
        · exact Function.update_of_ne (Ne.symm hrow) _ _
        · rfl
      simp [hsame, hrow]

/-- What `process_batch_result` writes for a request that is not prefilled in part. -/
theorem foldl_appendToken (data : ℕ → RolloutData LP) (rows : List (ℕ × ℕ))
    (hq : (data q).isChunked = 0) :
    rows.foldl appendToken data q = { data q with
      outputIds := (data q).outputIds ++ (rows.filter fun row => row.1 = q).map Prod.snd } := by
  induction rows generalizing data with
  | nil => simp
  | cons row rows ih =>
    rw [foldl_cons]
    by_cases hrow : row.1 = q
    · subst hrow
      rw [ih _ (by simp [appendToken, hq])]
      simp [appendToken, hq]
    · have hsame : appendToken data row q = data q := Function.update_of_ne (Ne.symm hrow) _ _
      rw [ih _ (by rw [hsame, hq]), hsame]
      simp [hrow]

/-- A request without rows keeps its data. -/
theorem appendTokens_of_notMem (data : ℕ → RolloutData LP) (tokens : List ℕ) (hq : q ∉ reqs) :
    appendTokens data reqs tokens q = data q := by
  have hrows : ∀ row ∈ reqs.zip tokens, row.1 ≠ q := by
    rintro ⟨p, token⟩ hrow rfl
    exact hq (of_mem_zip hrow).1
  unfold appendTokens
  generalize reqs.zip tokens = rows at hrows ⊢
  induction rows generalizing data with
  | nil => rfl
  | cons row rows ih =>
    rw [foldl_cons, ih _ fun r hr => hrows r (mem_cons_of_mem row hr)]
    exact Function.update_of_ne (Ne.symm (hrows row mem_cons_self)) _ _

variable {data : ℕ → RolloutData LP}

variable {data' : ℕ → RolloutData LP}

theorem sampleNextTokenIds_eq (hq : returnLogprob q = true)
    (hsample : sampleNextTokenIds returnLogprob data reqs sampled = some data') :
    data' q = { data q with
      outputTokenLogprobs := (data q).outputTokenLogprobs ++
        ((reqs.zip sampled).filter fun row => row.1 = q).map Prod.snd } := by
  unfold sampleNextTokenIds recordRolloutLogprobs at hsample
  split at hsample
  · split at hsample
    · cases hsample
    · rw [← some.inj hsample]
      exact foldl_recordRow data _ hq
  next hany =>
    rw [← some.inj hsample]
    have hnone : ((reqs.zip sampled).filter fun row => decide (row.1 = q)) = [] := by
      refine filter_eq_nil_iff.mpr ?_
      rintro ⟨p, row⟩ hrow heq
      obtain rfl : p = q := by simpa using heq
      exact hany (any_eq_true.mpr ⟨p, (of_mem_zip hrow).1, hq⟩)
    simp [hnone]

/-- **One batch.** A request that is not prefilled in part, in a batch that is sampled, gets as
many logprobs as tokens. -/
theorem RolloutData.LinedUp.execute {tokens : List ℕ} (h : (data q).LinedUp)
    (hq : returnLogprob q = true) (hchunked : (data q).isChunked = 0)
    (hexecute : execute returnLogprob false data reqs sampled = some (data', tokens)) :
    (appendTokens data' reqs tokens q).LinedUp := by
  obtain ⟨recorded, hsample, heq⟩ := map_eq_some_iff.mp hexecute
  obtain ⟨rfl, rfl⟩ := Prod.mk.inj heq
  have hrecorded := sampleNextTokenIds_eq hq hsample
  have hrows : ((reqs.zip (sampled.map Prod.snd)).filter fun row => decide (row.1 = q)).map
      Prod.snd = (((reqs.zip sampled).filter fun row => decide (row.1 = q)).map Prod.snd).map
        Prod.snd := by
    rw [List.zip_map_right, List.filter_map, List.map_map, List.map_map]
    rfl
  rw [appendTokens, foldl_appendToken _ _ (by rw [hrecorded]; exact hchunked), hrecorded]
  unfold RolloutData.LinedUp at h ⊢
  simp only [map_append, h, hrows]

end Rows

section Step

variable {returnLogprob : ℕ → Bool} {s t : Rollout V LP} {a : RolloutAction LP}

theorem Rollout.step_some (hstep : s.step returnLogprob a = some t) :
    Scheduler.step s.scheduler a.action = some t.scheduler ∧
      s.dataAfter returnLogprob a t.scheduler = some t.data ∧
      t.built = s.built ++
        Rollout.results t.data (t.scheduler.outbox.drop s.scheduler.outbox.length) := by
  obtain ⟨after, hafter, hstep⟩ := bind_eq_some_iff.mp hstep
  obtain ⟨data, hdata, hstep⟩ := bind_eq_some_iff.mp hstep
  cases hstep
  exact ⟨hafter, hdata, rfl⟩

variable {data : ℕ → RolloutData LP}

theorem resolveData_of_not_inFlight {scheduler : State V} {pending : PendingStep}
    (sampled : List (LP × ℕ)) (outcome : StepOutcome)
    (hq : q ∉ (scheduler.batches pending.batch).reqs) :
    resolveData scheduler data pending sampled outcome q = data q := by
  cases outcome with
  | done finished adapterError =>
    refine appendTokens_of_notMem data _ fun hmem => hq ?_
    unfold handedOver at hmem
    dsimp only at hmem
    split at hmem
    · exact (mem_filter.mp hmem).1
    · exact hmem
  | _ => rfl

/-- A piece of the loop that runs no batch and chooses none leaves a request that is not in
flight alone. -/
theorem Rollout.dataAfter_same (hdata : s.dataAfter returnLogprob a after = some data)
    (hrun : ∀ outcome, a.action ≠ .run outcome) (hselect : ∀ choice, a.action ≠ .select choice)
    (hq : ¬InFlight s.scheduler q) : data q = s.data q := by
  have hasync : ∀ pending, s.scheduler.asyncPending = some pending →
      q ∉ (s.scheduler.batches pending.batch).reqs := fun pending hpending hmem =>
    hq ⟨pending, by simp [State.pendings, hpending], hmem⟩
  have hlaunched : ∀ pending, s.scheduler.point = .launched pending →
      q ∉ (s.scheduler.batches pending.batch).reqs := fun pending hpoint hmem =>
    hq ⟨pending, by simp [State.pendings, hpoint], hmem⟩
  unfold Rollout.dataAfter at hdata
  cases ha : a.action with
  | select choice => exact absurd ha (hselect choice)
  | run outcome => exact absurd ha (hrun outcome)
  | launch error =>
    simp only [ha] at hdata
    split at hdata
    · cases hdata
    · split at hdata
      · rw [← some.inj hdata]
      · cases hdata
  | flush outcome | drain outcome =>
    simp only [ha] at hdata
    rw [← some.inj hdata]
    cases hpending : s.scheduler.asyncPending with
    | none => rfl
    | some pending => exact resolveData_of_not_inFlight _ _ (hasync pending hpending)
  | resolve outcome =>
    simp only [ha] at hdata
    rw [← some.inj hdata]
    cases hpoint : s.scheduler.point with
    | launched pending => exact resolveData_of_not_inFlight _ _ (hlaunched pending hpoint)
    | _ => rfl
  | enqueue | abort | dropStale =>
    simp only [ha] at hdata
    rw [← some.inj hdata]

/-- Choosing a batch writes to `is_chunked` only. -/
theorem Rollout.dataAfter_select (hdata : s.dataAfter returnLogprob a after = some data)
    {choice : Choice} (ha : a.action = .select choice) (q : ℕ) (hq : (s.data q).LinedUp) :
    (data q).LinedUp := by
  unfold Rollout.dataAfter at hdata
  cases choice with
  | prefill admitted slot chunked mixed =>
    simp only [ha] at hdata
    rw [← some.inj hdata]
    cases chunked with
    | none => exact hq
    | some p =>
      by_cases hp : q = p
      · subst hp
        simpa [countChunk, RolloutData.LinedUp] using hq
      · simpa [countChunk, hp] using hq
  | decode retracted =>
    simp only [ha] at hdata
    rw [← some.inj hdata, resetRetracted]
    split
    · exact hq
    · exact hq
  | nothing =>
    simp only [ha] at hdata
    rw [← some.inj hdata]
    exact hq

/-- The requests that an action of the synchronous loop samples. -/
def Rollout.sampledReqs (s : Rollout V LP) (a : RolloutAction LP) : List ℕ :=
  match a.action, s.scheduler.curBatch with
  | .run (.done _ _), some b => (s.scheduler.batches b).reqs
  | .run (.fails _), some b => if a.sampledFirst then (s.scheduler.batches b).reqs else []
  | _, _ => []

/-- A batch that is sampled has no request with `return_logprob` that is prefilled in part, and
is sampled for more than its prefill if it has a request with `return_logprob`. -/
def SampledWhole (returnLogprob : ℕ → Bool) (s : Rollout V LP) (a : RolloutAction LP) : Prop :=
  ∀ q ∈ s.sampledReqs a, returnLogprob q = true → (s.data q).isChunked = 0 ∧ a.isPrefillOnly = false

instance (returnLogprob : ℕ → Bool) (s : Rollout V LP) (a : RolloutAction LP) :
    Decidable (SampledWhole returnLogprob s a) :=
  inferInstanceAs (Decidable (∀ q ∈ s.sampledReqs a, _))

/-- The invariant of runs that sample whole. -/
structure RolloutInv (returnLogprob : ℕ → Bool) (s : Rollout V LP) : Prop where
  apart : Apart s.scheduler
  admitted : ∀ q, Present s.scheduler q → q < s.scheduler.reqCount
  inFlight : ∀ q, returnLogprob q = true → ¬InFlight s.scheduler q
  chunked : Chosen s.scheduler.point → ∀ q, returnLogprob q = true →
    s.scheduler.chunkedReq = some q → 0 < (s.data q).isChunked
  linedUp : ∀ q, returnLogprob q = true →
    (s.data q).LinedUp ∨ ¬Present s.scheduler q ∧ q < s.scheduler.reqCount
  built : ∀ entry ∈ s.built, returnLogprob entry.1 = true → entry.2.LinedUp

theorem rolloutInv_init (returnLogprob : ℕ → Bool) (isEntryRank : Bool) :
    RolloutInv returnLogprob (Rollout.init V LP isEntryRank) where
  apart := apart_init isEntryRank
  admitted q hq := absurd hq (not_present_init isEntryRank q)
  inFlight q _ hq := by
    obtain ⟨pending, hp, _⟩ := hq
    simp [Rollout.init, State.pendings, State.init] at hp
  chunked h := h.elim
  linedUp _ _ := Or.inl rfl
  built _ h := by simp [Rollout.init] at h

theorem Rollout.not_launched (hstep : s.step returnLogprob a = some t)
    (ha : a.action = .launch none) {b : ℕ} (hcur : s.scheduler.curBatch = some b)
    (hq : returnLogprob q = true) : q ∉ (s.scheduler.batches b).reqs := by
  obtain ⟨_, hdata, _⟩ := Rollout.step_some hstep
  unfold Rollout.dataAfter at hdata
  simp only [ha, hcur] at hdata
  split at hdata
  next heligible =>
    intro hmem
    rw [lookaheadEligible, Bool.not_eq_true', List.any_eq_false] at heligible
    exact heligible q hmem hq
  · cases hdata

/-- A run of the loop leaves what it writes lined up, or fails and loses the request. -/
theorem RolloutInv.run (h : RolloutInv returnLogprob s) (hwhole : SampledWhole returnLogprob s a)
    (hstep : s.step returnLogprob a = some t) {outcome : StepOutcome} (ha : a.action = .run outcome)
    (hq : returnLogprob q = true) (hlined : (s.data q).LinedUp) :
    (t.data q).LinedUp ∨ Present s.scheduler q ∧ ¬Present t.scheduler q ∧
      Emits NoResult s.scheduler t.scheduler := by
  obtain ⟨hsched, hdata, _⟩ := Rollout.step_some hstep
  rw [ha] at hsched
  obtain ⟨hchosen, hafter⟩ := run_step hsched
  unfold Rollout.dataAfter at hdata
  simp only [ha] at hdata
  cases hcur : s.scheduler.curBatch with
  | none =>
    simp only [hcur, Option.some.injEq] at hdata
    exact Or.inl (hdata ▸ hlined)
  | some b =>
    simp only [hcur] at hdata
    have hother : q ∉ (s.scheduler.batches b).reqs → ∀ {data : ℕ → RolloutData LP} {tokens},
        execute returnLogprob a.isPrefillOnly s.data (s.scheduler.batches b).reqs a.sampled =
          some (data, tokens) → data q = s.data q := by
      intro hnot data tokens hexecute
      unfold execute at hexecute
      split at hexecute
      · rw [← (Prod.mk.inj (some.inj hexecute)).1]
      · obtain ⟨recorded, hsample, heq⟩ := map_eq_some_iff.mp hexecute
        rw [← (Prod.mk.inj heq).1, sampleNextTokenIds_eq hq hsample]
        have hnone : (((s.scheduler.batches b).reqs.zip a.sampled).filter
            fun row => decide (row.1 = q)) = [] := by
          refine filter_eq_nil_iff.mpr ?_
          rintro ⟨p, row⟩ hrow hp
          obtain rfl : p = q := by simpa using hp
          exact hnot (of_mem_zip hrow).1
        simp [hnone]
    cases outcome with
    | refused =>
      left
      rw [← some.inj hdata]
      exact hlined
    | done finished adapterError =>
      left
      obtain ⟨⟨data, tokens⟩, hexecute, hdata⟩ := map_eq_some_iff.mp hdata
      dsimp only at hdata
      rw [← hdata]
      by_cases hmem : q ∈ (s.scheduler.batches b).reqs
      · obtain ⟨hzero, hsampled⟩ :=
          hwhole q (by simpa only [Rollout.sampledReqs, ha, hcur] using hmem) hq
        rw [hsampled] at hexecute
        exact hlined.execute hq hzero hexecute
      · rw [appendTokens_of_notMem _ _ hmem, hother hmem hexecute]
        exact hlined
    | fails error =>
      unfold runData at hdata
      dsimp only at hdata
      split at hdata
      swap
      · rw [← some.inj hdata]
        exact Or.inl hlined
      next hfirst =>
      obtain ⟨⟨data, tokens⟩, hexecute, hdata⟩ := map_eq_some_iff.mp hdata
      by_cases hmem : q ∈ (s.scheduler.batches b).reqs
      · right
        obtain ⟨hzero, _⟩ :=
          hwhole q (by simpa only [Rollout.sampledReqs, ha, hcur, hfirst, if_true] using hmem) hq
        have hafter' : t.scheduler = (handleBatchFailure s.scheduler b error).endIteration := by
          simp only [hafter, runBatch, hcur]
        rw [hafter']
        obtain ⟨_, hemits, _⟩ := moves_failure s.scheduler b error
        have hbefore : Present s.scheduler q := Or.inr (Or.inr
          ⟨b, mem_append_left _ (mem_loopBatches_cur hcur), hmem⟩)
        refine ⟨hbefore, fun hpresent => ?_, hemits⟩
        refine not_present_of_failure hmem ?_ ?_ ((moves_endIteration _).within q hpresent)
        · intro hchunked
          have hpos := h.chunked hchosen q hq hchunked
          omega
        · intro prevPending hpoint
          rw [hpoint] at hchosen
          exact hchosen.elim
      · left
        dsimp only at hdata
        rw [← hdata, hother hmem hexecute]
        exact hlined

/-- Every step leaves what it writes lined up, or fails and loses the request. -/
theorem RolloutInv.writes (h : RolloutInv returnLogprob s) (hwhole : SampledWhole returnLogprob s a)
    (hstep : s.step returnLogprob a = some t) (hq : returnLogprob q = true)
    (hlined : (s.data q).LinedUp) :
    (t.data q).LinedUp ∨ Present s.scheduler q ∧ ¬Present t.scheduler q ∧
      Emits NoResult s.scheduler t.scheduler := by
  obtain ⟨_, hdata, _⟩ := Rollout.step_some hstep
  by_cases hrun : ∃ outcome, a.action = .run outcome
  · obtain ⟨outcome, ha⟩ := hrun
    exact h.run hwhole hstep ha hq hlined
  by_cases hselect : ∃ choice, a.action = .select choice
  · obtain ⟨choice, ha⟩ := hselect
    exact Or.inl (Rollout.dataAfter_select hdata ha q hlined)
  left
  rw [Rollout.dataAfter_same hdata (fun outcome ha => hrun ⟨outcome, ha⟩)
    (fun choice ha => hselect ⟨choice, ha⟩) (h.inFlight q hq)]
  exact hlined

theorem RolloutInv.step (h : RolloutInv returnLogprob s)
    (hwhole : SampledWhole returnLogprob s a) (hstep : s.step returnLogprob a = some t) :
    RolloutInv returnLogprob t := by
  obtain ⟨hsched, hdata, hbuilt⟩ := Rollout.step_some hstep
  refine ⟨h.apart.step hsched, present_lt_step h.admitted hsched, fun q hq hflight => ?_,
    fun hchosen q hq hchunked => ?_,
    fun q hq => ?_, fun entry hentry hq => ?_⟩
  · rcases inFlight_step h.apart hsched hflight with hflight | ⟨ha, b, hcur, hmem⟩
    · exact h.inFlight q hq hflight
    · exact Rollout.not_launched hstep ha hcur hq hmem
  · rcases chosen_step hsched hchosen with ⟨choice, ha⟩ | ⟨hbefore, hsame, hrun⟩
    · rw [ha] at hsched
      have hselected := (select_chunkedReq hsched).symm.trans hchunked
      cases choice with
      | prefill admitted slot chunked mixed =>
        dsimp only at hselected
        subst hselected
        unfold Rollout.dataAfter at hdata
        simp only [ha, Option.some.injEq] at hdata
        rw [← hdata]
        simp [countChunk]
      | _ => cases hselected
    · by_cases hselect : ∃ choice, a.action = .select choice
      · obtain ⟨choice, ha⟩ := hselect
        rw [ha] at hsched
        simp only [Scheduler.step] at hsched
        split at hsched
        next htop => rw [htop] at hbefore; exact hbefore.elim
        · cases hsched
      · rw [Rollout.dataAfter_same hdata hrun (fun choice ha => hselect ⟨choice, ha⟩)
          (h.inFlight q hq)]
        exact h.chunked hbefore q hq (hsame ▸ hchunked)
  · rcases h.linedUp q hq with hlined | ⟨hgone, hlt⟩
    · rcases h.writes hwhole hstep hq hlined with hlined | ⟨hbefore, hgone, _⟩
      · exact Or.inl hlined
      · exact Or.inr ⟨hgone, (h.admitted q hbefore).trans_le (reqCount_le_step hsched)⟩
    · exact Or.inr (not_present_step hsched hgone hlt)
  · rw [hbuilt] at hentry
    rcases mem_append.mp hentry with hentry | hentry
    · exact h.built entry hentry hq
    · obtain ⟨message, hmessage, heq⟩ := mem_filterMap.mp hentry
      obtain ⟨new, hnew, hpresent⟩ := emits_step hsched
      rw [hnew, drop_left] at hmessage
      cases message with
      | error requestId error => cases heq
      | result requestId q =>
        cases heq
        have hplace := hpresent _ hmessage requestId q rfl
        have hlined := (h.linedUp q hq).resolve_right fun hgone => hgone.1 hplace
        rcases h.writes hwhole hstep hq hlined with hlined | ⟨_, _, hnone⟩
        · exact hlined
        · obtain ⟨none, hsame, hno⟩ := hnone
          have hnew' := append_cancel_left (hnew.symm.trans hsame)
          exact absurd rfl (hno _ (hnew' ▸ hmessage) requestId q)

end Step

/-- **Logprobs line up.** In every run in which no request with `return_logprob` is sampled
while it is prefilled in part or in a batch that only prefills, each result of such a request
has one logprob for each output token, with the same id in the same order. -/
theorem logprobs_line_up (returnLogprob : ℕ → Bool) (isEntryRank : Bool)
    (as : List (RolloutAction LP)) (s : Rollout V LP)
    (hrun : Transition.Run (Rollout.step returnLogprob) (SampledWhole returnLogprob)
      (.init V LP isEntryRank) as s) :
    ∀ entry ∈ s.built, returnLogprob entry.1 = true →
      entry.2.outputTokenLogprobs.map Prod.snd = entry.2.outputIds := by
  have hinv : RolloutInv returnLogprob s :=
    hrun.invariant (fun _ _ _ h hwhole hstep => h.step hwhole hstep)
      (rolloutInv_init returnLogprob isEntryRank)
  exact hinv.built

/-- An action of the scheduler in which nothing is sampled. -/
def plain (action : Action) : RolloutAction Unit := ⟨action, false, [], false⟩

/-- A run of the current batch. -/
def runs (finished tokens : List ℕ) : RolloutAction Unit :=
  ⟨.run (.done finished fun _ => none), false, tokens.map fun token => ((), token), false⟩

/-- A prompt prefilled at once, and one decode step. -/
theorem logprobs_line_up_whole :
    ∃ s : Rollout Unit Unit,
      s.built = [(0, ⟨0, [5, 6], [((), 5), ((), 6)]⟩)] ∧
      ∀ entry ∈ s.built, entry.2.outputTokenLogprobs.map Prod.snd = entry.2.outputIds := by
  have hrun := Transition.run_of_isSome_guarded (Rollout.step fun _ => true)
    (SampledWhole fun _ => true) (Rollout.init Unit Unit true)
    [plain (.enqueue "a"), plain (.select (.prefill [0] id none false)), runs [] [5],
      plain (.select (.decode [])), runs [0] [6]] (by decide +kernel)
  exact ⟨_, by decide +kernel, fun entry hentry =>
    logprobs_line_up (fun _ => true) true _ _ hrun entry hentry rfl⟩

/-- A prompt prefilled in two parts: the logprob of the first part's row is recorded, and its
token is not appended. -/
theorem partial_prefill_adds_logprob :
    ∃ s : Rollout Unit Unit,
      Transition.Reachable (Rollout.step fun _ => true) (.init Unit Unit true) s ∧
      s.built = [(0, ⟨0, [6], [((), 5), ((), 6)]⟩)] := by
  have hrun := Transition.run_of_isSome (Rollout.step fun _ => true) (Rollout.init Unit Unit true)
    [plain (.enqueue "a"), plain (.select (.prefill [0] id (some 0) false)), runs [] [5],
      plain (.select (.prefill [0] id none false)), runs [0] [6]] (by decide +kernel)
  exact ⟨_, ⟨_, hrun⟩, by decide +kernel⟩

end Omni.Thinker
