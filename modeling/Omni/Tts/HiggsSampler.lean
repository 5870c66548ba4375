import Omni.Library.Gather
import Mathlib.Algebra.Order.Ring.Int

/-!
# The Higgs sampler

The delay ramp and the end of the codes, for one request and for a batch of rows of a pool. The
sampled codes are given: the two samplers draw them from the logits, the generation parameters,
the seeds and the step counts.
-/

namespace Omni.Tts

variable {M N : ℕ}

/-- The codes of all codebooks. -/
abbrev CodeRow (N : ℕ) : Type := Fin N → ℤ

/-- `STOP_CODE`. -/
def stopCode : ℤ := -1

/-- `HiggsSamplerState`. A countdown that still runs is not negative. -/
structure HiggsSamplerState (N : ℕ) where
  delayCount : ℕ
  eocCountdown : Option ℤ
  generationDone : Bool
  lastCodes : Option (CodeRow N)
  countdown_nonneg : ∀ c, eocCountdown = some c → generationDone = false → 0 ≤ c

/-- A new request. -/
def HiggsSamplerState.fresh (N : ℕ) : HiggsSamplerState N :=
  ⟨0, none, false, none, fun _ h => by cases h⟩

/-- `codes_N[next_cb:] = boc_id` in the delay ramp. -/
def delayedCodes (bocId : ℤ) (delayCount : ℕ) (sampled : CodeRow N) : CodeRow N := fun c =>
  if delayCount + 1 ≤ c then bocId else sampled c

/-- A countdown that is set. -/
theorem nonneg_of_some {c : ℤ} {P : Prop} (hc : 0 ≤ c) : ∀ d, some c = some d → P → 0 ≤ d := by
  rintro d ⟨⟩ _
  exact hc

/-- `step` after the codes have been sampled. -/
def HiggsSamplerState.step [NeZero N] (bocId eocId : ℤ) (s : HiggsSamplerState N) (sampled : CodeRow
    N) :
    HiggsSamplerState N × CodeRow N :=
  if hdone : s.generationDone = true then (s, fun _ => stopCode)
  else if s.delayCount < N then
    let codes := delayedCodes bocId s.delayCount sampled
    ({ s with delayCount := s.delayCount + 1, lastCodes := some codes }, codes)
  else
    match s.eocCountdown with
    | some c =>
      if hend : c - 1 ≤ 0 then
        ({ s with
          eocCountdown := some (c - 1)
          generationDone := true
          countdown_nonneg := fun _ _ h => by cases h }, sampled)
      else
        ({ s with
          eocCountdown := some (c - 1)
          lastCodes := some sampled
          countdown_nonneg := nonneg_of_some (Int.le_of_lt (Int.not_le.1 hend)) }, sampled)
    | none =>
      if sampled 0 = eocId then
        if hN : N ≤ 2 then
          ({ s with generationDone := true, countdown_nonneg := fun _ _ h => by cases h }, sampled)
        else
          ({ s with
            eocCountdown := some (N - 2)
            lastCodes := some sampled
            countdown_nonneg := nonneg_of_some
              (Int.sub_nonneg_of_le (Int.ofNat_le.2 (Nat.le_of_not_le hN))) }, sampled)
      else ({ s with lastCodes := some sampled }, sampled)

/-- `HiggsBatchedSamplerState`. A countdown is `-1` before the end of the codes. -/
structure HiggsBatchedSamplerState (M N : ℕ) where
  delayCount : Fin M → ℕ
  eocCountdown : Fin M → ℤ
  generationDone : Fin M → Bool
  lastCodes : Fin M → CodeRow N
  seeds : Fin M → ℤ
  stepCount : Fin M → ℕ
  countdown_ge : ∀ i, -1 ≤ eocCountdown i

/-- What `batched_step_direct` returns for a batch. -/
structure SteppedBatch (B N : ℕ) where
  outCodes : Fin B → CodeRow N
  delayCount : Fin B → ℕ
  eocCountdown : Fin B → ℤ
  generationDone : Fin B → Bool
  lastCodes : Fin B → CodeRow N
  stepCount : Fin B → ℕ

/-- The codes of a row under `delay_mask`. -/
def maskedCodes (bocId : ℤ) (delayCount : ℕ) (sampled : CodeRow N) : CodeRow N :=
  maskedWhere (fun c => decide (delayCount < N) && decide (delayCount < c)) (fun _ => bocId) sampled

/-- `batched_step_direct` after the codes have been sampled. -/
def batchedStepDirect [NeZero N] {B : ℕ} (bocId eocId : ℤ) (sampled : Fin B → CodeRow N)
    (delayCount : Fin B → ℕ) (eocCountdown : Fin B → ℤ) (generationDone : Fin B → Bool)
    (lastCodes : Fin B → CodeRow N) (stepCount : Fin B → ℕ) : SteppedBatch B N :=
  let codes := fun b => maskedCodes bocId (delayCount b) (sampled b)
  let active := fun b => !generationDone b
  let inDelayActive := fun b => active b && decide (delayCount b < N)
  let inWinddownActive := fun b =>
    active b && decide (0 ≤ eocCountdown b) && !inDelayActive b
  let cb0EocNowActive := fun b =>
    active b && !inDelayActive b && !inWinddownActive b && decide (codes b 0 = eocId)
  let newDelayCount := maskedWhere inDelayActive (fun b => delayCount b + 1) delayCount
  let windDown := maskedWhere inWinddownActive (fun b => eocCountdown b - 1) eocCountdown
  let newEocCountdown :=
    if 2 < N then maskedWhere cb0EocNowActive (fun _ => (N : ℤ) - 2) windDown else windDown
  let doneThisStep := fun b =>
    (!decide (2 < N) && cb0EocNowActive b) ||
      (inWinddownActive b && decide (newEocCountdown b ≤ 0))
  { outCodes := maskedWhere generationDone (fun _ _ => stopCode) codes
    delayCount := newDelayCount
    eocCountdown := newEocCountdown
    generationDone := fun b => generationDone b || doneThisStep b
    lastCodes := maskedWhere (fun b => active b && !doneThisStep b) codes lastCodes
    stepCount := fun b => stepCount b + if active b then 1 else 0 }

namespace HiggsBatchedSamplerState

variable (pool : HiggsBatchedSamplerState M N)

/-- `view_row`. -/
def viewRow (i : Fin M) : HiggsSamplerState N where
  delayCount := pool.delayCount i
  eocCountdown := if pool.eocCountdown i < 0 then none else some (pool.eocCountdown i)
  generationDone := pool.generationDone i
  lastCodes := if pool.delayCount i = 0 then none else some (pool.lastCodes i)
  countdown_nonneg c h _ := by
    split at h
    · cases h
    · cases h
      omega

end HiggsBatchedSamplerState

/-- The rows that a decode step runs, no row twice, with the codes that are sampled for them. -/
structure DecodeBatch (M N : ℕ) where
  size : ℕ
  rowIndices : Fin size → Fin M
  sampled : Fin size → CodeRow N
  distinct : Function.Injective rowIndices

/-- The codes sampled for a row of the pool, if the batch runs it. -/
def DecodeBatch.sampledAt (batch : DecodeBatch M N) (i : Fin M) : Option (CodeRow N) :=
  (placeOf batch.rowIndices i).map batch.sampled

/-- The gathered rows of a pool after a step. -/
def HiggsBatchedSamplerState.direct [NeZero N] (bocId eocId : ℤ)
    (pool : HiggsBatchedSamplerState M N) (batch : DecodeBatch M N) : SteppedBatch batch.size N :=
  batchedStepDirect bocId eocId batch.sampled (pool.delayCount ∘ batch.rowIndices)
    (pool.eocCountdown ∘ batch.rowIndices) (pool.generationDone ∘ batch.rowIndices)
    (pool.lastCodes ∘ batch.rowIndices) (pool.stepCount ∘ batch.rowIndices)

variable {bocId : ℤ}

/-- A countdown that has been decremented or set is not below `-1`. -/
theorem countdown_ge_batchedStepDirect [NeZero N] {B : ℕ} {eocId : ℤ} {sampled : Fin B → CodeRow N}
    {delayCount : Fin B → ℕ} {eocCountdown : Fin B → ℤ} {generationDone : Fin B → Bool}
    {lastCodes : Fin B → CodeRow N} {stepCount : Fin B → ℕ} {b : Fin B} (h : -1 ≤ eocCountdown b) :
    -1 ≤ (batchedStepDirect bocId eocId sampled delayCount eocCountdown generationDone lastCodes
      stepCount).eocCountdown b := by
  have hwindDown (winds : Fin B → Bool) (hwinds : winds b = true → 0 ≤ eocCountdown b) :
      -1 ≤ maskedWhere winds (fun b => eocCountdown b - 1) eocCountdown b := by
    refine maskedWhere_cases (fun hmask => ?_) fun _ => h
    have hpos := hwinds hmask
    omega
  unfold batchedStepDirect
  dsimp only
  split
  · refine maskedWhere_cases (fun _ => ?_) fun _ => hwindDown _ (by simp_all)
    omega
  · exact hwindDown _ (by simp_all)

/-- `batched_step`. The codes that it returns are given by the rows of the pool. -/
def HiggsBatchedSamplerState.batchedStep [NeZero N] (bocId eocId : ℤ)
    (pool : HiggsBatchedSamplerState M N) (batch : DecodeBatch M N) :
    HiggsBatchedSamplerState M N × (Fin M → Option (CodeRow N)) :=
  let stepped := pool.direct bocId eocId batch
  ({ delayCount := putRows pool.delayCount batch.rowIndices stepped.delayCount
     eocCountdown := putRows pool.eocCountdown batch.rowIndices stepped.eocCountdown
     generationDone := putRows pool.generationDone batch.rowIndices stepped.generationDone
     lastCodes := putRows pool.lastCodes batch.rowIndices stepped.lastCodes
     seeds := pool.seeds
     stepCount := putRows pool.stepCount batch.rowIndices stepped.stepCount
     countdown_ge := putRows_forall pool.countdown_ge fun b =>
       countdown_ge_batchedStepDirect (pool.countdown_ge (batch.rowIndices b)) },
    fun i => (placeOf batch.rowIndices i).map stepped.outCodes)

/-- The entries of a row of the pool are those of a state of a request. -/
structure IsRow (s : HiggsSamplerState N) (delayCount : ℕ) (eocCountdown : ℤ)
    (generationDone : Bool) (lastCodes : CodeRow N) : Prop where
  delayCount : delayCount = s.delayCount
  eocCountdown : eocCountdown = s.eocCountdown.getD (-1)
  generationDone : generationDone = s.generationDone
  lastCodes : s.lastCodes = if s.delayCount = 0 then none else some lastCodes

variable {delayCount : ℕ} {sampled : CodeRow N}

/-- In the delay ramp, the mask is the slice that `step` writes. -/
theorem maskedCodes_of_lt (h : delayCount < N) :
    maskedCodes bocId delayCount sampled = delayedCodes bocId delayCount sampled := by
  funext c
  simp [maskedCodes, delayedCodes, h, Nat.succ_le_iff]

theorem maskedCodes_of_not_lt (h : ¬delayCount < N) :
    maskedCodes bocId delayCount sampled = sampled := by
  funext c
  simp [maskedCodes, h]

section Row

variable [NeZero N] {B : ℕ} {bocId eocId : ℤ} {sampled : Fin B → CodeRow N}
  {delayCount : Fin B → ℕ} {eocCountdown : Fin B → ℤ} {generationDone : Fin B → Bool}
  {lastCodes : Fin B → CodeRow N} {stepCount : Fin B → ℕ} {b : Fin B} {s : HiggsSamplerState N}

variable (bocId eocId sampled delayCount eocCountdown generationDone lastCodes stepCount b) in
/-- A row of a batch after `batched_step_direct` is the state of its request after `step`, and its
codes are the same. -/
theorem batchedStepDirect_row
    (h : IsRow s (delayCount b) (eocCountdown b) (generationDone b) (lastCodes b)) :
    let stepped := batchedStepDirect bocId eocId sampled delayCount eocCountdown generationDone
      lastCodes stepCount
    IsRow (s.step bocId eocId (sampled b)).1 (stepped.delayCount b) (stepped.eocCountdown b)
        (stepped.generationDone b) (stepped.lastCodes b) ∧
      stepped.outCodes b = (s.step bocId eocId (sampled b)).2 := by
  obtain ⟨delays, countdown, done, last, hnonneg⟩ := s
  obtain ⟨hdelay, heoc, hdone, hlast⟩ := h
  dsimp only at hdelay heoc hdone hlast
  unfold HiggsSamplerState.step batchedStepDirect
  dsimp only
  cases done with
  | true =>
    rw [dif_pos rfl]
    refine ⟨⟨?_, ?_, ?_, ?_⟩, ?_⟩
    · simp [hdone, hdelay]
    · split <;> simp [hdone, heoc]
    · simp [hdone]
    · simp [hdone, hlast]
    · simp [hdone]
  | false =>
    rw [dif_neg (by simp)]
    by_cases hramp : delays < N
    · have hcodes : maskedCodes bocId delays (sampled b) = delayedCodes bocId delays (sampled b) :=
        maskedCodes_of_lt hramp
      rw [if_pos hramp]
      refine ⟨⟨?_, ?_, ?_, ?_⟩, ?_⟩
      · simp [hdone, hdelay, hramp]
      · split <;> simp [hdone, hdelay, hramp, heoc]
      · simp [hdone, hdelay, hramp]
      · simp [hdone, hdelay, hramp, hcodes]
      · simp [hdone, hdelay, hcodes]
    have hcodes : maskedCodes bocId delays (sampled b) = sampled b :=
      maskedCodes_of_not_lt hramp
    have hpos : delays ≠ 0 := by
      have hN := NeZero.ne N
      omega
    rw [if_neg hramp]
    cases countdown with
    | some c =>
      have hc : 0 ≤ c := hnonneg c rfl rfl
      have hlow : ¬c < 0 := Int.not_lt.mpr hc
      have hafter : N ≤ delays := Nat.not_lt.mp hramp
      rw [Option.getD_some] at heoc
      dsimp only
      split
      next hend =>
        have hone : c ≤ 1 := by omega
        refine ⟨⟨?_, ?_, ?_, ?_⟩, ?_⟩
        · simp [hdone, hdelay, hramp]
        · simp [ite_apply, hdone, hdelay, hramp, heoc, hc]
        · simp [ite_apply, hdone, hdelay, hramp, heoc, hc, hone]
        · simp [ite_apply, hdone, hdelay, hramp, heoc, hc, hlow, hafter, hone, hlast, hpos]
        · simp [hdone, hdelay, hcodes]
      next hend =>
        have hone : ¬c ≤ 1 := by omega
        refine ⟨⟨?_, ?_, ?_, ?_⟩, ?_⟩
        · simp [hdone, hdelay, hramp]
        · simp [ite_apply, hdone, hdelay, hramp, heoc, hc]
        · simp [ite_apply, hdone, hdelay, hramp, heoc, hc, hone]
        · simp [ite_apply, hdone, hdelay, hramp, heoc, hc, hlow, hafter, hone, hcodes, hpos]
        · simp [hdone, hdelay, hcodes]
    | none =>
      rw [Option.getD_none] at heoc
      dsimp only
      split
      next heocNow =>
        split
        next hN =>
          rw [← Nat.not_lt] at hN
          refine ⟨⟨?_, ?_, ?_, ?_⟩, ?_⟩
          · simp [hdone, hdelay, hramp]
          · simp [hdone, hdelay, hramp, heoc, hN]
          · simp [hdone, hdelay, hramp, heoc, hN, hcodes, heocNow]
          · simp [hdone, hdelay, hramp, heoc, hN, hcodes, heocNow, hlast]
          · simp [hdone, hdelay, hcodes]
        next hN =>
          rw [Nat.not_le] at hN
          refine ⟨⟨?_, ?_, ?_, ?_⟩, ?_⟩
          · simp [hdone, hdelay, hramp]
          · simp [hdone, hdelay, hramp, heoc, hN, hcodes, heocNow]
          · simp [hdone, hdelay, hramp, heoc, hN, hcodes, heocNow]
          · simp [hdone, hdelay, hramp, heoc, hN, hcodes, heocNow, hpos]
          · simp [hdone, hdelay, hcodes]
      next heocNow =>
        refine ⟨⟨?_, ?_, ?_, ?_⟩, ?_⟩
        · simp [hdone, hdelay, hramp]
        · simp [ite_apply, hdone, hdelay, hramp, heoc, hcodes, heocNow]
        · simp [ite_apply, hdone, hdelay, hramp, heoc, hcodes, heocNow]
        · simp [ite_apply, hdone, hdelay, hramp, heoc, hcodes, heocNow, hpos]
        · simp [hdone, hdelay, hcodes]

end Row

/-- The state of a row is that of a request. -/
def HiggsBatchedSamplerState.Represents (pool : HiggsBatchedSamplerState M N) (i : Fin M)
    (s : HiggsSamplerState N) : Prop :=
  IsRow s (pool.delayCount i) (pool.eocCountdown i) (pool.generationDone i) (pool.lastCodes i)

/-- The other entries of a row. -/
def HiggsBatchedSamplerState.SameRow (pool pool' : HiggsBatchedSamplerState M N) (i : Fin M) :
    Prop :=
  pool'.delayCount i = pool.delayCount i ∧ pool'.eocCountdown i = pool.eocCountdown i ∧
    pool'.generationDone i = pool.generationDone i ∧ pool'.lastCodes i = pool.lastCodes i ∧
    pool'.seeds i = pool.seeds i ∧ pool'.stepCount i = pool.stepCount i

theorem HiggsBatchedSamplerState.SameRow.trans {pool pool' pool'' : HiggsBatchedSamplerState M N}
    {i : Fin M} (h : pool.SameRow pool' i) (h' : pool'.SameRow pool'' i) : pool.SameRow pool'' i :=
  ⟨h'.1.trans h.1, h'.2.1.trans h.2.1, h'.2.2.1.trans h.2.2.1, h'.2.2.2.1.trans h.2.2.2.1,
    h'.2.2.2.2.1.trans h.2.2.2.2.1, h'.2.2.2.2.2.trans h.2.2.2.2.2⟩

theorem represents_viewRow (pool : HiggsBatchedSamplerState M N) (i : Fin M) :
    pool.Represents i (pool.viewRow i) where
  delayCount := rfl
  eocCountdown := by
    have hge := pool.countdown_ge i
    unfold HiggsBatchedSamplerState.viewRow
    split
    · rw [Option.getD_none]
      omega
    · rfl
  generationDone := rfl
  lastCodes := rfl

variable [NeZero N]

/-- One request for each row: the requests that a batch runs take a step each. -/
def stepEach (bocId eocId : ℤ) (states : Fin M → HiggsSamplerState N) (batch : DecodeBatch M N) :
    (Fin M → HiggsSamplerState N) × (Fin M → Option (CodeRow N)) :=
  (fun i => (batch.sampledAt i).elim (states i) fun sampled =>
      ((states i).step bocId eocId sampled).1,
    fun i => (batch.sampledAt i).map fun sampled => ((states i).step bocId eocId sampled).2)

/-- A run of a step function that returns codes. -/
def decodeRun {σ : Type} (f : σ → DecodeBatch M N → σ × (Fin M → Option (CodeRow N))) :
    σ → List (DecodeBatch M N) → σ × List (Fin M → Option (CodeRow N))
  | s, [] => (s, [])
  | s, batch :: batches =>
    let next := f s batch
    let rest := decodeRun f next.1 batches
    (rest.1, next.2 :: rest.2)

variable {bocId eocId : ℤ}

variable (bocId eocId) in
/-- **Step.** A batch changes the rows that it runs as their requests' own steps do, returns the
same codes, and changes no other row. -/
theorem batchedStep_refines {pool : HiggsBatchedSamplerState M N}
    {states : Fin M → HiggsSamplerState N} (h : ∀ i, pool.Represents i (states i))
    (batch : DecodeBatch M N) :
    (∀ i, (pool.batchedStep bocId eocId batch).1.Represents i
        ((stepEach bocId eocId states batch).1 i)) ∧
      (pool.batchedStep bocId eocId batch).2 = (stepEach bocId eocId states batch).2 ∧
      ∀ i, (∀ b, batch.rowIndices b ≠ i) →
        pool.SameRow (pool.batchedStep bocId eocId batch).1 i := by
  have hrow (b : Fin batch.size) := batchedStepDirect_row bocId eocId batch.sampled
    (pool.delayCount ∘ batch.rowIndices) (pool.eocCountdown ∘ batch.rowIndices)
    (pool.generationDone ∘ batch.rowIndices) (pool.lastCodes ∘ batch.rowIndices)
    (pool.stepCount ∘ batch.rowIndices) b (h (batch.rowIndices b))
  refine ⟨fun i => ?_, funext fun i => ?_, fun i hi => ?_⟩
  · unfold HiggsBatchedSamplerState.Represents HiggsBatchedSamplerState.batchedStep stepEach
      DecodeBatch.sampledAt putRows
    cases hplace : placeOf batch.rowIndices i with
    | none =>
      simp only [hplace, Option.map_none, Option.elim_none]
      exact h i
    | some b =>
      obtain rfl := rows_of_placeOf hplace
      simp only [hplace, Option.map_some, Option.elim_some]
      exact (hrow b).1
  · unfold HiggsBatchedSamplerState.batchedStep stepEach DecodeBatch.sampledAt
    cases hplace : placeOf batch.rowIndices i with
    | none => simp only [hplace, Option.map_none]
    | some b =>
      obtain rfl := rows_of_placeOf hplace
      simp only [hplace, Option.map_some]
      exact congrArg some (hrow b).2
  · unfold HiggsBatchedSamplerState.SameRow HiggsBatchedSamplerState.batchedStep
    exact ⟨putRows_of_ne hi _ _, putRows_of_ne hi _ _, putRows_of_ne hi _ _,
      putRows_of_ne hi _ _, rfl, putRows_of_ne hi _ _⟩

/-- **Run.** In every run of decode steps from a pool whose rows are arbitrary, each row goes
through the states of its request's own steps, the codes that are returned are theirs, and a row
that no batch runs stays as it is. -/
theorem decodeRun_refines (bocId eocId : ℤ) (pool : HiggsBatchedSamplerState M N)
    (batches : List (DecodeBatch M N)) :
    let batched := decodeRun (HiggsBatchedSamplerState.batchedStep bocId eocId) pool batches
    let single := decodeRun (stepEach bocId eocId) pool.viewRow batches
    (∀ i, batched.1.Represents i (single.1 i)) ∧ batched.2 = single.2 ∧
      ∀ i, (∀ batch ∈ batches, ∀ b, batch.rowIndices b ≠ i) → pool.SameRow batched.1 i := by
  suffices h : ∀ (pool : HiggsBatchedSamplerState M N) (states : Fin M → HiggsSamplerState N),
      (∀ i, pool.Represents i (states i)) →
      (∀ i, (decodeRun (HiggsBatchedSamplerState.batchedStep bocId eocId) pool batches).1.Represents
        i ((decodeRun (stepEach bocId eocId) states batches).1 i)) ∧
      (decodeRun (HiggsBatchedSamplerState.batchedStep bocId eocId) pool batches).2 =
        (decodeRun (stepEach bocId eocId) states batches).2 ∧
      ∀ i, (∀ batch ∈ batches, ∀ b, batch.rowIndices b ≠ i) →
        pool.SameRow
          (decodeRun (HiggsBatchedSamplerState.batchedStep bocId eocId) pool batches).1 i by
    exact h pool pool.viewRow (represents_viewRow pool)
  induction batches with
  | nil => exact fun pool states h => ⟨h, rfl, fun i _ => ⟨rfl, rfl, rfl, rfl, rfl, rfl⟩⟩
  | cons batch batches ih =>
    intro pool states h
    obtain ⟨hnext, hcodes, hsame⟩ := batchedStep_refines bocId eocId h batch
    obtain ⟨hrest, hlater, hstay⟩ := ih _ _ hnext
    refine ⟨hrest, congrArg₂ List.cons hcodes hlater, fun i hi => ?_⟩
    have hfirst := hsame i (hi batch List.mem_cons_self)
    have hthen := hstay i fun later hmem => hi later (List.mem_cons_of_mem _ hmem)
    exact hfirst.trans hthen

/-- Three codebooks and two rows, of which the second one runs for two steps. -/
theorem decodeRun_refines_three :
    let pool : HiggsBatchedSamplerState 2 3 :=
      ⟨fun _ => 3, fun _ => -1, fun _ => false, fun _ _ => 0, fun _ => -1, fun _ => 3,
        fun _ => Int.le_refl _⟩
    let batch : DecodeBatch 2 3 :=
      ⟨1, fun _ => 1, fun _ _ => 7, fun _ _ _ => Subsingleton.elim _ _⟩
    let batched :=
      decodeRun (HiggsBatchedSamplerState.batchedStep 8 7) pool [batch, batch, batch]
    let single := decodeRun (stepEach 8 7) pool.viewRow [batch, batch, batch]
    batched.1.generationDone 1 = true ∧ batched.1.stepCount 1 = 5 ∧
      batched.2.map (fun codes => (codes 1).map fun row => row 0) = [some 7, some 7, some (-1)] ∧
    (∀ i, batched.1.Represents i (single.1 i)) ∧ batched.2 = single.2 ∧
      ∀ i, (∀ b ∈ [batch, batch, batch], ∀ k, b.rowIndices k ≠ i) → pool.SameRow batched.1 i :=
  ⟨by decide +kernel, by decide +kernel, by decide +kernel, decodeRun_refines 8 7 _ _⟩

end Omni.Tts
