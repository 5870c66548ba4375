import Mathlib.Algebra.Order.Ring.Int
import Mathlib.Data.Finset.Basic
import Omni.Library.Leases
import Omni.Library.Transition

/-!
# The decode state pool of MOSS-TTS Local

`MossTTSLocalDecodeStatePool` of `models/moss_tts_local/state_pool.py`. Requests hold rows of the
buffers of a pool. The last row is for padding, and no request holds it.
-/

namespace Omni.Tts

open Transition Function Option Finset

/-- A row of all buffers. -/
structure PoolRow (E F : Type) where
  feedbackEmbeds : E
  textTemp : F
  textTopP : F
  audioTemp : F
  audioTopP : F
  textTopK : ℤ
  audioTopK : ℤ
  seeds : ℤ
  generationSteps : ℤ
  samplingSteps : ℤ
  audioRepetitionPenalty : F
  audioTokenPresence : ℕ → ℤ → Bool

/-- The sampling parameters of a request. -/
structure PoolParams (F : Type) where
  textTemperature : F
  textTopP : F
  audioTemperature : F
  audioTopP : F
  textTopK : ℤ
  audioTopK : ℤ
  samplingSeed : ℤ
  audioRepetitionPenalty : Option F

/-- `MossTTSLocalDecodeStatePool`. Its leases are `_rid_to_row` and `_free_rows`. -/
structure DecodeStatePool (R E F : Type) where
  paddingRow : ℕ
  audioVocabSize : ℤ
  leases : Leases R
  paramsWrittenRids : Finset R
  audioRepetitionPenaltyRows : Finset ℕ
  rows : ℕ → PoolRow E F

/-- A call of the pool, or a write of the runner to rows of its buffers. -/
inductive PoolAction (R E F : Type)
  | acquireRow (rid : R)
  | releaseRow (rid : R)
  | writeParams (row : ℕ) (data : PoolParams F)
  | ensureParams (row : ℕ) (rid : R) (data : PoolParams F)
  | invalidateParams (rid : R)
  | commitGenerationStep (rid : R) (generationSteps : ℤ)
  | commitGenerationSteps (rows : List (ℕ × ℤ))
  | resetForRefill (rid : R) (generationSteps : ℤ)
  | updateAudioHistory (rows : List (ℕ × List ℤ))
  | rebuildAudioHistory (rid : R) (outputRows : List (List ℤ))
  | prepareActiveRows (requests : List (R × PoolParams F))
  /-- The runner writes the embedding and the counter of a sampled frame. -/
  | writeFrame (row : ℕ) (embed : E) (samplingSteps : ℤ)

section Code

variable {R E F : Type} [Zero E] [Zero F]

/-- A row that `reset_row` has zeroed. -/
def PoolRow.zero : PoolRow E F := ⟨0, 0, 0, 0, 0, 0, 0, 0, 0, 0, 0, fun _ _ => false⟩

/-- `update_audio_history` for one row: the codes of the channels that are in the vocabulary. -/
def PoolRow.addCodes (audioVocabSize : ℤ) (row : PoolRow E F) (codes : List ℤ) : PoolRow E F :=
  { row with
    audioTokenPresence := fun channel code => row.audioTokenPresence channel code ||
      (codes[channel]? = some code ∧ 0 ≤ code ∧ code < audioVocabSize) }

namespace DecodeStatePool

/-- A new pool. -/
def init (maxRunningRequests : ℕ) (audioVocabSize : ℤ) : DecodeStatePool R E F :=
  ⟨maxRunningRequests, audioVocabSize, .fresh maxRunningRequests, ∅, ∅, fun _ => .zero⟩

/-- A row of the buffers is written. -/
def setRow (s : DecodeStatePool R E F) (row : ℕ) (value : PoolRow E F) : DecodeStatePool R E F :=
  { s with rows := update s.rows row value }

/-- `reset_row`. -/
def resetRow (s : DecodeStatePool R E F) (row : ℕ) : DecodeStatePool R E F :=
  { s.setRow row .zero with
    audioRepetitionPenaltyRows := s.audioRepetitionPenaltyRows.erase row }

/-- `row_for`. -/
def rowFor (s : DecodeStatePool R E F) (rid : R) : Option ℕ := s.leases.slotOf rid

/-- `update_audio_history`. -/
def updateAudioHistory (s : DecodeStatePool R E F) (rows : List (ℕ × List ℤ)) :
    DecodeStatePool R E F :=
  rows.foldl (fun s row => s.setRow row.1 ((s.rows row.1).addCodes s.audioVocabSize row.2)) s

/-- `commit_generation_steps` for one row. -/
def commitRow (s : DecodeStatePool R E F) (row : ℕ) (step : ℤ) : DecodeStatePool R E F :=
  s.setRow row { s.rows row with
    generationSteps := step, samplingSteps := max (s.rows row).samplingSteps step }

/-- `commit_generation_steps`. -/
def commitGenerationSteps (s : DecodeStatePool R E F) (rows : List (ℕ × ℤ)) :
    DecodeStatePool R E F :=
  rows.foldl (fun s row => s.commitRow row.1 row.2) s

/-- `commit_generation_step`. -/
def commitGenerationStep (s : DecodeStatePool R E F) (rid : R) (generationSteps : ℤ) :
    DecodeStatePool R E F :=
  (s.rowFor rid).elim s fun row => s.commitRow row generationSteps

/-- `rebuild_audio_history`. -/
def rebuildAudioHistory (s : DecodeStatePool R E F) (rid : R) (outputRows : List (List ℤ)) :
    DecodeStatePool R E F :=
  (s.rowFor rid).elim s fun row =>
    (s.setRow row { s.rows row with audioTokenPresence := fun _ _ => false }).updateAudioHistory
      (outputRows.map fun codes => (row, codes))

variable [One F] [DecidableEq F]

/-- `write_params`. -/
def writeParams (s : DecodeStatePool R E F) (row : ℕ) (data : PoolParams F) :
    DecodeStatePool R E F :=
  let audioRepetitionPenalty := data.audioRepetitionPenalty.getD 1
  { s.setRow row { s.rows row with
      textTemp := data.textTemperature
      textTopP := data.textTopP
      audioTemp := data.audioTemperature
      audioTopP := data.audioTopP
      textTopK := data.textTopK
      audioTopK := data.audioTopK
      seeds := data.samplingSeed
      audioRepetitionPenalty := audioRepetitionPenalty } with
    audioRepetitionPenaltyRows :=
      if audioRepetitionPenalty = 1 then s.audioRepetitionPenaltyRows.erase row
      else insert row s.audioRepetitionPenaltyRows }

variable [DecidableEq R]

/-- `acquire_row`. It raises if no row is free. -/
def acquireRow (s : DecodeStatePool R E F) (rid : R) : Option (DecodeStatePool R E F × ℕ) :=
  (s.leases.acquire rid).map fun (leases, row) => ({ s with leases := leases }, row)

/-- `release_row`. -/
def releaseRow (s : DecodeStatePool R E F) (rid : R) : DecodeStatePool R E F :=
  (s.rowFor rid).elim s fun row =>
    { s.resetRow row with
      leases := s.leases.release rid, paramsWrittenRids := s.paramsWrittenRids.erase rid }

/-- `invalidate_params`. -/
def invalidateParams (s : DecodeStatePool R E F) (rid : R) : DecodeStatePool R E F :=
  { s with paramsWrittenRids := s.paramsWrittenRids.erase rid }

/-- `ensure_params`. -/
def ensureParams (s : DecodeStatePool R E F) (row : ℕ) (rid : R) (data : PoolParams F) :
    DecodeStatePool R E F :=
  if rid ∈ s.paramsWrittenRids then s
  else { s.writeParams row data with paramsWrittenRids := insert rid s.paramsWrittenRids }

/-- `reset_for_refill`. -/
def resetForRefill (s : DecodeStatePool R E F) (rid : R) (generationSteps : ℤ) :
    DecodeStatePool R E F :=
  (s.rowFor rid).elim s fun row =>
    ((s.invalidateParams rid).resetRow row).setRow row { (PoolRow.zero : PoolRow E F) with
      generationSteps := generationSteps, samplingSteps := generationSteps }

/-- `prepare_active_rows`: the rows of the requests, and if any has a repetition penalty. It stops
at a request for which no row is free. -/
def prepareActiveRows (s : DecodeStatePool R E F) :
    List (R × PoolParams F) → DecodeStatePool R E F × Option (List ℕ × Bool)
  | [] => (s, some ([], false))
  | (rid, data) :: rest =>
    match s.acquireRow rid with
    | none => (s, none)
    | some (s, row) =>
      let s := s.ensureParams row rid data
      let (t, out) := s.prepareActiveRows rest
      (t, out.map fun (rows, penalty) =>
        (row :: rows, decide (row ∈ s.audioRepetitionPenaltyRows) || penalty))

/-- An action. One that raises leaves what it has done before. -/
def step (s : DecodeStatePool R E F) : PoolAction R E F → Option (DecodeStatePool R E F)
  | .acquireRow rid => some ((s.acquireRow rid).elim s Prod.fst)
  | .releaseRow rid => some (s.releaseRow rid)
  | .writeParams row data => some (s.writeParams row data)
  | .ensureParams row rid data => some (s.ensureParams row rid data)
  | .invalidateParams rid => some (s.invalidateParams rid)
  | .commitGenerationStep rid generationSteps =>
    some (s.commitGenerationStep rid generationSteps)
  | .commitGenerationSteps rows => some (s.commitGenerationSteps rows)
  | .resetForRefill rid generationSteps => some (s.resetForRefill rid generationSteps)
  | .updateAudioHistory rows => some (s.updateAudioHistory rows)
  | .rebuildAudioHistory rid outputRows => some (s.rebuildAudioHistory rid outputRows)
  | .prepareActiveRows requests => some (s.prepareActiveRows requests).1
  | .writeFrame row embed samplingSteps =>
    some (s.setRow row { s.rows row with
      feedbackEmbeds := embed, samplingSteps := samplingSteps })

end DecodeStatePool

end Code

variable {R E F : Type}

/-- A write goes to rows that requests hold, and the parameters of a request to its own row. -/
def PoolAction.Addressed (s : DecodeStatePool R E F) : PoolAction R E F → Prop
  | .writeParams row _ => s.leases.Held row
  | .ensureParams row rid _ => s.rowFor rid = some row
  | .commitGenerationSteps rows => ∀ row ∈ rows, s.leases.Held row.1
  | .updateAudioHistory rows => ∀ row ∈ rows, s.leases.Held row.1
  | .writeFrame row _ _ => s.leases.Held row
  | _ => True

/-- Rows are leased, those that nobody holds are zero, and the parameters that are written are those
of holders. -/
structure DecodeStatePool.Leased [Zero E] [Zero F] (n : ℕ) (s : DecodeStatePool R E F) : Prop where
  padding : s.paddingRow = n
  leases : s.leases.Sound n
  clean : ∀ row, ¬s.leases.Held row → s.rows row = .zero ∧ row ∉ s.audioRepetitionPenaltyRows
  params : ∀ rid ∈ s.paramsWrittenRids, ∃ row, s.rowFor rid = some row

/-- Only some rows are written, and parameters only for holders. -/
structure WritesOn (rows : Set ℕ) (s t : DecodeStatePool R E F) : Prop where
  paddingRow : t.paddingRow = s.paddingRow
  leases : t.leases = s.leases
  rows : ∀ row, row ∉ rows → t.rows row = s.rows row ∧
    (row ∈ t.audioRepetitionPenaltyRows → row ∈ s.audioRepetitionPenaltyRows)
  params : ∀ rid ∈ t.paramsWrittenRids, rid ∈ s.paramsWrittenRids ∨ ∃ row, s.rowFor rid = some row

variable {s t u : DecodeStatePool R E F} {written : Set ℕ} {rid : R} {row n : ℕ}

theorem WritesOn.refl (written : Set ℕ) (s : DecodeStatePool R E F) : WritesOn written s s where
  paddingRow := rfl
  leases := rfl
  rows _ _ := ⟨rfl, id⟩
  params _ hrid := .inl hrid

theorem WritesOn.trans (hfirst : WritesOn written s t) (hsecond : WritesOn written t u) :
    WritesOn written s u where
  paddingRow := hsecond.paddingRow.trans hfirst.paddingRow
  leases := hsecond.leases.trans hfirst.leases
  rows row hrow := by
    obtain ⟨heq, hpenalty⟩ := hfirst.rows row hrow
    obtain ⟨heq', hpenalty'⟩ := hsecond.rows row hrow
    exact ⟨heq'.trans heq, hpenalty ∘ hpenalty'⟩
  params rid hrid := by
    rcases hsecond.params rid hrid with hold | ⟨row, hrow⟩
    · exact hfirst.params rid hold
    · refine .inr ⟨row, ?_⟩
      rw [DecodeStatePool.rowFor, ← hfirst.leases]
      exact hrow

theorem writesOn_setRow (hrow : row ∈ written) (value : PoolRow E F) :
    WritesOn written s (s.setRow row value) where
  paddingRow := rfl
  leases := rfl
  rows row' hrow' := by
    refine ⟨update_of_ne ?_ _ _, id⟩
    rintro rfl
    exact hrow' hrow
  params _ hrid := .inl hrid

theorem writesOn_updateAudioHistory {rows : List (ℕ × List ℤ)}
    (hrows : ∀ row ∈ rows, row.1 ∈ written) :
    WritesOn written s (s.updateAudioHistory rows) := by
  induction rows generalizing s with
  | nil => exact .refl written s
  | cons row rest ih =>
    have hfirst : WritesOn written s
        (s.setRow row.1 ((s.rows row.1).addCodes s.audioVocabSize row.2)) :=
      writesOn_setRow (hrows row List.mem_cons_self) _
    exact hfirst.trans (ih fun row hrow => hrows row (List.mem_cons_of_mem _ hrow))

theorem writesOn_commitGenerationSteps {rows : List (ℕ × ℤ)}
    (hrows : ∀ row ∈ rows, row.1 ∈ written) :
    WritesOn written s (s.commitGenerationSteps rows) := by
  induction rows generalizing s with
  | nil => exact .refl written s
  | cons row rest ih =>
    have hfirst : WritesOn written s (s.commitRow row.1 row.2) :=
      writesOn_setRow (hrows row List.mem_cons_self) _
    exact hfirst.trans (ih fun row hrow => hrows row (List.mem_cons_of_mem _ hrow))

section Params

variable [One F] [DecidableEq F]

theorem writesOn_writeParams (hrow : row ∈ written) (data : PoolParams F) :
    WritesOn written s (s.writeParams row data) where
  paddingRow := rfl
  leases := rfl
  rows row' hrow' := by
    have hne : row' ≠ row := by
      rintro rfl
      exact hrow' hrow
    refine ⟨update_of_ne hne _ _, fun hmem => ?_⟩
    simp only [DecodeStatePool.writeParams] at hmem
    split at hmem
    · exact mem_of_mem_erase hmem
    · exact (mem_insert.mp hmem).resolve_left hne
  params _ hrid := .inl hrid

theorem writesOn_ensureParams [DecidableEq R] (hrow : row ∈ written)
    (hholds : s.rowFor rid = some row) (data : PoolParams F) :
    WritesOn written s (s.ensureParams row rid data) := by
  unfold DecodeStatePool.ensureParams
  split
  · exact .refl written s
  · have hwrites : WritesOn written s (s.writeParams row data) := writesOn_writeParams hrow data
    refine ⟨rfl, rfl, hwrites.rows, fun rid' hrid' => ?_⟩
    rcases mem_insert.mp hrid' with rfl | hold
    · exact .inr ⟨row, hholds⟩
    · exact .inl hold

end Params

section Zeroed

variable [Zero E] [Zero F]

theorem leased_init (maxRunningRequests : ℕ) (audioVocabSize : ℤ) :
    (.init maxRunningRequests audioVocabSize : DecodeStatePool R E F).Leased
      maxRunningRequests where
  padding := rfl
  leases := Leases.sound_fresh maxRunningRequests
  clean _ _ := ⟨rfl, notMem_empty _⟩
  params _ hrid := absurd hrid (notMem_empty _)

theorem DecodeStatePool.Leased.writes (h : s.Leased n) (hwrites : WritesOn written s t)
    (hheld : ∀ row ∈ written, s.leases.Held row) : t.Leased n where
  padding := hwrites.paddingRow.trans h.padding
  leases := by
    rw [hwrites.leases]
    exact h.leases
  clean row hrow := by
    rw [hwrites.leases] at hrow
    obtain ⟨heq, hpenalty⟩ := hwrites.rows row fun hmem => hrow (hheld row hmem)
    obtain ⟨hzero, hnot⟩ := h.clean row hrow
    exact ⟨heq.trans hzero, hnot ∘ hpenalty⟩
  params rid hrid := by
    rw [rowFor, hwrites.leases]
    rcases hwrites.params rid hrid with hold | hholds
    · exact h.params rid hold
    · exact hholds

theorem writesOn_resetRow (hrow : row ∈ written) : WritesOn written s (s.resetRow row) where
  paddingRow := rfl
  leases := rfl
  rows row' hrow' :=
    ⟨((writesOn_setRow hrow .zero).rows row' hrow').1, mem_of_mem_erase⟩
  params _ hrid := .inl hrid

theorem DecodeStatePool.Leased.commitGenerationStep (h : s.Leased n) (rid : R) (step : ℤ) :
    (s.commitGenerationStep rid step).Leased n := by
  cases hrow : s.rowFor rid with
  | none =>
    simp only [DecodeStatePool.commitGenerationStep, hrow, elim_none]
    exact h
  | some row =>
    simp only [DecodeStatePool.commitGenerationStep, hrow, elim_some]
    exact h.writes (writesOn_setRow (Set.mem_singleton row) _) fun _ hmem => ⟨rid, hmem ▸ hrow⟩

theorem DecodeStatePool.Leased.rebuildAudioHistory (h : s.Leased n) (rid : R)
    (outputRows : List (List ℤ)) : (s.rebuildAudioHistory rid outputRows).Leased n := by
  cases hrow : s.rowFor rid with
  | none =>
    simp only [DecodeStatePool.rebuildAudioHistory, hrow, elim_none]
    exact h
  | some row =>
    simp only [DecodeStatePool.rebuildAudioHistory, hrow, elim_some]
    refine h.writes ((writesOn_setRow (Set.mem_singleton row) _).trans
      (writesOn_updateAudioHistory fun entry hentry => ?_)) fun _ hmem => ⟨rid, hmem ▸ hrow⟩
    obtain ⟨codes, -, rfl⟩ := List.mem_map.mp hentry
    exact Set.mem_singleton row

variable [DecidableEq R]

theorem DecodeStatePool.Leased.acquireRow (h : s.Leased n)
    (hacquire : s.acquireRow rid = some (t, row)) :
    t.Leased n ∧ t.rowFor rid = some row := by
  obtain ⟨⟨leases, row'⟩, hleases, heq⟩ := map_eq_some_iff.mp hacquire
  obtain ⟨rfl, rfl⟩ := Prod.mk.inj heq
  refine ⟨⟨h.padding, h.leases.acquire hleases, fun k hk => h.clean k fun ⟨r, hr⟩ =>
    hk ⟨r, Leases.slotOf_acquire_of_some hleases hr⟩, fun r hr => ?_⟩,
    Leases.slotOf_acquire hleases⟩
  obtain ⟨k, hk⟩ := h.params r hr
  exact ⟨k, Leases.slotOf_acquire_of_some hleases hk⟩

theorem DecodeStatePool.Leased.releaseRow (h : s.Leased n) (rid : R) :
    (s.releaseRow rid).Leased n := by
  cases hrow : s.rowFor rid with
  | none =>
    simp only [DecodeStatePool.releaseRow, hrow, elim_none]
    exact h
  | some row =>
    simp only [DecodeStatePool.releaseRow, hrow, elim_some]
    refine ⟨h.padding, h.leases.release rid, fun k hk => ?_, fun r hr => ?_⟩
    · by_cases heq : k = row
      · subst heq
        exact ⟨update_self _ _ _, notMem_erase _ _⟩
      · have hnot : ¬s.leases.Held k := fun hheld => hk <| Leases.held_release hheld fun hk' =>
          heq (some.inj (hk'.symm.trans hrow))
        obtain ⟨hzero, hpenalty⟩ := h.clean k hnot
        exact ⟨(update_of_ne heq _ _).trans hzero, fun hmem => hpenalty (mem_of_mem_erase hmem)⟩
    · obtain ⟨hne, hold⟩ := mem_erase.mp hr
      obtain ⟨k, hk⟩ := h.params r hold
      refine ⟨k, ?_⟩
      show (s.leases.release rid).slotOf r = some k
      rw [Leases.slotOf_release, update_of_ne hne]
      exact hk

theorem DecodeStatePool.Leased.resetForRefill (h : s.Leased n) (rid : R) (step : ℤ) :
    (s.resetForRefill rid step).Leased n := by
  cases hrow : s.rowFor rid with
  | none =>
    simp only [DecodeStatePool.resetForRefill, hrow, elim_none]
    exact h
  | some row =>
    simp only [DecodeStatePool.resetForRefill, hrow, elim_some]
    have hinvalidate : WritesOn {row} s (s.invalidateParams rid) :=
      ⟨rfl, rfl, fun _ _ => ⟨rfl, id⟩, fun _ hr => .inl (mem_of_mem_erase hr)⟩
    exact h.writes ((hinvalidate.trans (writesOn_resetRow (Set.mem_singleton row))).trans
      (writesOn_setRow (Set.mem_singleton row) _)) fun _ hmem => ⟨rid, hmem ▸ hrow⟩

variable [One F] [DecidableEq F]

theorem DecodeStatePool.Leased.ensureParams (h : s.Leased n) (hholds : s.rowFor rid = some row)
    (data : PoolParams F) : (s.ensureParams row rid data).Leased n :=
  h.writes (writesOn_ensureParams (Set.mem_singleton row) hholds data)
    fun _ hmem => ⟨rid, hmem ▸ hholds⟩

/-- A batch may find no free row for one of its requests; what has been prepared stays. -/
theorem DecodeStatePool.Leased.prepareActiveRows (h : s.Leased n)
    (requests : List (R × PoolParams F)) : (s.prepareActiveRows requests).1.Leased n := by
  induction requests generalizing s with
  | nil => exact h
  | cons request rest ih =>
    obtain ⟨rid, data⟩ := request
    rw [prepareActiveRows]
    cases hacquire : s.acquireRow rid with
    | none => exact h
    | some acquired =>
      obtain ⟨t, row⟩ := acquired
      obtain ⟨hleased, hrow⟩ := h.acquireRow hacquire
      exact ih (hleased.ensureParams hrow data)

theorem DecodeStatePool.Leased.step (h : s.Leased n) {a : PoolAction R E F} (hok : a.Addressed s)
    (hstep : s.step a = some t) : t.Leased n := by
  cases a with
  | acquireRow rid =>
    cases hstep
    cases hacquire : s.acquireRow rid with
    | none => exact h
    | some acquired => exact (h.acquireRow hacquire).1
  | releaseRow rid => exact some.inj hstep ▸ h.releaseRow rid
  | writeParams row data =>
    cases hstep
    exact h.writes (writesOn_writeParams (Set.mem_singleton row) data) fun _ hmem => hmem ▸ hok
  | ensureParams row rid data => exact some.inj hstep ▸ h.ensureParams hok data
  | invalidateParams rid =>
    cases hstep
    exact { h with params := fun r hr => h.params r (mem_of_mem_erase hr) }
  | commitGenerationStep rid step => exact some.inj hstep ▸ h.commitGenerationStep rid step
  | commitGenerationSteps rows =>
    cases hstep
    have hwrites : WritesOn {row | s.leases.Held row} s (s.commitGenerationSteps rows) :=
      writesOn_commitGenerationSteps hok
    exact h.writes hwrites fun _ hmem => hmem
  | resetForRefill rid step => exact some.inj hstep ▸ h.resetForRefill rid step
  | updateAudioHistory rows =>
    cases hstep
    have hwrites : WritesOn {row | s.leases.Held row} s (s.updateAudioHistory rows) :=
      writesOn_updateAudioHistory hok
    exact h.writes hwrites fun _ hmem => hmem
  | rebuildAudioHistory rid outputRows =>
    exact some.inj hstep ▸ h.rebuildAudioHistory rid outputRows
  | prepareActiveRows requests => exact some.inj hstep ▸ h.prepareActiveRows requests
  | writeFrame row embed step =>
    cases hstep
    exact h.writes (writesOn_setRow (Set.mem_singleton row) _) fun _ hmem => hmem ▸ hok

end Zeroed

end Omni.Tts
