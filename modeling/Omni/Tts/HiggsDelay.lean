import Omni.Tts.HiggsVocoder

/-!
# The delay pattern of Higgs

The rows that the sampler emits for one request until its generation is done, and the delay pattern
of `models/higgs_tts/utils.py` with the mask of its actions, against `reverse_delay_pattern`.
-/

namespace Omni.Tts

open List

variable {N : ℕ} [NeZero N] {bocId eocId : ℤ} {sampled : ℕ → CodeRow N} {T : ℕ}
  {s : HiggsSamplerState N} {codes : CodeRow N} {c : Fin N}

/-- The state before a step of a new request. -/
def samplerState (bocId eocId : ℤ) (sampled : ℕ → CodeRow N) : ℕ → HiggsSamplerState N
  | 0 => .fresh N
  | n + 1 => ((samplerState bocId eocId sampled n).step bocId eocId (sampled n)).1

/-- The row that a step emits. -/
def emittedRow (bocId eocId : ℤ) (sampled : ℕ → CodeRow N) (n : ℕ) : CodeRow N :=
  ((samplerState bocId eocId sampled n).step bocId eocId (sampled n)).2

/-- The rows of the first steps. -/
def emittedRows (bocId eocId : ℤ) (sampled : ℕ → CodeRow N) (n : ℕ) : List (CodeRow N) :=
  (List.range n).map (emittedRow bocId eocId sampled)

/-- Codebook 0 samples the end of the codes at this step for the first time. -/
structure FirstEnd (eocId : ℤ) (sampled : ℕ → CodeRow N) (T : ℕ) : Prop where
  ends : sampled T 0 = eocId
  before : ∀ t < T, sampled t 0 ≠ eocId

/-- A state that has so many rows left after the one with the end of the codes. -/
structure Winding (s : HiggsSamplerState N) (left : ℕ) : Prop where
  delay : N ≤ s.delayCount
  done : s.generationDone = decide (left = 0)
  countdown : left ≠ 0 → s.eocCountdown = some (left : ℤ)

variable (bocId) in
/-- A step before the end of the codes. -/
theorem samplerState_before (h : FirstEnd eocId sampled T) {n : ℕ} (hn : n ≤ T) :
    (samplerState bocId eocId sampled n).delayCount = min n N ∧
      (samplerState bocId eocId sampled n).eocCountdown = none ∧
      (samplerState bocId eocId sampled n).generationDone = false := by
  induction n with
  | zero => exact ⟨(Nat.zero_min N).symm, rfl, rfl⟩
  | succ n ih =>
    obtain ⟨hdelay, hcountdown, hdone⟩ := ih (Nat.le_of_succ_le hn)
    rw [samplerState]
    unfold HiggsSamplerState.step
    rw [dif_neg (by simp [hdone])]
    by_cases hramp : n < N
    · rw [if_pos (by omega)]
      refine ⟨?_, hcountdown, hdone⟩
      change _ + 1 = _
      omega
    · rw [if_neg (by omega)]
      simp only [hcountdown, h.before n hn, if_false]
      exact ⟨by omega, trivial, hdone⟩

theorem Winding.start (hN : 2 ≤ N) (hdelay : N ≤ s.delayCount) (hcountdown : s.eocCountdown = none)
    (hdone : s.generationDone = false) (hcodes : codes 0 = eocId) :
    Winding (s.step bocId eocId codes).1 (N - 2) := by
  unfold HiggsSamplerState.step
  rw [dif_neg (by simp [hdone]), if_neg (Nat.not_lt.2 hdelay)]
  simp only [hcountdown, hcodes, if_true]
  by_cases htwo : N ≤ 2
  · rw [dif_pos htwo]
    have hleft : N - 2 = 0 := by omega
    rw [hleft]
    exact ⟨hdelay, rfl, fun hne => absurd rfl hne⟩
  · rw [dif_neg htwo]
    exact ⟨hdelay, hdone.trans (by simp; omega), fun _ => by simp; omega⟩

theorem Winding.step {left : ℕ} (h : Winding s (left + 1)) (codes : CodeRow N) :
    Winding (s.step bocId eocId codes).1 left := by
  have hdone : s.generationDone = false := h.done
  have hcountdown := h.countdown (Nat.succ_ne_zero left)
  unfold HiggsSamplerState.step
  rw [dif_neg (by simp [hdone]), if_neg (Nat.not_lt.2 h.delay)]
  simp only [hcountdown]
  by_cases hleft : left = 0
  · subst hleft
    exact ⟨h.delay, rfl, fun hne => absurd rfl hne⟩
  · rw [dif_neg (by omega)]
    exact ⟨h.delay, hdone.trans (by simp [hleft]), fun _ => by simp⟩

/-- A finished request stays as it is. -/
theorem Winding.stop (h : Winding s 0) (codes : CodeRow N) :
    s.step bocId eocId codes = (s, fun _ => stopCode) := by
  have hdone : s.generationDone = true := h.done
  unfold HiggsSamplerState.step
  rw [dif_pos hdone]

variable (bocId) in
/-- The states after the end of the codes. -/
theorem winding (h : FirstEnd eocId sampled T) (hN : 2 ≤ N) (hT : N ≤ T) (k : ℕ) :
    Winding (samplerState bocId eocId sampled (T + 1 + k)) (N - 2 - k) := by
  induction k with
  | zero =>
    obtain ⟨hdelay, hcountdown, hdone⟩ := samplerState_before bocId h le_rfl
    exact .start hN (by omega) hcountdown hdone h.ends
  | succ k ih =>
    rw [← Nat.add_assoc, samplerState]
    rcases Nat.eq_zero_or_pos (N - 2 - k) with hleft | hleft
    · rw [hleft] at ih
      rw [ih.stop, show N - 2 - (k + 1) = 0 by omega]
      exact ih
    · rw [show N - 2 - k = N - 2 - (k + 1) + 1 by omega] at ih
      exact ih.step _

/-- After the ramp of a codebook, the codes of a step are those that have been sampled. -/
theorem step_codes (hdone : s.generationDone = false) (hc : c ≤ s.delayCount) :
    (s.step bocId eocId codes).2 c = codes c := by
  unfold HiggsSamplerState.step
  rw [dif_neg (by simp [hdone])]
  by_cases hramp : s.delayCount < N
  · rw [if_pos hramp]
    exact if_neg (by omega)
  · rw [if_neg hramp]
    split
    · split <;> rfl
    · split
      · split <;> rfl
      · rfl

variable (bocId) in
/-- When the generation is done, and the codes that are emitted until then. -/
theorem samplerState_done (h : FirstEnd eocId sampled T) (hN : 2 ≤ N) (hT : N ≤ T) (n : ℕ) :
    ((samplerState bocId eocId sampled n).generationDone = true ↔ T + N - 1 ≤ n) ∧
      min n N ≤ (samplerState bocId eocId sampled n).delayCount := by
  rcases Nat.lt_or_ge T n with hn | hn
  · obtain ⟨k, rfl⟩ := Nat.exists_eq_add_of_lt hn
    have hwinding := winding bocId h hN hT k
    rw [Nat.add_right_comm] at hwinding
    rw [hwinding.done, decide_eq_true_iff]
    exact ⟨by omega, (Nat.min_le_right ..).trans hwinding.delay⟩
  · obtain ⟨hdelay, -, hdone⟩ := samplerState_before bocId h hn
    rw [hdone, hdelay]
    exact ⟨iff_of_false (by simp) (by omega), le_rfl⟩

omit [NeZero N] in
theorem getD_map_range {n i : ℕ} {f : ℕ → CodeRow N} (hi : i < n) :
    ((List.range n).map f).getD i 0 = f i := by
  rw [getD_eq_getElem?_getD, getElem?_map, getElem?_range hi]
  rfl

variable (bocId) in
/-- The frames of the rows until the first end of the codes in codebook 0, and `N - 1` rows after
it, are the codes that have been sampled; the next row is `STOP`. -/
theorem wind_down (h : FirstEnd eocId sampled T) (hN : 2 ≤ N) (hT : N ≤ T) :
    (∀ n, (samplerState bocId eocId sampled n).generationDone = true ↔ T + N - 1 ≤ n) ∧
      (∀ n, T + N - 1 ≤ n → emittedRow bocId eocId sampled n = fun _ => stopCode) ∧
      reverseDelayPattern (emittedRows bocId eocId sampled (T + N - 1)) =
        (List.range T).map fun t (c : Fin N) => sampled (t + c) c := by
  refine ⟨fun n => (samplerState_done bocId h hN hT n).1, fun n hn => ?_, ?_⟩
  · have hdone := (samplerState_done bocId h hN hT n).1.2 hn
    unfold emittedRow HiggsSamplerState.step
    rw [dif_pos hdone]
  · have hlength : (emittedRows bocId eocId sampled (T + N - 1)).length = T + N - 1 := by
      rw [emittedRows, length_map, length_range]
    rw [reverseDelayPattern, hlength, show T + N - 1 - (N - 1) = T by omega]
    refine map_congr_left fun t ht => funext fun c => ?_
    have ht := mem_range.1 ht
    obtain ⟨hdone, hdelay⟩ := samplerState_done bocId h hN hT (t + c)
    rw [rawFrame, emittedRows, getD_map_range (by omega), Nat.add_comm]
    exact step_codes (by simpa using mt hdone.1 (by omega)) (by omega)

/-- Three codebooks, whose codes end in the fourth step. -/
theorem wind_down_three :
    (reverseDelayPattern (emittedRows 1024 1025
      (fun n (c : Fin 3) => if n < 3 then (10 * n + c : ℤ) else 1025) 5)).map List.ofFn =
    [[0, 11, 22], [10, 21, 1025], [20, 1025, 1025]] := by
  have h : FirstEnd 1025 (fun n (c : Fin 3) => if n < 3 then (10 * n + c : ℤ) else 1025) 3 :=
    ⟨rfl, by decide⟩
  have hframes := (wind_down 1024 h (by decide) le_rfl).2.2
  rw [show 3 + 3 - 1 = 5 from rfl] at hframes
  rw [hframes]
  decide

/-- A row of `out` in `apply_delay_pattern`, when all codebooks have been written. -/
def delayedRow (bocId eocId : ℤ) (codes : List (CodeRow N)) (r : ℕ) : CodeRow N := fun c =>
  if r < c then bocId
  else if r < c + codes.length then codes.getD (r - c) 0 c
  else eocId

/-- `apply_delay_pattern`. -/
def applyDelayPattern (bocId eocId : ℤ) (codes : List (CodeRow N)) : List (CodeRow N) :=
  (List.range (codes.length + N - 1)).map (delayedRow bocId eocId codes)

/-- `t_raw` of `delay_pattern_action_mask`: the first row with the end of the codes in codebook 0,
or the number of rows. -/
def rawFrames (eocId : ℤ) (delayed : List (CodeRow N)) : ℕ :=
  delayed.findIdx fun row => row 0 = eocId

/-- `delay_pattern_action_mask` at a position. -/
def delayPatternActionMask (eocId : ℤ) (delayed : List (CodeRow N)) (r : ℕ) (c : Fin N) : Bool :=
  c ≤ r && r < c + rawFrames eocId delayed

/-- A position that `reverse_delay_pattern` reads. -/
def ReadByReverse (delayed : List (CodeRow N)) (r : ℕ) (c : Fin N) : Prop :=
  ∃ t < (reverseDelayPattern delayed).length, r = c + t

omit [NeZero N] in
theorem getElem_reverseDelayPattern {delayed : List (CodeRow N)} {t : ℕ}
    (ht : t < (reverseDelayPattern delayed).length) :
    (reverseDelayPattern delayed)[t] = rawFrame delayed t := by
  simp only [reverseDelayPattern, getElem_map, getElem_range]

omit [NeZero N] in
theorem getElem_applyDelayPattern {codes : List (CodeRow N)} {r : ℕ}
    (hr : r < (applyDelayPattern bocId eocId codes).length) :
    (applyDelayPattern bocId eocId codes)[r] = delayedRow bocId eocId codes r := by
  simp only [applyDelayPattern, getElem_map, getElem_range]

variable (bocId eocId) in
omit [NeZero N] in
theorem length_applyDelayPattern (codes : List (CodeRow N)) :
    (applyDelayPattern bocId eocId codes).length = codes.length + N - 1 := by
  rw [applyDelayPattern, length_map, length_range]

theorem length_reverse_apply (codes : List (CodeRow N)) (hcodes : codes ≠ []) :
    (reverseDelayPattern (applyDelayPattern bocId eocId codes)).length = codes.length := by
  have hlength := length_pos_iff.2 hcodes
  have hN := Nat.pos_of_neZero N
  rw [reverseDelayPattern, length_map, length_range, length_applyDelayPattern]
  omega

theorem reverse_apply (codes : List (CodeRow N)) (hcodes : codes ≠ []) :
    reverseDelayPattern (applyDelayPattern bocId eocId codes) = codes := by
  refine ext_getElem (length_reverse_apply codes hcodes) fun t hframe ht => funext fun c => ?_
  have hread : rawFrame (applyDelayPattern bocId eocId codes) t c =
      delayedRow bocId eocId codes (c + t) c :=
    congrFun (getD_map_range (by omega)) c
  rw [getElem_reverseDelayPattern hframe, hread, delayedRow, if_neg (by omega),
    if_pos (by omega), Nat.add_sub_cancel_left, getD_eq_getElem?_getD, getElem?_eq_getElem ht]
  rfl

/-- The rows of codes without an end in codebook 0 have it first after the last of them. -/
theorem rawFrames_apply {codes : List (CodeRow N)} (hends : ∀ row ∈ codes, row 0 ≠ eocId) :
    rawFrames eocId (applyDelayPattern bocId eocId codes) = codes.length := by
  have hN := Nat.pos_of_neZero N
  have hlength := length_applyDelayPattern bocId eocId codes
  have hrow (r : ℕ) (hr : r < codes.length) :
      decide (delayedRow bocId eocId codes r 0 = eocId) = false := by
    rw [delayedRow, if_neg (by simp), if_pos (by simpa using hr), Fin.val_zero, Nat.sub_zero,
      getD_eq_getElem?_getD, getElem?_eq_getElem hr]
    exact decide_eq_false (hends codes[r] (getElem_mem hr))
  rcases Nat.lt_or_ge 1 N with hmany | hone
  · refine (findIdx_eq (by omega)).2 ⟨?_, fun r hr => ?_⟩
    · rw [getElem_applyDelayPattern, delayedRow, if_neg (by simp), if_neg (by simp)]
      exact decide_eq_true rfl
    · rw [getElem_applyDelayPattern]
      exact hrow r hr
  · refine (findIdx_eq_length.2 fun row hmem => ?_).trans (by omega)
    obtain ⟨r, hr, rfl⟩ := getElem_of_mem hmem
    rw [getElem_applyDelayPattern]
    exact hrow r (by omega)

/-- What the mask selects. -/
theorem mask_iff {delayed : List (CodeRow N)} {r : ℕ} :
    delayPatternActionMask eocId delayed r c = true ↔ c ≤ r ∧ r - c < rawFrames eocId delayed := by
  rw [delayPatternActionMask, Bool.and_eq_true, decide_eq_true_iff, decide_eq_true_iff]
  omega

/-- Codes come back from their rows. The mask of the rows of codes without an end in codebook 0
selects what is read from them. It selects everything after the ramp of rows without such an end. -/
theorem delay_pattern_round_trip (bocId eocId : ℤ) :
    (∀ codes : List (CodeRow N), codes ≠ [] →
      reverseDelayPattern (applyDelayPattern bocId eocId codes) = codes) ∧
    (∀ codes : List (CodeRow N), codes ≠ [] → (∀ row ∈ codes, row 0 ≠ eocId) → ∀ r (c : Fin N),
      let delayed := applyDelayPattern bocId eocId codes
      (delayPatternActionMask eocId delayed r c = true ↔ c ≤ r ∧ r - c < codes.length) ∧
        (delayPatternActionMask eocId delayed r c = true ↔ ReadByReverse delayed r c)) ∧
    ∀ delayed : List (CodeRow N), (∀ row ∈ delayed, row 0 ≠ eocId) → ∀ r < delayed.length,
      ∀ c : Fin N, (delayPatternActionMask eocId delayed r c = true ↔ c ≤ r) ∧
        (ReadByReverse delayed r c → delayPatternActionMask eocId delayed r c = true) := by
  refine ⟨fun codes hcodes => reverse_apply codes hcodes, fun codes hcodes hends r c => ?_,
    fun delayed hends r hr c => ?_⟩
  · dsimp only
    rw [mask_iff, rawFrames_apply hends, ReadByReverse, length_reverse_apply codes hcodes]
    refine ⟨Iff.rfl, fun h => ⟨r - c, h.2, by omega⟩, ?_⟩
    omega
  · have hraw : rawFrames eocId delayed = delayed.length :=
      findIdx_eq_length.2 fun row hmem => decide_eq_false (hends row hmem)
    rw [mask_iff, hraw]
    refine ⟨by omega, ?_⟩
    rintro ⟨t, -, rfl⟩
    omega

/-- Two frames of three codebooks. -/
theorem delay_pattern_round_trip_two :
    let codes : List (CodeRow 3) := [fun c => c, fun c => c + 7]
    reverseDelayPattern (applyDelayPattern 1024 1025 codes) = codes := by
  intro codes
  exact (delay_pattern_round_trip 1024 1025).1 codes (by simp [codes])

/-- Two rows that the sampler emits before the end of the codes. The mask selects a position of
the last row that is not read. -/
theorem mask_selects_unread :
    let delayed := emittedRows 1024 1025 (fun _ (c : Fin 2) => (c : ℤ)) 2
    (∀ row ∈ delayed, row 0 ≠ 1025) ∧ delayPatternActionMask 1025 delayed 1 0 = true ∧
      ¬ReadByReverse delayed 1 0 := by
  refine ⟨by decide, by decide, ?_⟩
  rintro ⟨t, ht, h⟩
  simp only [reverseDelayPattern, emittedRows, length_map, length_range] at ht
  omega

end Omni.Tts
