import Mathlib.Data.List.Range
import Mathlib.Data.List.SplitBy
import Omni.Tts.DelayPattern

/-!
# The wind-down of the delay pattern

The rows of a MOSS-TTS request from the start of its audio to the end of it, and the codes that
`request_builders.py` and `codec.py` make of them.
-/

namespace Omni.Tts

open List DelayModel

/-- `assistant_prefix_rows` of `_initialize_generation_state`. -/
def assistantPrefixRows (imStart : ℕ) (promptRows : List (List ℕ)) : List (List ℕ) :=
  let assistantStartIdx := match lastEqual promptRows imStart with
    | none => 2
    | some i => i + 3
  promptRows.drop (min assistantStartIdx promptRows.length)

/-- `reverse_delay_pattern`, with `allow_short`. -/
def MossAudio.reverseDelayPattern (n : ℕ) (delayed : List (List ℕ)) : List (List ℕ) :=
  (range (delayed.length - (n - 1))).map fun t =>
    (range n).map fun c => (delayed.getD (t + c) []).getD c 0

/-- `split_moss_audio_segments`. -/
def splitMossAudioSegments (n audioPadCode assistantStartLength : ℕ)
    (delayedAudioCodes : List (List ℕ)) : List (List (List ℕ)) :=
  let audioCodes := MossAudio.reverseDelayPattern n delayedAudioCodes
  let nonPad (frame : List ℕ) : Bool :=
    !(frame.all (· = audioPadCode)) && frame.all (· < audioPadCode)
  let idx := (range audioCodes.length).filter fun t => nonPad (audioCodes.getD t [])
  let codeSegments := (idx.splitBy fun t u => u = t + 1).map fun segment =>
    segment.map fun t => audioCodes.getD t []
  if 0 < assistantStartLength then
    match codeSegments with
    | [] => []
    | first :: rest => (first.drop assistantStartLength :: rest).filter (· ≠ [])
  else codeSegments

namespace DelayModel

variable {E L P : Type} (m : DelayModel E L P)

/-- `_resolve_audio_payload_bounds`. The rows of a tensor have `n_vq + 1` columns. -/
def resolveAudioPayloadBounds (rows : List (List ℕ)) : Option (ℕ × ℕ) := do
  let start ← match rows.findIdx? fun row => rowText row = m.audioStart with
    | some bos => some (bos + 1)
    | none => rows.findIdx? fun row => rowText row = m.genSlot
  let last ← match (rows.drop start).findIdx? fun row => rowText row = m.audioEnd with
    | some eos => some (start + eos)
    | none => ([m.genSlot, m.delaySlot].filterMap fun id =>
        (lastEqual (rows.drop start) id).map fun i => start + i + 1).max?
  if last ≤ start ∨ last ≤ start + m.nVq then none else some (start, last)

/-- `delayed_audio_codes` and `assistant_start_length` after `apply_sglang_moss_tts_result`. -/
def applyResult (prefixRows : List (List ℕ)) (data : DelayData E) : List (List ℕ) × ℕ :=
  if data.outputRows = [] then ([], prefixRows.length)
  else
    let rows := prefixRows ++ data.outputRows
    match m.resolveAudioPayloadBounds rows with
    | none => (rows.map tail, prefixRows.length)
    | some (start, last) => (((rows.take last).drop start).map tail, 0)

/-- The segments that the vocoder is given. -/
def audioSegments (imStart : ℕ) (request : DelayRequest P) (data : DelayData E) :
    List (List (List ℕ)) :=
  let result := m.applyResult (assistantPrefixRows imStart request.promptRows) data
  splitMossAudioSegments m.nVq m.audioPadCode result.2 result.1

/-- What the sampler returns for a codebook, if it is asked. -/
def sampledCode (request : DelayRequest P) (data : DelayData E) (channel : ℕ) : ℕ :=
  m.sampleTokens request.audioParams request.samplingSeed
    (data.generationSteps * (m.nVq + 1) + (channel + 1))
    (m.penalize request.audioParams (audioHistory request data channel)
      (maskTokens (fun t => t < m.audioPadCode) (m.audioLogits data.kv channel)))

end DelayModel

/-- The steps of a request in any batches. What is fed between them is open. -/
structure DelayRun {E L P : Type} (m : DelayModel E L P) (request : DelayRequest P) where
  data : ℕ → DelayData E
  /-- The request at a step, with the input of the step. -/
  input : ℕ → DelayData E
  isAudio : ℕ → Bool
  isChunked : ℕ → Bool
  starts : data 0 = m.initData request
  feeds : ∀ n, ∃ queue kv decodeInputs, input n = { data n with
    pendingFeedbackQueue := queue, kv := kv, decodeInputs := decodeInputs }
  batch : ∀ n, isAudio n = true → (data n).isAudio = true
  collects : ∀ n, data (n + 1) = m.collect request (isAudio n) (isChunked n) (input n)

variable {E L P : Type} {m : DelayModel E L P} {request : DelayRequest P}

namespace DelayRun

/-- The request alone. -/
def alone (m : DelayModel E L P) (request : DelayRequest P) : DelayRun m request where
  data := m.alone request
  input
    | 0 => m.prefillInput request 0 request.promptRows.length (m.initData request)
    | n + 1 => m.decodeInput (m.alone request (n + 1))
  isAudio n := (m.alone request n).isAudio
  isChunked _ := false
  starts := rfl
  feeds
    | 0 => ⟨_, _, _, rfl⟩
    | _ + 1 => ⟨_, _, _, rfl⟩
  batch _ h := h
  collects
    | 0 => rfl
    | _ + 1 => rfl

variable (run : DelayRun m request)

/-- The text token of a step. -/
def text (n : ℕ) : ℕ := m.nextText request (run.input n) (run.isAudio n)

/-- The row of a step. -/
def row (n : ℕ) : List ℕ := run.text n :: (range m.nVq).map (m.nextAudio request (run.input n))

/-- The code sampled for a codebook in a step. -/
def sampled (n channel : ℕ) : ℕ := m.sampledCode request (run.input n) channel

theorem delayStateTensor_input (n : ℕ) :
    delayStateTensor (run.input n) = delayStateTensor (run.data n) := by
  obtain ⟨_, _, _, hinput⟩ := run.feeds n
  rw [hinput]
  rfl

/-- The flag on the host agrees with the delay state in every step. -/
theorem agrees_input : ∀ n, Agrees (run.input n)
  | 0 => by
    obtain ⟨_, _, _, hinput⟩ := run.feeds 0
    rw [hinput, run.starts]
    rfl
  | n + 1 => by
    have hdata : Agrees (run.data (n + 1)) := run.collects n ▸ (agrees_input n).collect _ _
    obtain ⟨_, _, _, hinput⟩ := run.feeds (n + 1)
    rw [hinput]
    exact hdata

/-- What a step records. -/
theorem outputRows_succ (n : ℕ) : (run.data (n + 1)).outputRows =
    if run.text n = m.imEnd then (run.data n).outputRows
    else (run.data n).outputRows ++ [run.row n] := by
  obtain ⟨_, _, _, hinput⟩ := run.feeds n
  have hrows : (run.input n).outputRows = (run.data n).outputRows := by rw [hinput]
  rw [run.collects, ← hrows]
  rfl

theorem delayStateTensor_succ (n : ℕ) : delayStateTensor (run.data (n + 1)) =
    m.nextState (delayStateTensor (run.data n)) (run.text n) := by
  rw [run.collects, ← delayStateTensor_input]
  rfl

end DelayRun

/-- The delay state before a step, if the first delay slot is sampled in step `T`. -/
def windState (T n : ℕ) : DelayState := ⟨n + 1, if n ≤ T then none else some (n - T), true⟩

theorem lastEqual_concat (rows : List (List ℕ)) (row : List ℕ) :
    lastEqual (rows ++ [row]) (rowText row) = some rows.length := by
  rw [lastEqual, length_append, length_singleton, range_succ, filter_append]
  simp

/-- The prompt ends with the start of its only audio. -/
structure StartsAudio (m : DelayModel E L P) (request : DelayRequest P)
    (before : List (List ℕ)) (last : List ℕ) : Prop where
  rows : request.promptRows = before ++ [last]
  last : rowText last = m.audioStart
  only : ∀ row ∈ before, rowText row ≠ m.audioStart

section Wind

variable {before : List (List ℕ)} {last : List ℕ} {T n : ℕ}

theorem StartsAudio.initData (h : StartsAudio m request before last) :
    delayStateTensor (m.initData request) = windState T 0 := by
  have hstart : lastEqual request.promptRows m.audioStart = some before.length := by
    rw [h.rows, ← h.last, lastEqual_concat]
  have hlast : request.promptRows.getLast?.map rowText = some m.audioStart := by
    rw [h.rows, getLast?_concat, Option.map_some, h.last]
  have hlength : request.promptRows.length - before.length = 1 := by
    rw [h.rows, length_append, length_singleton]
    omega
  simp [delayStateTensor, DelayModel.initData, hstart, hlast, hlength, windState]

/-- One more row of the audio. -/
theorem nextState_windState (hnVq : 1 ≤ m.nVq) (hn : n < T + m.nVq) :
    m.nextState (windState T n) (if n < T then m.genSlot else m.delaySlot) =
      windState T (n + 1) := by
  obtain ⟨_, hge, hgi, _, hde, hdi, _, _, hgd⟩ := m.special_ne
  rcases Nat.lt_trichotomy n T with hlt | rfl | hgt
  · have hle : n + 1 ≤ T := hlt
    simp [nextState, windState, aboveNVq, hlt, hlt.le, hle, hge, hgi, hgd]
  · simp [nextState, windState, aboveNVq, hde, hdi, Nat.not_lt.mpr hnVq]
  · have hnone : ¬n ≤ T := by omega
    have hnone' : ¬n + 1 ≤ T := by omega
    have hdelayed : n - T ≠ m.nVq := by omega
    have hnext : ¬m.nVq < n - T + 1 := by omega
    have hsucc : n + 1 - T = n - T + 1 := by omega
    simp [nextState, windState, aboveNVq, hgt.not_gt, hnone, hnone', hde,
      hdi, hdelayed, hnext, hsucc]

/-- The first delay slot of the audio is sampled in step `T`, and the sampler returns codes. -/
structure WindsDown (run : DelayRun m request) (T : ℕ) (before : List (List ℕ))
    (last : List ℕ) : Prop extends StartsAudio m request before last where
  nVq_pos : 1 ≤ m.nVq
  pos : 1 ≤ T
  first : ∀ i < T, run.text i ≠ m.delaySlot
  delay : run.text T = m.delaySlot
  codes : ∀ i < T + m.nVq, ∀ c < m.nVq, run.sampled i c < m.audioPadCode

variable {run : DelayRun m request}

/-- The text token of a row of the audio. -/
theorem WindsDown.text_of_state (h : WindsDown run T before last)
    (hstate : delayStateTensor (run.data n) = windState T n) (hn : n < T + m.nVq) :
    run.text n = if n < T then m.genSlot else m.delaySlot := by
  rw [← run.delayStateTensor_input] at hstate
  rcases Nat.lt_trichotomy n T with hlt | rfl | hgt
  · rw [if_pos hlt]
    have hnone : (delayStateTensor (run.input n)).delayed ≠ some m.nVq := by
      simp [hstate, windState, hlt.le]
    exact (nextText_audio (run.agrees_input n) (hstate ▸ rfl) hnone
      (run.isAudio n)).resolve_right (h.first n hlt)
  · rw [if_neg n.lt_irrefl, h.delay]
  · rw [if_neg hgt.not_gt]
    have hnone : ¬n ≤ T := by omega
    have hdelayed : n - T ≠ m.nVq := by omega
    have habove : ¬m.nVq < n - T := by omega
    simp [DelayRun.text, nextText, hstate, windState, aboveNVq, hnone, hdelayed, habove]

/-- All rows up to the end of the audio. -/
theorem WindsDown.states (h : WindsDown run T before last) :
    ∀ n ≤ T + m.nVq, delayStateTensor (run.data n) = windState T n ∧
      (run.data n).outputRows = (range n).map run.row := by
  intro n
  induction n with
  | zero => exact fun _ => ⟨run.starts ▸ h.toStartsAudio.initData, by rw [run.starts]; rfl⟩
  | succ n ih =>
    intro hn
    obtain ⟨hstate, hrows⟩ := ih (by omega)
    have htext := h.text_of_state hstate hn
    have hend : run.text n ≠ m.imEnd := by
      obtain ⟨_, _, hgi, _, _, hdi, _⟩ := m.special_ne
      rw [htext]
      split
      · exact hgi
      · exact hdi
    refine ⟨?_, ?_⟩
    · rw [run.delayStateTensor_succ, hstate, htext, nextState_windState h.nVq_pos hn]
    · rw [run.outputRows_succ, if_neg hend, hrows, range_succ, map_append, map_singleton]

theorem WindsDown.nextAudio (h : WindsDown run T before last) {t c : ℕ} (ht : t ≤ T)
    (hc : c < m.nVq) : m.nextAudio request (run.input (t + c)) c = run.sampled (t + c) c := by
  have hstate := (h.states (t + c) (by omega)).1
  rw [← run.delayStateTensor_input] at hstate
  have hpre : c < t + c + 1 := by omega
  have hpost : t + c - T ≤ c := by omega
  unfold DelayRun.sampled sampledCode DelayModel.nextAudio
  rw [hstate, windState]
  by_cases hle : t + c ≤ T
  · simp [hle, hpre]
  · simp [hle, hpre, hpost]

theorem WindsDown.rows_prefix (h : WindsDown run T before last) (hn : T + m.nVq < n) :
    (range (T + m.nVq)).map run.row ++ [run.row (T + m.nVq)] <+: (run.data n).outputRows ∧
      rowText (run.row (T + m.nVq)) = m.audioEnd := by
  obtain ⟨hstate, hrows⟩ := h.states _ le_rfl
  have htext : run.text (T + m.nVq) = m.audioEnd := by
    refine nextText_end ?_ _
    rw [run.delayStateTensor_input, hstate, windState]
    simp only [Nat.not_le.mpr (Nat.lt_add_of_pos_right h.nVq_pos : T < T + m.nVq), if_false,
      Nat.add_sub_cancel_left]
  refine ⟨?_, htext⟩
  induction n, hn using Nat.le_induction with
  | base =>
    have hne : m.audioEnd ≠ m.imEnd := by
      simpa using m.distinct.of_cons.of_cons.of_cons
    simp [run.outputRows_succ, htext, hne, hrows]
  | succ n _ ih =>
    rw [run.outputRows_succ]
    split
    · exact ih
    · exact ih.trans (prefix_append _ _)

/-- The rows that the assistant starts with end with the start of the audio, if there are any. -/
theorem StartsAudio.prefixRows (h : StartsAudio m request before last) (imStart : ℕ)
    (hne : assistantPrefixRows imStart request.promptRows ≠ []) :
    ∃ k, assistantPrefixRows imStart request.promptRows = before.drop k ++ [last] := by
  unfold assistantPrefixRows at hne ⊢
  dsimp only at hne ⊢
  generalize min (_ : ℕ) _ = k at hne ⊢
  rw [h.rows] at hne ⊢
  have hk : k ≤ before.length := by
    by_contra hgt
    refine hne (drop_eq_nil_of_le ?_)
    rw [length_append, length_singleton]
    omega
  exact ⟨k, drop_append_of_le_length hk⟩

theorem resolveAudioPayloadBounds_eq {prefixRows rows rest : List (List ℕ)} {final : List ℕ}
    (hopening : (∃ first, prefixRows = first ++ [last] ∧ rowText last = m.audioStart ∧
        ∀ row ∈ first, rowText row ≠ m.audioStart) ∨
      prefixRows = [] ∧ ∀ row ∈ rows ++ final :: rest, rowText row ≠ m.audioStart)
    (hhead : ∃ row ∈ rows.head?, rowText row = m.genSlot)
    (hrows : ∀ row ∈ rows, rowText row ≠ m.audioEnd) (hfinal : rowText final = m.audioEnd)
    (hlength : m.nVq < rows.length) :
    m.resolveAudioPayloadBounds (prefixRows ++ (rows ++ final :: rest)) =
      some (prefixRows.length, prefixRows.length + rows.length) := by
  have hend : (rows ++ final :: rest).findIdx? (fun row => rowText row = m.audioEnd) =
      some rows.length := by
    rw [findIdx?_append, findIdx?_eq_none_iff.mpr (by simpa using hrows), findIdx?_cons]
    simp [hfinal]
  have hbounds : ¬(prefixRows.length + rows.length ≤ prefixRows.length ∨
      prefixRows.length + rows.length ≤ prefixRows.length + m.nVq) := by omega
  unfold resolveAudioPayloadBounds
  rcases hopening with ⟨first, rfl, hlast, hfirst⟩ | ⟨rfl, hnone⟩
  · have hstart : (first ++ [last] ++ (rows ++ final :: rest)).findIdx?
        (fun row => rowText row = m.audioStart) = some first.length := by
      rw [append_assoc, findIdx?_append, findIdx?_eq_none_iff.mpr (by simpa using hfirst),
        singleton_append, findIdx?_cons]
      simp [hlast]
    have hdrop : (first ++ [last] ++ (rows ++ final :: rest)).drop (first.length + 1) =
        rows ++ final :: rest := by
      rw [drop_left' (by simp)]
    rw [length_append, length_singleton] at hbounds ⊢
    simp only [hstart, hdrop, hend, Option.bind_eq_bind, Option.bind_some, if_neg hbounds]
  · obtain ⟨row, hrow, hgen⟩ := hhead
    have hstart : (rows ++ final :: rest).findIdx? (fun row => rowText row = m.genSlot) =
        some 0 := by
      cases rows with
      | nil => cases hrow
      | cons head rows =>
        cases hrow
        rw [cons_append, findIdx?_cons]
        simp [hgen]
    have hstart' : (rows ++ final :: rest).findIdx?
        (fun row => rowText row = m.audioStart) = none :=
      findIdx?_eq_none_iff.mpr (by simpa using hnone)
    simp only [nil_append, length_nil, Nat.zero_add] at hbounds ⊢
    simp only [hstart, hstart', drop_zero, hend, Option.bind_eq_bind, Option.bind_some,
      if_neg hbounds, Nat.zero_add]

/-- The codes of a frame, taken from the rows of their codebooks. -/
theorem MossAudio.reverseDelayPattern_map (k N : ℕ) (f : ℕ → ℕ → ℕ) (hN : 1 ≤ N) :
    MossAudio.reverseDelayPattern N ((range (k + N)).map fun i => (range N).map (f i)) =
      (range (k + 1)).map fun t => (range N).map fun c => f (t + c) c := by
  unfold MossAudio.reverseDelayPattern
  rw [length_map, length_range, show k + N - (N - 1) = k + 1 by omega]
  refine map_congr_left fun t ht => map_congr_left fun c hc => ?_
  rw [mem_range] at ht hc
  have hrow : t + c < k + N := by omega
  simp [hrow, hc]

theorem splitMossAudioSegments_single {N pad : ℕ} {codes : List (List ℕ)}
    (hne : MossAudio.reverseDelayPattern N codes ≠ [])
    (hcodes : ∀ frame ∈ MossAudio.reverseDelayPattern N codes,
      frame ≠ [] ∧ ∀ code ∈ frame, code < pad) :
    splitMossAudioSegments N pad 0 codes = [MossAudio.reverseDelayPattern N codes] := by
  unfold splitMossAudioSegments
  generalize MossAudio.reverseDelayPattern N codes = frames at hne hcodes
  have hget : ∀ t < frames.length, frames.getD t [] ∈ frames := by
    intro t ht
    rw [getD_eq_getElem?_getD, getElem?_eq_getElem ht, Option.getD_some]
    exact getElem_mem ht
  have hidx : ((range frames.length).filter fun t =>
      !((frames.getD t []).all (· = pad)) && (frames.getD t []).all (· < pad)) =
        range frames.length := by
    refine filter_eq_self.mpr fun t ht => ?_
    obtain ⟨hframe, hlt⟩ := hcodes _ (hget t (mem_range.mp ht))
    obtain ⟨code, hcode⟩ := exists_mem_of_ne_nil _ hframe
    rw [Bool.and_eq_true, Bool.not_eq_true', all_eq_false]
    exact ⟨⟨code, hcode, by simpa using (hlt code hcode).ne⟩, all_eq_true.mpr (by simpa using hlt)⟩
  have hchain : (range frames.length).IsChain fun t u => decide (u = t + 1) = true := by
    rw [isChain_range]
    exact fun _ _ => by simp
  have hrange : range frames.length ≠ [] := by simpa using hne
  dsimp only
  rw [hidx, splitBy_of_isChain hrange hchain, map_singleton, if_neg (Nat.lt_irrefl 0)]
  congr 1
  exact ext_getElem (by simp) fun t _ ht => by simp [getElem?_eq_getElem ht]

theorem WindsDown.text_ne_end (h : WindsDown run T before last) :
    ∀ row ∈ (range (T + m.nVq)).map run.row, rowText row ≠ m.audioEnd := by
  obtain ⟨_, hge, _, _, hde, _⟩ := m.special_ne
  intro row hrow
  obtain ⟨i, hi, rfl⟩ := mem_map.mp hrow
  rw [mem_range] at hi
  change run.text i ≠ m.audioEnd
  rw [h.text_of_state (h.states i hi.le).1 hi]
  split
  · exact hge
  · exact hde

/-- The delayed codes are those of the rows of the audio. -/
theorem WindsDown.applyResult (h : WindsDown run T before last) (hn : T + m.nVq < n)
    (imStart : ℕ) (hstart : assistantPrefixRows imStart request.promptRows ≠ [] ∨
      ∀ row ∈ (run.data n).outputRows, rowText row ≠ m.audioStart) :
    m.applyResult (assistantPrefixRows imStart request.promptRows) (run.data n) =
      ((range (T + m.nVq)).map fun i => (range m.nVq).map (m.nextAudio request (run.input i)),
        0) := by
  obtain ⟨⟨rest, hrest⟩, hend⟩ := h.rows_prefix hn
  have hpos : 0 < T + m.nVq := Nat.add_pos_left h.pos _
  rw [append_assoc, singleton_append] at hrest
  have hhead : ∃ row ∈ ((range (T + m.nVq)).map run.row).head?, rowText row = m.genSlot := by
    refine ⟨run.row 0, ?_, (h.text_of_state (h.states 0 hpos.le).1 hpos).trans (if_pos h.pos)⟩
    rw [head?_map, head?_range, if_neg hpos.ne']
    rfl
  have hopening : (∃ first, assistantPrefixRows imStart request.promptRows = first ++ [last] ∧
        rowText last = m.audioStart ∧ ∀ row ∈ first, rowText row ≠ m.audioStart) ∨
      assistantPrefixRows imStart request.promptRows = [] ∧
        ∀ row ∈ (range (T + m.nVq)).map run.row ++ run.row (T + m.nVq) :: rest,
          rowText row ≠ m.audioStart := by
    by_cases hnil : assistantPrefixRows imStart request.promptRows = []
    · exact Or.inr ⟨hnil, hrest ▸ hstart.resolve_left (not_not_intro hnil)⟩
    · obtain ⟨k, hk⟩ := h.prefixRows imStart hnil
      exact Or.inl ⟨_, hk, h.last, fun row hrow => h.only row (mem_of_mem_drop hrow)⟩
  have hbounds := resolveAudioPayloadBounds_eq hopening hhead h.text_ne_end hend
    (by rw [length_map, length_range]; exact Nat.lt_add_of_pos_left h.pos)
  have hsome : (run.data n).outputRows ≠ [] := by simp [← hrest]
  unfold DelayModel.applyResult
  rw [if_neg hsome, ← hrest]
  dsimp only
  rw [hbounds]
  dsimp only
  rw [take_length_add_append, drop_left, take_left' rfl, map_map]
  rfl

/-- The frames are those of the codes as they were sampled. -/
theorem WindsDown.reverseDelayPattern (h : WindsDown run T before last) :
    MossAudio.reverseDelayPattern m.nVq
        ((range (T + m.nVq)).map fun i => (range m.nVq).map (m.nextAudio request (run.input i))) =
      (range (T + 1)).map fun t => (range m.nVq).map fun c => run.sampled (t + c) c := by
  rw [MossAudio.reverseDelayPattern_map T m.nVq (fun i => m.nextAudio request (run.input i))
    h.nVq_pos]
  exact map_congr_left fun t ht => map_congr_left fun c hc =>
    h.nextAudio (Nat.lt_succ_iff.mp (mem_range.mp ht)) (mem_range.mp hc)

/-- Until the audio ends there are `T + n_vq` rows, and with an assistant prefix, or without a
second start of audio, the codes are one segment of the codes sampled for them. -/
theorem audioSegments_windDown (h : WindsDown run T before last) (hn : T + m.nVq < n)
    (imStart : ℕ) :
    (run.data n).outputRows.findIdx? (fun row => rowText row = m.audioEnd) = some (T + m.nVq) ∧
    (∀ t ≤ T, ∀ c < m.nVq,
      ((run.data n).outputRows.getD (t + c) [])[c + 1]? = some (run.sampled (t + c) c)) ∧
    (assistantPrefixRows imStart request.promptRows ≠ [] ∨
        (∀ row ∈ (run.data n).outputRows, rowText row ≠ m.audioStart) →
      m.audioSegments imStart request (run.data n) =
        [(range (T + 1)).map fun t => (range m.nVq).map fun c => run.sampled (t + c) c] ∧
      ∀ segment ∈ m.audioSegments imStart request (run.data n), ∀ frame ∈ segment,
        m.audioPadCode ∉ frame) := by
  have hframe : ∀ frame ∈ (range (T + 1)).map fun t =>
      (range m.nVq).map fun c => run.sampled (t + c) c,
        frame ≠ [] ∧ ∀ code ∈ frame, code < m.audioPadCode := by
    intro frame hframe
    obtain ⟨t, ht, rfl⟩ := mem_map.mp hframe
    refine ⟨by simpa using Nat.ne_of_gt h.nVq_pos, fun code hcode => ?_⟩
    obtain ⟨c, hc, rfl⟩ := mem_map.mp hcode
    rw [mem_range] at ht hc
    exact h.codes (t + c) (by omega) c hc
  obtain ⟨⟨rest, hrest⟩, hend⟩ := h.rows_prefix hn
  rw [append_assoc, singleton_append] at hrest
  refine ⟨?_, fun t ht c hc => ?_, fun hstart => ?_⟩
  · rw [← hrest, findIdx?_append, findIdx?_eq_none_iff.mpr (by simpa using h.text_ne_end),
      findIdx?_cons]
    simp [hend]
  · rw [← hrest, getD_eq_getElem?_getD, getElem?_append_left (by simp; omega), getElem?_map,
      getElem?_range (by omega), Option.map_some, Option.getD_some, DelayRun.row,
      getElem?_cons_succ, getElem?_map, getElem?_range hc, Option.map_some, h.nextAudio ht hc]
  · have hsegments : m.audioSegments imStart request (run.data n) =
        [(range (T + 1)).map fun t => (range m.nVq).map fun c => run.sampled (t + c) c] := by
      unfold audioSegments
      rw [h.applyResult hn imStart hstart]
      dsimp only
      rw [← h.reverseDelayPattern] at hframe ⊢
      exact splitMossAudioSegments_single (by simp [h.reverseDelayPattern]) hframe
    refine ⟨hsegments, ?_⟩
    rw [hsegments]
    intro segment hsegment frame hmem hpad
    rw [mem_singleton.mp hsegment] at hmem
    exact ((hframe frame hmem).2 _ hpad).false

end Wind

/-- A model of one codebook that samples what is listed for a position, if it is not masked. -/
def listedModel : DelayModel Unit Unit Unit where
  padTokenId := 0
  genSlot := 1
  delaySlot := 2
  audioStart := 3
  audioEnd := 4
  imEnd := 5
  audioPadCode := 9
  nVq := 1
  embed _ := ()
  zeros := ()
  textLogits _ := replicate 6 (some ())
  audioLogits _ _ := replicate 9 (some ())
  penalize _ _ logits := logits
  sampleTokens _ _ position logits :=
    let t := [1, 0, 2, 1, 0, 2, 3, 3, 1, 4, 1, 5, 2, 6].getD position 0
    if logits[t]? = some (some ()) then t else firstUnmasked logits
  distinct := nodup_slots
  genSlot_unmasked _ := ⟨(), rfl⟩
  sampleUnmasked := by
    rintro _ _ _ logits ⟨t, x, ht⟩
    dsimp only
    split
    next h => exact ⟨(), h⟩
    next => exact firstUnmasked_unmasked ht

/-- A prompt of three rows. -/
def threeRows : DelayRequest Unit := ⟨[[7, 9], [7, 9], [3, 9]], (), (), 0⟩

/-- The last row is the assistant prefix. -/
theorem audioSegments_windDown_three :
    listedModel.audioSegments 6 threeRows (listedModel.alone threeRows 8) = [[[0], [1]]] := by
  have h : WindsDown (.alone listedModel threeRows) 1 [[7, 9], [7, 9]] [3, 9] :=
    ⟨⟨rfl, rfl, by decide⟩, by decide, le_rfl, by decide +kernel, by decide +kernel,
      by decide +kernel⟩
  have hlt : 1 + listedModel.nVq < 8 := by decide
  exact ((audioSegments_windDown h hlt 6).2.2 (Or.inl (by decide))).1

/-- After a prompt of one row the bounds are those of the second audio. -/
theorem audioSegments_second_audio :
    ∃ run : DelayRun listedModel ⟨[[3, 9]], (), (), 0⟩, WindsDown run 1 [] [3, 9] ∧
      listedModel.audioSegments 6 ⟨[[3, 9]], (), (), 0⟩ (run.data 8) ≠
        [(range 2).map fun t => (range 1).map fun c => run.sampled (t + c) c] := by
  refine ⟨.alone listedModel _, ⟨⟨rfl, rfl, by decide⟩, by decide, le_rfl, by decide +kernel,
    by decide +kernel, by decide +kernel⟩, by decide +kernel⟩

end Omni.Tts
