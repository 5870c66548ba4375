import Mathlib.Data.List.Basic

/-!
# The delay pattern of MOSS-TTS

One step of `MossTTSModelRunner` for one row of a batch. The row is a text token and a code
for each codebook, and the delay state says which of them are forced, sampled or padding.
The forward pass and the sampler are parameters.
-/

namespace Omni.Tts

/-- The model, its sampler and its config. `sampleUnmasked` is what masking with minus infinity
is for, and the special tokens of a config are distinct. -/
structure DelayModel (E L P : Type) where
  padTokenId : ℕ
  genSlot : ℕ
  delaySlot : ℕ
  audioStart : ℕ
  audioEnd : ℕ
  imEnd : ℕ
  audioPadCode : ℕ
  nVq : ℕ
  /-- `_prepare_multi_modal_inputs` for one row. -/
  embed : List ℕ → E
  zeros : E
  /-- The text logits after the given input embeddings. -/
  textLogits : List E → List (Option L)
  /-- The logits of a codebook after the given input embeddings. -/
  audioLogits : List E → ℕ → List (Option L)
  /-- `_apply_audio_repetition_penalty` for one codebook, with its history. -/
  penalize : P → List ℕ → List (Option L) → List (Option L)
  /-- `_sample_tokens` for one row, with the parameters, the seed and the position. -/
  sampleTokens : P → ℕ → ℕ → List (Option L) → ℕ
  distinct : [genSlot, delaySlot, audioStart, audioEnd, imEnd].Nodup
  genSlot_unmasked : ∀ kv, ∃ x, (textLogits kv)[genSlot]? = some (some x)
  sampleUnmasked : ∀ (params : P) (seed position : ℕ) (logits : List (Option L)),
    (∃ t : ℕ, ∃ x, logits[t]? = some (some x)) →
      ∃ x, logits[sampleTokens params seed position logits]? = some (some x)

/-- Slots that satisfy the model. -/
theorem nodup_slots : [1, 2, 3, 4, 5].Nodup := by
  decide

/-- What a request brings along. -/
structure DelayRequest (P : Type) where
  promptRows : List (List ℕ)
  textParams : P
  audioParams : P
  samplingSeed : ℕ

/-- `delay_state`. The delay is `_INT64_MAX` when nothing is delayed. -/
structure DelayState where
  audioLength : ℕ
  delayed : Option ℕ
  isAudio : Bool
  deriving DecidableEq

/-- `MossTTSSGLangRequestData`. `kv` are the input embeddings whose keys and values are in the
KV cache, and `decodeInputs` and `delayStates` are kept from all steps. -/
structure DelayData (E : Type) where
  generationSteps : ℕ
  isAudio : Bool
  delayState : Option DelayState
  audioLength : ℕ
  outputRows : List (List ℕ)
  pendingFeedbackQueue : List E
  outputIds : List ℕ
  kv : List E
  decodeInputs : List E
  delayStates : List DelayState
  deriving DecidableEq

/-- The text token of a row. -/
def rowText (row : List ℕ) : ℕ := row.headD 0

/-- `_last_equal`, which is -1 if there is none. -/
def lastEqual (rows : List (List ℕ)) (value : ℕ) : Option ℕ :=
  ((List.range rows.length).filter fun i => (rows[i]?.map rowText) = some value).getLast?

/-- Mask the logits of some tokens. -/
def maskTokens {L : Type} (keep : ℕ → Bool) (logits : List (Option L)) : List (Option L) :=
  logits.mapIdx fun t x => if keep t then x else none

theorem maskTokens_getElem? {L : Type} (keep : ℕ → Bool) (logits : List (Option L)) (t : ℕ) :
    (maskTokens keep logits)[t]? = (logits[t]?).map fun x => if keep t then x else none := by
  simp [maskTokens]

theorem maskTokens_maskTokens {L : Type} (keep keep' : ℕ → Bool) (logits : List (Option L)) :
    maskTokens keep (maskTokens keep' logits) = maskTokens (fun t => keep t && keep' t) logits := by
  refine List.ext_getElem? fun t => ?_
  simp only [maskTokens_getElem?, Option.map_map]
  cases keep t <;> cases keep' t <;> rfl

/-- The first token that is not masked. -/
def firstUnmasked (logits : List (Option Unit)) : ℕ := logits.findIdx Option.isSome

theorem firstUnmasked_unmasked {logits : List (Option Unit)} {t : ℕ} {x : Unit}
    (ht : logits[t]? = some (some x)) : ∃ y, logits[firstUnmasked logits]? = some (some y) := by
  obtain ⟨hlt, heq⟩ := List.getElem?_eq_some_iff.mp ht
  have hfound : logits.findIdx Option.isSome < logits.length :=
    List.findIdx_lt_length_of_exists ⟨_, List.getElem_mem hlt, by simp [heq]⟩
  have hsome : (logits[logits.findIdx Option.isSome]).isSome = true := List.findIdx_getElem
  obtain ⟨y, hy⟩ := Option.isSome_iff_exists.mp hsome
  exact ⟨y, List.getElem?_eq_some_iff.mpr ⟨hfound, hy⟩⟩

namespace DelayModel

variable {E L P : Type} (m : DelayModel E L P)

/-- `_initialize_generation_state`, as far as the runner reads it. -/
def initData (request : DelayRequest P) : DelayData E :=
  let lastText := request.promptRows.getLast?.map rowText
  let isContinuation := lastText = some m.audioStart ∨ lastText = some m.genSlot
  let audioStartIdx := lastEqual request.promptRows m.audioStart
  let isAudio := decide isContinuation && audioStartIdx.isSome
  { generationSteps := 0
    isAudio := isAudio
    delayState := none
    audioLength := if isAudio then request.promptRows.length - audioStartIdx.getD 0 else 0
    outputRows := []
    pendingFeedbackQueue := []
    outputIds := []
    kv := []
    decodeInputs := []
    delayStates := [] }

/-- `_delay_state_tensor`. -/
def delayStateTensor (data : DelayData E) : DelayState :=
  data.delayState.getD ⟨data.audioLength, none, data.isAudio⟩

/-- `delayed > n_vq`. -/
def aboveNVq : Option ℕ → Bool
  | none => true
  | some d => m.nVq < d

/-- The text logits to sample from. In a batch of audio rows they are those of the two control
tokens, otherwise the masks depend on the row. -/
def textCandidates (isAudio audioMask : Bool) (genSteps : ℕ) (logits : List (Option L)) :
    List (Option L) :=
  let logits :=
    if isAudio || audioMask then
      maskTokens (fun t => t = m.genSlot || t = m.delaySlot) logits
    else
      maskTokens (fun t => t ∉ [m.padTokenId, m.genSlot, m.delaySlot, m.audioEnd]) logits
  let logits := if genSteps = 0 then maskTokens (fun t => t ≠ m.delaySlot) logits else logits
  if !isAudio && decide (genSteps ≤ m.nVq) then maskTokens (fun t => t ≠ m.imEnd) logits
  else logits

/-- The text token of the next row. -/
def nextText (request : DelayRequest P) (data : DelayData E) (isAudio : Bool) : ℕ :=
  let state := delayStateTensor data
  let audioMask := state.isAudio && decide (state.delayed ≠ some m.nVq)
  let sampling := if isAudio then audioMask && m.aboveNVq state.delayed
    else m.aboveNVq state.delayed
  if sampling then
    m.sampleTokens request.textParams request.samplingSeed (data.generationSteps * (m.nVq + 1))
      (m.textCandidates isAudio audioMask data.generationSteps (m.textLogits data.kv))
  else if state.delayed = some m.nVq then m.audioEnd
  else if m.aboveNVq state.delayed then m.padTokenId
  else m.delaySlot

/-- The codes that a codebook has had in the prompt and in the output. -/
def audioHistory (request : DelayRequest P) (data : DelayData E) (channel : ℕ) : List ℕ :=
  (request.promptRows ++ data.outputRows).filterMap fun row => row[channel + 1]?

/-- The code of a codebook in the next row. -/
def nextAudio (request : DelayRequest P) (data : DelayData E) (channel : ℕ) : ℕ :=
  let state := delayStateTensor data
  let preAudio := decide (channel < state.audioLength)
  let postAudio := match state.delayed with
    | none => true
    | some d => decide (d ≤ channel)
  if preAudio && postAudio then
    m.sampleTokens request.audioParams request.samplingSeed
      (data.generationSteps * (m.nVq + 1) + (channel + 1))
      (m.penalize request.audioParams (audioHistory request data channel)
        (maskTokens (fun t => t < m.audioPadCode) (m.audioLogits data.kv channel)))
  else m.audioPadCode

/-- The delay state after a row with the given text token. -/
def nextState (state : DelayState) (text : ℕ) : DelayState :=
  let audioMask := state.isAudio && decide (state.delayed ≠ some m.nVq)
  let audioLength := if text = m.audioStart ∨ text = m.genSlot ∨ text = m.delaySlot then
    state.audioLength + 1 else state.audioLength
  let delayed := if state.delayed = none ∧ text = m.delaySlot then some 0 else state.delayed
  let delayed := delayed.map (· + 1)
  { audioLength := if text = m.audioEnd then 0 else audioLength
    delayed := if m.aboveNVq delayed then none else delayed
    isAudio := (audioMask || text = m.audioStart) && decide (text ≠ m.imEnd) }

/-- `_sample_rows` for one request, `post_process_outputs`, `_finalize`, and the token that
`process_batch_result` appends unless the row is one of a chunk. -/
def collect (request : DelayRequest P) (isAudio isChunked : Bool) (data : DelayData E) :
    DelayData E :=
  let text := m.nextText request data isAudio
  let row := text :: (List.range m.nVq).map (m.nextAudio request data)
  let state := m.nextState (delayStateTensor data) text
  { data with
    generationSteps := data.generationSteps + 1
    isAudio := if text = m.audioStart then true
      else if text = m.audioEnd then false else data.isAudio
    delayState := some state
    delayStates := data.delayStates ++ [state]
    outputRows := if text = m.imEnd then data.outputRows else data.outputRows ++ [row]
    pendingFeedbackQueue := if text = m.imEnd then data.pendingFeedbackQueue
      else data.pendingFeedbackQueue ++ [m.embed row]
    outputIds := if isChunked then data.outputIds else data.outputIds ++ [text] }

/-- `_build_prefill_input_embeds` for one request. The cached prefix holds what was fed before. -/
def prefillInput (request : DelayRequest P) (prefixLen extendLen : ℕ) (data : DelayData E) :
    DelayData E :=
  { data with
    kv := (request.promptRows.map m.embed ++ data.decodeInputs).take prefixLen ++
      ((request.promptRows.drop prefixLen).take extendLen).map m.embed }

/-- `_write_decode_input_embedding` for one request. -/
def decodeInput (data : DelayData E) : DelayData E :=
  let input := data.pendingFeedbackQueue.headD m.zeros
  { data with
    pendingFeedbackQueue := data.pendingFeedbackQueue.tail
    decodeInputs := data.decodeInputs ++ [input]
    kv := data.kv ++ [input] }

/-- The request alone: its prompt is prefilled at once, and then it decodes. -/
def alone (request : DelayRequest P) : ℕ → DelayData E
  | 0 => m.initData request
  | 1 =>
    let data := m.prefillInput request 0 request.promptRows.length (m.initData request)
    m.collect request data.isAudio false data
  | n + 2 =>
    let data := m.decodeInput (alone request (n + 1))
    m.collect request data.isAudio false data

section Row

variable {m} {request : DelayRequest P} {data : DelayData E}

/-- The flag that the runner keeps on the host agrees with the delay state. -/
def Agrees (data : DelayData E) : Prop := data.isAudio = (delayStateTensor data).isAudio

theorem special_ne (m : DelayModel E L P) : m.genSlot ≠ m.audioStart ∧ m.genSlot ≠ m.audioEnd ∧
    m.genSlot ≠ m.imEnd ∧ m.delaySlot ≠ m.audioStart ∧ m.delaySlot ≠ m.audioEnd ∧
      m.delaySlot ≠ m.imEnd ∧ m.audioStart ≠ m.audioEnd ∧ m.audioStart ≠ m.imEnd ∧
        m.genSlot ≠ m.delaySlot := by
  have hdistinct := m.distinct
  simp only [List.nodup_cons, List.mem_cons, not_or, List.not_mem_nil, not_false_eq_true,
    List.nodup_nil, and_true] at hdistinct
  tauto

/-- An audio row has the same candidates in a batch of audio rows and in any other batch. -/
theorem textCandidates_audio (m : DelayModel E L P) (genSteps : ℕ) (logits : List (Option L)) :
    m.textCandidates false true genSteps logits = m.textCandidates true true genSteps logits := by
  obtain ⟨_, _, hgen, _, _, hdelay, _⟩ := m.special_ne
  unfold textCandidates
  simp only [Bool.false_or, Bool.true_or, if_true, Bool.not_false, Bool.true_and, Bool.not_true,
    Bool.false_and, Bool.false_eq_true, if_false]
  split
  · -- The end token is masked twice.
    have htwice : ∀ keep : ℕ → Bool, (∀ t, keep t = true → t ≠ m.imEnd) →
        maskTokens (fun t => t ≠ m.imEnd) (maskTokens keep logits) = maskTokens keep logits := by
      intro keep hkeep
      rw [maskTokens_maskTokens]
      congr 1
      funext t
      cases hk : keep t with
      | false => simp
      | true => simpa using hkeep t hk
    have hcontrol : ∀ t, (decide (t = m.genSlot) || decide (t = m.delaySlot)) = true →
        t ≠ m.imEnd := by
      intro t ht
      rcases Bool.or_eq_true_iff.mp ht with ht | ht
      · exact of_decide_eq_true ht ▸ hgen
      · exact of_decide_eq_true ht ▸ hdelay
    split
    · rw [maskTokens_maskTokens (fun t => decide (t ≠ m.delaySlot))]
      exact htwice _ fun t ht => hcontrol t (Bool.and_eq_true_iff.mp ht).2
    · exact htwice _ hcontrol
  · rfl

/-- A row of an audio request does not depend on the kind of its batch. -/
theorem nextText_of_agrees (hagrees : Agrees data) (hisAudio : data.isAudio = true) :
    m.nextText request data false = m.nextText request data true := by
  have hstate : (delayStateTensor data).isAudio = true := hagrees ▸ hisAudio
  unfold nextText
  simp only [hstate, Bool.true_and, Bool.false_eq_true, if_false, if_true]
  by_cases heos : (delayStateTensor data).delayed = some m.nVq
  · simp [heos, aboveNVq]
  · simp only [heos, ne_eq, not_false_eq_true, decide_true, Bool.true_and, textCandidates_audio]

/-- The text token of an audio row that is sampled is one of the control tokens. -/
theorem textCandidates_control {t : ℕ} {x : L} {genSteps : ℕ} {logits : List (Option L)}
    (ht : (m.textCandidates true true genSteps logits)[t]? = some (some x)) :
    t = m.genSlot ∨ t = m.delaySlot := by
  have hmask : ∀ keep : ℕ → Bool, (maskTokens keep logits)[t]? = some (some x) → keep t = true := by
    intro keep hkeep
    rw [maskTokens_getElem?] at hkeep
    obtain ⟨y, _, hy⟩ := Option.map_eq_some_iff.mp hkeep
    by_contra hnot
    simp [hnot] at hy
  unfold textCandidates at ht
  simp only [Bool.true_or, if_true, Bool.not_true, Bool.false_and, Bool.false_eq_true,
    if_false] at ht
  have hcontrol : (decide (t = m.genSlot) || decide (t = m.delaySlot)) = true := by
    split at ht
    · rw [maskTokens_maskTokens] at ht
      exact (Bool.and_eq_true_iff.mp (hmask _ ht)).2
    · exact hmask _ ht
  simpa using hcontrol

theorem genSlot_candidate (kv : List E) (genSteps : ℕ) :
    ∃ t : ℕ, ∃ x, (m.textCandidates true true genSteps (m.textLogits kv))[t]? = some (some x) := by
  obtain ⟨x, hx⟩ := m.genSlot_unmasked kv
  refine ⟨m.genSlot, x, ?_⟩
  have hne := m.special_ne.2.2.2.2.2.2.2.2
  unfold textCandidates
  simp only [Bool.true_or, if_true, Bool.not_true, Bool.false_and, Bool.false_eq_true, if_false]
  split
  · simp [maskTokens_getElem?, hx, hne]
  · simp [maskTokens_getElem?, hx]

/-- Until the audio is over the text token of an audio row is one of the control tokens. -/
theorem nextText_audio (hagrees : Agrees data) (hstate : (delayStateTensor data).isAudio = true)
    (heos : (delayStateTensor data).delayed ≠ some m.nVq) (isAudio : Bool) :
    m.nextText request data isAudio = m.genSlot ∨
      m.nextText request data isAudio = m.delaySlot := by
  have hsame : m.nextText request data isAudio = m.nextText request data true := by
    cases isAudio with
    | true => rfl
    | false => exact nextText_of_agrees hagrees (hagrees.trans hstate)
  rw [hsame]
  unfold nextText
  simp only [hstate, heos, ne_eq, not_false_eq_true, decide_true, Bool.and_true, Bool.true_and,
    if_true, if_false]
  split
  · obtain ⟨x, hx⟩ := m.sampleUnmasked request.textParams request.samplingSeed
      (data.generationSteps * (m.nVq + 1)) _ (genSlot_candidate data.kv data.generationSteps)
    exact textCandidates_control hx
  · exact Or.inr rfl

/-- When the delay has run through all codebooks the audio ends. -/
theorem nextText_end (heos : (delayStateTensor data).delayed = some m.nVq) (isAudio : Bool) :
    m.nextText request data isAudio = m.audioEnd := by
  unfold nextText
  simp [heos, aboveNVq]

/-- The host's flag stays right. -/
theorem Agrees.collect (hagrees : Agrees data) (isAudio isChunked : Bool) :
    Agrees (m.collect request isAudio isChunked data) := by
  obtain ⟨hgs, hge, hgi, hds, hde, hdi, hse, hsi, _⟩ := m.special_ne
  unfold Agrees
  change (if m.nextText request data isAudio = m.audioStart then true
    else if m.nextText request data isAudio = m.audioEnd then false else data.isAudio) =
      (m.nextState (delayStateTensor data) (m.nextText request data isAudio)).isAudio
  unfold nextState
  by_cases hstate : (delayStateTensor data).isAudio = true
  · have haudio : data.isAudio = true := hagrees.trans hstate
    by_cases heos : (delayStateTensor data).delayed = some m.nVq
    · rw [nextText_end heos]
      simp [heos, Ne.symm hse]
    · rcases nextText_audio hagrees hstate heos isAudio with hgen | hdelay
      · rw [hgen]
        simp [hgs, hge, hgi, hstate, heos, haudio]
      · rw [hdelay]
        simp [hds, hde, hdi, hstate, heos, haudio]
  · have hfalse : (delayStateTensor data).isAudio = false := by simpa using hstate
    have haudio : data.isAudio = false := hagrees.trans hfalse
    rw [hfalse, haudio]
    by_cases hstart : m.nextText request data isAudio = m.audioStart
    · simp [hstart, hsi]
    · simp [hstart]

/-- The rest of a step does not depend on the batch either. -/
theorem collect_of_agrees (hagrees : Agrees data) {isAudio : Bool} (isChunked : Bool)
    (hbatch : isAudio = true → data.isAudio = true) :
    m.collect request isAudio isChunked data = m.collect request data.isAudio isChunked data := by
  cases hisAudio : isAudio with
  | true => rw [hbatch hisAudio]
  | false =>
    cases hdata : data.isAudio with
    | false => rfl
    | true =>
      have hsame : m.nextText request data false = m.nextText request data true :=
        nextText_of_agrees hagrees hdata
      unfold collect
      rw [hsame]

/-- Feeding a row changes neither flag. -/
theorem agrees_decodeInput : Agrees (m.decodeInput data) ↔ Agrees data := Iff.rfl

theorem agrees_prefillInput (prefixLen extendLen : ℕ) :
    Agrees (m.prefillInput request prefixLen extendLen data) ↔ Agrees data := Iff.rfl

/-- The flags agree all along. -/
theorem agrees_alone (m : DelayModel E L P) (request : DelayRequest P) :
    ∀ n, Agrees (m.alone request n)
  | 0 => rfl
  | 1 => Agrees.collect ((agrees_prefillInput 0 _).mpr (agrees_alone m request 0)) _ _
  | n + 2 => Agrees.collect (agrees_decodeInput.mpr (agrees_alone m request (n + 1))) _ _

theorem collect_outputRows (m : DelayModel E L P) (request : DelayRequest P)
    (isAudio isChunked : Bool) (data : DelayData E) :
    data.outputRows <+: (m.collect request isAudio isChunked data).outputRows := by
  unfold collect
  dsimp only
  split
  · exact List.prefix_refl _
  · exact List.prefix_append _ _

theorem alone_generationSteps (m : DelayModel E L P) (request : DelayRequest P) :
    ∀ n, (m.alone request n).generationSteps = n
  | 0 => rfl
  | 1 => rfl
  | n + 2 => congrArg (· + 1) (alone_generationSteps m request (n + 1))

end Row

end DelayModel

end Omni.Tts
