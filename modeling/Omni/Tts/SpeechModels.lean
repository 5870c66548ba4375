import Omni.Tts.DelayPattern
import Omni.Tts.Feedback
import Omni.Library.Masks

/-!
# Qwen3-TTS and Voxtral-TTS

The prompts of the two models, what they feed to their decode steps, and their samplers. The
codes of a request do not depend on the batches, as long as its prompt is prefilled whole and
only before its first token.
-/

namespace Omni.Tts

open List

variable {V E H L P : Type}

/-- The forward pass, the draw of a token, and the code predictor of Qwen3-TTS. -/
structure Qwen3TtsModel (E H L P : Type) where
  codecEosTokenId : ℕ
  vocabSize : ℕ
  embedTokens : ℕ → E
  /-- The sum of a feedback and a text row. -/
  combine : E → E → E
  /-- The logits and the hidden state at the last position. -/
  forward : List E → List L × H
  /-- The repetition penalty on a score. -/
  penalty : P → L → L
  /-- The draw, by seed and position. -/
  choose : P → ℕ → ℕ → List (Option L) → ℕ
  /-- The codes of a frame and the sum of their embeddings, by seed, position and token. -/
  codePredictor : P → ℕ → ℕ → ℕ → H → List ℕ × E

/-- `Qwen3TTSPreparedRequest`, as far as the runner reads it. -/
structure Qwen3TtsRequest (E P : Type) where
  promptInputEmbeds : List E
  trailingTextHidden : List E
  ttsPadEmbed : E
  params : P
  semanticSamplingSeed : ℕ
  subtalkerSamplingSeed : ℕ

namespace Qwen3TtsModel

variable (m : Qwen3TtsModel E H L P)

/-- `_build_prefill_input_embeds` for one request. A row for each position is needed, and there
are rows for the prompt only. -/
def buildPrefillInputEmbeds (r : Qwen3TtsRequest E P) (prefixLen reqLen : ℕ) : Option (List E) :=
  let piece := (r.promptInputEmbeds.drop prefixLen).take reqLen
  if piece.length = reqLen then some piece else none

/-- `_combine_feedback_with_next_text`, without the request's text queue. -/
def combineFeedback (r : Qwen3TtsRequest E P) (nextText : Option E) (feedback : E) : E :=
  m.combine feedback (nextText.getD r.ttsPadEmbed)

/-- `_take_next_decode_input_embed`, or the embedding of the last token. -/
def takeNextDecodeInputEmbed (r : Qwen3TtsRequest E P) (d : SpeechData E) :
    E × List E × List E :=
  match d.pendingFeedbackQueue with
  | [] => (m.embedTokens (d.outputIds.getLastD 0), [], d.pendingTextQueue)
  | feedback :: rest =>
    (m.combineFeedback r d.pendingTextQueue.head? feedback, rest, d.pendingTextQueue.tail)

/-- `_apply_repetition_penalty` and `_apply_codec_suppress_tokens`. -/
def scores (r : Qwen3TtsRequest E P) (outputIds : List ℕ) (logits : List L) : List (Option L) :=
  logits.mapIdx fun token score =>
    if m.vocabSize - 1024 ≤ token ∧ token < m.vocabSize ∧ token ≠ m.codecEosTokenId then none
    else some (if token ∈ outputIds then m.penalty r.params score else score)

/-- `_sample_next_token_ids` and `_collect_codes` for one request. -/
def sample (r : Qwen3TtsRequest E P) (outputIds : List ℕ) (kv : List E) : SpeechStep E :=
  let output := m.forward kv
  let position := kv.length - 1
  let token := m.choose r.params r.semanticSamplingSeed position (m.scores r outputIds output.1)
  let frame := m.codePredictor r.params r.subtalkerSamplingSeed position token output.2
  ⟨token, frame.1, frame.2⟩

/-- `Qwen3TTSModelRunner`. -/
def speech : SpeechRunner (Qwen3TtsRequest E P) E where
  eosId := m.codecEosTokenId
  promptLen r := r.promptInputEmbeds.length
  texts r := r.trailingTextHidden
  prefillEmbeds r _ := buildPrefillInputEmbeds r
  promptEmbeds r := r.promptInputEmbeds
  takeInput := m.takeNextDecodeInputEmbed
  generatedInput r j := m.combineFeedback r r.trailingTextHidden[j]?
  sample := m.sample
  length_promptEmbeds _ := rfl
  prefill_prompt r prefixLen extendLen := by
    by_cases hle : prefixLen + extendLen ≤ r.promptInputEmbeds.length
    · refine Or.inl (if_pos ?_)
      rw [length_take, length_drop]
      omega
    · exact Or.inr (Nat.lt_of_not_le hle)
  takeInput_cons r d j feedback rest hfeedback htexts := by
    unfold takeNextDecodeInputEmbed
    rw [hfeedback, htexts, head?_drop, tail_drop]

end Qwen3TtsModel

/-- The embeddings, the forward pass and the acoustic transformer of Voxtral-TTS. -/
structure VoxtralModel (E H : Type) where
  endAudio : ℕ
  embedTokens : ℕ → E
  /-- The input of a decode step without a feedback. -/
  zeros : E
  /-- The hidden state at the last position. -/
  forward : List E → H
  /-- The codes of a frame, the first of which is the token. -/
  acousticTransformer : H → List ℕ
  /-- The sum of the embeddings of a frame. -/
  audioTokenEmbedding : List ℕ → E

/-- `VoxtralSGLangRequestData`, as far as the runner reads it and does not write it. -/
structure VoxtralRequest (E : Type) where
  inputIds : List ℕ
  audioTokenId : ℕ
  voiceEmbedding : Option (List E)

/-- The rows of the voice, if there is one. -/
def VoxtralRequest.voice (r : VoxtralRequest E) : List E := r.voiceEmbedding.getD []

namespace VoxtralModel

variable (m : VoxtralModel E H)

/-- Voice rows at audio positions, in order, as long as there are some. -/
def writeVoice : List E → List Bool → List E → List E := zipMasked fun _ row => row

/-- `_build_prefill_input_embeds` for one request. -/
def buildPrefillInputEmbeds (r : VoxtralRequest E) (outputIds : List ℕ) (prefixLen reqLen : ℕ) :
    List E :=
  let inputEmbeds := (((r.inputIds ++ outputIds).drop prefixLen).take reqLen).map m.embedTokens
  let currentIds := (r.inputIds.drop prefixLen).take reqLen
  match r.voiceEmbedding with
  | none => inputEmbeds
  | some voice =>
    if currentIds.count r.audioTokenId = 0 then inputEmbeds
    else
      let previousAudio := (r.inputIds.take prefixLen).count r.audioTokenId
      let nFrames := min (currentIds.count r.audioTokenId) (voice.length - previousAudio)
      writeVoice inputEmbeds (matchMask currentIds r.audioTokenId)
        ((voice.drop previousAudio).take nFrames)

/-- The embeddings of the prompt. -/
def promptEmbeds (r : VoxtralRequest E) : List E :=
  writeVoice (r.inputIds.map m.embedTokens) (matchMask r.inputIds r.audioTokenId) r.voice

/-- `_write_decode_input_embed_buffer` for one request. -/
def takeInput (d : SpeechData E) : E × List E × List E :=
  match d.pendingFeedbackQueue with
  | [] => (m.zeros, [], d.pendingTextQueue)
  | feedback :: rest => (feedback, rest, d.pendingTextQueue)

/-- `_collect_audio_step` for one request. -/
def sample (kv : List E) : SpeechStep E :=
  let codes := m.acousticTransformer (m.forward kv)
  ⟨codes.headD 0, codes, m.audioTokenEmbedding codes⟩

variable {m}

/-- The `j`-th audio position of the prompt gets the `j`-th row of the voice. -/
theorem promptEmbeds_getElem? (r : VoxtralRequest E) (i : ℕ) :
    (m.promptEmbeds r)[i]? = r.inputIds[i]?.map fun id =>
      if id = r.audioTokenId then
        (r.voice[(r.inputIds.take i).count r.audioTokenId]?).getD (m.embedTokens id)
      else m.embedTokens id := by
  unfold promptEmbeds writeVoice
  rw [getElem?_zipMasked, matchMask_take, matchMask_count, getElem?_map]
  simp only [matchMask_getElem?]
  cases hid : r.inputIds[i]? with
  | none => simp
  | some id =>
    simp only [Option.some.injEq, Option.map_some]
    split
    next => cases r.voice[(r.inputIds.take i).count r.audioTokenId]? <;> rfl
    next => rfl

/-- A part of the prompt gets the rows that are its own. -/
theorem buildPrefillInputEmbeds_prompt (r : VoxtralRequest E) (prefixLen reqLen : ℕ) :
    m.buildPrefillInputEmbeds r [] prefixLen reqLen =
      ((m.promptEmbeds r).drop prefixLen).take reqLen := by
  unfold promptEmbeds writeVoice
  rw [drop_zipMasked, take_zipMasked, matchMask_take, matchMask_count, ← map_drop, ← map_take]
  have hmask : ((matchMask r.inputIds r.audioTokenId).drop prefixLen).take reqLen =
      matchMask ((r.inputIds.drop prefixLen).take reqLen) r.audioTokenId := by
    unfold matchMask
    rw [← map_drop, ← map_take]
  rw [hmask, matchMask_count, zipMasked_take_rows _ _ _ _ _ (Nat.le_of_eq matchMask_count)]
  unfold buildPrefillInputEmbeds VoxtralRequest.voice
  rw [append_nil]
  cases r.voiceEmbedding with
  | none => simp
  | some voice =>
    simp only [Option.getD_some]
    split
    next hnone =>
      refine (zipMasked_of_not_any _ _ _ _ (any_eq_false.mpr fun x hx htrue => ?_)).symm
      have hcount := matchMask_count.trans hnone
      exact count_eq_zero.mp hcount (by cases x <;> simp_all)
    next =>
      unfold writeVoice
      rw [← zipMasked_take_rows _ _ _ (voice.drop _) _ (Nat.le_of_eq matchMask_count)]
      rw [← length_drop, ← take_take, take_length]

variable (m) in
/-- `VoxtralTTSModelRunner`. -/
def speech : SpeechRunner (VoxtralRequest E) E where
  eosId := m.endAudio
  promptLen r := r.inputIds.length
  texts _ := []
  prefillEmbeds r outputIds prefixLen reqLen :=
    some (m.buildPrefillInputEmbeds r outputIds prefixLen reqLen)
  promptEmbeds := m.promptEmbeds
  takeInput _ := m.takeInput
  generatedInput _ _ feedback := feedback
  sample _ _ := m.sample
  length_promptEmbeds r := by
    unfold promptEmbeds writeVoice
    rw [length_zipMasked, length_map]
  prefill_prompt r prefixLen extendLen :=
    Or.inl (congrArg some (buildPrefillInputEmbeds_prompt r prefixLen extendLen))
  takeInput_cons r d j feedback rest hfeedback htexts := by
    unfold takeInput
    rw [hfeedback, htexts]
    simp

end VoxtralModel

namespace SpeechRunner

variable {R : Type}

/-- What two requests have generated and what their positions have been fed is the same. -/
def SameSpeech (d d' : SpeechData E) : Prop :=
  d.outputCodes = d'.outputCodes ∧ d.feedbacks = d'.feedbacks ∧
    d.decodeInputs = d'.decodeInputs ∧ d.kv = d'.kv

/-- A run of the request alone. -/
def AloneRun (V : Type) (m : SpeechRunner R E) (r : R) (isEntryRank : Bool) (n : ℕ)
    (t : Served V (SpeechData E)) : Prop :=
  Transition.Run (Served.step m.runner fun _ => r) Transition.anyAction
    (.init V m.runner (fun _ => r) isEntryRank) (m.runner.aloneActions r n) t

/-- The request is as in a run alone, and its positions have their inputs. -/
def AsAlone (m : SpeechRunner R E) (r : R) (isEntryRank : Bool) (V : Type) (d : SpeechData E) :
    Prop :=
  (∃ n, ∃ t : Served V (SpeechData E), m.AloneRun V r isEntryRank n t ∧ SameSpeech d (t.data 0)) ∧
  (d.outputIds ≠ [] → Feeds m r d)

variable {m : SpeechRunner R E}

theorem asAlone_of_run {request : ℕ → R} {isEntryRank : Bool} {as : List ServedAction}
    {s : Served V (SpeechData E)}
    (hrun : Transition.Run (Served.step m.runner request) (Served.Prefills request WholeFirst)
      (.init V m.runner request isEntryRank) as s) (q : ℕ) :
    m.AsAlone (request q) isEntryRank V (s.data q) := by
  obtain ⟨halike, hfeeds⟩ := alike_of_run hrun q
  obtain ⟨t, ht, hsame, _⟩ :=
    m.runner.alone_run (V := V) (fun _ => request q) isEntryRank _ halike
  refine ⟨⟨_, t, ht, ?_⟩, hfeeds⟩
  rw [hsame]
  exact ⟨rfl, rfl, rfl, rfl⟩

/-- Alone, the codes of the first step stay. -/
theorem alone_codes {r : R} {d : SpeechData E} (hone : m.runner.alone r 1 = some d) (n : ℕ) :
    ∀ d', m.runner.alone r (n + 1) = some d' → d.outputCodes <+: d'.outputCodes := by
  induction n with
  | zero =>
    intro d' hd'
    rw [hone, Option.some.injEq] at hd'
    rw [hd']
  | succ n ih =>
    intro d' hd'
    obtain ⟨before, hbefore, hnext⟩ := Option.bind_eq_some_iff.mp hd'
    have hnext : m.collect r false (m.feed r before) = d' := Option.some.inj hnext
    obtain ⟨_, _, _, _, _, hcodes⟩ := collect_parts m r (m.feed r before)
    rw [hnext] at hcodes
    exact (ih before hbefore).trans hcodes

/-- The codes of a run alone begin with those of its first step. -/
theorem AloneRun.codes {r : R} {isEntryRank : Bool} {n : ℕ} {t : Served V (SpeechData E)}
    (h : m.AloneRun V r isEntryRank n t) :
    (t.data 0).outputCodes = [] ∨ ∃ d, m.runner.alone r 1 = some d ∧
      d.outputCodes <+: (t.data 0).outputCodes := by
  obtain ⟨d, hd⟩ := alone_isSome (m := m) r n
  obtain ⟨u, hu, hdata, _⟩ := m.runner.alone_run (V := V) (fun _ => r) isEntryRank n hd
  rw [Transition.Run.unique h hu, hdata]
  cases n with
  | zero =>
    cases hd
    exact Or.inl rfl
  | succ n =>
    obtain ⟨first, hfirst⟩ := alone_isSome (m := m) r 1
    exact Or.inr ⟨first, hfirst, alone_codes hfirst n d hd⟩

end SpeechRunner

open SpeechRunner

/-- A Qwen3-TTS whose codes are the sums of its inputs. -/
def sumQwen : Qwen3TtsModel ℕ ℕ Unit Unit where
  codecEosTokenId := 9
  vocabSize := 10
  embedTokens token := token
  combine x y := x + y
  forward kv := ([], kv.sum)
  penalty _ x := x
  choose _ _ _ _ := 1
  codePredictor _ _ _ _ hidden := ([hidden], hidden)

/-- A Voxtral-TTS whose codes are the sums of its inputs. -/
def sumVoxtral : VoxtralModel ℕ ℕ where
  endAudio := 9
  embedTokens token := token
  zeros := 0
  forward kv := kv.sum
  acousticTransformer hidden := [1, hidden]
  audioTokenEmbedding codes := codes.sum

/-- A prompt of two rows, and one text row for the decode steps. -/
def twoPromptRows : Qwen3TtsRequest ℕ Unit := ⟨[5, 6], [100], 1000, (), 0, 0⟩

/-- A prompt with a row of a voice. -/
def oneVoiceRow : VoxtralRequest ℕ := ⟨[3, 24], 24, some [50, 60]⟩

/-- A prefill and two decode steps of a request. -/
def prefillAndDecode (promptLen : ℕ) : List ServedAction :=
  [⟨.enqueue "a", fun _ => 0, fun _ => 0⟩,
    ⟨.select prefillChoice, fun _ => 0, fun _ => 0⟩,
    ⟨goesOn, fun _ => 0, fun _ => promptLen⟩,
    ⟨.select (.decode []), fun _ => 0, fun _ => 0⟩,
    ⟨goesOn, fun _ => 0, fun _ => 0⟩,
    ⟨.select (.decode []), fun _ => 0, fun _ => 0⟩,
    ⟨goesOn, fun _ => 0, fun _ => 0⟩]

end Omni.Tts
