import Mathlib.Algebra.Field.Rat
import Mathlib.Algebra.Order.Ring.Int
import Mathlib.Algebra.Order.Group.Nat

/-!
# The Fish S2-Pro streaming vocoder

`models/fishaudio_s2_pro/streaming_vocoder.py` for one request, and `select_audio_delta` of
`client/audio.py`, which appends what the stream has not brought. Windows of the codes are decoded,
the samples of tokens that have been emitted are cut off, and a tail is held back for a crossfade
with the next window.
-/

namespace Omni.Tts

open List

variable {K : Type} {codes : List (List ℤ)} {streamStride fed : ℕ}

/-- The codec, whose `from_indices` gets the codes without their first codebook. -/
structure S2ProCodec (K : Type) where
  fromIndices : List (List ℤ) → List K
  frameLength : ℕ
  delay : ℤ

/-- What the constructor of `S2ProVocoderScheduler` sets. -/
structure S2ProVocoder (K : Type) where
  codec : S2ProCodec K
  streamStride : ℕ
  streamFollowupStride : ℕ
  streamOverlapTokens : ℕ
  streamCrossfadeSamples : ℕ
  stride_pos : 0 < streamStride
  followup_pos : 0 < streamFollowupStride

/-- `_StreamVocoderState`. A chunk of codes is the list of its columns. -/
structure StreamVocoderState (K : Type) where
  codes : List (List (List ℤ))
  codeStartToken : ℕ
  lastVocodeTokens : ℕ
  nextVocodeTokens : ℕ
  pendingTail : Option (List K)
  totalTokens : ℕ

/-- A new state. -/
def StreamVocoderState.init : StreamVocoderState K := ⟨[], 0, 0, 0, none, 0⟩

/-- `resolve_stream_overlap_tokens`. -/
def resolveStreamOverlapTokens (codec : S2ProCodec K) (requestedOverlapTokens : Option ℤ) :
    Except String ℕ :=
  match requestedOverlapTokens with
  | some requested =>
    if requested < 0 then .error "stream_overlap_tokens must be >= 0" else .ok requested.toNat
  | none =>
    if codec.delay ≤ 0 then .ok 0
    else if codec.frameLength = 0 then .error "integer division or modulo by zero"
    else .ok ((codec.delay.toNat + codec.frameLength - 1) / codec.frameLength)

/-- The constructor of `S2ProVocoderScheduler`. -/
def S2ProVocoder.create (codec : S2ProCodec K) (streamStride streamFollowupStride : ℤ)
    (streamOverlapTokens : Option ℤ) (streamCrossfadeSamples maxBatchSize maxBatchWaitMs : ℤ) :
    Except String (S2ProVocoder K) :=
  if h : streamStride ≤ 0 ∨ streamFollowupStride ≤ 0 ∨ maxBatchSize ≤ 0 then
    .error "stream_stride, stream_followup_stride, and max_batch_size must be > 0"
  else if streamCrossfadeSamples < 0 ∨ maxBatchWaitMs < 0 then
    .error "stream_crossfade_samples and max_batch_wait_ms must be >= 0"
  else
    (resolveStreamOverlapTokens codec streamOverlapTokens).map fun overlap =>
      { codec := codec
        streamStride := streamStride.toNat
        streamFollowupStride := streamFollowupStride.toNat
        streamOverlapTokens := overlap
        streamCrossfadeSamples := streamCrossfadeSamples.toNat
        stride_pos := Int.lt_toNat.2 (not_le.1 fun h' => h (.inl h'))
        followup_pos := Int.lt_toNat.2 (not_le.1 fun h' => h (.inr (.inl h'))) }

/-- The loop of `trim_retained_stream_codes`, with the first token that stays. -/
def dropRetained : List (List (List ℤ)) → ℕ → ℕ → List (List (List ℤ)) × ℕ
  | [], start, _ => ([], start)
  | first :: rest, start, drop =>
    if drop = 0 then (first :: rest, start)
    else if first.length ≤ drop then
      dropRetained rest (start + first.length) (drop - first.length)
    else (first.drop drop :: rest, start + drop)

/-- `trim_retained_stream_codes`. -/
def trimRetainedStreamCodes (s : StreamVocoderState K) (keepFromToken : ℕ) :
    StreamVocoderState K :=
  if s.codes = [] then s
  else if keepFromToken ≤ s.codeStartToken then s
  else
    let kept := dropRetained s.codes s.codeStartToken (keepFromToken - s.codeStartToken)
    { s with codes := kept.1, codeStartToken := kept.2 }

section Crossfade

variable [Field K]

/-- An entry of `torch.linspace(0.0, 1.0, steps)`. -/
def linspace (steps i : ℕ) : K := if steps = 1 then 0 else (i : K) / ((steps : K) - 1)

/-- `blended` of `_apply_stream_crossfade`. -/
def blended (crossfade : ℕ) (pendingTail deltaAudio : List K) : List K :=
  List.zipWith (fun i (samples : K × K) =>
      samples.1 * (1 - linspace crossfade i) + samples.2 * linspace crossfade i)
    (List.range crossfade)
    ((pendingTail.drop (pendingTail.length - crossfade)).zip (deltaAudio.take crossfade))

/-- The first half of `_apply_stream_crossfade`, the new samples joined with the tail. -/
def joinTail (streamCrossfadeSamples : ℕ) (pendingTail : Option (List K))
    (deltaAudio : List K) : List K :=
  match pendingTail with
  | none => deltaAudio
  | some tail =>
    if tail.length = 0 then deltaAudio
    else
      let crossfade := min streamCrossfadeSamples (min tail.length deltaAudio.length)
      if 0 < crossfade then
        tail.take (tail.length - crossfade) ++ blended crossfade tail deltaAudio ++
          deltaAudio.drop crossfade
      else tail ++ deltaAudio

/-- `_apply_stream_crossfade`, with the pending tail that it leaves. -/
def applyStreamCrossfade (streamCrossfadeSamples : ℕ) (pendingTail : Option (List K))
    (deltaAudio : List K) (isFinal : Bool) : Option (List K) × Option (List K) :=
  let joined := joinTail streamCrossfadeSamples pendingTail deltaAudio
  if isFinal then (none, some joined)
  else
    let hold := min streamCrossfadeSamples joined.length
    let emitted := joined.take (joined.length - hold)
    (if 0 < hold then some (joined.drop (joined.length - hold)) else none,
      if emitted.length = 0 then none else some emitted)

end Crossfade

/-- `select_audio_delta` for mono audio. -/
def selectAudioDelta (audio : List K) (emittedSamples : ℕ) (isTerminal : Bool) :
    Option (List K) × ℕ :=
  if !isTerminal then (some audio, emittedSamples + audio.length)
  else if audio.length ≤ emittedSamples then (none, emittedSamples)
  else (some (audio.drop emittedSamples), audio.length)

namespace S2ProVocoder

variable [Field K] (v : S2ProVocoder K)

/-- The samples of the window that have not been emitted. -/
def windowDelta (s : StreamVocoderState K) : List K :=
  let windowStartToken := max s.codeStartToken (s.lastVocodeTokens - v.streamOverlapTokens)
  let windowCodes := s.codes.flatten.drop (windowStartToken - s.codeStartToken)
  (v.codec.fromIndices (windowCodes.map List.tail)).drop
    ((s.lastVocodeTokens - windowStartToken) * v.codec.frameLength)

/-- What `_build_stream_vocoder_chunk` does with samples that have not been emitted. -/
def emitDelta (s : StreamVocoderState K) (deltaAudio : List K) (isFinal : Bool) :
    StreamVocoderState K × Option (List K) :=
  let faded := if 0 < v.streamCrossfadeSamples then
      applyStreamCrossfade v.streamCrossfadeSamples s.pendingTail deltaAudio isFinal
    else (s.pendingTail, some deltaAudio)
  let s := { s with pendingTail := faded.1, lastVocodeTokens := s.totalTokens }
  (if faded.2.isNone || !isFinal then
      trimRetainedStreamCodes s (s.totalTokens - v.streamOverlapTokens)
    else s,
    faded.2)

/-- `_build_stream_vocoder_chunk`. -/
def buildChunk (s : StreamVocoderState K) (isFinal : Bool) :
    StreamVocoderState K × Option (List K) :=
  if s.codes = [] then (s, none)
  else if s.totalTokens ≤ s.lastVocodeTokens then
    if !isFinal then (s, none)
    else
      match s.pendingTail with
      | none => (s, none)
      | some tail =>
        if tail.length = 0 then (s, none) else ({ s with pendingTail := none }, some tail)
  -- an audio no longer than the overlap leaves nothing to emit
  else if (v.windowDelta s).length = 0 then (s, none)
  else v.emitDelta s (v.windowDelta s) isFinal

/-- `build_stream_vocoder_chunk`. -/
def buildStreamVocoderChunk (s : StreamVocoderState K) (codes : List (List ℤ)) :
    StreamVocoderState K × Option (List K) :=
  let s := { s with codes := s.codes ++ [codes], totalTokens := s.totalTokens + codes.length }
  let nextVocodeTokens := if s.nextVocodeTokens ≠ 0 then s.nextVocodeTokens else v.streamStride
  if s.totalTokens < nextVocodeTokens then
    ({ s with nextVocodeTokens := nextVocodeTokens }, none)
  else
    let built := v.buildChunk s false
    ({ built.1 with nextVocodeTokens := s.totalTokens + v.streamFollowupStride }, built.2)

/-- `flush_stream_vocoder_chunk`. -/
def flushStreamVocoderChunk (s : StreamVocoderState K) :
    StreamVocoderState K × Option (List K) :=
  let pendingTail := s.pendingTail.getD []
  let hasPendingTail := 0 < pendingTail.length
  if s.codes = [] ∧ ¬ hasPendingTail then (s, none)
  else if s.codes = [] ∧ hasPendingTail then ({ s with pendingTail := none }, some pendingTail)
  else if s.totalTokens ≤ s.lastVocodeTokens ∧ ¬ hasPendingTail then (s, none)
  else v.buildChunk s true

/-- The chunks of a request handed to the scheduler one after the other, with the audio of the
stream messages. -/
def feed (s : StreamVocoderState K) :
    List (List (List ℤ)) → StreamVocoderState K × List (List K)
  | [] => (s, [])
  | codes :: rest =>
    let built := v.buildStreamVocoderChunk s codes
    let fed := feed built.1 rest
    (fed.1, built.2.toList ++ fed.2)

/-- The audio of the stream messages that the chunks and `on_stream_done` lead to, from a state. -/
def streamedFrom (s : StreamVocoderState K) (chunks : List (List (List ℤ))) : List (List K) :=
  let fed := v.feed s chunks
  fed.2 ++ (v.flushStreamVocoderChunk fed.1).2.toList

/-- The audio of the stream messages of a request. -/
def streamed (chunks : List (List (List ℤ))) : List (List K) := v.streamedFrom .init chunks

/-- `_vocode_payload`, the audio of the terminal result. -/
def vocodePayload (outputCodes : List (List ℤ)) : Except String (List K) :=
  if outputCodes.length = 0 then .error "S2-Pro generated no audio codec tokens"
  else .ok ((v.codec.fromIndices (outputCodes.map List.tail)).take
    (outputCodes.length * v.codec.frameLength))

end S2ProVocoder

/-- What the client appends for the stream messages and the terminal result of a request. -/
def clientDeltas : List (List K) → ℕ → List K → List (List K)
  | [], emittedSamples, terminal => (selectAudioDelta terminal emittedSamples true).1.toList
  | audio :: rest, emittedSamples, terminal =>
    let selected := selectAudioDelta audio emittedSamples false
    selected.1.toList ++ clientDeltas rest selected.2 terminal

/-- `codec.from_indices` returns `frame_length` samples for each token. -/
def S2ProCodec.Exact (codec : S2ProCodec K) : Prop :=
  ∀ codes, (codec.fromIndices codes).length = codes.length * codec.frameLength

/-- The number of tokens in chunks. -/
def tokenCount (chunks : List (List (List ℤ))) : ℕ := chunks.flatten.length

@[simp] theorem tokenCount_nil : tokenCount [] = 0 := rfl

@[simp] theorem tokenCount_cons (codes : List (List ℤ)) (chunks : List (List (List ℤ))) :
    tokenCount (codes :: chunks) = codes.length + tokenCount chunks := by
  simp [tokenCount]

@[simp] theorem tokenCount_append (front back : List (List (List ℤ))) :
    tokenCount (front ++ back) = tokenCount front + tokenCount back := by
  simp [tokenCount]

/-- The samples of the messages of a step. -/
def sent (output : Option (List K)) : ℕ := (output.getD []).length

/-- The samples that are held back. -/
def StreamVocoderState.held (s : StreamVocoderState K) : ℕ := (s.pendingTail.getD []).length

@[simp] theorem sent_none : sent (none : Option (List K)) = 0 := rfl

@[simp] theorem sent_some (audio : List K) : sent (some audio) = audio.length := rfl

theorem sent_toList (output : Option (List K)) : output.toList.flatten.length = sent output := by
  cases output <;> simp [sent]

/-- The loop drops tokens from the front, and moves the first token accordingly. -/
theorem dropRetained_spec (chunks : List (List (List ℤ))) (start drop : ℕ) :
    (dropRetained chunks start drop).1.flatten = chunks.flatten.drop drop ∧
      (dropRetained chunks start drop).2 = start + min drop (tokenCount chunks) := by
  induction chunks generalizing start drop with
  | nil => simp [dropRetained]
  | cons first rest ih =>
    rw [dropRetained]
    split
    · simp [*]
    · split
      · obtain ⟨hflat, hstart⟩ := ih (start + first.length) (drop - first.length)
        have hpast : first.drop drop = [] := drop_eq_nil_of_le ‹_›
        rw [hflat, hstart, tokenCount_cons, flatten_cons, drop_append, hpast, nil_append]
        exact ⟨rfl, by omega⟩
      · rw [tokenCount_cons, flatten_cons, flatten_cons,
          drop_append_of_le_length (by omega)]
        exact ⟨rfl, by omega⟩

/-- The cursors of a state agree with the chunks that are retained. -/
structure StreamVocoderState.Sound (s : StreamVocoderState K) : Prop where
  retained : s.codeStartToken + tokenCount s.codes = s.totalTokens
  start_le : s.codeStartToken ≤ s.lastVocodeTokens
  last_le : s.lastVocodeTokens ≤ s.totalTokens

theorem StreamVocoderState.sound_init : (StreamVocoderState.init : StreamVocoderState K).Sound :=
  ⟨rfl, le_rfl, le_rfl⟩

/-- Where there are tokens to decode, there are retained chunks. -/
theorem StreamVocoderState.Sound.codes_ne_nil {s : StreamVocoderState K} (hs : s.Sound)
    (hlast : s.lastVocodeTokens < s.totalTokens) : s.codes ≠ [] := by
  intro hnil
  have hretained := hs.retained
  have hstart := hs.start_le
  rw [hnil, tokenCount_nil] at hretained
  omega

theorem trimRetainedStreamCodes_frame (s : StreamVocoderState K) (keepFromToken : ℕ) :
    (trimRetainedStreamCodes s keepFromToken).lastVocodeTokens = s.lastVocodeTokens ∧
      (trimRetainedStreamCodes s keepFromToken).totalTokens = s.totalTokens ∧
      (trimRetainedStreamCodes s keepFromToken).pendingTail = s.pendingTail := by
  unfold trimRetainedStreamCodes
  split
  · exact ⟨rfl, rfl, rfl⟩
  · split <;> exact ⟨rfl, rfl, rfl⟩

/-- Trimming tokens that have been decoded keeps the cursors in agreement. -/
theorem StreamVocoderState.Sound.trim {s : StreamVocoderState K} (hs : s.Sound)
    {keepFromToken : ℕ} (hkeep : keepFromToken ≤ s.lastVocodeTokens) :
    (trimRetainedStreamCodes s keepFromToken).Sound := by
  unfold trimRetainedStreamCodes
  split
  · exact hs
  · split
    · exact hs
    · have hretained := hs.retained
      have hlast := hs.last_le
      obtain ⟨hflat, hstart⟩ :=
        dropRetained_spec s.codes s.codeStartToken (keepFromToken - s.codeStartToken)
      have hcount : tokenCount (dropRetained s.codes s.codeStartToken
          (keepFromToken - s.codeStartToken)).1 =
            tokenCount s.codes - (keepFromToken - s.codeStartToken) := by
        rw [tokenCount, hflat, length_drop, tokenCount]
      constructor
      · change (dropRetained _ _ _).2 + tokenCount (dropRetained _ _ _).1 = s.totalTokens
        omega
      · change (dropRetained _ _ _).2 ≤ s.lastVocodeTokens
        omega
      · exact hlast

section Crossfade

variable [Field K]

/-- The samples of the blended part. -/
theorem length_blended {crossfade : ℕ} {pendingTail deltaAudio : List K}
    (htail : crossfade ≤ pendingTail.length) (hdelta : crossfade ≤ deltaAudio.length) :
    (blended crossfade pendingTail deltaAudio).length = crossfade := by
  simp only [blended, length_zipWith, length_zip, length_drop, length_take, length_range]
  omega

/-- The samples that the crossfade puts on top of each other. -/
def overlaid (streamCrossfadeSamples held delta : ℕ) : ℕ :=
  min streamCrossfadeSamples (min held delta)

theorem length_joinTail (streamCrossfadeSamples : ℕ) (pendingTail : Option (List K))
    (deltaAudio : List K) :
    (joinTail streamCrossfadeSamples pendingTail deltaAudio).length +
        overlaid streamCrossfadeSamples (pendingTail.getD []).length deltaAudio.length =
      (pendingTail.getD []).length + deltaAudio.length := by
  cases pendingTail with
  | none => simp [joinTail, overlaid]
  | some tail =>
    simp only [joinTail, overlaid, Option.getD_some]
    split
    · simp [*]
    · split
      · rw [length_append, length_append, length_take, length_drop,
          length_blended (by omega) (by omega)]
        omega
      · rw [length_append]
        omega

/-- What is held back and what is sent are the joined samples. A window that is not the last one
holds back as much as it can. -/
theorem applyStreamCrossfade_spec (streamCrossfadeSamples : ℕ) (pendingTail : Option (List K))
    (deltaAudio : List K) (isFinal : Bool) :
    ((applyStreamCrossfade streamCrossfadeSamples pendingTail deltaAudio isFinal).1.getD
        []).length =
      (if isFinal then 0
        else min streamCrossfadeSamples
          (joinTail streamCrossfadeSamples pendingTail deltaAudio).length) ∧
    ((applyStreamCrossfade streamCrossfadeSamples pendingTail deltaAudio isFinal).1.getD
        []).length +
      sent (applyStreamCrossfade streamCrossfadeSamples pendingTail deltaAudio isFinal).2 =
      (joinTail streamCrossfadeSamples pendingTail deltaAudio).length := by
  unfold applyStreamCrossfade
  generalize joinTail streamCrossfadeSamples pendingTail deltaAudio = joined
  cases isFinal with
  | true => simp
  | false =>
    have hhold : ((if 0 < min streamCrossfadeSamples joined.length then
        some (joined.drop (joined.length - min streamCrossfadeSamples joined.length))
        else none).getD []).length = min streamCrossfadeSamples joined.length := by
      split
      · rw [Option.getD_some, length_drop]
        omega
      · rw [Option.getD_none, length_nil]
        omega
    have hsent : sent (if (joined.take (joined.length -
        min streamCrossfadeSamples joined.length)).length = 0 then none
        else some (joined.take (joined.length - min streamCrossfadeSamples joined.length))) =
          joined.length - min streamCrossfadeSamples joined.length := by
      split
      · rw [length_take] at *
        rw [sent_none]
        omega
      · rw [sent_some, length_take]
        omega
    simp only [Bool.false_eq_true, if_false]
    omega

end Crossfade

namespace S2ProVocoder

variable {v : S2ProVocoder K} {s : StreamVocoderState K}

/-- A window has the samples of the tokens that have not been decoded. -/
theorem length_windowDelta (hcodec : v.codec.Exact) (hs : s.Sound) :
    (v.windowDelta s).length = (s.totalTokens - s.lastVocodeTokens) * v.codec.frameLength := by
  have hretained := hs.retained
  have hstart := hs.start_le
  unfold windowDelta
  simp only [length_drop, hcodec _, length_map]
  rw [← Nat.sub_mul]
  congr 1
  rw [tokenCount] at hretained
  omega

/-- The tokens at which the next window is due. -/
def nextDue (v : S2ProVocoder K) (s : StreamVocoderState K) : ℕ :=
  if s.nextVocodeTokens ≠ 0 then s.nextVocodeTokens else v.streamStride

/-- Between two chunks the next window is due later than the last one, and only a crossfade holds
samples back. -/
structure Steady (v : S2ProVocoder K) (s : StreamVocoderState K) : Prop extends s.Sound where
  due : s.lastVocodeTokens < v.nextDue s
  whole : v.streamCrossfadeSamples = 0 → s.held = 0

theorem steady_init (v : S2ProVocoder K) : v.Steady .init :=
  ⟨StreamVocoderState.sound_init, by simpa [nextDue, StreamVocoderState.init] using v.stride_pos,
    fun _ => rfl⟩

variable [Field K]

/-- What emitting does to a state: the tail, the cursor and perhaps the retained codes change. -/
theorem emitDelta_frame (hs : s.Sound) (deltaAudio : List K) (isFinal : Bool) :
    (v.emitDelta s deltaAudio isFinal).1.Sound ∧
    (v.emitDelta s deltaAudio isFinal).1.totalTokens = s.totalTokens ∧
    (v.emitDelta s deltaAudio isFinal).1.lastVocodeTokens = s.totalTokens ∧
    (v.emitDelta s deltaAudio isFinal).1.pendingTail =
      (if 0 < v.streamCrossfadeSamples then
        (applyStreamCrossfade v.streamCrossfadeSamples s.pendingTail deltaAudio isFinal).1
      else s.pendingTail) := by
  have hretained := hs.retained
  have hstart := hs.start_le
  have hlast := hs.last_le
  unfold emitDelta
  generalize hfaded : (if 0 < v.streamCrossfadeSamples then
      applyStreamCrossfade v.streamCrossfadeSamples s.pendingTail deltaAudio isFinal
    else (s.pendingTail, some deltaAudio)) = faded
  have htail : faded.1 = if 0 < v.streamCrossfadeSamples then
      (applyStreamCrossfade v.streamCrossfadeSamples s.pendingTail deltaAudio isFinal).1
      else s.pendingTail := by
    rw [← hfaded]
    split <;> rfl
  have hsound : ({ s with pendingTail := faded.1, lastVocodeTokens := s.totalTokens } :
      StreamVocoderState K).Sound := ⟨hretained, hstart.trans hlast, le_rfl⟩
  simp only
  split
  · obtain ⟨hlast', htotal', htail'⟩ := trimRetainedStreamCodes_frame
      { s with pendingTail := faded.1, lastVocodeTokens := s.totalTokens }
      (s.totalTokens - v.streamOverlapTokens)
    exact ⟨hsound.trim (Nat.sub_le _ _), htotal', hlast', htail'.trans htail⟩
  · exact ⟨hsound, rfl, rfl, htail⟩

/-- The samples that are emitted for a window are sent or held back, but those that are overlaid. -/
theorem emitDelta_samples (hs : s.Sound) (deltaAudio : List K) (isFinal : Bool) :
    sent (v.emitDelta s deltaAudio isFinal).2 + (v.emitDelta s deltaAudio isFinal).1.held +
        overlaid v.streamCrossfadeSamples s.held deltaAudio.length =
      s.held + deltaAudio.length ∧
    (0 < v.streamCrossfadeSamples → 0 < deltaAudio.length →
      (isFinal = true → (v.emitDelta s deltaAudio isFinal).1.held = 0) ∧
      (isFinal = false → 0 < (v.emitDelta s deltaAudio isFinal).1.held)) ∧
    (v.streamCrossfadeSamples = 0 → (v.emitDelta s deltaAudio isFinal).1.held = s.held) := by
  obtain ⟨-, -, -, htail⟩ := emitDelta_frame (v := v) hs deltaAudio isFinal
  have hout : (v.emitDelta s deltaAudio isFinal).2 = if 0 < v.streamCrossfadeSamples then
      (applyStreamCrossfade v.streamCrossfadeSamples s.pendingTail deltaAudio isFinal).2
      else some deltaAudio := by
    simp only [emitDelta]
    split <;> rfl
  have hheld : (v.emitDelta s deltaAudio isFinal).1.held =
      ((v.emitDelta s deltaAudio isFinal).1.pendingTail.getD []).length := rfl
  rw [hheld, htail, hout]
  by_cases hcrossfade : 0 < v.streamCrossfadeSamples
  · obtain ⟨hhold, hsum⟩ := applyStreamCrossfade_spec v.streamCrossfadeSamples s.pendingTail
      deltaAudio isFinal
    have hjoin := length_joinTail v.streamCrossfadeSamples s.pendingTail deltaAudio
    have hle : overlaid v.streamCrossfadeSamples s.held deltaAudio.length ≤ s.held := by
      unfold overlaid
      omega
    simp only [if_pos hcrossfade]
    change _ + overlaid _ s.held _ = s.held + _ at hjoin
    refine ⟨by omega, fun _ hdelta => ⟨fun hfinal => ?_, fun hfinal => ?_⟩,
      fun hzero => absurd hcrossfade (by omega)⟩
    · rw [hhold, if_pos hfinal]
    · rw [hhold, if_neg (by simp [hfinal])]
      omega
  · simp only [if_neg hcrossfade]
    refine ⟨?_, fun h => absurd h hcrossfade, fun _ => rfl⟩
    have hzero : v.streamCrossfadeSamples = 0 := by omega
    rw [hzero, sent_some, overlaid, Nat.zero_min]
    change deltaAudio.length + s.held + 0 = _
    omega

/-- A window over tokens that have not been decoded is emitted. -/
theorem buildChunk_eq (hcodec : v.codec.Exact) (hs : s.Sound)
    (hlast : s.lastVocodeTokens < s.totalTokens) (hframe : 0 < v.codec.frameLength)
    (isFinal : Bool) : v.buildChunk s isFinal = v.emitDelta s (v.windowDelta s) isFinal := by
  have hwindow : (v.windowDelta s).length ≠ 0 := by
    rw [length_windowDelta hcodec hs]
    exact (Nat.mul_pos (by omega) hframe).ne'
  rw [buildChunk, if_neg (hs.codes_ne_nil hlast), if_neg (by omega), if_neg hwindow]

/-- A chunk whose tokens do not reach the next window is retained. -/
theorem buildStreamVocoderChunk_waits (hs : v.Steady s)
    (hdue : s.totalTokens + codes.length < v.nextDue s) :
    (v.buildStreamVocoderChunk s codes).2 = none ∧
    v.Steady (v.buildStreamVocoderChunk s codes).1 ∧
    (v.buildStreamVocoderChunk s codes).1.totalTokens = s.totalTokens + codes.length ∧
    (v.buildStreamVocoderChunk s codes).1.lastVocodeTokens = s.lastVocodeTokens ∧
    (v.buildStreamVocoderChunk s codes).1.held = s.held ∧
    v.nextDue (v.buildStreamVocoderChunk s codes).1 = v.nextDue s := by
  have hretained := hs.retained
  have hlast := hs.last_le
  have heq : v.buildStreamVocoderChunk s codes =
      ({ s with
          codes := s.codes ++ [codes]
          totalTokens := s.totalTokens + codes.length
          nextVocodeTokens := v.nextDue s }, none) := by
    exact if_pos hdue
  have hnext : v.nextDue { s with
      codes := s.codes ++ [codes]
      totalTokens := s.totalTokens + codes.length
      nextVocodeTokens := v.nextDue s } = v.nextDue s := by
    have hpos : v.nextDue s ≠ 0 := by omega
    exact if_pos hpos
  rw [heq]
  refine ⟨rfl, ⟨⟨?_, hs.start_le, ?_⟩, ?_, hs.whole⟩, rfl, rfl, rfl, hnext⟩
  · simp only [tokenCount_append, tokenCount_cons, tokenCount_nil]
    omega
  · simp only
    omega
  · rw [hnext]
    exact hs.due

theorem buildStreamVocoderChunk_decodes (hcodec : v.codec.Exact) (hframe : 0 < v.codec.frameLength)
    (hs : v.Steady s) (hdue : v.nextDue s ≤ s.totalTokens + codes.length) :
    v.Steady (v.buildStreamVocoderChunk s codes).1 ∧
    (v.buildStreamVocoderChunk s codes).1.totalTokens = s.totalTokens + codes.length ∧
    (v.buildStreamVocoderChunk s codes).1.lastVocodeTokens = s.totalTokens + codes.length ∧
    sent (v.buildStreamVocoderChunk s codes).2 + (v.buildStreamVocoderChunk s codes).1.held +
        overlaid v.streamCrossfadeSamples s.held
          ((s.totalTokens + codes.length - s.lastVocodeTokens) * v.codec.frameLength) =
      s.held + (s.totalTokens + codes.length - s.lastVocodeTokens) * v.codec.frameLength ∧
    (0 < v.streamCrossfadeSamples → 0 < (v.buildStreamVocoderChunk s codes).1.held) := by
  have hretained := hs.retained
  have hstart := hs.start_le
  have hnext := hs.due
  obtain ⟨fed, hfed⟩ : ∃ fed : StreamVocoderState K, fed =
      { s with codes := s.codes ++ [codes], totalTokens := s.totalTokens + codes.length } :=
    ⟨_, rfl⟩
  have hsound : fed.Sound := by
    subst hfed
    refine ⟨?_, hstart, ?_⟩
    · simp only [tokenCount_append, tokenCount_cons, tokenCount_nil]
      omega
    · simp only
      omega
  have htokens : fed.totalTokens = s.totalTokens + codes.length := by rw [hfed]
  have hcursor : fed.lastVocodeTokens = s.lastVocodeTokens := by rw [hfed]
  have hheld : fed.held = s.held := by rw [hfed]; rfl
  have hmore : fed.lastVocodeTokens < fed.totalTokens := by omega
  have heq : v.buildStreamVocoderChunk s codes =
      ({ (v.emitDelta fed (v.windowDelta fed) false).1 with
          nextVocodeTokens := fed.totalTokens + v.streamFollowupStride },
        (v.emitDelta fed (v.windowDelta fed) false).2) := by
    rw [← buildChunk_eq hcodec hsound hmore hframe, hfed, buildStreamVocoderChunk]
    exact if_neg (not_lt.2 hdue)
  have hwindow := length_windowDelta hcodec hsound
  obtain ⟨hsound', htotal', hlast', -⟩ := emitDelta_frame (v := v) hsound (v.windowDelta fed) false
  obtain ⟨hsum, hhold, hzero⟩ := emitDelta_samples (v := v) hsound (v.windowDelta fed) false
  rw [hwindow, hheld, hcursor, htokens] at hsum
  rw [heq]
  refine ⟨⟨⟨hsound'.retained, hsound'.start_le, hsound'.last_le⟩, ?_, fun h => ?_⟩,
    htotal'.trans htokens, hlast'.trans htokens, hsum, fun h => ?_⟩
  · have hpos := v.followup_pos
    rw [nextDue, if_pos (by simp only; omega)]
    simp only
    omega
  · exact (hzero h).trans (hheld.trans (hs.whole h))
  · refine (hhold h ?_).2 rfl
    rw [hwindow]
    exact Nat.mul_pos (by omega) hframe

theorem flush_tail (hdone : s.totalTokens ≤ s.lastVocodeTokens) :
    sent (v.flushStreamVocoderChunk s).2 = s.held := by
  unfold flushStreamVocoderChunk StreamVocoderState.held
  cases htail : s.pendingTail with
  | none =>
    by_cases hcodes : s.codes = [] <;> simp [hcodes, hdone]
  | some tail =>
    by_cases hlen : tail.length = 0
    · by_cases hcodes : s.codes = [] <;> simp [hcodes, hdone, length_eq_zero_iff.1 hlen]
    · have hpos : 0 < tail.length := by omega
      by_cases hcodes : s.codes = []
      · simp [hcodes, hpos, sent]
      · simp [hcodes, hpos, hdone, buildChunk, htail, hlen, sent]

/-- The flush sends the tail and the rest of the tokens, but the samples that are overlaid. -/
theorem flushStreamVocoderChunk_samples (hcodec : v.codec.Exact)
    (hframe : 0 < v.codec.frameLength) (hs : v.Steady s) :
    sent (v.flushStreamVocoderChunk s).2 + overlaid v.streamCrossfadeSamples s.held
        ((s.totalTokens - s.lastVocodeTokens) * v.codec.frameLength) =
      s.held + (s.totalTokens - s.lastVocodeTokens) * v.codec.frameLength := by
  by_cases hmore : s.lastVocodeTokens < s.totalTokens
  · have heq : v.flushStreamVocoderChunk s = v.emitDelta s (v.windowDelta s) true := by
      have hcodes := hs.codes_ne_nil hmore
      rw [← buildChunk_eq hcodec hs.toSound hmore hframe, flushStreamVocoderChunk]
      simp only [hcodes, false_and, if_false, not_le.2 hmore]
    have hwindow := length_windowDelta hcodec hs.toSound
    obtain ⟨hsum, hhold, hzero⟩ :=
      emitDelta_samples (v := v) hs.toSound (v.windowDelta s) true
    have hdone : (v.emitDelta s (v.windowDelta s) true).1.held = 0 := by
      by_cases hcrossfade : 0 < v.streamCrossfadeSamples
      · refine (hhold hcrossfade ?_).1 rfl
        rw [hwindow]
        exact Nat.mul_pos (by omega) hframe
      · rw [hzero (by omega), hs.whole (by omega)]
    rw [heq]
    rw [hwindow, hdone] at hsum
    exact hsum
  · have hrest : s.totalTokens - s.lastVocodeTokens = 0 := by omega
    have hlaid : overlaid v.streamCrossfadeSamples s.held 0 = 0 := by simp [overlaid]
    rw [hrest, Nat.zero_mul, hlaid, flush_tail (not_lt.1 hmore)]

/-- The samples that chunks and the flush send from a state. -/
def remaining (v : S2ProVocoder K) (s : StreamVocoderState K)
    (chunks : List (List (List ℤ))) : ℕ := (v.streamedFrom s chunks).flatten.length

theorem remaining_nil (v : S2ProVocoder K) (s : StreamVocoderState K) :
    v.remaining s [] = sent (v.flushStreamVocoderChunk s).2 := by
  simp only [remaining, streamedFrom, feed, nil_append, sent_toList]

theorem remaining_cons (v : S2ProVocoder K) (s : StreamVocoderState K) (codes : List (List ℤ))
    (chunks : List (List (List ℤ))) :
    v.remaining s (codes :: chunks) = sent (v.buildStreamVocoderChunk s codes).2 +
      v.remaining (v.buildStreamVocoderChunk s codes).1 chunks := by
  simp only [remaining, streamedFrom, feed, append_assoc, flatten_append,
    length_append, sent_toList]

/-- Without a crossfade every token that has not been decoded brings its samples. -/
theorem remaining_of_no_crossfade (hcodec : v.codec.Exact) (hframe : 0 < v.codec.frameLength)
    (hcrossfade : v.streamCrossfadeSamples = 0) (hs : v.Steady s)
    (chunks : List (List (List ℤ))) :
    v.remaining s chunks =
      (s.totalTokens + tokenCount chunks - s.lastVocodeTokens) * v.codec.frameLength := by
  have hnone (held delta : ℕ) : overlaid v.streamCrossfadeSamples held delta = 0 := by
    rw [overlaid, hcrossfade, Nat.zero_min]
  induction chunks generalizing s with
  | nil =>
    have hsent := flushStreamVocoderChunk_samples hcodec hframe hs
    rw [hnone, hs.whole hcrossfade] at hsent
    rw [remaining_nil, tokenCount_nil]
    simpa using hsent
  | cons codes rest ih =>
    rw [remaining_cons, tokenCount_cons]
    by_cases hdue : s.totalTokens + codes.length < v.nextDue s
    · obtain ⟨hout, hs', htotal, hlast, -, -⟩ := buildStreamVocoderChunk_waits hs hdue
      rw [hout, ih hs', htotal, hlast, sent_none, Nat.zero_add, Nat.add_assoc]
    · obtain ⟨hs', htotal, hlast, hsum, -⟩ :=
        buildStreamVocoderChunk_decodes hcodec hframe hs (not_lt.1 hdue)
      have hbefore := hs.last_le
      rw [hnone, hs'.whole hcrossfade, hs.whole hcrossfade] at hsum
      rw [ih hs', htotal, hlast]
      calc sent (v.buildStreamVocoderChunk s codes).2 +
            (s.totalTokens + codes.length + tokenCount rest - (s.totalTokens + codes.length)) *
              v.codec.frameLength
          = (s.totalTokens + codes.length - s.lastVocodeTokens) * v.codec.frameLength +
              tokenCount rest * v.codec.frameLength := by
            rw [Nat.add_sub_cancel_left]
            omega
        _ = (s.totalTokens + (codes.length + tokenCount rest) - s.lastVocodeTokens) *
              v.codec.frameLength := by
            rw [← Nat.add_mul]
            congr 1
            omega

/-- While a tail is held back, every further token costs samples. -/
theorem remaining_of_held (hcodec : v.codec.Exact) (hframe : 0 < v.codec.frameLength)
    (hcrossfade : 0 < v.streamCrossfadeSamples) (hs : v.Steady s) (hheld : 0 < s.held)
    (chunks : List (List (List ℤ))) :
    v.remaining s chunks ≤ s.held +
      (s.totalTokens + tokenCount chunks - s.lastVocodeTokens) * v.codec.frameLength ∧
    (v.remaining s chunks = s.held +
        (s.totalTokens + tokenCount chunks - s.lastVocodeTokens) * v.codec.frameLength ↔
      s.totalTokens + tokenCount chunks = s.lastVocodeTokens) := by
  have hlaid {held delta : ℕ} (hheld : 0 < held) (hdelta : 0 < delta) :
      0 < overlaid v.streamCrossfadeSamples held delta := by
    unfold overlaid
    omega
  induction chunks generalizing s with
  | nil =>
    have hsent := flushStreamVocoderChunk_samples hcodec hframe hs
    have hbefore := hs.last_le
    rw [remaining_nil, tokenCount_nil, Nat.add_zero]
    refine ⟨by omega, fun heq => ?_, fun heq => ?_⟩
    · by_contra hne
      have hmore : 0 < s.totalTokens - s.lastVocodeTokens := by omega
      have hlost := hlaid hheld (Nat.mul_pos hmore hframe)
      omega
    · rw [heq, Nat.sub_self, Nat.zero_mul] at hsent ⊢
      have : overlaid v.streamCrossfadeSamples s.held 0 = 0 := by simp [overlaid]
      omega
  | cons codes rest ih =>
    rw [remaining_cons, tokenCount_cons]
    by_cases hdue : s.totalTokens + codes.length < v.nextDue s
    · obtain ⟨hout, hs', htotal, hlast, hheld', -⟩ := buildStreamVocoderChunk_waits hs hdue
      have hrest := ih hs' (hheld' ▸ hheld)
      rw [htotal, hlast, hheld', Nat.add_assoc] at hrest
      rw [hout, sent_none, Nat.zero_add]
      exact hrest
    · obtain ⟨hs', htotal, hlast, hsum, hheld'⟩ :=
        buildStreamVocoderChunk_decodes hcodec hframe hs (not_lt.1 hdue)
      have hnext := hs.due
      have hmore : 0 < s.totalTokens + codes.length - s.lastVocodeTokens := by omega
      have hlost := hlaid hheld (Nat.mul_pos hmore hframe)
      obtain ⟨hle, -⟩ := ih hs' (hheld' hcrossfade)
      rw [htotal, hlast, Nat.add_sub_cancel_left] at hle
      have hsplit : (s.totalTokens + (codes.length + tokenCount rest) - s.lastVocodeTokens) *
          v.codec.frameLength =
            (s.totalTokens + codes.length - s.lastVocodeTokens) * v.codec.frameLength +
              tokenCount rest * v.codec.frameLength := by
        rw [← Nat.add_mul]
        congr 1
        omega
      refine ⟨by omega, fun heq => ?_, fun heq => ?_⟩
      · omega
      · omega

end S2ProVocoder

/-- As soon as the tokens of the first window are there, no further ones arrive. -/
def Settled (streamStride fed : ℕ) (chunks : List (List (List ℤ))) : Prop :=
  ∀ front back, chunks = front ++ back → streamStride ≤ fed + tokenCount front → tokenCount back = 0

theorem settled_nil (streamStride fed : ℕ) : Settled streamStride fed [] := by
  intro front back hsplit _
  rw [(append_eq_nil_iff.1 hsplit.symm).2, tokenCount_nil]

/-- A chunk that does not reach the first window leaves the rest to be looked at. -/
theorem settled_cons (hfed : fed < streamStride) (codes : List (List ℤ))
    (chunks : List (List (List ℤ))) :
    Settled streamStride fed (codes :: chunks) ↔
      Settled streamStride (fed + codes.length) chunks := by
  constructor
  · intro h front back hsplit hreach
    refine h (codes :: front) back (by rw [hsplit, cons_append]) ?_
    rw [tokenCount_cons]
    omega
  · intro h front back hsplit hreach
    cases front with
    | nil => exact absurd hreach (by simpa using hfed)
    | cons first front =>
      obtain rfl := (List.cons.inj hsplit).1
      refine h front back (List.cons.inj hsplit).2 ?_
      rw [tokenCount_cons] at hreach
      omega

/-- From the first window on, settled says that nothing follows. -/
theorem settled_of_le (hfed : streamStride ≤ fed) (chunks : List (List (List ℤ))) :
    Settled streamStride fed chunks ↔ tokenCount chunks = 0 := by
  constructor
  · intro h
    exact h [] chunks rfl (by simpa using hfed)
  · intro h front back hsplit _
    rw [hsplit, tokenCount_append] at h
    omega

namespace S2ProVocoder

variable [Field K] {v : S2ProVocoder K} {s : StreamVocoderState K}

/-- Before the first window the samples of all tokens are ahead, and they all arrive if and only if
no token follows the first window. -/
theorem remaining_of_opening (hcodec : v.codec.Exact) (hframe : 0 < v.codec.frameLength)
    (hcrossfade : 0 < v.streamCrossfadeSamples) (hs : v.Steady s) (hheld : s.held = 0)
    (hlast : s.lastVocodeTokens = 0) (hnext : v.nextDue s = v.streamStride)
    (hfed : s.totalTokens < v.streamStride) (chunks : List (List (List ℤ))) :
    v.remaining s chunks = (s.totalTokens + tokenCount chunks) * v.codec.frameLength ↔
      Settled v.streamStride s.totalTokens chunks := by
  induction chunks generalizing s with
  | nil =>
    have hsent := flushStreamVocoderChunk_samples hcodec hframe hs
    have hlaid : overlaid v.streamCrossfadeSamples 0
      ((s.totalTokens - 0) * v.codec.frameLength) = 0 := by simp [overlaid]
    rw [hheld, hlast, hlaid, Nat.sub_zero] at hsent
    rw [remaining_nil, tokenCount_nil, Nat.add_zero]
    exact iff_of_true (by omega) (settled_nil _ _)
  | cons codes rest ih =>
    rw [remaining_cons, tokenCount_cons, settled_cons hfed]
    by_cases hdue : s.totalTokens + codes.length < v.nextDue s
    · obtain ⟨hout, hs', htotal, hlast', hheld', hnext'⟩ := buildStreamVocoderChunk_waits hs hdue
      have hrest := ih hs' (hheld'.trans hheld) (hlast'.trans hlast) (hnext'.trans hnext) (by omega)
      rw [htotal, Nat.add_assoc] at hrest
      rw [hout, sent_none, Nat.zero_add]
      exact hrest
    · obtain ⟨hs', htotal, hlast', hsum, hheld'⟩ :=
        buildStreamVocoderChunk_decodes hcodec hframe hs (not_lt.1 hdue)
      obtain ⟨hle, hiff⟩ :=
        remaining_of_held hcodec hframe hcrossfade hs' (hheld' hcrossfade) rest
      have hlaid : overlaid v.streamCrossfadeSamples 0
          ((s.totalTokens + codes.length - 0) * v.codec.frameLength) = 0 := by simp [overlaid]
      rw [hheld, hlast, hlaid, Nat.sub_zero] at hsum
      rw [htotal, hlast', Nat.add_sub_cancel_left] at hle hiff
      have hsplit : (s.totalTokens + (codes.length + tokenCount rest)) * v.codec.frameLength =
          (s.totalTokens + codes.length) * v.codec.frameLength +
            tokenCount rest * v.codec.frameLength := by
        rw [← Nat.add_assoc, Nat.add_mul]
      rw [hsplit, settled_of_le (by omega)]
      constructor
      · omega
      · omega

/-- Without samples in a frame no window has samples to emit. -/
theorem buildChunk_frameless (hcodec : v.codec.Exact) (hframe : v.codec.frameLength = 0)
    (htail : s.pendingTail = none) (isFinal : Bool) : v.buildChunk s isFinal = (s, none) := by
  have hwindow : (v.windowDelta s).length = 0 := by
    simp only [windowDelta, length_drop, hcodec _, hframe, Nat.mul_zero, Nat.zero_sub]
  simp only [buildChunk, htail, hwindow, ite_self, if_true]

/-- Without samples in a frame nothing is sent. -/
theorem remaining_frameless (hcodec : v.codec.Exact) (hframe : v.codec.frameLength = 0)
    (htail : s.pendingTail = none) (chunks : List (List (List ℤ))) :
    v.remaining s chunks = 0 := by
  induction chunks generalizing s with
  | nil =>
    rw [remaining_nil, flushStreamVocoderChunk, buildChunk_frameless hcodec hframe htail, htail]
    simp
  | cons codes rest ih =>
    have htail' : (v.buildStreamVocoderChunk s codes).1.pendingTail = none ∧
        (v.buildStreamVocoderChunk s codes).2 = none := by
      simp only [buildStreamVocoderChunk, buildChunk_frameless (s := { s with
        codes := s.codes ++ [codes], totalTokens := s.totalTokens + codes.length })
        hcodec hframe htail]
      by_cases hdue : s.totalTokens + codes.length <
          (if s.nextVocodeTokens ≠ 0 then s.nextVocodeTokens else v.streamStride)
      · rw [if_pos hdue]
        exact ⟨htail, rfl⟩
      · rw [if_neg hdue]
        exact ⟨htail, rfl⟩
    rw [remaining_cons, htail'.2, ih htail'.1, sent_none]

/-- The stream messages have as many samples as the full decode, and the client appends nothing of
the terminal result to them. -/
structure DeliversOnce (v : S2ProVocoder K) (chunks : List (List (List ℤ))) : Prop where
  samples : (v.streamed chunks).flatten.length = tokenCount chunks * v.codec.frameLength
  client : ∀ audio, v.vocodePayload chunks.flatten = .ok audio →
    clientDeltas (v.streamed chunks) 0 audio = v.streamed chunks

omit [Field K] in
/-- The terminal result has all samples. -/
theorem length_vocodePayload (hcodec : v.codec.Exact) {outputCodes : List (List ℤ)}
    {audio : List K} (h : v.vocodePayload outputCodes = .ok audio) :
    audio.length = outputCodes.length * v.codec.frameLength := by
  unfold vocodePayload at h
  split at h
  · cases h
  · obtain rfl := Except.ok.inj h
    rw [length_take, hcodec, length_map, Nat.min_self]

omit [Field K] in
/-- The client appends the stream messages, and what they have not brought of the terminal
result. -/
theorem clientDeltas_eq (deltas : List (List K)) (emittedSamples : ℕ) (terminal : List K) :
    clientDeltas deltas emittedSamples terminal =
      deltas ++ (selectAudioDelta terminal (emittedSamples + deltas.flatten.length)
        true).1.toList := by
  induction deltas generalizing emittedSamples with
  | nil => rfl
  | cons audio rest ih =>
    rw [clientDeltas, ih]
    simp [selectAudioDelta, Nat.add_assoc]

/-- Every sample position is delivered once if and only if there is no crossfade, or no token
follows the first window. -/
theorem deliversOnce_iff (hcodec : v.codec.Exact) (chunks : List (List (List ℤ))) :
    v.DeliversOnce chunks ↔
      v.streamCrossfadeSamples = 0 ∨ v.codec.frameLength = 0 ∨ Settled v.streamStride 0 chunks := by
  have hcount : (v.streamed chunks).flatten.length = v.remaining .init chunks := rfl
  have hsamples : v.DeliversOnce chunks ↔
      v.remaining .init chunks = tokenCount chunks * v.codec.frameLength := by
    refine ⟨fun h => h.samples, fun h => ⟨h, fun audio haudio => ?_⟩⟩
    have hlength : audio.length = tokenCount chunks * v.codec.frameLength :=
      length_vocodePayload hcodec haudio
    rw [clientDeltas_eq, hcount, h, ← hlength]
    simp [selectAudioDelta]
  rw [hsamples]
  by_cases hframe : v.codec.frameLength = 0
  · rw [remaining_frameless hcodec hframe rfl, hframe]
    simp
  · have hpos : 0 < v.codec.frameLength := Nat.pos_of_ne_zero hframe
    by_cases hcrossfade : v.streamCrossfadeSamples = 0
    · rw [remaining_of_no_crossfade hcodec hpos hcrossfade (steady_init v)]
      simp [StreamVocoderState.init, hcrossfade]
    · have hopening := remaining_of_opening hcodec hpos (Nat.pos_of_ne_zero hcrossfade)
        (steady_init v) rfl rfl rfl v.stride_pos chunks
      have hfed : (StreamVocoderState.init : StreamVocoderState K).totalTokens = 0 := rfl
      rw [hfed, Nat.zero_add] at hopening
      simp only [hopening, hcrossfade, hframe, false_or]

/-- A codec with two samples for each token. -/
def pairCodec : S2ProCodec ℚ := ⟨fun codes => codes.flatMap fun _ => [1, -1], 2, 0⟩

/-- A stride of one token, a follow-up stride of two and a crossfade of one sample. -/
def pairVocoder : S2ProVocoder ℚ := ⟨pairCodec, 1, 2, 1, 1, Nat.one_pos, Nat.two_pos⟩

theorem pairCodec_exact : pairCodec.Exact := by
  intro codes
  simp only [pairCodec, length_flatMap, length_cons, length_nil]
  induction codes with
  | nil => rfl
  | cons code rest ih => simp [ih]; omega

/-- A first window and one more token. -/
theorem deliversOnce_iff_pair :
    ¬ pairVocoder.DeliversOnce [[[0, 0]], [[0, 0]]] := by
  rw [deliversOnce_iff (v := pairVocoder) pairCodec_exact]
  rintro (h | h | h)
  · exact absurd h (by decide)
  · exact absurd h (by decide)
  · exact absurd (h [[[0, 0]]] [[[0, 0]]] rfl (by decide)) (by decide)

/-- The token after the first window costs the stream a sample, and the client appends the end of
the terminal result once more. -/
theorem crossfade_loses :
    pairVocoder.codec.Exact ∧
      S2ProVocoder.create pairCodec 1 2 (some 1) 1 1 0 = .ok pairVocoder ∧
      pairVocoder.streamed [[[0, 0]], [[0, 0]]] = [[1], [-1, -1]] ∧
      clientDeltas (pairVocoder.streamed [[[0, 0]], [[0, 0]]]) 0 [1, -1, 1, -1] =
        [[1], [-1, -1], [-1]] ∧
      ¬ pairVocoder.DeliversOnce [[[0, 0]], [[0, 0]]] := by
  refine ⟨pairCodec_exact, rfl, by decide +kernel, by decide +kernel, fun h => ?_⟩
  exact absurd h.samples (by decide +kernel)

end S2ProVocoder

end Omni.Tts
