import Omni.Library.Transition
import Mathlib.Data.List.Basic
import Mathlib.Data.List.Induction
import Mathlib.Data.Rat.Defs

/-!
# Audio of a realtime session

A session appends the bytes of each `input_audio_buffer.append` to its buffer, takes the new bytes
back from the end of the buffer and gives them to the voice detector. The detector works on frames
of 1024 bytes. When it reports the end of speech, the utterance is cut out of the buffer, and
buffer and detector start afresh.
-/

namespace Omni.Realtime

open Transition List

/-- `VAD_FRAME_SAMPLES`. -/
def vadFrameSamples : ℕ := 512

/-- `VAD_SAMPLE_RATE`. -/
def vadSampleRate : ℕ := 16000

/-- `VADConfig` with its defaults. -/
structure VADConfig where
  threshold : ℚ := 1 / 2
  prefixPaddingMs : ℕ := 300
  silenceDurationMs : ℕ := 500

/-- `VADEvent`. -/
inductive VADEvent
  | speechStarted
  | speechStopped
  deriving DecidableEq

/-- `Emit`. -/
structure Emit where
  eventType : VADEvent
  sampleOffset : ℕ
  deriving DecidableEq

/-- The configuration and the model: `infer` gives the probability for the last of the frames that
the model has seen since its last reset. -/
structure Detector (B : Type) where
  config : VADConfig
  infer : List (List B) → ℚ

/-- `StreamingVAD`. `inferred` keeps the frames that the model has seen since its last reset. -/
structure StreamingVAD (B : Type) where
  leftoverPcm : List B
  inferred : List (List B)
  samplesConsumed : ℕ
  isSpeech : Bool
  silenceRunSamples : ℕ
  lastSpeechOffset : ℕ
  deriving DecidableEq

variable {B : Type} {chunk : List B}

namespace StreamingVAD

/-- The detector after `reset`, and at the beginning. -/
def fresh (B : Type) : StreamingVAD B := ⟨[], [], 0, false, 0, 0⟩

/-- Bytes are added to the leftover. -/
def extend (vad : StreamingVAD B) (pcm : List B) : StreamingVAD B :=
  { vad with leftoverPcm := vad.leftoverPcm ++ pcm }

/-- One iteration of the loop of `process`. -/
def frame (d : Detector B) (vad : StreamingVAD B) : StreamingVAD B × List Emit :=
  let vad := { vad with
    leftoverPcm := vad.leftoverPcm.drop (vadFrameSamples * 2)
    inferred := vad.inferred ++ [vad.leftoverPcm.take (vadFrameSamples * 2)]
    samplesConsumed := vad.samplesConsumed + vadFrameSamples }
  if d.config.threshold ≤ d.infer vad.inferred then
    let spoken := { vad with silenceRunSamples := 0, lastSpeechOffset := vad.samplesConsumed }
    if vad.isSpeech then (spoken, [])
    else
      -- the subtraction stops at zero, as `max(0, …)` does
      let pad := d.config.prefixPaddingMs * vadSampleRate / 1000
      ({ spoken with isSpeech := true },
        [⟨.speechStarted, vad.samplesConsumed - vadFrameSamples - pad⟩])
  else
    let silent := { vad with silenceRunSamples := vad.silenceRunSamples + vadFrameSamples }
    if vad.isSpeech ∧
        d.config.silenceDurationMs * vadSampleRate / 1000 ≤ silent.silenceRunSamples then
      ({ silent with isSpeech := false }, [⟨.speechStopped, vad.lastSpeechOffset⟩])
    else (silent, [])

/-- The loop of `process`, with a bound on its iterations. -/
def frames (d : Detector B) : ℕ → StreamingVAD B → StreamingVAD B × List Emit
  | 0, vad => (vad, [])
  | bound + 1, vad =>
    if vadFrameSamples * 2 ≤ vad.leftoverPcm.length then
      let (next, emits) := vad.frame d
      let (last, more) := frames d bound next
      (last, emits ++ more)
    else (vad, [])

/-- `process`. Every iteration takes bytes, so their number bounds the iterations. -/
def process (d : Detector B) (vad : StreamingVAD B) (pcm : List B) :
    StreamingVAD B × List Emit :=
  if pcm.isEmpty then (vad, [])
  else (vad.extend pcm).frames d (vad.extend pcm).leftoverPcm.length

end StreamingVAD

/-- `offsets_to_ms`. -/
def offsetsToMs (samples : ℕ) : ℕ := samples * 1000 / vadSampleRate

/-- `buf[i:]`. -/
def sliceFrom (buf : List B) (i : ℤ) : List B :=
  if i < 0 then buf.drop (buf.length + i).toNat else buf.drop i.toNat

/-- `RealtimeAudioBuffer.tail`. -/
def tail (buf : List B) (numBytes : ℕ) : List B := sliceFrom buf (-numBytes)

/-- What the session does about its audio: the times that it reports, and the utterances that it
commits, as positions in the stream of all bytes appended so far, with the bytes. -/
inductive AudioEvent (B : Type)
  | speechStarted (audioStartMs : ℕ)
  | speechStopped (audioEndMs : ℕ)
  | committed (startByte endByte : ℕ) (payload : List B)
  deriving DecidableEq

/-- The audio side of a session. `dropped` counts the bytes of the stream before the buffer, and
`fed` keeps the bytes given to the detector. -/
structure AudioSession (B : Type) where
  audioBuffer : List B
  vad : StreamingVAD B
  bufferOriginSamples : ℕ
  utteranceStartByte : Option ℕ
  dropped : ℕ
  fed : List B
  events : List (AudioEvent B)
  deriving DecidableEq

namespace AudioSession

/-- A session that has just been opened. -/
def init (B : Type) : AudioSession B := ⟨[], .fresh B, 0, none, 0, [], []⟩

/-- `drop_buffer_and_reset_vad`. -/
def dropBufferAndResetVad (s : AudioSession B) : AudioSession B :=
  { s with
    audioBuffer := []
    vad := .fresh B
    bufferOriginSamples := s.bufferOriginSamples + s.audioBuffer.length / 2
    utteranceStartByte := none
    dropped := s.dropped + s.audioBuffer.length }

/-- `auto_commit_utterance`. -/
def autoCommit (s : AudioSession B) (endSampleOffset : ℕ) : AudioSession B :=
  let startByte := s.utteranceStartByte.getD 0
  let endByte := min (endSampleOffset * 2) s.audioBuffer.length
  if s.audioBuffer.length / 2 = 0 ∨ endByte ≤ startByte then s
  else
    { s.dropBufferAndResetVad with
      events := s.events ++ [.committed (s.dropped + startByte) (s.dropped + endByte)
        ((s.audioBuffer.take endByte).drop startByte)] }

/-- `handle_vad_emit`. -/
def handleVadEmit (s : AudioSession B) (emit : Emit) : AudioSession B :=
  let timestampMs := offsetsToMs (s.bufferOriginSamples + emit.sampleOffset)
  match emit.eventType with
  | .speechStarted =>
    { s with
      utteranceStartByte := some (min (emit.sampleOffset * 2) s.audioBuffer.length)
      events := s.events ++ [.speechStarted timestampMs] }
  | .speechStopped =>
    autoCommit { s with events := s.events ++ [.speechStopped timestampMs] } emit.sampleOffset

/-- `handle_audio_append` with the decoded bytes of the message. -/
def handleAudioAppend (d : Detector B) (maxBytes : ℕ) (s : AudioSession B) (chunk : List B) :
    Option (AudioSession B) :=
  if maxBytes < s.audioBuffer.length + chunk.length then none
  else
    let buffer := s.audioBuffer ++ chunk
    let newBytes := tail buffer chunk.length
    let (vad, emits) := s.vad.process d newBytes
    some (emits.foldl handleVadEmit
      { s with audioBuffer := buffer, vad := vad, fed := s.fed ++ newBytes })

end AudioSession

/-- The detector reports the end of speech among these. -/
def stops (emits : List Emit) : Bool :=
  emits.any fun emit => emit.eventType = VADEvent.speechStopped

/-- An empty message finds the buffer empty, and the detector does not report the end of speech
before the last byte of the message. -/
def EndsUtterance (d : Detector B) (s : AudioSession B) (chunk : List B) : Prop :=
  (chunk.isEmpty = true → s.audioBuffer.isEmpty = true) ∧
    stops (s.vad.process d chunk.dropLast).2 = false

/-- Starts and stops alternate, a start first unless speech goes on, and every stop lies behind the
start before it. -/
def Alternate : Option ℕ → List Emit → Prop
  | _, [] => True
  | none, e :: emits => e.eventType = .speechStarted ∧ Alternate (some e.sampleOffset) emits
  | some start, e :: emits =>
    e.eventType = .speechStopped ∧ start < e.sampleOffset ∧ Alternate none emits

section Vad

variable {d : Detector B} {vad vad' : StreamingVAD B} {emits : List Emit}

namespace StreamingVAD

/-- An iteration takes a frame out of the leftover. -/
theorem frame_leftover : (vad.frame d).1.leftoverPcm = vad.leftoverPcm.drop (vadFrameSamples * 2) ∧
    (vad.frame d).1.samplesConsumed = vad.samplesConsumed + vadFrameSamples := by
  unfold frame
  dsimp only
  split
  · split <;> exact ⟨rfl, rfl⟩
  · split <;> exact ⟨rfl, rfl⟩

/-- Bytes after a frame do not matter to it. -/
theorem frame_extend (h : vadFrameSamples * 2 ≤ vad.leftoverPcm.length) (pcm : List B) :
    (vad.extend pcm).frame d = ((vad.frame d).1.extend pcm, (vad.frame d).2) := by
  have htake := @take_append_of_le_length _ _ pcm _ h
  have hdrop := @drop_append_of_le_length _ _ pcm _ h
  simp only [frame, extend, htake, hdrop]
  split
  · split <;> rfl
  · split <;> rfl

/-- The loop takes frames as long as there are any: from the first state it comes to the second,
with these emits. -/
inductive Frames (d : Detector B) : StreamingVAD B → StreamingVAD B → List Emit → Prop
  | rest {vad : StreamingVAD B} : vad.leftoverPcm.length < vadFrameSamples * 2 → Frames d vad vad []
  | next {vad last : StreamingVAD B} {more : List Emit} :
      vadFrameSamples * 2 ≤ vad.leftoverPcm.length → Frames d (vad.frame d).1 last more →
      Frames d vad last ((vad.frame d).2 ++ more)

/-- The bound on the iterations is no restriction. -/
theorem frames_spec {bound : ℕ} (h : vad.leftoverPcm.length ≤ bound) :
    Frames d vad (vad.frames d bound).1 (vad.frames d bound).2 := by
  induction bound generalizing vad with
  | zero => exact .rest (by simp [vadFrameSamples]; omega)
  | succ bound ih =>
    unfold frames
    split
    next hfull =>
      refine .next hfull (ih ?_)
      rw [frame_leftover.1, length_drop]
      simp only [vadFrameSamples] at hfull ⊢
      omega
    · exact .rest (by omega)

variable {last : StreamingVAD B}

theorem Frames.unique {last' : StreamingVAD B} {emits' : List Emit} (h : Frames d vad last emits)
    (h' : Frames d vad last' emits') :
    last = last' ∧ emits = emits' := by
  induction h generalizing last' emits' with
  | rest hshort =>
    cases h' with
    | rest _ => exact ⟨rfl, rfl⟩
    | next hfull _ => omega
  | next hfull _ ih =>
    cases h' with
    | rest hshort => omega
    | next _ hrest =>
      obtain ⟨hlast, hmore⟩ := ih hrest
      exact ⟨hlast, by rw [hmore]⟩

/-- Frames are taken from a stream of bytes wherever it is cut. -/
theorem Frames.append {pcm : List B} {final : StreamingVAD B} {more : List Emit}
    (h : Frames d vad last emits) (h' : Frames d (last.extend pcm) final more) :
    Frames d (vad.extend pcm) final (emits ++ more) := by
  induction h with
  | rest _ => exact h'
  | @next vad last emits hfull _ ih =>
    have hframe := frame_extend (d := d) hfull pcm
    have hlength : vadFrameSamples * 2 ≤ (vad.extend pcm).leftoverPcm.length := by
      simp only [extend, length_append]
      omega
    have hrest : Frames d ((vad.extend pcm).frame d).1 final (emits ++ more) := by
      rw [hframe]
      exact ih h'
    have hnext := Frames.next hlength hrest
    rwa [hframe, ← append_assoc] at hnext

/-- After the loop, less than a frame is left. -/
theorem Frames.short (h : Frames d vad last emits) :
    last.leftoverPcm.length < vadFrameSamples * 2 := by
  induction h with
  | rest hshort => exact hshort
  | next _ _ ih => exact ih

theorem process_spec (hshort : vad.leftoverPcm.length < vadFrameSamples * 2) (pcm : List B) :
    Frames d (vad.extend pcm) (vad.process d pcm).1 (vad.process d pcm).2 := by
  unfold process
  split
  next hempty =>
    obtain rfl := isEmpty_iff.mp hempty
    have hsame : vad.extend [] = vad := by simp [extend]
    rw [hsame]
    exact .rest hshort
  · exact frames_spec (Nat.le_refl _)

/-- **Chunk rule.** The detector does not see where its bytes are cut. -/
theorem process_append (hshort : vad.leftoverPcm.length < vadFrameSamples * 2)
    (first second : List B) :
    vad.process d (first ++ second) =
      (((vad.process d first).1.process d second).1,
        (vad.process d first).2 ++ ((vad.process d first).1.process d second).2) := by
  have hfirst := process_spec (d := d) hshort first
  have hsecond := process_spec (d := d) hfirst.short second
  have hboth := hfirst.append hsecond
  have hextend : (vad.extend first).extend second = vad.extend (first ++ second) := by
    simp [extend]
  rw [hextend] at hboth
  obtain ⟨hlast, hemits⟩ := (process_spec (d := d) hshort (first ++ second)).unique hboth
  exact Prod.ext hlast hemits

/-- What the loop consumes leaves the leftover, and the start of speech is reported inside of what
has been consumed. -/
theorem Frames.consumed (h : Frames d vad last emits) :
    2 * last.samplesConsumed + last.leftoverPcm.length =
        2 * vad.samplesConsumed + vad.leftoverPcm.length ∧
      vad.samplesConsumed ≤ last.samplesConsumed ∧
      ∀ e ∈ emits, e.eventType = .speechStarted → e.sampleOffset ≤ last.samplesConsumed := by
  induction h with
  | rest _ => exact ⟨rfl, Nat.le_refl _, fun e he => by simp at he⟩
  | @next vad last emits hfull _ ih =>
    obtain ⟨hleft, hconsumed⟩ := @frame_leftover _ d vad
    obtain ⟨hsum, hle, hoffsets⟩ := ih
    rw [hleft, hconsumed, length_drop] at hsum
    refine ⟨by omega, by omega, fun e he hstarted => ?_⟩
    rcases mem_append.mp he with hfirst | hlater
    · have hoffset : e.sampleOffset ≤ vad.samplesConsumed := by
        unfold frame at hfirst
        dsimp only at hfirst
        split at hfirst
        · split at hfirst
          · simp at hfirst
          · obtain rfl := mem_singleton.mp hfirst
            simp only
            omega
        · split at hfirst
          · obtain rfl := mem_singleton.mp hfirst
            cases hstarted
          · simp at hfirst
      omega
    · exact hoffsets e hlater hstarted

/-- The detector has reported a start of speech, and no stop since. -/
structure Speaks (vad : StreamingVAD B) (start : Option ℕ) : Prop where
  isSpeech : vad.isSpeech = start.isSome
  before : ∀ offset ∈ start, offset < vad.lastSpeechOffset
  consumed : vad.lastSpeechOffset ≤ vad.samplesConsumed

variable {start : Option ℕ}

/-- A frame reports at most the next event. -/
theorem Speaks.frame (h : vad.Speaks start) : ∃ next, (vad.frame d).1.Speaks next ∧
    ∀ more, Alternate next more → Alternate start ((vad.frame d).2 ++ more) := by
  obtain ⟨hspeech, hbefore, hconsumed⟩ := h
  unfold StreamingVAD.frame
  dsimp only
  split_ifs with hloud hgoes hstops
  · refine ⟨start, ⟨hspeech, fun offset hoffset => ?_, le_rfl⟩, fun _ => id⟩
    exact (hbefore offset hoffset).trans_le (hconsumed.trans (Nat.le_add_right _ _))
  · have hnone : start = none := by simpa [hgoes] using hspeech.symm
    subst hnone
    refine ⟨some _, ⟨rfl, ?_, le_rfl⟩, fun more hmore => ⟨rfl, hmore⟩⟩
    simp [vadFrameSamples]
    omega
  · obtain ⟨offset, rfl⟩ := Option.isSome_iff_exists.mp (hspeech.symm.trans hstops.1)
    refine ⟨none, ⟨rfl, nofun, ?_⟩, fun more hmore => ⟨rfl, hbefore offset rfl, hmore⟩⟩
    exact hconsumed.trans (Nat.le_add_right _ _)
  · exact ⟨start, ⟨hspeech, hbefore, hconsumed.trans (Nat.le_add_right _ _)⟩, fun _ => id⟩

theorem Speaks.frames (h : vad.Speaks start) (hframes : Frames d vad last emits) :
    ∃ next, last.Speaks next ∧ ∀ more, Alternate next more → Alternate start (emits ++ more) := by
  induction hframes generalizing start with
  | rest _ => exact ⟨start, h, fun _ => id⟩
  | next _ _ ih =>
    obtain ⟨middle, hmiddle, hfirst⟩ := h.frame (d := d)
    obtain ⟨next, hnext, hrest⟩ := ih hmiddle
    exact ⟨next, hnext, fun more hmore => append_assoc .. ▸ hfirst _ (hrest more hmore)⟩

/-- What the detector reports while it is given chunk after chunk. -/
def heard (d : Detector B) : StreamingVAD B → List (List B) → List Emit
  | _, [] => []
  | vad, chunk :: chunks => (vad.process d chunk).2 ++ heard d (vad.process d chunk).1 chunks

/-- The reports go on as they have begun. -/
theorem Speaks.heard (h : vad.Speaks start)
    (hshort : vad.leftoverPcm.length < vadFrameSamples * 2) (chunks : List (List B)) :
    Alternate start (vad.heard d chunks) := by
  induction chunks generalizing vad start with
  | nil => cases start <;> trivial
  | cons chunk chunks ih =>
    have hspec := process_spec (d := d) hshort chunk
    have hextended : (vad.extend chunk).Speaks start := ⟨h.isSpeech, h.before, h.consumed⟩
    obtain ⟨next, hnext, hmore⟩ := hextended.frames hspec
    exact hmore _ (ih hnext hspec.short)

/-- Whatever the model says about the frames and wherever the bytes are cut, a detector reports
starts and stops of speech in turn, and every stop behind its start. -/
theorem speech_alternates (d : Detector B) (chunks : List (List B)) :
    Alternate none ((fresh B).heard d chunks) :=
  Speaks.heard ⟨rfl, by simp, le_rfl⟩ (by simp [fresh, vadFrameSamples]) chunks

end StreamingVAD

end Vad

section Session

variable {d : Detector B} {maxBytes : ℕ} {s t : AudioSession B} {emits : List Emit}
  {first second : List B}

namespace AudioSession

/-- Bytes are added to the buffer, and the detector has processed them. -/
def grow (s : AudioSession B) (pcm : List B) (vad : StreamingVAD B) (fed : List B) :
    AudioSession B :=
  { s with audioBuffer := s.audioBuffer ++ pcm, vad := vad, fed := fed }

/-- The new bytes are the end of the buffer, unless there are none. -/
theorem tail_append (buf : List B) (h : chunk ≠ []) :
    tail (buf ++ chunk) chunk.length = chunk := by
  have hpos : 0 < chunk.length := length_pos_iff.mpr h
  have hneg : -(chunk.length : ℤ) < 0 := by omega
  have hstart : (((buf ++ chunk).length : ℤ) + -(chunk.length : ℤ)).toNat = buf.length := by
    rw [length_append]
    omega
  rw [tail, sliceFrom, if_pos hneg, hstart, drop_left]

theorem handleAudioAppend_eq (h : chunk ≠ []) :
    s.handleAudioAppend d maxBytes chunk =
      if maxBytes < s.audioBuffer.length + chunk.length then none
      else some ((s.vad.process d chunk).2.foldl handleVadEmit
        (s.grow chunk (s.vad.process d chunk).1 (s.fed ++ chunk))) := by
  simp only [handleAudioAppend, tail_append s.audioBuffer h, grow]

/-- Reports of the start of speech change nothing but the start of the utterance. -/
theorem foldl_starts (hstops : stops emits = false)
    (hinside : ∀ e ∈ emits, e.eventType = .speechStarted →
      e.sampleOffset * 2 ≤ s.audioBuffer.length) :
    (∀ pcm vad fed, emits.foldl handleVadEmit (s.grow pcm vad fed) =
      (emits.foldl handleVadEmit s).grow pcm vad fed) ∧
    (emits.foldl handleVadEmit s).audioBuffer = s.audioBuffer ∧
    (emits.foldl handleVadEmit s).vad = s.vad ∧ (emits.foldl handleVadEmit s).fed = s.fed := by
  induction emits generalizing s with
  | nil => exact ⟨fun _ _ _ => rfl, rfl, rfl, rfl⟩
  | cons e emits ih =>
    simp only [stops, any_cons, Bool.or_eq_false_iff, decide_eq_false_iff_not] at hstops
    have hstarted : e.eventType = .speechStarted := by
      cases he : e.eventType with
      | speechStarted => rfl
      | speechStopped => exact absurd he hstops.1
    have hle : e.sampleOffset * 2 ≤ s.audioBuffer.length := hinside e (by simp) hstarted
    have hbuffer : (s.handleVadEmit e).audioBuffer = s.audioBuffer := by
      simp [handleVadEmit, hstarted]
    have hvad : (s.handleVadEmit e).vad = s.vad := by simp [handleVadEmit, hstarted]
    have hfed : (s.handleVadEmit e).fed = s.fed := by simp [handleVadEmit, hstarted]
    obtain ⟨hgrow, hrest⟩ := ih (s := s.handleVadEmit e) hstops.2 fun e' he' h' => by
      rw [hbuffer]
      exact hinside e' (mem_cons_of_mem _ he') h'
    rw [hbuffer, hvad, hfed] at hrest
    refine ⟨fun pcm vad fed => ?_, hrest⟩
    have hone : (s.grow pcm vad fed).handleVadEmit e = (s.handleVadEmit e).grow pcm vad fed := by
      have hmin : min (e.sampleOffset * 2) (s.audioBuffer ++ pcm).length =
          min (e.sampleOffset * 2) s.audioBuffer.length := by
        rw [length_append]
        omega
      simp only [handleVadEmit, hstarted, grow, hmin]
    rw [foldl_cons, foldl_cons, hone, hgrow]

end AudioSession

/-- The buffer holds what the detector has been given since its last reset. -/
structure Aligned (s : AudioSession B) : Prop where
  short : s.vad.leftoverPcm.length < vadFrameSamples * 2
  buffered : s.audioBuffer.length = 2 * s.vad.samplesConsumed + s.vad.leftoverPcm.length

theorem aligned_init : Aligned (AudioSession.init B) where
  short := by simp [AudioSession.init, StreamingVAD.fresh, vadFrameSamples]
  buffered := rfl

/-- **Cut rule.** A message in whose first part speech does not end is as good as two. -/
theorem append_split (h : Aligned s) (hfirst : first ≠ []) (hsecond : second ≠ [])
    (hstops : stops (s.vad.process d first).2 = false) :
    s.handleAudioAppend d maxBytes (first ++ second) =
      (s.handleAudioAppend d maxBytes first).bind fun t =>
        t.handleAudioAppend d maxBytes second := by
  have hprocess := StreamingVAD.process_append (d := d) h.short first second
  obtain ⟨hsum, -, hoffsets⟩ := (StreamingVAD.process_spec (d := d) h.short first).consumed
  simp only [StreamingVAD.extend, length_append] at hsum
  have hinside : ∀ e ∈ (s.vad.process d first).2, e.eventType = .speechStarted →
      e.sampleOffset * 2 ≤
        (s.grow first (s.vad.process d first).1 (s.fed ++ first)).audioBuffer.length := by
    intro e he hstarted
    have hoffset := hoffsets e he hstarted
    have hbuffered := h.buffered
    simp only [AudioSession.grow, length_append]
    omega
  obtain ⟨hgrow, hbuffer, hvad, hfed⟩ := AudioSession.foldl_starts hstops hinside
  rw [AudioSession.handleAudioAppend_eq (by simp [hfirst]),
    AudioSession.handleAudioAppend_eq hfirst]
  by_cases hover : maxBytes < s.audioBuffer.length + first.length
  · rw [if_pos hover, if_pos (by rw [length_append]; omega)]
    rfl
  · have hbytes : (s.audioBuffer ++ first).length + second.length =
        s.audioBuffer.length + (first ++ second).length := by
      simp only [length_append]
      omega
    have htwice : ∀ vad fed, s.grow (first ++ second) vad fed =
        (s.grow first (s.vad.process d first).1 (s.fed ++ first)).grow second vad fed := by
      simp [AudioSession.grow]
    rw [if_neg hover, Option.bind_some, AudioSession.handleAudioAppend_eq hsecond, hbuffer, hvad,
      hfed, hprocess, foldl_append, htwice, hgrow]
    simp only [AudioSession.grow, append_assoc] at hbytes ⊢
    rw [hbytes]

/-- Handling a change keeps buffer and detector together. -/
theorem aligned_handleVadEmit (h : Aligned s) (e : Emit) : Aligned (s.handleVadEmit e) := by
  unfold AudioSession.handleVadEmit
  split
  · exact ⟨h.short, h.buffered⟩
  · unfold AudioSession.autoCommit
    dsimp only
    split
    · exact ⟨h.short, h.buffered⟩
    · exact ⟨aligned_init.short, rfl⟩

/-- A message that is not empty keeps buffer and detector together. -/
theorem aligned_append (h : Aligned s) (hchunk : chunk ≠ [])
    (happend : s.handleAudioAppend d maxBytes chunk = some t) : Aligned t := by
  rw [AudioSession.handleAudioAppend_eq hchunk] at happend
  obtain ⟨-, hnext⟩ := Option.ite_none_left_eq_some.mp happend
  cases hnext
  have hframes := StreamingVAD.process_spec (d := d) h.short chunk
  obtain ⟨hsum, -⟩ := hframes.consumed
  have hgrown : Aligned (s.grow chunk (s.vad.process d chunk).1 (s.fed ++ chunk)) := by
    refine ⟨hframes.short, ?_⟩
    have hbuffered := h.buffered
    simp only [AudioSession.grow, StreamingVAD.extend, length_append] at hsum ⊢
    omega
  generalize (s.vad.process d chunk).2 = emits
  generalize s.grow chunk (s.vad.process d chunk).1 (s.fed ++ chunk) = grown at hgrown
  induction emits generalizing grown with
  | nil => exact hgrown
  | cons e emits ih => exact ih _ (aligned_handleVadEmit hgrown e)

/-- An empty message changes nothing when the buffer is empty. -/
theorem append_nil (hempty : s.audioBuffer = [])
    (happend : s.handleAudioAppend d maxBytes [] = some t) : t = s := by
  have htail : tail ([] : List B) 0 = [] := rfl
  simp only [AudioSession.handleAudioAppend, hempty, List.append_nil, List.length_nil, htail,
    StreamingVAD.process, List.isEmpty_nil, if_true, List.foldl_nil] at happend
  split at happend
  · cases happend
  · cases happend
    rw [← hempty]

/-- The session after the bytes of a message, sent one by one. -/
def appendBytes (d : Detector B) (maxBytes : ℕ) (s : AudioSession B) (bytes : List B) :
    Option (AudioSession B) :=
  exec (AudioSession.handleAudioAppend d maxBytes) s (bytes.map fun b => [b])

/-- A message that does not go on after the end of an utterance is as good as its bytes one by
one. -/
theorem append_eq_bytes (h : Aligned s) (hends : EndsUtterance d s chunk)
    (happend : s.handleAudioAppend d maxBytes chunk = some t) :
    appendBytes d maxBytes s chunk = some t ∧ Aligned t := by
  induction chunk using List.reverseRecOn generalizing t with
  | nil =>
    obtain rfl := append_nil (isEmpty_iff.mp (hends.1 rfl)) happend
    exact ⟨rfl, h⟩
  | append_singleton chunk b ih =>
    have haligned : Aligned t := aligned_append h (by simp) happend
    refine ⟨?_, haligned⟩
    rw [appendBytes, map_append, exec_append]
    rcases eq_nil_or_concat chunk with rfl | ⟨_, _, hlast⟩
    · simpa [exec] using happend
    · have hne : chunk ≠ [] := by simp [hlast]
      have hstops : stops (s.vad.process d chunk).2 = false := by
        have hwhole := hends.2
        rwa [dropLast_concat] at hwhole
      rw [append_split h hne (by simp) hstops] at happend
      obtain ⟨u, hfirst, hsecond⟩ := Option.bind_eq_some_iff.mp happend
      have hprefix : EndsUtterance d s chunk := by
        refine ⟨fun hempty => absurd (isEmpty_iff.mp hempty) hne, ?_⟩
        rw [← dropLast_append_getLast hne, StreamingVAD.process_append h.short] at hstops
        simp only [stops, any_append, Bool.or_eq_false_iff] at hstops
        exact hstops.1
      obtain ⟨hbytes, -⟩ := ih hprefix hfirst
      rw [appendBytes] at hbytes
      rw [hbytes, Option.bind_some]
      simpa [exec] using hsecond

/-- **Run lemma.** Where no message goes on after the end of an utterance, the session is in the
state to which its stream leads byte by byte. -/
theorem bytes_of_run {chunks : List (List B)}
    (hrun : Run (AudioSession.handleAudioAppend d maxBytes) (EndsUtterance d)
      (AudioSession.init B) chunks s) :
    appendBytes d maxBytes (AudioSession.init B) chunks.flatten = some s ∧ Aligned s := by
  generalize hinit : AudioSession.init B = start at hrun
  induction hrun with
  | nil => exact ⟨rfl, hinit ▸ aligned_init⟩
  | @snoc u t chunks chunk _ hends happend ih =>
    obtain ⟨hbytes, haligned⟩ := ih
    obtain ⟨hmore, haligned'⟩ := append_eq_bytes haligned hends happend
    refine ⟨?_, haligned'⟩
    rw [appendBytes] at hbytes hmore ⊢
    rw [flatten_append, map_append, exec_append, hbytes, Option.bind_some]
    simpa using hmore

/-- The buffer is the end of the stream given to the detector, and the utterances are pieces of
the stream. -/
structure Recorded (s : AudioSession B) : Prop where
  le : s.dropped ≤ s.fed.length
  buffer : s.fed.drop s.dropped = s.audioBuffer
  pieces : ∀ startByte endByte payload, .committed startByte endByte payload ∈ s.events →
    endByte ≤ s.fed.length ∧ payload = (s.fed.take endByte).drop startByte

theorem recorded_init : Recorded (AudioSession.init B) :=
  ⟨Nat.le_refl _, rfl, fun _ _ _ h => by simp [AudioSession.init] at h⟩

theorem Recorded.length (h : Recorded s) : s.dropped + s.audioBuffer.length = s.fed.length := by
  have hlength := congrArg List.length h.buffer
  have hle := h.le
  rw [length_drop] at hlength
  omega

theorem recorded_handleVadEmit (h : Recorded s) (e : Emit) : Recorded (s.handleVadEmit e) := by
  have hreport : ∀ (event : AudioEvent B) (startByte : Option ℕ),
      (∀ a b payload, event ≠ .committed a b payload) →
      Recorded { s with events := s.events ++ [event], utteranceStartByte := startByte } := by
    intro event startByte hevent
    refine ⟨h.le, h.buffer, fun a b payload hmem => ?_⟩
    rcases mem_append.mp hmem with hbefore | hnew
    · exact h.pieces a b payload hbefore
    · exact absurd (mem_singleton.mp hnew).symm (hevent a b payload)
  unfold AudioSession.handleVadEmit
  split
  · exact hreport _ _ (by simp)
  · have hstopped := hreport (.speechStopped (offsetsToMs (s.bufferOriginSamples + e.sampleOffset)))
      s.utteranceStartByte (by simp)
    unfold AudioSession.autoCommit
    dsimp only
    split
    · exact hstopped
    · have hlength := h.length
      refine ⟨Nat.le_of_eq hlength, ?_, fun a b payload hmem => ?_⟩
      · simp [AudioSession.dropBufferAndResetVad, hlength]
      · rcases mem_append.mp hmem with hbefore | hnew
        · exact hstopped.pieces a b payload hbefore
        · obtain ⟨rfl, rfl, rfl⟩ := by simpa using hnew
          simp only [AudioSession.dropBufferAndResetVad]
          refine ⟨by omega, ?_⟩
          rw [← h.buffer, take_drop, drop_drop]

theorem recorded_grow (h : Recorded s) (chunk : List B) (vad : StreamingVAD B) :
    Recorded (s.grow chunk vad (s.fed ++ chunk)) := by
  have hle := h.le
  refine ⟨?_, ?_, fun a b payload hmem => ?_⟩
  · simp only [AudioSession.grow, length_append]
    omega
  · simp only [AudioSession.grow]
    rw [drop_append_of_le_length hle, h.buffer]
  · obtain ⟨hend, hpayload⟩ := h.pieces a b payload hmem
    simp only [AudioSession.grow, length_append]
    rw [take_append_of_le_length hend]
    exact ⟨by omega, hpayload⟩

theorem fed_handleVadEmit (e : Emit) : (s.handleVadEmit e).fed = s.fed := by
  unfold AudioSession.handleVadEmit
  split
  · rfl
  · unfold AudioSession.autoCommit
    dsimp only
    split <;> rfl

theorem recorded_append (h : Recorded s) (hends : EndsUtterance d s chunk)
    (happend : s.handleAudioAppend d maxBytes chunk = some t) :
    Recorded t ∧ t.fed = s.fed ++ chunk := by
  by_cases hchunk : chunk = []
  · subst hchunk
    obtain rfl := append_nil (isEmpty_iff.mp (hends.1 rfl)) happend
    exact ⟨h, (List.append_nil _).symm⟩
  · rw [AudioSession.handleAudioAppend_eq hchunk] at happend
    obtain ⟨-, hnext⟩ := Option.ite_none_left_eq_some.mp happend
    cases hnext
    have hgrown := recorded_grow h chunk (s.vad.process d chunk).1
    have hfed : (s.grow chunk (s.vad.process d chunk).1 (s.fed ++ chunk)).fed = s.fed ++ chunk :=
      rfl
    generalize (s.vad.process d chunk).2 = emits
    generalize s.grow chunk (s.vad.process d chunk).1 (s.fed ++ chunk) = grown at hgrown hfed
    induction emits generalizing grown with
    | nil => exact ⟨hgrown, hfed⟩
    | cons e emits ih =>
      exact ih _ (recorded_handleVadEmit hgrown e) ((fed_handleVadEmit e).trans hfed)

theorem recorded_of_run {chunks : List (List B)}
    (hrun : Run (AudioSession.handleAudioAppend d maxBytes) (EndsUtterance d)
      (AudioSession.init B) chunks s) : Recorded s ∧ s.fed = chunks.flatten := by
  generalize hinit : AudioSession.init B = start at hrun
  induction hrun with
  | nil => exact ⟨hinit ▸ recorded_init, hinit ▸ rfl⟩
  | @snoc u t chunks chunk _ hends happend ih =>
    obtain ⟨hrecorded, hfed⟩ := ih
    obtain ⟨hnext, hmore⟩ := recorded_append hrecorded hends happend
    exact ⟨hnext, by simp [hmore, hfed]⟩

/-- Two sessions that have got the same stream: their detectors have been fed this stream, once and
in order, and they have reported the same times and committed the same pieces of it. -/
structure SameTurns (stream : List B) (s t : AudioSession B) : Prop where
  fed : s.fed = stream ∧ t.fed = stream
  events : s.events = t.events
  pieces : ∀ startByte endByte payload, .committed startByte endByte payload ∈ s.events →
    endByte ≤ stream.length ∧ payload = (stream.take endByte).drop startByte

/-- **Main result.** Any two ways of cutting a stream into messages lead to the same turns, if
empty messages find the buffer empty and no message goes on after the end of an utterance. -/
theorem turns_of_cuttings {chunks chunks' : List (List B)}
    (hrun : Run (AudioSession.handleAudioAppend d maxBytes) (EndsUtterance d)
      (AudioSession.init B) chunks s)
    (hrun' : Run (AudioSession.handleAudioAppend d maxBytes) (EndsUtterance d)
      (AudioSession.init B) chunks' t)
    (hstream : chunks'.flatten = chunks.flatten) : SameTurns chunks.flatten s t := by
  obtain ⟨hrecorded, hfed⟩ := recorded_of_run hrun
  obtain ⟨-, hfed'⟩ := recorded_of_run hrun'
  obtain ⟨hbytes, -⟩ := bytes_of_run hrun
  obtain ⟨hbytes', -⟩ := bytes_of_run hrun'
  have hsame : s = t := by
    rw [hstream] at hbytes'
    exact Option.some.inj (hbytes.symm.trans hbytes')
  refine ⟨⟨hfed, hfed'.trans hstream⟩, congrArg AudioSession.events hsame, ?_⟩
  rw [← hfed]
  exact hrecorded.pieces

end Session

/-- A detector that takes a frame for speech if its first byte is not zero. -/
def firstByte : Detector UInt8 where
  config := {}
  infer frames := if (frames.getLast?.bind List.head?).getD 0 = 0 then 0 else 1

instance (s : AudioSession UInt8) (chunk : List UInt8) :
    Decidable (EndsUtterance firstByte s chunk) := by
  unfold EndsUtterance
  infer_instance

/-- As many frames of equal bytes. -/
def framesOf (count : ℕ) (b : UInt8) : List UInt8 :=
  List.replicate (count * (vadFrameSamples * 2)) b

set_option maxRecDepth 10000 in
/-- A frame of speech in one message, and in two after an empty one. -/
theorem turns_of_cuttings_frame : ∃ s t,
    Run (AudioSession.handleAudioAppend firstByte 1920000) (EndsUtterance firstByte)
      (AudioSession.init UInt8) [framesOf 1 1] s ∧
    Run (AudioSession.handleAudioAppend firstByte 1920000) (EndsUtterance firstByte)
      (AudioSession.init UInt8) [[], List.replicate 1023 1, [1]] t ∧
    s.events = [.speechStarted 0] ∧ SameTurns [framesOf 1 1].flatten s t := by
  have hrun := run_of_isSome_guarded (AudioSession.handleAudioAppend firstByte 1920000)
    (EndsUtterance firstByte) (AudioSession.init UInt8) [framesOf 1 1] (by decide +kernel)
  have hrun' := run_of_isSome_guarded (AudioSession.handleAudioAppend firstByte 1920000)
    (EndsUtterance firstByte) (AudioSession.init UInt8) [[], List.replicate 1023 1, [1]]
    (by decide +kernel)
  exact ⟨_, _, hrun, hrun', by decide +kernel, turns_of_cuttings hrun hrun' (by decide +kernel)⟩

set_option maxRecDepth 100000 in
/-- An empty message makes the detector process the whole buffer once more. When a message goes on
after the end of an utterance, the speech in its rest is not reported at its time. -/
theorem cutting_matters :
    (∃ s, Run (AudioSession.handleAudioAppend firstByte 1920000) anyAction
      (AudioSession.init UInt8) [[1, 0], []] s ∧ s.fed = [1, 0, 1, 0]) ∧
    ∃ s t, Run (AudioSession.handleAudioAppend firstByte 1920000) anyAction
        (AudioSession.init UInt8) [framesOf 1 1 ++ framesOf 16 0 ++ framesOf 1 1] s ∧
      Run (AudioSession.handleAudioAppend firstByte 1920000) anyAction
        (AudioSession.init UInt8) [framesOf 1 1 ++ framesOf 16 0, framesOf 1 1] t ∧
      AudioEvent.speechStarted 544 ∉ s.events ∧ AudioEvent.speechStarted 544 ∈ t.events := by
  have hempty := run_of_isSome (AudioSession.handleAudioAppend firstByte 1920000)
    (AudioSession.init UInt8) [[1, 0], []] (by decide +kernel)
  have hwhole : (exec (AudioSession.handleAudioAppend firstByte 1920000) (AudioSession.init UInt8)
      [framesOf 1 1 ++ framesOf 16 0 ++ framesOf 1 1]).map (fun s =>
        decide (AudioEvent.speechStarted 544 ∈ s.events)) = some false := by
    decide +kernel
  have hcut : (exec (AudioSession.handleAudioAppend firstByte 1920000) (AudioSession.init UInt8)
      [framesOf 1 1 ++ framesOf 16 0, framesOf 1 1]).map (fun s =>
        decide (AudioEvent.speechStarted 544 ∈ s.events)) = some true := by
    decide +kernel
  obtain ⟨s, hs, hmissing⟩ := Option.map_eq_some_iff.mp hwhole
  obtain ⟨t, ht, hreported⟩ := Option.map_eq_some_iff.mp hcut
  exact ⟨⟨_, hempty, by decide +kernel⟩, s, t, run_of_exec hs, run_of_exec ht,
    of_decide_eq_false hmissing, of_decide_eq_true hreported⟩

end Omni.Realtime
