import Omni.Streaming.Vocoder
import Omni.Tts.HiggsSampler

/-!
# The Higgs streaming vocoder

`HiggsStreamingVocoderScheduler` of `models/higgs_tts/vocoder_scheduler.py` for one request: rows of
delayed codes arrive in chunks, and windows of them are decoded. A window reaches back over frames
that have been emitted, and the samples of these are cut off.
-/

namespace Omni.Tts

open List

variable {N : ℕ} {S : Type}

/-- `HiggsAudioCodec`, with the `hop_length` of the configuration of its model. -/
structure HiggsCodec (N : ℕ) (S : Type) where
  decode : List (CodeRow N) → List S
  hopLength : Option ℤ

/-- What the constructor of the scheduler sets and accepts. -/
structure HiggsVocoder (N : ℕ) (S : Type) where
  codec : HiggsCodec N S
  streamStride : ℕ
  streamFollowupStride : ℕ
  streamOverlapTokens : ℕ
  streamHoldbackTokens : ℕ
  stride_pos : 0 < streamStride
  followup_pos : 0 < streamFollowupStride

/-- `_HiggsStreamState`, with the latched codebook size and the membership of the request in
`_emitted_stream_ids`. -/
structure HiggsStreamState (N : ℕ) where
  delayedRows : List (CodeRow N)
  emittedRawFrames : ℕ
  nextDecodeRows : ℕ
  initialCodecChunkFrames : ℕ
  hasEmitted : Bool

/-- What `decode_delta` returns, with the variables that it was made with. -/
structure HiggsDelta (N : ℕ) (S : Type) where
  delta : List S
  codes : List (CodeRow N)
  delayedCount : ℕ
  emittedRawFrames : ℕ
  emitUntilRaw : ℕ
  windowStartRaw : ℕ
  rowsEnd : ℕ

/-- What reaches the scheduler for a request before its stream is done. A value of
`initial_codec_chunk_frames` is in the parameters of a payload, or in the metadata of a chunk. -/
inductive HiggsEvent (N : ℕ)
  | payload (initialCodecChunkFrames : Option ℕ)
  | chunk (codes : List (CodeRow N)) (initialCodecChunkFrames : Option (Option ℕ))

/-- A new state. -/
def HiggsStreamState.init : HiggsStreamState N := ⟨[], 0, 0, 0, false⟩

/-- A row of `reverse_delay_pattern`. -/
def rawFrame (delayed : List (CodeRow N)) (t : ℕ) : CodeRow N := fun c => delayed.getD (c + t) 0 c

/-- `reverse_delay_pattern` for at least as many rows as codebooks. -/
def reverseDelayPattern (delayed : List (CodeRow N)) : List (CodeRow N) :=
  (List.range (delayed.length - (N - 1))).map (rawFrame delayed)

/-- Codes outside the vocabulary of the codec are zero. -/
def codecCodes (codebookSize : ℤ) (row : CodeRow N) : CodeRow N := fun c =>
  if codebookSize - 2 ≤ row c then 0 else row c

namespace HiggsVocoder

variable (v : HiggsVocoder N S)

/-- `_resolve_samples_per_frame`. -/
def samplesPerFrame : Option ℕ :=
  v.codec.hopLength.bind fun hop => if 0 < hop then some hop.toNat else none

/-- The frames of a steady chunk. -/
def steadyCodecFrames : ℕ := max 1 (v.streamStride - N + 1)

/-- `_decode_delayed_rows`, with the codes that are decoded. -/
def decodeDelayedRows (codebookSize : ℤ) (rows : List (CodeRow N)) :
    Except String (List (CodeRow N) × List S) :=
  if rows.length < N then
    .error s!"Higgs delayed rows must include at least {N} rows, got {rows.length}"
  else
    let codes := (reverseDelayPattern rows).map (codecCodes codebookSize)
    .ok (codes, v.codec.decode codes)

/-- `use_initial_chunk`. -/
def useInitialChunk (s : HiggsStreamState N) : Bool :=
  0 < s.initialCodecChunkFrames ∧ s.initialCodecChunkFrames < v.steadyCodecFrames ∧
    s.hasEmitted = false

/-- The rows at which `decode_delta` decodes next. -/
def nextDecodeRows (s : HiggsStreamState N) (isFinal : Bool) : ℕ :=
  if s.nextDecodeRows ≠ 0 then s.nextDecodeRows
  else if v.useInitialChunk s && !isFinal then max N (s.initialCodecChunkFrames + N - 1)
  else max N v.streamStride

/-- `emit_until_raw`. -/
def emitUntilRaw (s : HiggsStreamState N) (isFinal : Bool) : ℕ :=
  let rawTotal := s.delayedRows.length - N + 1
  if v.useInitialChunk s && !isFinal then min rawTotal s.initialCodecChunkFrames
  else if !isFinal && v.streamHoldbackTokens ≠ 0 then rawTotal - v.streamHoldbackTokens
  else rawTotal

/-- The samples of a window that are emitted. -/
def cutDelta (isFinal : Bool) (emittedRawFrames emitUntilRaw windowStartRaw : ℕ)
    (audio : List S) : List S :=
  let decodedRawFrames := emitUntilRaw - windowStartRaw
  let samplesPerFrame := v.samplesPerFrame.getD (max (audio.length / max decodedRawFrames 1) 1)
  let trimSamples := min ((emittedRawFrames - windowStartRaw) * samplesPerFrame) audio.length
  if !isFinal && v.samplesPerFrame.isSome then
    (audio.drop trimSamples).take ((emitUntilRaw - emittedRawFrames) * samplesPerFrame)
  else audio.drop trimSamples

/-- `_next_decode_rows_after_emit`. -/
def nextDecodeRowsAfterEmit (delayedCount : ℕ) (emittedInitialChunk : Bool) : ℕ :=
  if emittedInitialChunk then max N v.streamStride + v.streamFollowupStride
  else delayedCount + v.streamFollowupStride

/-- `decode_delta`. -/
def decodeDelta (codebookSize : ℤ) (s : HiggsStreamState N) (isFinal : Bool) :
    Except String (HiggsStreamState N × Option (HiggsDelta N S)) :=
  let delayedCount := s.delayedRows.length
  if delayedCount = 0 then .ok (s, none)
  else if delayedCount < N then .ok (s, none)
  else if !isFinal && delayedCount < v.nextDecodeRows s isFinal then
    .ok ({ s with nextDecodeRows := v.nextDecodeRows s isFinal }, none)
  else
    let emitUntilRaw := v.emitUntilRaw s isFinal
    let canFlushCodecTail := isFinal && v.samplesPerFrame.isSome
    if emitUntilRaw < s.emittedRawFrames ||
        (emitUntilRaw = s.emittedRawFrames && !canFlushCodecTail) then
      .ok ({ s with nextDecodeRows := delayedCount + v.streamFollowupStride }, none)
    else
      let windowStartRaw := s.emittedRawFrames - v.streamOverlapTokens
      let rowsEnd := emitUntilRaw + N - 1
      match v.decodeDelayedRows codebookSize ((s.delayedRows.take rowsEnd).drop windowStartRaw) with
      | .error message => .error message
      | .ok (codes, audio) =>
        let delta := v.cutDelta isFinal s.emittedRawFrames emitUntilRaw windowStartRaw audio
        if delta.length = 0 then
          .ok ({ s with nextDecodeRows := delayedCount + v.streamFollowupStride }, none)
        else
          .ok ({ s with
            emittedRawFrames := emitUntilRaw
            nextDecodeRows :=
              v.nextDecodeRowsAfterEmit delayedCount (v.useInitialChunk s && !isFinal) },
            some ⟨delta, codes, delayedCount, s.emittedRawFrames, emitUntilRaw, windowStartRaw,
              rowsEnd⟩)

/-- `on_streaming_new_request`, or `on_stream_chunk`. -/
def onEvent (codebookSize : ℤ) (s : HiggsStreamState N) :
    HiggsEvent N → Except String (HiggsStreamState N × Option (HiggsDelta N S))
  | .payload initial =>
    .ok ({ s with
      initialCodecChunkFrames :=
        Streaming.resolveInitialCodecChunkFrames initial v.steadyCodecFrames }, none)
  | .chunk codes initial =>
    let s := { s with
      initialCodecChunkFrames := initial.elim s.initialCodecChunkFrames fun value =>
        Streaming.resolveInitialCodecChunkFrames value v.steadyCodecFrames
      delayedRows := s.delayedRows ++ codes }
    (v.decodeDelta codebookSize s false).map fun (t, delta) =>
      ({ t with hasEmitted := t.hasEmitted || delta.isSome }, delta)

/-- The events of a request up to its end, with what they emit. -/
def onEvents (codebookSize : ℤ) (s : HiggsStreamState N) :
    List (HiggsEvent N) → Except String (HiggsStreamState N × List (HiggsDelta N S))
  | [] => .ok (s, [])
  | event :: rest =>
    match v.onEvent codebookSize s event with
    | .error message => .error message
    | .ok (t, delta) =>
      (onEvents codebookSize t rest).map fun (u, deltas) => (u, delta.toList ++ deltas)

/-- All that `decode_delta` emits for a request, with the flush at the end. -/
def stream (codebookSize : ℤ) (events : List (HiggsEvent N)) :
    Except String (List (HiggsDelta N S)) :=
  match v.onEvents codebookSize .init events with
  | .error message => .error message
  | .ok (s, deltas) =>
    (v.decodeDelta codebookSize s true).map fun (_, delta) => deltas ++ delta.toList

end HiggsVocoder

/-- The rows that an event brings. -/
def HiggsEvent.rows : HiggsEvent N → List (CodeRow N)
  | .payload _ => []
  | .chunk codes _ => codes

/-- The raw frames of some delayed rows. -/
def rawTotal (N delayedCount : ℕ) : ℕ := delayedCount + 1 - N

/-- A delta is cut out of a window of the utterance that contains its frames, and the rows of the
window have arrived. -/
structure HiggsDelta.Cut (codebookSize : ℤ) (rows : List (CodeRow N)) (d : HiggsDelta N S) : Prop
    where
  window_le : d.windowStartRaw ≤ d.emittedRawFrames
  range : d.emittedRawFrames ≤ d.emitUntilRaw
  rowsEnd : d.rowsEnd = d.emitUntilRaw + N - 1
  arrived : d.rowsEnd ≤ d.delayedCount
  codes : d.codes = (List.range' d.windowStartRaw (d.emitUntilRaw - d.windowStartRaw)).map
    fun t => codecCodes codebookSize (rawFrame rows t)

/-- Deltas whose frame ranges follow each other without a gap. -/
inductive Cuts (codebookSize : ℤ) (rows : List (CodeRow N)) :
    ℕ → List (HiggsDelta N S) → ℕ → Prop
  | nil (start : ℕ) : Cuts codebookSize rows start [] start
  | cons {d : HiggsDelta N S} {rest : List (HiggsDelta N S)} {stop : ℕ}
      (hcut : d.Cut codebookSize rows) (hrest : Cuts codebookSize rows d.emitUntilRaw rest stop) :
      Cuts codebookSize rows d.emittedRawFrames (d :: rest) stop

/-- The flush at the end has an empty window. -/
structure HiggsVocoder.Stuck (v : HiggsVocoder N S) (s : HiggsStreamState N) : Prop where
  overlap : v.streamOverlapTokens = 0
  hop : v.samplesPerFrame.isSome = true
  rows : N ≤ s.delayedRows.length
  emitted : s.emittedRawFrames = rawTotal N s.delayedRows.length

/-- The codec gives a frame its samples, at least one where their number is not known. -/
def HiggsVocoder.Long (v : HiggsVocoder N S) : Prop :=
  ∀ codes, codes.length * v.samplesPerFrame.getD 1 ≤ (v.codec.decode codes).length

variable {v : HiggsVocoder N S} {s t : HiggsStreamState N} {codebookSize : ℤ}
  {delayed rows : List (CodeRow N)} {isFinal : Bool} {start stop : ℕ}

theorem samplesPerFrame_pos {hop : ℕ} (hhop : v.samplesPerFrame = some hop) : 0 < hop := by
  obtain ⟨length, -, hlength⟩ := Option.bind_eq_some_iff.mp hhop
  split at hlength
  next hpos =>
    cases hlength
    exact Int.lt_toNat.mpr hpos
  · cases hlength

theorem Cuts.append {mid : ℕ} {ds es : List (HiggsDelta N S)}
    (hfirst : Cuts codebookSize rows start ds mid) (hsecond : Cuts codebookSize rows mid es stop) :
    Cuts codebookSize rows start (ds ++ es) stop := by
  induction hfirst with
  | nil => exact hsecond
  | cons hcut _ ih => exact .cons hcut (ih hsecond)

theorem getD_window (hbegins : delayed <+: rows) {stop i : ℕ} (hstop : stop ≤ delayed.length)
    (hi : start + i < stop) :
    ((delayed.take stop).drop start).getD i 0 = rows.getD (start + i) 0 := by
  obtain ⟨more, rfl⟩ := hbegins
  have hlt : start + i < delayed.length := Nat.lt_of_lt_of_le hi hstop
  rw [getD_eq_getElem?_getD, getD_eq_getElem?_getD, getElem?_drop,
    getElem?_take_of_lt hi, getElem?_append_left hlt]

theorem reverseDelayPattern_window [NeZero N] (hbegins : delayed <+: rows)
    (hstart : start < stop) (hstop : stop + N - 1 ≤ delayed.length) :
    reverseDelayPattern ((delayed.take (stop + N - 1)).drop start) =
      (List.range' start (stop - start)).map (rawFrame rows) := by
  have hpos := Nat.pos_of_ne_zero (NeZero.ne N)
  have hlength : ((delayed.take (stop + N - 1)).drop start).length - (N - 1) = stop - start := by
    rw [length_drop, length_take]
    omega
  rw [reverseDelayPattern, hlength, range_eq_range', List.range'_eq_map_range,
    List.range'_eq_map_range, map_map, map_map]
  refine map_congr_left fun t ht => ?_
  have hlt := mem_range.mp ht
  funext c
  show ((delayed.take (stop + N - 1)).drop start).getD (c + (0 + t)) 0 c =
    rows.getD (c + (start + t)) 0 c
  have hindex : start + (c + (0 + t)) = c + (start + t) := by omega
  rw [getD_window hbegins hstop (by omega), hindex]

/-- A window that is not empty is decoded. -/
theorem decodeDelayedRows_window [NeZero N] (hbegins : delayed <+: rows) (hstart : start < stop)
    (hstop : stop + N - 1 ≤ delayed.length) :
    v.decodeDelayedRows codebookSize ((delayed.take (stop + N - 1)).drop start) =
      let codes := (List.range' start (stop - start)).map
        fun t => codecCodes codebookSize (rawFrame rows t)
      .ok (codes, v.codec.decode codes) := by
  have hlength : ¬((delayed.take (stop + N - 1)).drop start).length < N := by
    rw [length_drop, length_take]
    omega
  rw [HiggsVocoder.decodeDelayedRows, if_neg hlength,
    reverseDelayPattern_window hbegins hstart hstop, map_map]
  rfl

/-- An empty window raises. -/
theorem decodeDelayedRows_empty [NeZero N] (v : HiggsVocoder N S) (codebookSize : ℤ)
    (hstop : stop + N - 1 ≤ delayed.length) :
    ∃ message, v.decodeDelayedRows codebookSize ((delayed.take (stop + N - 1)).drop stop) =
      .error message := by
  have hpos := Nat.pos_of_ne_zero (NeZero.ne N)
  have hlength : ((delayed.take (stop + N - 1)).drop stop).length < N := by
    rw [length_drop, length_take]
    omega
  rw [HiggsVocoder.decodeDelayedRows, if_pos hlength]
  exact ⟨_, rfl⟩

/-- Frames are emitted only if their rows have arrived. -/
theorem emitUntilRaw_le (hrows : N ≤ s.delayedRows.length) :
    v.emitUntilRaw s isFinal ≤ rawTotal N s.delayedRows.length := by
  have htotal : s.delayedRows.length - N + 1 = rawTotal N s.delayedRows.length := by
    unfold rawTotal
    omega
  unfold HiggsVocoder.emitUntilRaw
  dsimp only
  split
  · omega
  · split <;> omega

/-- The flush emits all frames. -/
theorem emitUntilRaw_final (hrows : N ≤ s.delayedRows.length) :
    v.emitUntilRaw s true = rawTotal N s.delayedRows.length := by
  unfold HiggsVocoder.emitUntilRaw rawTotal
  simp only [Bool.not_true, Bool.and_false, Bool.false_eq_true, if_false, Bool.false_and]
  omega

/-- What the flush cuts off is less than its window if a frame has not been emitted. -/
theorem cutDelta_ne_nil {emitted : ℕ} {audio : List S} (hstart : start ≤ emitted)
    (hstop : emitted < stop) (haudio : (stop - start) * v.samplesPerFrame.getD 1 ≤ audio.length) :
    (v.cutDelta true emitted stop start audio).length ≠ 0 := by
  unfold HiggsVocoder.cutDelta
  simp only [Bool.not_true, Bool.false_and, Bool.false_eq_true, if_false, length_drop]
  suffices hlt : (emitted - start) * v.samplesPerFrame.getD
      (max (audio.length / max (stop - start) 1) 1) < audio.length by
    omega
  have hframes : emitted - start < stop - start := by omega
  cases hhop : v.samplesPerFrame with
  | some hop =>
    rw [hhop] at haudio
    have hpos := samplesPerFrame_pos hhop
    exact Nat.lt_of_lt_of_le (Nat.mul_lt_mul_of_pos_right hframes hpos) haudio
  | none =>
    rw [hhop] at haudio
    have hone : 1 ≤ audio.length / (stop - start) := by
      rw [Nat.one_le_div_iff (by omega)]
      simpa using haudio
    have hmax : max (audio.length / max (stop - start) 1) 1 = audio.length / (stop - start) := by
      rw [Nat.max_eq_left (by omega : 1 ≤ stop - start), Nat.max_eq_left hone]
    show (emitted - start) * max (audio.length / max (stop - start) 1) 1 < audio.length
    rw [hmax]
    calc (emitted - start) * (audio.length / (stop - start))
        < (stop - start) * (audio.length / (stop - start)) :=
          Nat.mul_lt_mul_of_pos_right hframes hone
      _ ≤ audio.length := Nat.mul_div_le _ _

/-- What `decode_delta` can do: nothing, cut a delta that begins where the last one ended, or raise
at an empty window. The flush does nothing only if all frames have been emitted. -/
inductive DeltaOutcome (v : HiggsVocoder N S) (codebookSize : ℤ) (rows : List (CodeRow N))
    (s : HiggsStreamState N) (isFinal : Bool) :
    Except String (HiggsStreamState N × Option (HiggsDelta N S)) → Prop
  | none {t : HiggsStreamState N} (hrows : t.delayedRows = s.delayedRows)
      (hemitted : t.emittedRawFrames = s.emittedRawFrames)
      (hfinal : isFinal = true → v.Long → s.emittedRawFrames = rawTotal N s.delayedRows.length) :
      DeltaOutcome v codebookSize rows s isFinal (.ok (t, none))
  | some {t : HiggsStreamState N} {d : HiggsDelta N S} (hrows : t.delayedRows = s.delayedRows)
      (hstart : d.emittedRawFrames = s.emittedRawFrames)
      (hstop : t.emittedRawFrames = d.emitUntilRaw) (hcut : d.Cut codebookSize rows)
      (hle : d.emitUntilRaw ≤ rawTotal N s.delayedRows.length)
      (hfinal : isFinal = true → d.emitUntilRaw = rawTotal N s.delayedRows.length) :
      DeltaOutcome v codebookSize rows s isFinal (.ok (t, some d))
  | raises {message : String} (hfinal : isFinal = true) (hstuck : v.Stuck s) :
      DeltaOutcome v codebookSize rows s isFinal (.error message)

theorem DeltaOutcome.window [NeZero N] (hbegins : s.delayedRows <+: rows)
    (hrows : N ≤ s.delayedRows.length) (hle : s.emittedRawFrames ≤ v.emitUntilRaw s isFinal)
    (hstart : s.emittedRawFrames - v.streamOverlapTokens < v.emitUntilRaw s isFinal)
    {next : ℕ} :
    DeltaOutcome v codebookSize rows s isFinal
      (match v.decodeDelayedRows codebookSize
          ((s.delayedRows.take (v.emitUntilRaw s isFinal + N - 1)).drop
            (s.emittedRawFrames - v.streamOverlapTokens)) with
      | .error message => .error message
      | .ok (codes, audio) =>
        let delta := v.cutDelta isFinal s.emittedRawFrames (v.emitUntilRaw s isFinal)
          (s.emittedRawFrames - v.streamOverlapTokens) audio
        if delta.length = 0 then
          .ok ({ s with nextDecodeRows := s.delayedRows.length + v.streamFollowupStride }, .none)
        else
          .ok ({ s with emittedRawFrames := v.emitUntilRaw s isFinal, nextDecodeRows := next },
            .some ⟨delta, codes, s.delayedRows.length, s.emittedRawFrames,
              v.emitUntilRaw s isFinal, s.emittedRawFrames - v.streamOverlapTokens,
              v.emitUntilRaw s isFinal + N - 1⟩)) := by
  have huntil : v.emitUntilRaw s isFinal ≤ _ := emitUntilRaw_le hrows
  have hstop : v.emitUntilRaw s isFinal + N - 1 ≤ s.delayedRows.length := by
    unfold rawTotal at huntil
    omega
  rw [decodeDelayedRows_window hbegins hstart hstop]
  dsimp only
  split
  next hempty =>
    refine .none rfl rfl fun hfinal hlong => ?_
    subst hfinal
    by_contra hne
    have htotal := emitUntilRaw_final (v := v) hrows
    refine cutDelta_ne_nil (Nat.sub_le _ _) (Nat.lt_of_le_of_ne hle ?_) ?_ hempty
    · rw [htotal]
      exact hne
    · have haudio := hlong ((List.range' (s.emittedRawFrames - v.streamOverlapTokens)
        (v.emitUntilRaw s true - (s.emittedRawFrames - v.streamOverlapTokens))).map
        fun t => codecCodes codebookSize (rawFrame rows t))
      rwa [length_map, length_range'] at haudio
  · refine .some rfl rfl rfl ⟨Nat.sub_le _ _, hle, rfl, hstop, rfl⟩ huntil fun hfinal => ?_
    subst hfinal
    exact emitUntilRaw_final hrows

theorem decodeDelta_outcome [NeZero N] (v : HiggsVocoder N S) (codebookSize : ℤ) (isFinal : Bool)
    (hbegins : s.delayedRows <+: rows)
    (hle : s.emittedRawFrames ≤ rawTotal N s.delayedRows.length) :
    DeltaOutcome v codebookSize rows s isFinal (v.decodeDelta codebookSize s isFinal) := by
  have hpos := Nat.pos_of_ne_zero (NeZero.ne N)
  have hshort (hlt : s.delayedRows.length < N) :
      s.emittedRawFrames = rawTotal N s.delayedRows.length := by
    unfold rawTotal at hle ⊢
    omega
  unfold HiggsVocoder.decodeDelta
  dsimp only
  split
  next hzero => exact .none rfl rfl fun _ _ => hshort (by omega)
  split
  next hlt => exact .none rfl rfl fun _ _ => hshort hlt
  next hrows =>
  have hrows : N ≤ s.delayedRows.length := Nat.le_of_not_lt hrows
  have htotal : 0 < rawTotal N s.delayedRows.length := by
    unfold rawTotal
    omega
  split
  next hwait =>
    refine .none rfl rfl fun hfinal _ => ?_
    subst hfinal
    simp at hwait
  split
  next hnothing =>
    refine .none rfl rfl fun hfinal _ => ?_
    subst hfinal
    rw [emitUntilRaw_final hrows] at hnothing
    simp only [Bool.or_eq_true, decide_eq_true_eq, Bool.and_eq_true] at hnothing
    omega
  next hsome =>
  simp only [Bool.or_eq_true, decide_eq_true_eq, Bool.and_eq_true, not_or, not_and,
    Bool.not_eq_true', Bool.not_eq_false] at hsome
  obtain ⟨hge, hflush⟩ := hsome
  by_cases hstart : s.emittedRawFrames - v.streamOverlapTokens < v.emitUntilRaw s isFinal
  · exact DeltaOutcome.window hbegins hrows (Nat.le_of_not_lt hge) hstart
  · have heq : v.emitUntilRaw s isFinal = s.emittedRawFrames := by omega
    obtain ⟨hfinal, hhop⟩ := hflush heq
    subst hfinal
    rw [emitUntilRaw_final hrows] at heq hstart ⊢
    have hoverlap : v.streamOverlapTokens = 0 := by omega
    have hstop : rawTotal N s.delayedRows.length + N - 1 ≤ s.delayedRows.length := by
      unfold rawTotal
      omega
    obtain ⟨message, hmessage⟩ := decodeDelayedRows_empty v codebookSize hstop
    rw [hoverlap, Nat.sub_zero, ← heq, hmessage]
    exact .raises rfl ⟨hoverlap, hhop, hrows, heq.symm⟩

/-- The flush raises when its window is empty. -/
theorem decodeDelta_stuck [NeZero N] (codebookSize : ℤ) (hstuck : v.Stuck s) :
    ∃ message, v.decodeDelta codebookSize s true = .error message := by
  have hpos := Nat.pos_of_ne_zero (NeZero.ne N)
  have hrows := hstuck.rows
  have huntil := emitUntilRaw_final (v := v) hrows
  have hstop : s.emittedRawFrames + N - 1 ≤ s.delayedRows.length := by
    rw [hstuck.emitted]
    unfold rawTotal
    omega
  obtain ⟨message, hmessage⟩ := decodeDelayedRows_empty v codebookSize hstop
  refine ⟨message, ?_⟩
  unfold HiggsVocoder.decodeDelta
  dsimp only
  rw [if_neg (by omega), if_neg (by omega), if_neg (by simp), huntil, ← hstuck.emitted,
    if_neg (by simp [hstuck.hop]), hstuck.overlap, Nat.sub_zero, hmessage]

theorem rawTotal_mono {count count' : ℕ} (h : count ≤ count') :
    rawTotal N count ≤ rawTotal N count' :=
  Nat.sub_le_sub_right (Nat.succ_le_succ h) N

theorem onEvent_cuts [NeZero N] (v : HiggsVocoder N S) (codebookSize : ℤ) {event : HiggsEvent N}
    (hbegins : s.delayedRows ++ event.rows <+: rows)
    (hle : s.emittedRawFrames ≤ rawTotal N s.delayedRows.length) :
    ∃ t delta, v.onEvent codebookSize s event = .ok (t, delta) ∧
      t.delayedRows = s.delayedRows ++ event.rows ∧
      Cuts codebookSize rows s.emittedRawFrames delta.toList t.emittedRawFrames ∧
      t.emittedRawFrames ≤ rawTotal N t.delayedRows.length := by
  cases event with
  | payload initial => exact ⟨_, _, rfl, (append_nil _).symm, .nil _, hle⟩
  | chunk codes initial =>
    let s' : HiggsStreamState N := { s with
      initialCodecChunkFrames := initial.elim s.initialCodecChunkFrames fun value =>
        Streaming.resolveInitialCodecChunkFrames value v.steadyCodecFrames
      delayedRows := s.delayedRows ++ codes }
    have hle' : s'.emittedRawFrames ≤ rawTotal N s'.delayedRows.length :=
      Nat.le_trans hle (rawTotal_mono (by simp [s']))
    have houtcome := decodeDelta_outcome v codebookSize false (s := s') hbegins hle'
    have hevent : v.onEvent codebookSize s (.chunk codes initial) =
        (v.decodeDelta codebookSize s' false).map fun (t, delta) =>
          ({ t with hasEmitted := t.hasEmitted || delta.isSome }, delta) := rfl
    rw [hevent]
    generalize v.decodeDelta codebookSize s' false = result at houtcome
    cases houtcome with
    | none hrows hemitted _ =>
      refine ⟨_, _, rfl, hrows, ?_, ?_⟩
      · show Cuts codebookSize rows s'.emittedRawFrames [] _
        rw [← hemitted]
        exact .nil _
      · show _ ≤ rawTotal N (HiggsStreamState.delayedRows _).length
        rw [hrows, hemitted]
        exact hle'
    | @some t d hrows hstart hstop hcut htotal _ =>
      refine ⟨_, _, rfl, hrows, ?_, ?_⟩
      · show Cuts codebookSize rows s'.emittedRawFrames [d] t.emittedRawFrames
        rw [← hstart, hstop]
        exact .cons hcut (.nil _)
      · show t.emittedRawFrames ≤ rawTotal N t.delayedRows.length
        rw [hrows, hstop]
        exact htotal
    | raises hfinal => cases hfinal

theorem onEvents_cuts [NeZero N] (v : HiggsVocoder N S) (codebookSize : ℤ)
    (events : List (HiggsEvent N))
    (hbegins : s.delayedRows ++ events.flatMap HiggsEvent.rows <+: rows)
    (hle : s.emittedRawFrames ≤ rawTotal N s.delayedRows.length) :
    ∃ t deltas, v.onEvents codebookSize s events = .ok (t, deltas) ∧
      t.delayedRows = s.delayedRows ++ events.flatMap HiggsEvent.rows ∧
      Cuts codebookSize rows s.emittedRawFrames deltas t.emittedRawFrames ∧
      t.emittedRawFrames ≤ rawTotal N t.delayedRows.length := by
  induction events generalizing s with
  | nil => exact ⟨s, [], rfl, (append_nil _).symm, .nil _, hle⟩
  | cons event rest ih =>
    rw [flatMap_cons, ← append_assoc] at hbegins
    obtain ⟨t, delta, hevent, hrows, hcuts, hle'⟩ := onEvent_cuts v codebookSize
      ((prefix_append _ _).trans hbegins) hle
    rw [← hrows] at hbegins
    obtain ⟨u, deltas, hevents, hrows', hcuts', hle''⟩ := ih hbegins hle'
    refine ⟨u, delta.toList ++ deltas, ?_, ?_, hcuts.append hcuts', hle''⟩
    · rw [HiggsVocoder.onEvents, hevent]
      dsimp only
      rw [hevents]
      rfl
    · rw [hrows', hrows, flatMap_cons, append_assoc]

/-- For any configuration, any number of codebooks and any events, the calls before the flush do not
raise and cut the frames of the utterance one after the other, each out of a window that contains it
and whose rows have arrived. With the flush they cover all raw frames exactly, and nothing raises,
unless all frames have been emitted before the flush while there is no overlap and the hop length is
known. -/
theorem cut_exactly [NeZero N] (v : HiggsVocoder N S) (hlong : v.Long) (codebookSize : ℤ)
    (events : List (HiggsEvent N)) :
    ∃ s deltas, v.onEvents codebookSize .init events = .ok (s, deltas) ∧
      s.delayedRows = events.flatMap HiggsEvent.rows ∧
      Cuts codebookSize s.delayedRows 0 deltas s.emittedRawFrames ∧
      ((∃ all, v.stream codebookSize events = .ok all ∧
        Cuts codebookSize s.delayedRows 0 all (rawTotal N s.delayedRows.length)) ↔ ¬v.Stuck s) := by
  obtain ⟨s, deltas, hevents, hrows, hcuts, hle⟩ := onEvents_cuts v codebookSize events (s := .init)
    (prefix_refl _) (Nat.zero_le _)
  have hstream : v.stream codebookSize events =
      (v.decodeDelta codebookSize s true).map fun (_, delta) => deltas ++ delta.toList := by
    rw [HiggsVocoder.stream, hevents]
  rw [← hrows] at hcuts
  refine ⟨s, deltas, hevents, hrows, hcuts, ?_, fun hfree => ?_⟩
  · rintro ⟨all, hall, -⟩ hstuck
    obtain ⟨message, hmessage⟩ := decodeDelta_stuck codebookSize hstuck
    rw [hstream, hmessage] at hall
    cases hall
  · have houtcome := decodeDelta_outcome v codebookSize true (prefix_refl s.delayedRows) hle
    rw [hstream]
    generalize v.decodeDelta codebookSize s true = result at houtcome
    cases houtcome with
    | none _ _ hfinal =>
      refine ⟨_, rfl, ?_⟩
      rw [← hfinal rfl hlong]
      show Cuts codebookSize s.delayedRows 0 (deltas ++ []) _
      rw [append_nil]
      exact hcuts
    | @some t d _ hstart _ hcut _ hfinal =>
      refine ⟨_, rfl, hcuts.append ?_⟩
      rw [← hstart, ← hfinal rfl]
      exact .cons hcut (.nil _)
    | raises _ hstuck => exact absurd hstuck hfree

/-- Three rows of two codebooks, with an overlap of one frame. -/
theorem cut_exactly_overlap : ∃ all : List (HiggsDelta 2 ℤ),
    HiggsVocoder.stream ⟨⟨fun codes => codes.map (· 0), some 1⟩, 2, 1, 1, 0, by decide, by decide⟩
      66 [.payload none, .chunk [0, 0] none, .chunk [0] none] = .ok all ∧
    Cuts 66 [0, 0, 0] 0 all 2 := by
  obtain ⟨s, deltas, -, hrows, -, hiff⟩ := cut_exactly
    ⟨⟨fun codes => codes.map (· 0), some 1⟩, 2, 1, 1, 0, by decide, by decide⟩
    (fun codes => by
      rw [length_map]
      exact Nat.le_of_eq (Nat.mul_one _)) 66
    [.payload none, .chunk [0, 0] none, .chunk [0] (N := 2) none]
  obtain ⟨all, hall, hcuts⟩ := hiff.mpr fun hstuck => Nat.one_ne_zero hstuck.overlap
  rw [hrows] at hcuts
  exact ⟨all, hall, hcuts⟩

/-- One frame is emitted as soon as its rows have arrived, and the flush raises. -/
theorem flush_raises : ∃ message, HiggsVocoder.stream
    ⟨⟨fun codes => codes.map (· 0), some 1⟩, 2, 1, 0, 0, by decide, by decide⟩ 66
    [.payload none, .chunk [0, 0] (N := 2) none] = .error message :=
  ⟨_, rfl⟩

end Omni.Tts
