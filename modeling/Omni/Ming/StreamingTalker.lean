import Omni.Ming.Segments
import Omni.Ming.StreamingSegmenter
import Omni.Ming.StreamingStage

/-!
# The talker stage of the Ming streaming talker

`MingStreamingTalkerScheduler` of `models/ming_omni/components/streaming_talker.py`. The audio of
each segment of text is generated and sent while the segment is handled.
-/

namespace Omni.Ming.Talker

open Rendezvous

variable {ι P A ε : Type} [DecidableEq ι] {r : ι}

/-- What happens while the talker generates: it yields an item, with its serialized waveform unless
it has none, it raises, it is cancelled, or another thread has set the abort event. -/
inductive GenerationStep (A ε : Type)
  | item (audio : Option A) (nowMs : ℤ)
  | raises (exc : ε)
  | cancelled
  | aborted
  deriving DecidableEq

/-- The data of a chunk: a `StreamItem` with what `uint8_tensor_to_text` makes of its data and the
segment number of its metadata, or something else. -/
inductive SegmentChunk (ε : Type)
  | item (text : Except ε Chars) (segmentId : Option ℕ)
  | other

/-- What `_RequestState` has of its own. -/
structure TalkerData where
  segmentCount : ℕ := 0
  audioChunkCount : ℕ := 0
  requestStartMs : ℤ
  firstAudioEmitMs : Option ℤ := none

/-- `OutgoingMessage`. A result without a payload gets a new one. -/
inductive OutgoingMessage (ι P A ε : Type)
  | stream (requestId : ι) (audio : A) (segmentId : ℕ) (talkerFirstAudioMs : Option ℤ)
  | result (requestId : ι) (payload : Option P) (data : TalkerData) (aborted : Bool)
  | error (requestId : ι) (exc : ε)

/-- The message ends the request. -/
def OutgoingMessage.answers (r : ι) : OutgoingMessage ι P A ε → Bool
  | .stream .. => false
  | .result requestId .. => requestId = r
  | .error requestId _ => requestId = r

/-- The talker stage. -/
def talkerStage (ι P A ε : Type) [DecidableEq ι] :
    StreamingStage ι P TalkerData (OutgoingMessage ι P A ε) ε where
  final r state := [.result r state.payload state.data state.aborted]
  error := .error
  answers r m := m.answers r
  count_final r r' state := by
    simp [OutgoingMessage.answers, List.countP_cons]
  answers_error _ _ _ := rfl

/-- `MingStreamingTalkerScheduler`. -/
abbrev TalkerScheduler (ι P A ε : Type) := Scheduler ι P TalkerData (OutgoingMessage ι P A ε)

/-- `_emit_audio_chunk`, after the time of the first audio is noted. -/
def emitAudioChunk (r : ι) (segmentId : ℕ) (data : TalkerData) (audio : A) (nowMs : ℤ) :
    TalkerData × OutgoingMessage ι P A ε :=
  let firstAudioEmitMs := data.firstAudioEmitMs.or (some (nowMs - data.requestStartMs))
  ({ data with
      firstAudioEmitMs := firstAudioEmitMs
      audioChunkCount := data.audioChunkCount + 1 },
    .stream r audio segmentId firstAudioEmitMs)

/-- `_generate_audio_for_segment`: the data, what is sent, whether the request has been aborted
meanwhile, and the exception if one is raised. -/
def generateAudioForSegment (r : ι) (segmentId : ℕ) (data : TalkerData) :
    List (GenerationStep A ε) → TalkerData × List (OutgoingMessage ι P A ε) × Bool × Option ε
  | [] => (data, [], false, none)
  | .cancelled :: _ => (data, [], false, none)
  | .aborted :: _ => (data, [], true, none)
  | .raises exc :: _ => (data, [], false, some exc)
  | .item none _ :: rest => generateAudioForSegment r segmentId data rest
  | .item (some audio) nowMs :: rest =>
    let (data, message) := emitAudioChunk r segmentId data audio nowMs
    let (data, sent, end') := generateAudioForSegment r segmentId data rest
    (data, message :: sent, end')

/-- `_on_stream_chunk`, with the exception if one is raised. -/
def onStreamChunk (nowMs : ℤ) (generation : List (GenerationStep A ε)) (s : TalkerScheduler ι P A ε)
    (r : ι) : SegmentChunk ε → TalkerScheduler ι P A ε × Option ε
  | .other => (s, none)
  | .item text segmentId =>
    let state := s.ensureState r { requestStartMs := nowMs }
    let s := s.setState r state
    if state.aborted ∨ state.finalized then (s, none)
    else
      match text with
      | .error exc => (s, some exc)
      | .ok text =>
        if text = [] then (s, none)
        else
          let (data, sent, aborted, exc) := generateAudioForSegment r
            (segmentId.getD state.data.segmentCount) state.data generation
          let data :=
            if exc.isSome then data else { data with segmentCount := data.segmentCount + 1 }
          ((s.setState r { state with data := data, aborted := aborted }).send sent, exc)

/-- What happens to the scheduler: a message is taken from the inbox, or another thread aborts a
request. The clock and what the talker generates are given each time. -/
inductive Event (ι P A ε : Type)
  | message (r : ι) (msg : IncomingMessage P (SegmentChunk ε))
      (generation : List (GenerationStep A ε)) (nowMs : ℤ)
  | abort (r : ι)

/-- `abort`: the state stays until the request is finalized. -/
def abort (s : TalkerScheduler ι P A ε) (r : ι) : TalkerScheduler ι P A ε :=
  match s.states.get r with
  | none => s
  | some state => s.setState r { state with aborted := true }

/-- The loop of `start`, and `abort`. -/
def next (s : TalkerScheduler ι P A ε) : Event ι P A ε → TalkerScheduler ι P A ε
  | .message r msg generation nowMs =>
    s.receive (talkerStage ι P A ε) r (onStreamChunk nowMs generation s r)
      { requestStartMs := nowMs } msg
  | .abort r => abort s r

/-- The scheduler after some events. -/
def run (events : List (Event ι P A ε)) : TalkerScheduler ι P A ε := events.foldl next .init

/-- The talker raises before it is cancelled or aborted. -/
def generationRaises : List (GenerationStep A ε) → Bool
  | [] => false
  | .item _ _ :: rest => generationRaises rest
  | .raises _ :: _ => true
  | .cancelled :: _ => false
  | .aborted :: _ => false

/-- The hooks raise on a chunk. -/
def chunkRaises (generation : List (GenerationStep A ε)) : Except ε Chars → Bool
  | .error _ => true
  | .ok text => text ≠ [] && generationRaises generation

/-- What a chunk does for its request. -/
def chunkSignal (generation : List (GenerationStep A ε)) : SegmentChunk ε → Option Signal
  | .other => none
  | .item text _ => some (if chunkRaises generation text then .fails else .item)

/-- What an event does for a request. -/
def signal (r : ι) : Event ι P A ε → Option Signal
  | .message r' msg generation _ =>
    if r' = r then messageSignal (chunkSignal generation) msg else none
  | .abort _ => none

/-- The signals of a request in a run. -/
def signals (r : ι) (events : List (Event ι P A ε)) : List Signal := events.filterMap (signal r)

/-- The event does not abort the request. -/
def NotAborted (r : ι) : Event ι P A ε → Prop
  | .message r' _ generation _ => r' = r → .aborted ∉ generation
  | .abort r' => r' ≠ r

theorem generateAudioForSegment_spec (r : ι) (segmentId : ℕ) (data : TalkerData)
    (generation : List (GenerationStep A ε)) :
    Silent (talkerStage ι P A ε) (generateAudioForSegment r segmentId data generation).2.1 ∧
      (generateAudioForSegment (P := P) r segmentId data generation).2.2.2.isSome =
        generationRaises generation ∧
      (.aborted ∉ generation →
        (generateAudioForSegment (P := P) r segmentId data generation).2.2.1 = false) := by
  induction generation generalizing data with
  | nil => exact ⟨silent_nil, rfl, fun _ => rfl⟩
  | cons g rest ih =>
    cases g with
    | raises exc => exact ⟨silent_nil, rfl, fun _ => rfl⟩
    | cancelled => exact ⟨silent_nil, rfl, fun _ => rfl⟩
    | aborted => exact ⟨silent_nil, rfl, fun h => absurd (List.mem_cons_self ..) h⟩
    | item audio nowMs =>
      cases audio with
      | none =>
        obtain ⟨hsilent, hraises, haborted⟩ := ih data
        exact ⟨hsilent, hraises, fun h => haborted fun hmem => h (List.mem_cons_of_mem _ hmem)⟩
      | some audio =>
        obtain ⟨hsilent, hraises, haborted⟩ :=
          ih (emitAudioChunk r segmentId data audio nowMs :
            TalkerData × OutgoingMessage ι P A ε).1
        refine ⟨?_, hraises, fun h => haborted fun hmem => h (List.mem_cons_of_mem _ hmem)⟩
        intro m hm r'
        rcases List.mem_cons.1 hm with rfl | hm
        · rfl
        · exact hsilent m hm r'

/-- A chunk of another request changes nothing for a request. -/
theorem sameFor_onStreamChunk {r' : ι} (hne : r ≠ r') (nowMs : ℤ)
    (generation : List (GenerationStep A ε)) (s : TalkerScheduler ι P A ε) (item : SegmentChunk ε) :
    SameFor (talkerStage ι P A ε) r s (onStreamChunk nowMs generation s r' item).1 := by
  cases item with
  | other => exact .refl r s
  | item text segmentId =>
    have hset : SameFor (talkerStage ι P A ε) r s
        (s.setState r' (s.ensureState r' { requestStartMs := nowMs })) :=
      sameFor_setState hne s _
    unfold onStreamChunk
    dsimp only
    split
    · exact hset
    · split
      · exact hset
      · split
        · exact hset
        · refine (hset.trans (sameFor_setState hne _ _)).trans (sameFor_send _ ?_)
          exact (generateAudioForSegment_spec ..).1

variable {s : TalkerScheduler ι P A ε}

/-- A chunk opens its request, and raises as its hooks say. -/
theorem onStreamChunk_spec (nowMs : ℤ) {generation : List (GenerationStep A ε)}
    (haborted : .aborted ∉ generation) (hactive : Active r s) (item : SegmentChunk ε) :
    ChunkSpec (talkerStage ι P A ε) r { requestStartMs := nowMs } s
      (chunkSignal generation item) (onStreamChunk nowMs generation s r item) := by
  cases item with
  | other => exact .ignored
  | item text segmentId =>
    let fresh : TalkerData := { requestStartMs := nowMs }
    obtain ⟨hfinalized, hnot⟩ := active_ensureState r fresh hactive
    have hopened : Opened (talkerStage ι P A ε) r fresh s (s.setState r (s.ensureState r fresh)) :=
      opened_setState r fresh s (s.ensureState r fresh).data
    unfold onStreamChunk
    dsimp only
    rw [if_neg (by simp [fresh, hfinalized, hnot])]
    cases text with
    | error exc => exact .raised exc hopened
    | ok text =>
      by_cases htext : text = []
      · subst htext
        exact .opened hopened
      · have hkept : ∀ data : TalkerData,
            ({ s.ensureState r fresh with data := data, aborted := false } :
              RequestState P TalkerData) = { s.ensureState r fresh with data := data } := by
          intro data
          rw [← hnot]
        have hsignal : chunkSignal generation (.item (.ok text) segmentId) =
            some (if generationRaises generation then .fails else .item) := by
          simp [chunkSignal, chunkRaises, htext]
        obtain ⟨hsilent, hraises, hmeanwhile⟩ := generateAudioForSegment_spec (P := P) r
          (segmentId.getD (s.ensureState r fresh).data.segmentCount) (s.ensureState r fresh).data
          generation
        simp only [if_neg htext]
        rw [hsignal, ← hraises, hmeanwhile haborted, hkept, Scheduler.setState_setState]
        generalize generateAudioForSegment r
          (segmentId.getD (s.ensureState r fresh).data.segmentCount) (s.ensureState r fresh).data
          generation = result at hsilent ⊢
        obtain ⟨data, sent, aborted, - | exc⟩ := result
        · exact .opened ⟨_, sent, hsilent, rfl⟩
        · exact .raised exc ⟨_, sent, hsilent, rfl⟩

/-- An event does to a request what its signal says. -/
theorem next_spec (hactive : Active r s) {e : Event ι P A ε} (he : NotAborted r e) :
    view (talkerStage ι P A ε) r (next s e) =
        (signal r e).toList.foldl advance (view (talkerStage ι P A ε) r s) ∧
      Active r (next s e) := by
  cases e with
  | abort r' =>
    have hsame : SameFor (talkerStage ι P A ε) r s (abort s r') := by
      unfold abort
      split
      · exact .refl r s
      · exact sameFor_setState (Ne.symm he) s _
    exact ⟨hsame.view, hsame.active hactive⟩
  | message r' msg generation nowMs =>
    rw [next, signal]
    by_cases hr : r' = r
    · subst hr
      rw [if_pos rfl]
      exact receive_spec r' _ hactive (onStreamChunk_spec nowMs (he rfl) hactive) msg
    · rw [if_neg hr]
      have hsame := sameFor_receive (Ne.symm hr) s
        (sameFor_onStreamChunk (Ne.symm hr) nowMs generation s) { requestStartMs := nowMs } msg
      exact ⟨hsame.view, hsame.active hactive⟩

theorem answered_iff {events : List (Event ι P A ε)} (hevents : ∀ e ∈ events, NotAborted r e) :
    Answered (talkerStage ι P A ε) r (run events) ↔ EndsWithAnswer (signals r events) := by
  have hinit : Active r (Scheduler.init : TalkerScheduler ι P A ε) := by
    exact nofun
  have hview : view (talkerStage ι P A ε) r (run events) = Rendezvous.run (signals r events) := by
    rw [signals, ← observed_eq_filterMap next (signal r) .init]
    exact view_foldl (view (talkerStage ι P A ε) r) (Active r) (NotAborted r)
      (fun s e hs he => (next_spec hs he).2) (fun s e hs he => (next_spec hs he).1) hinit hevents
  rw [answered_iff_view, hview, run_eq_iff]

end Omni.Ming.Talker

namespace Omni.Ming

open Rendezvous

variable {ι P A ε : Type} [DecidableEq ι]

/-- A request that is not aborted gets exactly one answer from the segmenter, and from the talker,
and leaves no state there, if and only if its messages end with the first one that answers, up to
ends of the stream after it: a hook raises, or the payload and an end of the stream have come, where
an end of the stream before any other message does not count. -/
theorem streaming_stages_answer_iff (cfg : SegmenterConfig) (r : ι) :
    (∀ events : List (Segmenter.Event ι P ε), (∀ e ∈ events, Segmenter.NotAborted r e) →
      (Answered (Segmenter.segmenterStage ι P ε) r (Segmenter.run cfg events) ↔
        EndsWithAnswer (Segmenter.signals cfg r events))) ∧
    (∀ events : List (Talker.Event ι P A ε), (∀ e ∈ events, Talker.NotAborted r e) →
      (Answered (Talker.talkerStage ι P A ε) r (Talker.run events) ↔
        EndsWithAnswer (Talker.signals r events))) :=
  ⟨fun _ hevents => Segmenter.answered_iff cfg hevents,
    fun _ hevents => Talker.answered_iff hevents⟩

/-- A request with one chunk in the segmenter, and one whose generation fails in the talker. -/
theorem streaming_stages_answer_one :
    Answered (Segmenter.segmenterStage ℕ Unit String) 7
        (Segmenter.run capThree
          [.message 7 (.newRequest ()) (fun _ => .ok 1) 0,
            .message 7 (.streamChunk (.item (.ok ['a']))) (fun _ => .ok 1) 0,
            .message 7 .streamDone (fun _ => .ok 1) 0]) ∧
      Answered (Talker.talkerStage ℕ Unit ℕ String) 7
        (Talker.run
          [.message 7 (.newRequest ()) [] 0,
            .message 7 (.streamChunk (.item (.ok ['a']) none)) [.raises "oom"] 0,
            .message 7 .streamDone [] 0]) := by
  have h := @streaming_stages_answer_iff ℕ Unit ℕ String _ capThree 7
  constructor
  · refine (h.1 _ (by simp [Segmenter.NotAborted])).2
      ⟨[.payload, .item], .done, [], rfl, by decide, .inr (by decide), by simp⟩
  · refine (h.2 _ (by simp [Talker.NotAborted])).2
      ⟨[.payload], .fails, [.done], by decide, by decide, .inl rfl, by simp⟩

/-- The end of the stream is dropped when it comes first: without chunks, as the stage before sends
it before the payload, the request is never answered. -/
theorem done_before_payload :
    ¬ Answered (Segmenter.segmenterStage ℕ Unit String) 7
        (Segmenter.run capThree
          [.message 7 .streamDone (fun _ => .ok 1) 0,
            .message 7 (.newRequest ()) (fun _ => .ok 1) 0]) ∧
      ¬ Answered (Talker.talkerStage ℕ Unit ℕ String) 7
        (Talker.run [.message 7 .streamDone [] 0, .message 7 (.newRequest ()) [] 0]) := by
  constructor
  · rintro ⟨hcount, -⟩
    exact absurd hcount (by decide)
  · rintro ⟨hcount, -⟩
    exact absurd hcount (by decide)

end Omni.Ming
