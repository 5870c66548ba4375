import Omni.Ming.Segments
import Omni.Ming.StreamingStage

/-!
# The segmenter stage of the Ming streaming talker

`MingStreamingSegmenterScheduler` of `models/ming_omni/components/streaming_segmenter.py`. Text
deltas go through the segmenter of their request, and a timer looks for first segments.
-/

namespace Omni.Ming.Segmenter

open Rendezvous

variable {ι P ε : Type} [DecidableEq ι] {r : ι}

/-- The data of a chunk: a `StreamItem` with what `uint8_tensor_to_text` makes of its data, or
something else. -/
inductive TextChunk (ε : Type)
  | item (text : Except ε Chars)
  | other

/-- What `_RequestState` has of its own. -/
structure SegmenterData where
  segmenter : SegmenterState := .init
  segmentCount : ℕ := 0
  firstTextMs : Option ℤ := none

/-- `OutgoingMessage`. A result without a payload gets a new one. -/
inductive OutgoingMessage (ι P ε : Type)
  | stream (requestId : ι) (segment : TextSegment)
  | result (requestId : ι) (payload : Option P) (segmentCount : ℕ)
  | error (requestId : ι) (exc : ε)

/-- The message ends the request. -/
def OutgoingMessage.answers (r : ι) : OutgoingMessage ι P ε → Bool
  | .stream .. => false
  | .result requestId .. => requestId = r
  | .error requestId _ => requestId = r

/-- The segments that `_finalize` sends: an empty one when nothing is left. -/
def finalSegments (data : SegmenterData) : List TextSegment :=
  if data.segmenter.flush.2 = [] then [⟨data.segmentCount, [], true⟩] else data.segmenter.flush.2

/-- The messages of `_finalize`. -/
def finalMessages (r : ι) (state : RequestState P SegmenterData) :
    List (OutgoingMessage ι P ε) :=
  (finalSegments state.data).map (.stream r) ++
    [.result r state.payload (state.data.segmentCount + (finalSegments state.data).length)]

/-- Segments end no request. -/
theorem countP_segments (r r' : ι) (segments : List TextSegment) :
    (segments.map (.stream r') : List (OutgoingMessage ι P ε)).countP (·.answers r) = 0 := by
  rw [List.countP_eq_zero]
  intro m hm
  obtain ⟨segment, -, rfl⟩ := List.mem_map.1 hm
  exact Bool.false_ne_true

/-- The segmenter stage. -/
def segmenterStage (ι P ε : Type) [DecidableEq ι] :
    StreamingStage ι P SegmenterData (OutgoingMessage ι P ε) ε where
  final := finalMessages
  error := .error
  answers r m := m.answers r
  count_final r r' state := by
    rw [finalMessages, List.countP_append, countP_segments]
    simp [OutgoingMessage.answers, List.countP_cons]
  answers_error _ _ _ := rfl

/-- `MingStreamingSegmenterScheduler`. -/
abbrev SegmenterScheduler (ι P ε : Type) :=
  Scheduler ι P SegmenterData (OutgoingMessage ι P ε)

section

variable (cfg : SegmenterConfig) (tokenCountFn : Chars → Except ε ℕ) (nowMs : ℤ)

/-- The data after segments. -/
def SegmenterData.emitted (data : SegmenterData) (segmenter : SegmenterState)
    (segments : List TextSegment) : SegmenterData where
  segmenter := segmenter
  segmentCount := data.segmentCount + segments.length
  firstTextMs := if segments = [] then data.firstTextMs else none

/-- `_on_stream_chunk`, with the exception if one is raised. -/
def onStreamChunk (s : SegmenterScheduler ι P ε) (r : ι) (item : TextChunk ε) :
    SegmenterScheduler ι P ε × Option ε :=
  let state := s.ensureState r {}
  let s := s.setState r state
  if state.aborted ∨ state.finalized then (s, none)
  else
    match item with
    | .other => (s, none)
    | .item (.error exc) => (s, some exc)
    | .item (.ok text) =>
      if text = [] then (s, none)
      else
        let data := { state.data with firstTextMs := state.data.firstTextMs.or (some nowMs) }
        match data.segmenter.tryPush cfg tokenCountFn text nowMs with
        | .error exc => (s.setState r { state with data := data }, some exc)
        | .ok (segmenter, segments) =>
          ((s.setState r { state with data := data.emitted segmenter segments }).send
            (segments.map (.stream r)), none)

/-- `_tick_first_segment_timeouts` for one request. -/
def tickRequest (state : RequestState P SegmenterData) :
    Except ε (RequestState P SegmenterData × List TextSegment) :=
  if state.aborted ∨ state.finalized ∨ state.data.segmentCount ≠ 0 then .ok (state, [])
  else
    match state.data.firstTextMs with
    | none => .ok (state, [])
    | some firstTextMs => do
      if nowMs - firstTextMs < cfg.firstSegmentMaxWaitMs then return (state, [])
      let tokens ← (if state.data.segmenter.buffer = [] then .ok 0
        else tokenCountFn state.data.segmenter.buffer)
      if tokens < cfg.firstSegmentMinTokens then return (state, [])
      let (segmenter, segments) ← state.data.segmenter.tryPush cfg tokenCountFn [] nowMs
      return ({ state with data := state.data.emitted segmenter segments }, segments)

/-- `_tick_first_segment_timeouts`: the states, what is sent, and the exception that ends it. -/
def tick : Dict ι (RequestState P SegmenterData) →
    Dict ι (RequestState P SegmenterData) × List (OutgoingMessage ι P ε) × Option ε
  | [] => ([], [], none)
  | (r, state) :: rest =>
    match tickRequest cfg tokenCountFn nowMs state with
    | .error exc => ((r, state) :: rest, [], some exc)
    | .ok (state, segments) =>
      let (states, sent, exc) := tick rest
      ((r, state) :: states, segments.map (.stream r) ++ sent, exc)

end

/-- What happens to the scheduler: a message is taken from the inbox, the inbox stays empty until
the timeout, or another thread aborts a request. The clock and the count hook are given each
time. -/
inductive Event (ι P ε : Type)
  | message (r : ι) (msg : IncomingMessage P (TextChunk ε)) (tokenCountFn : Chars → Except ε ℕ)
      (nowMs : ℤ)
  | timeout (tokenCountFn : Chars → Except ε ℕ) (nowMs : ℤ)
  | abort (r : ι)

/-- The loop of `start`, and `abort`. Messages to a scheduler that no longer runs stay where they
are. -/
def next (cfg : SegmenterConfig) (s : SegmenterScheduler ι P ε) :
    Event ι P ε → SegmenterScheduler ι P ε
  | .message r msg tokenCountFn nowMs =>
    if s.running then
      s.receive (segmenterStage ι P ε) r (onStreamChunk cfg tokenCountFn nowMs s r) {} msg
    else s
  | .timeout tokenCountFn nowMs =>
    if s.running then
      let (states, sent, exc) := tick cfg tokenCountFn nowMs s.states
      ⟨states, s.outbox ++ sent, exc.isNone⟩
    else s
  | .abort r => { s with states := s.states.pop r }

/-- The scheduler after some events. -/
def run (cfg : SegmenterConfig) (events : List (Event ι P ε)) : SegmenterScheduler ι P ε :=
  events.foldl (next cfg) .init

/-- The hooks raise on a chunk that comes to a buffer. -/
def chunkRaises (tokenCountFn : Chars → Except ε ℕ) (buffer : Chars) : TextChunk ε → Bool
  | .other => false
  | .item (.error _) => true
  | .item (.ok text) => text ≠ [] && !(tokenCountFn (buffer ++ text)).isOk

/-- What a chunk does for its request. -/
def chunkSignal (tokenCountFn : Chars → Except ε ℕ) (buffer : Chars) (item : TextChunk ε) :
    Option Signal :=
  some (if chunkRaises tokenCountFn buffer item then .fails else .item)

/-- What an event does for a request. -/
def signal (r : ι) (s : SegmenterScheduler ι P ε) : Event ι P ε → Option Signal
  | .message r' msg tokenCountFn _ =>
    if s.running ∧ r' = r then
      messageSignal (chunkSignal tokenCountFn (s.ensureState r {}).data.segmenter.buffer) msg
    else none
  | _ => none

/-- The signals of a request in a run. -/
def signals (cfg : SegmenterConfig) (r : ι) (events : List (Event ι P ε)) : List Signal :=
  observed (next cfg) (signal r) .init events

/-- The event does not abort the request. -/
def NotAborted (r : ι) : Event ι P ε → Prop
  | .abort r' => r' ≠ r
  | _ => True

theorem silent_segments (r : ι) (segments : List TextSegment) :
    Silent (segmenterStage ι P ε) (segments.map (.stream r)) := by
  intro m hm r'
  obtain ⟨segment, -, rfl⟩ := List.mem_map.1 hm
  rfl

/-- A chunk of another request changes nothing for a request. -/
theorem sameFor_onStreamChunk {r' : ι} (hne : r ≠ r') (cfg : SegmenterConfig)
    (tokenCountFn : Chars → Except ε ℕ) (nowMs : ℤ) (s : SegmenterScheduler ι P ε)
    (item : TextChunk ε) :
    SameFor (segmenterStage ι P ε) r s (onStreamChunk cfg tokenCountFn nowMs s r' item).1 := by
  have hset : SameFor (segmenterStage ι P ε) r s (s.setState r' (s.ensureState r' {})) :=
    sameFor_setState hne s _
  unfold onStreamChunk
  dsimp only
  split
  · exact hset
  · split
    · exact hset
    · exact hset
    · split
      · exact hset
      · split
        · exact hset.trans (sameFor_setState hne _ _)
        · exact (hset.trans (sameFor_setState hne _ _)).trans
            (sameFor_send _ (silent_segments r' _))

variable {s : SegmenterScheduler ι P ε}

/-- A chunk opens its request, and raises as its hooks say. -/
theorem onStreamChunk_spec (cfg : SegmenterConfig) (tokenCountFn : Chars → Except ε ℕ) (nowMs : ℤ)
    (hactive : Active r s) (item : TextChunk ε) :
    ChunkSpec (segmenterStage ι P ε) r {} s
      (chunkSignal tokenCountFn (s.ensureState r {}).data.segmenter.buffer item)
      (onStreamChunk cfg tokenCountFn nowMs s r item) := by
  obtain ⟨hfinalized, haborted⟩ := active_ensureState r {} hactive
  have hopened : Opened (segmenterStage ι P ε) r {} s (s.setState r (s.ensureState r {})) :=
    opened_setState r {} s (s.ensureState r {}).data
  unfold onStreamChunk
  rw [if_neg (by simp [hfinalized, haborted])]
  rcases item with (exc | text) | -
  · exact .raised exc hopened
  · by_cases htext : text = []
    · subst htext
      exact .opened hopened
    · have hbuffer : (s.ensureState r {}).data.segmenter.buffer ++ text ≠ [] := by simp [htext]
      simp only [if_neg htext, SegmenterState.tryPush, if_neg hbuffer]
      have hraises : chunkRaises tokenCountFn (s.ensureState r {}).data.segmenter.buffer
            (.item (.ok text)) =
          !(tokenCountFn ((s.ensureState r {}).data.segmenter.buffer ++ text)).isOk := by
        simp [chunkRaises, htext]
      rw [chunkSignal, hraises]
      cases tokenCountFn ((s.ensureState r {}).data.segmenter.buffer ++ text) with
      | error exc =>
        rw [Scheduler.setState_setState]
        exact .raised exc (opened_setState r {} s _)
      | ok tokens =>
        dsimp only [Except.map]
        rw [Scheduler.setState_setState]
        exact .opened ⟨_, _, silent_segments r _, rfl⟩
  · exact .opened hopened

/-! ### The timer -/

/-- What the timer does not touch. -/
def flags (state : RequestState P SegmenterData) : Progress × Bool × Bool :=
  (state.progress, state.finalized, state.aborted)

theorem flags_tickRequest {cfg : SegmenterConfig} {tokenCountFn : Chars → Except ε ℕ} {nowMs : ℤ}
    {state state' : RequestState P SegmenterData} {segments : List TextSegment}
    (h : tickRequest cfg tokenCountFn nowMs state = .ok (state', segments)) :
    flags state' = flags state := by
  have hsame : ∀ {segments : List TextSegment},
      (Except.ok (state, []) : Except ε _) = .ok (state', segments) →
        flags state' = flags state := by
    intro segments heq
    obtain ⟨rfl, -⟩ := Prod.mk.inj (Except.ok.inj heq)
    rfl
  unfold tickRequest at h
  split at h
  · exact hsame h
  · split at h
    · exact hsame h
    · simp only [bind, Except.bind, pure, Except.pure] at h
      split at h
      · exact hsame h
      · split at h
        · cases h
        · split at h
          · exact hsame h
          · split at h
            · cases h
            · obtain ⟨rfl, -⟩ := Prod.mk.inj (Except.ok.inj h)
              rfl

/-- The timer answers nothing and touches no flags, also when it raises. -/
theorem tick_spec (r : ι) (cfg : SegmenterConfig) (tokenCountFn : Chars → Except ε ℕ) (nowMs : ℤ)
    (states : Dict ι (RequestState P SegmenterData)) :
    ((tick cfg tokenCountFn nowMs states).1.get r).map flags = (states.get r).map flags ∧
      answersTo (segmenterStage ι P ε) r (tick cfg tokenCountFn nowMs states).2.1 = 0 := by
  induction states with
  | nil => exact ⟨rfl, rfl⟩
  | cons entry rest ih =>
    obtain ⟨r', state⟩ := entry
    rw [tick]
    split
    · exact ⟨rfl, rfl⟩
    next state' segments hrequest =>
      have hflags := flags_tickRequest hrequest
      refine ⟨?_, ?_⟩
      · rw [Dict.get, Dict.get]
        split
        · rw [Option.map_some, Option.map_some, hflags]
        · exact ih.1
      · rw [answersTo_append, (silent_segments r' segments).answersTo, ih.2]

/-! ### Every event -/

theorem view_eq_flags (r : ι) (s : SegmenterScheduler ι P ε) :
    view (segmenterStage ι P ε) r s =
      (((s.states.get r).map flags).map (·.1), answersTo (segmenterStage ι P ε) r s.outbox) := by
  rw [view, Option.map_map]
  rfl

theorem active_iff_flags (r : ι) (s : SegmenterScheduler ι P ε) :
    Active r s ↔ ∀ f ∈ (s.states.get r).map flags, f.2 = (false, false) := by
  rw [Active]
  cases s.states.get r <;> simp [flags, RequestState.Active]

/-- An event does to a request what its signal says. -/
theorem next_spec (cfg : SegmenterConfig) (hactive : Active r s) {e : Event ι P ε}
    (he : NotAborted r e) :
    view (segmenterStage ι P ε) r (next cfg s e) =
        (signal r s e).toList.foldl advance (view (segmenterStage ι P ε) r s) ∧
      Active r (next cfg s e) := by
  cases e with
  | abort r' =>
    have hsame : SameFor (segmenterStage ι P ε) r s (next cfg s (.abort r')) :=
      ⟨Dict.get_pop_ne (Ne.symm he) _, rfl⟩
    exact ⟨hsame.view, hsame.active hactive⟩
  | timeout tokenCountFn nowMs =>
    rw [next]
    split
    · obtain ⟨hflags, hsent⟩ := tick_spec r cfg tokenCountFn nowMs s.states
      rw [view_eq_flags, active_iff_flags, answersTo_append, hflags, hsent, ← active_iff_flags,
        Nat.add_zero, ← view_eq_flags]
      exact ⟨rfl, hactive⟩
    · exact ⟨rfl, hactive⟩
  | message r' msg tokenCountFn nowMs =>
    rw [next, signal]
    by_cases hrunning : s.running
    · rw [if_pos hrunning]
      by_cases hr : r' = r
      · subst hr
        rw [if_pos ⟨hrunning, rfl⟩]
        exact receive_spec r' {} hactive (onStreamChunk_spec cfg tokenCountFn nowMs hactive) msg
      · rw [if_neg (by simp [hr])]
        have hsame := sameFor_receive (Ne.symm hr) s
          (sameFor_onStreamChunk (Ne.symm hr) cfg tokenCountFn nowMs s) {} msg
        exact ⟨hsame.view, hsame.active hactive⟩
    · rw [if_neg hrunning, if_neg (by simp [hrunning])]
      exact ⟨rfl, hactive⟩

theorem answered_iff (cfg : SegmenterConfig) {events : List (Event ι P ε)}
    (hevents : ∀ e ∈ events, NotAborted r e) :
    Answered (segmenterStage ι P ε) r (run cfg events) ↔ EndsWithAnswer (signals cfg r events) := by
  have hinit : Active r (Scheduler.init : SegmenterScheduler ι P ε) := by
    exact nofun
  have hview : view (segmenterStage ι P ε) r (run cfg events) =
      Rendezvous.run (signals cfg r events) :=
    view_foldl (view (segmenterStage ι P ε) r) (Active r) (NotAborted r)
      (fun s e hs he => (next_spec cfg hs he).2) (fun s e hs he => (next_spec cfg hs he).1)
      hinit hevents
  rw [answered_iff_view, hview, run_eq_iff]

end Omni.Ming.Segmenter
