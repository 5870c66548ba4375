import Mathlib.Algebra.GroupWithZero.Nat
import Omni.Library.Text
import Omni.Library.Transition

/-!
# The speech WebSocket session

`SpeechWebSocketSession` of `serve/speech_ws.py`: the message loop, and the generation of a segment
with the task that watches the socket next to it and puts what arrives into a buffer. The steps are
what happens between two points where a task of the session is suspended. A receive that is
cancelled takes no message from the socket.
-/

namespace Omni.Serve

open Omni.Text Omni.Transition Option List

/-- A message of the socket. Of a binary frame the number of bytes matters. -/
structure SocketMessage where
  type : String
  text : Option String
  bytes : Option ℕ
  deriving DecidableEq

/-- A parsed message of the client. A type or a text that is no string is `none`. -/
structure ClientMessage where
  type : Option String
  text : Option String
  deriving DecidableEq

/-- `split_granularity`. -/
inductive SplitGranularity
  | sentence | clause
  deriving DecidableEq

/-- What the session gets from JSON and from the validation of its configuration. -/
structure SpeechParser where
  /-- `_parse_message`, `none` for what raises. -/
  parseMessage : String → Option ClientMessage
  /-- `_parse_config`, `none` for what raises. -/
  parseConfig : String → Option SplitGranularity

/-- How the generation task ends. -/
inductive GenerationOutcome
  | returned | failed | disconnected
  deriving DecidableEq

/-- Why a session has ended. -/
inductive EndReason
  | config | timeout | disconnect | overflow | textLimit | done | failure
  deriving DecidableEq

/-- `_run_generation_until_disconnect` for a segment, with the segments that follow it. -/
structure SegmentGeneration where
  segments : List String
  /-- The segment is generated by `_handle_input_done`. -/
  final : Bool
  /-- The result of the generation task. -/
  outcome : Option GenerationOutcome
  /-- The watching task has raised. -/
  disconnected : Bool
  /-- The session has seen the generation task done, and sleeps for a turn of the event loop. -/
  yielded : Bool
  deriving DecidableEq

/-- Where the session is. -/
inductive SpeechPhase
  | config
  | loop
  | generating (generation : SegmentGeneration)
  | ended (reason : EndReason)
  deriving DecidableEq

/-- A session with its socket. The last three fields record the messages that have arrived, those
that have been handled, and those that the watching task has taken without buffering them. -/
structure SpeechSession where
  socket : List SocketMessage
  bufferedReceiveMessages : List SocketMessage
  bufferedReceiveMessageBytes : ℕ
  buffer : List Char
  granularity : SplitGranularity
  closed : Bool
  phase : SpeechPhase
  arrived : List SocketMessage
  handled : List SocketMessage
  dropped : List SocketMessage
  deriving DecidableEq

/-- A new session. -/
def SpeechSession.init : SpeechSession :=
  ⟨[], [], 0, [], .sentence, false, .config, [], [], []⟩

/-- `MAX_REFERENCE_AUDIO_BYTES`. -/
def maxReferenceAudioBytes : ℕ := 10 * 1024 * 1024

/-- `MAX_CONFIG_MESSAGE_BYTES`. -/
def maxConfigMessageBytes : ℕ := (maxReferenceAudioBytes + 2) / 3 * 4 + 1024 * 1024

/-- `MAX_TEXT_MESSAGE_BYTES`. -/
def maxTextMessageBytes : ℕ := 128 * 1024

/-- `MAX_BUFFERED_TEXT_CHARS`. -/
def maxBufferedTextChars : ℕ := 256 * 1024

/-- `MAX_BUFFERED_RECEIVE_MESSAGES_DURING_GENERATION`. -/
def maxBufferedReceiveMessages : ℕ := 16

/-- `MAX_BUFFERED_RECEIVE_BYTES_DURING_GENERATION`. -/
def maxBufferedReceiveBytes : ℕ := maxBufferedReceiveMessages * maxTextMessageBytes

/-- `SENTENCE_BOUNDARIES` and `CLAUSE_BOUNDARIES`. -/
def SplitGranularity.boundaries : SplitGranularity → List Char
  | sentence => ".!?。！？".toList
  | clause => ".!?。！？,，;；".toList

/-- `_receive_message_size`. -/
def SocketMessage.size (message : SocketMessage) : ℕ :=
  match message.text with
  | some text => (utf8 text).length
  | none => message.bytes.getD 0

/-- What `_receive_text_frame` makes of a message. -/
inductive Frame
  | disconnect | invalid | text (raw : String)
  deriving DecidableEq

/-- The checks of `_receive_text_frame`. -/
def SocketMessage.frame (message : SocketMessage) (maxBytes : ℕ) : Frame :=
  if message.type = "websocket.disconnect" then .disconnect
  else if message.type ≠ "websocket.receive" then .invalid
  else
    match message.text with
    | none => .invalid
    | some raw => if maxBytes < (utf8 raw).length then .invalid else .text raw

/-- `_pop_complete_segments` from the start of a segment. -/
def popSegments (boundaries : List Char) : List Char → List Char → List String × List Char
  | current, [] => ([], current)
  | current, c :: rest =>
    if c ∈ boundaries then
      let segment := strip (String.ofList (current ++ [c]))
      let popped := popSegments boundaries [] rest
      (if segment = "" then popped.1 else segment :: popped.1, popped.2)
    else popSegments boundaries (current ++ [c]) rest

namespace SpeechSession

variable (parser : SpeechParser) (s : SpeechSession)

/-- `_receive_text_frame` takes the first buffered message, or the first of the socket. -/
def take : Option (SocketMessage × SpeechSession) :=
  match s.bufferedReceiveMessages with
  | message :: rest =>
    some (message, { s with
      bufferedReceiveMessages := rest
      bufferedReceiveMessageBytes := s.bufferedReceiveMessageBytes - message.size })
  | [] =>
    match s.socket with
    | message :: rest => some (message, { s with socket := rest })
    | [] => none

/-- The end of the session. -/
def finish (reason : EndReason) : SpeechSession := { s with phase := .ended reason }

/-- Back to the start of the message loop, which ends when the session is closed. -/
def continueLoop : SpeechSession :=
  if s.closed then s.finish .textLimit else { s with phase := .loop }

/-- The next segment is generated, or the handler of the message returns. -/
def nextSegment (segments : List String) (final : Bool) : SpeechSession :=
  match segments with
  | _ :: rest => { s with phase := .generating ⟨rest, final, none, false, false⟩ }
  | [] => if final then s.finish .done else s.continueLoop

/-- `_handle_input_text`. -/
def handleInputText (text : Option String) : SpeechSession :=
  match text with
  | none => s.continueLoop
  | some text =>
    if text = "" then s.continueLoop
    else if maxBufferedTextChars < s.buffer.length + text.toList.length then
      { s with buffer := [], closed := true }.continueLoop
    else
      let popped := popSegments s.granularity.boundaries [] (s.buffer ++ text.toList)
      { s with buffer := popped.2 }.nextSegment popped.1 false

/-- `_handle_input_done`. -/
def handleInputDone : SpeechSession :=
  let remaining := strip (String.ofList s.buffer)
  { s with buffer := [] }.nextSegment (if remaining = "" then [] else [remaining]) true

/-- A message in `_message_loop`. -/
def handleMessage (message : SocketMessage) : SpeechSession :=
  match message.frame maxTextMessageBytes with
  | .disconnect => s.finish .disconnect
  | .invalid => s.continueLoop
  | .text raw =>
    match parser.parseMessage raw with
    | none => s.continueLoop
    | some payload =>
      if payload.type = some "input.text" then s.handleInputText payload.text
      else if payload.type = some "input.done" then s.handleInputDone
      else s.continueLoop

/-- `_receive_config` once a message is there. -/
def handleConfig (message : SocketMessage) : SpeechSession :=
  match message.frame maxConfigMessageBytes with
  | .disconnect => s.finish .disconnect
  | .invalid => s.finish .config
  | .text raw =>
    match parser.parseMessage raw with
    | none => s.finish .config
    | some payload =>
      if payload.type ≠ some "session.config" then s.finish .config
      else
        match parser.parseConfig raw with
        | none => s.finish .config
        | some granularity => { s with granularity := granularity }.continueLoop

/-- The session receives and handles a message. -/
def receive : Option SpeechSession :=
  s.take.bind fun (message, s) =>
    let s := { s with handled := s.handled ++ [message] }
    match s.phase with
    | .config => some (s.handleConfig parser message)
    | .loop => some (s.handleMessage parser message)
    | _ => none

/-- `_watch_client_disconnect` for a message. -/
def watchMessage (generation : SegmentGeneration) (message : SocketMessage)
    (rest : List SocketMessage) : SpeechSession :=
  if message.type = "websocket.disconnect" then
    { s with
      socket := rest
      dropped := s.dropped ++ [message]
      phase := .generating { generation with disconnected := true } }
  else if maxBufferedReceiveMessages ≤ s.bufferedReceiveMessages.length ∨
      maxTextMessageBytes < message.size ∨
      maxBufferedReceiveBytes < s.bufferedReceiveMessageBytes + message.size then
    { s with
      socket := rest
      dropped := s.dropped ++ [message]
      closed := true
      phase := .generating { generation with disconnected := true } }
  else
    { s with
      socket := rest
      bufferedReceiveMessages := s.bufferedReceiveMessages ++ [message]
      bufferedReceiveMessageBytes := s.bufferedReceiveMessageBytes + message.size }

/-- The session wakes up in `_run_generation_until_disconnect`, if a task that it waits for is
done. -/
def wake (generation : SegmentGeneration) : Option SpeechSession :=
  match generation.outcome with
  | none =>
    if generation.disconnected then
      some (s.finish (if s.closed then .overflow else .disconnect))
    else none
  | some outcome =>
    if !generation.yielded then
      some { s with phase := .generating { generation with yielded := true } }
    else if generation.disconnected then
      some (s.finish (if s.closed then .overflow else .disconnect))
    else if outcome = .disconnected then some (s.finish .disconnect)
    else some (s.nextSegment generation.segments generation.final)

end SpeechSession

/-- What happens between two suspensions. -/
inductive SpeechAction
  /-- A message arrives at the socket. -/
  | arrive (message : SocketMessage)
  /-- `_receive_text_frame` returns and the message is handled. -/
  | receive
  /-- `wait_for` times out. -/
  | timeout
  /-- The watching task receives a message. -/
  | watch
  /-- The generation task ends. -/
  | generated (outcome : GenerationOutcome)
  /-- The session goes on after a task that it has waited for. -/
  | wake
  /-- A send fails, or the session is cancelled. -/
  | fail
  deriving DecidableEq

namespace SpeechSession

/-- A step of the session. -/
def step (parser : SpeechParser) (s : SpeechSession) : SpeechAction → Option SpeechSession
  | .arrive message =>
    some { s with socket := s.socket ++ [message], arrived := s.arrived ++ [message] }
  | .receive => s.receive parser
  | .timeout =>
    if (s.phase = .config ∨ s.phase = .loop) ∧ s.bufferedReceiveMessages = [] then
      some (s.finish .timeout)
    else none
  | .watch =>
    match s.phase, s.socket with
    | .generating generation, message :: rest =>
      if generation.disconnected then none else some (s.watchMessage generation message rest)
    | _, _ => none
  | .generated outcome =>
    match s.phase with
    | .generating generation =>
      if generation.outcome = none then
        some { s with phase := .generating { generation with outcome := some outcome } }
      else none
    | _ => none
  | .wake =>
    match s.phase with
    | .generating generation => s.wake generation
    | _ => none
  | .fail =>
    match s.phase with
    | .ended _ => none
    | _ => some (s.finish .failure)

/-- Where the messages of the client are. -/
structure Log where
  socket : List SocketMessage
  waiting : List SocketMessage
  bytes : ℕ
  arrived : List SocketMessage
  handled : List SocketMessage
  dropped : List SocketMessage

/-- The messages of a session. -/
def log (s : SpeechSession) : Log :=
  ⟨s.socket, s.bufferedReceiveMessages, s.bufferedReceiveMessageBytes, s.arrived, s.handled,
    s.dropped⟩

variable {parser : SpeechParser} {s t : SpeechSession}

/-- What handling a message does to the messages of the session: nothing. -/
structure Handles (s t : SpeechSession) : Prop where
  log : t.log = s.log
  started : t.phase ≠ .config

theorem handles_finish (s : SpeechSession) (reason : EndReason) : Handles s (s.finish reason) :=
  ⟨rfl, nofun⟩

theorem handles_continueLoop (s : SpeechSession) : Handles s s.continueLoop := by
  unfold continueLoop
  split
  · exact handles_finish s .textLimit
  · exact ⟨rfl, nofun⟩

theorem handles_nextSegment (s : SpeechSession) (segments : List String) (final : Bool) :
    Handles s (s.nextSegment segments final) := by
  unfold nextSegment
  split
  · exact ⟨rfl, nofun⟩
  · split
    · exact handles_finish s .done
    · exact handles_continueLoop s

theorem handles_ite {c : Prop} [Decidable c] {t u : SpeechSession} (ht : Handles s t)
    (hu : Handles s u) : Handles s (if c then t else u) := by
  split
  · exact ht
  · exact hu

theorem Handles.of_log {u : SpeechSession} (h : Handles t u) (hlog : t.log = s.log) :
    Handles s u := ⟨h.log.trans hlog, h.started⟩

theorem handles_handleInputText (s : SpeechSession) (text : Option String) :
    Handles s (s.handleInputText text) := by
  cases text with
  | none => exact handles_continueLoop s
  | some text =>
    refine handles_ite (handles_continueLoop s) (handles_ite ?_ ?_)
    · exact (handles_continueLoop { s with buffer := [], closed := true }).of_log rfl
    · exact (handles_nextSegment { s with
        buffer := (popSegments s.granularity.boundaries [] (s.buffer ++ text.toList)).2 }
        (popSegments s.granularity.boundaries [] (s.buffer ++ text.toList)).1 false).of_log rfl

theorem handles_handleInputDone (s : SpeechSession) : Handles s s.handleInputDone := by
  exact (handles_nextSegment { s with buffer := [] } (if strip (String.ofList s.buffer) = "" then []
    else [strip (String.ofList s.buffer)]) true).of_log rfl

theorem handles_handleMessage (parser : SpeechParser) (s : SpeechSession)
    (message : SocketMessage) : Handles s (s.handleMessage parser message) := by
  unfold handleMessage
  cases message.frame maxTextMessageBytes with
  | disconnect => exact handles_finish s .disconnect
  | invalid => exact handles_continueLoop s
  | text raw =>
    simp only
    cases parser.parseMessage raw with
    | none => exact handles_continueLoop s
    | some payload =>
      exact handles_ite (handles_handleInputText s payload.text)
        (handles_ite (handles_handleInputDone s) (handles_continueLoop s))

theorem handles_handleConfig (parser : SpeechParser) (s : SpeechSession) (message : SocketMessage) :
    Handles s (s.handleConfig parser message) := by
  unfold handleConfig
  cases message.frame maxConfigMessageBytes with
  | disconnect => exact handles_finish s .disconnect
  | invalid => exact handles_finish s .config
  | text raw =>
    simp only
    cases parser.parseMessage raw with
    | none => exact handles_finish s .config
    | some payload =>
      refine handles_ite (handles_finish s .config) ?_
      cases parser.parseConfig raw with
      | none => exact handles_finish s .config
      | some granularity =>
        exact (handles_continueLoop { s with granularity := granularity }).of_log rfl

variable {message : SocketMessage}

/-- What a receive takes: the first buffered message, or the first of the socket when nothing is
buffered. -/
theorem take_cases (h : s.take = some (message, t)) :
    (∃ rest, s.bufferedReceiveMessages = message :: rest ∧ t = { s with
      bufferedReceiveMessages := rest
      bufferedReceiveMessageBytes := s.bufferedReceiveMessageBytes - message.size }) ∨
    (∃ rest, s.bufferedReceiveMessages = [] ∧ s.socket = message :: rest ∧
      t = { s with socket := rest }) := by
  unfold take at h
  cases hwaiting : s.bufferedReceiveMessages with
  | cons first rest =>
    rw [hwaiting] at h
    obtain ⟨rfl, rfl⟩ := Prod.mk.inj (some.inj h)
    exact .inl ⟨rest, rfl, rfl⟩
  | nil =>
    rw [hwaiting] at h
    cases hsocket : s.socket with
    | nil =>
      rw [hsocket] at h
      cases h
    | cons first rest =>
      rw [hsocket] at h
      obtain ⟨rfl, rfl⟩ := Prod.mk.inj (some.inj h)
      exact .inr ⟨rest, rfl, rfl, rfl⟩

/-- The watching task has raised, or the session has ended. -/
def Over (s : SpeechSession) : Prop :=
  (∃ generation : SegmentGeneration, s.phase = .generating generation ∧
    generation.disconnected = true) ∨ ∃ reason, s.phase = .ended reason

/-- Every message that has arrived is handled, waiting, dropped or in the socket, in this order. A
message is dropped only when the session is over, and nothing waits before the configuration. -/
structure Buffered (s : SpeechSession) : Prop where
  order : s.arrived = s.handled ++ s.bufferedReceiveMessages ++ s.dropped ++ s.socket
  bytes : s.bufferedReceiveMessageBytes = (s.bufferedReceiveMessages.map SocketMessage.size).sum
  dropped : s.dropped ≠ [] → s.Over
  config : s.phase = .config → s.bufferedReceiveMessages = []

theorem buffered_init : init.Buffered := ⟨rfl, rfl, fun h => absurd rfl h, fun _ => rfl⟩

/-- The log decides about a session in which nothing is dropped. -/
theorem Buffered.of_log (hs : s.Buffered) (hlog : t.log = s.log) (hover : s.Over → t.Over)
    (hconfig : t.phase = .config → s.phase = .config) : t.Buffered := by
  obtain ⟨hsocket, hwaiting, hbytes, harrived, hhandled, hdropped⟩ : t.socket = s.socket ∧
      t.bufferedReceiveMessages = s.bufferedReceiveMessages ∧
      t.bufferedReceiveMessageBytes = s.bufferedReceiveMessageBytes ∧ t.arrived = s.arrived ∧
      t.handled = s.handled ∧ t.dropped = s.dropped := by
    simpa [log] using hlog
  refine ⟨?_, ?_, fun h => hover (hs.dropped ?_), fun h => ?_⟩
  · rw [harrived, hhandled, hwaiting, hdropped, hsocket]
    exact hs.order
  · rw [hbytes, hwaiting]
    exact hs.bytes
  · rwa [← hdropped]
  · rw [hwaiting]
    exact hs.config (hconfig h)

/-- The session that a message is handled in has taken it, and records it. -/
theorem receive_cases (h : s.receive parser = some t) :
    ∃ message u, s.take = some (message, u) ∧ (s.phase = .config ∨ s.phase = .loop) ∧
      Handles { u with handled := u.handled ++ [message] } t := by
  obtain ⟨⟨message, u⟩, htake, hstep⟩ := bind_eq_some_iff.1 h
  have hphase : u.phase = s.phase := by
    rcases take_cases htake with ⟨rest, -, rfl⟩ | ⟨rest, -, -, rfl⟩ <;> rfl
  refine ⟨message, u, htake, ?_⟩
  simp only at hstep
  rw [← hphase]
  cases hu : u.phase with
  | config =>
    rw [hu] at hstep
    cases hstep
    exact ⟨.inl rfl, handles_handleConfig parser _ message⟩
  | loop =>
    rw [hu] at hstep
    cases hstep
    exact ⟨.inr rfl, handles_handleMessage parser _ message⟩
  | generating generation =>
    rw [hu] at hstep
    cases hstep
  | ended reason =>
    rw [hu] at hstep
    cases hstep

/-- A session that receives is not over. -/
theorem not_over_of_phase (h : s.phase = .config ∨ s.phase = .loop) : ¬ s.Over := by
  rintro (⟨generation, hphase, -⟩ | ⟨reason, hphase⟩)
  · rcases h with h | h <;> rw [h] at hphase <;> cases hphase
  · rcases h with h | h <;> rw [h] at hphase <;> cases hphase

/-- A receive handles the first message that waits, or the first of the socket when none waits. -/
theorem Buffered.receive (hs : s.Buffered) (h : s.receive parser = some t) :
    t.Buffered ∧ ∃ message, t.handled = s.handled ++ [message] := by
  obtain ⟨message, u, htake, hphase, hhandles⟩ := receive_cases h
  have hnone : s.dropped = [] := by
    by_contra hne
    exact not_over_of_phase hphase (hs.dropped hne)
  have horder := hs.order
  have hbytes := hs.bytes
  have hlog := hhandles.log
  rw [hnone, append_nil] at horder
  simp only [log, Log.mk.injEq] at hlog
  obtain ⟨hsocket, hwaiting, hcount, harrived, hhandled, hdropped⟩ := hlog
  rcases take_cases htake with ⟨rest, hfirst, rfl⟩ | ⟨rest, hempty, hfirst, rfl⟩
  · rw [hfirst] at horder hbytes
    refine ⟨⟨?_, ?_, fun hne => absurd (hdropped.trans hnone) hne,
      fun hconfig => absurd hconfig hhandles.started⟩, message, hhandled⟩
    · rw [harrived, hhandled, hwaiting, hdropped, hsocket, hnone, horder]
      simp
    · rw [hcount, hwaiting, hbytes, map_cons, sum_cons]
      exact Nat.add_sub_cancel_left _ _
  · rw [hempty, hfirst] at horder
    refine ⟨⟨?_, ?_, fun hne => absurd (hdropped.trans hnone) hne,
      fun hconfig => absurd hconfig hhandles.started⟩, message, hhandled⟩
    · rw [harrived, hhandled, hwaiting, hdropped, hsocket, hnone, hempty, horder]
      simp
    · rw [hcount, hwaiting]
      exact hbytes

variable {generation : SegmentGeneration}

/-- The watching task moves the first message of the socket to the end of the buffer, or drops it
and raises. -/
theorem Buffered.watchMessage (hs : s.Buffered) {rest : List SocketMessage}
    (hphase : s.phase = .generating generation) (hwatching : generation.disconnected = false)
    (hsocket : s.socket = message :: rest) :
    (s.watchMessage generation message rest).Buffered := by
  have hnone : s.dropped = [] := by
    by_contra hne
    rcases hs.dropped hne with ⟨generation', hgen, hraised⟩ | ⟨reason, hend⟩
    · rw [hphase] at hgen
      obtain rfl := SpeechPhase.generating.inj hgen
      rw [hwatching] at hraised
      cases hraised
    · rw [hphase] at hend
      cases hend
  have horder := hs.order
  rw [hnone, append_nil, hsocket] at horder
  unfold SpeechSession.watchMessage
  split
  · refine ⟨?_, hs.bytes, fun _ => .inl ⟨_, rfl, rfl⟩, nofun⟩
    simp [horder, hnone]
  · split
    · refine ⟨?_, hs.bytes, fun _ => .inl ⟨_, rfl, rfl⟩, nofun⟩
      simp [horder, hnone]
    · refine ⟨?_, ?_, fun h => absurd hnone h, fun h => ?_⟩
      · simp [horder, hnone]
      · simp [hs.bytes]
      · rw [hphase] at h
        cases h

/-- Waking up moves no message, and ends a session whose watching task has raised. -/
theorem Buffered.wake (hs : s.Buffered) (hphase : s.phase = .generating generation)
    (h : s.wake generation = some t) : t.Buffered := by
  have hkeep (hhandles : Handles s t) (hover : generation.disconnected = true → t.Over) :
      t.Buffered := by
    refine hs.of_log hhandles.log ?_ fun h => absurd h hhandles.started
    rintro (⟨generation', hgen, hraised⟩ | ⟨reason, hend⟩)
    · rw [hphase] at hgen
      obtain rfl := SpeechPhase.generating.inj hgen
      exact hover hraised
    · rw [hphase] at hend
      cases hend
  have hfinish (reason : EndReason) (h : s.finish reason = t) : t.Buffered := by
    subst h
    exact hkeep (handles_finish s reason) fun _ => .inr ⟨reason, rfl⟩
  unfold SpeechSession.wake at h
  cases houtcome : generation.outcome with
  | none =>
    rw [houtcome] at h
    simp only at h
    split at h
    · exact hfinish _ (some.inj h)
    · cases h
  | some outcome =>
    rw [houtcome] at h
    simp only at h
    split at h
    · obtain rfl := some.inj h
      exact hkeep ⟨rfl, nofun⟩ fun hraised => .inl ⟨_, rfl, hraised⟩
    · split at h
      · exact hfinish _ (some.inj h)
      · split at h
        · exact hfinish _ (some.inj h)
        · obtain rfl := some.inj h
          rename_i hraised _
          exact hkeep (handles_nextSegment s _ _) fun h => absurd h hraised

variable {a : SpeechAction}

/-- **Step lemma.** Every step keeps the order of the messages and the counter. -/
theorem Buffered.step (hs : s.Buffered) (h : s.step parser a = some t) :
    t.Buffered := by
  cases a with
  | arrive message =>
    obtain rfl := some.inj h
    refine ⟨?_, hs.bytes, fun hne => ?_, hs.config⟩
    · simp [hs.order]
    · exact hs.dropped hne
  | receive => exact (hs.receive h).1
  | timeout =>
    obtain ⟨-, h⟩ := ite_none_right_eq_some.1 h
    obtain rfl := some.inj h
    exact hs.of_log rfl (fun _ => .inr ⟨_, rfl⟩) nofun
  | watch =>
    simp only [step] at h
    split at h
    next generation message rest hphase hsocket =>
      split at h
      · cases h
      next hwatching =>
        obtain rfl := some.inj h
        exact hs.watchMessage hphase (by simpa using hwatching) hsocket
    · cases h
  | generated outcome =>
    simp only [step] at h
    split at h
    next generation hphase =>
      obtain ⟨-, h⟩ := ite_none_right_eq_some.1 h
      obtain rfl := some.inj h
      refine hs.of_log rfl ?_ nofun
      rintro (⟨generation', hgen, hraised⟩ | ⟨reason, hend⟩)
      · rw [hphase] at hgen
        obtain rfl := SpeechPhase.generating.inj hgen
        exact .inl ⟨_, rfl, hraised⟩
      · rw [hphase] at hend
        cases hend
    · cases h
  | wake =>
    simp only [step] at h
    split at h
    next generation hphase =>
      exact hs.wake hphase h
    · cases h
  | fail =>
    simp only [step] at h
    split at h
    · cases h
    · obtain rfl := some.inj h
      exact hs.of_log rfl (fun _ => .inr ⟨_, rfl⟩) nofun

/-- **Run lemma.** -/
theorem buffered_of_run {as : List SpeechAction}
    (hrun : Run (SpeechSession.step parser) anyAction init as s) : s.Buffered :=
  hrun.invariant (fun _ _ _ hs _ h => hs.step h) buffered_init

/-- The actions of the session and of its generation task. -/
def Works (a : SpeechAction) : Prop :=
  a = .receive ∨ (∃ outcome, a = .generated outcome) ∨ a = .wake

theorem step_prefix (h : s.step parser a = some t) :
    s.handled <+: t.handled ∧
      s.handled ++ s.bufferedReceiveMessages <+: t.handled ++ t.bufferedReceiveMessages := by
  have hsame (hlog : t.log = s.log) : s.handled <+: t.handled ∧
      s.handled ++ s.bufferedReceiveMessages <+: t.handled ++ t.bufferedReceiveMessages := by
    have hwaiting : t.bufferedReceiveMessages = s.bufferedReceiveMessages :=
      congrArg Log.waiting hlog
    have hhandled : t.handled = s.handled := congrArg Log.handled hlog
    rw [hwaiting, hhandled]
    exact ⟨prefix_rfl, prefix_rfl⟩
  cases a with
  | arrive message =>
    obtain rfl := some.inj h
    exact ⟨prefix_rfl, prefix_rfl⟩
  | receive =>
    obtain ⟨message, u, htake, -, hhandles⟩ := receive_cases h
    have hwaiting : t.bufferedReceiveMessages = u.bufferedReceiveMessages :=
      congrArg Log.waiting hhandles.log
    have hhandled : t.handled = u.handled ++ [message] := congrArg Log.handled hhandles.log
    rw [hwaiting, hhandled]
    rcases take_cases htake with ⟨rest, hfirst, rfl⟩ | ⟨rest, hempty, -, rfl⟩
    · rw [hfirst]
      exact ⟨prefix_append _ _, by simp⟩
    · rw [hempty]
      exact ⟨prefix_append _ _, by simp⟩
  | timeout =>
    obtain ⟨-, h⟩ := ite_none_right_eq_some.1 h
    obtain rfl := some.inj h
    exact hsame rfl
  | watch =>
    simp only [step] at h
    split at h
    · split at h
      · cases h
      · obtain rfl := some.inj h
        unfold watchMessage
        split
        · exact ⟨prefix_rfl, prefix_rfl⟩
        · split
          · exact ⟨prefix_rfl, prefix_rfl⟩
          · refine ⟨prefix_rfl, ?_⟩
            simp only [← append_assoc]
            exact prefix_append _ _
    · cases h
  | generated outcome =>
    simp only [step] at h
    split at h
    · obtain ⟨-, h⟩ := ite_none_right_eq_some.1 h
      obtain rfl := some.inj h
      exact hsame rfl
    · cases h
  | wake =>
    simp only [step] at h
    split at h
    next generation hphase =>
      unfold wake at h
      split at h
      · obtain ⟨-, h⟩ := ite_none_right_eq_some.1 h
        obtain rfl := some.inj h
        exact hsame rfl
      · split at h
        · obtain rfl := some.inj h
          exact hsame rfl
        · split at h
          · obtain rfl := some.inj h
            exact hsame rfl
          · split at h
            · obtain rfl := some.inj h
              exact hsame rfl
            · obtain rfl := some.inj h
              exact hsame (handles_nextSegment s _ _).log
    · cases h
  | fail =>
    simp only [step] at h
    split at h
    · cases h
    · obtain rfl := some.inj h
      exact hsame rfl

/-- The steps that are left of the segments of a message. -/
def generationLeft (s : SpeechSession) : ℕ :=
  match s.phase with
  | .generating generation =>
    3 * generation.segments.length +
      (if generation.outcome = none then 2 else if generation.yielded then 0 else 1)
  | _ => 0

/-- No segment is being generated. -/
def Idle (s : SpeechSession) : Prop := ∀ generation, s.phase ≠ .generating generation

/-- While a segment is generated, the session or its generation task can act. -/
theorem exists_works (hbusy : ¬ s.Idle) : ∃ a t, Works a ∧ s.step parser a = some t := by
  obtain ⟨generation, hphase⟩ : ∃ generation, s.phase = .generating generation := by
    by_contra hnone
    exact hbusy fun generation hphase => hnone ⟨generation, hphase⟩
  cases houtcome : generation.outcome with
  | none =>
    refine ⟨.generated .returned,
      { s with phase := .generating { generation with outcome := some .returned } },
      .inr (.inl ⟨_, rfl⟩), ?_⟩
    simp only [step, hphase, houtcome, if_true]
  | some outcome =>
    have hwake : ∃ t, s.wake generation = some t := by
      simp only [wake, houtcome]
      split
      · exact ⟨_, rfl⟩
      · split
        · exact ⟨_, rfl⟩
        · split <;> exact ⟨_, rfl⟩
    obtain ⟨t, ht⟩ := hwake
    refine ⟨.wake, t, .inr (.inr rfl), ?_⟩
    simp only [step, hphase, ht]

theorem idle_or_left_of_nextSegment (s : SpeechSession) (segments : List String) (final : Bool) :
    (s.nextSegment segments final).Idle ∨
      (s.nextSegment segments final).generationLeft + 1 ≤ 3 * segments.length := by
  cases segments with
  | nil =>
    left
    unfold nextSegment
    split
    next h =>
      cases h
    · split
      · exact nofun
      · unfold continueLoop
        split <;> exact nofun
  | cons segment rest =>
    simp only [nextSegment, generationLeft, if_true, length_cons]
    omega

/-- Every step of the session and its generation task brings the segments closer to their end. -/
theorem generationLeft_step (hbusy : ¬ s.Idle) (h : s.step parser a = some t) :
    t.Idle ∨ t.generationLeft ≤ s.generationLeft ∧
      (Works a → t.generationLeft < s.generationLeft) := by
  obtain ⟨generation, hphase⟩ : ∃ generation, s.phase = .generating generation := by
    by_contra hnone
    exact hbusy fun generation hphase => hnone ⟨generation, hphase⟩
  have hended (reason : EndReason) : (s.finish reason).Idle := nofun
  have hleft : s.generationLeft = 3 * generation.segments.length +
      (if generation.outcome = none then 2 else if generation.yielded then 0 else 1) := by
    simp only [generationLeft, hphase]
  cases a with
  | arrive message =>
    obtain rfl := some.inj h
    refine .inr ⟨le_rfl, ?_⟩
    rintro (h | ⟨outcome, h⟩ | h) <;> cases h
  | receive =>
    obtain ⟨message, u, -, hreceives, -⟩ := receive_cases h
    rw [hphase] at hreceives
    rcases hreceives with h | h <;> cases h
  | timeout =>
    obtain ⟨⟨hreceives, -⟩, -⟩ := ite_none_right_eq_some.1 h
    rw [hphase] at hreceives
    rcases hreceives with h | h <;> cases h
  | watch =>
    right
    constructor
    · simp only [step, hphase] at h
      split at h
      · split at h
        · cases h
        · obtain rfl := some.inj h
          rename_i hgen _ _
          obtain rfl := SpeechPhase.generating.inj hgen
          unfold watchMessage
          split
          · simp only [generationLeft, hphase, le_refl]
          · split
            · simp only [generationLeft, hphase, le_refl]
            · simp only [generationLeft, hphase, le_refl]
      · cases h
    · rintro (h | ⟨outcome, h⟩ | h) <;> cases h
  | generated outcome =>
    simp only [step, hphase] at h
    obtain ⟨hnone, h⟩ := ite_none_right_eq_some.1 h
    obtain rfl := some.inj h
    have hless : ({ s with phase := .generating { generation with outcome := some outcome } } :
        SpeechSession).generationLeft < s.generationLeft := by
      rw [hleft]
      simp only [generationLeft, reduceCtorEq, if_false]
      split <;> omega
    exact .inr ⟨hless.le, fun _ => hless⟩
  | wake =>
    simp only [step, hphase, wake] at h
    cases houtcome : generation.outcome with
    | none =>
      rw [houtcome] at h
      obtain ⟨-, h⟩ := ite_none_right_eq_some.1 h
      obtain rfl := some.inj h
      exact .inl (hended _)
    | some outcome =>
      rw [houtcome] at h hleft
      simp only at h
      split at h
      next hyielded =>
        obtain rfl := some.inj h
        obtain ⟨slept, hslept⟩ : ∃ slept : SegmentGeneration,
            slept = { generation with outcome := some outcome, yielded := true } := ⟨_, rfl⟩
        have hless : ({ s with phase := .generating slept } :
            SpeechSession).generationLeft < s.generationLeft := by
          subst hslept
          rw [hleft]
          simp only [generationLeft, reduceCtorEq, if_false, if_true]
          simp only [Bool.not_eq_eq_eq_not, Bool.not_true] at hyielded
          rw [hyielded]
          simp
        subst hslept
        exact .inr ⟨hless.le, fun _ => hless⟩
      · split at h
        · obtain rfl := some.inj h
          exact .inl (hended _)
        · split at h
          · obtain rfl := some.inj h
            exact .inl (hended _)
          · obtain rfl := some.inj h
            refine (idle_or_left_of_nextSegment s generation.segments generation.final).imp_right
              fun hless => ?_
            have hless' : (s.nextSegment generation.segments generation.final).generationLeft <
                s.generationLeft := by omega
            exact ⟨hless'.le, fun _ => hless'⟩
  | fail =>
    simp only [step, hphase] at h
    obtain rfl := some.inj h
    exact .inl (hended _)

/-- The session has ended. -/
def Ended (s : SpeechSession) : Prop := ∃ reason, s.phase = .ended reason

/-- A path on which the session and its generation task go on as long as they can. -/
abbrev Goes (p : Path (SpeechSession.step parser) s) : Prop := p.Fair Works

/-- What has been handled and what waits only grows along a path. -/
theorem history_grows (p : Path (SpeechSession.step parser) s) {i j : ℕ} (hij : i ≤ j) :
    (p.state i).handled <+: (p.state j).handled ∧
      (p.state i).handled ++ (p.state i).bufferedReceiveMessages <+:
        (p.state j).handled ++ (p.state j).bufferedReceiveMessages := by
  induction j, hij using Nat.le_induction with
  | base => exact ⟨prefix_rfl, prefix_rfl⟩
  | succ j _ ih =>
    obtain ⟨hhandled, hwaiting⟩ := step_prefix (p.next j)
    exact ⟨ih.1.trans hhandled, ih.2.trans hwaiting⟩

/-- The order of the messages is kept along a path. -/
theorem buffered_path (hs : s.Buffered) (p : Path (SpeechSession.step parser) s) (i : ℕ) :
    (p.state i).Buffered := by
  induction i with
  | zero =>
    rw [p.start]
    exact hs
  | succ i ih => exact ih.step (p.next i)

variable {p : Path (SpeechSession.step parser) s}

/-- The generation of segments comes to an end. -/
theorem eventually_idle (hfair : Goes p) (i : ℕ) :
    ∃ j ≥ i, (p.state j).Idle := by
  refine p.eventually hfair (fun s => s.generationLeft) (I := fun _ => True) ?_ ?_ trivial
  · exact fun s _ hbusy => exists_works hbusy
  · intro s a t _ hbusy hstep
    exact (generationLeft_step hbusy hstep).imp_right fun h => ⟨trivial, h.1, h.2⟩

/-- More than a number of messages have been handled, or the session has ended. -/
def HandlesMore (count : ℕ) (s : SpeechSession) : Prop := s.Ended ∨ count < s.handled.length

theorem eventually_handles (hfair : Goes p) {i : ℕ} (hloop : (p.state i).phase = .loop)
    (hwaiting : (p.state i).bufferedReceiveMessages ≠ []) :
    ∃ j ≥ i, (p.state j).HandlesMore (p.state i).handled.length := by
  refine p.eventually hfair (fun _ => 0)
    (I := fun t => t.phase = .loop ∧ t.bufferedReceiveMessages ≠ [] ∧
      t.handled.length = (p.state i).handled.length) ?_ ?_ ⟨hloop, hwaiting, rfl⟩
  · rintro t ⟨hphase, hne, -⟩ -
    cases hfirst : t.bufferedReceiveMessages with
    | nil => exact absurd hfirst hne
    | cons message rest =>
      refine ⟨.receive, { t with
        bufferedReceiveMessages := rest
        bufferedReceiveMessageBytes := t.bufferedReceiveMessageBytes - message.size
        handled := t.handled ++ [message] }.handleMessage parser message, .inl rfl, ?_⟩
      simp only [SpeechSession.step, SpeechSession.receive, take, hfirst, bind_some, hphase]
  · rintro t a u ⟨hphase, hne, hcount⟩ - hstep
    cases a with
    | arrive message =>
      cases hstep
      refine .inr ⟨⟨hphase, hne, hcount⟩, le_rfl, ?_⟩
      rintro (h | ⟨outcome, h⟩ | h) <;> cases h
    | receive =>
      obtain ⟨message, v, htake, -, hhandles⟩ := receive_cases hstep
      have hhandled : u.handled = v.handled ++ [message] := congrArg Log.handled hhandles.log
      have hv : v.handled = t.handled := by
        rcases take_cases htake with ⟨rest, -, rfl⟩ | ⟨rest, -, -, rfl⟩ <;> rfl
      left
      right
      rw [hhandled, hv, length_append, hcount]
      exact Nat.lt_succ_self _
    | timeout =>
      obtain ⟨⟨-, hempty⟩, -⟩ := ite_none_right_eq_some.1 hstep
      exact absurd hempty hne
    | watch => simp [SpeechSession.step, hphase] at hstep
    | generated outcome => simp [SpeechSession.step, hphase] at hstep
    | wake => simp [SpeechSession.step, hphase] at hstep
    | fail =>
      simp only [SpeechSession.step, hphase] at hstep
      cases hstep
      exact .inl (.inl ⟨_, rfl⟩)

/-- **Progress lemma.** On a path on which the session goes on, what waits is handled, unless the
session ends before. -/
theorem eventually_handled (hs : s.Buffered) (hfair : Goes p) :
    ∃ j, (p.state j).Ended ∨ s.handled ++ s.bufferedReceiveMessages <+: (p.state j).handled := by
  have hfrom (i : ℕ) : ∃ j, (p.state j).Ended ∨
      s.handled ++ s.bufferedReceiveMessages <+: (p.state j).handled := by
    induction hn : (s.handled ++ s.bufferedReceiveMessages).length - (p.state i).handled.length
      using Nat.strong_induction_on generalizing i with
    | _ n ih =>
      obtain ⟨j, hij, hidle⟩ := eventually_idle hfair i
      have hgrows := (history_grows p hij).1.length_le
      have htarget : s.handled ++ s.bufferedReceiveMessages <+:
          (p.state j).handled ++ (p.state j).bufferedReceiveMessages := by
        have h := (history_grows p (Nat.zero_le j)).2
        rwa [p.start] at h
      by_cases hdone : (s.handled ++ s.bufferedReceiveMessages).length ≤ (p.state j).handled.length
      · exact ⟨j, .inr (prefix_of_prefix_length_le htarget (prefix_append _ _) hdone)⟩
      · have hne : (p.state j).bufferedReceiveMessages ≠ [] := by
          intro hempty
          rw [hempty, append_nil] at htarget
          exact hdone htarget.length_le
        cases hphase : (p.state j).phase with
        | config => exact absurd ((buffered_path hs p j).config hphase) hne
        | loop =>
          obtain ⟨k, hjk, hend | hmore⟩ := eventually_handles hfair hphase hne
          · exact ⟨k, .inl hend⟩
          · exact ih _ (by omega) k rfl
        | generating generation => exact absurd hphase (hidle generation)
        | ended reason => exact ⟨j, .inl ⟨reason, hphase⟩⟩
  exact hfrom 0

/-- In every run the messages that have arrived are, in this order, handled, waiting, dropped or in
the socket; one is dropped only when the session is over; the counter is the size of what waits.
While the session goes on, what waits is handled, unless the session ends before. -/
theorem waiting_of_run {as : List SpeechAction}
    (hrun : Run (SpeechSession.step parser) anyAction init as s) :
    s.arrived = s.handled ++ s.bufferedReceiveMessages ++ s.dropped ++ s.socket ∧
    s.bufferedReceiveMessageBytes = (s.bufferedReceiveMessages.map SocketMessage.size).sum ∧
    (s.dropped ≠ [] → s.Over) ∧
    ∀ p : Path (SpeechSession.step parser) s, Goes p →
      ∃ j, (p.state j).Ended ∨ s.handled ++ s.bufferedReceiveMessages <+: (p.state j).handled :=
  have hs := buffered_of_run hrun
  ⟨hs.order, hs.bytes, hs.dropped, fun _ hfair => eventually_handled hs hfair⟩

/-- A text frame. -/
def textFrame (raw : String) : SocketMessage := ⟨"websocket.receive", some raw, none⟩

/-- The texts of four messages of a client. -/
def configText : String := "\x7b\"type\": \"session.config\"\x7d"
def firstText : String := "\x7b\"type\": \"input.text\", \"text\": \"One.\"\x7d"
def secondText : String := "\x7b\"type\": \"input.text\", \"text\": \"Two.\"\x7d"
def doneText : String := "\x7b\"type\": \"input.done\"\x7d"

/-- What JSON makes of these messages. -/
def fourParser : SpeechParser where
  parseMessage raw :=
    if raw = configText then some ⟨some "session.config", none⟩
    else if raw = firstText then some ⟨some "input.text", some "One."⟩
    else if raw = secondText then some ⟨some "input.text", some "Two."⟩
    else if raw = doneText then some ⟨some "input.done", none⟩
    else none
  parseConfig _ := some .sentence

/-- While the first text is spoken two more messages arrive, and are taken from the socket. -/
def twoArrive (second third : String) : List SpeechAction :=
  [.arrive (textFrame configText), .receive, .arrive (textFrame firstText), .receive,
    .arrive (textFrame second), .arrive (textFrame third), .watch, .watch]

theorem waiting_of_run_two :
    ∃ s, Run (SpeechSession.step fourParser) anyAction init (twoArrive secondText doneText) s ∧
      s.bufferedReceiveMessages = [textFrame secondText, textFrame doneText] ∧
      s.arrived = s.handled ++ s.bufferedReceiveMessages ++ s.dropped ++ s.socket := by
  have hrun := run_of_isSome (SpeechSession.step fourParser) init (twoArrive secondText doneText)
    (by decide +kernel)
  exact ⟨_, hrun, by decide +kernel, (waiting_of_run hrun).1⟩

/-- A session that has ended takes and handles nothing any more. -/
theorem Ended.step (hs : s.Ended) (h : s.step parser a = some t) :
    t.Ended ∧ t.handled = s.handled := by
  obtain ⟨reason, hphase⟩ := hs
  cases a with
  | arrive message =>
    obtain rfl := some.inj h
    exact ⟨⟨reason, hphase⟩, rfl⟩
  | receive =>
    obtain ⟨message, u, -, hreceives, -⟩ := receive_cases h
    rw [hphase] at hreceives
    rcases hreceives with h | h <;> cases h
  | timeout => simp [step, hphase] at h
  | watch => simp [step, hphase] at h
  | generated outcome => simp [step, hphase] at h
  | wake => simp [step, hphase] at h
  | fail => simp [step, hphase] at h

/-- The message that ends the input arrives before another text, and this text is never handled. -/
theorem text_after_done_waits :
    ∃ s, Run (SpeechSession.step fourParser) anyAction init
        (twoArrive doneText secondText ++ [.generated .returned, .wake, .wake, .receive]) s ∧
      s.bufferedReceiveMessages = [textFrame secondText] ∧
      ∀ as t, Run (SpeechSession.step fourParser) anyAction s as t →
        ¬ s.handled ++ s.bufferedReceiveMessages <+: t.handled := by
  obtain ⟨last, hexec⟩ : ∃ last, exec (SpeechSession.step fourParser) init
      (twoArrive doneText secondText ++ [.generated .returned, .wake, .wake, .receive]) =
        some last := isSome_iff_exists.1 (by decide +kernel)
  have hend : (exec (SpeechSession.step fourParser) init (twoArrive doneText secondText ++
      [.generated .returned, .wake, .wake, .receive])).map (fun s =>
        (s.phase, s.bufferedReceiveMessages)) =
          some (.ended .done, [textFrame secondText]) := by decide +kernel
  rw [hexec] at hend
  obtain ⟨hphase, hwaiting⟩ := Prod.mk.inj (some.inj hend)
  refine ⟨last, run_of_exec hexec, hwaiting, fun as t hmore hprefix => ?_⟩
  have hkept := hmore.invariant (I := fun t => t.Ended ∧ t.handled = last.handled)
    (fun u a v hu _ h => ⟨(hu.1.step h).1, (hu.1.step h).2.trans hu.2⟩) ⟨⟨_, hphase⟩, rfl⟩
  have hlength := hprefix.length_le
  rw [hkept.2, hwaiting, length_append, length_singleton] at hlength
  omega

end SpeechSession

end Omni.Serve
