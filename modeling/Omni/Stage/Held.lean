import Omni.Stage.Log

/-!
# What a stage holds of a request

Seven maps hold something of a request. The pieces of the stage change what they hold of the
request they work on, and of no other one.
-/

namespace Omni.Stage

open State

variable {V : Type} {cfg : Config V} {s s' s'' : State V} {x r f target error : String}
  {m : Option ℕ} {payload result data : V} {merge : Merge V} {i k : ℕ} {task : ReceiveTask V}
  {exc : Option String} {all rest targets : List String} {pc : ReceivePc} {a : Action V}
  {single : Bool}

/-- What the maps hold of a request. -/
structure Held where
  active : Prop
  streamQueue : Prop
  inputHandler : Prop
  firstChunkSeen : Prop
  counters : String → Option ℕ
  localTargets : List String
  nonlocalTargets : List String

/-- Nothing is held. -/
def Held.nothing : Held := ⟨False, False, False, False, fun _ => none, [], []⟩

/-- What is held, but for the targets of stream items. -/
def Held.untargeted (h : Held) : Held := { h with localTargets := [], nonlocalTargets := [] }

/-- What a stage holds of a request. -/
def State.held (s : State V) (r : String) : Held where
  active := r ∈ s.activeRequests
  streamQueue := r ∈ s.streamQueue
  inputHandler := r ∈ s.inputHandler
  firstChunkSeen := r ∈ s.firstStreamChunkSeen
  counters := s.streamChunkCounters r
  localTargets := s.localStreamTargets r
  nonlocalTargets := s.nonlocalStreamTargets r

/-- Only what is held of request `x` may change. -/
def Apart (x : String) (s s' : State V) : Prop := ∀ r, r ≠ x → s'.held r = s.held r

/-- Nothing changes. -/
theorem Apart.refl : Apart x s s := fun _ _ => rfl

/-- Two steps in a row. -/
theorem Apart.trans (hfirst : Apart x s s') (hsecond : Apart x s' s'') : Apart x s s'' :=
  fun r hr => (hsecond r hr).trans (hfirst r hr)

/-- Changes to other fields may be left out. -/
theorem Apart.of_held (h : s'.held = s.held) : Apart x s s' := fun r _ => by rw [h]

/-- A request becomes active. -/
theorem apart_activate : Apart x s (s.activate x) := by
  intro r hr
  simp [held, activate, hr]

theorem apart_openStreamQueue : Apart x s (s.openStreamQueue cfg x) := by
  intro r hr
  unfold openStreamQueue
  cases cfg.hasStreamQueue <;> simp [held, hr]

theorem apart_clearRequestState : Apart x s (s.clearRequestState x) := by
  intro r hr
  simp [held, clearRequestState, hr]

theorem held_clearRequestState : (s.clearRequestState r).held r = .nothing := by
  simp [held, clearRequestState, Held.nothing]

theorem apart_inputReceive :
    Apart x s (s.inputReceive m x f payload merge) := by
  intro r hr
  unfold inputReceive
  cases merge.holds <;> simp [held, record, hr]

theorem apart_countChunk : Apart x s (s.countChunk x target) := by
  intro r hr
  simp [held, countChunk, hr]

theorem apart_recordLocalStreamTarget :
    Apart x s (s.recordLocalStreamTarget x target) := by
  intro r hr
  simp [held, recordLocalStreamTarget, hr]

theorem apart_recordNonlocalStreamTarget :
    Apart x s (s.recordNonlocalStreamTarget x target) := by
  intro r hr
  simp [held, recordNonlocalStreamTarget, hr]

/-- What the drain and the communication engine work on. -/
structure Sending (V : Type) where
  outbox : List (String × Outgoing V)
  drain : DrainPc V
  jobs : List (Job V)
  pending : List Transfer
  counters : String → String → Option ℕ
  firstChunkSeen : List String
  localTargets : String → List String
  nonlocalTargets : String → List String

/-- What the drain and the communication engine of a stage work on. -/
def State.sending (s : State V) : Sending V where
  outbox := s.outbox
  drain := s.drain
  jobs := s.jobs
  pending := s.pending
  counters := s.streamChunkCounters
  firstChunkSeen := s.firstStreamChunkSeen
  localTargets := s.localStreamTargets
  nonlocalTargets := s.nonlocalStreamTargets

/-- Something is received for request `x`: only what is held of it may change, and nothing that is
being sent. -/
structure Receives (x : String) (s s' : State V) : Prop where
  apart : Apart x s s'
  sending : s'.sending = s.sending

/-- Two steps in a row. -/
theorem Receives.trans (hfirst : Receives x s s') (hsecond : Receives x s' s'') :
    Receives x s s'' :=
  ⟨hfirst.apart.trans hsecond.apart, hsecond.sending.trans hfirst.sending⟩

/-- Changes to other fields may be left out. -/
theorem Receives.of_held (hheld : s'.held = s.held) (hsending : s'.sending = s.sending) :
    Receives x s s' :=
  ⟨.of_held hheld, hsending⟩

/-- What `_on_background_task_done` works on, the drain, and the transfers that are watched. -/
structure Vital (V : Type) where
  running : Bool
  controlPlaneOpen : Bool
  backgroundTaskError : Option String
  drain : DrainPc V
  pending : List Transfer

/-- What closing a stage depends on. -/
def State.vital (s : State V) : Vital V where
  running := s.running
  controlPlaneOpen := s.controlPlaneOpen
  backgroundTaskError := s.backgroundTaskError
  drain := s.drain
  pending := s.pending

/-- A piece that receives something for request `x`, in task `m` or in a local call. -/
structure Piece (m : Option ℕ) (x : String) (s s' : State V) : Prop
    extends Grows m s s', Receives x s s' where
  vital : s'.vital = s.vital

/-- Two pieces in a row. -/
theorem Piece.trans (hfirst : Piece m x s s') (hsecond : Piece m x s' s'') : Piece m x s s'' :=
  ⟨hfirst.toGrows.trans hsecond.toGrows, hfirst.toReceives.trans hsecond.toReceives,
    hsecond.vital.trans hfirst.vital⟩

/-- A piece that changes no more than the log and its task. -/
theorem Piece.of_grows (h : Grows m s s') (hheld : s'.held = s.held)
    (hsending : s'.sending = s.sending) (hvital : s'.vital = s.vital) : Piece m x s s' :=
  ⟨h, .of_held hheld hsending, hvital⟩

/-- An entry that does not change `_aborted` is made. -/
theorem Piece.record {entry : Entry V} (hfits : LogOk s → entry.Fits s.log)
    (hmaker : entry.maker = none ∨ entry.maker = m) (hnote : entry.IsNote) :
    Piece m x s (s.record entry) :=
  .of_grows (.record hnote hfits hmaker) rfl rfl rfl

/-- A request becomes active. -/
theorem piece_activate : Piece m x s (s.activate x) := ⟨.same rfl rfl, ⟨apart_activate, rfl⟩, rfl⟩

theorem piece_opened : Piece m x s ((s.activate x).openStreamQueue cfg x) :=
  ⟨.same rfl rfl, ⟨apart_activate.trans apart_openStreamQueue, rfl⟩, rfl⟩

theorem piece_execute : Piece m x s (s.execute x payload) :=
  .record (fun _ => trivial) (.inl rfl) fun _ _ => rfl

theorem piece_schedulerAborted : Piece m x s (s.record (.schedulerAborted x)) :=
  .record (fun _ => trivial) (.inl rfl) fun _ _ => rfl

theorem piece_delivered {item : Item V} (hx : x ∉ s.abortedIds) :
    Piece m x s (s.record (.delivered m x f item)) :=
  .record (fun h => by simpa [Entry.Fits, h.ids] using hx) (.inr rfl) fun _ _ => rfl

theorem piece_inputReceive (hx : x ∉ s.abortedIds) :
    Piece m x s (s.inputReceive m x f payload merge) :=
  let held := if merge.holds then s.inputHandler.insert x else s.inputHandler.filter (· ≠ x)
  have hhandler : Grows m s { s with inputHandler := held } := .same rfl rfl
  ⟨hhandler.trans (piece_delivered (x := x) (by exact hx)).toGrows, ⟨apart_inputReceive, rfl⟩, rfl⟩

theorem piece_dropped (hx : x ∈ s.abortedIds) : Piece m x s (s.record (.dropped m x error)) :=
  .record (fun h => by simpa [Entry.Fits, h.ids] using hx) (.inr rfl) fun _ _ => rfl

/-- A handler returns. -/
theorem piece_leave : Piece m x s (s.leave m) := by
  cases m with
  | none => exact .of_grows (.same rfl rfl) rfl rfl rfl
  | some i => exact .of_grows (.modify rfl rfl) rfl rfl rfl

/-- A handler raises. -/
theorem piece_throw : Piece m x s (s.throw m error) := by
  cases m with
  | none => exact .of_grows (.same rfl rfl) rfl rfl rfl
  | some i => exact .of_grows (.modify rfl rfl) rfl rfl rfl

/-- A failure starts to be sent. -/
theorem piece_sendFailure {y : String} : Piece m x s (s.sendFailure cfg m y error) := by
  have hbegun : Piece m x s (s.beginFailure cfg m y error) :=
    .of_grows grows_beginFailure rfl rfl rfl
  cases m with
  | none => exact hbegun.trans (.of_grows (.same rfl rfl) rfl rfl rfl)
  | some i => exact hbegun.trans (.of_grows (.modify rfl rfl) rfl rfl rfl)

theorem piece_queueStreamError : Piece m x s (s.queueStreamError cfg m x error) := by
  unfold queueStreamError
  split
  case isTrue hx => exact (piece_dropped hx).trans piece_leave
  case isFalse => exact piece_schedulerAborted.trans piece_sendFailure

theorem piece_openPrePayloadStream : Piece m x s (s.openPrePayloadStreamIfAllowed cfg x).1 ∧
    (s.openPrePayloadStreamIfAllowed cfg x).1.abortedIds = s.abortedIds := by
  unfold openPrePayloadStreamIfAllowed
  repeat' split
  case isFalse.isFalse.isFalse => exact ⟨piece_opened, rfl⟩
  all_goals exact ⟨.of_grows (.same rfl rfl) rfl rfl rfl, rfl⟩

theorem piece_routeStreamItemOrFail {item : Item V} (hx : x ∉ s.abortedIds) :
    Piece m x s (s.routeStreamItemOrFail cfg m x f item error) := by
  obtain ⟨hopen, hids⟩ := @piece_openPrePayloadStream V cfg s x m
  unfold routeStreamItemOrFail
  dsimp only
  split
  · exact (hopen.trans (piece_delivered (hids ▸ hx))).trans piece_leave
  · exact (hopen.trans piece_schedulerAborted).trans piece_sendFailure

/-- The end of the handlers of a chunk. -/
theorem piece_receiveStreamChunk {chunkId : ℕ} :
    Piece m x s (s.receiveStreamChunk cfg m x f chunkId data) := by
  unfold receiveStreamChunk
  split
  case isTrue => exact piece_leave
  case isFalse hx => exact piece_routeStreamItemOrFail hx

theorem piece_receiveStreamSignal {isDone : Bool} {error : Option String} :
    Piece m x s (s.receiveStreamSignal cfg m x f isDone error) := by
  unfold receiveStreamSignal
  split
  case isTrue hx =>
    split
    · exact (piece_dropped hx).trans piece_leave
    · exact piece_leave
  case isFalse hx =>
    split
    · exact piece_activate.trans piece_queueStreamError
    · split
      · exact piece_activate.trans (piece_routeStreamItemOrFail (by exact hx))
      · exact piece_activate.trans piece_leave

theorem piece_receivePayloadFromStage :
    Piece m x s (s.receivePayloadFromStage cfg m x f payload merge) := by
  unfold receivePayloadFromStage
  split
  case isTrue => exact piece_leave
  case isFalse hx =>
    have hreceived := (@piece_opened V cfg s x m).trans (@piece_inputReceive V _ x f m payload merge
      hx)
    split
    · exact hreceived.trans piece_throw
    · exact hreceived.trans piece_leave
    · exact (hreceived.trans piece_execute).trans piece_leave

theorem piece_takeTurn :
    Piece (some i) task.msg.requestId s (s.takeTurn cfg i task merge) := by
  unfold takeTurn
  split
  · exact piece_receiveStreamSignal
  · exact piece_queueStreamError
  · exact piece_receiveStreamChunk
  · exact piece_sendFailure
  · exact piece_receivePayloadFromStage
  · exact piece_leave (m := some i)

theorem piece_startRead : Piece (some i) x s (s.startRead i task exc) := by
  unfold startRead
  repeat' split
  all_goals exact .of_grows (.modify rfl rfl) rfl rfl rfl

theorem piece_startDiscard : Piece (some i) x s (s.startDiscard i task exc) := by
  unfold startDiscard
  repeat' split
  all_goals exact .of_grows (.modify rfl rfl) rfl rfl rfl

theorem piece_sendDataAck : Piece (some i) x s (s.sendDataAck cfg i task exc pc) := by
  unfold sendDataAck
  split <;> exact .of_grows (.modify rfl rfl) rfl rfl rfl

theorem held_startDiscard :
    (s.startDiscard i task exc).held = s.held := by
  unfold startDiscard
  repeat' split
  all_goals rfl

theorem held_sendDataAck :
    (s.sendDataAck cfg i task exc pc).held = s.held := by
  unfold sendDataAck
  split <;> rfl

theorem held_finishTask : (s.finishTask i task).held = s.held := by
  unfold finishTask
  dsimp only
  repeat' split
  all_goals rfl

/-- The request that a receiving step works on. -/
def Action.receivesFor (s : State V) : Action V → Option String
  | .submit requestId _ | .receiveLocalPayload requestId .. | .receiveLocalStreamChunk requestId ..
  | .receiveLocalStreamSignal requestId .. => some requestId
  | .startReceive i _ | .readDone i _ | .discardRead i | .ackSent i _ | .discardAckSent i _
  | .turn i _ | .finish i => (s.receiveTasks[i]?).map fun task => task.msg.requestId
  | .dataReady msg => some msg.requestId
  | _ => none

/-- Steps that receive something for a request, and neither schedule a task nor end one. -/
theorem step_piece (h : step cfg s a = some s') (hx : a.receivesFor s = some x)
    (hmsg : ∀ msg, a ≠ .dataReady msg) (hfinish : ∀ i, a ≠ .finish i) : Piece a.task x s s' := by
  cases a with
  | submit requestId payload =>
    cases hx
    simp only [step, receive_eq_some, Option.some.injEq] at h
    obtain ⟨-, rfl⟩ := h
    unfold onSubmit
    split
    · exact .of_grows (.same rfl rfl) rfl rfl rfl
    · exact piece_opened.trans piece_execute
  | dataReady msg => exact absurd rfl (hmsg msg)
  | receiveLocalPayload requestId f payload merge =>
    cases hx
    exact Option.some.inj h ▸ piece_receivePayloadFromStage
  | receiveLocalStreamChunk requestId f chunkId data =>
    cases hx
    obtain rfl := Option.some.inj h
    unfold receiveLocalStreamChunk
    split
    · exact .of_grows (.same rfl rfl) rfl rfl rfl
    · exact piece_activate.trans piece_receiveStreamChunk
  | receiveLocalStreamSignal requestId f isDone error =>
    cases hx
    exact Option.some.inj h ▸ piece_receiveStreamSignal
  | startReceive i exc =>
    obtain ⟨task, htask, -, rfl⟩ := resume_eq_some.mp h
    obtain rfl : task.msg.requestId = x := by simpa [Action.receivesFor, htask] using hx
    split
    · exact .of_grows (.modify rfl rfl) rfl rfl rfl
    · split
      · exact piece_startDiscard
      · exact piece_activate.trans piece_startRead
    · split
      · exact piece_startDiscard
      · exact piece_opened.trans piece_startRead
  | readDone i exc =>
    obtain ⟨task, -, -, rfl⟩ := resume_eq_some.mp h
    exact piece_sendDataAck
  | discardRead i =>
    obtain ⟨task, -, -, rfl⟩ := resume_eq_some.mp h
    exact piece_sendDataAck
  | ackSent i raised | discardAckSent i raised =>
    obtain ⟨task, -, -, rfl⟩ := resume_eq_some.mp h
    cases raised <;> exact .of_grows (.modify rfl rfl) rfl rfl rfl
  | turn i merge =>
    obtain ⟨task, htask, -, -, rfl⟩ := resumeInTurn_eq_some.mp h
    obtain rfl : task.msg.requestId = x := by simpa [Action.receivesFor, htask] using hx
    exact piece_takeTurn
  | finish i => exact absurd rfl (hfinish i)
  | _ => simp [Action.receivesFor] at hx

theorem step_receives (h : step cfg s a = some s') (hx : a.receivesFor s = some x) :
    Receives x s s' := by
  cases a with
  | dataReady msg =>
    simp only [step, receive_eq_some, Option.some.injEq] at h
    obtain ⟨-, rfl⟩ := h
    exact .of_held rfl rfl
  | finish i =>
    obtain ⟨task, -, -, -, rfl⟩ := resumeInTurn_eq_some.mp h
    unfold finishTask
    dsimp only
    repeat' split
    all_goals exact .of_held rfl rfl
  | _ => exact (step_piece h hx nofun nofun).toReceives

/-- Whether an action receives something for a request. -/
def Action.Receives : Action V → Prop
  | .submit .. | .dataReady _ | .receiveLocalPayload .. | .receiveLocalStreamChunk ..
  | .receiveLocalStreamSignal .. | .startReceive .. | .readDone .. | .discardRead _ | .ackSent ..
  | .discardAckSent .. | .turn .. | .finish _ => True
  | _ => False

theorem not_receives_of_step (hstep : step cfg s a = some s') (hx : a.receivesFor s = none) :
    ¬a.Receives := by
  intro hreceives
  cases a with
  | startReceive i exc | readDone i exc | ackSent i exc | discardAckSent i exc =>
    obtain ⟨task, htask, -⟩ := resume_eq_some.mp hstep
    simp [Action.receivesFor, htask] at hx
  | discardRead i =>
    obtain ⟨task, htask, -⟩ := resume_eq_some.mp hstep
    simp [Action.receivesFor, htask] at hx
  | turn i merge =>
    obtain ⟨task, htask, -⟩ := resumeInTurn_eq_some.mp hstep
    simp [Action.receivesFor, htask] at hx
  | finish i =>
    obtain ⟨task, htask, -⟩ := resumeInTurn_eq_some.mp hstep
    simp [Action.receivesFor, htask] at hx
  | submit | dataReady | receiveLocalPayload | receiveLocalStreamChunk
  | receiveLocalStreamSignal => simp [Action.receivesFor] at hx
  | _ => exact hreceives

end Omni.Stage
