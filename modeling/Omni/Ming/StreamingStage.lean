import Omni.Library.Dict
import Omni.Library.Rendezvous

/-!
# The streaming stages of the Ming talker

What `MingStreamingSegmenterScheduler` and `MingStreamingTalkerScheduler` have in common. A state is
created by the payload or by the first chunk of a request. It is finalized, and removed, when the
payload and the end of the stream have come, or when a handler raises.
-/

namespace Omni.Ming

open Rendezvous

/-- `IncomingMessage`: its type with its data. -/
inductive IncomingMessage (P C : Type)
  | newRequest (payload : P)
  | streamChunk (item : C)
  | streamDone
  | other

/-- What the two `_RequestState` share, and the data of one of them. -/
structure RequestState (P X : Type) where
  payload : Option P := none
  payloadArrived : Bool := false
  streamDone : Bool := false
  finalized : Bool := false
  aborted : Bool := false
  data : X

/-- A scheduler. It no longer runs when an exception has left `start`. -/
structure Scheduler (ι P X M : Type) where
  states : Dict ι (RequestState P X)
  outbox : List M
  running : Bool

/-- The messages of a stage: those that finalize a request, one of which answers it, and errors. -/
structure StreamingStage (ι P X M ε : Type) [DecidableEq ι] where
  final : ι → RequestState P X → List M
  error : ι → ε → M
  answers : ι → M → Bool
  count_final : ∀ r r' state, (final r' state).countP (answers r) = if r' = r then 1 else 0
  answers_error : ∀ r r' exc, answers r (error r' exc) = decide (r' = r)

section Handlers

variable {ι P X M ε C : Type} [DecidableEq ι]

namespace Scheduler

/-- The scheduler at the start. -/
def init : Scheduler ι P X M := ⟨[], [], true⟩

variable (stage : StreamingStage ι P X M ε) (s : Scheduler ι P X M) (r : ι)

/-- The state of a request, or a new one. -/
def ensureState (fresh : X) : RequestState P X := (s.states.get r).getD { data := fresh }

/-- `self._states[request_id] = state`. -/
def setState (state : RequestState P X) : Scheduler ι P X M :=
  { s with states := s.states.set r state }

/-- `self.outbox.put` of messages. -/
def send (messages : List M) : Scheduler ι P X M := { s with outbox := s.outbox ++ messages }

/-- `_finalize`. -/
def finalize (state : RequestState P X) : Scheduler ι P X M :=
  if state.finalized then s
  else { s.send (stage.final r state) with states := s.states.pop r }

/-- `_on_new_request`. -/
def onNewRequest (fresh : X) (payload : P) : Scheduler ι P X M :=
  let state := { s.ensureState r fresh with payload := some payload, payloadArrived := true }
  if state.streamDone ∧ ¬state.finalized then (s.setState r state).finalize stage r state
  else s.setState r state

/-- `_on_stream_done`. -/
def onStreamDone : Scheduler ι P X M :=
  match s.states.get r with
  | none => s
  | some state =>
    let state := { state with streamDone := true }
    if state.payloadArrived ∧ ¬state.finalized then (s.setState r state).finalize stage r state
    else s.setState r state

/-- `_handle_message`, with the exception if one is raised. -/
def handleMessage (onStreamChunk : C → Scheduler ι P X M × Option ε) (fresh : X) :
    IncomingMessage P C → Scheduler ι P X M × Option ε
  | .newRequest payload => (s.onNewRequest stage r fresh payload, none)
  | .streamChunk item => onStreamChunk item
  | .streamDone => (s.onStreamDone stage r, none)
  | .other => (s, none)

/-- An error message, after which the state is removed. -/
def fail (exc : ε) : Scheduler ι P X M :=
  { s.send [stage.error r exc] with states := s.states.pop r }

/-- The loop of `start` for a message. -/
def receive (onStreamChunk : C → Scheduler ι P X M × Option ε) (fresh : X)
    (msg : IncomingMessage P C) : Scheduler ι P X M :=
  match s.handleMessage stage r onStreamChunk fresh msg with
  | (s, none) => s
  | (s, some exc) => s.fail stage r exc

end Scheduler

variable (stage : StreamingStage ι P X M ε)

/-- What has come of an open request. -/
def RequestState.progress (state : RequestState P X) : Progress :=
  ⟨state.payloadArrived, state.streamDone⟩

/-- The messages that end the request. -/
def answersTo (r : ι) (outbox : List M) : ℕ := outbox.countP (stage.answers r)

/-- A request in the scheduler: what has come of it, and the number of its answers. -/
def view (r : ι) (s : Scheduler ι P X M) : Option Progress × ℕ :=
  ((s.states.get r).map (·.progress), answersTo stage r s.outbox)

/-- The request has got exactly one result or error message, and has no state. -/
def Answered (r : ι) (s : Scheduler ι P X M) : Prop :=
  answersTo stage r s.outbox = 1 ∧ s.states.get r = none

/-- A state that is neither finalized nor aborted. -/
def RequestState.Active (state : RequestState P X) : Prop :=
  state.finalized = false ∧ state.aborted = false

/-- The state of a request, if it has one, is neither finalized nor aborted. -/
def Active (r : ι) (s : Scheduler ι P X M) : Prop := ∀ state ∈ s.states.get r, state.Active

/-- What a message does for its request. -/
def messageSignal (chunkSignal : C → Option Signal) : IncomingMessage P C → Option Signal
  | .newRequest _ => some .payload
  | .streamChunk item => chunkSignal item
  | .streamDone => some .done
  | .other => none

/-- Messages that answer nothing. -/
def Silent (messages : List M) : Prop := ∀ m ∈ messages, ∀ r, stage.answers r m = false

/-- A chunk has changed at most the data of its request. -/
def Opened (r : ι) (fresh : X) (s s' : Scheduler ι P X M) : Prop :=
  ∃ data messages, Silent stage messages ∧
    s' = (s.setState r { s.ensureState r fresh with data := data }).send messages

/-- What a chunk does, with its signal: it is ignored, or it opens the request and may raise. -/
inductive ChunkSpec (r : ι) (fresh : X) (s : Scheduler ι P X M) :
    Option Signal → Scheduler ι P X M × Option ε → Prop
  | ignored : ChunkSpec r fresh s none (s, none)
  | opened {s' : Scheduler ι P X M} :
      Opened stage r fresh s s' → ChunkSpec r fresh s (some .item) (s', none)
  | raised {s' : Scheduler ι P X M} (exc : ε) :
      Opened stage r fresh s s' → ChunkSpec r fresh s (some .fails) (s', some exc)

variable {stage}

theorem answered_iff_view {r : ι} {s : Scheduler ι P X M} :
    Answered stage r s ↔ view stage r s = (none, 1) := by
  rw [view, Prod.mk.injEq, Option.map_eq_none_iff, Answered, and_comm]

theorem silent_nil : Silent stage ([] : List M) := fun _ hm => absurd hm (by simp)

theorem Scheduler.setState_setState (s : Scheduler ι P X M) (r : ι)
    (state state' : RequestState P X) : (s.setState r state).setState r state' =
      s.setState r state' := by
  rw [setState, setState, Dict.set_set]
  rfl

/-- A chunk that only stores its data. -/
theorem opened_setState (r : ι) (fresh : X) (s : Scheduler ι P X M) (data : X) :
    Opened stage r fresh s (s.setState r { s.ensureState r fresh with data := data }) := by
  refine ⟨data, [], silent_nil, ?_⟩
  rw [Scheduler.send, List.append_nil]

theorem answersTo_append (r : ι) (out out' : List M) :
    answersTo stage r (out ++ out') = answersTo stage r out + answersTo stage r out' :=
  List.countP_append

variable {messages : List M}

theorem Silent.answersTo (h : Silent stage messages) (r : ι) :
    answersTo stage r messages = 0 :=
  List.countP_eq_zero.2 fun m hm => by simp [h m hm r]

/-! ### Other requests -/

variable (stage) in
/-- Nothing has changed for a request. -/
def SameFor (r : ι) (s s' : Scheduler ι P X M) : Prop :=
  s'.states.get r = s.states.get r ∧ answersTo stage r s'.outbox = answersTo stage r s.outbox

namespace SameFor

variable {r : ι} {s t u : Scheduler ι P X M}

theorem refl (r : ι) (s : Scheduler ι P X M) : SameFor stage r s s := ⟨rfl, rfl⟩

theorem trans (hst : SameFor stage r s t) (htu : SameFor stage r t u) : SameFor stage r s u :=
  ⟨htu.1.trans hst.1, htu.2.trans hst.2⟩

theorem active (hsame : SameFor stage r s t) (hactive : Active r s) : Active r t := by
  intro state hget
  rw [hsame.1] at hget
  exact hactive state hget

theorem view (hsame : SameFor stage r s t) : view stage r t = view stage r s := by
  rw [Ming.view, Ming.view, hsame.1, hsame.2]

end SameFor

variable {onStreamChunk : C → Scheduler ι P X M × Option ε}

section Others

variable {r r' : ι} (hne : r ≠ r') (s : Scheduler ι P X M)

theorem sameFor_send (hsilent : Silent stage messages) :
    SameFor stage r s (s.send messages) := by
  refine ⟨rfl, ?_⟩
  rw [Scheduler.send, answersTo_append, hsilent.answersTo, Nat.add_zero]

include hne

theorem sameFor_setState (state : RequestState P X) : SameFor stage r s (s.setState r' state) :=
  ⟨Dict.get_set_ne hne .., rfl⟩

theorem sameFor_finalize (state : RequestState P X) :
    SameFor stage r s (s.finalize stage r' state) := by
  unfold Scheduler.finalize
  split
  · exact .refl r s
  · refine ⟨Dict.get_pop_ne hne _, ?_⟩
    have hfinal := stage.count_final r r' state
    rw [if_neg hne.symm] at hfinal
    rw [Scheduler.send, answersTo_append, answersTo, answersTo, hfinal, Nat.add_zero]

theorem sameFor_fail (exc : ε) : SameFor stage r s (s.fail stage r' exc) := by
  refine ⟨Dict.get_pop_ne hne _, ?_⟩
  have herror := stage.answers_error r r' exc
  rw [Scheduler.fail, Scheduler.send, answersTo_append]
  simp [answersTo, herror, hne.symm]

theorem sameFor_onNewRequest (fresh : X) (payload : P) :
    SameFor stage r s (s.onNewRequest stage r' fresh payload) := by
  unfold Scheduler.onNewRequest
  dsimp only
  split
  · exact (sameFor_setState hne s _).trans (sameFor_finalize hne _ _)
  · exact sameFor_setState hne s _

theorem sameFor_onStreamDone : SameFor stage r s (s.onStreamDone stage r') := by
  unfold Scheduler.onStreamDone
  split
  · exact .refl r s
  · dsimp only
    split
    · exact (sameFor_setState hne s _).trans (sameFor_finalize hne _ _)
    · exact sameFor_setState hne s _

/-- A message of another request changes nothing for a request, if its chunks do not. -/
theorem sameFor_receive (hchunk : ∀ item, SameFor stage r s (onStreamChunk item).1) (fresh : X)
    (msg : IncomingMessage P C) :
    SameFor stage r s (s.receive stage r' onStreamChunk fresh msg) := by
  have hsame : SameFor stage r s (s.handleMessage stage r' onStreamChunk fresh msg).1 := by
    cases msg with
    | newRequest payload => exact sameFor_onNewRequest hne s fresh payload
    | streamChunk item => exact hchunk item
    | streamDone => exact sameFor_onStreamDone hne s
    | other => exact .refl r s
  rw [Scheduler.receive]
  rcases hmsg : s.handleMessage stage r' onStreamChunk fresh msg with ⟨s', - | exc⟩
  · rw [hmsg] at hsame
    exact hsame
  · rw [hmsg] at hsame
    exact hsame.trans (sameFor_fail hne s' exc)

end Others

/-! ### The request itself -/

section Own

variable (r : ι) (fresh : X) (s : Scheduler ι P X M)

theorem view_setState (state : RequestState P X) :
    view stage r (s.setState r state) = (some state.progress, answersTo stage r s.outbox) := by
  rw [view, Scheduler.setState, Dict.get_set_self]
  rfl

variable (stage) in
theorem view_finalize (state : RequestState P X) (hfinalized : state.finalized = false) :
    view stage r (s.finalize stage r state) = (none, answersTo stage r s.outbox + 1) := by
  have hfinal := stage.count_final r r state
  rw [if_pos rfl] at hfinal
  rw [Scheduler.finalize, if_neg (by simp [hfinalized]), view, Dict.get_pop_self, Scheduler.send,
    answersTo_append, answersTo, answersTo, hfinal]
  rfl

variable (stage) in
theorem view_fail (exc : ε) :
    view stage r (s.fail stage r exc) = (none, answersTo stage r s.outbox + 1) := by
  have herror := stage.answers_error r r exc
  rw [view, Scheduler.fail, Dict.get_pop_self, Scheduler.send, answersTo_append]
  simp [answersTo, herror]

theorem view_of_get {o : Option (RequestState P X)} (hget : s.states.get r = o) :
    view stage r s = (o.map (·.progress), answersTo stage r s.outbox) := by
  rw [view, hget]

theorem active_setState {state : RequestState P X} (hstate : state.Active) :
    Active r (s.setState r state) := by
  intro other hget
  rw [Scheduler.setState, Dict.get_set_self] at hget
  cases hget
  exact hstate

/-- A request that is closed has no state to be finalized or aborted. -/
theorem active_of_closed {s : Scheduler ι P X M} (h : (view stage r s).1 = none) :
    Active r s := by
  intro state hget
  rw [view, hget] at h
  cases h

/-- A chunk that does not raise leaves an open request. -/
theorem advance_item (o : Option (RequestState P X)) (hget : s.states.get r = o) :
    advance (view stage r s) .item =
      (some (s.ensureState r fresh).progress, answersTo stage r s.outbox) := by
  rw [view_of_get r s hget, Scheduler.ensureState, hget]
  cases o <;> rfl

variable {s} (hactive : Active r s)

include hactive

/-- A new state is neither finalized nor aborted. -/
theorem active_ensureState : (s.ensureState r fresh).Active := by
  unfold Scheduler.ensureState
  cases hget : s.states.get r with
  | none => exact ⟨rfl, rfl⟩
  | some state => exact hactive state hget

theorem onNewRequest_spec (payload : P) :
    view stage r (s.onNewRequest stage r fresh payload) = advance (view stage r s) .payload ∧
      Active r (s.onNewRequest stage r fresh payload) := by
  have hensure := active_ensureState r fresh hactive
  unfold Scheduler.onNewRequest
  dsimp only
  cases hget : s.states.get r with
  | none =>
    have hstate : s.ensureState r fresh = { data := fresh } := by
      rw [Scheduler.ensureState, hget]
      rfl
    rw [hstate, if_neg (by simp), view_setState, view_of_get r s hget]
    exact ⟨rfl, active_setState r s ⟨rfl, rfl⟩⟩
  | some state =>
    have hstate : s.ensureState r fresh = state := by
      rw [Scheduler.ensureState, hget]
      rfl
    rw [hstate] at hensure ⊢
    rw [view_of_get r s hget]
    cases hdone : state.streamDone with
    | true =>
      let arrived : RequestState P X :=
        { state with payload := some payload, payloadArrived := true, streamDone := true }
      have hview := view_finalize stage r (s.setState r arrived) arrived hensure.1
      rw [if_pos (by simp [hensure.1]), hview]
      refine ⟨?_, active_of_closed r (by rw [hview])⟩
      simp [advance, step, RequestState.progress, hdone, Scheduler.setState]
    | false =>
      rw [if_neg (by simp), view_setState]
      refine ⟨?_, active_setState r s hensure⟩
      simp [advance, step, RequestState.progress, hdone]

theorem onStreamDone_spec :
    view stage r (s.onStreamDone stage r) = advance (view stage r s) .done ∧
      Active r (s.onStreamDone stage r) := by
  unfold Scheduler.onStreamDone
  cases hget : s.states.get r with
  | none =>
    rw [view_of_get r s hget]
    exact ⟨rfl, hactive⟩
  | some state =>
    have hstate := hactive state hget
    dsimp only
    rw [view_of_get r s hget]
    cases hpayload : state.payloadArrived with
    | true =>
      let ended := { state with payloadArrived := true, streamDone := true }
      have hview := view_finalize stage r (s.setState r ended) ended hstate.1
      rw [if_pos (by simp [hstate.1]), hview]
      refine ⟨?_, active_of_closed r (by rw [hview])⟩
      simp [advance, step, RequestState.progress, hpayload, Scheduler.setState]
    | false =>
      rw [if_neg (by simp), view_setState]
      refine ⟨?_, active_setState r s hstate⟩
      simp [advance, step, RequestState.progress, hpayload]

/-- A chunk that changes at most the data of its request leaves it open. -/
theorem Opened.spec {s' : Scheduler ι P X M} (hopened : Opened stage r fresh s s') :
    view stage r s' = (some (s.ensureState r fresh).progress, answersTo stage r s.outbox) ∧
      Active r s' := by
  obtain ⟨data, messages, hsilent, rfl⟩ := hopened
  have hsame := sameFor_send (r := r) (s.setState r { s.ensureState r fresh with data := data })
    hsilent
  rw [hsame.view, view_setState]
  have hactive := active_ensureState r fresh hactive
  exact ⟨rfl, hsame.active (active_setState r s hactive)⟩

/-- A message does to its request what its signal says, if its chunks do. -/
theorem receive_spec {chunkSignal : C → Option Signal}
    (hchunk : ∀ item, ChunkSpec stage r fresh s (chunkSignal item) (onStreamChunk item))
    (msg : IncomingMessage P C) :
    view stage r (s.receive stage r onStreamChunk fresh msg) =
        (messageSignal chunkSignal msg).toList.foldl advance (view stage r s) ∧
      Active r (s.receive stage r onStreamChunk fresh msg) := by
  cases msg with
  | newRequest payload => exact onNewRequest_spec r fresh hactive payload
  | streamDone => exact onStreamDone_spec r hactive
  | other => exact ⟨rfl, hactive⟩
  | streamChunk item =>
    have hspec := hchunk item
    rw [Scheduler.receive, Scheduler.handleMessage, messageSignal]
    generalize chunkSignal item = signal at hspec
    generalize onStreamChunk item = result at hspec
    cases hspec with
    | ignored => exact ⟨rfl, hactive⟩
    | opened hopened =>
      obtain ⟨hview, hafter⟩ := hopened.spec r fresh hactive
      exact ⟨hview.trans (advance_item r fresh s _ rfl).symm, hafter⟩
    | @raised s' exc hopened =>
      have hview := (hopened.spec r fresh hactive).1
      have hcount : answersTo stage r s'.outbox = answersTo stage r s.outbox :=
        (Prod.mk.inj hview).2
      have hfail := view_fail stage r s' exc
      refine ⟨?_, active_of_closed r (by rw [hfail])⟩
      rw [hfail, hcount]
      exact (advance_fails (view stage r s)).symm

end Own

end Handlers

end Omni.Ming
