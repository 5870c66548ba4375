import Mathlib.Algebra.GroupWithZero.Nat
import Omni.Library.Transition
import Mathlib.Data.List.Basic

/-!
# Turns of a realtime session

A session takes one event at a time from its websocket. Committed utterances go into a queue, a
drainer task runs one turn task after the other, and a `response.cancel` event aborts the request
of the active turn and cancels its task. The tasks interleave at their awaits. The handler of
`response.cancel` awaits the abort between two reads of the active task.
-/

namespace Omni.Realtime

open Transition Option

/-- The passes of a turn. -/
inductive Pass
  | response
  | transcription
  deriving DecidableEq

/-- How the task of a turn has ended. -/
inductive Ending
  | returned
  | raised
  | cancelled
  deriving DecidableEq

/-- Where the task of a turn stands. -/
inductive TurnPoint
  | created
  | running (pass : Pass)
  | ended (how : Ending)
  deriving DecidableEq

/-- The task of `run_turn` for an utterance. `cancelling` is set by `cancel()`. -/
structure Turn (U : Type) where
  utterance : U
  point : TurnPoint
  cancelling : Bool
  deriving DecidableEq

/-- Where `drain_queue` stands: not created or not begun, at `response_queue.get()`, or waiting
for the task of a turn. -/
inductive DrainPoint
  | absent
  | created
  | getting
  | awaiting (turn : ℕ)
  | done
  deriving DecidableEq

/-- Where the websocket loop stands. `aborting` is `handle_response_cancel` at its await, with
the turn that was active when the event was received. `closing`, `waiting` and `closed` belong to
`teardown`. -/
inductive HandlerPoint
  | idle
  | aborting (target : ℕ)
  | raised
  | closing (turn : ℕ)
  | waiting (turn : ℕ)
  | closed
  deriving DecidableEq

/-- A session. Tasks of turns are numbered in the order in which they are created. `committed`
keeps the utterances put into the queue, `cancels` and `aborts` what the handler of
`response.cancel` has cancelled and aborted, after the turn that the event was received for. -/
structure Session (U : Type) where
  committed : List U
  responseQueue : List U
  turns : List (Turn U)
  activeTask : Option ℕ
  activeRequestId : Option (ℕ × Pass)
  queueDrainer : DrainPoint
  drainerCancelling : Bool
  handler : HandlerPoint
  closed : Bool
  cancels : List (ℕ × ℕ)
  aborts : List (ℕ × ℕ)
  deriving DecidableEq

/-- A session that has just been opened. -/
def Session.init (U : Type) : Session U where
  committed := []
  responseQueue := []
  turns := []
  activeTask := none
  activeRequestId := none
  queueDrainer := .absent
  drainerCancelling := false
  handler := .idle
  closed := false
  cancels := []
  aborts := []

variable {U : Type}

/-- The task is done. -/
def Turn.done (turn : Turn U) : Bool :=
  match turn.point with
  | .ended _ => true
  | _ => false

namespace Session

/-- `task.done()` of a turn. -/
def done (s : Session U) (turn : ℕ) : Bool := s.turns[turn]?.all Turn.done

/-- `task.cancel()` of a turn: a task that is done is left alone. -/
def cancelTask (s : Session U) (turn : ℕ) : Session U :=
  { s with turns := s.turns.modify turn fun task =>
      if task.done then task else { task with cancelling := true } }

/-- The task of a turn goes to another point. -/
def setPoint (s : Session U) (turn : ℕ) (point : TurnPoint) : Session U :=
  { s with turns := s.turns.modify turn fun task => { task with point := point } }

/-- The end of `auto_commit_utterance`: the utterance is put into the queue, and a drainer is
created when there is none at work. -/
def autoCommitUtterance (s : Session U) (utterance : U) : Session U :=
  { s with
    committed := s.committed ++ [utterance]
    responseQueue := s.responseQueue ++ [utterance]
    queueDrainer :=
      match s.queueDrainer with
      | .absent | .done => .created
      | point => point }

/-- `self.active_task.cancel()`, in the handling of an event received for `target`. -/
def cancelActive (s : Session U) (target : ℕ) : Session U :=
  match s.activeTask with
  | none => { s with handler := .raised }
  | some hit =>
    if s.done hit then { s with handler := .idle }
    else { s.cancelTask hit with cancels := s.cancels ++ [(target, hit)], handler := .idle }

/-- `handle_response_cancel` up to its await, or to its end. -/
def handleResponseCancel (s : Session U) : Session U :=
  match s.activeTask with
  | none => s
  | some target =>
    if s.done target then s
    else
      match s.activeRequestId with
      | none => s.cancelActive target
      | some request =>
        { s with handler := .aborting target, aborts := s.aborts ++ [(target, request.1)] }

/-- An utterance is taken out of the queue, and the task of its turn is created. -/
def createTurn (s : Session U) (utterance : U) (rest : List U) : Session U :=
  { s with
    responseQueue := rest
    turns := s.turns ++ [⟨utterance, .created, false⟩]
    activeTask := some s.turns.length
    queueDrainer := .awaiting s.turns.length }

/-- `drain_queue` from the head of its loop. -/
def drainLoop (s : Session U) : Session U :=
  if s.closed then { s with queueDrainer := .done }
  else
    match s.responseQueue with
    | [] => { s with queueDrainer := .getting }
    | utterance :: rest => s.createTurn utterance rest

/-- A step of `drain_queue`. -/
def drainQueue (s : Session U) : Option (Session U) :=
  match s.queueDrainer with
  | .absent | .done => none
  | .created => some (if s.drainerCancelling then { s with queueDrainer := .done } else s.drainLoop)
  | .getting =>
    if s.drainerCancelling then some { s with queueDrainer := .done }
    else
      match s.responseQueue with
      | [] => none
      | utterance :: rest => some (s.createTurn utterance rest)
  | .awaiting turn =>
    if s.done turn then
      some (if s.drainerCancelling then { s with queueDrainer := .done }
        else { s with activeTask := none }.drainLoop)
    else none

/-- A step of `run_turn`: it begins, or leaves a pass, normally or by a raise. A task on which
`cancel()` has been called gets the `CancelledError` instead. The `finally` of a pass clears the
request id, and the next pass sets it without an await in between. -/
def runTurn (s : Session U) (turn : ℕ) (raises : Bool) : Option (Session U) :=
  s.turns[turn]?.bind fun task =>
    match task.point with
    | .ended _ => none
    | .created =>
      some (if task.cancelling then s.setPoint turn (.ended .cancelled)
        else { s.setPoint turn (.running .response) with
          activeRequestId := some (turn, .response) })
    | .running pass =>
      some (if task.cancelling then
          { s.setPoint turn (.ended .cancelled) with activeRequestId := none }
        else if raises then { s.setPoint turn (.ended .raised) with activeRequestId := none }
        else
          match pass with
          | .response =>
            { s.setPoint turn (.running .transcription) with
              activeRequestId := some (turn, .transcription) }
          | .transcription =>
            { s.setPoint turn (.ended .returned) with activeRequestId := none })

/-- `_cancel_and_abort(self.queue_drainer, None)` up to its await. The cancellation of a drainer
that waits for a turn cancels the task of this turn. -/
def cancelDrainer (s : Session U) : Session U :=
  match s.queueDrainer with
  | .absent | .done => { s with handler := .closed }
  | .awaiting turn => { s.cancelTask turn with drainerCancelling := true, handler := .closed }
  | _ => { s with drainerCancelling := true, handler := .closed }

/-- `teardown` up to its first await. -/
def teardown (s : Session U) : Session U :=
  let s := { s with closed := true }
  match s.activeTask with
  | none => s.cancelDrainer
  | some turn =>
    if s.done turn then s.cancelDrainer
    else
      match s.activeRequestId with
      | none => { s.cancelTask turn with handler := .waiting turn }
      | some _ => { s with handler := .closing turn }

/-- `teardown` from one await to the next. -/
def teardownNext (s : Session U) : Option (Session U) :=
  match s.handler with
  | .closing turn => some { s.cancelTask turn with handler := .waiting turn }
  | .waiting turn => if s.done turn then some s.cancelDrainer else none
  | _ => none

end Session

/-- What can happen next: an event is handled, `client.abort` returns to the handler, a task
takes a step, or the session is torn down. -/
inductive Action (U : Type)
  | commit (utterance : U)
  | cancel
  | abortReturned
  | drain
  | work (turn : ℕ) (raises : Bool)
  | teardown
  | teardownNext
  deriving DecidableEq

/-- The transition function. -/
def step (s : Session U) : Action U → Option (Session U)
  | .commit utterance => if s.handler = .idle then some (s.autoCommitUtterance utterance) else none
  | .cancel => if s.handler = .idle then some s.handleResponseCancel else none
  | .abortReturned =>
    match s.handler with
    | .aborting target => some (s.cancelActive target)
    | _ => none
  | .drain => s.drainQueue
  | .work turn raises => s.runTurn turn raises
  | .teardown => if s.closed then none else some s.teardown
  | .teardownNext => s.teardownNext

/-- The step belongs to the drainer or to the task of a turn. -/
def Action.ofTask : Action U → Prop
  | .drain | .work _ _ => True
  | _ => False

/-- When `client.abort` returns to the handler of `response.cancel`, the turn that the event was
received for is still the active one, or the turn active by then has ended already. -/
def Undisturbed (s : Session U) : Action U → Prop
  | .abortReturned => ∃ hit ∈ s.activeTask, s.handler = .aborting hit ∨ s.done hit = true
  | _ => True

/-- The session goes on. -/
def GoesOn (s : Session U) (a : Action U) : Prop := Undisturbed s a ∧ a ≠ .teardown

/-- The turn of the `k`-th committed utterance has been run to its end. -/
def Served (k : ℕ) (s : Session U) : Prop := ∃ task, s.turns[k]? = some task ∧ task.done = true

section Tasks

variable {s : Session U} {t k : ℕ} {task : Turn U} {point : TurnPoint}

namespace Session

theorem getElem?_cancelTask : (s.cancelTask t).turns[k]? = s.turns[k]?.map fun task =>
    if t = k ∧ task.done = false then { task with cancelling := true } else task := by
  simp only [cancelTask, List.getElem?_modify]
  by_cases htk : t = k <;> cases s.turns[k]? <;> simp [htk]
  split <;> simp_all

theorem getElem?_setPoint : (s.setPoint t point).turns[k]? = s.turns[k]?.map fun task =>
    if t = k then { task with point := point } else task := by
  simp only [setPoint, List.getElem?_modify]
  by_cases htk : t = k <;> cases s.turns[k]? <;> simp [htk]

@[simp] theorem done_cancelTask : (s.cancelTask t).done k = s.done k := by
  simp only [done, getElem?_cancelTask]
  cases s.turns[k]? with
  | none => rfl
  | some task =>
    simp only [map_some, all_some]
    split <;> rfl

@[simp] theorem utterances_cancelTask :
    (s.cancelTask t).turns.map Turn.utterance = s.turns.map Turn.utterance := by
  refine List.ext_getElem? fun k => ?_
  simp only [List.getElem?_map, getElem?_cancelTask, map_map]
  congr 1
  funext task
  simp only [Function.comp_apply]
  split <;> rfl

@[simp] theorem utterances_setPoint :
    (s.setPoint t point).turns.map Turn.utterance = s.turns.map Turn.utterance := by
  refine List.ext_getElem? fun k => ?_
  simp only [List.getElem?_map, getElem?_setPoint, map_map]
  split <;> rfl

@[simp] theorem length_cancelTask : (s.cancelTask t).turns.length = s.turns.length :=
  List.length_modify ..

@[simp] theorem length_setPoint : (s.setPoint t point).turns.length = s.turns.length :=
  List.length_modify ..

theorem done_eq_false : s.done t = false ↔ ∃ task, s.turns[t]? = some task ∧ task.done = false := by
  unfold done
  cases s.turns[t]? <;> simp

end Session

end Tasks

/-- The session is being torn down. -/
def HandlerPoint.torn : HandlerPoint → Bool
  | .closing _ | .waiting _ | .closed => true
  | _ => false

/-- What holds in every state: utterances are taken in commit order, the drainer waits for the
task that is not done, and the request id belongs to the pass that is running. Until the session
is closed, only the handler of `response.cancel` cancels turns. -/
structure Sound (s : Session U) : Prop where
  order : s.turns.map Turn.utterance ++ s.responseQueue = s.committed
  awaited : ∀ t, s.queueDrainer = .awaiting t → s.activeTask = some t ∧ t + 1 = s.turns.length
  unfinished : ∀ t, s.done t = false → s.queueDrainer = .awaiting t
  request : ∀ t pass, s.activeRequestId = some (t, pass) ↔
    ∃ task, s.turns[t]? = some task ∧ task.point = .running pass
  drainer : s.closed = false → s.drainerCancelling = false ∧ s.queueDrainer ≠ .done ∧
    (s.queueDrainer = .absent → s.responseQueue = [])
  cancelled : ∀ (t : ℕ) task, s.turns[t]? = some task → task.point = .ended .cancelled →
    task.cancelling = true
  caller : s.closed = false → ∀ (t : ℕ) task, s.turns[t]? = some task → task.cancelling = true →
    ∃ target, (target, t) ∈ s.cancels
  handling : s.closed = s.handler.torn

theorem sound_init : Sound (Session.init U) where
  order := rfl
  awaited := nofun
  unfinished := fun _ h => by simp [Session.init, Session.done] at h
  request := fun t pass => by simp [Session.init]
  drainer := fun _ => ⟨rfl, by simp [Session.init], fun _ => rfl⟩
  cancelled := fun t task h => by simp [Session.init] at h
  caller := fun _ t task h => by simp [Session.init] at h
  handling := rfl

variable {a : Action U} {raises : Bool}

section Steps

variable {s s' : Session U} {t target : ℕ}

theorem Sound.active (h : Sound s) (hopen : s.done t = false) : s.activeTask = some t :=
  (h.awaited t (h.unfinished t hopen)).1

theorem Sound.request_active (h : Sound s) {pass : Pass}
    (hid : s.activeRequestId = some (t, pass)) : s.activeTask = some t := by
  obtain ⟨task, htask, hpoint⟩ := (h.request t pass).mp hid
  refine h.active (Session.done_eq_false.mpr ⟨task, htask, ?_⟩)
  simp [Turn.done, hpoint]

theorem sound_commit (h : Sound s) (utterance : U) (hidle : s.handler = .idle) :
    Sound (s.autoCommitUtterance utterance) := by
  have hopen : s.closed = false := by simp [h.handling, hidle, HandlerPoint.torn]
  obtain ⟨hcancelling, hdone, -⟩ := h.drainer hopen
  have hdrainer : ∀ t, (s.autoCommitUtterance utterance).queueDrainer = .awaiting t ↔
      s.queueDrainer = .awaiting t := by
    cases hd : s.queueDrainer <;> simp [Session.autoCommitUtterance, hd]
  refine { h with order := ?_, awaited := fun t ht => h.awaited t ((hdrainer t).mp ht), unfinished
    := fun t ht => (hdrainer t).mpr (h.unfinished t ht), drainer := fun _ => ⟨hcancelling, ?_⟩ }
  · simp [Session.autoCommitUtterance, ← h.order]
  · cases hd : s.queueDrainer <;> simp_all [Session.autoCommitUtterance]

/-- A task is cancelled by the handler of an event, or in a session that has been closed. -/
theorem Sound.cancelTask (h : Sound s) {cancels : List (ℕ × ℕ)} {handler : HandlerPoint}
    (hkept : ∀ e ∈ s.cancels, e ∈ cancels)
    (hcaller : s.closed = false → ∃ target, (target, t) ∈ cancels)
    (hhandling : s.closed = handler.torn) :
    Sound { s.cancelTask t with cancels := cancels, handler := handler } := by
  refine ⟨?_, fun k hk => ?_, fun k hk => ?_, fun k pass => ?_, h.drainer, ?_, ?_, hhandling⟩
  · exact (congrArg (· ++ s.responseQueue) Session.utterances_cancelTask).trans h.order
  · obtain ⟨hactive, hlast⟩ := h.awaited k hk
    exact ⟨hactive, hlast.trans Session.length_cancelTask.symm⟩
  · exact h.unfinished k (Session.done_cancelTask.symm.trans hk)
  · refine (h.request k pass).trans ?_
    simp only [Session.getElem?_cancelTask, map_eq_some_iff]
    constructor
    · rintro ⟨task, htask, hpoint⟩
      refine ⟨_, ⟨task, htask, rfl⟩, ?_⟩
      split <;> exact hpoint
    · rintro ⟨_, ⟨task, htask, rfl⟩, hpoint⟩
      refine ⟨task, htask, ?_⟩
      split at hpoint <;> exact hpoint
  · intro k task hk hpoint
    simp only [Session.getElem?_cancelTask, map_eq_some_iff] at hk
    obtain ⟨task, htask, rfl⟩ := hk
    split
    · rfl
    next hother =>
      rw [if_neg hother] at hpoint
      exact h.cancelled k task htask hpoint
  · intro hopen k task hk hcancelling
    simp only [Session.getElem?_cancelTask, map_eq_some_iff] at hk
    obtain ⟨task, htask, rfl⟩ := hk
    split at hcancelling
    next hsame =>
      exact hsame.1 ▸ hcaller hopen
    · obtain ⟨target, htarget⟩ := h.caller hopen k task htask hcancelling
      exact ⟨target, hkept _ htarget⟩

theorem sound_cancelActive (h : Sound s) (hopen : s.closed = false) :
    Sound (s.cancelActive target) := by
  unfold Session.cancelActive
  split
  · exact { h with handling := hopen }
  next hit hactive =>
    split
    · exact { h with handling := hopen }
    · exact h.cancelTask (fun e he => List.mem_append_left _ he)
        (fun _ => ⟨target, List.mem_append_right _ (List.mem_singleton.mpr rfl)⟩) hopen

theorem sound_handleResponseCancel (h : Sound s) (hidle : s.handler = .idle) :
    Sound s.handleResponseCancel := by
  have hopen : s.closed = false := by simp [h.handling, hidle, HandlerPoint.torn]
  unfold Session.handleResponseCancel
  split
  · exact h
  · split
    · exact h
    · split
      · exact sound_cancelActive h hopen
      · exact { h with handling := hopen }

/-- The drainer takes the next utterance when no turn is under way. -/
theorem sound_createTurn (h : Sound s) {utterance : U} {rest : List U}
    (hqueue : s.responseQueue = utterance :: rest) (hdone : ∀ t, s.done t = true) :
    Sound (s.createTurn utterance rest) := by
  have hold : ∀ (k : ℕ) task, (s.createTurn utterance rest).turns[k]? = some task →
      s.turns[k]? = some task ∨ k = s.turns.length ∧ task = ⟨utterance, .created, false⟩ := by
    intro k task hk
    simp only [Session.createTurn, List.getElem?_append, List.getElem?_singleton] at hk
    split at hk
    · exact Or.inl hk
    · split at hk
      · exact Or.inr ⟨by omega, (some.inj hk).symm⟩
      · cases hk
  have hnot : ∀ (k : ℕ) task, s.turns[k]? = some task → task.done = true := by
    intro k task hk
    simpa [Session.done, hk] using hdone k
  refine ⟨?_, ?_, ?_, ?_, ?_, ?_, ?_, h.handling⟩
  · simp [Session.createTurn, ← h.order, hqueue]
  · rintro k hk
    obtain rfl : s.turns.length = k := by simpa [Session.createTurn] using hk
    simp [Session.createTurn]
  · intro k hk
    obtain ⟨task, htask, hpending⟩ := Session.done_eq_false.mp hk
    rcases hold k task htask with hbefore | ⟨rfl, -⟩
    · rw [hnot k task hbefore] at hpending
      cases hpending
    · rfl
  · intro k pass
    refine (h.request k pass).trans ⟨?_, ?_⟩
    · rintro ⟨task, htask, hpoint⟩
      exact absurd (hnot k task htask) (by simp [Turn.done, hpoint])
    · rintro ⟨task, htask, hpoint⟩
      rcases hold k task htask with hbefore | ⟨-, rfl⟩
      · exact ⟨task, hbefore, hpoint⟩
      · cases hpoint
  · exact fun hopen => ⟨(h.drainer hopen).1, by simp [Session.createTurn], by
      simp [Session.createTurn]⟩
  · intro k task hk hpoint
    rcases hold k task hk with hbefore | ⟨-, rfl⟩
    · exact h.cancelled k task hbefore hpoint
    · cases hpoint
  · intro hopen k task hk hcancelling
    rcases hold k task hk with hbefore | ⟨-, rfl⟩
    · exact h.caller hopen k task hbefore hcancelling
    · cases hcancelling

/-- The drainer goes on to a point at which it waits for no turn. -/
theorem Sound.idle (h : Sound s) (hdone : ∀ t, s.done t = true) {point : DrainPoint}
    {active : Option ℕ} (hpoint : ∀ t, point ≠ .awaiting t)
    (hdrainer : s.closed = false → point = .getting) :
    Sound { s with queueDrainer := point, activeTask := active } := by
  refine { h with
    awaited := fun t ht => absurd ht (hpoint t), unfinished := fun t ht => ?_
    drainer := fun hopen => ?_ }
  · exact absurd ((hdone t).symm.trans ht) (by simp)
  · have hget := hdrainer hopen
    exact ⟨(h.drainer hopen).1, by simp [hget], by simp [hget]⟩

theorem sound_drainLoop (h : Sound s) (hdone : ∀ t, s.done t = true) : Sound s.drainLoop := by
  unfold Session.drainLoop
  split
  next hclosed =>
    exact h.idle hdone (fun t => by simp) fun hopen => by simp [hopen] at hclosed
  · split
    · exact h.idle hdone (fun t => by simp) fun _ => rfl
    next hqueue =>
      exact sound_createTurn h hqueue hdone

/-- No turn is under way unless the drainer waits for it. -/
theorem Sound.all_done (h : Sound s)
    (hdrainer : ∀ t, s.queueDrainer = .awaiting t → s.done t = true) (t : ℕ) :
    s.done t = true := by
  by_contra hnot
  have hopen : s.done t = false := by simpa using hnot
  exact hnot (hdrainer t (h.unfinished t hopen))

theorem sound_drainQueue (h : Sound s) (hstep : s.drainQueue = some s') : Sound s' := by
  have hstop : (∀ t, s.done t = true) → s.drainerCancelling = true →
      Sound { s with queueDrainer := .done } := fun hdone hcancelling =>
    h.idle hdone (fun t => by simp) fun hopen => by simp [(h.drainer hopen).1] at hcancelling
  unfold Session.drainQueue at hstep
  split at hstep
  · cases hstep
  · cases hstep
  next hpoint =>
    have hdone := h.all_done fun t ht => by simp [hpoint] at ht
    cases hstep
    split
    next hcancelling =>
      exact hstop hdone hcancelling
    · exact sound_drainLoop h hdone
  next hpoint =>
    have hdone := h.all_done fun t ht => by simp [hpoint] at ht
    split at hstep
    next hcancelling =>
      cases hstep
      exact hstop hdone hcancelling
    · split at hstep
      · cases hstep
      next hqueue =>
        cases hstep
        exact sound_createTurn h hqueue hdone
  next turn hpoint =>
    split at hstep
    next hended =>
      have hdone := h.all_done fun t ht => by
        obtain rfl : turn = t := by simpa [hpoint] using ht
        exact hended
      cases hstep
      split
      next hcancelling =>
        exact hstop hdone hcancelling
      · have hcleared : Sound { s with queueDrainer := .getting, activeTask := none } :=
          h.idle hdone (fun t => by simp) fun _ => rfl
        have hloop : { s with activeTask := none }.drainLoop =
          { s with queueDrainer := .getting, activeTask := none }.drainLoop := rfl
        rw [hloop]
        exact sound_drainLoop hcleared hdone
    · cases hstep

theorem Sound.setPoint (h : Sound s) {task : Turn U} (htask : s.turns[t]? = some task)
    (hpending : task.done = false) {point : TurnPoint} {request : Option (ℕ × Pass)}
    (hrequest : ∀ k pass, request = some (k, pass) ↔ k = t ∧ point = .running pass)
    (hcancelled : point = .ended .cancelled → task.cancelling = true) :
    Sound { s.setPoint t point with activeRequestId := request } := by
  have hothers : ∀ (k : ℕ) other, (s.setPoint t point).turns[k]? = some other →
      k = t ∧ other = { task with point := point } ∨ k ≠ t ∧ s.turns[k]? = some other := by
    intro k other hk
    simp only [Session.getElem?_setPoint, map_eq_some_iff] at hk
    obtain ⟨before, hbefore, rfl⟩ := hk
    by_cases htk : t = k
    · subst htk
      obtain rfl := some.inj (htask.symm.trans hbefore)
      exact Or.inl ⟨rfl, if_pos rfl⟩
    · exact Or.inr ⟨fun hkt => htk hkt.symm, by rw [if_neg htk]; exact hbefore⟩
  have hsame : (s.setPoint t point).turns[t]? = some { task with point := point } := by
    simp [Session.getElem?_setPoint, htask]
  have hactive : s.queueDrainer = .awaiting t :=
    h.unfinished t (Session.done_eq_false.mpr ⟨task, htask, hpending⟩)
  refine ⟨?_, fun k hk => ?_, fun k hk => ?_, fun k pass => ?_, h.drainer, ?_, ?_, h.handling⟩
  · exact (congrArg (· ++ s.responseQueue) Session.utterances_setPoint).trans h.order
  · obtain ⟨hactive, hlast⟩ := h.awaited k hk
    exact ⟨hactive, hlast.trans Session.length_setPoint.symm⟩
  · obtain ⟨other, hother, hopen⟩ := Session.done_eq_false.mp hk
    rcases hothers k other hother with ⟨rfl, -⟩ | ⟨-, hbefore⟩
    · exact hactive
    · exact h.unfinished k (Session.done_eq_false.mpr ⟨other, hbefore, hopen⟩)
  · refine (hrequest k pass).trans ⟨?_, ?_⟩
    · rintro ⟨rfl, hpoint⟩
      exact ⟨_, hsame, hpoint⟩
    · rintro ⟨other, hother, hpoint⟩
      rcases hothers k other hother with ⟨hk, rfl⟩ | ⟨hk, hbefore⟩
      · exact ⟨hk, hpoint⟩
      · have hrunning : s.done k = false :=
          Session.done_eq_false.mpr ⟨other, hbefore, by simp [Turn.done, hpoint]⟩
        have hsame : DrainPoint.awaiting k = .awaiting t :=
          (h.unfinished k hrunning).symm.trans hactive
        exact absurd (by simpa using hsame) hk
  · intro k other hk hpoint
    rcases hothers k other hk with ⟨-, rfl⟩ | ⟨-, hbefore⟩
    · exact hcancelled hpoint
    · exact h.cancelled k other hbefore hpoint
  · intro hopen k other hk hcancelling
    rcases hothers k other hk with ⟨rfl, rfl⟩ | ⟨-, hbefore⟩
    · exact h.caller hopen k task htask hcancelling
    · exact h.caller hopen k other hbefore hcancelling

theorem sound_runTurn (h : Sound s) (hstep : s.runTurn t raises = some s') :
    Sound s' := by
  obtain ⟨task, htask, hnext⟩ := bind_eq_some_iff.mp hstep
  split at hnext
  · cases hnext
  next hpoint =>
    have hpending : task.done = false := by simp [Turn.done, hpoint]
    cases hnext
    split
    next hcancelling =>
      have hnone : ∀ k pass, s.activeRequestId = some (k, pass) ↔
          k = t ∧ TurnPoint.ended .cancelled = .running pass := by
        intro k pass
        refine ⟨fun hid => ?_, fun hnot => by cases hnot.2⟩
        obtain rfl : k = t := by
          have hsame := (h.request_active hid).symm.trans
            (h.active (Session.done_eq_false.mpr ⟨task, htask, hpending⟩))
          exact some.inj hsame
        obtain ⟨other, hother, hrunning⟩ := (h.request k pass).mp hid
        obtain rfl := some.inj (htask.symm.trans hother)
        rw [hpoint] at hrunning
        cases hrunning
      exact h.setPoint htask hpending hnone fun _ => hcancelling
    · refine h.setPoint htask hpending (fun k pass => ?_) nofun
      simp [Prod.ext_iff, eq_comm]
  next pass hpoint =>
    have hpending : task.done = false := by simp [Turn.done, hpoint]
    cases hnext
    split
    next hcancelling =>
      exact h.setPoint htask hpending (fun k pass => by simp) fun _ => hcancelling
    · split
      · exact h.setPoint htask hpending (fun k pass => by simp) nofun
      · split
        · refine h.setPoint htask hpending (fun k pass => ?_) nofun
          simp [Prod.ext_iff, eq_comm]
        · exact h.setPoint htask hpending (fun k pass => by simp) nofun

theorem sound_cancelDrainer (h : Sound s) (hclosed : s.closed = true) :
    Sound s.cancelDrainer := by
  have hopen : ¬s.closed = false := by simp [hclosed]
  have hhandling : s.closed = HandlerPoint.closed.torn := hclosed
  unfold Session.cancelDrainer
  split
  · exact { h with handling := hhandling }
  · exact { h with handling := hhandling }
  next turn _ =>
    have hcancelled := h.cancelTask (t := turn) (fun _ he => he) (fun hnot => absurd hnot hopen)
      hhandling
    exact { hcancelled with drainer := fun hnot => absurd hnot hopen, handling := hhandling }
  · exact { h with drainer := fun hnot => absurd hnot hopen, handling := hhandling }

/-- A session that is closed promises less. -/
theorem Sound.close (h : Sound s) (handler : HandlerPoint) (htorn : handler.torn = true) :
    Sound { s with closed := true, handler := handler } :=
  { h with drainer := nofun, caller := nofun, handling := htorn.symm }

theorem sound_teardown (h : Sound s) : Sound s.teardown := by
  have hclose : Sound { s with closed := true, handler := .closed } := h.close .closed rfl
  have hdrainer : Sound { s with closed := true }.cancelDrainer :=
    (rfl : { s with closed := true, handler := .closed }.cancelDrainer =
      { s with closed := true }.cancelDrainer) ▸ sound_cancelDrainer hclose rfl
  unfold Session.teardown
  dsimp only
  split
  · exact hdrainer
  next turn _ =>
    split
    · exact hdrainer
    · split
      · exact hclose.cancelTask (fun _ he => he) nofun rfl
      · exact h.close (.closing turn) rfl

theorem sound_teardownNext (h : Sound s) (hstep : s.teardownNext = some s') : Sound s' := by
  unfold Session.teardownNext at hstep
  split at hstep
  next hpoint =>
    have hclosed : s.closed = true := by simp [h.handling, hpoint, HandlerPoint.torn]
    cases hstep
    exact h.cancelTask (fun _ he => he) (fun hopen => by simp [hclosed] at hopen) hclosed
  next hpoint =>
    have hclosed : s.closed = true := by simp [h.handling, hpoint, HandlerPoint.torn]
    split at hstep
    · cases hstep
      exact sound_cancelDrainer h hclosed
    · cases hstep
  · cases hstep

/-- **Step lemma.** Every step keeps what holds in every state. -/
theorem Sound.step (h : Sound s) (hstep : step s a = some s') : Sound s' := by
  cases a with
  | commit utterance =>
    obtain ⟨hidle, hnext⟩ := ite_none_right_eq_some.mp hstep
    cases hnext
    exact sound_commit h utterance hidle
  | cancel =>
    obtain ⟨hidle, hnext⟩ := ite_none_right_eq_some.mp hstep
    cases hnext
    exact sound_handleResponseCancel h hidle
  | abortReturned =>
    simp only [Realtime.step] at hstep
    split at hstep
    next target hpoint =>
      cases hstep
      exact sound_cancelActive h (by simp [h.handling, hpoint, HandlerPoint.torn])
    · cases hstep
  | drain => exact sound_drainQueue h hstep
  | work turn raises => exact sound_runTurn h hstep
  | teardown =>
    obtain ⟨-, hnext⟩ := ite_none_left_eq_some.mp hstep
    cases hnext
    exact sound_teardown h
  | teardownNext => exact sound_teardownNext h hstep

/-- **Run lemma.** -/
theorem sound_of_run {ok : Session U → Action U → Prop} {as : List (Action U)}
    (hrun : Run Realtime.step ok (Session.init U) as s) : Sound s :=
  hrun.invariant (I := Sound) (fun _ _ _ h _ hstep => h.step hstep) sound_init

end Steps

/-- What `response.cancel` events have done: no handling has raised, and only the turns that were
active when an event was received have been cancelled or aborted for it. -/
structure OnTarget (s : Session U) : Prop where
  returns : s.handler ≠ .raised
  cancels : ∀ e ∈ s.cancels, e.2 = e.1
  aborts : ∀ e ∈ s.aborts, e.2 = e.1

section Targets

variable {s s' : Session U} {target : ℕ}

/-- The end of the handling of an event hits the turn that it was received for if and only if this
turn is still the active one, or the turn that is active by then has ended. -/
theorem cancelActive_iff (h : OnTarget s) : OnTarget (s.cancelActive target) ↔
    ∃ hit ∈ s.activeTask, hit = target ∨ s.done hit = true := by
  unfold Session.cancelActive
  split
  next hnone =>
    exact ⟨fun hon => absurd rfl hon.returns, fun ⟨hit, hhit, _⟩ => by simp [hnone] at hhit⟩
  next hit hactive =>
    split
    next hended =>
      exact ⟨fun _ => ⟨hit, hactive, Or.inr hended⟩, fun _ => ⟨by simp, h.cancels, h.aborts⟩⟩
    next hrunning =>
      constructor
      · intro hon
        have hhit : hit = target :=
          hon.cancels _ (List.mem_append_right _ (List.mem_singleton.mpr rfl))
        exact ⟨hit, hactive, Or.inl hhit⟩
      · rintro ⟨other, hother, hwhy⟩
        obtain rfl := some.inj (hactive.symm.trans hother)
        have hhit : hit = target := hwhy.resolve_right hrunning
        refine ⟨by simp, fun e he => ?_, h.aborts⟩
        rcases List.mem_append.mp he with hbefore | hnew
        · exact h.cancels e hbefore
        · obtain rfl := List.mem_singleton.mp hnew
          exact hhit

theorem onTarget_handleResponseCancel (hs : Sound s) (h : OnTarget s) :
    OnTarget s.handleResponseCancel := by
  unfold Session.handleResponseCancel
  split
  · exact h
  next target hactive =>
    split
    · exact h
    · split
      · exact (cancelActive_iff h).mpr ⟨target, hactive, Or.inl rfl⟩
      next request hid =>
        refine ⟨by simp, h.cancels, fun e he => ?_⟩
        rcases List.mem_append.mp he with hbefore | hnew
        · exact h.aborts e hbefore
        · obtain rfl := List.mem_singleton.mp hnew
          have hrequest : s.activeTask = some request.1 := hs.request_active hid
          exact some.inj (hrequest.symm.trans hactive)

/-- The handlers and the tasks of other steps leave the record of the events alone. -/
theorem OnTarget.congr (h : OnTarget s) (hhandler : s'.handler = s.handler ∨ s'.handler.torn = true)
    (hcancels : s'.cancels = s.cancels) (haborts : s'.aborts = s.aborts) : OnTarget s' := by
  refine ⟨fun hraised => ?_, hcancels ▸ h.cancels, haborts ▸ h.aborts⟩
  rcases hhandler with hsame | htorn
  · exact h.returns (hsame ▸ hraised)
  · rw [hraised] at htorn
    cases htorn

theorem drainLoop_frame : s.drainLoop.handler = s.handler ∧ s.drainLoop.cancels = s.cancels ∧
    s.drainLoop.aborts = s.aborts := by
  unfold Session.drainLoop
  split
  · exact ⟨rfl, rfl, rfl⟩
  · split <;> exact ⟨rfl, rfl, rfl⟩

theorem drainQueue_frame (hstep : s.drainQueue = some s') :
    s'.handler = s.handler ∧ s'.cancels = s.cancels ∧ s'.aborts = s.aborts := by
  unfold Session.drainQueue at hstep
  split at hstep
  · cases hstep
  · cases hstep
  · cases hstep
    split
    · exact ⟨rfl, rfl, rfl⟩
    · exact drainLoop_frame
  · split at hstep
    · cases hstep
      exact ⟨rfl, rfl, rfl⟩
    · split at hstep
      · cases hstep
      · cases hstep
        exact ⟨rfl, rfl, rfl⟩
  · obtain ⟨-, hnext⟩ := ite_none_right_eq_some.mp hstep
    cases hnext
    split
    · exact ⟨rfl, rfl, rfl⟩
    · exact drainLoop_frame

theorem runTurn_frame {turn : ℕ} (hstep : s.runTurn turn raises = some s') :
    s'.handler = s.handler ∧ s'.cancels = s.cancels ∧ s'.aborts = s.aborts := by
  obtain ⟨task, -, hnext⟩ := bind_eq_some_iff.mp hstep
  split at hnext
  · cases hnext
  · cases hnext
    split <;> exact ⟨rfl, rfl, rfl⟩
  · cases hnext
    split
    · exact ⟨rfl, rfl, rfl⟩
    · split
      · exact ⟨rfl, rfl, rfl⟩
      · split <;> exact ⟨rfl, rfl, rfl⟩

theorem cancelDrainer_frame : s.cancelDrainer.handler.torn = true ∧
    s.cancelDrainer.cancels = s.cancels ∧ s.cancelDrainer.aborts = s.aborts := by
  unfold Session.cancelDrainer
  split <;> exact ⟨rfl, rfl, rfl⟩

theorem teardown_frame : s.teardown.handler.torn = true ∧ s.teardown.cancels = s.cancels ∧
    s.teardown.aborts = s.aborts := by
  unfold Session.teardown
  dsimp only
  split
  · exact cancelDrainer_frame
  · split
    · exact cancelDrainer_frame
    · split <;> exact ⟨rfl, rfl, rfl⟩

theorem teardownNext_frame (hstep : s.teardownNext = some s') :
    s'.handler.torn = true ∧ s'.cancels = s.cancels ∧ s'.aborts = s.aborts := by
  unfold Session.teardownNext at hstep
  split at hstep
  · cases hstep
    exact ⟨rfl, rfl, rfl⟩
  · obtain ⟨-, hnext⟩ := ite_none_right_eq_some.mp hstep
    cases hnext
    exact cancelDrainer_frame
  · cases hstep

theorem OnTarget.step (hs : Sound s) (h : OnTarget s) (hok : Undisturbed s a)
    (hstep : step s a = some s') : OnTarget s' := by
  cases a with
  | commit utterance =>
    obtain ⟨hidle, hnext⟩ := ite_none_right_eq_some.mp hstep
    cases hnext
    exact { h with }
  | cancel =>
    obtain ⟨-, hnext⟩ := ite_none_right_eq_some.mp hstep
    cases hnext
    exact onTarget_handleResponseCancel hs h
  | abortReturned =>
    simp only [Realtime.step] at hstep
    split at hstep
    next target hpoint =>
      cases hstep
      obtain ⟨hit, hactive, hwhy⟩ := hok
      refine (cancelActive_iff h).mpr ⟨hit, hactive, hwhy.imp_left fun hsame => ?_⟩
      rw [hpoint] at hsame
      exact (HandlerPoint.aborting.inj hsame).symm
    · cases hstep
  | drain =>
    obtain ⟨hhandler, hcancels, haborts⟩ := drainQueue_frame hstep
    exact h.congr (Or.inl hhandler) hcancels haborts
  | work turn raises =>
    obtain ⟨hhandler, hcancels, haborts⟩ := runTurn_frame hstep
    exact h.congr (Or.inl hhandler) hcancels haborts
  | teardown =>
    obtain ⟨-, hnext⟩ := ite_none_left_eq_some.mp hstep
    cases hnext
    obtain ⟨htorn, hcancels, haborts⟩ := teardown_frame (s := s)
    exact h.congr (Or.inr htorn) hcancels haborts
  | teardownNext =>
    obtain ⟨htorn, hcancels, haborts⟩ := teardownNext_frame hstep
    exact h.congr (Or.inr htorn) hcancels haborts

end Targets

section Progress

variable {s s' : Session U} {t k : ℕ}

/-- How many steps the task of a turn has left. -/
def TurnPoint.rank : TurnPoint → ℕ
  | .created => 3
  | .running .response => 2
  | .running .transcription => 1
  | .ended _ => 0

/-- How many steps of the tasks are left until the turn of the `k`-th utterance has ended. -/
def Session.cost (k : ℕ) (s : Session U) : ℕ :=
  5 * (k + 1 - s.turns.length) + (s.turns.map fun task => task.point.rank).sum

/-- An element with a smaller value makes the sum smaller. -/
theorem sum_modify_lt {α : Type*} {f : α → ℕ} {g : α → α} {l : List α} {i : ℕ} {a : α}
    (ha : l[i]? = some a) (hless : f (g a) < f a) :
    ((l.modify i g).map f).sum < (l.map f).sum := by
  induction l generalizing i with
  | nil => simp at ha
  | cons b l ih =>
    cases i with
    | zero =>
      obtain rfl : b = a := by simpa using ha
      simpa using hless
    | succ i => simpa using ih (by simpa using ha)

theorem ranks_cancelTask : ((s.cancelTask t).turns.map fun task => task.point.rank) =
    s.turns.map fun task => task.point.rank := by
  refine List.ext_getElem? fun k => ?_
  simp only [List.getElem?_map, Session.getElem?_cancelTask, map_map]
  congr 1
  funext task
  simp only [Function.comp_apply]
  split <;> rfl

theorem cost_cancelActive {target : ℕ} : (s.cancelActive target).cost k = s.cost k ∧
    (s.cancelActive target).committed = s.committed ∧
      (s.cancelActive target).closed = s.closed := by
  unfold Session.cancelActive
  split
  · exact ⟨rfl, rfl, rfl⟩
  next hit _ =>
    split
    · exact ⟨rfl, rfl, rfl⟩
    · refine ⟨?_, rfl, rfl⟩
      have hlength := Session.length_cancelTask (s := s) (t := hit)
      have hranks := ranks_cancelTask (s := s) (t := hit)
      simp only [Session.cost]
      rw [hlength, hranks]

theorem cost_handleResponseCancel : s.handleResponseCancel.cost k = s.cost k ∧
    s.handleResponseCancel.committed = s.committed ∧ s.handleResponseCancel.closed = s.closed := by
  unfold Session.handleResponseCancel
  split
  · exact ⟨rfl, rfl, rfl⟩
  · split
    · exact ⟨rfl, rfl, rfl⟩
    · split
      · exact cost_cancelActive
      · exact ⟨rfl, rfl, rfl⟩

/-- A step of a turn brings its task closer to its end. -/
theorem cost_runTurn (hstep : s.runTurn t raises = some s') :
    s'.cost k < s.cost k ∧ s'.committed = s.committed ∧ s'.closed = s.closed := by
  obtain ⟨task, htask, hnext⟩ := bind_eq_some_iff.mp hstep
  have hset : ∀ (point : TurnPoint) (request : Option (ℕ × Pass)), point.rank < task.point.rank →
      Session.cost k { s.setPoint t point with activeRequestId := request } < s.cost k := by
    intro point request hless
    have hsum := sum_modify_lt (f := fun task : Turn U => task.point.rank)
      (g := fun task => { task with point := point }) htask hless
    have hlength : (s.setPoint t point).turns.length = s.turns.length := Session.length_setPoint
    simp only [Session.cost, hlength]
    exact Nat.add_lt_add_left hsum _
  split at hnext
  · cases hnext
  next hpoint =>
    cases hnext
    split
    · exact ⟨hset _ _ (by simp [hpoint, TurnPoint.rank]), rfl, rfl⟩
    · exact ⟨hset _ _ (by simp [hpoint, TurnPoint.rank]), rfl, rfl⟩
  next pass hpoint =>
    have hrank : 0 < task.point.rank := by cases pass <;> simp [hpoint, TurnPoint.rank]
    cases hnext
    split
    · exact ⟨hset _ _ hrank, rfl, rfl⟩
    · split
      · exact ⟨hset _ _ hrank, rfl, rfl⟩
      · split
        · exact ⟨hset _ _ (by simp [hpoint, TurnPoint.rank]), rfl, rfl⟩
        · exact ⟨hset _ _ hrank, rfl, rfl⟩

/-- A step of the drainer of an open session: no turn is under way, and the turn of the first
utterance in the queue is created. -/
theorem drainQueue_open (h : Sound s) (hopen : s.closed = false) (hstep : s.drainQueue = some s') :
    (∀ t, s.done t = true) ∧ s'.committed = s.committed ∧
      s'.closed = s.closed ∧ (s.responseQueue ≠ [] →
        ∃ utterance, s'.turns = s.turns ++ [⟨utterance, .created, false⟩]) := by
  have hloop : ∀ active, { s with activeTask := active }.drainLoop.committed = s.committed ∧
      { s with activeTask := active }.drainLoop.closed = s.closed ∧ (s.responseQueue ≠ [] →
        ∃ utterance, { s with activeTask := active }.drainLoop.turns =
          s.turns ++ [⟨utterance, .created, false⟩]) := by
    intro active
    simp only [Session.drainLoop, hopen, Bool.false_eq_true, if_false]
    cases s.responseQueue with
    | nil => exact ⟨rfl, rfl, fun hne => absurd rfl hne⟩
    | cons utterance rest => exact ⟨rfl, rfl, fun _ => ⟨utterance, rfl⟩⟩
  have hkeep : ¬s.drainerCancelling = true := by simp [(h.drainer hopen).1]
  simp only [Session.drainQueue, if_neg hkeep] at hstep
  split at hstep
  · cases hstep
  · cases hstep
  next hpoint =>
    cases hstep
    exact ⟨h.all_done fun t ht => by simp [hpoint] at ht, hloop s.activeTask⟩
  next hpoint =>
    refine ⟨h.all_done fun t ht => by simp [hpoint] at ht, ?_⟩
    split at hstep
    · cases hstep
    next utterance rest hqueue =>
      cases hstep
      exact ⟨rfl, rfl, fun _ => ⟨utterance, rfl⟩⟩
  next turn hpoint =>
    obtain ⟨hended, hnext⟩ := ite_none_right_eq_some.mp hstep
    cases hnext
    refine ⟨h.all_done fun t ht => ?_, hloop none⟩
    obtain rfl : turn = t := by simpa [hpoint] using ht
    exact hended

/-- When no turn is under way and an utterance has not had its turn, the queue is not empty. -/
theorem Sound.queue_ne_nil (h : Sound s) (hdone : ∀ t, s.done t = true)
    (hk : k < s.committed.length) (hmissed : ¬Served k s) :
    s.turns.length ≤ k ∧ s.responseQueue ≠ [] := by
  have hle : s.turns.length ≤ k := by
    by_contra hlt
    have hget : s.turns[k]? = some s.turns[k] := List.getElem?_eq_getElem (by omega)
    refine hmissed ⟨_, hget, ?_⟩
    have hended := hdone k
    rwa [Session.done, hget] at hended
  refine ⟨hle, fun hempty => ?_⟩
  have hlength := congrArg List.length h.order
  simp only [List.length_append, List.length_map, hempty, List.length_nil] at hlength
  omega

/-- An open session can go on until all utterances have had their turns. -/
theorem Sound.enabled (h : Sound s) (hopen : s.closed = false) (hk : k < s.committed.length)
    (hmissed : ¬Served k s) : ∃ a t, Action.ofTask a ∧ Realtime.step s a = some t := by
  by_cases hdone : ∀ t, s.done t = true
  · obtain ⟨-, hqueue⟩ := h.queue_ne_nil hdone hk hmissed
    obtain ⟨hcancelling, hleft, habsent⟩ := h.drainer hopen
    refine ⟨.drain, ?_⟩
    simp only [Realtime.step, Session.drainQueue, hcancelling, Bool.false_eq_true, if_false]
    cases hpoint : s.queueDrainer with
    | absent => exact absurd (habsent hpoint) hqueue
    | done => exact absurd hpoint hleft
    | created => exact ⟨_, trivial, rfl⟩
    | getting =>
      cases hq : s.responseQueue with
      | nil => exact absurd hq hqueue
      | cons utterance rest => exact ⟨_, trivial, rfl⟩
    | awaiting turn =>
      simp only [hdone turn, if_true]
      exact ⟨_, trivial, rfl⟩
  · obtain ⟨t, ht⟩ := not_forall.mp hdone
    obtain ⟨task, htask, hpending⟩ := Session.done_eq_false.mp (by simpa using ht)
    refine ⟨.work t false, ?_⟩
    simp only [Realtime.step, Session.runTurn, htask, bind_some]
    cases hpoint : task.point with
    | ended how => simp [Turn.done, hpoint] at hpending
    | created => exact ⟨_, trivial, rfl⟩
    | running pass => exact ⟨_, trivial, rfl⟩

/-- No step delays the turn of an utterance, and the steps of the tasks bring it closer. -/
theorem Sound.closer (h : Sound s) (hopen : s.closed = false) (hk : k < s.committed.length)
    (hmissed : ¬Served k s) (hok : GoesOn s a) (hstep : Realtime.step s a = some s') :
    s'.closed = false ∧ k < s'.committed.length ∧ s'.cost k ≤ s.cost k ∧
      (a.ofTask → s'.cost k < s.cost k) := by
  cases a with
  | commit utterance =>
    obtain ⟨-, hnext⟩ := ite_none_right_eq_some.mp hstep
    cases hnext
    refine ⟨hopen, ?_, Nat.le_refl _, fun hnot => hnot.elim⟩
    simp only [Session.autoCommitUtterance, List.length_append, List.length_singleton]
    omega
  | cancel =>
    obtain ⟨-, hnext⟩ := ite_none_right_eq_some.mp hstep
    cases hnext
    obtain ⟨hcost, hcommitted, hclosed⟩ := cost_handleResponseCancel (s := s) (k := k)
    exact ⟨hclosed.trans hopen, hcommitted ▸ hk, Nat.le_of_eq hcost, fun hnot => hnot.elim⟩
  | abortReturned =>
    simp only [Realtime.step] at hstep
    split at hstep
    next target _ =>
      cases hstep
      obtain ⟨hcost, hcommitted, hclosed⟩ := @cost_cancelActive _ s k target
      exact ⟨hclosed.trans hopen, hcommitted ▸ hk, Nat.le_of_eq hcost, fun hnot => hnot.elim⟩
    · cases hstep
  | drain =>
    obtain ⟨hdone, hcommitted, hclosed, hturns⟩ := drainQueue_open h hopen hstep
    obtain ⟨hle, hqueue⟩ := h.queue_ne_nil hdone hk hmissed
    obtain ⟨utterance, hturns⟩ := hturns hqueue
    have hless : s'.cost k < s.cost k := by
      simp only [Session.cost, hturns, List.length_append, List.map_append, List.sum_append,
        List.length_singleton, List.map_singleton, List.sum_singleton, TurnPoint.rank]
      omega
    exact ⟨hclosed.trans hopen, hcommitted ▸ hk, Nat.le_of_lt hless, fun _ => hless⟩
  | work turn raises =>
    obtain ⟨hless, hcommitted, hclosed⟩ := cost_runTurn (k := k) hstep
    exact ⟨hclosed.trans hopen, hcommitted ▸ hk, Nat.le_of_lt hless, fun _ => hless⟩
  | teardown => exact absurd rfl hok.2
  | teardownNext =>
    have htorn : s.handler.torn = false := h.handling.symm.trans hopen
    simp only [Realtime.step, Session.teardownNext] at hstep
    split at hstep
    next hpoint =>
      simp [hpoint, HandlerPoint.torn] at htorn
    next hpoint =>
      simp [hpoint, HandlerPoint.torn] at htorn
    · cases hstep

end Progress

instance (s : Session U) (a : Action U) : Decidable (Undisturbed s a) := by
  cases a <;> unfold Undisturbed <;> infer_instance

instance [DecidableEq U] (s : Session U) (a : Action U) : Decidable (GoesOn s a) := by
  unfold GoesOn
  infer_instance

/-- The steps of a session that goes on. -/
def stepOn [DecidableEq U] (s : Session U) (a : Action U) : Option (Session U) :=
  if GoesOn s a then step s a else none

section Main

variable [DecidableEq U] {s : Session U} {k : ℕ}

/-- The turn of every committed utterance is run to its end, if the tasks are scheduled. -/
theorem served_of_fair (h : Sound s) (hopen : s.closed = false) (p : Path (stepOn (U := U)) s)
    (hfair : p.Fair Action.ofTask) (hk : k < s.committed.length) :
    ∃ i, Served k (p.state i) := by
  obtain ⟨i, -, hi⟩ := @Path.eventually _ _ _
    (fun s => Sound s ∧ s.closed = false ∧ k < s.committed.length) _ (Served k) p _ hfair
    (Session.cost k)
    (fun s ⟨hs, hopen, hk⟩ hmissed => by
      obtain ⟨a, t, htask, hstep⟩ := hs.enabled hopen hk hmissed
      have hok : GoesOn s a := by
        cases a <;> first | exact htask.elim | exact ⟨trivial, by simp⟩
      exact ⟨a, t, htask, by rw [stepOn, if_pos hok, hstep]⟩)
    (fun s a t ⟨hs, hopen, hk⟩ hmissed hstep => by
      obtain ⟨hok, hstep⟩ := ite_none_right_eq_some.mp hstep
      obtain ⟨hopen', hk', hle, hless⟩ := hs.closer hopen hk hmissed hok hstep
      exact Or.inr ⟨⟨hs.step hstep, hopen', hk'⟩, hle, hless⟩)
    0 (by rw [p.start]; exact ⟨h, hopen, hk⟩)
  exact ⟨i, hi⟩

/-- What holds of a session after any run: the handling of `response.cancel` has not raised and has
cancelled and aborted only the turns that were active when its events were received. Every
utterance has a turn or waits for it, in commit order. As long as the session is open, no other
turn is cancelled, and all utterances get their turns: none is left out when the tasks have come
to rest, and each comes to its end when the session goes on and the tasks are scheduled. -/
structure Kept (s : Session U) : Prop where
  onTarget : OnTarget s
  order : s.turns.map Turn.utterance ++ s.responseQueue = s.committed
  uncancelled : s.closed = false → ∀ (t : ℕ) task, s.turns[t]? = some task →
    (t, t) ∉ s.cancels → task.cancelling = false ∧ task.point ≠ .ended .cancelled
  rest : s.closed = false → (∀ a, Action.ofTask a → step s a = none) →
    ∀ k < s.committed.length, Served k s
  served : s.closed = false → ∀ p : Path (stepOn (U := U)) s, p.Fair Action.ofTask →
    ∀ k < s.committed.length, ∃ i, Served k (p.state i)

/-- **Main result.** In every run in which `client.abort` never returns to a handler of
`response.cancel` after the turn that the event was received for has been followed by another one
that is still under way, or by none, the session keeps its promises. -/
theorem turns_of_run {as : List (Action U)}
    (hrun : Run step Undisturbed (Session.init U) as s) : Kept s := by
  have hsound : Sound s := sound_of_run hrun
  have hboth : Sound s ∧ OnTarget s := by
    refine hrun.invariant (I := fun s => Sound s ∧ OnTarget s) (fun s a t ⟨hs, h⟩ hok hstep => ?_)
      ⟨sound_init, ⟨by simp [Session.init], by simp [Session.init], by simp [Session.init]⟩⟩
    exact ⟨hs.step hstep, h.step hs hok hstep⟩
  have htarget : OnTarget s := hboth.2
  refine ⟨htarget, hsound.order, fun hopen t task htask hnot => ?_, fun hopen hrest k hk => ?_,
    fun hopen p hfair k hk => served_of_fair hsound hopen p hfair hk⟩
  · have hcancelling : task.cancelling = false := by
      by_contra hset
      obtain ⟨target, htarget'⟩ := hsound.caller hopen t task htask (by simpa using hset)
      have hsame : t = target := htarget.cancels _ htarget'
      exact hnot (hsame ▸ htarget')
    refine ⟨hcancelling, fun hpoint => ?_⟩
    rw [hsound.cancelled t task htask hpoint] at hcancelling
    cases hcancelling
  · by_contra hmissed
    obtain ⟨a, t, htask, hstep⟩ := hsound.enabled hopen hk hmissed
    rw [hrest a htask] at hstep
    cases hstep

/-- Two utterances, and a `response.cancel` for the first turn. The abort returns while this turn is
being run. -/
def cancelledInTime : List (Action ℕ) :=
  [.commit 7, .drain, .work 0 false, .commit 8, .cancel, .abortReturned, .work 0 false, .drain]

theorem turns_of_run_cancelled : ∃ s, Run step Undisturbed (Session.init ℕ) cancelledInTime s ∧
    s.cancels = [(0, 0)] ∧ s.activeTask = some 1 ∧ Kept s := by
  have hrun := run_of_isSome_guarded (step (U := ℕ)) Undisturbed (Session.init ℕ) cancelledInTime
    (by decide +kernel)
  exact ⟨_, hrun, by decide +kernel, by decide +kernel, turns_of_run hrun⟩

/-- The first turn ends by itself while `client.abort` is awaited. Then either the drainer has
cleared the active task, and the handler raises, or it has gone on, and the second turn is
cancelled by the event that was received for the first. -/
theorem cancel_missed_target :
    (∃ s, Reachable step (Session.init ℕ) s ∧ s.handler = .raised) ∧
      ∃ s, Reachable step (Session.init ℕ) s ∧ (0, 1) ∈ s.cancels := by
  have hfirst := run_of_isSome (step (U := ℕ)) (Session.init ℕ)
    [.commit 7, .drain, .work 0 false, .work 0 false, .cancel, .work 0 false, .drain,
      .abortReturned] (by decide +kernel)
  have hsecond := run_of_isSome (step (U := ℕ)) (Session.init ℕ)
    [.commit 7, .commit 8, .drain, .work 0 false, .work 0 false, .cancel, .work 0 false, .drain,
      .abortReturned] (by decide +kernel)
  exact ⟨⟨_, ⟨_, hfirst⟩, by decide +kernel⟩, ⟨_, ⟨_, hsecond⟩, by decide +kernel⟩⟩

end Main

end Omni.Realtime
