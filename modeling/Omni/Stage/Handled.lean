import Omni.Stage.Log

/-!
# How an item is handled

A handler that has its item, in a receive task or in a local call, passes over it, drops its
error, delivers it or fails its request.
-/

namespace Omni.Stage

open State

variable {V : Type} {cfg : Config V} {s s' : State V} {m : Option ℕ} {r f text : String}
  {merge : Merge V}

/-- The item that a message brings. -/
def DataReadyMessage.item (msg : DataReadyMessage V) : Option (Item V) :=
  match msg.handler with
  | .streamSignal => if msg.isDone then some .done else none
  | .streamChunk => msg.dataRef.map fun ref => .chunk (msg.chunkId.getD 0) ref.value
  | .dataReady => msg.dataRef.map fun ref => .payload ref.value

/-- The error of the item of a task: what was raised for it, or what a signal says. -/
def ReceiveTask.error (task : ReceiveTask V) : Option String :=
  match task.msg.handler with
  | .streamSignal => task.msg.error.filter (· ≠ "")
  | _ => task.exc.map task.msg.failure

/-- The tasks after a change of the given one. -/
def State.tasksAfter (s : State V) (m : Option ℕ) (change : ReceiveTask V → ReceiveTask V) :
    List (ReceiveTask V) :=
  match m with
  | some i => s.receiveTasks.modify i change
  | none => s.receiveTasks

/-- How an item is handled: `error` is what went wrong with it before. -/
inductive Handled (m : Option ℕ) (r f : String) (item : Option (Item V)) (error : Option String)
    (s s' : State V) : Prop
  /-- The request is in `_aborted`, or there is no item. -/
  | passed : error = none → (r ∈ s.abortedIds ∨ item = none) → s'.log = s.log →
      s'.receiveTasks = s.tasksAfter m (fun task => { task with pc := .ending }) →
      Handled m r f item error s s'
  /-- The request is in `_aborted`. -/
  | dropped {text : String} : error = some text → r ∈ s.abortedIds →
      s'.log = s.log ++ [.dropped m r text] →
      s'.receiveTasks = s.tasksAfter m (fun task => { task with pc := .ending }) →
      Handled m r f item error s s'
  /-- The handler may raise after it has delivered the item. -/
  | delivered {it : Item V} (executed : List V) (raised : Option String) : error = none →
      item = some it → r ∉ s.abortedIds →
      s'.log = s.log ++ [.delivered m r f it] ++ executed.map (.executed r) →
      s'.receiveTasks = s.tasksAfter m
        (fun task => { task with pc := .ending, raised := raised.or task.raised }) →
      Handled m r f item error s s'
  | failed {text : String} (told gone : List String) :
      (∀ e, error = some e → text = e) →
      s'.log = s.log ++ told.map .schedulerAborted ++ [.failed m r text] ++ gone.map .forgotten →
      s'.receiveTasks = s.tasksAfter m (fun task => { task with pc := .reporting }) →
      Handled m r f item error s s'

variable {error : Option String} {item : Option (Item V)}

/-- What was done before, to fields that do not matter here, may be left out. -/
theorem Handled.after {s₀ : State V} (h : Handled m r f item error s s')
    (hids : s.abortedIds = s₀.abortedIds) (hlog : s.log = s₀.log)
    (htasks : s.receiveTasks = s₀.receiveTasks) :
    Handled m r f item error s₀ s' := by
  have hafter : s.tasksAfter m = s₀.tasksAfter m := by
    unfold tasksAfter
    rw [htasks]
  cases h with
  | passed herr hwhy hnew htask =>
    exact .passed herr (hids ▸ hwhy) (hlog ▸ hnew) (hafter ▸ htask)
  | dropped herr hr hnew htask => exact .dropped herr (hids ▸ hr) (hlog ▸ hnew) (hafter ▸ htask)
  | delivered executed raised herr hitem hr hnew htask =>
    exact .delivered executed raised herr hitem (hids ▸ hr) (hlog ▸ hnew) (hafter ▸ htask)
  | failed told gone herr hnew htask => exact .failed told gone herr (hlog ▸ hnew) (hafter ▸ htask)

/-- The tasks when a handler returns. -/
theorem State.leave_receiveTasks :
    (s.leave m).receiveTasks = s.tasksAfter m fun task => { task with pc := .ending } := by
  cases m <;> rfl

/-- A handler that returns leaves the log alone. -/
theorem State.leave_log : (s.leave m).log = s.log := by cases m <;> rfl

/-- `_send_failure`, after what the scheduler was told. -/
theorem handled_sendFailure (herr : ∀ e, error = some e → text = e) :
    Handled m r f item error s (s.sendFailure cfg m r text) := by
  refine .failed [] (evicted cfg (s.abortedIds.insert r)) herr ?_ ?_
  · cases m <;> simp [sendFailure, beginFailure, recordAborted, record,
      setPc]
  · cases m <;> rfl

theorem handled_abortFailure (herr : ∀ e, error = some e → text = e) :
    Handled m r f item error s ((s.record (.schedulerAborted r)).sendFailure cfg m r text) := by
  refine .failed [r] (evicted cfg (s.abortedIds.insert r)) herr ?_ ?_
  · cases m <;> simp [sendFailure, beginFailure, recordAborted, record,
      setPc]
  · cases m <;> rfl

theorem handled_queueStreamError :
    Handled m r f item (some text) s (s.queueStreamError cfg m r text) := by
  unfold queueStreamError
  split
  case isTrue hr => exact .dropped rfl hr leave_log leave_receiveTasks
  case isFalse => exact handled_abortFailure (by simp)

theorem handled_receivePayloadFromStage {payload : V} :
    Handled m r f (some (.payload payload)) none s
      (s.receivePayloadFromStage cfg m r f payload merge) := by
  unfold receivePayloadFromStage
  split
  case isTrue hr => exact .passed rfl (.inl hr) leave_log leave_receiveTasks
  case isFalse hr =>
    cases merge.merged with
    | error text =>
      refine .delivered [] (some text) rfl rfl hr ?_ ?_
      · cases m <;> simp [State.throw, State.raise, State.inputReceive, State.record,
          openStreamQueue, activate]
      · cases m <;> rfl
    | ok merged =>
      cases merged with
      | none =>
        refine .delivered [] none rfl rfl hr ?_ ?_
        · simp [leave_log, inputReceive, record, openStreamQueue,
            activate]
        · exact leave_receiveTasks.trans (by cases m <;> rfl)
      | some value =>
        refine .delivered [value] none rfl rfl hr ?_ ?_
        · simp [leave_log, execute, inputReceive, record,
            openStreamQueue, activate]
        · exact leave_receiveTasks.trans (by cases m <;> rfl)

theorem openPrePayloadStream_same :
    (s.openPrePayloadStreamIfAllowed cfg r).1.abortedIds = s.abortedIds ∧
      (s.openPrePayloadStreamIfAllowed cfg r).1.log = s.log ∧
      (s.openPrePayloadStreamIfAllowed cfg r).1.receiveTasks = s.receiveTasks := by
  unfold openPrePayloadStreamIfAllowed
  repeat' split
  all_goals exact ⟨rfl, rfl, rfl⟩

theorem handled_routeStreamItemOrFail {item : Item V} (hr : r ∉ s.abortedIds) :
    Handled m r f (some item) none s (s.routeStreamItemOrFail cfg m r f item text) := by
  obtain ⟨hids, hlog, htasks⟩ := @openPrePayloadStream_same V cfg s r
  unfold routeStreamItemOrFail
  dsimp only
  split
  · refine Handled.after (.delivered [] none rfl rfl (hids ▸ hr) ?_ ?_)
      hids hlog htasks
    · simp [leave_log, record]
    · exact leave_receiveTasks.trans (by cases m <;> rfl)
  · exact (handled_abortFailure (by simp)).after hids hlog htasks

/-- The end of the handlers of a chunk. -/
theorem handled_receiveStreamChunk {chunkId : ℕ} {data : V} :
    Handled m r f (some (.chunk chunkId data)) none s
      (s.receiveStreamChunk cfg m r f chunkId data) := by
  unfold receiveStreamChunk
  split
  case isTrue hr => exact .passed rfl (.inl hr) leave_log leave_receiveTasks
  case isFalse hr => exact handled_routeStreamItemOrFail hr

theorem handled_receiveStreamSignal {isDone : Bool} :
    Handled m r f (if isDone then some .done else none) (error.filter (· ≠ "")) s
      (s.receiveStreamSignal cfg m r f isDone error) := by
  unfold receiveStreamSignal
  by_cases hr : r ∈ s.abortedIds
  · rw [if_pos hr]
    cases error.filter (· ≠ "") with
    | some text => exact .dropped rfl hr leave_log leave_receiveTasks
    | none => exact .passed rfl (.inl hr) leave_log leave_receiveTasks
  · rw [if_neg hr]
    cases error.filter (· ≠ "") with
    | some text => exact handled_queueStreamError.after rfl rfl rfl
    | none =>
      cases isDone with
      | true => exact (handled_routeStreamItemOrFail (by exact hr)).after rfl rfl rfl
      | false =>
        have hleft : Handled m r f none none (s.activate r) ((s.activate r).leave m) :=
          .passed rfl (.inr rfl) leave_log leave_receiveTasks
        exact hleft.after rfl rfl rfl

theorem handled_takeTurn {i : ℕ} {task : ReceiveTask V} :
    Handled (some i) task.msg.requestId task.msg.fromStage task.msg.item task.error s
      (s.takeTurn cfg i task merge) := by
  unfold takeTurn DataReadyMessage.item ReceiveTask.error
  cases task.msg.handler with
  | streamSignal => exact handled_receiveStreamSignal
  | streamChunk =>
    cases task.exc with
    | some exc => exact handled_queueStreamError
    | none =>
      cases task.msg.dataRef with
      | some ref => exact handled_receiveStreamChunk
      | none => exact .passed rfl (.inr rfl) rfl rfl
  | dataReady =>
    cases task.exc with
    | some exc => exact handled_sendFailure (by simp)
    | none =>
      cases task.msg.dataRef with
      | some ref => exact handled_receivePayloadFromStage
      | none => exact .passed rfl (.inr rfl) rfl rfl

end Omni.Stage
