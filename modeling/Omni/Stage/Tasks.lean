import Omni.Library.Lanes
import Omni.Stage.Handled

/-!
# The life of a receive task

What one step of a receive task does to it, and what the log says of it.
-/

namespace Omni.Stage

open Function State ReceivePc List Option

variable {V : Type} {cfg : Config V} {s s' : State V} {i j : ℕ} {task : ReceiveTask V}
  {log : List (Entry V)} {exc raised : Option String}

/-- The lane of a task. -/
def ReceiveTask.lane (task : ReceiveTask V) : String × String :=
  (task.msg.requestId, task.msg.fromStage)

/-- A receive task as a task of its lane. -/
def ReceiveTask.inLane (task : ReceiveTask V) : Lanes.Task (String × String) :=
  ⟨task.lane, task.predecessor, decide (task.pc = .ended)⟩

/-- The receive tasks of a stage and the tails of its lanes. -/
def State.board (s : State V) : Lanes.Board (String × String) where
  tasks := s.receiveTasks.map ReceiveTask.inLane
  tails k := s.receiveLaneTails k.1 k.2

/-- A change of one tail, for lanes given as pairs. -/
theorem update_lane {g : String → String → Option ℕ} {r f : String} {v : Option ℕ} :
    (fun k : String × String => update g r (update (g r) f v) k.1 k.2) =
      update (fun k => g k.1 k.2) (r, f) v := by
  funext ⟨r', f'⟩
  by_cases hr : r' = r
  · subst hr
    by_cases hf : f' = f <;> simp [hf]
  · simp [hr]

theorem board_scheduleReceiveTask {msg : DataReadyMessage V} :
    (s.scheduleReceiveTask msg).board = s.board.schedule (msg.requestId, msg.fromStage) := by
  unfold board scheduleReceiveTask Lanes.Board.schedule
  congr 1
  · simp [ReceiveTask.inLane, ReceiveTask.lane]
  · simpa using update_lane

/-- The tasks after one went on to another await. -/
theorem setPc_getElem? {pc : ReceivePc} : (s.setPc i pc).receiveTasks[j]? =
    (s.receiveTasks[j]?).map fun task => if i = j then { task with pc := pc } else task := by
  unfold setPc
  rw [getElem?_modify]
  rfl

theorem finishTask_receiveTasks :
    (s.finishTask i task).receiveTasks = (s.setPc i .ended).receiveTasks := by
  unfold finishTask
  dsimp only
  repeat' split
  all_goals rfl

/-- The `finally` of `_run_receive_task` ends a task of its lane. -/
theorem board_finishTask :
    (s.finishTask i task).board = s.board.finish i task.lane := by
  have htails : (s.finishTask i task).receiveLaneTails =
      if s.receiveLaneTails task.msg.requestId task.msg.fromStage = some i then
        update s.receiveLaneTails task.msg.requestId
          (update (s.receiveLaneTails task.msg.requestId) task.msg.fromStage none)
      else s.receiveLaneTails := by
    unfold finishTask
    dsimp only
    repeat' split
    all_goals first | rfl | simp_all [setPc]
  unfold board Lanes.Board.finish
  rw [finishTask_receiveTasks, htails]
  congr 1
  · unfold setPc
    apply ext_getElem?
    intro n
    simp only [getElem?_map, getElem?_modify, Functor.map]
    cases s.receiveTasks[n]? with
    | none => rfl
    | some other => by_cases hn : i = n <;> simp [ReceiveTask.inLane, ReceiveTask.lane, hn]
  · by_cases htail : s.receiveLaneTails task.msg.requestId task.msg.fromStage = some i
    · rw [if_pos htail, if_pos (by exact htail)]
      exact update_lane
    · rw [if_neg htail, if_neg (by exact htail)]

theorem board_inLane (htask : s.receiveTasks[i]? = some task) : s.board.InLane task.lane i :=
  ⟨task.inLane, by simp [board, htask], rfl⟩

theorem board_done (htask : s.receiveTasks[i]? = some task) :
    s.board.Done i ↔ task.pc = .ended := by
  unfold Lanes.Board.Done board
  simp [htask, ReceiveTask.inLane]

/-- The completion future of a task is done when it has ended. -/
theorem taskDone_iff : s.taskDone i = true ↔ s.board.Done i := by
  unfold taskDone
  cases htask : s.receiveTasks[i]? with
  | none => simp [Lanes.Board.Done, board, htask]
  | some task => simp [board_done htask]

theorem board_ready (htask : s.receiveTasks[i]? = some task) :
    s.board.Ready i ↔ s.predecessorDone task = true := by
  unfold predecessorDone
  rw [Option.all_eq_true]
  simp only [taskDone_iff, Lanes.Board.Ready]
  constructor
  · intro h p hp
    exact h task.inLane (by simp [board, htask]) p hp
  · intro h t ht p hp
    obtain rfl : task.inLane = t := by simpa [board, htask] using ht
    exact h p hp

/-- Steps that keep message, predecessor and end of every task keep the board. -/
theorem board_eq (hlength : s'.receiveTasks.length = s.receiveTasks.length)
    (htails : s'.receiveLaneTails = s.receiveLaneTails)
    (hkept : ∀ (j : ℕ) (task : ReceiveTask V), s.receiveTasks[j]? = some task →
      ∃ task' : ReceiveTask V, s'.receiveTasks[j]? = some task' ∧ task'.inLane =
    task.inLane) : s'.board = s.board := by
  unfold board
  congr 1
  · apply ext_getElem?
    intro n
    simp only [getElem?_map]
    cases htask : s.receiveTasks[n]? with
    | some task =>
      obtain ⟨task', htask', hsame⟩ := hkept n task htask
      simp [htask', hsame]
    | none =>
      rw [getElem?_eq_none_iff, ← hlength, ← getElem?_eq_none_iff] at htask
      simp [htask]
  · rw [htails]

/-- What a receive task delivered: its number, its lane and the item. -/
def Entry.delivery : Entry V → Option (ℕ × (String × String) × Item V)
  | .delivered (some i) requestId fromStage item => some (i, (requestId, fromStage), item)
  | _ => none

/-- What the receive tasks delivered. -/
def State.deliveries (s : State V) : List (ℕ × (String × String) × Item V) :=
  s.log.filterMap Entry.delivery

/-- Entries that no task made are no deliveries of tasks. -/
theorem delivery_eq_none {entry : Entry V} (h : entry.maker = none) : entry.delivery = none := by
  cases entry with
  | delivered m r f item =>
    obtain rfl : m = none := h
    rfl
  | _ => rfl

/-- Steps that no task makes deliver nothing for tasks. -/
theorem Logs.deliveries_eq (h : Logs none s s') : s'.deliveries = s.deliveries := by
  obtain ⟨new, hnew, hmaker⟩ := h.log
  have hnone : new.filterMap Entry.delivery = [] :=
    filterMap_eq_nil_iff.mpr fun entry hentry =>
      delivery_eq_none (by simpa using hmaker entry hentry)
  rw [deliveries, hnew, filterMap_append, hnone, append_nil, deliveries]

/-- How much of a task is left. -/
def ReceivePc.rank : ReceivePc → ℕ
  | .created => 6
  | .reading | .discarding => 5
  | .acking | .discardAcking => 4
  | .waiting => 3
  | .reporting => 2
  | .ending => 1
  | .ended => 0

/-- What the log says of an error of task `i`: it was reported, or it was dropped. -/
def Settled (log : List (Entry V)) (i : ℕ) (r error : String) : Prop :=
  (.failed (some i) r error ∈ log ∧ .reported (some i) r ∈ log) ∨ .dropped (some i) r error ∈ log

/-- What is known of task `i` wherever it is suspended. -/
structure TaskOk (log : List (Entry V)) (i : ℕ) (task : ReceiveTask V) : Prop where
  /-- Nothing went wrong before the read. -/
  fresh : task.pc ∈ [.created, .reading, .discarding, .discardAcking] → task.exc = none
  /-- Signals have nothing to read. -/
  reads : task.pc ∈ [.reading, .acking, .discarding, .discardAcking] →
    task.msg.handler ≠ .streamSignal
  discards : task.pc ∈ [.discarding, .discardAcking] → Spoiled log task.msg.requestId
  reporting : task.pc = .reporting → Spoiled log task.msg.requestId ∧ ∀ error,
    task.error = some error → .failed (some i) task.msg.requestId error ∈ log
  /-- An item is passed over only if its request has failed or was aborted. -/
  kept : task.pc ∈ [.ending, .ended] → task.raised = none → ∀ item, task.msg.item = some item →
    .delivered (some i) task.msg.requestId task.msg.fromStage item ∈ log ∨
      Spoiled log task.msg.requestId
  settled : task.pc ∈ [.ending, .ended] → task.raised = none → ∀ error,
    task.error = some error → Settled log i task.msg.requestId error

/-- Before the read of an item nothing is wrong with it. -/
theorem TaskOk.error_eq_none (h : TaskOk log i task) (hread : task.msg.handler ≠ .streamSignal)
    (hpc : task.pc ∈ [.created, .reading, .discarding, .discardAcking]) : task.error = none := by
  unfold ReceiveTask.error
  split
  · exact absurd ‹_› hread
  · rw [h.fresh hpc, map_none]

/-- What one step of task `i` does, unless it ends it. -/
structure TaskStep (s s' : State V) (i : ℕ) (task task' : ReceiveTask V) : Prop where
  before : s.receiveTasks[i]? = some task
  after : s'.receiveTasks[i]? = some task'
  msg : task'.msg = task.msg
  predecessor : task'.predecessor = task.predecessor
  rank : task'.pc.rank < task.pc.rank
  notEnded : task'.pc ≠ .ended
  deliveries : s'.deliveries = s.deliveries ∨
    ∃ item, s'.deliveries = s.deliveries ++ [(i, task.lane, item)] ∧ task.pc = .waiting ∧
      s.predecessorDone task = true ∧ task'.pc = .ending ∧ task.msg.item = some item ∧
      task.error = none ∧ task.msg.requestId ∉ s.abortedIds
  ok : LogOk s → TaskOk s.log i task → TaskOk s'.log i task'

theorem TaskStep.of_modify {change : ReceiveTask V → ReceiveTask V}
    (hbefore : s.receiveTasks[i]? = some task) (hlog : s'.log = s.log)
    (htasks : s'.receiveTasks = s.receiveTasks.modify i change)
    (hrank : (change task).pc.rank < task.pc.rank ∧ (change task).pc ≠ .ended)
    (hsame : (change task).msg = task.msg ∧ (change task).predecessor = task.predecessor)
    (hok : LogOk s → TaskOk s.log i task → TaskOk s.log i (change task)) :
    TaskStep s s' i task (change task) where
  before := hbefore
  after := by simp [htasks, hbefore]
  msg := hsame.1
  predecessor := hsame.2
  rank := hrank.1
  notEnded := hrank.2
  deliveries := .inl (by rw [State.deliveries, hlog, State.deliveries])
  ok := by rwa [hlog]

/-- What was done before, to fields that do not matter here, may be left out. -/
theorem TaskStep.of_same {s₀ : State V} {task' : ReceiveTask V} (h : TaskStep s s' i task task')
    (hids : s.abortedIds = s₀.abortedIds) (hlog : s.log = s₀.log)
    (htasks : s.receiveTasks = s₀.receiveTasks) : TaskStep s₀ s' i task task' := { h with
  before := htasks ▸ h.before
  deliveries := by
    have hdone : s.predecessorDone task = s₀.predecessorDone task := by
      unfold predecessorDone taskDone
      rw [htasks]
    have hsame : s.deliveries = s₀.deliveries := by rw [State.deliveries, hlog, State.deliveries]
    rw [← hids, ← hdone, ← hsame]
    exact h.deliveries
  ok hs := hlog ▸ h.ok ⟨by rw [hids, hlog]; exact hs.ids, hlog ▸ hs.fits⟩ }

/-- A task that goes on before its turn. -/
theorem taskOk_moved {pc : ReceivePc} (hpc : pc ∉ [.created, .reporting, .ending, .ended])
    (hexc : pc ∈ [.reading, .discarding, .discardAcking] → exc = none)
    (hread : pc ∈ [.reading, .acking, .discarding, .discardAcking] →
      task.msg.handler ≠ .streamSignal)
    (hdiscard : pc ∈ [.discarding, .discardAcking] → Spoiled log task.msg.requestId) :
    TaskOk log i { task with pc := pc, exc := exc } where
  fresh h := hexc (by simp at h hpc ⊢; tauto)
  reads := hread
  discards := hdiscard
  reporting h := absurd h (by simp at hpc; exact hpc.2.1)
  kept h := absurd h (by simp at hpc ⊢; exact ⟨hpc.2.2.1, hpc.2.2.2⟩)
  settled h := absurd h (by simp at hpc ⊢; exact ⟨hpc.2.2.1, hpc.2.2.2⟩)

theorem taskOk_raised {error : String} :
    TaskOk log i { task with pc := .ending, raised := some error } where
  fresh h := by simp at h
  reads h := by simp at h
  discards h := by simp at h
  reporting h := by simp at h
  kept _ h := by simp at h
  settled _ h := by simp at h

theorem TaskStep.of_raised {error : String} (hbefore : s.receiveTasks[i]? = some task)
    (hlog : s'.log = s.log) (htasks : s'.receiveTasks = s.receiveTasks.modify i fun task =>
      { task with pc := .ending, raised := some error }) (hrank : 1 < task.pc.rank) :
    TaskStep s s' i task { task with pc := .ending, raised := some error } :=
  .of_modify hbefore hlog htasks ⟨hrank, nofun⟩ ⟨rfl, rfl⟩ fun _ _ => taskOk_raised

/-- A task that has discarded its data. -/
theorem taskOk_left (herror : task.error = none) (hspoiled : Spoiled log task.msg.requestId) :
    TaskOk log i { task with pc := .ending } where
  fresh h := by simp at h
  reads h := by simp at h
  discards h := by simp at h
  reporting h := by simp at h
  kept _ _ _ _ := .inr hspoiled
  settled _ _ error h := by
    have hsome : task.error = some error := h
    simp [herror] at hsome

theorem taskStep_startRead (hbefore : s.receiveTasks[i]? = some task) (hpc : task.pc = .created)
    (hread : task.msg.handler ≠ .streamSignal) :
    ∃ task', TaskStep s (s.startRead i task exc) i task task' := by
  unfold startRead
  split
  · split
    · exact ⟨_, .of_modify hbefore rfl rfl (by simp [hpc, rank]) ⟨rfl, rfl⟩
        fun _ _ => taskOk_moved (by simp) (by simp) (by simp) (by simp)⟩
    · split
      · exact ⟨_, .of_raised hbefore rfl rfl (by simp [hpc, rank])⟩
      · exact ⟨_, .of_modify hbefore rfl rfl (by simp [hpc, rank]) ⟨rfl, rfl⟩
          fun _ h => taskOk_moved (by simp) (fun _ => h.fresh (by simp [hpc])) (fun _ => hread)
            (by simp)⟩
  · exact ⟨_, .of_raised hbefore rfl rfl (by simp [hpc, rank])⟩

theorem taskStep_startDiscard (hbefore : s.receiveTasks[i]? = some task) (hpc : task.pc = .created)
    (hread : task.msg.handler ≠ .streamSignal) (hr : task.msg.requestId ∈ s.abortedIds) :
    ∃ task', TaskStep s (s.startDiscard i task exc) i task task' := by
  unfold startDiscard
  split
  · exact ⟨_, .of_raised hbefore rfl rfl (by simp [hpc, rank])⟩
  · split
    · refine ⟨_, .of_modify hbefore rfl rfl (by simp [hpc, rank]) ⟨rfl, rfl⟩
        fun hs h => taskOk_left ?_ (hs.spoiled hr)⟩
      exact h.error_eq_none hread (by simp [hpc])
    · exact ⟨_, .of_modify hbefore rfl rfl (by simp [hpc, rank]) ⟨rfl, rfl⟩
        fun hs h => taskOk_moved (by simp) (fun _ => h.fresh (by simp [hpc])) (fun _ => hread)
          (fun _ => hs.spoiled hr)⟩
  · exact ⟨_, .of_raised hbefore rfl rfl (by simp [hpc, rank])⟩

theorem taskStep_startReceive (h : s.startReceive cfg i exc = some s') :
    ∃ task task', TaskStep s s' i task task' := by
  obtain ⟨task, hbefore, hpc, rfl⟩ := resume_eq_some.mp h
  refine ⟨task, ?_⟩
  cases hhandler : task.msg.handler with
  | streamSignal =>
    exact ⟨_, .of_modify hbefore rfl rfl (by simp [hpc, rank]) ⟨rfl, rfl⟩
      fun _ _ => taskOk_moved (by simp) (by simp) (by simp) (by simp)⟩
  | streamChunk =>
    have hread : task.msg.handler ≠ .streamSignal := by simp [hhandler]
    dsimp only
    split
    case isTrue hr => exact taskStep_startDiscard hbefore hpc hread hr
    · obtain ⟨task', hstep⟩ := @taskStep_startRead _ (s.activate task.msg.requestId) _ _ exc
        hbefore hpc hread
      exact ⟨task', hstep.of_same rfl rfl rfl⟩
  | dataReady =>
    have hread : task.msg.handler ≠ .streamSignal := by simp [hhandler]
    dsimp only
    split
    case isTrue hr => exact taskStep_startDiscard hbefore hpc hread hr
    · obtain ⟨task', hstep⟩ := @taskStep_startRead _
        ((s.activate task.msg.requestId).openStreamQueue cfg task.msg.requestId) _ _ exc
        hbefore hpc hread
      exact ⟨task', hstep.of_same rfl rfl rfl⟩

theorem taskStep_readDone (h : s.readDone cfg i exc = some s') :
    ∃ task task', TaskStep s s' i task task' := by
  obtain ⟨task, hbefore, hpc, rfl⟩ := resume_eq_some.mp h
  refine ⟨task, ?_⟩
  unfold sendDataAck
  split
  · exact ⟨_, .of_modify hbefore rfl rfl (by simp [hpc, rank]) ⟨rfl, rfl⟩
      fun _ h => taskOk_moved (by simp) (by simp) (fun _ => h.reads (by simp [hpc])) (by simp)⟩
  · exact ⟨_, .of_raised hbefore rfl rfl (by simp [hpc, rank])⟩

theorem taskStep_discardRead (h : s.discardRead cfg i = some s') :
    ∃ task task', TaskStep s s' i task task' := by
  obtain ⟨task, hbefore, hpc, rfl⟩ := resume_eq_some.mp h
  refine ⟨task, ?_⟩
  unfold sendDataAck
  split
  · exact ⟨_, .of_modify hbefore rfl rfl (by simp [hpc, rank]) ⟨rfl, rfl⟩
      fun _ h => taskOk_moved (by simp) (by simp) (fun _ => h.reads (by simp [hpc]))
        (fun _ => h.discards (by simp [hpc]))⟩
  · exact ⟨_, .of_raised hbefore rfl rfl (by simp [hpc, rank])⟩

theorem taskStep_ackSent (h : s.ackSent i raised = some s') :
    ∃ task task', TaskStep s s' i task task' := by
  obtain ⟨task, hbefore, hpc, rfl⟩ := resume_eq_some.mp h
  refine ⟨task, ?_⟩
  cases raised with
  | none =>
    exact ⟨_, .of_modify hbefore rfl rfl (by simp [hpc, rank]) ⟨rfl, rfl⟩
      fun _ _ => taskOk_moved (by simp) (by simp) (by simp) (by simp)⟩
  | some error =>
    exact ⟨_, .of_raised hbefore rfl rfl (by simp [hpc, rank])⟩

theorem taskStep_discardAckSent (h : s.discardAckSent i raised = some s') :
    ∃ task task', TaskStep s s' i task task' := by
  obtain ⟨task, hbefore, hpc, rfl⟩ := resume_eq_some.mp h
  refine ⟨task, ?_⟩
  cases raised with
  | none =>
    exact ⟨_, .of_modify hbefore rfl rfl (by simp [hpc, rank]) ⟨rfl, rfl⟩
      fun _ h => taskOk_left (h.error_eq_none (h.reads (by simp [hpc])) (by simp [hpc]))
        (h.discards (by simp [hpc]))⟩
  | some error =>
    exact ⟨_, .of_raised hbefore rfl rfl (by simp [hpc, rank])⟩

theorem taskStep_taskFailureSent (h : s.taskFailureSent i raised = some s') :
    ∃ task task', TaskStep s s' i task task' := by
  obtain ⟨task, hbefore, hpc, rfl⟩ := resume_eq_some.mp h
  refine ⟨task, ?_⟩
  cases raised with
  | none =>
    refine ⟨{ task with pc := .ending }, hbefore, ?_, rfl, rfl, by simp [hpc, rank],
      by simp, .inl ?_, fun _ h => ⟨by simp, by simp, by simp, by simp,
        fun _ _ item _ => .inr ((h.reporting hpc).1.append _), fun _ _ error herror => ?_⟩⟩
    · simp [leave, setPc, failureSent, record, clearRequestState,
        hbefore]
    · simp [deliveries, leave, setPc, failureSent, record,
        clearRequestState, Entry.delivery]
    · have hfailed := (h.reporting hpc).2 error herror
      exact .inl ⟨mem_append_left _ hfailed, mem_append_right _ (mem_singleton.mpr rfl)⟩
  | some error =>
    exact ⟨_, .of_raised hbefore rfl rfl (by simp [hpc, rank])⟩

theorem taskStep_turn {merge : Merge V} (h : s.turn cfg i merge = some s') :
    ∃ task task', TaskStep s s' i task task' := by
  obtain ⟨task, hbefore, hpc, hready, rfl⟩ := resumeInTurn_eq_some.mp h
  refine ⟨task, ?_⟩
  have hafter {change : ReceiveTask V → ReceiveTask V} {t : State V}
      (htasks : t.receiveTasks = s.tasksAfter (some i) change) :
      t.receiveTasks[i]? = some (change task) := by
    simp [htasks, tasksAfter, hbefore]
  have hnone {log : List (Entry V)} {raised : Option String} (herror : task.error = none)
      (hkept : ∀ item, task.msg.item = some item →
        .delivered (some i) task.msg.requestId task.msg.fromStage item ∈ log ∨
          Spoiled log task.msg.requestId) :
      TaskOk log i { task with pc := .ending, raised := raised } :=
    ⟨by simp, by simp, by simp, by simp, fun _ _ => hkept, fun _ _ error h => by
      have hsome : task.error = some error := h
      simp [herror] at hsome⟩
  have hhandled : Handled (some i) task.msg.requestId task.msg.fromStage task.msg.item task.error s
      (s.takeTurn cfg i task merge) := handled_takeTurn
  cases hhandled with
  | passed herror hwhy hlog htasks =>
    refine ⟨_, hbefore, hafter htasks, rfl, rfl, by simp [hpc, rank], by simp,
      .inl (by rw [deliveries, hlog, deliveries]), fun hs _ => hnone herror ?_⟩
    intro item hitem
    rcases hwhy with hr | hno
    · exact .inr (hlog ▸ hs.spoiled hr)
    · simp [hno] at hitem
  | @dropped text herror hr hlog htasks =>
    refine ⟨_, hbefore, hafter htasks, rfl, rfl, by simp [hpc, rank], by simp,
      .inl ?_, fun hs _ => ⟨by simp, by simp, by simp, by simp, fun _ _ _ _ => .inr ?_,
        fun _ _ error h => ?_⟩⟩
    · simp [deliveries, hlog, Entry.delivery]
    · exact hlog ▸ (hs.spoiled hr).append _
    · obtain rfl : text = error := some.inj (herror.symm.trans h)
      exact .inr (by simp [hlog])
  | @delivered item executed raised herror hitem hr hlog htasks =>
    refine ⟨_, hbefore, hafter htasks, rfl, rfl, by simp [hpc, rank], by simp,
      .inr ⟨item, ?_, hpc, hready, rfl, hitem, herror, hr⟩, fun _ _ => hnone herror ?_⟩
    · have hexecuted : (executed.map (Entry.executed task.msg.requestId)).filterMap
          Entry.delivery = [] := by
        simp [filterMap_map, comp_def, Entry.delivery]
      simp [deliveries, hlog, filterMap_append, hexecuted, Entry.delivery, ReceiveTask.lane]
    · intro item' hitem'
      obtain rfl : item = item' := some.inj (hitem.symm.trans hitem')
      exact .inl (by simp [hlog])
  | @failed text told gone herror hlog htasks =>
    refine ⟨_, hbefore, hafter htasks, rfl, rfl, by simp [hpc, rank], by simp,
      .inl ?_, fun _ _ => ⟨by simp, by simp, by simp, fun _ => ⟨.inl ⟨some i, text, ?_⟩,
        fun error h => ?_⟩, by simp, by simp⟩⟩
    · simp [deliveries, hlog, filterMap_append, filterMap_map, comp_def,
        Entry.delivery]
    · simp [hlog]
    · obtain rfl := herror error h
      simp [hlog]

/-- **One step of a task.** -/
theorem step_task {a : Action V} (h : step cfg s a = some s') (hi : a.task = some i)
    (hfinish : a ≠ .finish i) : ∃ task task', TaskStep s s' i task task' := by
  cases a with
  | startReceive j exc => exact some.inj hi ▸ taskStep_startReceive h
  | readDone j exc => exact some.inj hi ▸ taskStep_readDone h
  | discardRead j => exact some.inj hi ▸ taskStep_discardRead h
  | ackSent j raised => exact some.inj hi ▸ taskStep_ackSent h
  | discardAckSent j raised => exact some.inj hi ▸ taskStep_discardAckSent h
  | turn j merge => exact some.inj hi ▸ taskStep_turn h
  | taskFailureSent j raised => exact some.inj hi ▸ taskStep_taskFailureSent h
  | finish j =>
    obtain rfl : j = i := some.inj hi
    exact absurd rfl hfinish
  | _ => simp [Action.task] at hi

end Omni.Stage
