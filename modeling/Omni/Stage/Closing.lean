import Omni.Stage.Abort
import Omni.Stage.Tasks

/-!
# What closes a stage

`_on_background_task_done` closes the stage when a task raises. No step opens it again, an outbox
drain that has crashed has closed it, and what a task has raised is not forgotten until the task
ends.
-/

namespace Omni.Stage

open State Option

variable {V : Type} {cfg : Config V} {s s' : State V} {error : String} {i k : ℕ}
  {task : ReceiveTask V} {a : Action V}

/-- What the steps of a watcher leave alone. -/
theorem step_watcher (h : step cfg s a = some s') (hwatcher : a.watcher = some k) :
    (Closed s → Closed s') ∧ s'.drain = s.drain ∧
      (∀ j, j ≠ k → s'.pending[j]? = s.pending[j]?) := by
  cases a with
  | ackTransfer j error =>
    obtain rfl : j = k := some.inj hwatcher
    simp only [step, receive_eq_some] at h
    obtain ⟨transfer, -, -, rfl⟩ := ackTransfer_eq_some.mp h.2
    refine ⟨fun h => { h with }, rfl, fun i hi => ?_⟩
    simp [setAck, hi.symm]
  | watchDone j raised =>
    obtain rfl : j = k := some.inj hwatcher
    obtain ⟨transfer, -, hcase⟩ := watchDone_eq_some h
    rcases hcase with rfl | ⟨error, rfl⟩
    · refine ⟨fun h => { h with }, rfl, fun i hi => ?_⟩
      simp [setAck, hi.symm]
    · refine ⟨fun _ => closed_onBackgroundTaskDone, rfl, fun i hi => ?_⟩
      simp [setAck, onBackgroundTaskDone, hi.symm]
  | _ => simp [Action.watcher] at hwatcher

theorem Closed.step (h : Closed s) (hstep : step cfg s a = some s') :
    Closed s' := by
  cases hwatcher : a.watcher with
  | none => exact (step_steady hstep hwatcher).closed h
  | some k => exact (step_watcher hstep hwatcher).1 h

theorem Closed.run {as : List (Action V)} (h : Closed s)
    (hrun : Transition.Run (Omni.Stage.step cfg) Transition.anyAction s as s') : Closed s' :=
  hrun.invariant (I := Closed) (fun _ _ _ h _ hstep => h.step hstep) h

/-- A transfer that was reported as failed stays so until its watcher ends. -/
theorem transfer_kept {transfer : Transfer} (hstep : step cfg s a = some s')
    (hpending : s.pending[k]? = some transfer) (hack : transfer.ack = .failed error)
    (ha : ∀ raised, a ≠ .watchDone k raised) :
    s'.pending[k]? = some transfer := by
  cases hwatcher : a.watcher with
  | none =>
    obtain ⟨new, hnew⟩ := (step_steady hstep hwatcher).pending
    rw [← hnew, List.getElem?_append_left (List.getElem?_eq_some_iff.mp hpending).1, hpending]
  | some j =>
    by_cases hj : k = j
    · subst hj
      cases a with
      | ackTransfer i e =>
        obtain rfl : i = k := some.inj hwatcher
        simp only [step, receive_eq_some] at hstep
        obtain ⟨other, hother, hwaiting, -⟩ := ackTransfer_eq_some.mp hstep.2
        obtain rfl : transfer = other := some.inj (hpending.symm.trans hother)
        rw [hack] at hwaiting
        cases hwaiting
      | watchDone i raised =>
        obtain rfl : i = k := some.inj hwatcher
        exact absurd rfl (ha raised)
      | _ => simp [Action.watcher] at hwatcher
    · rw [(step_watcher hstep hwatcher).2.2 k hj, hpending]

theorem task_kept (hstep : step cfg s a = some s') (htask : s.receiveTasks[i]? = some task)
    (ha : a.task ≠ some i) :
    s'.receiveTasks[i]? = some task := by
  by_cases hmsg : ∃ msg, a = .dataReady msg
  · obtain ⟨msg, rfl⟩ := hmsg
    simp only [step, receive_eq_some, Option.some.injEq] at hstep
    obtain ⟨-, rfl⟩ := hstep
    have hlt := (List.getElem?_eq_some_iff.mp htask).1
    simp [scheduleReceiveTask, List.getElem?_append_left hlt, htask]
  by_cases hfinish : ∃ j, a = .finish j
  · obtain ⟨j, rfl⟩ := hfinish
    have hne : j ≠ i := fun heq => ha (congrArg some heq)
    obtain ⟨other, -, -, -, rfl⟩ := resumeInTurn_eq_some.mp hstep
    simp [finishTask_receiveTasks, setPc_getElem?, htask, hne]
  have hgrows := step_grows hstep (fun msg heq => hmsg ⟨msg, heq⟩) fun j heq => hfinish ⟨j, heq⟩
  rw [hgrows.others i ha, htask]

/-- A receive task that has ended makes no more step. -/
theorem taskDone_step (hstep : step cfg s a = some s') (hdone : s.taskDone i = true) :
    s'.taskDone i = true := by
  obtain ⟨task, htask, hended⟩ : ∃ task, s.receiveTasks[i]? = some task ∧ task.pc = .ended := by
    unfold taskDone at hdone
    cases htask : s.receiveTasks[i]? with
    | none => simp [htask] at hdone
    | some task => exact ⟨task, rfl, by simpa [htask] using hdone⟩
  have hkept : s'.receiveTasks[i]? = some task := by
    refine task_kept hstep htask fun hi => ?_
    by_cases hfinish : a = .finish i
    · subst hfinish
      obtain ⟨other, hother, hending, -⟩ := resumeInTurn_eq_some.mp hstep
      obtain rfl : task = other := some.inj (htask.symm.trans hother)
      rw [hended] at hending
      cases hending
    · obtain ⟨other, task', hmoved⟩ := step_task hstep hi hfinish
      obtain rfl : task = other := some.inj (htask.symm.trans hmoved.before)
      have hrank := hmoved.rank
      simp [hended, ReceivePc.rank] at hrank
  simp [taskDone, hkept, hended]

end Omni.Stage
