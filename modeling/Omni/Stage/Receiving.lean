import Omni.Stage.Sending
import Omni.Stage.Tasks

/-!
# Receive lanes

The items of a lane are delivered in the order in which their messages arrived, failures are
reported once a request, and no lane waits for another one.
-/

namespace Omni.Stage

open List

variable {V : Type} {cfg : Config V} {s s' : State V} {i j : ℕ} {task task' : ReceiveTask V}
  {lane : String × String}

/-- The tasks that delivered items of a lane. -/
def State.delivered (s : State V) (lane : String × String) : List ℕ :=
  (s.deliveries.filter (·.2.1 = lane)).map Prod.fst

/-- What holds of the receive tasks, and of what they delivered. -/
structure Receiving (s : State V) : Prop where
  lanes : s.board.Sound
  tasks : ∀ i task, s.receiveTasks[i]? = some task → TaskOk s.log i task
  made : ∀ i lane item, (i, lane, item) ∈ s.deliveries → ∃ task, s.receiveTasks[i]? = some task ∧
    task.lane = lane ∧ task.msg.item = some item ∧ s.board.Ready i ∧
      (task.pc = .ending ∨ task.pc = .ended)
  ordered : ∀ lane, (s.delivered lane).Pairwise (· < ·)

/-- More entries change nothing about what is known of a task. -/
theorem TaskOk.append {log : List (Entry V)} (h : TaskOk log i task) (new : List (Entry V)) :
    TaskOk (log ++ new) i task := { h with
  discards hpc := (h.discards hpc).append new
  reporting hpc := ⟨(h.reporting hpc).1.append new, fun error herror =>
    mem_append_left _ ((h.reporting hpc).2 error herror)⟩
  kept hpc hraised item hitem := by
    rcases h.kept hpc hraised item hitem with hdelivered | hspoiled
    · exact .inl (mem_append_left _ hdelivered)
    · exact .inr (hspoiled.append new)
  settled hpc hraised error herror := by
    rcases h.settled hpc hraised error herror with ⟨hfailed, hreported⟩ | hdropped
    · exact .inl ⟨mem_append_left _ hfailed, mem_append_left _ hreported⟩
    · exact .inr (mem_append_left _ hdropped) }

/-- Steps that change no task and deliver nothing. -/
theorem Receiving.of_same (h : Receiving s) (hlogs : Logs none s s')
    (htasks : s'.receiveTasks = s.receiveTasks)
    (htails : s'.receiveLaneTails = s.receiveLaneTails) : Receiving s' := by
  have hboard : s'.board = s.board := by unfold State.board; rw [htasks, htails]
  obtain ⟨new, hnew, -⟩ := hlogs.log
  have hdeliveries := hlogs.deliveries_eq
  refine ⟨hboard ▸ h.lanes, ?_, ?_, ?_⟩
  · intro i task htask
    exact hnew ▸ (h.tasks i task (htasks ▸ htask)).append new
  · rw [hdeliveries, htasks, hboard]
    exact h.made
  · intro lane
    rw [State.delivered, hdeliveries]
    exact h.ordered lane

theorem Receiving.schedule (h : Receiving s) (msg : DataReadyMessage V) :
    Receiving (s.scheduleReceiveTask msg) := by
  have hboard := @board_scheduleReceiveTask V s msg
  refine ⟨hboard ▸ h.lanes.schedule, ?_, ?_, h.ordered⟩
  · intro i task htask
    unfold State.scheduleReceiveTask at htask
    dsimp only at htask
    rcases lt_or_ge i s.receiveTasks.length with hlt | hge
    · exact h.tasks i task (by rwa [getElem?_append_left hlt] at htask)
    · rw [getElem?_append_right hge, getElem?_singleton] at htask
      split at htask
      · cases htask
        exact ⟨by simp, by simp, by simp, by simp, by simp, by simp⟩
      · cases htask
  · intro i lane item hmem
    obtain ⟨task, htask, hlane, hitem, hready, hpc⟩ := h.made i lane item hmem
    have hlt := (List.getElem?_eq_some_iff.mp htask).1
    refine ⟨task, ?_, hlane, hitem, ?_, hpc⟩
    · unfold State.scheduleReceiveTask
      dsimp only
      rwa [getElem?_append_left hlt]
    · rw [hboard]
      intro t ht p hp
      rw [Lanes.Board.schedule_done]
      rcases Lanes.Board.schedule_getElem?.mp ht with ht | ⟨rfl, -⟩
      · exact hready t ht p hp
      · simp [State.board] at hlt

/-- A task ends. -/
theorem Receiving.finish (h : Receiving s) (hstep : s.finish i = some s') : Receiving s' := by
  have hlogs : Logs none s s' := logs_finish hstep
  obtain ⟨task, hbefore, hpc, hready, rfl⟩ := State.resumeInTurn_eq_some.mp hstep
  have hboard := @board_finishTask V s i task
  have hinLane := board_inLane hbefore
  obtain ⟨new, hnew, -⟩ := hlogs.log
  have hdeliveries := hlogs.deliveries_eq
  have hready' := (board_ready hbefore).mpr hready
  refine ⟨hboard ▸ h.lanes.finish hinLane hready', ?_, ?_, ?_⟩
  · intro j task' htask'
    rw [finishTask_receiveTasks, setPc_getElem?] at htask'
    obtain ⟨old, hold, rfl⟩ := Option.map_eq_some_iff.mp htask'
    have hok := (h.tasks j old hold).append new
    rw [hnew]
    by_cases hij : i = j
    · subst hij
      obtain rfl : task = old := Option.some.inj (hbefore.symm.trans hold)
      simp only [if_true]
      exact ⟨by simp, by simp, by simp, by simp, fun _ => hok.kept (by simp [hpc]),
        fun _ => hok.settled (by simp [hpc])⟩
    · simpa [hij] using hok
  · intro j lane item hmem
    obtain ⟨old, hold, hlane, hitem, hjready, hjpc⟩ := h.made j lane item (hdeliveries ▸ hmem)
    refine ⟨if i = j then { old with pc := .ended } else old, ?_, ?_, ?_, ?_, ?_⟩
    · rw [finishTask_receiveTasks, setPc_getElem?, hold]
      split <;> rfl
    · split <;> exact hlane
    · split <;> exact hitem
    · rw [hboard]
      intro t ht p hp
      obtain ⟨t', ht', rfl⟩ := Lanes.Board.finish_getElem?.mp ht
      exact (Lanes.Board.finish_done hinLane).mpr (.inl (hjready t' ht' p hp))
    · split
      · exact .inr rfl
      · exact hjpc
  · intro lane
    rw [State.delivered, hdeliveries]
    exact h.ordered lane

theorem TaskStep.board_eq (hstep : TaskStep s s' i task task') (hgrows : Grows (some i) s s') :
    s'.board = s.board := by
  refine Omni.Stage.board_eq hgrows.length hgrows.tails fun j old hold => ?_
  by_cases hij : i = j
  · subst hij
    obtain rfl : task = old := Option.some.inj (hstep.before.symm.trans hold)
    refine ⟨task', hstep.after, ?_⟩
    have hbefore : task.pc ≠ .ended := by
      intro hpc
      have := hstep.rank
      simp [hpc, ReceivePc.rank] at this
    simp [ReceiveTask.inLane, ReceiveTask.lane, hstep.msg, hstep.predecessor, hstep.notEnded,
      hbefore]
  · have hne : some i ≠ some j := fun heq => hij (Option.some.inj heq)
    exact ⟨old, (hgrows.others j hne).trans hold, rfl⟩

theorem TaskStep.not_delivered (hstep : TaskStep s s' i task task') :
    ¬(task.pc = .ending ∨ task.pc = .ended) := by
  have hrank := hstep.rank
  have hended := hstep.notEnded
  rintro (hpc | hpc)
  · rw [hpc] at hrank
    cases hpc' : task'.pc <;> simp_all [ReceivePc.rank]
  · simp [hpc, ReceivePc.rank] at hrank

theorem Receiving.step_task (h : Receiving s) (hok : LogOk s) (hgrows : Grows (some i) s s')
    (hstep : TaskStep s s' i task task') : Receiving s' := by
  have hboard := hstep.board_eq hgrows
  obtain ⟨new, hnew, -⟩ := hgrows.log
  have hother {j : ℕ} (hij : i ≠ j) : s'.receiveTasks[j]? = s.receiveTasks[j]? :=
    hgrows.others j fun heq => hij (Option.some.inj heq)
  have hold : ∀ j lane item, (j, lane, item) ∈ s.deliveries → ∃ task, s'.receiveTasks[j]? =
      some task ∧ task.lane = lane ∧ task.msg.item = some item ∧ s'.board.Ready j ∧
        (task.pc = .ending ∨ task.pc = .ended) := by
    intro j lane item hmem
    obtain ⟨old, hold, hlane, hitem, hready, hpc⟩ := h.made j lane item hmem
    by_cases hij : i = j
    · subst hij
      obtain rfl : task = old := Option.some.inj (hstep.before.symm.trans hold)
      exact absurd hpc hstep.not_delivered
    · exact ⟨old, (hother hij).trans hold, hlane, hitem, hboard ▸ hready, hpc⟩
  refine ⟨hboard ▸ h.lanes, fun j other hj => ?_, ?_, ?_⟩
  · by_cases hij : i = j
    · subst hij
      obtain rfl : task' = other := Option.some.inj (hstep.after.symm.trans hj)
      exact hstep.ok hok (h.tasks i task hstep.before)
    · exact hnew ▸ (h.tasks j other ((hother hij).symm.trans hj)).append new
  · rcases hstep.deliveries with hsame | ⟨item, hdelivered, -, hready, hpc', hitem, -, -⟩
    · rw [hsame]
      exact hold
    · intro j lane it hmem
      rw [hdelivered] at hmem
      rcases mem_append.mp hmem with hmem | hmem
      · exact hold j lane it hmem
      · obtain ⟨rfl, rfl, rfl⟩ : j = i ∧ lane = task.lane ∧ it = item := by simpa using hmem
        refine ⟨task', hstep.after, ?_, hstep.msg ▸ hitem, ?_, .inl hpc'⟩
        · simp [ReceiveTask.lane, hstep.msg]
        · rw [hboard]
          exact (board_ready hstep.before).mpr hready
  · intro lane
    rcases hstep.deliveries with hsame | ⟨item, hdelivered, hpc, -, -, -, -, -⟩
    · rw [State.delivered, hsame]
      exact h.ordered lane
    · rw [State.delivered, hdelivered, filter_append, map_append]
      by_cases hlane : task.lane = lane
      · subst hlane
        simp only [filter_cons_of_pos, decide_true, filter_nil, map_cons, map_nil]
        refine pairwise_append.mpr ⟨h.ordered _, pairwise_singleton _ _, ?_⟩
        intro j hj l hl
        rw [mem_singleton.mp hl]
        obtain ⟨⟨j', lane', it⟩, hmem, rfl⟩ := mem_map.mp hj
        obtain ⟨hmem, hlane'⟩ := mem_filter.mp hmem
        obtain ⟨old, hold, holdLane, -, hready, holdPc⟩ := h.made j' lane' it hmem
        have hlane' : lane' = task.lane := of_decide_eq_true hlane'
        have hin : s.board.InLane task.lane j' := hlane' ▸ holdLane ▸ board_inLane hold
        have hnot : ¬s.board.Done i := by
          rw [board_done hstep.before, hpc]
          simp
        refine (h.lanes.le_of_ready (board_inLane hstep.before) hnot hin hready).lt_of_ne ?_
        rintro rfl
        obtain rfl : task = old := Option.some.inj (hstep.before.symm.trans hold)
        exact hstep.not_delivered holdPc
      · simpa [State.delivered, hlane] using h.ordered lane

/-- Steps of a stage keep its lanes in order. -/
theorem Receiving.step {a : Action V} (h : Receiving s) (hok : LogOk s)
    (hstep : step cfg s a = some s') : Receiving s' := by
  by_cases hmsg : ∃ msg, a = .dataReady msg
  · obtain ⟨msg, rfl⟩ := hmsg
    simp only [Omni.Stage.step, State.receive_eq_some, Option.some.injEq] at hstep
    exact hstep.2 ▸ h.schedule msg
  by_cases hfinish : ∃ i, a = .finish i
  · obtain ⟨i, rfl⟩ := hfinish
    exact h.finish hstep
  have hgrows := step_grows hstep (fun msg heq => hmsg ⟨msg, heq⟩) (fun i heq => hfinish ⟨i, heq⟩)
  cases htask : a.task with
  | some i =>
    obtain ⟨task, task', hmoved⟩ := Omni.Stage.step_task hstep htask fun heq => hfinish ⟨i, heq⟩
    exact h.step_task hok (htask ▸ hgrows) hmoved
  | none =>
    rw [htask] at hgrows
    have htasks : s'.receiveTasks = s.receiveTasks :=
      ext_getElem? fun n => hgrows.others n (by simp)
    exact h.of_same hgrows.toLogs htasks hgrows.tails

/-- A stage that starts. -/
theorem receiving_init : Receiving (.init : State V) where
  lanes := Lanes.Board.sound_empty
  tasks i task h := by simp [State.init] at h
  made i lane item h := by simp [State.init, State.deliveries] at h
  ordered lane := by simp [State.init, State.deliveries, State.delivered]

/-- **The lanes stay in order** in every run. -/
theorem receiving_of_run {ok : State V → Action V → Prop} {as : List (Action V)}
    (hrun : Transition.Run (Omni.Stage.step cfg) ok .init as s) : Receiving s ∧ LogOk s := by
  refine hrun.invariant (I := fun s => Receiving s ∧ LogOk s) (fun s a t hs _ hstep => ?_)
    ⟨receiving_init, logOk_of_run (.nil _ : Transition.Run (Omni.Stage.step cfg) ok _ _ _)⟩
  exact ⟨hs.1.step hs.2 hstep, (step_logs hstep).ok hs.2⟩

end Omni.Stage
