import Mathlib.Algebra.GroupWithZero.Nat
import Omni.Stage.Receiving

/-!
# What the receive lanes guarantee

Order, at most one delivery, failures that are reported or dropped, progress of each lane on its
own, and no tails left behind.
-/

namespace Omni.Stage

variable {V : Type} {cfg : Config V} {s s' : State V} {i j : ℕ} {task : ReceiveTask V}
  {lane : String × String} {r : String}

/-- The steps of the tasks of a lane. -/
def laneStep (cfg : Config V) (lane : String × String) (s : State V) (a : Action V) :
    Option (State V) :=
  if ∃ i ∈ a.task, ∃ task ∈ s.receiveTasks[i]?, task.lane = lane then step cfg s a else none

/-- All tasks of a lane have ended. -/
def LaneEnded (lane : String × String) (s : State V) : Prop :=
  ∀ task ∈ s.receiveTasks, task.lane = lane → task.pc = .ended

/-- How much is left of the tasks of a lane. -/
def laneWork (lane : String × String) (s : State V) : ℕ :=
  (s.receiveTasks.map fun task => if task.lane = lane then task.pc.rank else 0).sum

/-- A sum gets smaller with one of its terms. -/
theorem sum_map_set_lt {α : Type*} {g : α → ℕ} {l : List α} {x y : α} {n : ℕ}
    (hx : l[n]? = some x) (hlt : g y < g x) : ((l.set n y).map g).sum < (l.map g).sum := by
  induction l generalizing n with
  | nil => simp at hx
  | cons head tail ih =>
    cases n with
    | zero =>
      obtain rfl : head = x := by simpa using hx
      simpa using hlt
    | succ n =>
      have := ih (n := n) (by simpa using hx)
      simpa using this

/-- Tasks that differ in one place. -/
theorem receiveTasks_eq_set {task' : ReceiveTask V} (hbefore : s.receiveTasks[i]? = some task)
    (hafter : s'.receiveTasks[i]? = some task')
    (hothers : ∀ j, i ≠ j → s'.receiveTasks[j]? = s.receiveTasks[j]?) :
    s'.receiveTasks = s.receiveTasks.set i task' := by
  have hlt := (List.getElem?_eq_some_iff.mp hbefore).1
  refine List.ext_getElem? fun n => ?_
  by_cases hin : i = n
  · subst hin
    rw [hafter, List.getElem?_set_self hlt]
  · rw [hothers n hin, List.getElem?_set_ne hin]

/-- Every step of a task of the lane leaves less to do. -/
theorem laneWork_lt {a : Action V} (hstep : laneStep cfg lane s a = some s') :
    laneWork lane s' < laneWork lane s := by
  obtain ⟨⟨i, hi, task, htask, hlane⟩, hstep⟩ := Option.ite_none_right_eq_some.mp hstep
  have hless {task' : ReceiveTask V} (hafter : s'.receiveTasks[i]? = some task')
      (hothers : ∀ j, i ≠ j → s'.receiveTasks[j]? = s.receiveTasks[j]?)
      (hlane' : task'.lane = lane) (hrank : task'.pc.rank < task.pc.rank) :
      laneWork lane s' < laneWork lane s := by
    unfold laneWork
    rw [receiveTasks_eq_set htask hafter hothers]
    exact sum_map_set_lt htask (by simpa [hlane, hlane'] using hrank)
  by_cases hfinish : a = .finish i
  · subst hfinish
    obtain ⟨task', hbefore, hpc, -, rfl⟩ := State.resumeInTurn_eq_some.mp hstep
    obtain rfl : task = task' := Option.some.inj (htask.symm.trans hbefore)
    refine @hless { task with pc := .ended } ?_ (fun j hij => ?_) hlane
      (by simp [hpc, ReceivePc.rank])
    · rw [finishTask_receiveTasks, setPc_getElem?, hbefore]
      simp
    · rw [finishTask_receiveTasks, setPc_getElem?]
      cases s.receiveTasks[j]? <;> simp [hij]
  · obtain ⟨old, task', hmoved⟩ := step_task hstep hi hfinish
    obtain rfl : task = old := Option.some.inj (htask.symm.trans hmoved.before)
    have hgrows := step_grows hstep (fun msg heq => by simp [heq, Action.task] at hi)
      fun k heq => by
        obtain rfl : k = i := by simpa [heq, Action.task] using hi
        exact hfinish heq
    rw [Option.mem_def.mp hi] at hgrows
    refine hless hmoved.after (fun j hij => hgrows.others j fun heq => hij (Option.some.inj heq)) ?_
      hmoved.rank
    simpa [ReceiveTask.lane, hmoved.msg] using hlane

theorem task_enabled (htask : s.receiveTasks[i]? = some task) (hpc : task.pc ≠ .ended)
    (hready : s.predecessorDone task = true) :
    ∃ a : Action V, a.task = some i ∧ (step cfg s a).isSome := by
  cases h : task.pc with
  | created => exact ⟨.startReceive i none, rfl, by simp [step, State.startReceive, State.resume,
    *]⟩
  | reading => exact ⟨.readDone i none, rfl, by simp [step, State.readDone, State.resume, *]⟩
  | acking => exact ⟨.ackSent i none, rfl, by simp [step, State.ackSent, State.resume, *]⟩
  | waiting =>
    exact ⟨.turn i ⟨false, .ok none⟩, rfl, by simp [step, State.turn, State.resumeInTurn, *]⟩
  | reporting =>
    exact ⟨.taskFailureSent i none, rfl, by simp [step, State.taskFailureSent, State.resume, *]⟩
  | discarding => exact ⟨.discardRead i, rfl, by simp [step, State.discardRead, State.resume, *]⟩
  | discardAcking =>
    exact ⟨.discardAckSent i none, rfl, by simp [step, State.discardAckSent, State.resume, *]⟩
  | ending => exact ⟨.finish i, rfl, by simp [step, State.finish, State.resumeInTurn, *]⟩
  | ended => exact absurd h hpc

/-- **Progress**: the tasks of a lane end by their own steps, whatever their reads return. -/
theorem lane_ends (h : Receiving s) (hok : LogOk s) (lane : String × String) :
    Transition.Inevitable (laneStep cfg lane) (LaneEnded lane) s := by
  refine Transition.inevitable_of_measure (I := fun s => Receiving s ∧ LogOk s) (laneWork lane)
    (fun s hs hnot => ?_) (fun s a t hs _ hstep => .inr ⟨?_, laneWork_lt hstep⟩) ⟨h, hok⟩
  · simp only [LaneEnded, not_forall] at hnot
    obtain ⟨task, hmem, hlane, hpc⟩ := hnot
    obtain ⟨i, htask⟩ := List.mem_iff_getElem?.mp hmem
    have hin : s.board.InLane lane i := hlane ▸ board_inLane htask
    have hdone : ¬s.board.Done i := by rwa [board_done htask]
    obtain ⟨j, hin, hdone, hready⟩ := hs.1.lanes.exists_ready hin hdone
    obtain ⟨next, hnext⟩ : ∃ next, s.receiveTasks[j]? = some next := by
      obtain ⟨t, ht, -⟩ := hin
      obtain ⟨next, hnext, -⟩ := Option.map_eq_some_iff.mp (by simpa [State.board] using ht)
      exact ⟨next, hnext⟩
    rw [board_done hnext] at hdone
    obtain ⟨a, ha, hsome⟩ := @task_enabled V cfg s j next hnext hdone ((board_ready hnext).mp
      hready)
    obtain ⟨t, ht⟩ := Option.isSome_iff_exists.mp hsome
    refine ⟨a, t, Option.ite_none_right_eq_some.mpr ⟨⟨j, ha, next, hnext, ?_⟩, ht⟩⟩
    exact (board_inLane hnext).unique hin
  · obtain ⟨-, hstep⟩ := Option.ite_none_right_eq_some.mp hstep
    exact ⟨hs.1.step hs.2 hstep, (step_logs hstep).ok hs.2⟩

/-- An id that failed and was not forgotten since is in `_aborted`. -/
theorem remembers_of_failed {before after : List (Entry V)} {maker : Option ℕ} {error : String}
    (hafter : .forgotten r ∉ after) :
    remembers r (before ++ .failed maker r error :: after) = true := by
  induction after using List.reverseRecOn with
  | nil => simp [remembers_concat, Entry.remember]
  | append_singleton after entry ih =>
    simp only [List.mem_append, List.mem_singleton, not_or] at hafter
    rw [← List.cons_append, ← List.append_assoc, remembers_concat, ih hafter.1]
    cases entry with
    | forgotten requestId =>
      have hne : requestId ≠ r := fun heq => hafter.2 (by rw [heq])
      simp [Entry.remember, hne]
    | _ => simp [Entry.remember]

/-- What the receive lanes guarantee. -/
structure LaneOrder (cfg : Config V) (s : State V) : Prop where
  /-- The tasks of a lane deliver in the order in which their messages arrived, and once. -/
  ordered : ∀ lane, (s.delivered lane).Pairwise (· < ·)
  /-- What a task delivers is the item of its message. -/
  items : ∀ i lane item, (i, lane, item) ∈ s.deliveries → ∃ task, s.receiveTasks[i]? = some task ∧
    task.lane = lane ∧ task.msg.item = some item
  /-- An item that failed was reported, or dropped, unless its handler raised. -/
  settled : ∀ i task error, s.receiveTasks[i]? = some task → task.pc = .ended →
    task.raised = none → task.error = some error → Settled s.log i task.msg.requestId error
  /-- Errors are dropped of requests that have failed or were aborted. -/
  dropped : ∀ before maker r error after, s.log = before ++ .dropped maker r error :: after →
    Spoiled before r
  /-- Nothing of a request is delivered after its failure, unless its id left `_aborted`. -/
  silent : ∀ before maker r error after, s.log = before ++ .failed maker r error :: after →
    .forgotten r ∉ after → ∀ maker' f item, .delivered maker' r f item ∉ after
  /-- A lane ends by its own steps. -/
  progress : ∀ lane, Transition.Inevitable (laneStep cfg lane) (LaneEnded lane) s
  /-- When no receive task runs, no lane has a tail. -/
  tails : (∀ task ∈ s.receiveTasks, task.pc = .ended) → ∀ r f, s.receiveLaneTails r f = none

/-- A stage that two others send stream chunks to. -/
def joinConfig : Config ℕ where
  name := "talker"
  endpoints := ["thinker", "encoder"]
  streamTargets := []
  sameProcessTargets := []
  localDispatcher := none
  hasStreamQueue := true
  canAcceptStreamBeforePayload := true
  isTerminal := true
  getNext _ _ := .ok none
  getStreamDoneTargets := none
  projectPayload _ := none
  isIsolated _ _ := .ok true
  payloadIsDirect _ _ := .ok false
  chunkIsDirect _ _ := .ok false
  iterationOrder ids := ids
  iterationOrder_perm _ := .refl _

/-- A stream chunk of the request `r`. -/
def chunkFrom (fromStage : String) : DataReadyMessage ℕ :=
  ⟨"r", fromStage, some ⟨fromStage, false, 7⟩, false, none, some 0⟩

end Omni.Stage
