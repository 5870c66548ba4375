import Omni.Stage.Held

/-!
# What a stage does when it sends

The pieces of the outbox drain and of the coroutines that it awaits. No step opens a stage
again that `_on_background_task_done` has closed, every step only adds to the log, and what is held
of other requests stays as it is.
-/

namespace Omni.Stage

open State

variable {V : Type} {cfg : Config V} {s s' s'' : State V} {x error target : String}
  {i k : ℕ} {task : ReceiveTask V} {result data : V} {all rest targets : List String}
  {a : Action V} {raised : Option String} {single : Bool}

/-- The stage is closed. -/
structure Closed (s : State V) : Prop where
  running : s.running = false
  controlPlane : s.controlPlaneOpen = false
  error : s.backgroundTaskError ≠ none

/-- What no piece of the stage undoes. -/
structure Steady (s s' : State V) : Prop where
  closed : Closed s → Closed s'
  crashed : s'.drain = .crashed → s.drain = .crashed ∨ Closed s'
  pending : s.pending <+: s'.pending

theorem closed_onBackgroundTaskDone : Closed (s.onBackgroundTaskDone error) :=
  ⟨rfl, rfl, by cases h : s.backgroundTaskError <;> simp [onBackgroundTaskDone, h]⟩

/-- Changes to other fields. -/
theorem Steady.same (h : s'.vital = s.vital) : Steady s s' := by
  injection h with hrunning hcontrol herror hdrain hpending
  refine ⟨fun hclosed => ?_, fun hcrashed => .inl (hdrain ▸ hcrashed), hpending ▸ List.prefix_rfl⟩
  exact ⟨hrunning ▸ hclosed.running, hcontrol ▸ hclosed.controlPlane, herror ▸ hclosed.error⟩

/-- Two pieces in a row. -/
theorem Steady.trans (hfirst : Steady s s') (hsecond : Steady s' s'') : Steady s s'' := by
  refine ⟨fun h => hsecond.closed (hfirst.closed h), fun h => ?_,
    hfirst.pending.trans hsecond.pending⟩
  rcases hsecond.crashed h with hcrashed | hclosed
  · exact (hfirst.crashed hcrashed).imp_right hsecond.closed
  · exact .inr hclosed

theorem Steady.of_closed (hclosed : Closed s') (hpending : s'.pending = s.pending) :
    Steady s s' :=
  ⟨fun _ => hclosed, fun _ => .inr hclosed, hpending ▸ List.prefix_rfl⟩

/-- The drain goes on to another await. -/
theorem Steady.of_drain {drain : DrainPc V} (hvital : s'.vital = { s.vital with drain := drain })
    (hdrain : drain ≠ .crashed) : Steady s s' := by
  injection hvital with hrunning hcontrol herror hdrain' hpending
  refine ⟨fun h => ⟨hrunning ▸ h.running, hcontrol ▸ h.controlPlane, herror ▸ h.error⟩,
    fun h => absurd (hdrain'.symm.trans h) hdrain, hpending ▸ List.prefix_rfl⟩

/-- A piece that sends something for request `x`. -/
structure Sends (x : String) (s s' : State V) : Prop
    extends Grows none s s', Steady s s' where
  apart : Apart x s s'

/-- Two pieces in a row. -/
theorem Sends.trans (hfirst : Sends x s s') (hsecond : Sends x s' s'') : Sends x s s'' :=
  ⟨hfirst.toGrows.trans hsecond.toGrows, hfirst.toSteady.trans hsecond.toSteady,
    hfirst.apart.trans hsecond.apart⟩

/-- What is held of the request changes. -/
theorem Sends.of_apart (h : Apart x s s') (hgrows : Grows none s s') (hvital : s'.vital = s.vital) :
    Sends x s s' :=
  ⟨hgrows, .same hvital, h⟩

/-- Fields change that do not matter here. -/
theorem Sends.same (hlogged : s'.logged = s.logged) (htasks : s'.receiveTasks = s.receiveTasks)
    (hheld : s'.held = s.held) (hvital : s'.vital = s.vital) : Sends x s s' :=
  .of_apart (.of_held hheld) (.same hlogged htasks) hvital

theorem Sends.awaits {drain : DrainPc V} (hvital : s'.vital = { s.vital with drain := drain })
    (hdrain : drain ≠ .crashed) (hlogged : s'.logged = s.logged)
    (htasks : s'.receiveTasks = s.receiveTasks) (hheld : s'.held = s.held) : Sends x s s' :=
  ⟨.same hlogged htasks, .of_drain hvital hdrain, .of_held hheld⟩

/-- An entry is made that does not depend on `_aborted`. -/
theorem Sends.record {entry : Entry V} (hfits : ∀ log, entry.Fits log) (hmaker : entry.maker = none)
    (hnote : entry.IsNote) : Sends x s (s.record entry) :=
  .of_apart (.of_held rfl) (.record hnote (fun _ => hfits _) (.inl hmaker)) rfl

theorem sends_sent {transport : Transport} {item : Item V} :
    Sends x s (s.record (.sent x target transport item)) :=
  .record (fun _ => trivial) rfl fun _ _ => rfl

theorem sends_clear : Sends x s (s.clearRequestState x) :=
  .of_apart apart_clearRequestState (.same rfl rfl) rfl

theorem grows_failureSent {m : Option ℕ} : Grows m s (s.failureSent m x) :=
  (@Grows.record _ _ _ (.reported m x) (fun _ _ => rfl) (fun _ => trivial) (.inr rfl)).trans
    (.same rfl rfl)

theorem sends_raiseDrain : Sends x s (s.raiseDrain error) :=
  ⟨.same rfl rfl, .of_closed closed_onBackgroundTaskDone rfl, .of_held rfl⟩

/-- A coroutine goes on. -/
theorem sends_setJob {pc : JobPc} : Sends x s (s.setJob k pc) := .same rfl rfl rfl rfl

/-- A coroutine raises. -/
theorem sends_raiseJob : Sends x s (s.raiseJob k error) := by
  unfold raiseJob
  split
  · exact sends_setJob.trans sends_raiseDrain
  · exact sends_setJob

/-- A coroutine that raises leaves what is held as it is. -/
theorem held_raiseJob : (s.raiseJob k error).held = s.held := by
  unfold raiseJob
  split <;> rfl

/-- A transfer starts to be watched. -/
theorem sends_armPending {transport : Transport} :
    Sends x s (s.armPending x target transport) :=
  ⟨.same rfl rfl, ⟨fun h => { h with }, .inl, List.prefix_append _ _⟩, .of_held rfl⟩

theorem sends_recordLocal : Sends x s (s.recordLocalStreamTarget x target) :=
  .of_apart apart_recordLocalStreamTarget (.same rfl rfl) rfl

theorem sends_recordNonlocal : Sends x s (s.recordNonlocalStreamTarget x target) :=
  .of_apart apart_recordNonlocalStreamTarget (.same rfl rfl) rfl

theorem sends_sendStreamToTarget {job : Job V} :
    Sends job.requestId s (s.sendStreamToTarget cfg k job) := by
  have hcounted : Sends job.requestId s (s.countChunk job.requestId job.target) :=
    .of_apart apart_countChunk (.same rfl rfl) rfl
  unfold sendStreamToTarget
  split
  · exact sends_raiseJob
  · split
    · split
      · exact hcounted.trans sends_raiseJob
      · split
        · exact (hcounted.trans sends_recordLocal).trans sends_raiseJob
        · exact ((hcounted.trans sends_recordLocal).trans sends_sent).trans sends_setJob
    · split
      · exact (hcounted.trans sends_recordNonlocal).trans sends_raiseJob
      · exact (hcounted.trans sends_recordNonlocal).trans sends_setJob

/-- How `_send_stream_to_target` ends: it raises, or the coroutine has begun. -/
theorem sendStreamToTarget_cases {job : Job V} : ∃ t : State V,
    ((∃ error, s.sendStreamToTarget cfg k job = t.raiseJob k error) ∨
      ∃ pc, s.sendStreamToTarget cfg k job = t.setJob k pc ∧ pc ≠ .created) ∧
      t.drain = s.drain ∧ t.outbox = s.outbox ∧ t.jobs = s.jobs := by
  unfold sendStreamToTarget
  repeat' split
  all_goals first
    | exact ⟨_, .inl ⟨_, rfl⟩, rfl, rfl, rfl⟩
    | exact ⟨_, .inr ⟨_, rfl, nofun⟩, rfl, rfl, rfl⟩

theorem sends_sendStreamToCoordinator :
    Sends x s (s.sendStreamToCoordinator cfg x data) := by
  unfold sendStreamToCoordinator
  split
  · exact sends_raiseDrain
  · split
    · exact .same rfl rfl rfl rfl
    · have hcounted : Sends x s (s.countChunk x "coordinator") :=
        .of_apart apart_countChunk (.same rfl rfl) rfl
      exact hcounted.trans (.awaits rfl nofun rfl rfl rfl)

theorem sends_sendStreamSignalToTarget :
    Sends x s (s.sendStreamSignalToTarget cfg x result target rest all) := by
  unfold sendStreamSignalToTarget
  split
  · exact sends_raiseDrain
  · split
    · split
      · exact sends_raiseDrain
      · split
        · exact sends_recordLocal.trans sends_raiseDrain
        · exact (sends_recordLocal.trans sends_sent).trans (.awaits rfl nofun rfl rfl rfl)
    · exact sends_recordNonlocal.trans (.awaits rfl nofun rfl rfl rfl)

theorem sends_sendToStage :
    Sends x s (s.sendToStage cfg x result target rest all single) := by
  unfold sendToStage
  split
  · exact sends_raiseDrain
  · split
    · exact sends_raiseDrain
    · split
      · split
        · exact sends_raiseDrain
        · split
          · exact sends_raiseDrain
          · exact sends_sent.trans (.awaits rfl nofun rfl rfl rfl)
      · split
        · exact sends_raiseDrain
        · exact .awaits rfl nofun rfl rfl rfl

/-- `_route_result` has sent everything. -/
theorem sends_routed : Sends x s (s.routed x) :=
  (sends_clear (s := s)).trans (.awaits rfl nofun rfl rfl rfl)

theorem sends_sendPayloads :
    Sends x s (s.sendPayloads cfg x result targets all single) := by
  cases targets with
  | nil => exact sends_routed
  | cons => exact sends_sendToStage

theorem sends_routeNext : Sends x s (s.routeNext cfg x result all) := by
  unfold routeNext
  split
  · exact sends_raiseDrain
  · exact .awaits rfl nofun rfl rfl rfl
  · exact sends_sendPayloads

theorem sends_sendSignals : Sends x s (s.sendSignals cfg x result targets all) := by
  cases targets with
  | nil => exact sends_routeNext
  | cons => exact sends_sendStreamSignalToTarget

/-- A message of the outbox is handled. -/
theorem sends_handleOutgoing {out : Outgoing V} : Sends x s (s.handleOutgoing cfg x out) := by
  have hstreams {jobs : List (Job V)} :
      Sends x s { s with drain := .streams x, jobs := jobs } :=
    .awaits rfl nofun rfl rfl rfl
  unfold handleOutgoing
  split
  · unfold routeResult
    split
    · exact sends_raiseDrain
    · exact sends_sendSignals
  · split
    · exact sends_sendStreamToCoordinator
    · exact hstreams
  next data target =>
    let job : Job V := ⟨x, data, target, .created⟩
    exact hstreams.trans (sends_sendStreamToTarget : Sends job.requestId _ _)
  · exact ⟨grows_beginFailure.trans (.same rfl rfl), .of_drain rfl nofun, .of_held rfl⟩

/-- The drain gets a message from the outbox. -/
theorem sends_take (h : s.take cfg = some s') : ∃ x, Sends x s s' := by
  unfold take at h
  split at h
  next x _ rest _ _ =>
    obtain rfl := Option.some.inj h
    have htaken : Sends x s { s with outbox := rest } := .same rfl rfl rfl rfl
    split
    · exact ⟨x, htaken.trans sends_handleOutgoing⟩
    · exact ⟨x, htaken⟩
  · cases h

/-- What a coroutine awaits returns. -/
theorem sends_jobDone (h : s.jobDone k raised = some s') : ∃ x, Sends x s s' := by
  unfold jobDone at h
  split at h
  · cases h
  next job _ =>
    split at h
    · exact Option.some.inj h ▸ ⟨_, (sends_sent.trans sends_armPending).trans sends_setJob⟩
    · exact Option.some.inj h ▸ ⟨job.requestId, sends_setJob⟩
    · exact Option.some.inj h ▸ ⟨job.requestId, sends_raiseJob⟩
    · exact Option.some.inj h ▸ ⟨job.requestId, sends_raiseJob⟩
    · cases h

theorem sends_drainSent (h : s.drainSent = some s') : ∃ x, Sends x s s' := by
  unfold drainSent at h
  split at h
  next x _ _ _ _ _ =>
    exact Option.some.inj h ▸ ⟨x, sends_sent.trans (.awaits rfl nofun rfl rfl rfl)⟩
  · exact Option.some.inj h ▸
      ⟨_, (sends_sent.trans sends_armPending).trans (.awaits rfl nofun rfl rfl rfl)⟩
  · cases h

theorem sends_drainReturned (h : s.drainReturned cfg = some s') : ∃ x, Sends x s s' := by
  unfold drainReturned at h
  split at h
  next x _ _ _ =>
    exact Option.some.inj h ▸ ⟨x, (Sends.record (by simp [Entry.Fits]) rfl fun _ _ => rfl).trans
      (.awaits rfl (by simp) rfl rfl rfl)⟩
  · exact Option.some.inj h ▸ ⟨_, sends_sendSignals⟩
  · exact Option.some.inj h ▸ ⟨_, (Sends.record (by simp [Entry.Fits]) rfl fun _ _ => rfl).trans
      sends_routed⟩
  · exact Option.some.inj h ▸ ⟨_, sends_sendPayloads⟩
  · exact Option.some.inj h ▸
      ⟨_, grows_failureSent.trans (.same rfl rfl), .of_drain rfl (by simp), apart_clearRequestState⟩
  · cases h

/-- The steps of the outbox drain and of its coroutines, and what fills the outbox. -/
def Action.Sends : Action V → Prop
  | .emit .. | .take | .startJob _ | .jobDone .. | .joined | .drainSent | .drainReturned
  | .drainRaised _ => True
  | _ => False

theorem step_sends (h : step cfg s a = some s') (ha : a.Sends) : ∃ x, Stage.Sends x s s' := by
  cases a with
  | emit requestId out => exact Option.some.inj h ▸ ⟨requestId, .same rfl rfl rfl rfl⟩
  | take => exact sends_take h
  | startJob k =>
    obtain ⟨job, -, -, rfl⟩ := startJob_eq_some.mp h
    exact ⟨_, sends_sendStreamToTarget⟩
  | jobDone k raised => exact sends_jobDone h
  | joined =>
    obtain ⟨⟨x, -⟩, -, rfl⟩ := joined_eq_some.mp h
    exact ⟨x, .awaits rfl nofun rfl rfl rfl⟩
  | drainSent => exact sends_drainSent h
  | drainReturned => exact sends_drainReturned h
  | drainRaised error =>
    obtain ⟨-, rfl⟩ := drainRaised_eq_some.mp h
    exact ⟨error, sends_raiseDrain⟩
  | _ => exact ha.elim

/-- The other steps leave the outbox, the drain and its coroutines alone. -/
theorem step_not_sends (h : step cfg s a = some s') (ha : ¬a.Sends) :
    s'.outbox = s.outbox ∧ s'.drain = s.drain ∧ s'.jobs = s.jobs := by
  cases hx : a.receivesFor s with
  | some x =>
    have hsending := (step_receives h hx).sending
    exact ⟨congrArg Sending.outbox hsending, congrArg Sending.drain hsending,
      congrArg Sending.jobs hsending⟩
  | none =>
    cases a with
    | abort requestId =>
      simp only [step, receive_eq_some, Option.some.injEq] at h
      exact h.2 ▸ ⟨rfl, rfl, rfl⟩
    | localFailureSent k raised =>
      simp only [step, localFailureSent] at h
      split at h
      · cases raised <;> exact Option.some.inj h ▸ ⟨rfl, rfl, rfl⟩
      · cases h
    | taskFailureSent i raised =>
      obtain ⟨task, -, -, rfl⟩ := resume_eq_some.mp h
      cases raised <;> exact ⟨rfl, rfl, rfl⟩
    | ackTransfer k error =>
      simp only [step, receive_eq_some] at h
      obtain ⟨transfer, -, -, rfl⟩ := ackTransfer_eq_some.mp h.2
      exact ⟨rfl, rfl, rfl⟩
    | watchDone k raised =>
      obtain ⟨transfer, -, hcase⟩ := watchDone_eq_some h
      rcases hcase with rfl | ⟨error, rfl⟩ <;> exact ⟨rfl, rfl, rfl⟩
    | emit | take | startJob | jobDone | joined | drainSent | drainReturned | drainRaised =>
      exact absurd trivial ha
    | _ => exact absurd trivial (not_receives_of_step h hx)

/-- A step that schedules no task and ends none changes at most its own. -/
theorem step_grows (h : step cfg s a = some s') (hmsg : ∀ msg, a ≠ .dataReady msg)
    (hfinish : ∀ i, a ≠ .finish i) : Grows a.task s s' := by
  cases hx : a.receivesFor s with
  | some x => exact (step_piece h hx hmsg hfinish).toGrows
  | none =>
    cases a with
    | abort requestId =>
      simp only [step, receive_eq_some, Option.some.injEq] at h
      have hrecorded : Grows none s ((s.record (.aborted requestId)).recordAborted cfg requestId) :=
        .recordAborted (fun _ _ => rfl) (fun _ => trivial) (.inl rfl)
      have hcleared := hrecorded.trans (@sends_clear _ _ requestId).toGrows
      exact h.2 ▸ hcleared.trans (.record (fun _ _ => rfl) (fun _ => trivial) (.inl rfl))
    | localFailureSent k raised =>
      simp only [step, localFailureSent] at h
      split at h
      next requestId _ =>
        have hcalls : Grows none s { s with localCalls := s.localCalls.eraseIdx k } :=
          .same rfl rfl
        cases raised with
        | none => exact Option.some.inj h ▸ hcalls.trans grows_failureSent
        | some => exact Option.some.inj h ▸ hcalls
      · cases h
    | taskFailureSent i raised =>
      obtain ⟨task, -, -, rfl⟩ := resume_eq_some.mp h
      cases raised with
      | none => exact grows_failureSent.trans (.modify rfl rfl)
      | some => exact .modify rfl rfl
    | ackTransfer k error =>
      simp only [step, receive_eq_some] at h
      obtain ⟨transfer, -, -, rfl⟩ := ackTransfer_eq_some.mp h.2
      exact .same rfl rfl
    | watchDone k raised =>
      obtain ⟨transfer, -, hcase⟩ := watchDone_eq_some h
      rcases hcase with rfl | ⟨error, rfl⟩ <;> exact .same rfl rfl
    | emit | take | startJob | jobDone | joined | drainSent | drainReturned | drainRaised =>
      exact (step_sends h trivial).choose_spec.toGrows
    | _ => exact absurd trivial (not_receives_of_step h hx)

/-- **The log grows**: a step only adds entries, which its own task made, and keeps the log in
agreement with `_aborted`. -/
theorem step_logs (h : step cfg s a = some s') : Logs a.task s s' := by
  by_cases hmsg : ∃ msg, a = .dataReady msg
  · obtain ⟨msg, rfl⟩ := hmsg
    simp only [step, receive_eq_some, Option.some.injEq] at h
    exact h.2 ▸ .same rfl rfl
  · by_cases hfinish : ∃ i, a = .finish i
    · obtain ⟨i, rfl⟩ := hfinish
      exact logs_finish h
    · exact (step_grows h (fun msg h => hmsg ⟨msg, h⟩) (fun i h => hfinish ⟨i, h⟩)).toLogs

theorem logOk_of_run {ok : State V → Action V → Prop} {as : List (Action V)}
    (hrun : Transition.Run (step cfg) ok .init as s) : LogOk s := by
  refine hrun.invariant (I := LogOk) (fun _ _ _ hs _ hstep => (step_logs hstep).ok hs) ⟨?_, ?_⟩
  · simp [init, remembers]
  · intro before entry after heq
    simp [init] at heq

/-- A task ends: the stage is closed if its handler raised, and else nothing changes. -/
theorem finishTask_vital :
    (Closed (s.finishTask i task) ∧ (s.finishTask i task).drain = s.drain ∧
      (s.finishTask i task).pending = s.pending) ∨
    (task.raised = none ∧ (s.finishTask i task).vital = s.vital) := by
  unfold finishTask
  cases task.raised with
  | some error =>
    refine .inl ⟨closed_onBackgroundTaskDone, ?_⟩
    dsimp only
    split <;> exact ⟨rfl, rfl⟩
  | none =>
    refine .inr ⟨rfl, ?_⟩
    dsimp only
    split <;> rfl

/-- The watcher that goes on, or whose transfer is acknowledged. -/
def Action.watcher : Action V → Option ℕ
  | .ackTransfer k _ | .watchDone k _ => some k
  | _ => none

theorem step_steady (h : step cfg s a = some s') (hwatcher : a.watcher = none) :
    Steady s s' := by
  cases hx : a.receivesFor s with
  | some x =>
    cases a with
    | dataReady msg =>
      simp only [step, receive_eq_some, Option.some.injEq] at h
      exact h.2 ▸ .same rfl
    | finish i =>
      obtain ⟨task, -, -, -, rfl⟩ := resumeInTurn_eq_some.mp h
      rcases @finishTask_vital V s i task with ⟨hclosed, -, hpending⟩ | ⟨-, hvital⟩
      · exact .of_closed hclosed hpending
      · exact .same hvital
    | _ => exact .same (step_piece h hx (by simp) (by simp)).vital
  | none =>
    cases a with
    | abort requestId =>
      simp only [step, receive_eq_some, Option.some.injEq] at h
      exact h.2 ▸ .same rfl
    | localFailureSent k raised =>
      simp only [step, localFailureSent] at h
      split at h
      · cases raised <;> exact Option.some.inj h ▸ .same rfl
      · cases h
    | taskFailureSent i raised =>
      obtain ⟨task, -, -, rfl⟩ := resume_eq_some.mp h
      cases raised <;> exact .same rfl
    | ackTransfer k error => simp [Action.watcher] at hwatcher
    | watchDone k raised => simp [Action.watcher] at hwatcher
    | emit | take | startJob | jobDone | joined | drainSent | drainReturned | drainRaised =>
      exact (step_sends h trivial).choose_spec.toSteady
    | _ => exact absurd trivial (not_receives_of_step h hx)

end Omni.Stage
