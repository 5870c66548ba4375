import Omni.Stage.Closing
import Omni.Stage.Receiving

/-!
# A failure of one request

The outbox drain, the receive tasks and the watchers of transfers share one callback, which closes
the stage when any of them raises. Whatever raises for one request leaves one of them.
-/

namespace Omni.Stage

open State Option

variable {V : Type} {cfg : Config V} {s s' t : State V} {r error : String} {k : ℕ} {job : Job V}
  {a : Action V}

/-- The drain awaits coroutines for a chunk, or has crashed. -/
def DrainPc.AwaitsJobs (pc : DrainPc V) : Prop :=
  (∃ requestId, pc = .streams requestId) ∨ pc = .crashed

/-- A drain that has crashed has closed the stage, and only a chunk has coroutines. -/
structure Attended (s : State V) : Prop where
  crashed : s.drain = .crashed → Closed s
  jobs : s.jobs = [] ∨ s.drain.AwaitsJobs

theorem raiseJob_crashed (h : s.drain.AwaitsJobs) :
    (s.raiseJob k error).drain = .crashed := by
  unfold raiseJob
  split
  · rfl
  next hnot =>
    rcases h with ⟨requestId, hstreams⟩ | hcrashed
    · exact absurd hstreams (hnot requestId)
    · exact hcrashed

/-- A coroutine that raises leaves the drain awaiting its coroutines, or crashes it. -/
theorem raiseJob_awaitsJobs (h : s.drain.AwaitsJobs) :
    (s.raiseJob k error).drain.AwaitsJobs :=
  .inr (raiseJob_crashed h)

/-- The drain while a coroutine begins. -/
theorem sendStreamToTarget_awaitsJobs (h : s.drain.AwaitsJobs) :
    (s.sendStreamToTarget cfg k job).drain.AwaitsJobs := by
  obtain ⟨t, ⟨error, heq⟩ | ⟨pc, heq, -⟩, hdrain, -⟩ := @sendStreamToTarget_cases V cfg s k job
  · exact heq ▸ raiseJob_awaitsJobs (hdrain ▸ h)
  · exact heq ▸ (hdrain ▸ h : t.drain.AwaitsJobs)

theorem sendStreamToTarget_crashed (h : s.drain.AwaitsJobs)
    (hfails : ChunkFails cfg job.target job.data) :
    (s.sendStreamToTarget cfg k job).drain = .crashed := by
  unfold sendStreamToTarget
  split
  · exact raiseJob_crashed h
  next hendpoint =>
    split
    next hsame =>
      split
      · exact raiseJob_crashed h
      next stages hstages =>
        have hunknown : job.target ∉ stages := by
          rcases hfails with (hno | ⟨-, hnot⟩) | ⟨hnot, -⟩
          · exact absurd hno hendpoint
          · exact hnot stages hstages
          · exact absurd hsame hnot
        rw [if_pos hunknown]
        exact raiseJob_crashed h
    next hsame =>
      split
      · exact raiseJob_crashed h
      next hdirect =>
        rcases hfails with (hno | ⟨hnot, -⟩) | ⟨-, error, herror⟩
        · exact absurd hno hendpoint
        · exact absurd hnot hsame
        · rw [hdirect] at herror
          cases herror

/-- The coroutines when a message of the outbox is handled. -/
theorem handleOutgoing_jobs {x : String} {out : Outgoing V} (h : s.jobs = []) :
    (s.handleOutgoing cfg x out).jobs = [] ∨ (s.handleOutgoing cfg x out).drain.AwaitsJobs := by
  unfold handleOutgoing
  split
  · exact .inl (routeResult_jobs.trans h)
  · split
    · unfold sendStreamToCoordinator
      split
      · exact .inl h
      · split <;> exact .inl h
    · exact .inr (.inl ⟨x, rfl⟩)
  · exact .inr (sendStreamToTarget_awaitsJobs (.inl ⟨x, rfl⟩))
  · exact .inl h

/-- Only a chunk has coroutines, after every step. -/
theorem jobs_step (h : s.jobs = [] ∨ s.drain.AwaitsJobs) (hstep : step cfg s a = some s') :
    s'.jobs = [] ∨ s'.drain.AwaitsJobs := by
  by_cases ha : a.Sends
  · cases a with
    | emit x out => exact some.inj hstep ▸ h
    | take =>
      simp only [step, take] at hstep
      split at hstep
      next x out rest hidle hout =>
        have hnone : s.jobs = [] := h.resolve_right (by simp [DrainPc.AwaitsJobs, hidle])
        cases hstep
        split
        · exact handleOutgoing_jobs hnone
        · exact .inl hnone
      · cases hstep
    | startJob k =>
      obtain ⟨job, hjob, -, rfl⟩ := startJob_eq_some.mp hstep
      have hsome : s.jobs ≠ [] := List.ne_nil_of_mem (List.mem_of_getElem? hjob)
      exact .inr (sendStreamToTarget_awaitsJobs (h.resolve_left hsome))
    | jobDone k raised =>
      simp only [step, jobDone] at hstep
      split at hstep
      · cases hstep
      next job hjob =>
        have hawaits := h.resolve_left (List.ne_nil_of_mem (List.mem_of_getElem? hjob))
        split at hstep
        · exact some.inj hstep ▸ .inr hawaits
        · exact some.inj hstep ▸ .inr hawaits
        · exact some.inj hstep ▸ .inr (raiseJob_awaitsJobs hawaits)
        · exact some.inj hstep ▸ .inr (raiseJob_awaitsJobs hawaits)
        · cases hstep
    | joined =>
      obtain ⟨-, -, rfl⟩ := joined_eq_some.mp hstep
      exact .inl rfl
    | drainSent =>
      have hnone : s.jobs = [] := h.resolve_right (by
        rintro (⟨x, hx⟩ | hx) <;> simp [step, drainSent, hx] at hstep)
      simp only [step, drainSent] at hstep
      split at hstep
      · exact some.inj hstep ▸ .inl hnone
      · exact some.inj hstep ▸ .inl hnone
      · cases hstep
    | drainReturned =>
      have hnone : s.jobs = [] := h.resolve_right (by
        rintro (⟨x, hx⟩ | hx) <;> simp [step, drainReturned, hx] at hstep)
      simp only [step, drainReturned] at hstep
      split at hstep
      · exact some.inj hstep ▸ .inl hnone
      · exact some.inj hstep ▸ .inl (routing_sendSignals.1.trans hnone)
      · exact some.inj hstep ▸ .inl hnone
      · exact some.inj hstep ▸ .inl (routing_sendPayloads.1.trans hnone)
      · exact some.inj hstep ▸ .inl hnone
      · cases hstep
    | drainRaised error =>
      obtain ⟨-, rfl⟩ := drainRaised_eq_some.mp hstep
      exact .inr (.inr rfl)
    | _ => exact ha.elim
  · obtain ⟨-, hdrain, hjobs⟩ := step_not_sends hstep ha
    rwa [hdrain, hjobs]

theorem Attended.step (h : Attended s) (hstep : step cfg s a = some s') :
    Attended s' := by
  refine ⟨fun hcrashed => ?_, jobs_step h.jobs hstep⟩
  cases hwatcher : a.watcher with
  | none =>
    have hsteady := step_steady hstep hwatcher
    rcases hsteady.crashed hcrashed with hbefore | hclosed
    · exact hsteady.closed (h.crashed hbefore)
    · exact hclosed
  | some k =>
    obtain ⟨hclosed, hdrain, -⟩ := step_watcher hstep hwatcher
    exact hclosed (h.crashed (hdrain ▸ hcrashed))

theorem attended_of_run {as : List (Action V)}
    (hrun : Transition.Run (step cfg) Transition.anyAction .init as s) : Attended s :=
  hrun.invariant (I := Attended) (fun _ _ _ h _ hstep => h.step hstep)
    ⟨fun h => by simp [init] at h, .inl rfl⟩

/-- A coroutine that raises takes no message from the outbox. -/
theorem raiseJob_outbox : (s.raiseJob k error).outbox = s.outbox := by
  unfold raiseJob
  split <;> rfl

/-- A coroutine that begins takes no message from the outbox, and leaves a crashed drain crashed. -/
theorem sendStreamToTarget_of_crashed (h : s.drain = .crashed) :
    (s.sendStreamToTarget cfg k job).drain = .crashed ∧
      (s.sendStreamToTarget cfg k job).outbox = s.outbox := by
  obtain ⟨t, ⟨error, heq⟩ | ⟨pc, heq, -⟩, hdrain, houtbox, -⟩ :=
    @sendStreamToTarget_cases V cfg s k job
  · rw [heq, raiseJob_outbox]
    exact ⟨raiseJob_crashed (.inr (hdrain.trans h)), houtbox⟩
  · exact heq ▸ ⟨hdrain.trans h, houtbox⟩

/-- **A drain that has crashed takes no more messages.** -/
theorem crashed_step (h : s.drain = .crashed) (hstep : step cfg s a = some s') :
    s'.drain = .crashed ∧ s.outbox <+: s'.outbox := by
  by_cases ha : a.Sends
  · cases a with
    | emit x out => exact some.inj hstep ▸ ⟨h, List.prefix_append _ _⟩
    | startJob k =>
      obtain ⟨job, -, -, rfl⟩ := startJob_eq_some.mp hstep
      obtain ⟨hdrain, houtbox⟩ := sendStreamToTarget_of_crashed h
      exact ⟨hdrain, houtbox ▸ List.prefix_rfl⟩
    | jobDone k raised =>
      have hraised {error : String} : (s.raiseJob k error).drain = .crashed ∧
          s.outbox <+: (s.raiseJob k error).outbox :=
        ⟨raiseJob_crashed (.inr h), raiseJob_outbox ▸ List.prefix_rfl⟩
      simp only [step, jobDone] at hstep
      split at hstep
      · cases hstep
      · split at hstep
        · exact some.inj hstep ▸ ⟨h, List.prefix_rfl⟩
        · exact some.inj hstep ▸ ⟨h, List.prefix_rfl⟩
        · exact some.inj hstep ▸ hraised
        · exact some.inj hstep ▸ hraised
        · cases hstep
    | take | joined | drainSent | drainReturned | drainRaised =>
      simp [step, take, joined, drainSent, drainReturned, drainRaised, h] at hstep
    | _ => exact ha.elim
  · obtain ⟨houtbox, hdrain, -⟩ := step_not_sends hstep ha
    exact ⟨hdrain.trans h, houtbox ▸ List.prefix_rfl⟩

/-- What shares the callback that closes the stage. -/
inductive Background
  /-- The outbox drain, with the coroutines it awaits. -/
  | outboxDrain
  | receiveTask (i : ℕ)
  /-- The watcher of a transfer. -/
  | ackWatcher (k : ℕ)
  deriving DecidableEq

/-- What an action is a step of, or decides. -/
def Action.background : Action V → Option Background
  | .take | .startJob _ | .jobDone .. | .joined | .drainSent | .drainReturned | .drainRaised _ =>
    some .outboxDrain
  | .startReceive i _ | .readDone i _ | .discardRead i | .ackSent i _ | .discardAckSent i _
  | .turn i _ | .taskFailureSent i _ | .finish i => some (.receiveTask i)
  | .ackTransfer k _ | .watchDone k _ => some (.ackWatcher k)
  | _ => none

/-- The steps of one task. -/
def ownStep (cfg : Config V) (task : Background) (s : State V) (a : Action V) : Option (State V) :=
  if a.background = some task then step cfg s a else none

/-- An action by which something goes wrong for one request. -/
inductive Fails (cfg : Config V) (s : State V) : Action V → String → Prop
  /-- `get_stream_done_targets` or `get_next` raises, a target has no endpoint, a projector raises,
  or the payload cannot be sent, before the first await of `_route_result`. -/
  | route {r : String} {result : V} {rest : List (String × Outgoing V)} : s.drain = .idle →
      s.outbox = (r, .result result) :: rest → r ∈ s.activeRequests →
      RouteFails cfg s r result → Fails cfg s .take r
  /-- The same things, after one of its awaits. -/
  | routeReturned {r : String} : s.drain.routes = some r → ReturnFails cfg s →
      Fails cfg s .drainReturned r
  /-- A chunk cannot be sent to its target. -/
  | chunk {r target : String} {data : V} {rest : List (String × Outgoing V)} : s.drain = .idle →
      s.outbox = (r, .stream data (some target)) :: rest → r ∈ s.activeRequests →
      ChunkFails cfg target data → Fails cfg s .take r
  /-- The same for one of the stages that chunks go to. -/
  | streamed {k : ℕ} {job : Job V} : s.jobs[k]? = some job → job.pc = .created →
      ChunkFails cfg job.target job.data → Fails cfg s (.startJob k) job.requestId
  /-- A put of the drain raises, or the handler in the same process that it awaits. -/
  | put {r error : String} : s.drain.requestId = some r → Fails cfg s (.drainRaised error) r
  /-- The same for a chunk. -/
  | chunkPut {k : ℕ} {job : Job V} {error : String} : s.jobs[k]? = some job →
      Fails cfg s (.jobDone k (some error)) job.requestId
  /-- The input handler raises in a receive task. In a local call it raises at the caller. -/
  | input {i : ℕ} {task : ReceiveTask V} {ref : DataRef V} {merge : Merge V} {error : String} :
      s.receiveTasks[i]? = some task → task.msg.handler = .dataReady →
      task.msg.dataRef = some ref → task.exc = none → task.msg.requestId ∉ s.abortedIds →
      merge.merged = .error error → Fails cfg s (.turn i merge) task.msg.requestId
  /-- The receiver reports that it could not read a transfer. -/
  | negativeAck {k : ℕ} {transfer : Transfer} {error : String} :
      s.pending[k]? = some transfer → Fails cfg s (.ackTransfer k (some error)) transfer.requestId

/-- A task will close the stage when it ends. -/
def Doomed (s : State V) : Background → Prop
  | .outboxDrain => False
  | .receiveTask i => ∃ task error, s.receiveTasks[i]? = some task ∧ task.pc = .ending ∧
      task.raised = some error ∧ s.predecessorDone task = true
  | .ackWatcher k => ∃ transfer error, s.pending[k]? = some transfer ∧
      transfer.ack = .failed error

theorem predecessorDone_step {task : ReceiveTask V} (hstep : step cfg s a = some s')
    (h : s.predecessorDone task = true) :
    s'.predecessorDone task = true := by
  unfold predecessorDone at h ⊢
  cases hpredecessor : task.predecessor with
  | none => rfl
  | some p =>
    rw [hpredecessor, all_some] at h
    exact taskDone_step hstep h

/-- The stage closes by the next step of a task that is doomed, and until then it stays so. -/
theorem doomed_step {b : Background} (h : Closed s ∨ Doomed s b) (hstep : step cfg s a = some s') :
    Closed s' ∨ Doomed s' b ∧ a.background ≠ some b := by
  rcases h with hclosed | hdoomed
  · exact .inl (hclosed.step hstep)
  cases b with
  | outboxDrain => exact hdoomed.elim
  | receiveTask i =>
    obtain ⟨task, error, htask, hpc, hraised, hready⟩ := hdoomed
    by_cases hown : a.task = some i
    · by_cases hfinish : a = .finish i
      · subst hfinish
        obtain ⟨other, hother, -, -, rfl⟩ := resumeInTurn_eq_some.mp hstep
        obtain rfl : task = other := some.inj (htask.symm.trans hother)
        rcases @finishTask_vital V s i task with ⟨hclosed, -⟩ | ⟨hnone, -⟩
        · exact .inl hclosed
        · rw [hraised] at hnone
          cases hnone
      · obtain ⟨other, task', hmoved⟩ := step_task hstep hown hfinish
        obtain rfl : task = other := some.inj (htask.symm.trans hmoved.before)
        exact absurd (.inl hpc) hmoved.not_delivered
    · refine .inr ⟨⟨task, error, task_kept hstep htask hown, hpc, hraised,
        predecessorDone_step hstep hready⟩, fun hbackground => hown ?_⟩
      cases a <;> simp_all [Action.background, Action.task]
  | ackWatcher k =>
    obtain ⟨transfer, error, hpending, hack⟩ := hdoomed
    by_cases hwatch : ∃ raised, a = .watchDone k raised
    · obtain ⟨raised, rfl⟩ := hwatch
      simp only [step, watchDone, hpending, hack, Option.some.injEq] at hstep
      exact .inl (hstep ▸ closed_onBackgroundTaskDone)
    · have hnot : ∀ raised, a ≠ .watchDone k raised := fun raised heq => hwatch ⟨raised, heq⟩
      have hkept := transfer_kept hstep hpending hack hnot
      refine .inr ⟨⟨transfer, error, hkept, hack⟩, fun hbackground => ?_⟩
      cases a with
      | ackTransfer j e =>
        obtain rfl : j = k := by simpa [Action.background] using hbackground
        simp only [step, receive_eq_some] at hstep
        obtain ⟨other, hother, hwaiting, -⟩ := ackTransfer_eq_some.mp hstep.2
        obtain rfl : transfer = other := some.inj (hpending.symm.trans hother)
        rw [hack] at hwaiting
        cases hwaiting
      | watchDone j raised =>
        obtain rfl : j = k := by simpa [Action.background] using hbackground
        exact hnot raised rfl
      | _ => simp [Action.background] at hbackground

/-- A task that is doomed makes its next step, whatever else goes on, and the stage closes. -/
theorem doomed_closes {b : Background} (h : Closed s ∨ Doomed s b) :
    Transition.Inevitable (ownStep cfg b) Closed s := by
  rcases h with hclosed | hdoomed
  · exact .done hclosed
  refine .later ?_ fun a u hstep => ?_
  · cases b with
    | outboxDrain => exact hdoomed.elim
    | receiveTask i =>
      obtain ⟨task, error, htask, hpc, -, hready⟩ := hdoomed
      refine ⟨.finish i, s.finishTask i task, ?_⟩
      simp [ownStep, Action.background, step, finish, resumeInTurn, htask, hpc, hready]
    | ackWatcher k =>
      obtain ⟨transfer, error, hpending, hack⟩ := hdoomed
      refine ⟨.watchDone k none, (s.setAck k .ended).onBackgroundTaskDone error, ?_⟩
      simp [ownStep, Action.background, step, watchDone, hpending, hack]
  · obtain ⟨hown, hstep⟩ := ite_none_right_eq_some.mp hstep
    rcases doomed_step (.inr hdoomed) hstep with hclosed | ⟨-, hother⟩
    · exact .done hclosed
    · exact absurd hown hother

theorem doomed_raise {i : ℕ} {task : ReceiveTask V} (htask : s.receiveTasks[i]? = some task)
    (hready : s.predecessorDone task = true) (hpc : task.pc ≠ .ended) :
    Doomed (s.raise i error) (.receiveTask i) := by
  refine ⟨{ task with pc := .ending, raised := some error }, error, ?_, rfl, rfl, ?_⟩
  · simp [raise, htask]
  · unfold predecessorDone taskDone at hready ⊢
    cases hpredecessor : task.predecessor with
    | none => rfl
    | some p =>
      have hne : i ≠ p := by
        rintro rfl
        simp [hpredecessor, htask, hpc] at hready
      simpa [raise, hpredecessor, hne] using hready

/-- **A failure dooms its task**: the stage is closed at once, or by the next step of the task. -/
theorem fails_doomed (hs : Attended s) (hfails : Fails cfg s a r) (hstep : step cfg s a = some s') :
    ∃ b, a.background = some b ∧ (Closed s' ∨ Doomed s' b) := by
  have hattended := hs.step hstep
  cases hfails with
  | route hidle hout hactive hroute =>
    simp only [step, take, hidle, hout, if_pos hactive] at hstep
    cases hstep
    exact ⟨_, rfl, .inl (hattended.crashed (routeResult_crashed.mpr hroute))⟩
  | routeReturned hroutes hreturn =>
    exact ⟨_, rfl, .inl (hattended.crashed ((drainReturned_crashed hstep).mpr hreturn))⟩
  | chunk hidle hout hactive hchunk =>
    simp only [step, take, hidle, hout, if_pos hactive] at hstep
    cases hstep
    refine ⟨_, rfl, .inl (hattended.crashed ?_)⟩
    exact sendStreamToTarget_crashed (.inl ⟨_, rfl⟩) hchunk
  | @streamed k job hjob hpc hchunk =>
    obtain ⟨other, hother, -, rfl⟩ := startJob_eq_some.mp hstep
    obtain rfl : job = other := some.inj (hjob.symm.trans hother)
    have hawaits := hs.jobs.resolve_left (List.ne_nil_of_mem (List.mem_of_getElem? hjob))
    exact ⟨_, rfl, .inl (hattended.crashed (sendStreamToTarget_crashed hawaits hchunk))⟩
  | put hdrain =>
    obtain ⟨-, rfl⟩ := drainRaised_eq_some.mp hstep
    exact ⟨_, rfl, .inl closed_onBackgroundTaskDone⟩
  | @chunkPut k job error hjob =>
    have hawaits := hs.jobs.resolve_left (List.ne_nil_of_mem (List.mem_of_getElem? hjob))
    simp only [step, jobDone, hjob] at hstep
    refine ⟨_, rfl, .inl (hattended.crashed ?_)⟩
    split at hstep
    · simp at *
    · simp at *
    · exact some.inj hstep ▸ raiseJob_crashed hawaits
    · exact some.inj hstep ▸ raiseJob_crashed hawaits
    · cases hstep
  | @input i task ref merge error htask hhandler href hexc hnot hmerge =>
    obtain ⟨other, hother, hpc, hready, rfl⟩ := resumeInTurn_eq_some.mp hstep
    obtain rfl : task = other := some.inj (htask.symm.trans hother)
    refine ⟨_, rfl, .inr ?_⟩
    simp only [takeTurn, hhandler, href, hexc, receivePayloadFromStage, if_neg hnot, hmerge]
    exact doomed_raise htask hready (by simp [hpc])
  | @negativeAck k transfer error hpending =>
    simp only [step, receive_eq_some] at hstep
    obtain ⟨other, hother, -, rfl⟩ := ackTransfer_eq_some.mp hstep.2
    refine ⟨_, rfl, .inr ⟨{ other with ack := .failed error }, error, ?_, rfl⟩⟩
    simp [setAck, hother]

/-- **Every failure of one request closes the stage**: whatever happens after it, the task that the
failure belongs to goes on to end, and then the stage is closed, and stays closed in every run. -/
theorem failure_closes_stage {a : Action V} {as bs : List (Action V)}
    (hrun : Transition.Run (step cfg) Transition.anyAction .init as s) (hfails : Fails cfg s a r)
    (hstep : step cfg s a = some s')
    (hrest : Transition.Run (step cfg) Transition.anyAction s' bs t) :
    ∃ b, a.background = some b ∧ Transition.Inevitable (ownStep cfg b)
      (fun u => ∀ cs v, Transition.Run (step cfg) Transition.anyAction u cs v → Closed v) t := by
  obtain ⟨b, hb, hdoomed⟩ := fails_doomed (attended_of_run hrun) hfails hstep
  have hkept : Closed t ∨ Doomed t b :=
    hrest.invariant (I := fun t => Closed t ∨ Doomed t b)
      (fun _ _ _ h _ hstep => (doomed_step h hstep).imp_right And.left) hdoomed
  have hcloses : Transition.Inevitable (ownStep cfg b) Closed t := doomed_closes hkept
  refine ⟨b, hb, hcloses.mono ?_⟩
  intro u hclosed cs v hrun
  exact hclosed.run hrun

/-- A stage whose `get_next` raises for the request `r`. -/
def routingConfig : Config ℕ where
  name := "talker"
  endpoints := []
  streamTargets := []
  sameProcessTargets := []
  localDispatcher := none
  hasStreamQueue := false
  canAcceptStreamBeforePayload := false
  isTerminal := true
  getNext requestId _ := if requestId = "r" then .error "no route" else .ok none
  getStreamDoneTargets := none
  projectPayload _ := none
  isIsolated _ _ := .ok true
  payloadIsDirect _ _ := .ok false
  chunkIsDirect _ _ := .ok false
  iterationOrder ids := ids
  iterationOrder_perm _ := .refl _

/-- The stage has computed the results of two requests. -/
def resultsState : State ℕ :=
  { init with
    activeRequests := ["q", "r"]
    outbox := [("r", .result 1), ("q", .result 2)]
    log := [.executed "r" 1, .executed "q" 2] }

/-- The stage after it could not route the result of `r`. -/
def unroutedState : State ℕ :=
  { resultsState with
    running := false
    controlPlaneOpen := false
    backgroundTaskError := some "no route"
    outbox := [("q", .result 2)]
    drain := .crashed }

theorem run_resultsState : Transition.Run (step routingConfig) Transition.anyAction .init
    [.submit "r" 1, .submit "q" 2, .emit "r" (.result 1), .emit "q" (.result 2)] resultsState :=
  Transition.run_of_exec rfl

/-- `get_next` raises for the result of `r`. -/
theorem fails_resultsState : Fails routingConfig resultsState .take "r" := by
  refine .route rfl rfl (by decide) ?_
  simp [RouteFails, streamDoneTargets, SignalsFail, RouteNextFails, routingConfig]

/-- `get_next` raises for one request. The stage closes, no failure completion is sent for the
request, and the result of the other request stays in the outbox in every run. -/
theorem failure_spreads : ∃ s s' : State ℕ, Transition.Reachable (step routingConfig) .init s ∧
    Fails routingConfig s .take "r" ∧ step routingConfig s .take = some s' ∧ Closed s' ∧
    (∀ task error, .failed task "r" error ∉ s'.log) ∧
    ∀ as t, Transition.Run (step routingConfig) Transition.anyAction s' as t →
      t.drain = .crashed ∧ ("q", .result 2) ∈ t.outbox := by
  refine ⟨resultsState, unroutedState, ⟨_, run_resultsState⟩, fails_resultsState, rfl,
    ⟨rfl, rfl, by simp [unroutedState]⟩, by simp [unroutedState, resultsState], ?_⟩
  intro as t hrun
  refine hrun.invariant (I := fun t => t.drain = .crashed ∧ ("q", .result 2) ∈ t.outbox)
    (fun u a v hu _ hstep => ?_) ⟨rfl, by simp [unroutedState]⟩
  obtain ⟨hdrain, houtbox⟩ := crashed_step hu.1 hstep
  exact ⟨hdrain, houtbox.subset hu.2⟩

/-- The failure of `r` closes the stage at once. -/
theorem failure_closes_stage_unrouted : ∃ b, (Action.take : Action ℕ).background = some b ∧
    Transition.Inevitable (ownStep routingConfig b)
      (fun u => ∀ cs v, Transition.Run (step routingConfig) Transition.anyAction u cs v → Closed v)
      unroutedState :=
  failure_closes_stage run_resultsState fails_resultsState rfl (.nil _)

end Omni.Stage
