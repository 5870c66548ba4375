import Omni.Stage.Failing
import Omni.Stage.Sending

/-!
# What an abort leaves behind

`_on_abort` clears what the stage holds of a request. The handlers in progress write nothing
afterwards, except for coroutines that send a chunk and have not yet begun, and for a
`_route_result` that raises after it has gone on with the signals.
-/

namespace Omni.Stage

open State Option

variable {V : Type} {cfg : Config V} {s s' : State V} {x r target error : String} {result : V}
  {all rest targets : List String} {k : ℕ} {single : Bool} {a : Action V} {job : Job V}

/-- The request whose result is being routed. -/
def DrainPc.routes : DrainPc V → Option String
  | .signals requestId .. | .completing requestId _ | .payloads requestId .. => some requestId
  | _ => none

/-- The request that the drain is working on. -/
def DrainPc.requestId : DrainPc V → Option String
  | .streams requestId | .toCoordinator requestId .. | .failing requestId => some requestId
  | pc => pc.routes

/-- No handler of a request is in progress. -/
structure Quiet (s : State V) (r : String) : Prop where
  tasks : ∀ task ∈ s.receiveTasks, task.msg.requestId = r → task.pc = .ended
  localCalls : r ∉ s.localCalls
  drain : s.drain.requestId ≠ some r
  jobs : ∀ job ∈ s.jobs, job.requestId = r → job.pc = .ended

/-- No coroutine that was passed to `asyncio.gather` for a chunk of a request has yet to begin. -/
def Begun (s : State V) (r : String) : Prop :=
  ∀ job ∈ s.jobs, job.requestId = r → job.pc ≠ .created

/-- Whether `_route_result` raises in a step for a request. -/
def RoutingRaises (cfg : Config V) (r : String) (s : State V) : Action V → Prop
  | .drainReturned => s.drain.routes = some r ∧ ReturnFails cfg s
  | .drainRaised _ => s.drain.routes = some r
  | _ => False

/-- The steps after an abort: the request is in `_aborted`, and its routing does not raise. -/
def Remembered (cfg : Config V) (r : String) (s : State V) (a : Action V) : Prop :=
  r ∈ s.abortedIds ∧ ¬RoutingRaises cfg r s a

/-- What holds of a request that was aborted. -/
structure Gone (s : State V) (r : String) : Prop where
  maps : (s.held r).untargeted = .nothing
  targets : s.drain.routes ≠ some r → s.held r = .nothing
  begun : Begun s r

theorem Gone.not_active (h : Gone s r) : r ∉ s.activeRequests := by
  have hactive := congrArg Held.active h.maps
  simpa [held, Held.untargeted, Held.nothing] using hactive

/-- Steps that change nothing about the request. -/
theorem Gone.of_same (h : Gone s r) (hheld : s'.held r = s.held r)
    (hroutes : s'.drain.routes = s.drain.routes) (hbegun : Begun s' r) : Gone s' r :=
  ⟨hheld ▸ h.maps, by rw [hheld, hroutes]; exact h.targets, hbegun⟩

/-- The drain goes on, and nothing is held of the request. -/
theorem Gone.of_nothing (hheld : s'.held r = .nothing) (hbegun : Begun s' r) : Gone s' r :=
  ⟨by rw [hheld]; rfl, fun _ => hheld, hbegun⟩

/-- `_on_abort` leaves nothing, if all coroutines for the request have begun. -/
theorem gone_onAbort (hbegun : Begun s r) : Gone (s.onAbort cfg r) r :=
  .of_nothing held_clearRequestState hbegun

/-- `_route_result` of a request that was aborted: either it goes on, or it raises, or it has
cleared what is held. -/
def Routing (r : String) (s s' : State V) : Prop :=
  s'.jobs = s.jobs ∧ ((s'.drain.routes = some r ∧ (s'.held r).untargeted = (s.held r).untargeted) ∨
    s'.drain = .crashed ∨ s'.held r = .nothing)

theorem routing_sendStreamSignalToTarget :
    Routing r s (s.sendStreamSignalToTarget cfg r result target rest all) := by
  unfold sendStreamSignalToTarget
  split
  · exact ⟨rfl, .inr (.inl rfl)⟩
  · split
    · split
      · exact ⟨rfl, .inr (.inl rfl)⟩
      · split
        · exact ⟨rfl, .inr (.inl rfl)⟩
        · exact ⟨rfl, .inl ⟨rfl, rfl⟩⟩
    · exact ⟨rfl, .inl ⟨rfl, rfl⟩⟩

theorem routing_sendToStage :
    Routing r s (s.sendToStage cfg r result target rest all single) := by
  unfold sendToStage
  split
  · exact ⟨rfl, .inr (.inl rfl)⟩
  · split
    · exact ⟨rfl, .inr (.inl rfl)⟩
    · split
      · split
        · exact ⟨rfl, .inr (.inl rfl)⟩
        · split
          · exact ⟨rfl, .inr (.inl rfl)⟩
          · exact ⟨rfl, .inl ⟨rfl, rfl⟩⟩
      · split
        · exact ⟨rfl, .inr (.inl rfl)⟩
        · exact ⟨rfl, .inl ⟨rfl, rfl⟩⟩

theorem routing_sendPayloads :
    Routing r s (s.sendPayloads cfg r result targets all single) := by
  cases targets with
  | nil => exact ⟨rfl, .inr (.inr held_clearRequestState)⟩
  | cons => exact routing_sendToStage

theorem routing_routeNext :
    Routing r s (s.routeNext cfg r result all) := by
  unfold routeNext
  split
  · exact ⟨rfl, .inr (.inl rfl)⟩
  · exact ⟨rfl, .inl ⟨rfl, rfl⟩⟩
  · exact routing_sendPayloads

theorem routing_sendSignals :
    Routing r s (s.sendSignals cfg r result targets all) := by
  cases targets with
  | nil => exact routing_routeNext
  | cons => exact routing_sendStreamSignalToTarget

/-- `_route_result` leaves the coroutines of chunks alone. -/
theorem routeResult_jobs : (s.routeResult cfg x result).jobs = s.jobs := by
  unfold routeResult
  split
  · rfl
  · exact routing_sendSignals.1

/-- Routing goes on for a request that was aborted. -/
theorem Gone.routing (h : Gone s r) (hrouting : Routing r s s') (hnot : s'.drain ≠ .crashed) :
    Gone s' r := by
  obtain ⟨hjobs, ⟨hroutes, hheld⟩ | hcrashed | hnothing⟩ := hrouting
  · exact ⟨hheld ▸ h.maps, fun hno => absurd hroutes hno, by rw [Begun, hjobs]; exact h.begun⟩
  · exact absurd hcrashed hnot
  · exact .of_nothing hnothing (by rw [Begun, hjobs]; exact h.begun)

/-- The drain works on another request. -/
theorem Gone.other (h : Gone s r) (hdrain : s.drain.routes ≠ some r) (hapart : Apart x s s')
    (hx : x ≠ r) (hbegun : Begun s' r) : Gone s' r :=
  .of_nothing ((hapart r hx.symm).trans (h.targets hdrain)) hbegun

theorem held_takeTurn {i : ℕ} {task : ReceiveTask V} {merge : Merge V}
    (hr : task.msg.requestId ∈ s.abortedIds) : (s.takeTurn cfg i task merge).held = s.held := by
  unfold takeTurn
  split
  · unfold receiveStreamSignal
    rw [if_pos hr]
    split <;> rfl
  · unfold queueStreamError
    rw [if_pos hr]
    rfl
  · unfold receiveStreamChunk
    rw [if_pos hr]
    rfl
  · rfl
  · unfold receivePayloadFromStage
    rw [if_pos hr]
    rfl
  · rfl

theorem held_of_receives (h : step cfg s a = some s') (hx : a.receivesFor s = some r)
    (hr : r ∈ s.abortedIds) : s'.held = s.held := by
  cases a with
  | submit requestId payload =>
    cases hx
    simp only [step, receive_eq_some, Option.some.injEq] at h
    obtain ⟨-, rfl⟩ := h
    rw [onSubmit, if_pos hr]
  | dataReady msg =>
    simp only [step, receive_eq_some, Option.some.injEq] at h
    obtain ⟨-, rfl⟩ := h
    rfl
  | receiveLocalPayload requestId f payload merge =>
    cases hx
    obtain rfl := some.inj h
    rw [receivePayloadFromStage, if_pos hr]
    rfl
  | receiveLocalStreamChunk requestId f chunkId data =>
    cases hx
    obtain rfl := some.inj h
    rw [receiveLocalStreamChunk, if_pos hr]
  | receiveLocalStreamSignal requestId f isDone error =>
    cases hx
    obtain rfl := some.inj h
    rw [receiveStreamSignal, if_pos hr]
    split <;> rfl
  | startReceive i exc =>
    obtain ⟨task, htask, -, rfl⟩ := resume_eq_some.mp h
    obtain rfl : task.msg.requestId = r := by simpa [Action.receivesFor, htask] using hx
    split
    · rfl
    · rw [if_pos hr]
      exact held_startDiscard
    · rw [if_pos hr]
      exact held_startDiscard
  | readDone i exc =>
    obtain ⟨task, -, -, rfl⟩ := resume_eq_some.mp h
    exact held_sendDataAck
  | discardRead i =>
    obtain ⟨task, -, -, rfl⟩ := resume_eq_some.mp h
    exact held_sendDataAck
  | ackSent i raised =>
    obtain ⟨task, -, -, rfl⟩ := resume_eq_some.mp h
    cases raised <;> rfl
  | discardAckSent i raised =>
    obtain ⟨task, -, -, rfl⟩ := resume_eq_some.mp h
    cases raised <;> rfl
  | turn i merge =>
    obtain ⟨task, htask, -, -, rfl⟩ := resumeInTurn_eq_some.mp h
    obtain rfl : task.msg.requestId = r := by simpa [Action.receivesFor, htask] using hx
    exact held_takeTurn hr
  | finish i =>
    obtain ⟨task, -, -, -, rfl⟩ := resumeInTurn_eq_some.mp h
    exact held_finishTask
  | _ => simp [Action.receivesFor] at hx

/-- A coroutine that has begun leaves the others as they are. -/
theorem Begun.setJob {pc : JobPc} (h : Begun s r) (hpc : pc ≠ .created) :
    Begun (s.setJob k pc) r := by
  intro job hjob hr
  obtain ⟨n, hn⟩ := List.mem_iff_getElem?.mp hjob
  unfold State.setJob at hn
  rw [List.getElem?_modify] at hn
  obtain ⟨old, hold, rfl⟩ := map_eq_some_iff.mp hn
  split
  · exact hpc
  next hne =>
    simp only [hne, if_false] at hr
    exact h old (List.mem_of_getElem? hold) hr

/-- A coroutine that raises leaves the others as they are. -/
theorem Begun.raiseJob (h : Begun s r) :
    Begun (s.raiseJob k error) r := by
  unfold State.raiseJob
  split <;> exact h.setJob (by simp)

/-- A coroutine that raises is none of a result. -/
theorem raiseJob_routes :
    (s.raiseJob k error).drain.routes = s.drain.routes := by
  unfold raiseJob
  split
  next hdrain =>
    rw [hdrain]
    rfl
  · rfl

/-- A coroutine that begins is none of a result. -/
theorem sendStreamToTarget_routes :
    (s.sendStreamToTarget cfg k job).drain.routes = s.drain.routes := by
  obtain ⟨t, ⟨error, heq⟩ | ⟨pc, heq, -⟩, hdrain, -⟩ := @sendStreamToTarget_cases V cfg s k job
  · rw [heq, raiseJob_routes, hdrain]
  · exact heq ▸ congrArg DrainPc.routes hdrain

/-- A coroutine begins, and leaves the others as they are. -/
theorem Begun.sendStreamToTarget (h : Begun s r) :
    Begun (s.sendStreamToTarget cfg k job) r := by
  obtain ⟨t, hcase, -, -, hjobs⟩ := @sendStreamToTarget_cases V cfg s k job
  have ht : Begun t r := by rwa [Begun, hjobs]
  rcases hcase with ⟨error, heq⟩ | ⟨pc, heq, hpc⟩
  · exact heq ▸ ht.raiseJob
  · exact heq ▸ ht.setJob hpc

/-- A message of another request is handled. -/
theorem begun_handleOutgoing {out : Outgoing V} (h : Begun s r) (hx : x ≠ r) :
    Begun (s.handleOutgoing cfg x out) r := by
  unfold handleOutgoing
  split
  · rw [Begun, routeResult_jobs]
    exact h
  · split
    · unfold sendStreamToCoordinator
      split
      · exact h
      · split <;> exact h
    · intro job hjob hr
      obtain ⟨target, -, rfl⟩ := List.mem_map.mp hjob
      exact absurd hr hx
  · refine Begun.sendStreamToTarget fun job hjob hr => ?_
    obtain rfl := List.mem_singleton.mp hjob
    exact absurd hr hx
  · exact h

/-- What is held of a request is cleared, after which the drain may work on another one. -/
theorem Gone.cleared (h : Gone s r) (hwhy : s.drain.routes ≠ some r ∨ x = r)
    (hheld : s'.held = (s.clearRequestState x).held) (hbegun : Begun s' r) : Gone s' r := by
  refine .of_nothing ?_ hbegun
  rw [hheld]
  by_cases hx : x = r
  · subst hx
    exact held_clearRequestState
  · rw [apart_clearRequestState r fun heq => hx heq.symm]
    exact h.targets (hwhy.resolve_right hx)

/-- The drain goes on when its await returns. -/
theorem Gone.drainReturned (h : Gone s r) (hnot : ¬RoutingRaises cfg r s .drainReturned)
    (hstep : s.drainReturned cfg = some s') : Gone s' r := by
  have hcrashed : s.drain.routes = some r → s'.drain ≠ .crashed := fun hroutes hcrash =>
    hnot ⟨hroutes, (drainReturned_crashed hstep).mp hcrash⟩
  rw [State.drainReturned] at hstep
  split at hstep
  next hdrain => exact some.inj hstep ▸ h.of_same rfl (by rw [hdrain]; rfl) h.begun
  next x _ _ _ _ hdrain =>
    cases hstep
    by_cases hx : x = r
    · subst hx
      exact h.routing routing_sendSignals (hcrashed (by rw [hdrain]; rfl))
    · exact h.other (by simp [hdrain, DrainPc.routes, hx]) sends_sendSignals.apart hx
        (by rw [Begun, routing_sendSignals.1]; exact h.begun)
  next x _ hdrain =>
    cases hstep
    exact h.cleared (by simp [hdrain, DrainPc.routes]; tauto) rfl h.begun
  next x _ _ _ _ _ _ _ hdrain =>
    cases hstep
    by_cases hx : x = r
    · subst hx
      exact h.routing routing_sendPayloads (hcrashed (by rw [hdrain]; rfl))
    · exact h.other (by simp [hdrain, DrainPc.routes, hx]) sends_sendPayloads.apart hx
        (by rw [Begun, routing_sendPayloads.1]; exact h.begun)
  next x hdrain =>
    cases hstep
    exact h.cleared (.inl (by simp [hdrain, DrainPc.routes])) rfl h.begun
  · cases hstep

/-- **A step after an abort** leaves nothing new. -/
theorem Gone.step (h : Gone s r) (hok : Remembered cfg r s a) (hstep : step cfg s a = some s') :
    Gone s' r := by
  cases hx : a.receivesFor s with
  | some x =>
    have hreceives := step_receives hstep hx
    have hdrain : s'.drain = s.drain := congrArg Sending.drain hreceives.sending
    have hjobs : s'.jobs = s.jobs := congrArg Sending.jobs hreceives.sending
    refine h.of_same ?_ (by rw [hdrain]) (by rw [Begun, hjobs]; exact h.begun)
    by_cases hxr : x = r
    · subst hxr
      rw [held_of_receives hstep hx hok.1]
    · exact hreceives.apart r fun heq => hxr heq.symm
  | none =>
    have hcleared {x : String} {t : State V} (hheld : t.held = (s.clearRequestState x).held)
        (hdrain : t.drain = s.drain) (hjobs : t.jobs = s.jobs) : Gone t r := by
      by_cases hxr : x = r
      · subst hxr
        exact .of_nothing (by rw [hheld, held_clearRequestState])
          (by rw [Begun, hjobs]; exact h.begun)
      · refine h.of_same ?_ (by rw [hdrain]) (by rw [Begun, hjobs]; exact h.begun)
        rw [hheld]
        exact apart_clearRequestState r fun heq => hxr heq.symm
    cases a with
    | abort x =>
      simp only [Omni.Stage.step, receive_eq_some, Option.some.injEq] at hstep
      obtain ⟨-, rfl⟩ := hstep
      exact hcleared rfl rfl rfl
    | emit x out =>
      cases hstep
      exact h.of_same rfl rfl h.begun
    | localFailureSent k raised =>
      simp only [Omni.Stage.step, localFailureSent] at hstep
      split at hstep
      · cases raised with
        | none => exact some.inj hstep ▸ hcleared rfl rfl rfl
        | some => exact some.inj hstep ▸ h.of_same rfl rfl h.begun
      · cases hstep
    | taskFailureSent i raised =>
      obtain ⟨task, -, -, rfl⟩ := resume_eq_some.mp hstep
      cases raised with
      | none => exact hcleared rfl rfl rfl
      | some => exact h.of_same rfl rfl h.begun
    | take =>
      simp only [Omni.Stage.step, take] at hstep
      split at hstep
      next x out rest hidle hout =>
        cases hstep
        have hroutes : s.drain.routes ≠ some r := by simp [hidle, DrainPc.routes]
        split
        next hactive =>
          have hx : x ≠ r := fun heq => h.not_active (heq ▸ hactive)
          have hbegun : Begun { s with outbox := rest } r := h.begun
          exact h.other hroutes (fun y hy => sends_handleOutgoing.apart y hy) hx
            (begun_handleOutgoing hbegun hx)
        · exact h.of_same rfl rfl h.begun
      · cases hstep
    | startJob k =>
      obtain ⟨job, hjob, hpc, rfl⟩ := startJob_eq_some.mp hstep
      have hx : job.requestId ≠ r := fun heq =>
        h.begun job (List.mem_of_getElem? hjob) heq hpc
      exact h.of_same (sends_sendStreamToTarget.apart r hx.symm) sendStreamToTarget_routes
        h.begun.sendStreamToTarget
    | jobDone k raised =>
      simp only [Omni.Stage.step, jobDone] at hstep
      split at hstep
      · cases hstep
      · split at hstep
        · exact some.inj hstep ▸ h.of_same rfl rfl
            (Begun.setJob (s := armPending _ _ _ _) h.begun (by simp))
        · exact some.inj hstep ▸ h.of_same rfl rfl (h.begun.setJob (by simp))
        · exact some.inj hstep ▸ h.of_same (by rw [held_raiseJob]) raiseJob_routes
            h.begun.raiseJob
        · exact some.inj hstep ▸ h.of_same (by rw [held_raiseJob]) raiseJob_routes
            h.begun.raiseJob
        · cases hstep
    | joined =>
      obtain ⟨⟨x, hdrain⟩, -, rfl⟩ := joined_eq_some.mp hstep
      exact .of_nothing (h.targets (by simp [hdrain, DrainPc.routes])) (by simp [Begun])
    | drainSent =>
      simp only [Omni.Stage.step, drainSent] at hstep
      split at hstep
      next hdrain =>
        exact some.inj hstep ▸ h.of_same rfl (by rw [hdrain]; rfl) h.begun
      next hdrain =>
        exact some.inj hstep ▸ h.of_same rfl (by rw [hdrain]; rfl) h.begun
      · cases hstep
    | drainReturned => exact h.drainReturned hok.2 hstep
    | drainRaised error =>
      obtain ⟨-, rfl⟩ := drainRaised_eq_some.mp hstep
      exact .of_nothing (h.targets hok.2) h.begun
    | ackTransfer k error =>
      simp only [Omni.Stage.step, receive_eq_some] at hstep
      obtain ⟨transfer, -, -, rfl⟩ := ackTransfer_eq_some.mp hstep.2
      exact h.of_same rfl rfl h.begun
    | watchDone k raised =>
      obtain ⟨transfer, -, hcase⟩ := watchDone_eq_some hstep
      rcases hcase with rfl | ⟨error, rfl⟩ <;> exact h.of_same rfl rfl h.begun
    | submit | dataReady | receiveLocalPayload | receiveLocalStreamChunk
    | receiveLocalStreamSignal | startReceive | readDone | discardRead | ackSent
    | discardAckSent | turn | finish => exact absurd trivial (not_receives_of_step hstep hx)

/-- **An abort leaves no trace**, if all coroutines that send a chunk of the request have begun when
it arrives, and the request then stays in `_aborted` and its routing does not raise: as soon as a
`_route_result` that was in progress has ended, nothing is held of the request, whatever else goes
on. -/
theorem abort_leaves_no_trace {s₀ s₁ : State V} {as : List (Action V)} (hbegun : Begun s₀ r)
    (habort : step cfg s₀ (.abort r) = some s₁)
    (hrun : Transition.Run (step cfg) (Remembered cfg r) s₁ as s)
    (hrouted : s.drain.routes ≠ some r) : s.held r = .nothing := by
  have hgone : Gone s₁ r := by
    simp only [step, receive_eq_some, Option.some.injEq] at habort
    exact habort.2 ▸ gone_onAbort hbegun
  have hkept : Gone s r :=
    hrun.invariant (I := fun s => Gone s r) (fun _ _ _ h hok hstep => h.step hok hstep) hgone
  exact hkept.targets hrouted

/-- A stage that streams to another one. -/
def streamConfig : Config ℕ where
  name := "thinker"
  endpoints := ["talker"]
  streamTargets := ["talker"]
  sameProcessTargets := []
  localDispatcher := none
  hasStreamQueue := false
  canAcceptStreamBeforePayload := false
  isTerminal := false
  getNext _ _ := .ok (some ["talker"])
  getStreamDoneTargets := none
  projectPayload _ := none
  isIsolated _ _ := .ok true
  payloadIsDirect _ _ := .ok false
  chunkIsDirect _ _ := .ok false
  iterationOrder ids := ids
  iterationOrder_perm _ := .refl _

instance (s : State V) (r : String) : Decidable (Begun s r) :=
  inferInstanceAs (Decidable (∀ job ∈ s.jobs, job.requestId = r → job.pc ≠ .created))

/-- The stage sends a chunk of the request `r`. -/
def sendingState : State ℕ :=
  { init with
    activeRequests := ["r"]
    drain := .streams "r"
    jobs := [⟨"r", 5, "talker", .sending .relay 0⟩] }

/-- The abort arrives while a chunk is being sent. -/
theorem abort_leaves_no_trace_sending :
    ∃ s : State ℕ, s.jobs = [⟨"r", 5, "talker", .ended⟩] ∧ s.held "r" = .nothing := by
  have hbegun : Begun sendingState "r" := by decide
  have habort : step streamConfig sendingState (.abort "r") =
      some (sendingState.onAbort streamConfig "r") := rfl
  have hok : Remembered streamConfig "r" (sendingState.onAbort streamConfig "r")
      (.jobDone 0 none) := ⟨by decide, id⟩
  exact ⟨_, rfl, abort_leaves_no_trace hbegun habort (.single hok rfl) (by decide)⟩

/-- The coroutine for a chunk of the request `r` was created, and has not begun. -/
def createdState : State ℕ :=
  { init with
    activeRequests := ["r"]
    drain := .streams "r"
    jobs := [⟨"r", 5, "talker", .created⟩]
    log := [.executed "r" 1] }

/-- The abort arrives after the coroutine for a chunk was created, and before it begins. All
handlers end, and the stage still holds the chunk counter of the request. -/
theorem abort_before_begin_leaves_trace : ∃ s₀ s₁ s : State ℕ,
    Transition.Reachable (step streamConfig) .init s₀ ∧
      step streamConfig s₀ (.abort "r") = some s₁ ∧
      Transition.Reachable (step streamConfig) s₁ s ∧ "r" ∈ s.abortedIds ∧ Quiet s "r" ∧
      s.streamChunkCounters "r" "talker" = some 1 ∧ s.firstStreamChunkSeen = ["r"] ∧
      s.nonlocalStreamTargets "r" = ["talker"] := by
  have hstart : Transition.Reachable (step streamConfig) .init createdState :=
    ⟨[.submit "r" 1, .emit "r" (.stream 5 none), .take], Transition.run_of_exec rfl⟩
  have hrest := Transition.run_of_isSome (step streamConfig)
    (createdState.onAbort streamConfig "r") [.startJob 0, .jobDone 0 none, .joined]
    (by decide +kernel)
  exact ⟨_, _, _, hstart, rfl, ⟨_, hrest⟩, by decide +kernel,
    ⟨by decide +kernel, by decide +kernel, by decide +kernel, by decide +kernel⟩,
    by decide +kernel, by decide +kernel, by decide +kernel⟩

end Omni.Stage
