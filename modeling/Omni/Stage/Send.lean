import Omni.Stage.Receive

/-!
# What a stage sends

The outbox drain takes one message after the other. It sends a chunk to all its targets at once,
and a result to one target after the other, the signals that its stream is done before the
payloads.
-/

namespace Omni.Stage

variable {V : Type} (cfg : Config V) (s : State V)

/-- An exception leaves the outbox drain. -/
def State.raiseDrain (error : String) : State V :=
  { s with drain := .crashed }.onBackgroundTaskDone error

/-- The text for a stage without an endpoint. -/
def noEndpoint (what target : String) : String :=
  s!"Stage {cfg.name}: no endpoint configured for {what} '" ++ target ++ "'"

/-- The text for a stage without a local dispatcher. -/
def noDispatcher (what target : String) : String :=
  s!"Stage {cfg.name}: same-process {what} '" ++ target ++ "' requires a local dispatcher"

/-- The text of the local dispatcher for a stage it does not know. -/
def notRegistered (target : String) : String :=
  "Local stage target '" ++ target ++ "' is not registered for traffic from '" ++ cfg.name ++ "'"

/-- A transfer by relay is watched until it is acknowledged. -/
def State.armPending (requestId target : String) (transport : Transport) : State V :=
  let watched := if transport = .relay then [⟨requestId, target, .waiting⟩] else []
  { s with pending := s.pending ++ watched }

/-- Coroutine `k` goes on to another await. -/
def State.setJob (k : ℕ) (pc : JobPc) : State V :=
  { s with jobs := s.jobs.modify k fun job => { job with pc := pc } }

/-- An exception leaves coroutine `k`: it is raised at the await of the drain, unless another one
was raised there before. -/
def State.raiseJob (k : ℕ) (error : String) : State V :=
  match s.drain with
  | .streams _ => (s.setJob k .ended).raiseDrain error
  | _ => s.setJob k .ended

/-- The next chunk id of a request for a target. -/
def State.nextChunkId (requestId target : String) : ℕ :=
  (s.streamChunkCounters requestId target).getD 0

/-- A chunk of a request for a target is counted. -/
def State.countChunk (requestId target : String) : State V :=
  let counters := Function.update (s.streamChunkCounters requestId) target
    (some (s.nextChunkId requestId target + 1))
  { s with
    streamChunkCounters := Function.update s.streamChunkCounters requestId counters
    firstStreamChunkSeen := s.firstStreamChunkSeen.insert requestId }

/-- `_send_stream_to_target` up to its await. -/
def State.sendStreamToTarget (k : ℕ) (job : Job V) : State V :=
  let chunkId := s.nextChunkId job.requestId job.target
  if job.target ∉ cfg.endpoints then s.raiseJob k (noEndpoint cfg "stream target" job.target)
  else
    let s := s.countChunk job.requestId job.target
    if job.target ∈ cfg.sameProcessTargets then
      match cfg.localDispatcher with
      | none => s.raiseJob k (noDispatcher cfg "stream target" job.target)
      | some stages =>
        let s := s.recordLocalStreamTarget job.requestId job.target
        if job.target ∉ stages then s.raiseJob k (notRegistered cfg job.target)
        else
          (s.record (.sent job.requestId job.target .localObject (.chunk chunkId job.data))).setJob
            k .calling
    else
      let s := s.recordNonlocalStreamTarget job.requestId job.target
      match cfg.chunkIsDirect job.target job.data with
      | .error error => s.raiseJob k error
      | .ok direct => s.setJob k (.sending (if direct then .direct else .relay) chunkId)

/-- A coroutine that was passed to `asyncio.gather` starts to run. -/
def State.startJob (k : ℕ) : Option (State V) :=
  match s.jobs[k]? with
  | some job => if job.pc = .created then some (s.sendStreamToTarget cfg k job) else none
  | none => none

/-- When a coroutine starts. -/
theorem State.startJob_eq_some {cfg : Config V} {s s' : State V} {k : ℕ} :
    s.startJob cfg k = some s' ↔
      ∃ job, s.jobs[k]? = some job ∧ job.pc = .created ∧ s.sendStreamToTarget cfg k job = s' := by
  unfold State.startJob
  cases s.jobs[k]? <;> simp

/-- What a coroutine of `_send_stream_to_target` awaits returns, or raises. -/
def State.jobDone (k : ℕ) (raised : Option String) : Option (State V) :=
  match s.jobs[k]? with
  | none => none
  | some job =>
    match job.pc, raised with
    | .sending transport chunkId, none =>
      some (((s.record (.sent job.requestId job.target transport (.chunk chunkId
        job.data))).armPending
        job.requestId job.target transport).setJob k .ended)
    | .calling, none => some (s.setJob k .ended)
    | .sending _ _, some error => some (s.raiseJob k error)
    | .calling, some error => some (s.raiseJob k error)
    | _, _ => none

/-- All coroutines for a chunk have returned. -/
def State.joined : Option (State V) :=
  match s.drain with
  | .streams _ =>
    if s.jobs.all (·.pc = .ended) then some { s with drain := .idle, jobs := [] } else none
  | _ => none

/-- When the drain goes on after the coroutines for a chunk. -/
theorem State.joined_eq_some {s s' : State V} : s.joined = some s' ↔
    (∃ requestId, s.drain = .streams requestId) ∧ (∀ job ∈ s.jobs, job.pc = .ended) ∧
      { s with drain := .idle, jobs := [] } = s' := by
  unfold State.joined
  cases s.drain <;> simp

/-- `_send_stream_to_coordinator` up to its await. -/
def State.sendStreamToCoordinator (requestId : String) (data : V) : State V :=
  if ¬cfg.isTerminal then
    s.raiseDrain (s!"Stage '" ++ cfg.name ++ "' emitted untargeted stream chunk but isn't " ++
      "terminal. Set ``terminal=True``, or use ``target=...`` / ``stream_to=[...]``.")
  else if requestId ∈ s.abortedIds then s
  else
    let chunkId := s.nextChunkId requestId "coordinator"
    { s.countChunk requestId "coordinator" with drain := .toCoordinator requestId chunkId data }

/-- `_send_stream_signal_to_target` up to its await. -/
def State.sendStreamSignalToTarget (requestId : String) (result : V) (target : String)
    (rest all : List String) : State V :=
  if target ∉ cfg.endpoints then s.raiseDrain (noEndpoint cfg "stream target" target)
  else if target ∈ cfg.sameProcessTargets then
    match cfg.localDispatcher with
    | none => s.raiseDrain (noDispatcher cfg "stream target" target)
    | some stages =>
      let s := s.recordLocalStreamTarget requestId target
      if target ∉ stages then s.raiseDrain (notRegistered cfg target)
      else
        let s := s.record (.sent requestId target .localObject .done)
        { s with drain := .signals requestId result true target rest all }
  else
    let s := s.recordNonlocalStreamTarget requestId target
    { s with drain := .signals requestId result false target rest all }

/-- The payload for a target, and whether it may go as a local object. -/
def project (result : V) (target : String) (single : Bool) : Except String (V × Bool) :=
  match cfg.projectPayload target with
  | none => .ok (result, single)
  | some projector =>
    match projector result with
    | .error error => .error error
    | .ok projected =>
      if single then .ok (projected, true)
      else (cfg.isIsolated result projected).map fun isolated => (projected, isolated)

/-- `_route_result` awaits `_send_to_stage`. -/
def State.awaitPayload (requestId : String) (result : V) (left : Bool) (transport : Transport)
    (target : String) (projected : V) (rest all : List String) (single : Bool) : State V :=
  { s with drain := .payloads requestId result left transport target projected rest all single }

/-- `_send_to_stage` up to its await. -/
def State.sendToStage (requestId : String) (result : V) (target : String) (rest all : List String)
    (single : Bool) : State V :=
  if target ∉ cfg.endpoints then s.raiseDrain (noEndpoint cfg "target" target)
  else
    match project cfg result target single with
    | .error error => s.raiseDrain error
    | .ok (projected, useLocalObject) =>
      if useLocalObject ∧ target ∈ cfg.sameProcessTargets ∧
          s.canSendFullPayloadLocally requestId target all then
        match cfg.localDispatcher with
        | none => s.raiseDrain (noDispatcher cfg "target" target)
        | some stages =>
          if target ∉ stages then s.raiseDrain (notRegistered cfg target)
          else
            let s := s.record (.sent requestId target .localObject (.payload projected))
            s.awaitPayload requestId result true .localObject target projected rest all single
      else
        match cfg.payloadIsDirect target projected with
        | .error error => s.raiseDrain error
        | .ok direct =>
          s.awaitPayload requestId result false (if direct then .direct else .relay) target
            projected
            rest all single

/-- `_route_result` has sent everything. -/
def State.routed (requestId : String) : State V :=
  { s.clearRequestState requestId with drain := .idle }

/-- `_route_result` goes on with the payloads that are left. -/
def State.sendPayloads (requestId : String) (result : V) (targets all : List String)
    (single : Bool) : State V :=
  match targets with
  | [] => s.routed requestId
  | target :: rest => s.sendToStage cfg requestId result target rest all single

/-- `_route_result` after the signals. -/
def State.routeNext (requestId : String) (result : V) (all : List String) : State V :=
  match cfg.getNext requestId result with
  | .error error => s.raiseDrain error
  | .ok none => { s with drain := .completing requestId result }
  | .ok (some nextStages) =>
    s.sendPayloads cfg requestId result nextStages all (nextStages.length = 1)

/-- `_route_result` goes on with the signals that are left. -/
def State.sendSignals (requestId : String) (result : V) (targets all : List String) : State V :=
  match targets with
  | [] => s.routeNext cfg requestId result all
  | target :: rest => s.sendStreamSignalToTarget cfg requestId result target rest all

/-- The stages that get the signal that the stream of a request is done. -/
def streamDoneTargets (requestId : String) (result : V) : Except String (List String) :=
  match cfg.getStreamDoneTargets with
  | none => .ok cfg.streamTargets
  | some resolve => (resolve requestId result).map fun targets => targets.getD []

/-- `_route_result` up to its first await. -/
def State.routeResult (requestId : String) (result : V) : State V :=
  match streamDoneTargets cfg requestId result with
  | .error error => s.raiseDrain error
  | .ok targets => s.sendSignals cfg requestId result targets targets

/-- What the drain does with a message of the outbox, up to its first await. -/
def State.handleOutgoing (requestId : String) (out : Outgoing V) : State V :=
  match out with
  | .result data => s.routeResult cfg requestId data
  | .stream data none =>
    if cfg.streamTargets = [] then s.sendStreamToCoordinator cfg requestId data
    else
      { s with
        drain := .streams requestId
        jobs := cfg.streamTargets.map fun target => ⟨requestId, data, target, .created⟩ }
  | .stream data (some target) =>
    let job : Job V := ⟨requestId, data, target, .created⟩
    { s with drain := .streams requestId, jobs := [job] }.sendStreamToTarget cfg 0 job
  | .error text => { s.beginFailure cfg none requestId text with drain := .failing requestId }

/-- The drain gets a message from the outbox. -/
def State.take : Option (State V) :=
  match s.drain, s.outbox with
  | .idle, (requestId, out) :: rest =>
    let s := { s with outbox := rest }
    some (if requestId ∈ s.activeRequests then s.handleOutgoing cfg requestId out else s)
  | _, _ => none

/-- The message that the drain sends leaves. -/
def State.drainSent : Option (State V) :=
  match s.drain with
  | .signals requestId result false target rest all =>
    let s := s.record (.sent requestId target .direct .done)
    some { s with drain := .signals requestId result true target rest all }
  | .payloads requestId result false transport target projected rest all single =>
    let s := (s.record (.sent requestId target transport (.payload projected))).armPending
      requestId target transport
    some (s.awaitPayload requestId result true transport target projected rest all single)
  | _ => none

/-- What the drain awaits returns. -/
def State.drainReturned : Option (State V) :=
  match s.drain with
  | .toCoordinator requestId chunkId data =>
    some { s.record (.streamed requestId chunkId data) with drain := .idle }
  | .signals requestId result true _ rest all =>
    some (s.sendSignals cfg requestId result rest all)
  | .completing requestId result =>
    some ((s.record (.completed requestId result)).routed requestId)
  | .payloads requestId result true _ _ _ rest all single =>
    some (s.sendPayloads cfg requestId result rest all single)
  | .failing requestId => some { s.failureSent none requestId with drain := .idle }
  | _ => none

/-- What the drain awaits raises. -/
def State.drainRaised (error : String) : Option (State V) :=
  match s.drain with
  | .idle | .streams _ | .crashed => none
  | _ => some (s.raiseDrain error)

theorem State.drainRaised_eq_some {s s' : State V} {error : String} :
    s.drainRaised error = some s' ↔
      (s.drain ≠ .idle ∧ (∀ requestId, s.drain ≠ .streams requestId) ∧ s.drain ≠ .crashed) ∧
        s.raiseDrain error = s' := by
  unfold State.drainRaised
  cases s.drain <;> simp

/-- The acknowledgement of transfer `k`. -/
def State.setAck (k : ℕ) (ack : AckState) : State V :=
  { s with pending := s.pending.modify k fun transfer => { transfer with ack := ack } }

/-- `ack_transfer` for a transfer that waits for it. -/
def State.ackTransfer (k : ℕ) (error : Option String) : Option (State V) :=
  match s.pending[k]? with
  | some transfer =>
    if transfer.ack = .waiting then
      some (s.setAck k (error.elim .acked .failed))
    else none
  | none => none

/-- When an acknowledgement is taken. -/
theorem State.ackTransfer_eq_some {s s' : State V} {k : ℕ} {error : Option String} :
    s.ackTransfer k error = some s' ↔ ∃ transfer, s.pending[k]? = some transfer ∧
      transfer.ack = .waiting ∧ s.setAck k (error.elim .acked .failed) = s' := by
  unfold State.ackTransfer
  cases s.pending[k]? <;> simp

/-- `_watch_pending` ends; `raised` is what its awaits raise for a transfer that was not reported
as failed. -/
def State.watchDone (k : ℕ) (raised : Option String) : Option (State V) :=
  match s.pending[k]? with
  | none => none
  | some transfer =>
    match transfer.ack, raised with
    | .failed error, _ => some ((s.setAck k .ended).onBackgroundTaskDone error)
    | .acked, none => some (s.setAck k .ended)
    | .acked, some error => some ((s.setAck k .ended).onBackgroundTaskDone error)
    | .waiting, some error => some ((s.setAck k .ended).onBackgroundTaskDone error)
    | _, _ => none

theorem State.watchDone_eq_some {s s' : State V} {k : ℕ} {raised : Option String}
    (h : s.watchDone k raised = some s') : ∃ transfer, s.pending[k]? = some transfer ∧
      (s' = s.setAck k .ended ∨ ∃ error, s' = (s.setAck k .ended).onBackgroundTaskDone error) := by
  unfold State.watchDone at h
  cases hpending : s.pending[k]? with
  | none => simp [hpending] at h
  | some transfer =>
    refine ⟨transfer, rfl, ?_⟩
    simp only [hpending] at h
    split at h
    · exact .inr ⟨_, (Option.some.inj h).symm⟩
    · exact .inl (Option.some.inj h).symm
    · exact .inr ⟨_, (Option.some.inj h).symm⟩
    · exact .inr ⟨_, (Option.some.inj h).symm⟩
    · cases h

end Omni.Stage
