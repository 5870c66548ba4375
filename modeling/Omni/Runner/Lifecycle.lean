import Omni.Runner.State
import Omni.Library.Transition

/-!
# The life cycle of the pipeline runner

`start()`, `stop()`, the monitor task and what they call, from one await to the next.
-/

namespace Omni.Runner

/-- Requests that get the error of the runtime. -/
def Coordinator.failPendingRequests (c : Coordinator) (message : String) : Coordinator :=
  { c with running := false, fatalError := some message, requests := [] }

/-- `register_stage`. -/
def Coordinator.registerStage (c : Coordinator) (name endpoint : String) : Coordinator :=
  { c with stages := c.stages.filter (fun stage => stage.1 ≠ name) ++ [(name, endpoint)] }

/-- `_submit_request` tracks a request, or raises. -/
def Coordinator.submitRequest (c : Coordinator) (requestId : String) : Option Coordinator :=
  if c.fatalError.isSome ∨ requestId ∈ c.requests ∨ c.entryStage ∉ c.stages.map Prod.fst then none
  else some { c with requests := c.requests ++ [requestId] }

/-- Change the coordinator with the given number. -/
def State.setCoordinator (s : State) (id : ℕ) (c : Coordinator) : State :=
  { s with coordinators := Function.update s.coordinators id c }

/-- `coordinator.stop()`. -/
def State.stopCoordinator (s : State) (id : ℕ) : State :=
  (s.setCoordinator id { s.coordinators id with running := false }).finish [.coordinator id]

/-- The requests that are pending at the coordinator of the runner. -/
def State.pending (s : State) : List (ℕ × String) :=
  s.coordinator.toList.flatMap fun id => (s.coordinators id).requests.map fun rid => (id, rid)

/-- `fail_pending_requests`: nothing in it suspends, as stream queues have no bound. -/
def State.failPendingRequests (s : State) (message : String) : State :=
  match s.coordinator with
  | none => s
  | some id =>
    { s.setCoordinator id ((s.coordinators id).failPendingRequests message) with
      failed := s.failed ++ s.pending.map fun request => (request.1, request.2, message) }

/-- A call ends, and with it the monitor task it runs in. -/
def State.endCall (s : State) (monitor : Option ℕ) : State :=
  s.finish (monitor.toList.map .monitorTask)

/-- `_close_runtime_dir`. -/
def State.closeRuntimeDir (s : State) : State :=
  { s.finish (s.ipcRuntimeDir.toList.map .runtimeDir) with ipcRuntimeDir := none }

/-- `_cleanup_on_failure` after the completion task has ended. -/
def State.cleanupCoordinator (s : State) : State :=
  match s.coordinator with
  | none => s.closeRuntimeDir
  | some id => { s.stopCoordinator id with coordinator := none }.closeRuntimeDir

/-- `_cleanup_on_failure`, up to its first await. -/
def State.cleanupOnFailure (s : State) : State :=
  let s := s.groups.foldl State.cleanupGroup s
  let s := { s with groups := [] }
  match s.completionTask with
  | none => s.cleanupCoordinator
  | some task => (s.cancel task).suspend (.cleanupCompletion task)

/-- `stop()` after the completion task has ended. Without a coordinator,
`self._coordinator.stop()` raises. -/
def State.stopRest (s : State) (monitor : Option ℕ) : State :=
  match s.coordinator with
  | none => s.endCall monitor
  | some id =>
    ({ s.stopCoordinator id with groups := [], coordinator := none }.closeRuntimeDir).endCall
        monitor

/-- How `start()` fares up to its first await. -/
structure Setup where
  /-- `prepare_pipeline_runtime` returns. -/
  prepared : Bool
  entryStage : String
  /-- The groups that `_build_stage_groups` makes. -/
  specs : List GroupSpec
  /-- `_build_stage_groups` returns. -/
  built : Bool
  /-- The terminal-stage resolver is imported and `Coordinator()` returns. -/
  resolved : Bool

/-- `prepare_pipeline_runtime`: a new directory, unless there is one. -/
def State.prepareRuntime (s : State) : State :=
  if s.ipcRuntimeDir.isSome then s
  else { s.launch .runtimeDir with ipcRuntimeDir := some s.fresh }

/-- `start()` up to its first await. -/
def State.start (s : State) (setup : Setup) : State :=
  if s.started then s
  else
    let s := { s with fatalEvent := some false, fatalError := none }
    if ¬setup.prepared then s.cleanupOnFailure
    else
      let (s, groups) := s.prepareRuntime.buildStageGroups setup.specs
      if ¬(setup.built ∧ setup.resolved) then s.cleanupOnFailure
      else
        let id := s.fresh
        let s := (s.setCoordinator id ⟨setup.entryStage, [], false, none, []⟩).launch .coordinator
        { s with coordinator := some id }.suspend (.startCoordinator id groups)

/-- How an await ends. -/
inductive Outcome
  | returned
  | raised
  | cancelled
  deriving DecidableEq

/-- `start()` after `coordinator.start()` has returned. Without a coordinator,
`self._coordinator.run_completion_loop()` raises. -/
def State.startGroups (s : State) (id : ℕ) (groups : List ℕ) (starts : ℕ → Bool) : State :=
  let s := s.setCoordinator id { s.coordinators id with running := true }
  if s.coordinator.isNone then s.cleanupOnFailure
  else
    let task := s.fresh
    let s := { s.launch .completionTask with completionTask := some task, groups := groups }
    let (s, spawned) := s.spawnGroups starts groups
    if spawned then s.suspend .startReady else s.cleanupOnFailure

/-- The stages of all groups are registered. -/
def State.registerStages (s : State) (id : ℕ) : State :=
  let endpoints := s.groups.flatMap fun g => (s.group g).stageControlEndpoints
  s.setCoordinator id
    (endpoints.foldl (fun c stage => c.registerStage stage.1 stage.2) (s.coordinators id))

/-- `start()` after all groups are ready. Without a coordinator, `register_stage` raises. -/
def State.startMonitor (s : State) : State :=
  if s.groups.any s.anyDead then
    { s with found := s.found ++ s.pending }.cleanupOnFailure
  else
    match s.coordinator with
    | none => s.cleanupOnFailure
    | some id =>
      let s := { s.registerStages id with started := true }
      { s.launch .monitorTask with monitorTask := some s.fresh }

/-- `wait_ready` raises: because a process is dead, or because of the time. -/
def State.notReady (s : State) : State :=
  if s.groups.any s.anyDead then { s with found := s.found ++ s.pending }.cleanupOnFailure
  else s.cleanupOnFailure

/-- `stop()` up to its first await; `monitor` is the monitor task it runs in. -/
def State.stop (s : State) (monitor : Option ℕ) : State :=
  if !s.started then s.endCall monitor
  else
    let s := { s with started := false }
    if s.monitorTask.isSome ∧ s.monitorTask ≠ monitor then
      { s with cancelled := s.cancelled ++ s.monitorTask.toList, monitorTask := none }.suspend
        (.stopStages monitor s.monitorTask)
    else { s with monitorTask := none }.suspend (.stopStages monitor none)

/-- `stop()` after all groups have been shut down. -/
def State.stopCompletionTask (s : State) (monitor : Option ℕ) (groups : List ℕ) : State :=
  let s := groups.foldl State.shutdownGroup s
  match s.completionTask with
  | none => s.stopRest monitor
  | some task => (s.cancel task).suspend (.stopCompletion monitor task)

/-- `_fail_runtime`, which only the monitor task calls. -/
def State.failRuntime (s : State) (error : String) (monitor : ℕ) : State :=
  let s := { s with fatalError := some error }.failPendingRequests error
  { s with fatalEvent := s.fatalEvent.map fun _ => true }.stop (some monitor)

/-- One turn of `_monitor_children`. -/
def State.monitorChildren (exitcode : ℕ → ℤ) (s : State) (monitor : ℕ) : State :=
  if !s.started then s.endCall (some monitor)
  else
    match s.groups.find? s.anyDead with
    | none => s
    | some g =>
      let summary := s.deadSummary exitcode g
      { s with found := s.found ++ s.pending }.failRuntime
        s!"Dead stage process(es) detected: {summary}" monitor

inductive Action
  /-- `start()` is called. -/
  | start (setup : Setup)
  /-- Call `i` of `start()` goes on after `coordinator.start()`. -/
  | coordinatorStarted (i : ℕ) (outcome : Outcome) (starts : ℕ → Bool)
  /-- Call `i` of `start()` goes on after `wait_ready` of all groups. -/
  | ready (i : ℕ) (outcome : Outcome)
  /-- `stop()` is called. -/
  | stop
  /-- Call `i` of `stop()` goes on after `shutdown_stages()`, or is cancelled there. -/
  | stagesShutdown (i : ℕ) (cancelled : Bool)
  /-- Call `i` of `stop()` goes on after the groups have been shut down, or is cancelled when
  the given number of them have been. -/
  | groupsShutdown (i : ℕ) (cancelled : Option ℕ)
  /-- Call `i` goes on as the completion task has ended. A cancellation of the call makes no
  difference: it is passed on to the completion task, and `CancelledError` is caught. -/
  | completionEnded (i : ℕ)
  | monitorWakes (task : ℕ)
  | monitorCancelled (task : ℕ)
  /-- The completion loop ends, with an error or without; on `cancel()`, without. -/
  | completionLoopEnds (task : ℕ) (error : Option String)
  | processExits (pid : ℕ)
  | submitRequest (coordinator : ℕ) (requestId : String)
  | requestEnds (coordinator : ℕ) (requestId : String)

/-- Call `i` is taken from the calls in progress. -/
def State.resume (s : State) (i : ℕ) : State := { s with calls := s.calls.eraseIdx i }

/-- One step; `exitcode` gives the code with which each process ends. -/
def step (exitcode : ℕ → ℤ) (s : State) : Action → Option State
  | .start setup => some (s.start setup)
  | .coordinatorStarted i outcome starts =>
    match s.calls[i]?, outcome with
    | some (.startCoordinator id groups), .returned =>
      some ((s.resume i).startGroups id groups starts)
    | some (.startCoordinator _ _), .raised => some (s.resume i).cleanupOnFailure
    | some (.startCoordinator _ _), .cancelled => some (s.resume i)
    | _, _ => none
  | .ready i outcome =>
    match s.calls[i]?, outcome with
    | some .startReady, .returned => some (s.resume i).startMonitor
    | some .startReady, .raised => some (s.resume i).notReady
    | some .startReady, .cancelled => some (s.resume i)
    | _, _ => none
  | .stop => some (s.stop none)
  | .stagesShutdown i cancelled =>
    match s.calls[i]? with
    | some (.stopStages monitor cancelledMonitor) =>
      if cancelled then some ((s.resume i).endCall monitor)
      else some ((s.resume i).suspend (.stopGroups monitor cancelledMonitor s.groups))
    | _ => none
  | .groupsShutdown i cancelled =>
    match s.calls[i]? with
    | some (.stopGroups monitor cancelledMonitor groups) =>
      -- The monitor task was cancelled first and wakes up before the tasks of `gather`.
      if ∃ task ∈ cancelledMonitor, .monitorTask task ∈ s.running then none
      else match cancelled with
        | some count =>
          some (((groups.take count).foldl State.shutdownGroup (s.resume i)).endCall monitor)
        | none => some ((s.resume i).stopCompletionTask monitor groups)
    | _ => none
  | .completionEnded i =>
    match s.calls[i]? with
    | some (.cleanupCompletion task) =>
      if .completionTask task ∈ s.running then none
      else if (s.loopError task).isSome then some (s.resume i)
      else some { s.resume i with completionTask := none }.cleanupCoordinator
    | some (.stopCompletion monitor task) =>
      if .completionTask task ∈ s.running then none
      else if (s.loopError task).isSome then some ((s.resume i).endCall monitor)
      else some ({ s.resume i with completionTask := none }.stopRest monitor)
    | _ => none
  | .monitorWakes task =>
    if .monitorTask task ∈ s.running ∧ task ∉ s.cancelled ∧
        ∀ pc ∈ s.calls, pc.monitor ≠ some task then
      some (s.monitorChildren exitcode task)
    else none
  | .monitorCancelled task =>
    if .monitorTask task ∈ s.running ∧ task ∈ s.cancelled ∧
        ∀ pc ∈ s.calls, pc.monitor ≠ some task then
      some (s.endCall (some task))
    else none
  | .completionLoopEnds task error =>
    if .completionTask task ∈ s.running ∧ (task ∈ s.cancelled → error = none) then
      some { s.finish [.completionTask task] with
        loopError := Function.update s.loopError task error }
    else none
  | .processExits pid =>
    if s.isAlive pid then some (s.finish [.process pid]) else none
  | .submitRequest id requestId =>
    ((s.coordinators id).submitRequest requestId).map (s.setCoordinator id)
  | .requestEnds id requestId =>
    if requestId ∈ (s.coordinators id).requests then
      some (s.setCoordinator id { s.coordinators id with
        requests := (s.coordinators id).requests.filter (· ≠ requestId) })
    else none

end Omni.Runner
