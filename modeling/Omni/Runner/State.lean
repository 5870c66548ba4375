import Mathlib.Data.String.Basic
import Mathlib.Logic.Function.Basic

/-!
# The state of the pipeline runner

`MultiProcessPipelineRunner` of `mp_runner.py` with its stage groups. Everything it starts
or opens has a number and is in one list until it has ended.
-/

namespace Omni.Runner

/-- What a runner starts or opens. -/
inductive Resource
  | process (pid : ℕ)
  /-- A queue to a stage process: a startup error channel or a follower queue. -/
  | channel (id : ℕ)
  | coordinator (id : ℕ)
  | completionTask (id : ℕ)
  | monitorTask (id : ℕ)
  | runtimeDir (id : ℕ)
  deriving DecidableEq

/-- `StageGroup`. -/
structure StageGroup where
  groupName : String
  processSpecs : List String
  stageControlEndpoints : List (String × String)
  followerQueues : List ℕ
  processes : List ℕ
  startupErrorChannels : List ℕ
  deriving DecidableEq

/-- What `_build_stage_groups` makes a group of. -/
structure GroupSpec where
  groupName : String
  processSpecs : List String
  stageControlEndpoints : List (String × String)
  /-- How many queues lead to the followers of the group. -/
  followerQueues : ℕ
  deriving DecidableEq

/-- What the runner needs of `Coordinator`: the ids of `_requests` stand for the requests. -/
structure Coordinator where
  entryStage : String
  stages : List (String × String)
  running : Bool
  fatalError : Option String
  requests : List String
  deriving DecidableEq

/-- Where a call of `start()` or `stop()` is suspended. A call of `stop()` can run in a
monitor task. -/
inductive Pc
  /-- `start()` awaits `coordinator.start()`; `groups` is its local variable. -/
  | startCoordinator (coordinator : ℕ) (groups : List ℕ)
  /-- `start()` awaits `wait_ready` of all groups. -/
  | startReady
  /-- `_cleanup_on_failure` awaits the cancelled completion task. -/
  | cleanupCompletion (task : ℕ)
  /-- `stop()` awaits `shutdown_stages()`; it has cancelled the monitor task `cancelled`. -/
  | stopStages (monitor cancelled : Option ℕ)
  /-- `stop()` awaits `shutdown` of all groups. -/
  | stopGroups (monitor cancelled : Option ℕ) (groups : List ℕ)
  /-- `stop()` awaits the cancelled completion task. -/
  | stopCompletion (monitor : Option ℕ) (task : ℕ)
  deriving DecidableEq

/-- The monitor task that a call runs in. -/
def Pc.monitor : Pc → Option ℕ
  | .startCoordinator _ _ => none
  | .startReady => none
  | .cleanupCompletion _ => none
  | .stopStages monitor _ => monitor
  | .stopGroups monitor _ _ => monitor
  | .stopCompletion monitor _ => monitor

/-- `MultiProcessPipelineRunner`, the calls that run on it and the objects it made. -/
structure State where
  started : Bool
  groups : List ℕ
  coordinator : Option ℕ
  ipcRuntimeDir : Option ℕ
  completionTask : Option ℕ
  monitorTask : Option ℕ
  fatalEvent : Option Bool
  fatalError : Option String
  /-- The calls of `start()` and `stop()` that are in progress. -/
  calls : List Pc
  /-- What has been started or opened and has not ended. -/
  running : List Resource
  group : ℕ → StageGroup
  coordinators : ℕ → Coordinator
  /-- Tasks on which `cancel()` was called. -/
  cancelled : List ℕ
  /-- The error with which a completion loop has ended. -/
  loopError : ℕ → Option String
  fresh : ℕ
  /-- The requests that were pending when a stage process was found dead. -/
  found : List (ℕ × String)
  /-- The requests that have got the error of the runtime, with its message. -/
  failed : List (ℕ × String × String)

/-- A runner after `__init__`. -/
def State.init : State where
  started := false
  groups := []
  coordinator := none
  ipcRuntimeDir := none
  completionTask := none
  monitorTask := none
  fatalEvent := none
  fatalError := none
  calls := []
  running := []
  group _ := ⟨"", [], [], [], [], []⟩
  coordinators _ := ⟨"", [], false, none, []⟩
  cancelled := []
  loopError _ := none
  fresh := 0
  found := []
  failed := []

/-- Start or open something new. -/
def State.launch (s : State) (resource : ℕ → Resource) : State :=
  { s with running := s.running ++ [resource s.fresh], fresh := s.fresh + 1 }

/-- End or close what is in the list. -/
def State.finish (s : State) (resources : List Resource) : State :=
  { s with running := s.running.filter (· ∉ resources) }

/-- `task.cancel()`. -/
def State.cancel (s : State) (task : ℕ) : State :=
  { s with cancelled := s.cancelled ++ [task] }

/-- A call goes on waiting at an await. -/
def State.suspend (s : State) (pc : Pc) : State :=
  { s with calls := s.calls ++ [pc] }

/-- `process.is_alive()`. -/
def State.isAlive (s : State) (pid : ℕ) : Bool := .process pid ∈ s.running

/-- `StageGroup.any_dead`. -/
def State.anyDead (s : State) (g : ℕ) : Bool :=
  (s.group g).processes.any fun pid => !s.isAlive pid

/-- `StageGroup.dead_summary`; a process that has ended has an exit code. -/
def State.deadSummary (exitcode : ℕ → ℤ) (s : State) (g : ℕ) : String :=
  let parts := ((s.group g).processSpecs.zip (s.group g).processes).filterMap
    fun (name, pid) => if s.isAlive pid then none
      else some s!"{name} (pid={pid}, exit={exitcode pid})"
  if parts = [] then "(none)" else ", ".intercalate parts

/-- One group of `_build_stage_groups`, with new queues to its followers. -/
def State.buildGroup (s : State) (spec : GroupSpec) : State × ℕ :=
  let queues := List.range' s.fresh spec.followerQueues
  let id := s.fresh + spec.followerQueues
  let group : StageGroup :=
    ⟨spec.groupName, spec.processSpecs, spec.stageControlEndpoints, queues, [], []⟩
  ({ s with running := s.running ++ queues.map .channel
            group := Function.update s.group id group
            fresh := id + 1 }, id)

/-- `_build_stage_groups`, as far as it comes. -/
def State.buildStageGroups (s : State) : List GroupSpec → State × List ℕ
  | [] => (s, [])
  | spec :: specs =>
    let (s, id) := s.buildGroup spec
    let (s, ids) := s.buildStageGroups specs
    (s, id :: ids)

/-- A process that was started is added to its group. -/
def State.addProcess (s : State) (g pid channel : ℕ) : State :=
  let group : StageGroup := { s.group g with
    processes := (s.group g).processes ++ [pid]
    startupErrorChannels := (s.group g).startupErrorChannels ++ [channel] }
  { s with group := Function.update s.group g group }

/-- The loop of `StageGroup.spawn`: `starts` says which processes can be started. The result
says whether all have been. -/
def State.spawnLoop (starts : ℕ → Bool) (g : ℕ) : State → List String → State × Bool
  | s, [] => (s, true)
  | s, _ :: specs =>
    let channel := s.fresh
    let s := s.launch .channel
    let pid := s.fresh
    if starts pid then
      let s := s.launch .process
      State.spawnLoop starts g (s.addProcess g pid channel) specs
    else ({ s.finish [.channel channel] with fresh := s.fresh + 1 }, false)

/-- `StageGroup.spawn` for all groups. -/
def State.spawnGroups (starts : ℕ → Bool) : State → List ℕ → State × Bool
  | s, [] => (s, true)
  | s, g :: groups =>
    let (s, spawned) := s.spawnLoop starts g (s.group g).processSpecs
    if spawned then State.spawnGroups starts s groups else (s, false)

/-- The control channels of a group. -/
def State.controlChannels (s : State) (g : ℕ) : List Resource :=
  ((s.group g).startupErrorChannels ++ (s.group g).followerQueues).map .channel

/-- The processes of a group. -/
def State.processes (s : State) (g : ℕ) : List Resource :=
  (s.group g).processes.map .process

/-- `StageGroup.shutdown`: every process is joined, terminated or killed. -/
def State.shutdownGroup (s : State) (g : ℕ) : State :=
  let s := (s.finish (s.processes g)).finish (s.controlChannels g)
  let group : StageGroup := { s.group g with processes := [], startupErrorChannels := [] }
  { s with group := Function.update s.group g group }

/-- What `_cleanup_on_failure` does with a group. -/
def State.cleanupGroup (s : State) (g : ℕ) : State :=
  (s.finish (s.processes g)).finish (s.controlChannels g)

end Omni.Runner
