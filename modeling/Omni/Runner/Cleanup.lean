import Omni.Runner.Phases

/-!
# Nothing is left running

Between the calls of `start()` and `stop()`, a runner that is not started holds nothing, and
nothing that it does not hold is running.
-/

open Omni.Transition

namespace Omni.Runner

/-- What is known of requests: none is pending before a stage is registered, and those that
were pending when a process was found dead have got the error. -/
structure Told (s : State) : Prop where
  pending : ∀ id, (s.coordinators id).stages = [] → (s.coordinators id).requests = []
  found : ∀ request ∈ s.found, ∃ message, (request.1, request.2, message) ∈ s.failed

theorem told_init : Told .init where
  pending _ _ := rfl
  found request h := by simp [State.init] at h

variable {s t : State}

/-- Nothing changes for the requests. -/
theorem Told.of_fields (h : Told s) (hcoordinators : t.coordinators = s.coordinators)
    (hfound : t.found = s.found) (hfailed : t.failed = s.failed) : Told t where
  pending := hcoordinators ▸ h.pending
  found := hfound ▸ hfailed ▸ h.found

theorem Told.of_sameFields (h : Told s) (hsame : SameFields s t) : Told t :=
  h.of_fields hsame.coordinators hsame.found hsame.failed

theorem Told.setCoordinator (h : Told s) {id : ℕ} {c : Coordinator}
    (hc : c.stages = [] → c.requests = []) : Told (s.setCoordinator id c) where
  pending other := by
    by_cases hother : other = id
    · subst hother
      simpa [State.setCoordinator] using hc
    · simpa [State.setCoordinator, hother] using h.pending other
  found := h.found

/-- Before a stage is registered, nothing is pending. -/
theorem Told.pending_eq_nil (h : Told s) (hunregistered : s.Unregistered) :
    s.pending = [] := by
  obtain ⟨id, hid, hstages⟩ := hunregistered
  simp [State.pending, hid, h.pending id hstages]

theorem Told.setRunning (h : Told s) (id : ℕ) (running : Bool) :
    Told (s.setCoordinator id { s.coordinators id with running := running }) :=
  h.setCoordinator (h.pending id)

theorem Told.cleanupCoordinator (h : Told s) : Told s.cleanupCoordinator := by
  unfold State.cleanupCoordinator
  split
  · exact h.of_fields rfl rfl rfl
  next id hid => exact (h.setRunning id false).of_fields rfl rfl rfl

theorem Told.cleanupOnFailure (h : Told s) : Told s.cleanupOnFailure := by
  have hgroups := h.of_sameFields (sameFields_foldl_cleanup s.groups s).1
  unfold State.cleanupOnFailure
  generalize s.groups.foldl State.cleanupGroup s = t at hgroups
  have ht : Told { t with groups := [] } := hgroups.of_fields rfl rfl rfl
  dsimp only
  split
  · exact ht.cleanupCoordinator
  · exact ht.of_fields rfl rfl rfl

theorem Told.stopRest (h : Told s) (monitor : Option ℕ) :
    Told (s.stopRest monitor) := by
  unfold State.stopRest
  split
  · exact h.of_fields rfl rfl rfl
  next id hid => exact (h.setRunning id false).of_fields rfl rfl rfl

theorem Told.start (h : Told s) (setup : Setup) : Told (s.start setup) := by
  unfold State.start
  split
  · exact h
  · have hbegin : Told { s with fatalEvent := some false, fatalError := none } :=
      h.of_fields rfl rfl rfl
    dsimp only
    split
    · exact hbegin.cleanupOnFailure
    · have hprepared : Told (State.prepareRuntime
          { s with fatalEvent := some false, fatalError := none }) := by
        unfold State.prepareRuntime
        split
        · exact hbegin
        · exact hbegin.of_fields rfl rfl rfl
      have hbuilt := hprepared.of_sameFields (sameFields_buildStageGroups setup.specs _)
      generalize State.buildStageGroups _ setup.specs = built at hbuilt ⊢
      split
      · exact hbuilt.cleanupOnFailure
      · have hset : Told (built.1.setCoordinator built.1.fresh
            ⟨setup.entryStage, [], false, none, []⟩) := hbuilt.setCoordinator fun _ => rfl
        exact hset.of_fields rfl rfl rfl

theorem Told.startGroups (h : Told s) (id : ℕ) (groups : List ℕ) (starts : ℕ → Bool) :
    Told (s.startGroups id groups starts) := by
  unfold State.startGroups
  have hset := h.setRunning id true
  dsimp only
  split
  · exact hset.cleanupOnFailure
  · have hlaunched : Told { (State.setCoordinator s id
        { s.coordinators id with running := true }).launch .completionTask with
          completionTask := some s.fresh, groups := groups } := hset.of_fields rfl rfl rfl
    have hspawned := hlaunched.of_sameFields (sameFields_spawnGroups starts groups _)
    split
    · exact hspawned.of_fields rfl rfl rfl
    · exact hspawned.cleanupOnFailure

/-- Finding a dead process while nothing is pending. -/
theorem Told.find (h : Told s) (hpending : s.pending = []) :
    Told { s with found := s.found ++ s.pending } :=
  h.of_fields rfl (by simp [hpending]) rfl

theorem Told.startMonitor (h : Told s) (hunregistered : s.Unregistered) :
    Told s.startMonitor := by
  unfold State.startMonitor
  split
  · exact (h.find (h.pending_eq_nil hunregistered)).cleanupOnFailure
  · split
    · exact h.cleanupOnFailure
    next id hid =>
      obtain ⟨c, hc, hstages⟩ := hunregistered
      obtain rfl : c = id := Option.some.inj (hc.symm.trans hid)
      have hrequests (endpoints : List (String × String)) (coordinator : Coordinator) :
          (endpoints.foldl (fun c stage => c.registerStage stage.1 stage.2) coordinator).requests =
            coordinator.requests := by
        induction endpoints generalizing coordinator with
        | nil => rfl
        | cons endpoint endpoints ih => exact ih (coordinator.registerStage endpoint.1 endpoint.2)
      have hset : Told (s.registerStages c) := h.setCoordinator fun _ =>
        (hrequests _ _).trans (h.pending c hstages)
      exact hset.of_fields rfl rfl rfl

theorem Told.notReady (h : Told s) (hunregistered : s.Unregistered) :
    Told s.notReady := by
  unfold State.notReady
  split
  · exact (h.find (h.pending_eq_nil hunregistered)).cleanupOnFailure
  · exact h.cleanupOnFailure

theorem Told.stop (h : Told s) (monitor : Option ℕ) : Told (s.stop monitor) := by
  unfold State.stop
  split
  · exact h.of_fields rfl rfl rfl
  · dsimp only
    split <;> exact h.of_fields rfl rfl rfl

theorem Told.stopCompletionTask (h : Told s) (monitor : Option ℕ) (groups : List ℕ) :
    Told (s.stopCompletionTask monitor groups) := by
  have hgroups := h.of_sameFields (sameFields_foldl_shutdown groups s)
  unfold State.stopCompletionTask
  dsimp only
  split
  · exact hgroups.stopRest monitor
  · exact hgroups.of_fields rfl rfl rfl

/-- All pending requests get the error at once. -/
theorem told_failPendingRequests
    (hpending : ∀ id, (s.coordinators id).stages = [] → (s.coordinators id).requests = [])
    (hfound : ∀ request ∈ s.found, (∃ message, (request.1, request.2, message) ∈ s.failed) ∨
      request ∈ s.pending) (message : String) : Told (s.failPendingRequests message) := by
  unfold State.failPendingRequests
  split
  next hnone =>
    refine ⟨hpending, fun request hrequest => (hfound request hrequest).resolve_right ?_⟩
    simp [State.pending, hnone]
  next id hid =>
    refine ⟨fun other => ?_, fun request hrequest => ?_⟩
    · by_cases hother : other = id
      · subst hother
        simp [State.setCoordinator, Coordinator.failPendingRequests]
      · simpa [State.setCoordinator, hother] using hpending other
    · rcases hfound request hrequest with ⟨old, hold⟩ | hnew
      · exact ⟨old, List.mem_append_left _ hold⟩
      · exact ⟨message, List.mem_append_right _ (List.mem_map.mpr ⟨request, hnew, rfl⟩)⟩

theorem told_failRuntime
    (hpending : ∀ id, (s.coordinators id).stages = [] → (s.coordinators id).requests = [])
    (hfound : ∀ request ∈ s.found, (∃ message, (request.1, request.2, message) ∈ s.failed) ∨
      request ∈ s.pending) (error : String) (monitor : ℕ) : Told (s.failRuntime error monitor) := by
  have htold : Told (State.failPendingRequests { s with fatalError := some error } error) :=
    told_failPendingRequests (by exact hpending) (by exact hfound) error
  unfold State.failRuntime
  refine Told.stop ?_ _
  exact htold.of_fields rfl rfl rfl

/-- The monitor finds a dead process. -/
theorem Told.monitorChildren (h : Told s) (exitcode : ℕ → ℤ) (monitor : ℕ) :
    Told (s.monitorChildren exitcode monitor) := by
  unfold State.monitorChildren
  split
  · exact h.of_fields rfl rfl rfl
  · split
    · exact h
    · have hfound : ∀ request ∈ s.found ++ s.pending,
          (∃ message, (request.1, request.2, message) ∈ s.failed) ∨ request ∈ s.pending :=
        fun request hrequest => (List.mem_append.mp hrequest).imp_left (h.found request)
      exact told_failRuntime (by exact h.pending) (by exact hfound) _ monitor

/-- Every step that disturbs no call keeps what is known of requests. -/
theorem Told.step {exitcode : ℕ → ℤ} (h : Told s) (hs : Sound s) {a : Action}
    (hstep : Omni.Runner.step exitcode s a = some t) : Told t := by
  cases a with
  | start setup =>
    cases hstep
    exact h.start setup
  | coordinatorStarted i outcome starts =>
    have hresume : Told (s.resume i) := h.of_fields rfl rfl rfl
    simp only [Omni.Runner.step] at hstep
    split at hstep
    · cases hstep
      exact hresume.startGroups _ _ starts
    · cases hstep
      exact hresume.cleanupOnFailure
    · exact Option.some.inj hstep ▸ hresume
    · cases hstep
  | ready i outcome =>
    have hresume : Told (s.resume i) := h.of_fields rfl rfl rfl
    simp only [Omni.Runner.step] at hstep
    split at hstep
    next hpc =>
      cases hstep
      exact hresume.startMonitor (hs.of_startReady (hs.calls_eq hpc).1).2.1
    next hpc =>
      cases hstep
      exact hresume.notReady (hs.of_startReady (hs.calls_eq hpc).1).2.1
    · exact Option.some.inj hstep ▸ hresume
    · cases hstep
  | stop =>
    cases hstep
    exact h.stop none
  | stagesShutdown i cancelled =>
    simp only [Omni.Runner.step] at hstep
    split at hstep
    · split at hstep <;>
      · cases hstep
        exact h.of_fields rfl rfl rfl
    · cases hstep
  | groupsShutdown i cancelled =>
    have hresume : Told (s.resume i) := h.of_fields rfl rfl rfl
    simp only [Omni.Runner.step] at hstep
    split at hstep
    · split at hstep
      · cases hstep
      · split at hstep
        · cases hstep
          exact (hresume.of_sameFields (sameFields_foldl_shutdown _ _)).of_fields rfl rfl rfl
        · cases hstep
          exact hresume.stopCompletionTask _ _
    · cases hstep
  | completionEnded i =>
    have hcleared : Told { s.resume i with completionTask := none } := h.of_fields rfl rfl rfl
    simp only [Omni.Runner.step] at hstep
    split at hstep
    · split at hstep
      · cases hstep
      · split at hstep
        · cases hstep
          exact h.of_fields rfl rfl rfl
        · cases hstep
          exact hcleared.cleanupCoordinator
    · split at hstep
      · cases hstep
      · split at hstep
        · cases hstep
          exact h.of_fields rfl rfl rfl
        · cases hstep
          exact hcleared.stopRest _
    · cases hstep
  | monitorWakes task =>
    obtain ⟨-, hstep⟩ := Option.ite_none_right_eq_some.mp hstep
    cases hstep
    exact h.monitorChildren exitcode task
  | monitorCancelled task =>
    obtain ⟨-, hstep⟩ := Option.ite_none_right_eq_some.mp hstep
    cases hstep
    exact h.of_fields rfl rfl rfl
  | completionLoopEnds task error =>
    obtain ⟨-, hstep⟩ := Option.ite_none_right_eq_some.mp hstep
    cases hstep
    exact h.of_fields rfl rfl rfl
  | processExits pid =>
    obtain ⟨-, hstep⟩ := Option.ite_none_right_eq_some.mp hstep
    cases hstep
    exact h.of_fields rfl rfl rfl
  | submitRequest id requestId =>
    obtain ⟨c, hc, rfl⟩ := Option.map_eq_some_iff.mp hstep
    obtain ⟨hadmitted, hc⟩ := Option.ite_none_left_eq_some.mp hc
    cases hc
    refine h.setCoordinator fun hstages => absurd ?_ hadmitted
    exact .inr (.inr (by simp [show (s.coordinators id).stages = [] from hstages]))
  | requestEnds id requestId =>
    obtain ⟨-, hstep⟩ := Option.ite_none_right_eq_some.mp hstep
    cases hstep
    refine h.setCoordinator fun hstages => ?_
    simp [h.pending id hstages]

/-- Nothing that was ever started is still running. -/
def State.Clean (s : State) : Prop := s.running = []

/-- Every request that was pending when a stage process was found dead has got its error. -/
def State.AllTold (s : State) : Prop :=
  ∀ request ∈ s.found, ∃ message, (request.1, request.2, message) ∈ s.failed

theorem Sound.clean (h : Sound s) (hcalls : s.calls = []) (hstarted : s.started = false) :
    s.Clean := by
  have hstopped : s.coordinator = none ∧ s.completionTask = none ∧ s.ipcRuntimeDir = none ∧
      Covered s [] [] := by
    cases h <;> simp_all
  obtain ⟨hcoordinator, htask, hdir, hcovered⟩ := hstopped
  exact hcovered.running_eq_nil hcoordinator htask hdir

/-- In every run that disturbs no call, nothing is left running once no call is in progress and
the runner is not started, and all requests that were pending at a death have got the error. -/
theorem nothing_left_running (exitcode : ℕ → ℤ) {as : List Action} {s : State}
    (hrun : Run (step exitcode) Undisturbed .init as s) :
    (s.calls = [] → s.started = false → s.Clean) ∧ s.AllTold := by
  have hboth : Sound s ∧ Told s := hrun.invariant (I := fun s => Sound s ∧ Told s)
    (fun s a t hs hok hstep => ⟨hs.1.step hok hstep, hs.2.step hs.1 hstep⟩)
    ⟨sound_init, told_init⟩
  exact ⟨hboth.1.clean, hboth.2.found⟩

/-- One group with one process. -/
def oneStage : Setup := ⟨true, "stage", [⟨"stage", ["stage"], [("stage", "ipc://stage")], 0⟩],
  true, true⟩

/-- A request is pending when the stage process dies, and the monitor stops the runtime. -/
def deadStage : List Action :=
  [.start oneStage, .coordinatorStarted 0 .returned fun _ => true, .ready 0 .returned,
    .submitRequest 2 "r", .processExits 5, .monitorWakes 6, .stagesShutdown 0 false,
    .groupsShutdown 0 none, .completionLoopEnds 3 none, .completionEnded 0]

theorem nothing_left_running_deadStage :
    ∃ s, Run (step fun _ => 1) Undisturbed .init deadStage s ∧ s.calls = [] ∧
      s.started = false ∧ s.found = [(2, "r")] ∧ (s.calls = [] → s.started = false → s.Clean) ∧
        s.AllTold := by
  have hend := nothing_left_running (fun _ => 1)
    (run_of_isSome_guarded _ Undisturbed .init deadStage (by decide +kernel))
  exact ⟨_, run_of_isSome_guarded _ _ _ _ (by decide +kernel), by decide +kernel,
    by decide +kernel, by decide +kernel, hend⟩

/-- A `start()` that is cancelled while its stages get ready leaves the process running, and a
`stop()` after the completion loop has failed leaves the coordinator and the directory. -/
theorem cancelled_start_leaves_process :
    (∃ s, Run (step fun _ => 1) anyAction .init [.start oneStage,
      .coordinatorStarted 0 .returned fun _ => true, .ready 0 .cancelled] s ∧
        s.calls = [] ∧ s.started = false ∧ .process 5 ∈ s.running ∧ ¬s.Clean) ∧
    ∃ s, Run (step fun _ => 1) anyAction .init [.start oneStage,
      .coordinatorStarted 0 .returned fun _ => true, .ready 0 .returned,
      .completionLoopEnds 3 (some "boom"), .stop, .monitorCancelled 6, .stagesShutdown 0 false,
      .groupsShutdown 0 none, .completionEnded 0] s ∧
        s.calls = [] ∧ s.started = false ∧ s.running = [.runtimeDir 0, .coordinator 2] ∧
          ¬s.Clean := by
  refine ⟨⟨_, run_of_isSome _ _ _ (by decide +kernel), by decide +kernel, by decide +kernel,
    by decide +kernel, by unfold State.Clean; decide +kernel⟩, ⟨_, run_of_isSome _ _ _
    (by decide +kernel), by decide +kernel, by decide +kernel, by decide +kernel,
    by unfold State.Clean; decide +kernel⟩⟩

end Omni.Runner
