import Omni.Runner.Covered

/-!
# The phases of a runner

A runner is in one of a few phases as long as calls are not cancelled while they wait for
anything but the completion task, the completion loop has not ended with an error when it is
awaited, `start()` is not called during another call, and it does not fail while its groups
have queues that nothing else holds.
-/

namespace Omni.Runner

open State List

/-- The completion task that a call awaits. -/
def Pc.completionTask : Pc → Option ℕ
  | .cleanupCompletion task => some task
  | .stopCompletion _ task => some task
  | _ => none

/-- The groups that only a local variable of `start()` holds. -/
def Pc.localGroups : Pc → List ℕ
  | .startCoordinator _ groups => groups
  | _ => []

/-- No call is cut off, and no call of `start()` comes between. -/
def Undisturbed (s : State) : Action → Prop
  | .start setup => s.started ∨ s.calls = [] ∧ (setup.prepared →
      setup.built ∧ setup.resolved ∨ ∀ spec ∈ setup.specs, spec.followerQueues = 0)
  | .coordinatorStarted i outcome _ => outcome = .returned ∨ outcome = .raised ∧
      ∀ pc ∈ s.calls[i]?, ∀ g ∈ pc.localGroups, s.controlChannels g = []
  | .ready _ outcome => outcome ≠ .cancelled
  | .stagesShutdown _ cancelled => cancelled = false
  | .groupsShutdown _ cancelled => cancelled = none
  | .completionEnded i =>
    ∀ pc ∈ s.calls[i]?, ∀ task ∈ pc.completionTask, s.loopError task = none
  | _ => True

instance (s : State) : (a : Action) → Decidable (Undisturbed s a)
  | .start setup => inferInstanceAs (Decidable (s.started ∨ s.calls = [] ∧ (setup.prepared →
      setup.built ∧ setup.resolved ∨ ∀ spec ∈ setup.specs, spec.followerQueues = 0)))
  | .coordinatorStarted i outcome _ => inferInstanceAs (Decidable (outcome = .returned ∨
      outcome = .raised ∧ ∀ pc ∈ s.calls[i]?, ∀ g ∈ pc.localGroups, s.controlChannels g = []))
  | .ready _ outcome => inferInstanceAs (Decidable (outcome ≠ .cancelled))
  | .stagesShutdown _ cancelled => inferInstanceAs (Decidable (cancelled = false))
  | .groupsShutdown _ cancelled => inferInstanceAs (Decidable (cancelled = none))
  | .completionEnded i => inferInstanceAs (Decidable
      (∀ pc ∈ s.calls[i]?, ∀ task ∈ pc.completionTask, s.loopError task = none))
  | .stop => isTrue trivial
  | .monitorWakes _ => isTrue trivial
  | .monitorCancelled _ => isTrue trivial
  | .completionLoopEnds _ _ => isTrue trivial
  | .processExits _ => isTrue trivial
  | .submitRequest _ _ => isTrue trivial
  | .requestEnds _ _ => isTrue trivial

/-- No stage is registered at the coordinator of the runner. -/
def State.Unregistered (s : State) : Prop :=
  ∃ id, s.coordinator = some id ∧ (s.coordinators id).stages = []

/-- The phases of a runner that is not disturbed. -/
inductive Sound (s : State) : Prop
  /-- Before `start()`, after a `start()` that failed, and after `stop()`. -/
  | stopped (hcalls : s.calls = []) (hstarted : s.started = false) (hgroups : s.groups = [])
      (hcoordinator : s.coordinator = none) (htask : s.completionTask = none)
      (hdir : s.ipcRuntimeDir = none) (hcovered : Covered s [] [])
  | serving (hcalls : s.calls = []) (hstarted : s.started = true)
      (hcoordinator : s.coordinator.isSome) (hcovered : Covered s s.groups s.monitorTask.toList)
  | startCoordinator (id : ℕ) (groups : List ℕ) (hcalls : s.calls = [.startCoordinator id groups])
      (hstarted : s.started = false) (hgroups : s.groups = []) (htask : s.completionTask = none)
      (hunregistered : s.Unregistered) (hempty : ∀ g ∈ groups, s.processes g = [])
      (hcovered : Covered s groups [])
  | startReady (hcalls : s.calls = [.startReady]) (hstarted : s.started = false)
      (hunregistered : s.Unregistered) (hcovered : Covered s s.groups [])
  | cleanupCompletion (task : ℕ) (hcalls : s.calls = [.cleanupCompletion task])
      (hstarted : s.started = false) (hgroups : s.groups = [])
      (htask : s.completionTask = some task) (hcovered : Covered s [] [])
  | stopStages (monitor cancelled : Option ℕ) (hcalls : s.calls = [.stopStages monitor cancelled])
      (hstarted : s.started = false) (hcoordinator : s.coordinator.isSome)
      (hcovered : Covered s s.groups (monitor.toList ++ cancelled.toList))
  | stopGroups (monitor cancelled : Option ℕ)
      (hcalls : s.calls = [.stopGroups monitor cancelled s.groups])
      (hstarted : s.started = false) (hcoordinator : s.coordinator.isSome)
      (hcovered : Covered s s.groups (monitor.toList ++ cancelled.toList))
  | stopCompletion (monitor : Option ℕ) (task : ℕ) (hcalls : s.calls = [.stopCompletion monitor
    task])
      (hstarted : s.started = false) (hcoordinator : s.coordinator.isSome)
      (htask : s.completionTask = some task) (hcovered : Covered s [] monitor.toList)

theorem sound_init : Sound .init :=
  .stopped rfl rfl rfl rfl rfl rfl ⟨by simp [init], by simp [init],
    by simp [init], by simp [init], by simp [init], by simp [init]⟩

variable {s t : State}

/-- A phase lasts while the fields stay and nothing new is running. -/
theorem Sound.shrink (h : Sound s) (hstarted : t.started = s.started)
    (hgroups : t.groups = s.groups) (hcoordinator : t.coordinator = s.coordinator)
    (hdir : t.ipcRuntimeDir = s.ipcRuntimeDir) (htask : t.completionTask = s.completionTask)
    (hmonitor : t.monitorTask = s.monitorTask) (hcalls : t.calls = s.calls)
    (hgroup : t.group = s.group) (hrunning : ∀ r ∈ t.running, r ∈ s.running)
    (hstages : ∀ id, (t.coordinators id).stages = (s.coordinators id).stages) : Sound t := by
  have hcovered {groups monitors : List ℕ} (hs : Covered s groups monitors) :
      Covered t groups monitors :=
    hs.shrink hrunning hgroup (fun _ _ => hcoordinator) (fun _ _ => htask) fun _ _ => hdir
  have hunregistered (hs : s.Unregistered) : t.Unregistered := by
    obtain ⟨id, hid, hnone⟩ := hs
    exact ⟨id, hcoordinator.trans hid, (hstages id).trans hnone⟩
  cases h with
  | stopped hcalls' hstarted' hgroups' hcoordinator' htask' hdir' hs =>
    exact .stopped (hcalls.trans hcalls') (hstarted.trans hstarted') (hgroups.trans hgroups')
      (hcoordinator.trans hcoordinator') (htask.trans htask') (hdir.trans hdir') (hcovered hs)
  | serving hcalls' hstarted' hcoordinator' hs =>
    exact .serving (hcalls.trans hcalls') (hstarted.trans hstarted') (hcoordinator ▸ hcoordinator')
      (hgroups ▸ hmonitor ▸ hcovered hs)
  | startCoordinator id groups hcalls' hstarted' hgroups' htask' hs' hempty hs =>
    exact .startCoordinator id groups (hcalls.trans hcalls') (hstarted.trans hstarted')
      (hgroups.trans hgroups') (htask.trans htask') (hunregistered hs')
      (by simpa only [processes, hgroup] using hempty) (hcovered hs)
  | startReady hcalls' hstarted' hs' hs =>
    exact .startReady (hcalls.trans hcalls') (hstarted.trans hstarted') (hunregistered hs')
      (hgroups ▸ hcovered hs)
  | cleanupCompletion task hcalls' hstarted' hgroups' htask' hs =>
    exact .cleanupCompletion task (hcalls.trans hcalls') (hstarted.trans hstarted')
      (hgroups.trans hgroups') (htask.trans htask') (hcovered hs)
  | stopStages monitor cancelled hcalls' hstarted' hcoordinator' hs =>
    exact .stopStages monitor cancelled (hcalls.trans hcalls') (hstarted.trans hstarted')
      (hcoordinator ▸ hcoordinator') (hgroups ▸ hcovered hs)
  | stopGroups monitor cancelled hcalls' hstarted' hcoordinator' hs =>
    exact .stopGroups monitor cancelled (hgroups ▸ hcalls.trans hcalls')
      (hstarted.trans hstarted') (hcoordinator ▸ hcoordinator') (hgroups ▸ hcovered hs)
  | stopCompletion monitor task hcalls' hstarted' hcoordinator' htask' hs =>
    exact .stopCompletion monitor task (hcalls.trans hcalls') (hstarted.trans hstarted')
      (hcoordinator ▸ hcoordinator') (htask.trans htask') (hcovered hs)

theorem covered_of_running_eq_nil (h : s.running = []) (groups monitors : List ℕ) :
    Covered s groups monitors := by
  constructor <;> simp [h]

variable {monitors : List ℕ}

/-- Nothing is running once all that the fields and the call hold has ended. -/
theorem running_eq_nil_of_finished (h : Covered s [] monitors) (htask : s.completionTask = none)
    (hrunning : ∀ r ∈ t.running, r ∈ s.running ∧
      r ∉ s.coordinator.toList.map Resource.coordinator ∧
      r ∉ s.ipcRuntimeDir.toList.map Resource.runtimeDir ∧
      r ∉ monitors.map Resource.monitorTask) : t.running = [] := by
  refine eq_nil_iff_forall_not_mem.mpr fun r hr => ?_
  obtain ⟨hs, hcoordinator, hdir, hmonitor⟩ := hrunning r hr
  cases r with
  | process pid =>
    obtain ⟨g, hg, -⟩ := h.process pid hs
    exact not_mem_nil hg
  | channel id =>
    obtain ⟨g, hg, -⟩ := h.channel id hs
    exact not_mem_nil hg
  | coordinator id => exact hcoordinator (by simp [h.coordinator id hs])
  | completionTask id => simpa [htask] using h.completionTask id hs
  | monitorTask id => exact hmonitor (mem_map_of_mem (h.monitorTask id hs))
  | runtimeDir id => exact hdir (by simp [h.runtimeDir id hs])

/-- The end of a failed `start()`. -/
theorem sound_cleanupCoordinator (hcalls : s.calls = []) (hstarted : s.started = false)
    (hgroups : s.groups = []) (htask : s.completionTask = none) (hcovered : Covered s [] []) :
    Sound s.cleanupCoordinator := by
  have hnil : s.cleanupCoordinator.running = [] := by
    refine running_eq_nil_of_finished hcovered htask fun r hr => ?_
    unfold cleanupCoordinator at hr
    split at hr
    next hnone =>
      have hboth := (mem_running_finish _ _ r).mp hr
      exact ⟨hboth.1, by simp [hnone], hboth.2, by simp⟩
    next id hid =>
      have hboth := (mem_running_finish _ _ r).mp hr
      have hstopped := (mem_running_finish _ _ r).mp hboth.1
      exact ⟨hstopped.1, by simpa [hid] using hstopped.2, hboth.2, by simp⟩
  have hcovered' := covered_of_running_eq_nil hnil [] []
  unfold cleanupCoordinator at hcovered' ⊢
  split
  next hnone =>
    simp only [hnone] at hcovered'
    exact .stopped hcalls hstarted hgroups hnone htask rfl hcovered'
  next id hid =>
    simp only [hid] at hcovered'
    exact .stopped hcalls hstarted hgroups rfl htask rfl hcovered'

theorem sound_cleanupOnFailure (hcalls : s.calls = []) (hstarted : s.started = false)
    (hcovered : Covered s s.groups []) : Sound s.cleanupOnFailure := by
  have hsame := (sameFields_foldl_cleanup s.groups s).1
  have hended := hcovered.of_ended hsame fun r hr => mem_running_foldl_cleanup hr
  unfold cleanupOnFailure
  generalize s.groups.foldl cleanupGroup s = t at hsame hended
  have hended' : Covered { t with groups := [] } [] [] :=
    hended.shrink (fun _ hr => hr) rfl (fun _ _ => rfl) (fun _ _ => rfl) fun _ _ => rfl
  have hcalls' : t.calls = [] := hsame.calls.trans hcalls
  have hstarted' : t.started = false := hsame.started.trans hstarted
  dsimp only
  split
  next htask => exact sound_cleanupCoordinator hcalls' hstarted' rfl htask hended'
  next task htask =>
    refine .cleanupCompletion task ?_ hstarted' rfl htask (hended'.shrink
      (fun _ hr => hr) rfl (fun _ _ => rfl) (fun _ _ => rfl) fun _ _ => rfl)
    simp only [suspend, cancel, hcalls', nil_append]

variable {monitor : Option ℕ}

theorem sound_stopRest (hcalls : s.calls = []) (hstarted : s.started = false)
    (hcoordinator : s.coordinator.isSome) (htask : s.completionTask = none)
    (hcovered : Covered s [] monitor.toList) :
    Sound (s.stopRest monitor) := by
  obtain ⟨id, hid⟩ := Option.isSome_iff_exists.mp hcoordinator
  have hnil : (s.stopRest monitor).running = [] := by
    refine running_eq_nil_of_finished hcovered htask fun r hr => ?_
    simp only [stopRest, hid] at hr
    have hended := (mem_running_finish _ _ r).mp hr
    have hboth := (mem_running_finish _ _ r).mp hended.1
    have hstopped := (mem_running_finish _ _ r).mp hboth.1
    exact ⟨hstopped.1, by simpa [hid] using hstopped.2, hboth.2, hended.2⟩
  have hcovered' := covered_of_running_eq_nil hnil [] []
  simp only [stopRest, hid] at hcovered' ⊢
  exact .stopped hcalls hstarted rfl rfl htask rfl hcovered'

variable {i : ℕ}

/-- At most one call is in progress. -/
theorem Sound.calls_eq (h : Sound s) {pc : Pc} (hpc : s.calls[i]? = some pc) :
    s.calls = [pc] ∧ (s.resume i).calls = [] := by
  have hone {pc' : Pc} (hcalls : s.calls = [pc']) : s.calls = [pc] ∧ (s.resume i).calls = [] := by
    rw [hcalls] at hpc
    obtain ⟨hi, hpc'⟩ := List.getElem?_eq_some_iff.mp hpc
    obtain rfl : i = 0 := by simpa using hi
    obtain rfl : pc' = pc := hpc'
    exact ⟨hcalls, by simp [resume, hcalls]⟩
  have hnone (hcalls : s.calls = []) : s.calls = [pc] ∧ (s.resume i).calls = [] := by
    simp [hcalls] at hpc
  cases h with
  | stopped hcalls => exact hnone hcalls
  | serving hcalls => exact hnone hcalls
  | startCoordinator id groups hcalls => exact hone hcalls
  | startReady hcalls => exact hone hcalls
  | cleanupCompletion task hcalls => exact hone hcalls
  | stopStages monitor cancelled hcalls => exact hone hcalls
  | stopGroups monitor cancelled hcalls => exact hone hcalls
  | stopCompletion monitor task hcalls => exact hone hcalls

variable {groups : List ℕ}

/-- What is held does not depend on the calls in progress. -/
theorem Covered.resume (h : Covered s groups monitors) (i : ℕ) :
    Covered (s.resume i) groups monitors :=
  h.shrink (fun _ hr => hr) rfl (fun _ _ => rfl) (fun _ _ => rfl) fun _ _ => rfl

theorem Covered.suspend (h : Covered s groups monitors) (pc : Pc) :
    Covered (s.suspend pc) groups monitors :=
  h.shrink (fun _ hr => hr) rfl (fun _ _ => rfl) (fun _ _ => rfl) fun _ _ => rfl

/-- A new directory is held by the runner. -/
theorem covered_prepareRuntime (hrunning : s.running = []) (hdir : s.ipcRuntimeDir = none) :
    Covered s.prepareRuntime [] [] ∧
      SameFields { s with ipcRuntimeDir := s.prepareRuntime.ipcRuntimeDir } s.prepareRuntime := by
  have hlaunch : s.prepareRuntime = { s.launch .runtimeDir with ipcRuntimeDir := some s.fresh } :=
    by
    simp [prepareRuntime, hdir]
  rw [hlaunch]
  refine ⟨(covered_of_running_eq_nil hrunning [] []).add (fun r hr => (mem_running_launch _ _ r).mp
    hr)
    rfl (List.Subset.refl _) (fun _ _ => rfl) (fun _ _ => rfl) (fun id hid => ?_) rfl,
    ⟨rfl, rfl, rfl, rfl, rfl, rfl, rfl, rfl, rfl, rfl⟩⟩
  simp [hrunning] at hid

/-- New groups hold their queues. -/
theorem covered_buildStageGroups (h : Covered s [] []) (specs : List GroupSpec) :
    Covered (s.buildStageGroups specs).1 (s.buildStageGroups specs).2 [] := by
  obtain ⟨-, hrunning⟩ := buildStageGroups_spec specs s
  have hsame := sameFields_buildStageGroups specs s
  refine ⟨fun pid hpid => ?_, fun id hid => ?_, fun id hid => ?_, fun id hid => ?_,
    fun id hid => ?_, fun id hid => ?_⟩
  · rcases hrunning _ hpid with hold | ⟨⟨id, hid⟩, -⟩
    · obtain ⟨g, hg, -⟩ := h.process pid hold
      exact absurd hg not_mem_nil
    · cases hid
  · rcases hrunning _ hid with hold | ⟨-, hheld⟩
    · obtain ⟨g, hg, -⟩ := h.channel id hold
      exact absurd hg not_mem_nil
    · exact hheld
  · rcases hrunning _ hid with hold | ⟨⟨_, hother⟩, -⟩
    · exact hsame.coordinator.trans (h.coordinator id hold)
    · cases hother
  · rcases hrunning _ hid with hold | ⟨⟨_, hother⟩, -⟩
    · exact hsame.completionTask.trans (h.completionTask id hold)
    · cases hother
  · rcases hrunning _ hid with hold | ⟨⟨_, hother⟩, -⟩
    · exact h.monitorTask id hold
    · cases hother
  · rcases hrunning _ hid with hold | ⟨⟨_, hother⟩, -⟩
    · exact hsame.ipcRuntimeDir.trans (h.runtimeDir id hold)
    · cases hother

/-- `start()` from a runner that holds nothing. -/
theorem sound_start_of_stopped (hcalls : s.calls = []) (hstarted : s.started = false)
    (hgroups : s.groups = []) (hcoordinator : s.coordinator = none)
    (htask : s.completionTask = none) (hdir : s.ipcRuntimeDir = none) (hnil : s.running = [])
    {setup : Setup} (hbuilt : setup.prepared → setup.built ∧ setup.resolved ∨
      ∀ spec ∈ setup.specs, spec.followerQueues = 0) : Sound (s.start setup) := by
  rw [start, if_neg (by simp [hstarted])]
  dsimp only
  split
  · exact sound_cleanupOnFailure hcalls hstarted (covered_of_running_eq_nil (by exact hnil) _ _)
  next hsetup =>
    obtain ⟨hprepared, hfields⟩ :=
      covered_prepareRuntime (s := { s with fatalEvent := some false, fatalError := none }) hnil
        hdir
    generalize prepareRuntime { s with fatalEvent := some false, fatalError := none } = t at *
    have hcovered := covered_buildStageGroups hprepared setup.specs
    have hempty := (buildStageGroups_spec setup.specs t).1
    have hsame := sameFields_buildStageGroups setup.specs t
    have hcalls' := (hsame.calls.trans hfields.calls).trans hcalls
    have hstarted' := (hsame.started.trans hfields.started).trans hstarted
    have hgroups' := (hsame.groups.trans hfields.groups).trans hgroups
    have hcoordinator' := (hsame.coordinator.trans hfields.coordinator).trans hcoordinator
    have htask' := (hsame.completionTask.trans hfields.completionTask).trans htask
    split
    next hraised =>
      have hrunning := running_buildStageGroups
        ((hbuilt (not_not.mp hsetup)).resolve_left hraised) t
      refine sound_cleanupOnFailure hcalls' hstarted' ?_
      rw [hgroups']
      exact hprepared.of_ended hsame fun r hr => ⟨hrunning ▸ hr, by simp⟩
    · generalize (t.buildStageGroups setup.specs).1 = u at *
      generalize (t.buildStageGroups setup.specs).2 = groups at *
      refine .startCoordinator u.fresh groups ?_ hstarted' hgroups' htask' ⟨_, rfl, ?_⟩ ?_ ?_
      · simp only [suspend, launch, setCoordinator, hcalls', nil_append]
      · simp [suspend, launch, setCoordinator]
      · intro g hg
        simp [processes, suspend, launch, setCoordinator, hempty g hg]
      · refine hcovered.add (fun r hr => (mem_running_launch (u.setCoordinator _ _) _ r).mp hr) rfl
          (List.Subset.refl _) (fun id hid => ?_) (fun _ _ => rfl) (fun _ _ => rfl) rfl
        have hheld := hcovered.coordinator id hid
        simp [hcoordinator'] at hheld

theorem Sound.start (h : Sound s) {setup : Setup} (hok : Undisturbed s (.start setup)) :
    Sound (s.start setup) := by
  by_cases hstarted : s.started = true
  · rwa [State.start, if_pos hstarted]
  · obtain ⟨hcalls, hbuilt⟩ := hok.resolve_left hstarted
    cases h with
    | stopped hcalls' hstarted' hgroups hcoordinator htask hdir hcovered =>
      exact sound_start_of_stopped hcalls' hstarted' hgroups hcoordinator htask hdir
        (hcovered.running_eq_nil hcoordinator htask hdir) hbuilt
    | serving _ hstarted' => exact absurd hstarted' hstarted
    | startCoordinator _ _ hcalls' => simp [hcalls] at hcalls'
    | startReady hcalls' => simp [hcalls] at hcalls'
    | cleanupCompletion _ hcalls' => simp [hcalls] at hcalls'
    | stopStages _ _ hcalls' => simp [hcalls] at hcalls'
    | stopGroups _ _ hcalls' => simp [hcalls] at hcalls'
    | stopCompletion _ _ hcalls' => simp [hcalls] at hcalls'

variable {id : ℕ}

theorem Sound.of_startCoordinator (h : Sound s) (hcalls : s.calls = [.startCoordinator id groups]) :
    s.started = false ∧ s.groups = [] ∧ s.completionTask = none ∧ s.Unregistered ∧
      (∀ g ∈ groups, s.processes g = []) ∧ Covered s groups [] := by
  cases h <;> simp_all

theorem Sound.of_startReady (h : Sound s) (hcalls : s.calls = [.startReady]) :
    s.started = false ∧ s.Unregistered ∧ Covered s s.groups [] := by
  cases h <;> simp_all

variable {task : ℕ}

theorem Sound.of_cleanupCompletion (h : Sound s) (hcalls : s.calls = [.cleanupCompletion task]) :
    s.started = false ∧ s.groups = [] ∧ s.completionTask = some task ∧ Covered s [] [] := by
  cases h <;> simp_all

variable {cancelled : Option ℕ}

theorem Sound.of_stopStages (h : Sound s) (hcalls : s.calls = [.stopStages monitor cancelled]) :
    s.started = false ∧
      s.coordinator.isSome ∧ Covered s s.groups (monitor.toList ++ cancelled.toList) := by
  cases h <;> simp_all

theorem Sound.of_stopGroups (h : Sound s)
    (hcalls : s.calls = [.stopGroups monitor cancelled groups]) :
    s.started = false ∧ s.coordinator.isSome ∧ groups = s.groups ∧
      Covered s s.groups (monitor.toList ++ cancelled.toList) := by
  cases h <;> simp_all

theorem Sound.of_stopCompletion (h : Sound s) (hcalls : s.calls = [.stopCompletion monitor task]) :
    s.started = false ∧
      s.coordinator.isSome ∧ s.completionTask = some task ∧ Covered s [] monitor.toList := by
  cases h <;> simp_all

/-- Spawning the groups, to the end or until it raises. -/
theorem sound_spawnGroups (hcalls : s.calls = []) (hstarted : s.started = false)
    (hgroups : s.groups = groups) (hunregistered : s.Unregistered) (hcovered : Covered s groups [])
    (starts : ℕ → Bool) :
    Sound
    (if (s.spawnGroups starts groups).2 then (s.spawnGroups starts groups).1.suspend .startReady
      else (s.spawnGroups starts groups).1.cleanupOnFailure) := by
  have hspawned := hcovered.spawnGroups starts (List.Subset.refl groups)
  have hsame := sameFields_spawnGroups starts groups s
  generalize s.spawnGroups starts groups = result at *
  obtain ⟨c, hc, hstages⟩ := hunregistered
  have hgroups' := hsame.groups.trans hgroups
  split
  · refine .startReady ?_ (hsame.started.trans hstarted) ⟨c, hsame.coordinator.trans hc, ?_⟩ ?_
    · rw [suspend, hsame.calls, hcalls, nil_append]
    · exact (congrArg (fun f => (f c).stages) hsame.coordinators).trans hstages
    · exact (hspawned.suspend _ : Covered _ groups []) |> (hgroups' ▸ ·)
  · exact sound_cleanupOnFailure (hsame.calls.trans hcalls) (hsame.started.trans hstarted)
      (hgroups' ▸ hspawned)

/-- `start()` goes on, with all it launches held by the runner. -/
theorem Sound.startGroups (h : Sound s) (hpc : s.calls[i]? = some (.startCoordinator id groups))
    (starts : ℕ → Bool) :
    Sound ((s.resume i).startGroups id groups starts) := by
  obtain ⟨hcalls, hresume⟩ := h.calls_eq hpc
  obtain ⟨hstarted, hgroups, htask, ⟨c, hc, hstages⟩, -, hcovered⟩ := h.of_startCoordinator hcalls
  rw [State.startGroups, if_neg (by simp [State.setCoordinator, State.resume, hc])]
  refine sound_spawnGroups ?_ ?_ rfl ⟨c, ?_, ?_⟩ ?_ starts
  · exact hresume
  · exact hstarted
  · exact hc
  · by_cases hid : c = id
    · subst hid
      simpa [launch, setCoordinator, resume] using hstages
    · simpa [launch, setCoordinator, resume, hid] using hstages
  · refine hcovered.add (fun r hr => (mem_running_launch _ _ r).mp hr) rfl (List.Subset.refl _)
      (fun _ _ => rfl) (fun id hid => ?_) (fun _ _ => rfl) rfl
    have hheld := hcovered.completionTask id hid
    simp [htask] at hheld

theorem Sound.coordinatorRaises (h : Sound s)
    (hpc : s.calls[i]? = some (.startCoordinator id groups))
    (hqueues : ∀ g ∈ groups, s.controlChannels g = []) : Sound (s.resume i).cleanupOnFailure := by
  obtain ⟨hcalls, hresume⟩ := h.calls_eq hpc
  obtain ⟨hstarted, hgroups, htask, -, hempty, hcovered⟩ := h.of_startCoordinator hcalls
  refine sound_cleanupOnFailure hresume hstarted ?_
  rw [show (s.resume i).groups = [] from hgroups]
  refine (hcovered.of_ended (SameFields.refl s) fun r hr => ⟨hr, fun g hg => ?_⟩).resume i
  rw [hempty g hg, hqueues g hg]
  exact ⟨not_mem_nil, not_mem_nil⟩

/-- `start()` goes on once all groups are ready. -/
theorem Sound.startMonitor (h : Sound s) (hpc : s.calls[i]? = some .startReady) :
    Sound (s.resume i).startMonitor := by
  obtain ⟨hcalls, hresume⟩ := h.calls_eq hpc
  obtain ⟨hstarted, ⟨c, hc, hstages⟩, hcovered⟩ := h.of_startReady hcalls
  unfold State.startMonitor
  split
  · exact sound_cleanupOnFailure hresume hstarted (hcovered.shrink
      (fun _ hr => hr) rfl (fun _ _ => rfl) (fun _ _ => rfl) fun _ _ => rfl)
  · split
    next hnone => exact absurd (hc.symm.trans hnone) (by simp)
    next id hid =>
      refine .serving hresume rfl (by simp [launch, registerStages,
        setCoordinator, hid]) (hcovered.add
          (fun r hr => (mem_running_launch _ _ r).mp hr) rfl (nil_subset _)
          (fun _ _ => rfl) (fun _ _ => rfl) (fun _ _ => rfl) ?_)
      simp [HeldBy, registerStages, setCoordinator, resume]

theorem Sound.notReady (h : Sound s) (hpc : s.calls[i]? = some .startReady) :
    Sound (s.resume i).notReady := by
  obtain ⟨hcalls, hresume⟩ := h.calls_eq hpc
  obtain ⟨hstarted, -, hcovered⟩ := h.of_startReady hcalls
  unfold State.notReady
  split
  · exact sound_cleanupOnFailure hresume hstarted (hcovered.shrink
      (fun _ hr => hr) rfl (fun _ _ => rfl) (fun _ _ => rfl) fun _ _ => rfl)
  · exact sound_cleanupOnFailure hresume hstarted (hcovered.resume i)

theorem Covered.mono {monitors' : List ℕ} (h : Covered s groups monitors)
    (hsub : ∀ id ∈ monitors, .monitorTask id ∈ s.running → id ∈ monitors') :
    Covered s groups monitors' :=
  { h with monitorTask := fun id hid => hsub id (h.monitorTask id hid) hid }

theorem Sound.endCall (h : Sound s) (monitor : Option ℕ) : Sound (s.endCall monitor) :=
  h.shrink rfl rfl rfl rfl rfl rfl rfl rfl (fun r hr => ((mem_running_finish _ _ r).mp hr).1)
    fun _ => rfl

/-- The phase in which the runner serves requests. -/
theorem Sound.of_started (h : Sound s) (hstarted : s.started = true) :
    s.calls = [] ∧ s.coordinator.isSome ∧ Covered s s.groups s.monitorTask.toList := by
  cases h <;> simp_all

theorem Sound.stop (h : Sound s) (monitor : Option ℕ) : Sound (s.stop monitor) := by
  unfold State.stop
  by_cases hstarted : s.started = true
  · obtain ⟨hcalls, hcoordinator, hcovered⟩ := h.of_started hstarted
    rw [if_neg (by simp [hstarted])]
    dsimp only
    split
    · refine .stopStages monitor s.monitorTask ?_ rfl hcoordinator ?_
      · rw [suspend, hcalls, nil_append]
      · exact (hcovered.mono fun id hid _ => mem_append_right _ hid).shrink
          (fun _ hr => hr) rfl (fun _ _ => rfl) (fun _ _ => rfl) fun _ _ => rfl
    next hown =>
      refine .stopStages monitor none ?_ rfl hcoordinator ?_
      · rw [suspend, hcalls, nil_append]
      · refine (hcovered.mono fun id hid _ => ?_).shrink
          (fun _ hr => hr) rfl (fun _ _ => rfl) (fun _ _ => rfl) fun _ _ => rfl
        have hid' : s.monitorTask = some id := by simpa using hid
        have hmonitor : s.monitorTask = monitor := by
          by_contra hne
          exact hown ⟨by simp [hid'], hne⟩
        simp [← hmonitor, hid']
  · rw [if_pos (by simp [hstarted])]
    exact h.endCall monitor

theorem Sound.stagesShutdown (h : Sound s)
    (hpc : s.calls[i]? = some (.stopStages monitor cancelled)) :
    Sound ((s.resume i).suspend (.stopGroups monitor cancelled s.groups)) := by
  obtain ⟨hcalls, hresume⟩ := h.calls_eq hpc
  obtain ⟨hstarted, hcoordinator, hcovered⟩ := h.of_stopStages hcalls
  refine .stopGroups monitor cancelled ?_ hstarted hcoordinator ((hcovered.resume i).suspend _)
  rw [suspend, hresume, nil_append]
  rfl

theorem Sound.stopCompletionTask (h : Sound s)
    (hpc : s.calls[i]? = some (.stopGroups monitor cancelled groups))
    (hended : ¬∃ task ∈ cancelled, .monitorTask task ∈ s.running) :
    Sound ((s.resume i).stopCompletionTask monitor groups) := by
  obtain ⟨hcalls, hresume⟩ := h.calls_eq hpc
  obtain ⟨hstarted, hcoordinator, rfl, hcovered⟩ := h.of_stopGroups hcalls
  have hown : Covered (s.resume i) s.groups monitor.toList :=
    (hcovered.mono fun id hid hrunning => by
      rcases mem_append.mp hid with hmonitor | hcancelled
      · exact hmonitor
      · exact absurd ⟨id, by simpa using hcancelled, hrunning⟩ hended).resume i
  have hsame := sameFields_foldl_shutdown s.groups (s.resume i)
  have hdown := hown.of_ended hsame fun r hr => mem_running_foldl_shutdown hr
  unfold stopCompletionTask
  generalize s.groups.foldl shutdownGroup (s.resume i) = t at hsame hdown
  have hcalls' := hsame.calls.trans hresume
  have hstarted' := hsame.started.trans hstarted
  have hcoordinator' : t.coordinator.isSome := hsame.coordinator ▸ hcoordinator
  dsimp only
  split
  next htask => exact sound_stopRest hcalls' hstarted' hcoordinator' htask hdown
  next task htask =>
    refine .stopCompletion monitor task ?_ hstarted' hcoordinator' htask (hdown.shrink
      (fun _ hr => hr) rfl (fun _ _ => rfl) (fun _ _ => rfl) fun _ _ => rfl)
    simp only [suspend, cancel, hcalls', nil_append]

theorem Covered.clearTask (h : Covered s [] monitors) (htask : s.completionTask = some task)
    (hended : .completionTask task ∉ s.running) :
    Covered { s with completionTask := none } [] monitors := by
  refine h.shrink (fun _ hr => hr) rfl (fun _ _ => rfl) (fun id hid => ?_) fun _ _ => rfl
  have hheld := h.completionTask id hid
  rw [htask] at hheld
  exact absurd (Option.some.inj hheld ▸ hid) hended

theorem Sound.cleanupEnds (h : Sound s) (hpc : s.calls[i]? = some (.cleanupCompletion task))
    (hended : .completionTask task ∉ s.running) :
    Sound { s.resume i with completionTask := none }.cleanupCoordinator := by
  obtain ⟨hcalls, hresume⟩ := h.calls_eq hpc
  obtain ⟨hstarted, hgroups, htask, hcovered⟩ := h.of_cleanupCompletion hcalls
  exact sound_cleanupCoordinator hresume hstarted hgroups rfl
    ((hcovered.resume i).clearTask htask hended)

theorem Sound.stopEnds (h : Sound s) (hpc : s.calls[i]? = some (.stopCompletion monitor task))
    (hended : .completionTask task ∉ s.running) :
    Sound ({ s.resume i with completionTask := none }.stopRest monitor) := by
  obtain ⟨hcalls, hresume⟩ := h.calls_eq hpc
  obtain ⟨hstarted, hcoordinator, htask, hcovered⟩ := h.of_stopCompletion hcalls
  exact sound_stopRest hresume hstarted hcoordinator rfl
    ((hcovered.resume i).clearTask htask hended)

/-- What a coordinator does with its requests changes nothing that is held. -/
theorem Sound.setCoordinator (h : Sound s) {c : Coordinator}
    (hstages : c.stages = (s.coordinators id).stages) : Sound (s.setCoordinator id c) := by
  refine h.shrink rfl rfl rfl rfl rfl rfl rfl rfl (fun _ hr => hr) fun other => ?_
  by_cases hother : other = id
  · subst hother
    simp [setCoordinator, hstages]
  · simp [State.setCoordinator, hother]

theorem Sound.failPendingRequests (h : Sound s) (message : String) :
    Sound (s.failPendingRequests message) := by
  unfold State.failPendingRequests
  split
  · exact h
  next id hid =>
    have hset : Sound (s.setCoordinator id ((s.coordinators id).failPendingRequests message)) :=
      h.setCoordinator rfl
    exact hset.shrink rfl rfl rfl rfl rfl rfl rfl rfl (fun _ hr => hr) fun _ => rfl

theorem Sound.failRuntime (h : Sound s) (error : String) (monitor : ℕ) :
    Sound (s.failRuntime error monitor) := by
  have herror : Sound { s with fatalError := some error } :=
    h.shrink rfl rfl rfl rfl rfl rfl rfl rfl (fun _ hr => hr) fun _ => rfl
  refine Sound.stop ?_ _
  exact (herror.failPendingRequests error).shrink rfl rfl rfl rfl rfl rfl rfl rfl
    (fun _ hr => hr) fun _ => rfl

theorem Sound.monitorChildren (h : Sound s) (exitcode : ℕ → ℤ) (monitor : ℕ) :
    Sound (s.monitorChildren exitcode monitor) := by
  unfold State.monitorChildren
  split
  · exact h.endCall _
  · split
    · exact h
    · have hfound : Sound { s with found := s.found ++ s.pending } :=
        h.shrink rfl rfl rfl rfl rfl rfl rfl rfl (fun _ hr => hr) fun _ => rfl
      exact hfound.failRuntime _ monitor

/-- Every step that disturbs no call leads to a phase. -/
theorem Sound.step {exitcode : ℕ → ℤ} (h : Sound s) {a : Action} (hok : Undisturbed s a)
    (hstep : Omni.Runner.step exitcode s a = some t) : Sound t := by
  cases a with
  | start setup =>
    cases hstep
    exact h.start hok
  | coordinatorStarted i outcome starts =>
    simp only [Omni.Runner.step] at hstep
    split at hstep
    next id groups hpc =>
      cases hstep
      exact h.startGroups hpc starts
    next id groups hpc =>
      cases hstep
      obtain ⟨-, hqueues⟩ := hok.resolve_left (by simp)
      exact h.coordinatorRaises hpc (hqueues _ hpc)
    next hpc => simp [Undisturbed] at hok
    · cases hstep
  | ready i outcome =>
    simp only [Omni.Runner.step] at hstep
    split at hstep
    next hpc =>
      cases hstep
      exact h.startMonitor hpc
    next hpc =>
      cases hstep
      exact h.notReady hpc
    · exact absurd rfl hok
    · cases hstep
  | stop =>
    cases hstep
    exact h.stop none
  | stagesShutdown i cancelled =>
    obtain rfl : cancelled = false := hok
    simp only [Omni.Runner.step] at hstep
    split at hstep
    next monitor cancelledMonitor hpc =>
      cases hstep
      exact h.stagesShutdown hpc
    · cases hstep
  | groupsShutdown i cancelled =>
    obtain rfl : cancelled = none := hok
    simp only [Omni.Runner.step] at hstep
    split at hstep
    next monitor cancelledMonitor groups hpc =>
      split at hstep
      · cases hstep
      next hended =>
        cases hstep
        exact h.stopCompletionTask hpc hended
    · cases hstep
  | completionEnded i =>
    simp only [Omni.Runner.step] at hstep
    split at hstep
    next task hpc =>
      rw [hok _ hpc task rfl] at hstep
      split at hstep
      · cases hstep
      next hended =>
        cases hstep
        exact h.cleanupEnds hpc hended
    next monitor task hpc =>
      rw [hok _ hpc task rfl] at hstep
      split at hstep
      · cases hstep
      next hended =>
        cases hstep
        exact h.stopEnds hpc hended
    · cases hstep
  | monitorWakes task =>
    obtain ⟨-, hstep⟩ := Option.ite_none_right_eq_some.mp hstep
    cases hstep
    exact h.monitorChildren exitcode task
  | monitorCancelled task =>
    obtain ⟨-, hstep⟩ := Option.ite_none_right_eq_some.mp hstep
    cases hstep
    exact h.endCall _
  | completionLoopEnds task error =>
    obtain ⟨-, hstep⟩ := Option.ite_none_right_eq_some.mp hstep
    cases hstep
    exact h.shrink rfl rfl rfl rfl rfl rfl rfl rfl
      (fun r hr => ((mem_running_finish _ _ r).mp hr).1) fun _ => rfl
  | processExits pid =>
    obtain ⟨-, hstep⟩ := Option.ite_none_right_eq_some.mp hstep
    cases hstep
    exact h.shrink rfl rfl rfl rfl rfl rfl rfl rfl
      (fun r hr => ((mem_running_finish _ _ r).mp hr).1) fun _ => rfl
  | submitRequest id requestId =>
    obtain ⟨c, hc, rfl⟩ := Option.map_eq_some_iff.mp hstep
    obtain ⟨-, hc⟩ := Option.ite_none_left_eq_some.mp hc
    exact h.setCoordinator (by rw [← Option.some.inj hc])
  | requestEnds id requestId =>
    obtain ⟨-, hstep⟩ := Option.ite_none_right_eq_some.mp hstep
    cases hstep
    exact h.setCoordinator rfl

end Omni.Runner
