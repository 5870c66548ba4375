import Omni.Runner.Lifecycle

/-!
# What the runner still holds

Everything that has been started and has not ended is held by a field of the runner, by a
stage group or by a call in progress.
-/

namespace Omni.Runner

open State List

/-- The fields of the runner, the calls, the coordinators and the requests are the same. -/
structure SameFields (s t : State) : Prop where
  started : t.started = s.started
  groups : t.groups = s.groups
  coordinator : t.coordinator = s.coordinator
  ipcRuntimeDir : t.ipcRuntimeDir = s.ipcRuntimeDir
  completionTask : t.completionTask = s.completionTask
  monitorTask : t.monitorTask = s.monitorTask
  calls : t.calls = s.calls
  coordinators : t.coordinators = s.coordinators
  found : t.found = s.found
  failed : t.failed = s.failed

theorem SameFields.refl (s : State) : SameFields s s :=
  ⟨rfl, rfl, rfl, rfl, rfl, rfl, rfl, rfl, rfl, rfl⟩

variable {s t : State} (specs : List GroupSpec) (starts : ℕ → Bool)

theorem SameFields.trans {u : State} (hfirst : SameFields s t) (hsecond : SameFields t u) :
    SameFields s u where
  started := hsecond.started.trans hfirst.started
  groups := hsecond.groups.trans hfirst.groups
  coordinator := hsecond.coordinator.trans hfirst.coordinator
  ipcRuntimeDir := hsecond.ipcRuntimeDir.trans hfirst.ipcRuntimeDir
  completionTask := hsecond.completionTask.trans hfirst.completionTask
  monitorTask := hsecond.monitorTask.trans hfirst.monitorTask
  calls := hsecond.calls.trans hfirst.calls
  coordinators := hsecond.coordinators.trans hfirst.coordinators
  found := hsecond.found.trans hfirst.found
  failed := hsecond.failed.trans hfirst.failed

@[simp] theorem mem_running_finish (s : State) (resources : List Resource) (r : Resource) :
    r ∈ (s.finish resources).running ↔ r ∈ s.running ∧ r ∉ resources := by
  simp [finish]

@[simp] theorem mem_running_launch (s : State) (resource : ℕ → Resource) (r : Resource) :
    r ∈ (s.launch resource).running ↔ r ∈ s.running ∨ r = resource s.fresh := by
  simp [launch]

/-- What is running is held: processes and channels by the groups, monitor tasks by the given
list, all else by the fields of the runner. -/
structure Covered (s : State) (groups monitors : List ℕ) : Prop where
  process : ∀ pid, .process pid ∈ s.running → ∃ g ∈ groups, .process pid ∈ s.processes g
  channel : ∀ id, .channel id ∈ s.running → ∃ g ∈ groups, .channel id ∈ s.controlChannels g
  coordinator : ∀ id, .coordinator id ∈ s.running → s.coordinator = some id
  completionTask : ∀ id, .completionTask id ∈ s.running → s.completionTask = some id
  monitorTask : ∀ id, .monitorTask id ∈ s.running → id ∈ monitors
  runtimeDir : ∀ id, .runtimeDir id ∈ s.running → s.ipcRuntimeDir = some id

variable {groups monitors : List ℕ}

theorem Covered.shrink (h : Covered s groups monitors) (hsub : ∀ r ∈ t.running, r ∈ s.running)
    (hgroup : t.group = s.group)
    (hcoordinator : ∀ id, .coordinator id ∈ t.running → t.coordinator = s.coordinator)
    (htask : ∀ id, .completionTask id ∈ t.running → t.completionTask = s.completionTask)
    (hdir : ∀ id, .runtimeDir id ∈ t.running → t.ipcRuntimeDir = s.ipcRuntimeDir) :
    Covered t groups monitors where
  process pid hpid := by
    obtain ⟨g, hg, hmem⟩ := h.process pid (hsub _ hpid)
    exact ⟨g, hg, by rwa [processes, hgroup]⟩
  channel id hid := by
    obtain ⟨g, hg, hmem⟩ := h.channel id (hsub _ hid)
    exact ⟨g, hg, by rwa [controlChannels, hgroup]⟩
  coordinator id hid := (hcoordinator id hid).trans (h.coordinator id (hsub _ hid))
  completionTask id hid := (htask id hid).trans (h.completionTask id (hsub _ hid))
  monitorTask id hid := h.monitorTask id (hsub _ hid)
  runtimeDir id hid := (hdir id hid).trans (h.runtimeDir id (hsub _ hid))

/-- What it is for one thing to be held. -/
def HeldBy (s : State) (groups monitors : List ℕ) : Resource → Prop
  | .process pid => ∃ g ∈ groups, .process pid ∈ s.processes g
  | .channel id => ∃ g ∈ groups, .channel id ∈ s.controlChannels g
  | .coordinator id => s.coordinator = some id
  | .completionTask id => s.completionTask = some id
  | .monitorTask id => id ∈ monitors
  | .runtimeDir id => s.ipcRuntimeDir = some id

theorem Covered.add {monitors' : List ℕ} {new : Resource} (h : Covered s groups monitors)
    (hrunning : ∀ r ∈ t.running, r ∈ s.running ∨ r = new) (hgroup : t.group = s.group)
    (hmonitors : monitors ⊆ monitors')
    (hcoordinator : ∀ id, .coordinator id ∈ s.running → t.coordinator = s.coordinator)
    (htask : ∀ id, .completionTask id ∈ s.running → t.completionTask = s.completionTask)
    (hdir : ∀ id, .runtimeDir id ∈ s.running → t.ipcRuntimeDir = s.ipcRuntimeDir)
    (hnew : HeldBy t groups monitors' new) : Covered t groups monitors' where
  process pid hpid := by
    rcases hrunning _ hpid with hold | rfl
    · obtain ⟨g, hg, hmem⟩ := h.process pid hold
      exact ⟨g, hg, by rwa [processes, hgroup]⟩
    · exact hnew
  channel id hid := by
    rcases hrunning _ hid with hold | rfl
    · obtain ⟨g, hg, hmem⟩ := h.channel id hold
      exact ⟨g, hg, by rwa [controlChannels, hgroup]⟩
    · exact hnew
  coordinator id hid := by
    rcases hrunning _ hid with hold | rfl
    · exact (hcoordinator id hold).trans (h.coordinator id hold)
    · exact hnew
  completionTask id hid := by
    rcases hrunning _ hid with hold | rfl
    · exact (htask id hold).trans (h.completionTask id hold)
    · exact hnew
  monitorTask id hid := by
    rcases hrunning _ hid with hold | rfl
    · exact hmonitors (h.monitorTask id hold)
    · exact hnew
  runtimeDir id hid := by
    rcases hrunning _ hid with hold | rfl
    · exact (hdir id hold).trans (h.runtimeDir id hold)
    · exact hnew

/-- With nothing to hold them, nothing is running. -/
theorem Covered.running_eq_nil (h : Covered s [] []) (hcoordinator : s.coordinator = none)
    (htask : s.completionTask = none) (hdir : s.ipcRuntimeDir = none) : s.running = [] := by
  refine eq_nil_iff_forall_not_mem.mpr fun r hr => ?_
  cases r with
  | process pid =>
    obtain ⟨g, hg, -⟩ := h.process pid hr
    exact not_mem_nil hg
  | channel id =>
    obtain ⟨g, hg, -⟩ := h.channel id hr
    exact not_mem_nil hg
  | coordinator id => simpa [hcoordinator] using h.coordinator id hr
  | completionTask id => simpa [htask] using h.completionTask id hr
  | monitorTask id => exact not_mem_nil (h.monitorTask id hr)
  | runtimeDir id => simpa [hdir] using h.runtimeDir id hr

theorem mem_running_cleanupGroup (s : State) (g : ℕ) (r : Resource) :
    r ∈ (s.cleanupGroup g).running ↔
      r ∈ s.running ∧ r ∉ s.processes g ∧ r ∉ s.controlChannels g := by
  simp [cleanupGroup, and_assoc]

theorem mem_running_shutdownGroup (s : State) (g : ℕ) (r : Resource) :
    r ∈ (s.shutdownGroup g).running ↔
      r ∈ s.running ∧ r ∉ s.processes g ∧ r ∉ s.controlChannels g := by
  simp [shutdownGroup, and_assoc]

theorem sameFields_cleanupGroup (s : State) (g : ℕ) : SameFields s (s.cleanupGroup g) :=
  ⟨rfl, rfl, rfl, rfl, rfl, rfl, rfl, rfl, rfl, rfl⟩

theorem sameFields_shutdownGroup (s : State) (g : ℕ) : SameFields s (s.shutdownGroup g) :=
  ⟨rfl, rfl, rfl, rfl, rfl, rfl, rfl, rfl, rfl, rfl⟩

theorem sameFields_foldl_cleanup (groups : List ℕ) (s : State) :
    SameFields s (groups.foldl cleanupGroup s) ∧ (groups.foldl cleanupGroup s).group = s.group := by
  induction groups generalizing s with
  | nil => exact ⟨SameFields.refl s, rfl⟩
  | cons g groups ih =>
    obtain ⟨hsame, hgroup⟩ := ih (s.cleanupGroup g)
    exact ⟨(sameFields_cleanupGroup s g).trans hsame, hgroup⟩

theorem mem_running_foldl_cleanup {r : Resource}
    (h : r ∈ (groups.foldl cleanupGroup s).running) :
    r ∈ s.running ∧ ∀ g ∈ groups, r ∉ s.processes g ∧ r ∉ s.controlChannels g := by
  induction groups generalizing s with
  | nil => exact ⟨h, by simp⟩
  | cons g groups ih =>
    obtain ⟨hrunning, hrest⟩ := ih h
    obtain ⟨hbefore, hfirst⟩ := (mem_running_cleanupGroup s g r).mp hrunning
    exact ⟨hbefore, forall_mem_cons.mpr ⟨hfirst, hrest⟩⟩

theorem sameFields_foldl_shutdown (groups : List ℕ) (s : State) :
    SameFields s (groups.foldl shutdownGroup s) := by
  induction groups generalizing s with
  | nil => exact SameFields.refl s
  | cons g groups ih => exact (sameFields_shutdownGroup s g).trans (ih (s.shutdownGroup g))

theorem mem_running_foldl_shutdown {r : Resource}
    (h : r ∈ (groups.foldl shutdownGroup s).running) :
    r ∈ s.running ∧ ∀ g ∈ groups, r ∉ s.processes g ∧ r ∉ s.controlChannels g := by
  induction groups generalizing s with
  | nil => exact ⟨h, by simp⟩
  | cons g groups ih =>
    obtain ⟨hrunning, hrest⟩ := ih h
    obtain ⟨hbefore, hfirst⟩ := (mem_running_shutdownGroup s g r).mp hrunning
    refine ⟨hbefore, forall_mem_cons.mpr ⟨hfirst, fun g' hg' => ?_⟩⟩
    by_cases hgg : g' = g
    · exact hgg ▸ hfirst
    · have hboth := hrest g' hg'
      simpa [processes, controlChannels, shutdownGroup, finish, hgg] using hboth

theorem Covered.of_ended (h : Covered s groups monitors) (hsame : SameFields s t)
    (hended : ∀ r ∈ t.running,
      r ∈ s.running ∧ ∀ g ∈ groups, r ∉ s.processes g ∧ r ∉ s.controlChannels g) :
    Covered t [] monitors where
  process pid hpid := by
    obtain ⟨hrunning, hnone⟩ := hended _ hpid
    obtain ⟨g, hg, hmem⟩ := h.process pid hrunning
    exact absurd hmem (hnone g hg).1
  channel id hid := by
    obtain ⟨hrunning, hnone⟩ := hended _ hid
    obtain ⟨g, hg, hmem⟩ := h.channel id hrunning
    exact absurd hmem (hnone g hg).2
  coordinator id hid := hsame.coordinator.trans (h.coordinator id (hended _ hid).1)
  completionTask id hid := hsame.completionTask.trans (h.completionTask id (hended _ hid).1)
  monitorTask id hid := h.monitorTask id (hended _ hid).1
  runtimeDir id hid := hsame.ipcRuntimeDir.trans (h.runtimeDir id (hended _ hid).1)

theorem sameFields_buildGroup (s : State) (spec : GroupSpec) :
    SameFields s (s.buildGroup spec).1 :=
  ⟨rfl, rfl, rfl, rfl, rfl, rfl, rfl, rfl, rfl, rfl⟩

theorem sameFields_buildStageGroups (s : State) :
    SameFields s (s.buildStageGroups specs).1 := by
  induction specs generalizing s with
  | nil => exact SameFields.refl s
  | cons spec specs ih =>
    exact (sameFields_buildGroup s spec).trans (ih (s.buildGroup spec).1)

variable {g : ℕ}

/-- Groups that were there before stay as they are. -/
theorem group_buildStageGroups (s : State) (hg : g < s.fresh) :
    (s.buildStageGroups specs).1.group g = s.group g := by
  induction specs generalizing s with
  | nil => rfl
  | cons spec specs ih =>
    have hnext : g < (s.buildGroup spec).1.fresh := by
      simp only [buildGroup]
      omega
    have hne : g ≠ s.fresh + spec.followerQueues := by omega
    rw [buildStageGroups]
    exact (ih (s.buildGroup spec).1 hnext).trans (Function.update_of_ne hne _ _)

/-- New groups have no processes yet, and hold the new queues. -/
theorem buildStageGroups_spec (s : State) :
    (∀ g ∈ (s.buildStageGroups specs).2, ((s.buildStageGroups specs).1.group g).processes = [] ∧
      ((s.buildStageGroups specs).1.group g).startupErrorChannels = []) ∧
    ∀ r ∈ (s.buildStageGroups specs).1.running, r ∈ s.running ∨ (∃ id, r = .channel id) ∧
      ∃ g ∈ (s.buildStageGroups specs).2, r ∈ (s.buildStageGroups specs).1.controlChannels g := by
  induction specs generalizing s with
  | nil => exact ⟨by simp [buildStageGroups], fun r hr => .inl hr⟩
  | cons spec specs ih =>
    obtain ⟨hempty, hcover⟩ := ih (s.buildGroup spec).1
    have hkept : ((s.buildGroup spec).1.buildStageGroups specs).1.group (s.buildGroup spec).2 =
        (s.buildGroup spec).1.group (s.buildGroup spec).2 :=
      group_buildStageGroups specs _ (Nat.lt_succ_self _)
    have hgroup : (s.buildGroup spec).1.group (s.buildGroup spec).2 =
        { spec with
          followerQueues := List.range' s.fresh spec.followerQueues
          processes := []
          startupErrorChannels := [] } := Function.update_self ..
    simp only [buildStageGroups]
    refine ⟨forall_mem_cons.mpr ⟨?_, hempty⟩, fun r hr => ?_⟩
    · rw [hkept, hgroup]
      exact ⟨rfl, rfl⟩
    · rcases hcover r hr with hrunning | ⟨hchannel, g, hg, hmem⟩
      · rcases mem_append.mp hrunning with hold | hnew
        · exact .inl hold
        · obtain ⟨id, hid, rfl⟩ := mem_map.mp hnew
          refine .inr ⟨⟨id, rfl⟩, _, mem_cons_self .., ?_⟩
          rw [controlChannels, hkept, hgroup]
          exact mem_map_of_mem (mem_append_right _ hid)
      · exact .inr ⟨hchannel, g, mem_cons_of_mem _ hg, hmem⟩

theorem running_buildStageGroups {specs : List GroupSpec}
    (hqueues : ∀ spec ∈ specs, spec.followerQueues = 0) (s : State) :
    (s.buildStageGroups specs).1.running = s.running := by
  induction specs generalizing s with
  | nil => rfl
  | cons spec specs ih =>
    obtain ⟨hspec, hrest⟩ := forall_mem_cons.mp hqueues
    rw [buildStageGroups]
    exact (ih hrest (s.buildGroup spec).1).trans (by simp [buildGroup, hspec])

theorem sameFields_spawnLoop (g : ℕ) (specs : List String) (s : State) :
    SameFields s (s.spawnLoop starts g specs).1 := by
  induction specs generalizing s with
  | nil => exact SameFields.refl s
  | cons spec specs ih =>
    rw [spawnLoop]
    split
    · have hfirst : SameFields s (((s.launch .channel).launch .process).addProcess g
          (s.launch .channel).fresh s.fresh) :=
        ⟨rfl, rfl, rfl, rfl, rfl, rfl, rfl, rfl, rfl, rfl⟩
      exact hfirst.trans (ih _)
    · exact ⟨rfl, rfl, rfl, rfl, rfl, rfl, rfl, rfl, rfl, rfl⟩

theorem sameFields_spawnGroups (groups : List ℕ) (s : State) :
    SameFields s (s.spawnGroups starts groups).1 := by
  induction groups generalizing s with
  | nil => exact SameFields.refl s
  | cons g groups ih =>
    have hfirst := sameFields_spawnLoop starts g (s.group g).processSpecs s
    simp only [spawnGroups]
    split
    · exact hfirst.trans (ih _)
    · exact hfirst

theorem Covered.addProcess (h : Covered s groups monitors) (hg : g ∈ groups) :
    Covered (((s.launch .channel).launch .process).addProcess g
      (s.launch .channel).fresh s.fresh) groups monitors := by
  have hkept : ∀ g', (s.group g').processes ⊆ ((((s.launch .channel).launch .process).addProcess g
      (s.launch .channel).fresh s.fresh).group g').processes ∧
      (s.group g').startupErrorChannels ⊆ ((((s.launch .channel).launch .process).addProcess g
        (s.launch .channel).fresh s.fresh).group g').startupErrorChannels ∧
      (s.group g').followerQueues = ((((s.launch .channel).launch .process).addProcess g
        (s.launch .channel).fresh s.fresh).group g').followerQueues := by
    intro g'
    by_cases hgg : g' = g
    · subst hgg
      simp [State.addProcess, State.launch]
    · simp [State.addProcess, State.launch, hgg]
  refine ⟨fun pid hpid => ?_, fun id hid => ?_, fun id hid => ?_, fun id hid => ?_,
    fun id hid => ?_, fun id hid => ?_⟩
  · rcases (mem_running_launch _ _ _).mp hpid with hold | hnew
    · obtain ⟨g', hg', hmem⟩ := h.process pid (by simpa using hold)
      obtain ⟨pid', hpid', heq⟩ := mem_map.mp hmem
      exact ⟨g', hg', mem_map.mpr ⟨pid', (hkept g').1 hpid', heq⟩⟩
    · refine ⟨g, hg, ?_⟩
      rw [Resource.process.inj hnew]
      simp [State.processes, State.addProcess]
  · have hrunning : .channel id ∈ s.running ∨ id = s.fresh := by
      simpa [State.addProcess] using hid
    rcases hrunning with hold | hnew
    · obtain ⟨g', hg', hmem⟩ := h.channel id hold
      obtain ⟨id', hid', heq⟩ := mem_map.mp hmem
      refine ⟨g', hg', mem_map.mpr ⟨id', ?_, heq⟩⟩
      rw [← (hkept g').2.2]
      rcases mem_append.mp hid' with hstartup | hqueue
      · exact mem_append_left _ ((hkept g').2.1 hstartup)
      · exact mem_append_right _ hqueue
    · exact ⟨g, hg, by simp [State.controlChannels, State.addProcess, hnew]⟩
  · exact h.coordinator id (by simpa [State.addProcess] using hid)
  · exact h.completionTask id (by simpa [State.addProcess] using hid)
  · exact h.monitorTask id (by simpa [State.addProcess] using hid)
  · exact h.runtimeDir id (by simpa [State.addProcess] using hid)

theorem Covered.spawnLoop (h : Covered s groups monitors) (starts : ℕ → Bool) (hg : g ∈ groups)
    (specs : List String) :
    Covered (s.spawnLoop starts g specs).1 groups monitors := by
  induction specs generalizing s with
  | nil => exact h
  | cons spec specs ih =>
    rw [spawnLoop]
    split
    · exact ih (h.addProcess hg)
    · refine h.shrink (fun r hr => ?_) rfl (fun _ _ => rfl) (fun _ _ => rfl) fun _ _ => rfl
      have hboth := (mem_running_finish _ _ r).mp hr
      rcases (mem_running_launch s _ r).mp hboth.1 with hold | hnew
      · exact hold
      · exact absurd (mem_singleton.mpr hnew) hboth.2

theorem Covered.spawnGroups (h : Covered s groups monitors) (starts : ℕ → Bool) {launched : List ℕ}
    (hsub : launched ⊆ groups) :
    Covered (s.spawnGroups starts launched).1 groups monitors := by
  induction launched generalizing s with
  | nil => exact h
  | cons g rest ih =>
    obtain ⟨hg, hrest⟩ := cons_subset.mp hsub
    have hfirst := h.spawnLoop starts hg (s.group g).processSpecs
    simp only [spawnGroups]
    split
    · exact ih hfirst hrest
    · exact hfirst

end Omni.Runner
