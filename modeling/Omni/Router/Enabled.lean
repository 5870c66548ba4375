import Omni.Router.Admin

/-!
# Broadcasts and the flags of the operator

A broadcast of an update saves the flag `disabled` of each of its targets, sets it for the time of
the broadcast, and restores what it has saved. After `/init_weights_update_group` a worker that has
failed stays disabled. A flag that the operator sets in between is overwritten.
-/

namespace Omni.Router

open Transition Function List Option

variable {cfg : RouterConfig} {s t : WorkerPool} {a : RouterAction} {ws : List ℕ} {w : ℕ}
  {u : AdminUpdate}

/-- Worker `w` is a target of the broadcast that has saved these flags. -/
def WorkerPool.Window (s : WorkerPool) (w : ℕ) (saved : List (String × Bool)) : Prop :=
  ∃ u, s.holder = some (u, some saved) ∧ w ∈ u.targets

/-- While a broadcast has saved the flag of a worker, the operator sets no other flag there. -/
def Undisputed (s : WorkerPool) : RouterAction → Prop
  | .put w _ _ (some flag) _ => ∀ hold ∈ s.holder, ∀ saved ∈ hold.2, w ∈ hold.1.targets →
      dictGet saved (s.worker w).url = some flag
  | _ => True

instance (s : WorkerPool) (a : RouterAction) : Decidable (Undisputed s a) :=
  match a with
  | .put _ _ _ (some _) _ =>
    inferInstanceAs (Decidable (∀ hold ∈ s.holder, ∀ saved ∈ hold.2, _ → _ = some _))
  | .put _ _ _ none _ | .startProbe _ | .probed .. | .requestFailed .. | .createWorker _
  | .deleteWorker _ | .adminUpdate _ | .acquireLock _ | .giveUp _ | .readBody | .loseBody
  | .answered _ => inferInstanceAs (Decidable True)

/-- Workers that have been created and have different URLs. -/
def WorkerPool.Separate (s : WorkerPool) (ws : List ℕ) : Prop :=
  (∀ w ∈ ws, w < s.created) ∧ ∀ w ∈ ws, ∀ v ∈ ws, (s.worker w).url = (s.worker v).url → w = v

theorem WorkerPool.Separate.mono {vs : List ℕ} (h : s.Separate ws) (hsub : vs ⊆ ws) :
    s.Separate vs :=
  ⟨fun w hw => h.1 w (hsub hw), fun w hw v hv => h.2 w (hsub hw) v (hsub hv)⟩

/-- A value that is given to its key everywhere is found. -/
theorem dictGet_eq_some {entries : List (String × Bool)} {key : String} {value : Bool}
    (hmem : (key, value) ∈ entries) (hall : ∀ p ∈ entries, p.1 = key → p.2 = value) :
    dictGet entries key = some value := by
  unfold dictGet
  cases hfound : entries.reverse.lookup key with
  | none =>
    have hne := lookup_eq_none_iff.mp hfound _ (mem_reverse.mpr hmem)
    simp at hne
  | some other =>
    obtain ⟨before, after, hsplit, -⟩ := lookup_eq_some_iff.mp hfound
    have hother : (key, other) ∈ entries := by
      rw [← mem_reverse, hsplit]
      exact mem_append_right _ mem_cons_self
    exact congrArg some (hall _ hother rfl)

/-- What is saved for a target is its flag. -/
theorem WorkerPool.Separate.saved (h : s.Separate ws) (hw : w ∈ ws) :
    dictGet (s.previousDisabled ws) (s.worker w).url = some (s.worker w).disabled := by
  refine dictGet_eq_some (mem_map_of_mem hw) fun p hp hkey => ?_
  obtain ⟨v, hv, rfl⟩ := mem_map.mp hp
  rw [h.2 v hv w hw hkey]

/-- The URLs of workers that can be targets together are different, and the flag of each worker, or
what is saved of it, is the one that is wanted. -/
structure Kept (s : WorkerPool) : Prop where
  workers : s.Separate s.workers
  waiting : ∀ u ∈ s.waiting, s.Separate u.targets
  holder : ∀ hold ∈ s.holder, s.Separate hold.1.targets
  flags : ∀ w, (∀ saved, ¬s.Window w saved) → (s.worker w).disabled = s.wanted w
  saved : ∀ w saved, s.Window w saved → dictGet saved (s.worker w).url = some (s.wanted w)

theorem kept_init (cfg : RouterConfig) : Kept (.init cfg) where
  workers := by
    refine ⟨fun w hw => mem_range.mp hw, fun w hw v hv heq => ?_⟩
    have hw' : w < cfg.workers.length := mem_range.mp hw
    have hv' : v < cfg.workers.length := mem_range.mp hv
    have hurl : (cfg.workers.map (·.url))[w]? = (cfg.workers.map (·.url))[v]? := by
      simp only [WorkerPool.init, Worker.url, Worker.init, getD_eq_getElem?_getD,
        getElem?_eq_getElem hw', getElem?_eq_getElem hv', getD_some] at heq
      simp only [getElem?_map, getElem?_eq_getElem hw', getElem?_eq_getElem hv', map_some, heq]
    exact (getElem?_inj (by simpa using hw') cfg.workers_nodup).mp hurl
  waiting u hu := absurd hu not_mem_nil
  holder hold hhold := by cases hhold
  flags w _ := rfl
  saved w saved hwindow := by
    obtain ⟨u, hholder, -⟩ := hwindow
    cases hholder

/-- A step that leaves the URLs. -/
theorem WorkerPool.Separate.congr (h : s.Separate ws) (hcreated : s.created ≤ t.created)
    (hurl : ∀ w < s.created, (t.worker w).url = (s.worker w).url) : t.Separate ws := by
  refine ⟨fun w hw => (h.1 w hw).trans_le hcreated, fun w hw v hv heq => h.2 w hw v hv ?_⟩
  rwa [hurl w (h.1 w hw), hurl v (h.1 v hv)] at heq

/-- A step that leaves the URLs and the broadcast that holds the lock. -/
theorem Kept.congr (h : Kept s) (hcreated : s.created ≤ t.created)
    (hurl : ∀ w < s.created, (t.worker w).url = (s.worker w).url)
    (hworkers : t.Separate t.workers) (hwaiting : ∀ u ∈ t.waiting, t.Separate u.targets)
    (hholder : t.holder = s.holder)
    (hflags : ∀ w, (∀ saved, ¬s.Window w saved) → (s.worker w).disabled = s.wanted w →
      (t.worker w).disabled = t.wanted w)
    (hsaved : ∀ w saved, s.Window w saved → dictGet saved (s.worker w).url = some (s.wanted w) →
      dictGet saved (s.worker w).url = some (t.wanted w)) : Kept t where
  workers := hworkers
  waiting := hwaiting
  holder hold hhold := (h.holder hold (hholder ▸ hhold)).congr hcreated hurl
  flags w hout := by
    have hbefore : ∀ saved, ¬s.Window w saved := by
      intro saved hwindow
      simp only [WorkerPool.Window, hholder] at hout
      exact hout saved hwindow
    exact hflags w hbefore (h.flags w hbefore)
  saved w saved hwindow := by
    have hbefore : s.Window w saved := by
      simpa only [WorkerPool.Window, hholder] using hwindow
    obtain ⟨u, hu, hw⟩ := hbefore
    have hlt : w < s.created := (h.holder _ hu).1 w hw
    rw [hurl w hlt]
    exact hsaved w saved ⟨u, hu, hw⟩ (h.saved w saved ⟨u, hu, hw⟩)

/-- A step that leaves everything but what health checks and requests record. -/
theorem Kept.frame (h : Kept s) (hcreated : t.created = s.created)
    (hurl : ∀ w, (t.worker w).url = (s.worker w).url)
    (hdisabled : ∀ w, (t.worker w).disabled = (s.worker w).disabled)
    (hwanted : t.wanted = s.wanted) (hworkers : t.workers ⊆ s.workers)
    (hwaiting : t.waiting ⊆ s.waiting) (hholder : t.holder = s.holder) : Kept t :=
  h.congr hcreated.ge (fun w _ => hurl w)
    ((h.workers.mono hworkers).congr hcreated.ge fun w _ => hurl w)
    (fun u hu => (h.waiting u (hwaiting hu)).congr hcreated.ge fun w _ => hurl w) hholder
    (fun w _ hflag => by rw [hdisabled, hflag, hwanted])
    (fun w saved _ hsaved => by rw [hsaved, hwanted])

/-- A change of one worker that leaves its URL and its flag. -/
theorem Kept.setWorker (h : Kept s) {value : Worker} (hurl : value.url = (s.worker w).url)
    (hdisabled : value.disabled = (s.worker w).disabled) :
    Kept (s.setWorker w value) := by
  have hworker : ∀ v, (update s.worker w value v).url = (s.worker v).url ∧
      (update s.worker w value v).disabled = (s.worker v).disabled := by
    intro v
    by_cases heq : v = w
    · subst heq
      rw [update_self]
      exact ⟨hurl, hdisabled⟩
    · rw [update_of_ne heq]
      exact ⟨rfl, rfl⟩
  exact h.frame rfl (fun v => (hworker v).1) (fun v => (hworker v).2) rfl (List.Subset.refl _)
    (List.Subset.refl _) rfl

theorem Kept.put (h : Kept s) {model : Option (Option String)}
    {capabilities : Option (Finset String)} {disabled isDead : Option Bool}
    (hok : Undisputed s (.put w model capabilities disabled isDead))
    (hput : s.put w model capabilities disabled isDead = some t) : Kept t := by
  obtain ⟨value, hworker, hurl, hdisabled, hself, hothers, -, -, hcreated, hworkers, hwaiting,
    hholder⟩ := WorkerPool.put_spec hput
  have hurls : ∀ v, (t.worker v).url = (s.worker v).url := by
    intro v
    rw [hworker]
    by_cases heq : v = w
    · subst heq
      rw [update_self, hurl]
    · rw [update_of_ne heq]
  refine h.congr hcreated.ge (fun v _ => hurls v) ?_ (fun u hu => ?_) hholder
    (fun v _ hflag => ?_) fun v saved hwindow hsaved => ?_
  · rw [hworkers]
    exact h.workers.congr hcreated.ge fun v _ => hurls v
  · exact (h.waiting u (hwaiting ▸ hu)).congr hcreated.ge fun v _ => hurls v
  · rw [hworker]
    by_cases heq : v = w
    · subst heq
      rw [update_self, hdisabled, hself, hflag]
    · rw [update_of_ne heq, hothers v heq, hflag]
  · by_cases heq : v = w
    · subst heq
      obtain ⟨u, hu, hv⟩ := hwindow
      rw [hself]
      cases disabled with
      | none => exact hsaved
      | some flag => exact hok _ hu _ rfl hv
    · rw [hothers v heq]
      exact hsaved

theorem Kept.createWorker (h : Kept s) {config : WorkerConfig}
    (hnew : ¬∃ w ∈ s.workers, (s.worker w).url = config.url) :
    Kept { s.setWorker s.created (.init config) with
      created := s.created + 1
      workers := s.workers ++ [s.created]
      probes := s.probes ++ [s.created]
      wanted := update s.wanted s.created false } := by
  have hold : ∀ w < s.created, update s.worker s.created (.init config) w = s.worker w :=
    fun w hw => update_of_ne (Nat.ne_of_lt hw) ..
  have hurl : ∀ w < s.created,
      (update s.worker s.created (.init config) w).url = (s.worker w).url :=
    fun w hw => congrArg Worker.url (hold w hw)
  refine h.congr (Nat.le_succ _) hurl ⟨fun w hw => ?_, fun w hw v hv heq => ?_⟩
    (fun u hu => (h.waiting u hu).congr (Nat.le_succ _) hurl) rfl (fun w _ hflag => ?_)
    fun w saved hwindow hsaved => ?_
  · rcases mem_append.mp hw with hmem | hlast
    · exact Nat.lt_succ_of_lt (h.workers.1 w hmem)
    · rw [mem_singleton.mp hlast]
      exact Nat.lt_succ_self _
  · have hself : (update s.worker s.created (.init config) s.created).url =
        config.url := by
      rw [update_self]
      rfl
    change (update s.worker s.created (.init config) w).url =
      (update s.worker s.created (.init config) v).url at heq
    rcases mem_append.mp hw with hw | hw <;> rcases mem_append.mp hv with hv | hv
    · rw [hurl w (h.workers.1 w hw), hurl v (h.workers.1 v hv)] at heq
      exact h.workers.2 w hw v hv heq
    · obtain rfl := mem_singleton.mp hv
      rw [hurl w (h.workers.1 w hw), hself] at heq
      exact absurd ⟨w, hw, heq⟩ hnew
    · obtain rfl := mem_singleton.mp hw
      rw [hurl v (h.workers.1 v hv), hself] at heq
      exact absurd ⟨v, hv, heq.symm⟩ hnew
    · rw [mem_singleton.mp hw, mem_singleton.mp hv]
  · show (update s.worker s.created (.init config) w).disabled =
      update s.wanted s.created false w
    by_cases heq : w = s.created
    · subst heq
      rw [update_self, update_self]
      rfl
    · rw [update_of_ne heq, update_of_ne heq, hflag]
  · obtain ⟨u, hu, hw⟩ := hwindow
    have hne : w ≠ s.created := Nat.ne_of_lt ((h.holder _ hu).1 w hw)
    show _ = some (update s.wanted s.created false w)
    rw [update_of_ne hne]
    exact hsaved

theorem Kept.readBody (h : Kept s) (hholder : s.holder = some (u, none)) :
    Kept { s with
      worker := fun w => if w ∈ u.targets then (s.worker w).setDisabled true else s.worker w
      holder := some (u, some (s.previousDisabled u.targets)) } := by
  have hout : ∀ w saved, ¬s.Window w saved := by
    rintro w saved ⟨v, hv, -⟩
    rw [hholder] at hv
    cases hv
  have hurl : ∀ w, (if w ∈ u.targets then (s.worker w).setDisabled true
      else s.worker w).url = (s.worker w).url := by
    intro w
    split <;> rfl
  have hseparate : s.Separate u.targets := h.holder _ hholder
  refine ⟨h.workers.congr (Nat.le_refl _) fun w _ => hurl w, fun v hv =>
    (h.waiting v hv).congr (Nat.le_refl _) fun w _ => hurl w, fun hold hhold => ?_,
    fun w hw => ?_, fun w saved hwindow => ?_⟩
  · cases hhold
    exact hseparate.congr (Nat.le_refl _) fun w _ => hurl w
  · have hnot : w ∉ u.targets := fun hmem => hw _ ⟨u, rfl, hmem⟩
    show (if w ∈ u.targets then _ else s.worker w).disabled = s.wanted w
    rw [if_neg hnot]
    exact h.flags w (hout w)
  · obtain ⟨v, hv, hmem⟩ := hwindow
    cases hv
    show dictGet _ (if w ∈ u.targets then _ else s.worker w).url = some (s.wanted w)
    rw [hurl, hseparate.saved hmem, h.flags w (hout w)]

theorem Kept.answered (h : Kept s) {saved : List (String × Bool)}
    (hholder : s.holder = some (u, some saved)) (results : Option (List Bool)) :
    Kept { s.restore u saved results with holder := none } := by
  have hurl : ∀ w, ((s.restore u saved results).worker w).url = (s.worker w).url := by
    intro w
    simp only [WorkerPool.restore]
    split
    · split <;> rfl
    · rfl
  refine ⟨h.workers.congr (Nat.le_refl _) fun w _ => hurl w, fun v hv =>
    (h.waiting v hv).congr (Nat.le_refl _) fun w _ => hurl w, nofun,
    fun w _ => ?_, fun w saved hwindow => ?_⟩
  · show ((s.restore u saved results).worker w).disabled = (s.restore u saved results).wanted w
    simp only [WorkerPool.restore]
    by_cases hmem : w ∈ u.targets
    · rw [if_pos hmem]
      by_cases hkept : (s.worker w).url ∈ s.keptUrls u results
      · rw [if_pos hkept, if_pos ⟨hmem, hkept⟩]
        rfl
      · rw [if_neg hkept, if_neg fun hboth => hkept hboth.2, h.saved w saved ⟨u, hholder, hmem⟩]
        rfl
    · rw [if_neg hmem, if_neg fun hboth => hmem hboth.1]
      refine h.flags w ?_
      rintro other ⟨v, hv, hw⟩
      rw [hholder] at hv
      obtain ⟨rfl, -⟩ := Prod.mk.inj (some.inj hv)
      exact hmem hw
  · obtain ⟨v, hv, -⟩ := hwindow
    cases hv

theorem Kept.step (h : Kept s) (hok : Undisputed s a) (hstep : s.step cfg a = some t) :
    Kept t := by
  cases a with
  | startProbe w =>
    obtain ⟨-, hsome⟩ := ite_none_right_eq_some.mp hstep
    cases hsome
    exact { h with }
  | probed k outcome =>
    obtain ⟨w, -, rfl⟩ := map_eq_some_iff.mp hstep
    obtain ⟨hconfig, hdisabled, -⟩ := @Worker.recordProbe_frame (s.worker w) cfg outcome
    have hset := h.setWorker (congrArg WorkerConfig.url hconfig) hdisabled
    exact { hset with }
  | requestFailed w statusCode error =>
    obtain ⟨-, hsome⟩ := ite_none_right_eq_some.mp hstep
    cases hsome
    obtain ⟨hconfig, hdisabled, -⟩ := (s.worker w).recordWorkerRequestFailure_frame
    exact h.setWorker (congrArg WorkerConfig.url hconfig) hdisabled
  | put w model capabilities disabled isDead =>
    obtain ⟨-, hput⟩ := ite_none_right_eq_some.mp hstep
    exact h.put hok hput
  | createWorker config =>
    simp only [WorkerPool.step] at hstep
    split at hstep
    · exact some.inj hstep ▸ h
    next hnew => exact some.inj hstep ▸ h.createWorker hnew
  | deleteWorker w =>
    cases hstep
    exact h.frame rfl (fun _ => rfl) (fun _ => rfl) rfl (erase_subset ..) (List.Subset.refl _) rfl
  | adminUpdate path =>
    simp only [WorkerPool.step] at hstep
    split at hstep
    · exact some.inj hstep ▸ h
    · cases hstep
      refine { h with waiting := fun u hu => ?_ }
      rcases mem_append.mp hu with hold | hlast
      · exact h.waiting u hold
      · obtain rfl := mem_singleton.mp hlast
        exact h.workers.mono (filter_subset_self ..)
  | acquireLock k =>
    obtain ⟨hfree, hstep⟩ := ite_none_right_eq_some.mp hstep
    obtain ⟨u, hu, rfl⟩ := map_eq_some_iff.mp hstep
    refine ⟨h.workers, fun v hv => h.waiting v (mem_of_mem_eraseIdx hv), fun hold hhold => ?_,
      fun w _ => h.flags w ?_, fun w saved hwindow => ?_⟩
    · cases hhold
      exact h.waiting u (mem_of_getElem? hu)
    · rintro saved ⟨v, hv, -⟩
      rw [hfree] at hv
      cases hv
    · obtain ⟨v, hv, -⟩ := hwindow
      cases hv
  | giveUp k =>
    cases hstep
    exact h.frame rfl (fun _ => rfl) (fun _ => rfl) rfl (List.Subset.refl _)
      (fun _ hu => mem_of_mem_eraseIdx hu) rfl
  | readBody =>
    simp only [WorkerPool.step] at hstep
    split at hstep
    next u hholder => exact some.inj hstep ▸ h.readBody hholder
    · cases hstep
  | loseBody =>
    simp only [WorkerPool.step] at hstep
    split at hstep
    next u hholder =>
      cases hstep
      refine ⟨h.workers, h.waiting, nofun, fun w _ => h.flags w ?_, fun w saved hwindow => ?_⟩
      · rintro saved ⟨v, hv, -⟩
        rw [hholder] at hv
        cases hv
      · obtain ⟨v, hv, -⟩ := hwindow
        cases hv
    · cases hstep
  | answered results =>
    simp only [WorkerPool.step] at hstep
    split at hstep
    next u saved hholder =>
      obtain ⟨-, hsome⟩ := ite_none_right_eq_some.mp hstep
      exact some.inj hsome ▸ h.answered hholder results
    · cases hstep

/-- As long as the operator sets no flag against what a broadcast has saved, every worker that no
broadcast has disabled for its time is disabled exactly if the operator has last set it so, or if
`/init_weights_update_group` has failed at it since. -/
theorem enabled_as_wanted {as : List RouterAction}
    (hrun : Run (WorkerPool.step cfg) Undisputed (.init cfg) as s) (w : ℕ)
    (hw : ∀ saved, ¬s.Window w saved) : (s.worker w).disabled = s.wanted w := by
  have hkept : Kept s := hrun.invariant (I := Kept)
    (fun _ _ _ h hok hstep => h.step hok hstep) (kept_init cfg)
  exact hkept.flags w hw

/-- Two workers. -/
def twoWorkers : RouterConfig where
  workers := [⟨"http://a", none, ∅⟩, ⟨"http://b", none, ∅⟩]
  healthFailureThreshold := 3
  healthSuccessThreshold := 2
  workers_ne_nil := cons_ne_nil _ _
  workers_nodup := by decide
  failure_pos := by decide
  success_pos := by decide

/-- The operator disables a worker, and a broadcast that fails at one of them comes and goes. -/
theorem enabled_as_wanted_twoWorkers : ∃ s : WorkerPool, (s.worker 0).disabled = false ∧
    (s.worker 1).disabled = true := by
  have hrun := run_of_isSome_guarded (WorkerPool.step twoWorkers) Undisputed (.init twoWorkers)
    [.put 1 none none (some true) none, .adminUpdate .updateWeightsFromDisk, .acquireLock 0,
      .readBody, .answered (some [false, true])] (by decide +kernel)
  refine ⟨_, (enabled_as_wanted hrun 0 ?_).trans (by decide +kernel),
    (enabled_as_wanted hrun 1 ?_).trans (by decide +kernel)⟩ <;>
  · rintro saved ⟨u, hu, -⟩
    cases hu

/-- A flag that the operator sets during a broadcast is lost, and a worker at which
`/init_weights_update_group` fails stays disabled although the operator has not touched it. -/
theorem broadcast_overrides :
    (∃ s : WorkerPool, Run (WorkerPool.step twoWorkers) anyAction (.init twoWorkers)
        [.adminUpdate .pauseGeneration, .acquireLock 0, .readBody,
          .put 0 none none (some true) none, .answered (some [true, true])] s ∧
      s.holder = none ∧ s.wanted 0 = true ∧ (s.worker 0).disabled = false) ∧
    ∃ s : WorkerPool, Run (WorkerPool.step twoWorkers) anyAction (.init twoWorkers)
        [.deleteWorker 1, .adminUpdate .initWeightsUpdateGroup, .acquireLock 0, .readBody,
          .answered (some [false])] s ∧
      s.holder = none ∧ (s.worker 0).disabled = true :=
  ⟨⟨_, run_of_exec rfl, rfl, by decide +kernel, by decide +kernel⟩, _, run_of_exec rfl, rfl,
    by decide +kernel⟩

end Omni.Router
