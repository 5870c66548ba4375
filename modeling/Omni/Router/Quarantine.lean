import Omni.Router.Admin

/-!
# Workers that are marked dead

A health check looks whether the worker is dead before its await, and records the result after it
whatever has happened since. A result that brings a counter to its threshold then overwrites the
mark.
-/

namespace Omni.Router

open Transition

variable {cfg : RouterConfig} {s t : WorkerPool} {a : RouterAction}

/-- No result of a health check that arrives for a dead worker brings a counter to its
threshold. -/
def Harmless (cfg : RouterConfig) (s : WorkerPool) : RouterAction → Prop
  | .probed k outcome => ∀ w ∈ s.probes[k]?, (s.worker w).isDead = true →
      ¬(s.worker w).Reaches cfg outcome
  | _ => True

instance (w : Worker) (outcome : ProbeOutcome) : Decidable (w.Reaches cfg outcome) :=
  match outcome with
  | .httpError _ => inferInstanceAs (Decidable (_ ≤ _))
  | .response statusCode _ =>
    inferInstanceAs (Decidable (if Worker.okStatus statusCode then _ else _))
  | .raised => inferInstanceAs (Decidable False)

instance (s : WorkerPool) (a : RouterAction) : Decidable (Harmless cfg s a) :=
  match a with
  | .probed k _ => inferInstanceAs (Decidable (∀ w ∈ s.probes[k]?, _ → ¬_))
  | .startProbe _ | .requestFailed .. | .put .. | .createWorker _ | .deleteWorker _
  | .adminUpdate _ | .acquireLock _ | .giveUp _ | .readBody | .loseBody | .answered _ =>
    inferInstanceAs (Decidable True)

/-- The workers that are marked have been created, and are dead. -/
def MarkedDead (s : WorkerPool) : Prop :=
  ∀ w ∈ s.marked, w < s.created ∧ (s.worker w).state = .dead

theorem MarkedDead.setWorker (h : MarkedDead s) {w : ℕ} {value : Worker}
    (hvalue : (s.worker w).state = .dead → value.state = .dead) :
    MarkedDead (s.setWorker w value) := by
  intro j hj
  obtain ⟨hcreated, hdead⟩ := h j hj
  refine ⟨hcreated, ?_⟩
  show (Function.update s.worker w value j).state = .dead
  by_cases heq : j = w
  · subst heq
    rw [Function.update_self]
    exact hvalue hdead
  · rwa [Function.update_of_ne heq]

theorem MarkedDead.congr (h : MarkedDead s) (hmarked : t.marked = s.marked)
    (hcreated : s.created ≤ t.created)
    (hstate : ∀ w < s.created, (t.worker w).state = (s.worker w).state) : MarkedDead t := by
  intro w hw
  obtain ⟨hlt, hdead⟩ := h w (hmarked ▸ hw)
  exact ⟨hlt.trans_le hcreated, (hstate w hlt).trans hdead⟩

theorem MarkedDead.put (h : MarkedDead s) {w : ℕ} {model : Option (Option String)}
    {capabilities : Option (Finset String)} {disabled isDead : Option Bool} (hw : w < s.created)
    (hput : s.put w model capabilities disabled isDead = some t) : MarkedDead t := by
  obtain ⟨value, hworker, -, -, -, -, hself, hothers, hcreated, -, -, -⟩ :=
    WorkerPool.put_spec hput
  intro j hj
  rw [hcreated, hworker]
  by_cases heq : j = w
  · subst heq
    rw [Function.update_self]
    refine ⟨hw, ?_⟩
    rcases hself hj with hdead | ⟨hsame, hmarked⟩
    · exact hdead
    · exact hsame.trans (h j hmarked).2
  · rw [Function.update_of_ne heq]
    exact h j ((hothers j heq).mp hj)

theorem MarkedDead.step (h : MarkedDead s) (hok : Harmless cfg s a)
    (hstep : s.step cfg a = some t) : MarkedDead t := by
  cases a with
  | startProbe w =>
    obtain ⟨-, hsome⟩ := Option.ite_none_right_eq_some.mp hstep
    cases hsome
    exact h
  | probed k outcome =>
    obtain ⟨w, hw, rfl⟩ := Option.map_eq_some_iff.mp hstep
    refine MarkedDead.congr (s := s.setWorker w ((s.worker w).recordProbe cfg outcome))
      (h.setWorker fun hdead => ?_) rfl (Nat.le_refl _) fun _ _ => rfl
    have hbelow := hok w hw (decide_eq_true hdead)
    exact (Worker.recordProbe_state hbelow).trans hdead
  | requestFailed w statusCode error =>
    obtain ⟨-, hsome⟩ := Option.ite_none_right_eq_some.mp hstep
    cases hsome
    exact h.setWorker Worker.recordWorkerRequestFailure_frame.2.2.2
  | put w model capabilities disabled isDead =>
    obtain ⟨hw, hput⟩ := Option.ite_none_right_eq_some.mp hstep
    exact h.put hw hput
  | createWorker config =>
    simp only [WorkerPool.step] at hstep
    split at hstep
    · exact Option.some.inj hstep ▸ h
    · cases hstep
      refine h.congr rfl (Nat.le_succ _) fun w hw => ?_
      exact congrArg Worker.state (Function.update_of_ne (Nat.ne_of_lt hw) ..)
  | deleteWorker w =>
    cases hstep
    exact h
  | adminUpdate path =>
    simp only [WorkerPool.step] at hstep
    split at hstep <;> exact Option.some.inj hstep ▸ h
  | acquireLock k =>
    obtain ⟨-, hstep⟩ := Option.ite_none_right_eq_some.mp hstep
    obtain ⟨u, -, rfl⟩ := Option.map_eq_some_iff.mp hstep
    exact h
  | giveUp k =>
    cases hstep
    exact h
  | readBody =>
    simp only [WorkerPool.step] at hstep
    split at hstep
    · cases hstep
      refine h.congr rfl (Nat.le_refl _) fun w _ => ?_
      dsimp only
      split <;> rfl
    · cases hstep
  | loseBody =>
    simp only [WorkerPool.step] at hstep
    split at hstep
    · exact Option.some.inj hstep ▸ h
    · cases hstep
  | answered results =>
    simp only [WorkerPool.step] at hstep
    split at hstep
    · obtain ⟨-, hsome⟩ := Option.ite_none_right_eq_some.mp hstep
      cases hsome
      refine h.congr rfl (Nat.le_refl _) fun w _ => ?_
      simp only [WorkerPool.restore]
      split
      · split <;> rfl
      · rfl
    · cases hstep

/-- As long as no result that arrives for a dead worker brings a counter to its threshold, a worker
is not routable from `mark_dead` to `clear_dead`. -/
theorem marked_not_routable {as : List RouterAction}
    (hrun : Run (WorkerPool.step cfg) (Harmless cfg) (.init cfg) as s) {w : ℕ}
    (hw : w ∈ s.marked) : (s.worker w).isRoutable = false := by
  have hdead : MarkedDead s := hrun.invariant (I := MarkedDead)
    (fun _ _ _ h hok hstep => h.step hok hstep) fun w hw => absurd hw (Finset.notMem_empty w)
  simp [Worker.isRoutable, Worker.isHealthy, (hdead w hw).2]

/-- One worker, with the default thresholds. -/
def oneWorker : RouterConfig where
  workers := [⟨"http://a", none, ∅⟩]
  healthFailureThreshold := 3
  healthSuccessThreshold := 2
  workers_ne_nil := List.cons_ne_nil _ _
  workers_nodup := List.nodup_singleton _
  failure_pos := Nat.add_pos_left Nat.two_pos 1
  success_pos := Nat.two_pos

/-- A worker that is marked dead and has a failed health check after that. -/
theorem marked_not_routable_oneWorker : ∃ s : WorkerPool, (s.worker 0).isRoutable = false ∧
    (s.worker 0).consecutiveFailures = 1 := by
  have hrun := run_of_isSome_guarded (WorkerPool.step oneWorker) (Harmless oneWorker)
    (.init oneWorker) [.startProbe 0, .startProbe 0, .startProbe 0, .probed 0 (.response 200 ""),
      .probed 0 (.response 200 ""), .put 0 none none none (some true),
      .probed 0 (.response 500 "")] (by decide +kernel)
  exact ⟨_, marked_not_routable hrun (by decide +kernel), by decide +kernel⟩

/-- A health check that was under way when the worker was marked dead makes it routable. -/
theorem marked_routable : ∃ s : WorkerPool,
    Run (WorkerPool.step oneWorker) anyAction (.init oneWorker)
      [.startProbe 0, .startProbe 0, .startProbe 0, .probed 0 (.response 200 ""),
        .probed 0 (.response 200 ""), .put 0 none none none (some true),
        .probed 0 (.response 200 "")] s ∧
      0 ∈ s.marked ∧ (s.worker 0).isRoutable = true :=
  ⟨_, run_of_exec rfl, by decide +kernel, by decide +kernel⟩

end Omni.Router
