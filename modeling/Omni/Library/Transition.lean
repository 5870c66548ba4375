import Mathlib.Data.Nat.Basic

/-!
# Labelled runs of partial transition functions

A system is given by a partial step function: `step s a` is the state after
action `a`, and `none` when `a` cannot happen in `s`. A run carries a predicate
`ok` that every action has to meet in the state where it is taken, so the same
notion covers all interleavings (`ok` is `True`) and interleavings under a
condition. Nothing here refers to a particular system.
-/

namespace Omni.Transition

variable {σ α : Type*} {s t u : σ} {a : α} {as : List α} {ok' : σ → α → Prop}

/-- `Run step ok s as t`: the actions `as`, each permitted by `ok` in the state
where it is taken, lead from `s` to `t`. -/
inductive Run (step : σ → α → Option σ) (ok : σ → α → Prop) : σ → List α → σ → Prop
  | nil (s : σ) : Run step ok s [] s
  | snoc {s t u : σ} {as : List α} {a : α} : Run step ok s as t → ok t a →
      step t a = some u → Run step ok s (as ++ [a]) u

/-- The predicate that permits every action. -/
def anyAction : σ → α → Prop := fun _ _ => True

/-- Execute a list of actions, stopping with `none` at the first one that is
not enabled. -/
def exec (step : σ → α → Option σ) : σ → List α → Option σ
  | s, [] => some s
  | s, a :: as => (step s a).bind fun t => exec step t as

variable {step : σ → α → Option σ} {ok : σ → α → Prop}

theorem Run.single (hok : ok s a) (hstep : step s a = some t) :
    Run step ok s [a] t := by
  have hrun : Run step ok s ([] ++ [a]) t := .snoc (.nil s) hok hstep
  exact hrun

theorem Run.last (hrun : Run step ok s (as ++ [a]) u) :
    ∃ t, Run step ok s as t ∧ ok t a := by
  generalize hall : as ++ [a] = bs at hrun
  cases hrun with
  | nil => simp at hall
  | snoc hbefore hok _ =>
    obtain ⟨rfl, hlast⟩ := List.append_inj' hall rfl
    obtain rfl := List.singleton_inj.1 hlast
    exact ⟨_, hbefore, hok⟩

theorem Run.trans {bs : List α} (hfirst : Run step ok s as t) (hsecond : Run step ok t bs u) :
    Run step ok s (as ++ bs) u := by
  induction hsecond with
  | nil => simpa using hfirst
  | snoc _ hok hstep ih =>
    rw [← List.append_assoc]
    exact .snoc ih hok hstep

/-- A run that begins with a given action. -/
theorem Run.cons (hok : ok s a) (hstep : step s a = some t) (hrest : Run step ok t as u) :
    Run step ok s (a :: as) u :=
  (Run.single hok hstep).trans hrest

/-- Executions compose. -/
theorem exec_append (s : σ) (as bs : List α) :
    exec step s (as ++ bs) = (exec step s as).bind fun t => exec step t bs := by
  induction as generalizing s with
  | nil => rfl
  | cons a as ih =>
    simp only [List.cons_append, exec, Option.bind_assoc]
    exact congrArg (step s a).bind (funext fun t => ih t)

/-- A run is a successful execution. -/
theorem Run.exec_eq (hrun : Run step ok s as t) :
    exec step s as = some t := by
  induction hrun with
  | nil => rfl
  | snoc _ _ hstep ih => simp [exec_append, ih, exec, hstep]

/-- The actions of a run determine where it ends. -/
theorem Run.unique (hrun : Run step ok s as t) (hrun' : Run step ok' s as u) : t = u :=
  Option.some.inj (hrun.exec_eq.symm.trans hrun'.exec_eq)

/-- A run under a condition is a run under every weaker condition. -/
theorem Run.mono (himp : ∀ s a, ok s a → ok' s a) (hrun : Run step ok s as t) :
    Run step ok' s as t := by
  induction hrun with
  | nil => exact .nil s
  | snoc _ hok hstep ih => exact .snoc ih (himp _ _ hok) hstep

variable {I : σ → Prop} {s t : σ} {as : List α}

/-- **Invariant rule.** A predicate kept by every permitted step holds at the
end of every run that starts in it. -/
theorem Run.invariant (hkeep : ∀ s a t, I s → ok s a → step s a = some t → I t)
    (hrun : Run step ok s as t) (hs : I s) : I t := by
  induction hrun with
  | nil => exact hs
  | snoc _ hok hstep ih => exact hkeep _ _ _ ih hok hstep

/-- **Simulation rule.** A run whose steps, from states with an invariant, are steps of another
system is a run of that system. -/
theorem Run.simulate {σ' α' : Type*} {step' : σ' → α' → Option σ'} {ok' : σ' → α' → Prop}
    {f : σ → σ'} {g : α → α'}
    (hsim : ∀ s a t, I s → ok s a → step s a = some t →
      I t ∧ ok' (f s) (g a) ∧ step' (f s) (g a) = some (f t))
    (hrun : Run step ok s as t) (hs : I s) : Run step' ok' (f s) (as.map g) (f t) := by
  induction hrun with
  | nil => exact .nil (f s)
  | snoc hbefore hok hstep ih =>
    have hinv := hbefore.invariant (fun s a t hs hok hstep => (hsim s a t hs hok hstep).1) hs
    obtain ⟨-, hok', hstep'⟩ := hsim _ _ _ hinv hok hstep
    rw [List.map_append, List.map_singleton]
    exact ih.snoc hok' hstep'

variable {ok' : σ → α → Prop}

/-- Two conditions that agree on the steps from states with an invariant, which steps
that meet them keep, permit the same runs. -/
theorem Run.congr (hkeep : ∀ s a t, I s → ok s a → step s a = some t → I t)
    (hiff : ∀ s a t, I s → step s a = some t → (ok s a ↔ ok' s a)) (hs : I s) :
    Run step ok s as t ↔ Run step ok' s as t := by
  constructor
  · intro hrun
    induction hrun with
    | nil => exact .nil s
    | @snoc u v bs a hbefore hok hstep ih =>
      have hu : I u := hbefore.invariant hkeep hs
      exact .snoc ih ((hiff u a v hu hstep).mp hok) hstep
  · intro hrun
    induction hrun with
    | nil => exact .nil s
    | @snoc u v bs a _ hok hstep ih =>
      have hu : I u := ih.invariant hkeep hs
      exact .snoc ih ((hiff u a v hu hstep).mpr hok) hstep

/-- The condition that permits the actions that lead to states with a property. A run under
it is a run all of whose states after the first have the property. -/
def Towards (step : σ → α → Option σ) (P : σ → Prop) : σ → α → Prop :=
  fun s a => ∀ t, step s a = some t → P t

/-- **Damage rule.** If every step against a condition does damage, and damage stays,
then a run without damage at its end has met the condition throughout. -/
theorem Run.restrict {B : σ → Prop} (hkeep : ∀ s a t, I s → step s a = some t → I t)
    (hdamage : ∀ s a t, I s → step s a = some t → B s ∨ ¬ok' s a → B t) (hrun : Run step ok s as t)
    (hs : I s) (hgood : ¬B t) :
    Run step ok' s as t := by
  induction hrun with
  | nil => exact .nil s
  | @snoc u v bs a hbefore _ hstep ih =>
    have hu : I u := hbefore.invariant (fun _ _ _ hI _ => hkeep _ _ _ hI) hs
    have hbad := hdamage u a v hu hstep
    have hok : ok' u a := by
      by_contra hnot
      exact hgood (hbad (Or.inr hnot))
    exact .snoc (ih fun hdamaged => hgood (hbad (Or.inl hdamaged))) hok hstep

/-- A state reached by some run of unrestricted actions. -/
def Reachable (step : σ → α → Option σ) (init t : σ) : Prop :=
  ∃ as, Run step anyAction init as t

/-- A successful execution of permitted actions is a run. -/
theorem run_of_exec_of_forall (hok : ∀ a ∈ as, ∀ s, ok s a) (hexec : exec step s as = some t) :
    Run step ok s as t := by
  induction as generalizing s with
  | nil =>
    simp only [exec, Option.some.injEq] at hexec
    exact hexec ▸ .nil s
  | cons a as ih =>
    obtain ⟨u, hstep, hrest⟩ := Option.bind_eq_some_iff.mp hexec
    have hfirst := hok a (List.mem_cons_self ..) s
    exact .cons hfirst hstep (ih (fun b hb => hok b (List.mem_cons_of_mem a hb)) hrest)

/-- A successful execution is a run of unrestricted actions. -/
theorem run_of_exec (hexec : exec step s as = some t) :
    Run step anyAction s as t :=
  run_of_exec_of_forall (fun _ _ _ => trivial) hexec

/-- An execution that does not get stuck is a run to its own end. -/
theorem run_of_isSome (step : σ → α → Option σ) (s : σ) (as : List α)
    (hexec : (exec step s as).isSome) :
    Run step anyAction s as ((exec step s as).get hexec) :=
  run_of_exec (Option.some_get hexec).symm

/-- An execution that checks the condition at every step is a run. -/
theorem run_of_exec_guarded [∀ s a, Decidable (ok s a)]
    (hexec : exec (fun s a => if ok s a then step s a else none) s as = some t) :
    Run step ok s as t := by
  induction as generalizing s with
  | nil =>
    simp only [exec, Option.some.injEq] at hexec
    exact hexec ▸ .nil s
  | cons a as ih =>
    obtain ⟨u, hstep, hrest⟩ := Option.bind_eq_some_iff.mp hexec
    obtain ⟨hok, hstep⟩ := Option.ite_none_right_eq_some.mp hstep
    exact .cons hok hstep (ih hrest)

/-- A checked execution that does not get stuck is a run to its own end. -/
theorem run_of_isSome_guarded (step : σ → α → Option σ) (ok : σ → α → Prop)
    [∀ s a, Decidable (ok s a)] (s : σ) (as : List α)
    (hexec : (exec (fun s a => if ok s a then step s a else none) s as).isSome) :
    Run step ok s as ((exec (fun s a => if ok s a then step s a else none) s as).get hexec) :=
  run_of_exec_guarded (Option.some_get hexec).symm

section Watch

variable {ε ℓ : Type*}

/-- The system `step` together with a log that records what `observe` sees of
each step. The log never influences the system. -/
def watch (step : σ → α → Option σ) (observe : σ → α → Option ε) (record : ℓ → ε → ℓ) :
    σ × ℓ → α → Option (σ × ℓ) := fun p a =>
  (step p.1 a).map fun t => (t, (observe p.1 a).elim p.2 (record p.2))

variable {a : α}

/-- A watched step is a step of the system with the corresponding log entry. -/
theorem watch_eq_some {observe : σ → α → Option ε} {record : ℓ → ε → ℓ} {p q : σ × ℓ} :
    watch step observe record p a = some q ↔
      step p.1 a = some q.1 ∧ q.2 = (observe p.1 a).elim p.2 (record p.2) := by
  obtain ⟨t, l⟩ := q
  simp only [watch, Option.map_eq_some_iff, Prod.mk.injEq]
  constructor
  · rintro ⟨_, hstep, rfl, rfl⟩
    exact ⟨hstep, rfl⟩
  · rintro ⟨hstep, rfl⟩
    exact ⟨t, hstep, rfl, rfl⟩

end Watch

/-- Every maximal run from the state reaches `goal`: either it holds, or some
action is enabled and all enabled actions lead to states where it is inevitable. -/
inductive Inevitable (step : σ → α → Option σ) (goal : σ → Prop) : σ → Prop
  | done {s : σ} : goal s → Inevitable step goal s
  | later {s : σ} : (∃ a t, step s a = some t) →
      (∀ a t, step s a = some t → Inevitable step goal t) → Inevitable step goal s

variable {goal : σ → Prop}

theorem Inevitable.mono {goal' : σ → Prop} (himp : ∀ s, goal s → goal' s)
    (h : Inevitable step goal s) : Inevitable step goal' s := by
  induction h with
  | done hgoal => exact .done (himp _ hgoal)
  | later henabled _ ih => exact .later henabled ih

/-- **Progress rule.** Under an invariant, a goal is inevitable if a state that
misses it has an enabled action and every step from it reaches the goal or decreases
a measure. -/
theorem inevitable_of_measure (measure : σ → ℕ)
    (henabled : ∀ s, I s → ¬goal s → ∃ a t, step s a = some t)
    (hdecrease : ∀ s a t, I s → ¬goal s → step s a = some t →
      goal t ∨ (I t ∧ measure t < measure s)) (hs : I s) : Inevitable step goal s := by
  induction hm : measure s using Nat.strong_induction_on generalizing s with
  | _ n ih =>
    by_cases hgoal : goal s
    · exact .done hgoal
    · refine .later (henabled s hs hgoal) fun a t hstep => ?_
      rcases hdecrease s a t hs hgoal hstep with hdone | ⟨ht, hless⟩
      · exact .done hdone
      · exact ih _ (hm ▸ hless) ht rfl

/-- A goal that no reachable state meets is not inevitable. -/
theorem not_inevitable_of_invariant (havoid : ∀ s, I s → ¬goal s)
    (hkeep : ∀ s a t, I s → step s a = some t → I t) (hs : I s) :
    ¬Inevitable step goal s := by
  intro h
  induction h with
  | done hgoal => exact havoid _ hs hgoal
  | later henabled _ ih =>
    obtain ⟨a, t, hstep⟩ := henabled
    exact ih a t hstep (hkeep _ _ _ hs hstep)

/-- An infinite run from a state. -/
structure Path (step : σ → α → Option σ) (s : σ) where
  state : ℕ → σ
  action : ℕ → α
  start : state 0 = s
  next : ∀ i, step (state i) (action i) = some (state (i + 1))

/-- A thread that can act from some point on, acts. -/
def Path.Fair {s : σ} (p : Path step s) (thread : α → Prop) : Prop :=
  ∀ i, (∀ j ≥ i, ∃ a t, thread a ∧ step (p.state j) a = some t) → ∃ j ≥ i, thread (p.action j)

/-- **Fairness rule.** A fair thread reaches a goal if it can act wherever the goal is missed, and
if its steps decrease a measure that the other steps do not increase. -/
theorem Path.eventually (p : Path step s) {thread : α → Prop} (hfair : p.Fair thread)
    (measure : σ → ℕ) (henabled : ∀ s, I s → ¬goal s → ∃ a t, thread a ∧ step s a = some t)
    (hstep : ∀ s a t, I s → ¬goal s → step s a = some t → goal t ∨
      I t ∧ measure t ≤ measure s ∧ (thread a → measure t < measure s)) {i : ℕ} (hi :
    I (p.state i)) :
    ∃ j ≥ i, goal (p.state j) := by
  induction hm : measure (p.state i) using Nat.strong_induction_on generalizing i with
  | _ n ih =>
    by_contra hnever
    have hmissed : ∀ j ≥ i, ¬goal (p.state j) := fun j hj hgoal => hnever ⟨j, hj, hgoal⟩
    have hkept : ∀ j ≥ i, I (p.state j) ∧ measure (p.state j) ≤ n := by
      intro j hj
      induction j, hj using Nat.le_induction with
      | base => exact ⟨hi, Nat.le_of_eq hm⟩
      | succ j hj ihj =>
        rcases hstep _ _ _ ihj.1 (hmissed j hj) (p.next j) with hgoal | ⟨hkeep, hle, -⟩
        · exact absurd hgoal (hmissed (j + 1) (Nat.le_succ_of_le hj))
        · exact ⟨hkeep, Nat.le_trans hle ihj.2⟩
    obtain ⟨j, hj, hacts⟩ := hfair i fun j hj => henabled _ (hkept j hj).1 (hmissed j hj)
    rcases hstep _ _ _ (hkept j hj).1 (hmissed j hj) (p.next j) with hgoal | ⟨hkeep, -, hless⟩
    · exact hmissed (j + 1) (Nat.le_succ_of_le hj) hgoal
    · obtain ⟨l, hl, hgoal⟩ := ih _ (Nat.lt_of_lt_of_le (hless hacts) (hkept j hj).2) hkeep rfl
      exact hmissed l (by omega) hgoal

end Omni.Transition
