import Omni.Scheduler.Distinct

/-!
# From the admission of a request to its end

A request that is being served keeps one place, and a request without a place is never answered.
-/

namespace Omni.Scheduler

open Omni.Transition State List Option

variable {V : Type} {s t u : State V} {a : Action} {as : List Action} {q b : ℕ}

/-- The request has been admitted and has not finished. -/
def Unfinished (s : State V) (q : ℕ) : Prop := q < s.reqCount ∧ (s.reqs q).finished = false

theorem unfinished_of_step (hstep : step s a = some t) (hq : Unfinished t q) :
    Unfinished s q ∨ q = s.reqCount ∧ ∃ requestId, a = .enqueue requestId := by
  by_cases hlt : q < s.reqCount
  · refine .inl ⟨hlt, ?_⟩
    rcases ages_step hstep with hages | ⟨requestId, rfl, hreqs⟩
    · exact Bool.eq_false_iff.mpr fun hfinished =>
        Bool.eq_false_iff.mp hq.2 (hages.finished q hfinished)
    · rw [← Function.update_of_ne hlt.ne _ s.reqs, ← hreqs]
      exact hq.2
  · rcases step_cases hstep with ⟨hmoves, _⟩ | ⟨_, _, hlaunches⟩ | ⟨requestId, rfl, rfl⟩
    · exact absurd (hmoves.reqCount ▸ hq.1) hlt
    · exact absurd (hlaunches.reqCount ▸ hq.1) hlt
    · have hle : q ≤ s.reqCount := Nat.lt_succ_iff.mp hq.1
      exact .inr ⟨le_antisymm hle (Nat.le_of_not_lt hlt), requestId, rfl⟩

/-- The request has no place, and it was not answered since. -/
structure Silent (q : ℕ) (s t : State V) : Prop where
  gone : ¬Present t q
  admitted : q < t.reqCount
  emits : Emits (ResultOf (· ≠ q)) s t

/-- A request without a place is never answered, whatever comes. -/
theorem silent_of_run (hgone : ¬Present s q) (hlt : q < s.reqCount)
    (hrun : Run step anyAction s as t) : Silent q s t := by
  refine hrun.invariant (I := Silent q s) (fun u a v h _ hstep => ?_) ⟨hgone, hlt, .refl rfl⟩
  obtain ⟨hgone', hlt'⟩ := not_present_step hstep h.gone h.admitted
  refine ⟨hgone', hlt', h.emits.trans ((emits_step hstep).mono fun message hm r p heq => ?_)⟩
  rintro rfl
  exact h.gone (hm r p heq)

/-- Requests in places have been admitted, in every run. -/
theorem present_lt_of_run {isEntryRank : Bool}
    (hrun : Run step anyAction (State.init V isEntryRank) as s) (hq : Present s q) :
    q < s.reqCount :=
  hrun.invariant (I := fun s => ∀ q, Present s q → q < s.reqCount)
    (fun _ _ _ h _ hstep => present_lt_step h hstep)
    (fun p hp => absurd hp (not_present_init isEntryRank p)) q hq

end Omni.Scheduler
