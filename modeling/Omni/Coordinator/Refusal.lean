import Omni.Coordinator.Frame

/-!
# Refused submissions

A call of `submit` or `stream` can be refused by its checks or, after it has been
entered into the maps, by `submit_to_stage`. The cleanup belongs to the callers:
`stream` pops the entries of its id whoever made them, `submit` pops its future
once it has awaited it, and nobody takes the request out of `_requests`.
-/

namespace Omni.Coordinator

open Omni.Transition

variable {V Q : Type}

/-- A call made in `s` that raises in `t` before its request has been handed over.
`untouched` are the ids that nothing but the call itself has dealt with between
the two states. -/
inductive RefusedCall (cfg : Config Q) (kind : Kind) (c : ℕ) (requestId : String) (request : Q) :
    State V → State V → (String → Prop) → Prop
  /-- The call raises at once. -/
  | atOnce {s t : State V} {failure : Failure} :
      step cfg s (kind.call c requestId request) = some t →
      (t.calls c).phase = .raised failure →
      RefusedCall cfg kind c requestId request s t fun _ => True
  /-- `submit_to_stage` raises, after steps that are about other requests. -/
  | atHandOver {s u v t : State V} {as : List (Action V Q)} {message : String} :
      step cfg s (kind.call c requestId request) = some u →
      (u.calls c).phase = .submitting →
      Run (step cfg) (Elsewhere requestId) u as v →
      step cfg v (.handed c (some message)) = some t →
      RefusedCall cfg kind c requestId request s t fun r => Run (step cfg) (Elsewhere r) u as v

/-- The refusals that leave the maps alone: those by the checks of `submit`, that
of `stream` for an id that is already streaming, and those by the checks of `stream`
for an id that has no completion future. -/
def LeavesMaps (cfg : Config Q) (s : State V) (kind : Kind) (requestId : String)
    (request : Q) : Prop :=
  match kind with
  | .submit => ∃ failure, checkSubmission cfg s requestId request = .error failure
  | .stream => s.streamQueues requestId ≠ none ∨
      (∃ failure, checkSubmission cfg s requestId request = .error failure) ∧
        s.completionFutures requestId = none

/-- What a call can do at once: it raises and leaves the maps alone, it raises
and pops a completion future that was there, or it is entered into the maps. -/
theorem call_cases {cfg : Config Q} {s t : State V} {kind : Kind} {c : ℕ} {r : String}
    {request : Q} (hstep : step cfg s (kind.call c r request) = some t) :
    (LeavesMaps cfg s kind r request ∧ (t.calls c).phase ≠ .submitting ∧ ∀ r', SameEntries s t r') ∨
      (¬LeavesMaps cfg s kind r request ∧ (t.calls c).phase ≠ .submitting ∧
        t.completionFutures r ≠ s.completionFutures r) ∨
      (¬LeavesMaps cfg s kind r request ∧ (t.calls c).phase = .submitting ∧
        s.requests r = none ∧ t.requests r = some c) := by
  cases kind with
  | submit =>
    simp only [Kind.call, step] at hstep
    split at hstep
    · cases hstep
      cases hcheck : checkSubmission cfg s r request with
      | error failure =>
        rw [submit_of_error hcheck]
        exact Or.inl ⟨⟨failure, hcheck⟩, by simp [raiseCall, setPhase_calls],
          fun _ => ⟨rfl, rfl, rfl, rfl⟩⟩
      | ok terminalStages =>
        rw [submit_of_ok hcheck]
        exact Or.inr (Or.inr ⟨by simp [LeavesMaps, hcheck], by simp,
          (checkSubmission_eq_ok hcheck).2.1, by simp⟩)
    · cases hstep
  | stream =>
    simp only [Kind.call, step] at hstep
    split at hstep
    · cases hstep
      by_cases hqueue : s.streamQueues r = none
      · cases hcheck : checkSubmission cfg s r request with
        | error failure =>
          rw [stream_of_error hqueue hcheck]
          by_cases hfuture : s.completionFutures r = none
          · refine Or.inl ⟨Or.inr ⟨⟨failure, hcheck⟩, hfuture⟩,
              by simp [raiseCall, setPhase_calls], fun r' => ?_⟩
            by_cases hr : r' = r <;> constructor <;> simp [raiseCall, hr, hfuture, hqueue]
          · refine Or.inr (Or.inl ⟨?_, by simp [raiseCall, setPhase_calls], ?_⟩)
            · simp [LeavesMaps, hqueue, hfuture]
            · simpa [raiseCall, eq_comm] using hfuture
        | ok terminalStages =>
          rw [stream_of_ok hqueue hcheck]
          exact Or.inr (Or.inr ⟨by simp [LeavesMaps, hqueue, hcheck], by simp,
            (checkSubmission_eq_ok hcheck).2.1, by simp⟩)
      · rw [stream_of_streaming hqueue]
        exact Or.inl ⟨Or.inl hqueue, by simp [raiseCall, setPhase_calls],
          fun _ => ⟨rfl, rfl, rfl, rfl⟩⟩
    · cases hstep

end Omni.Coordinator
