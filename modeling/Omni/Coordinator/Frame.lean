import Omni.Coordinator.Moves

/-!
# Requests do not interfere

The maps of the coordinator are keyed by request id, and every atomic piece is
about one id, except for the fatal error. A piece about another id leaves the
entries of an id alone.
-/

namespace Omni.Coordinator

open Omni.Transition

variable {V Q : Type} {s t : State V} {r : String} {cfg : Config Q}

/-- The action is about something else than the given request id. -/
def Elsewhere (requestId : String) (s : State V) (a : Action V Q) : Prop :=
  ¬a.concerns s requestId

/-- The entries of the four maps for one id are the same in both states. -/
structure SameEntries (s t : State V) (requestId : String) : Prop where
  requests : t.requests requestId = s.requests requestId
  completionFutures : t.completionFutures requestId = s.completionFutures requestId
  streamQueues : t.streamQueues requestId = s.streamQueues requestId
  partialResults : t.partialResults requestId = s.partialResults requestId

theorem SameEntries.rfl : SameEntries s s r :=
  ⟨Eq.refl _, Eq.refl _, Eq.refl _, Eq.refl _⟩

theorem SameEntries.trans {u : State V} (h : SameEntries s t r) (h' : SameEntries t u r) :
    SameEntries s u r :=
  ⟨h'.requests.trans h.requests, h'.completionFutures.trans h.completionFutures,
    h'.streamQueues.trans h.streamQueues, h'.partialResults.trans h.partialResults⟩

/-- A piece of a call touches its own id only. -/
theorem Own.sameEntries {c : ℕ} {id : String} (h : Own s t c id) (hne : id ≠ r) :
    SameEntries s t r := by
  refine ⟨by rw [h.requests], ?_, ?_, by rw [h.partialResults]⟩
  · rcases h.completionFutures with heq | heq <;> simp [heq, hne.symm]
  · rcases h.streamQueues with heq | heq <;> simp [heq, hne.symm]

theorem sameEntries_handleSuccess (cfg : Config Q) (s : State V) (c : ℕ) {msg : CompleteMessage V}
    (hne : msg.requestId ≠ r) :
    SameEntries s (handleSuccess cfg s c msg) r := by
  unfold handleSuccess
  dsimp only
  split_ifs <;> constructor <;> simp [hne.symm]

/-- A piece about another id leaves the entries of an id alone. -/
theorem sameEntries_of_step {a : Action V Q} (hnot : Elsewhere r s a)
    (hstep : step cfg s a = some t) : SameEntries s t r := by
  cases moves_of_step hstep with
  | own c id hcaller hid h => exact h.sameEntries fun heq => hnot (heq ▸ hid)
  | track c id hcaller hid hidle hnone hcalls hnew hrequests hfutures hqueues hpartials hhandlers =>
    have hne : r ≠ id := fun heq => hnot (heq ▸ hid)
    refine ⟨by simp [hrequests, hne], by simp [hfutures, hne], ?_, by rw [hpartials]⟩
    rcases hqueues with heq | heq <;> simp [heq, hne]
  | running c k hk h =>
    have hsame := h.sameEntries (r := r) hnot
    exact { hsame with }
  | handler n handler haborting => exact ⟨rfl, rfl, rfl, rfl⟩
  | success n c msg hidle hc hsuccess =>
    have hsame := sameEntries_handleSuccess cfg s c hnot
    exact { hsame with }
  | failing n c msg hc => exact ⟨rfl, rfl, rfl, rfl⟩
  | aborted n info id hhandler =>
    have hne : r ≠ id := fun heq => hnot (by simp [Action.concerns, hhandler, heq])
    constructor <;> simp [abortBroadcast, hne]
  | failed n msg hhandler =>
    have hne : r ≠ msg.requestId := fun heq => hnot (by simp [Action.concerns, hhandler, heq])
    constructor <;> simp [failureBroadcast, hne]
  | chunk msg => constructor <;> simp [handleStream]
  | failPending message => exact absurd trivial hnot
  | registerStage name => exact ⟨rfl, rfl, rfl, rfl⟩

/-- No run about other ids changes the entries of an id. -/
theorem sameEntries_of_run {as : List (Action V Q)} (hrun : Run (step cfg) (Elsewhere r) s as t) :
    SameEntries s t r :=
  hrun.invariant (I := fun u => SameEntries s u r)
    (fun _ _ _ h hok hstep => h.trans (sameEntries_of_step hok hstep)) .rfl

end Omni.Coordinator
