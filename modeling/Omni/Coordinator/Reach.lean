import Omni.Coordinator.Frame

/-!
# Which calls a piece can change

A piece of a handler changes the record of a call only if it is a piece of that
call, finds the call under the id that it is about, or holds its tracking info.
-/

namespace Omni.Coordinator

variable {V Q : Type}

/-- Some map leads from the id to the call. -/
def Registered (s : State V) (r : String) (d : ℕ) : Prop :=
  s.requests r = some d ∨ s.completionFutures r = some d ∨ s.streamQueues r = some d

/-- The action may change the record of the call. -/
def Reaches (s : State V) (a : Action V Q) (d : ℕ) : Prop :=
  a.caller = some d ∨ (∃ r, a.concerns s r ∧ Registered s r d) ∨
    ∃ h r, a = .broadcast h ∧ s.handlers h = .aborting r d

section Unreached

variable {s : State V} {r : String} {d : ℕ}

theorem resolveFuture_calls_of_ne (hne : s.completionFutures r ≠ some d) (value : Future V) :
    (resolveFuture s r value).calls d = s.calls d := by
  simp [resolveFuture_calls, hne]

theorem rejectCompletionFuture_calls_of_ne (hne : s.completionFutures r ≠ some d)
    (exc : Failure) : (rejectCompletionFuture s r exc).calls d = s.calls d :=
  resolveFuture_calls_of_ne hne _

theorem putStream_calls_of_ne (hne : s.streamQueues r ≠ some d) (msg : Message V) :
    (putStream s r msg).calls d = s.calls d := by
  simp [putStream_calls, hne]

theorem updateInfo_calls_of_ne {c : ℕ} (hne : d ≠ c) (f : RequestInfo V → RequestInfo V) :
    (s.updateInfo c f).calls d = s.calls d := updateCall_ne _ _ _ _ hne

theorem handleSuccess_calls_of_ne {cfg : Config Q} {c : ℕ} {msg : CompleteMessage V}
    (hc : d ≠ c) (hfuture : s.completionFutures msg.requestId ≠ some d)
    (hqueue : s.streamQueues msg.requestId ≠ some d) :
    (handleSuccess cfg s c msg).calls d = s.calls d := by
  unfold handleSuccess
  dsimp only
  split_ifs
  · rfl
  · rw [putStream_calls_of_ne (by simpa using hqueue),
      resolveFuture_calls_of_ne (by simpa using hfuture), updateInfo_calls_of_ne hc]
  · rw [putStream_calls_of_ne (by simpa using hqueue)]
  · rw [dropRequest_calls, resolveFuture_calls_of_ne (by simpa using hfuture),
      updateInfo_calls_of_ne hc, putStream_calls_of_ne (by simpa using hqueue)]

end Unreached

/-- A piece that does not reach a call leaves its record alone. -/
theorem calls_of_step {cfg : Config Q} {s t : State V} {a : Action V Q} {d : ℕ}
    (hstep : step cfg s a = some t) (hnot : ¬Reaches s a d) : t.calls d = s.calls d := by
  simp only [Reaches, not_or] at hnot
  obtain ⟨hcaller, hregistered, habort⟩ := hnot
  have hreg : ∀ {r}, a.concerns s r → s.requests r ≠ some d ∧
      s.completionFutures r ≠ some d ∧ s.streamQueues r ≠ some d := by
    intro r hr
    by_contra hcon
    refine hregistered ⟨r, hr, ?_⟩
    unfold Registered
    tauto
  cases moves_of_step hstep with
  | own c id hcaller' hid h => exact h.calls d fun heq => hcaller (heq ▸ hcaller')
  | track c id hcaller' hid hidle hnone hcalls hnew hrequests hfutures hqueues hpartials
    hhandlers =>
    exact hcalls d fun heq => hcaller (heq ▸ hcaller')
  | running c k hk h =>
    have hne : d ≠ k := fun heq => (hreg (r := (s.calls c).requestId) rfl).1 (heq ▸ hk)
    rw [h.calls d fun heq => hcaller (heq ▸ rfl), updateInfo_calls_of_ne hne]
  | handler n handler haborting => rfl
  | success n c msg hidle hc hsuccess =>
    obtain ⟨hrequests, hfutures, hqueues⟩ := hreg (r := msg.requestId) rfl
    exact handleSuccess_calls_of_ne (fun heq => hrequests (heq ▸ hc)) hfutures hqueues
  | failing n c msg hc =>
    have hne : d ≠ c := fun heq => (hreg (r := msg.requestId) rfl).1 (heq ▸ hc)
    rw [setHandler_calls, updateInfo_calls_of_ne hne]
  | aborted n info id hhandler =>
    obtain ⟨_, hfutures, hqueues⟩ := hreg (r := id) (by simp [Action.concerns, hhandler])
    have hne : d ≠ info := by
      rintro rfl
      exact habort ⟨n, id, rfl, hhandler⟩
    unfold abortBroadcast
    dsimp only
    rw [setHandler_calls, dropRequest_calls, putStream_calls_of_ne (by simpa using hqueues),
      rejectCompletionFuture_calls_of_ne (by simpa using hfutures), updateInfo_calls_of_ne hne]
  | failed n msg hhandler =>
    obtain ⟨_, hfutures, hqueues⟩ :=
      hreg (r := msg.requestId) (by simp [Action.concerns, hhandler])
    unfold failureBroadcast
    dsimp only
    rw [setHandler_calls, dropRequest_calls, putStream_calls_of_ne (by simpa using hqueues),
      rejectCompletionFuture_calls_of_ne (by simpa using hfutures)]
  | chunk msg => exact putStream_calls_of_ne (hreg (r := msg.requestId) rfl).2.2 _
  | failPending message =>
    obtain ⟨hrequests, hfutures, hqueues⟩ := hreg (r := (s.calls d).requestId) trivial
    simp [failPendingRequests, failCall, hrequests, hfutures, hqueues]
  | registerStage name => rfl

end Omni.Coordinator
