import Omni.Coordinator.Effects

/-!
# What a piece can do

The atomic pieces of the handlers, sorted by what they touch. Whatever happens to a call that has
been made, its kind, its request id and the terminal stages that it expects stay as they are.
-/

namespace Omni.Coordinator

open Function

variable {V Q : Type}

/-- The action is about the given request id. -/
def Action.concerns (s : State V) (a : Action V Q) (requestId : String) : Prop :=
  match a with
  | .submit _ id _ => id = requestId
  | .stream _ id _ => id = requestId
  | .handed c _ => (s.calls c).requestId = requestId
  | .wake c => (s.calls c).requestId = requestId
  | .receive c => (s.calls c).requestId = requestId
  | .resume c => (s.calls c).requestId = requestId
  | .abort _ id => id = requestId
  | .complete _ msg => msg.requestId = requestId
  | .broadcast h =>
    match s.handlers h with
    | .aborting id _ => id = requestId
    | .failing msg => msg.requestId = requestId
    | _ => False
  | .chunk msg => msg.requestId = requestId
  | .failPending _ => True
  | .registerStage _ => False

/-- The call whose own piece the action is. -/
def Action.caller : Action V Q → Option ℕ
  | .submit c _ _ => some c
  | .stream c _ _ => some c
  | .handed c _ => some c
  | .wake c => some c
  | .receive c => some c
  | .resume c => some c
  | _ => none

/-- A call that has been made keeps its identity. -/
def Kept (a b : Call V) : Prop :=
  a.phase ≠ .idle → b.kind = a.kind ∧ b.requestId = a.requestId ∧
    b.info.terminalStages = a.info.terminalStages ∧ b.phase ≠ .idle

theorem Kept.rfl {a : Call V} : Kept a a := fun h => ⟨Eq.refl _, Eq.refl _, Eq.refl _, h⟩

theorem Kept.of_eq {a b : Call V} (heq : b = a) : Kept a b := heq ▸ .rfl

theorem Kept.trans {a b c : Call V} (hab : Kept a b) (hbc : Kept b c) : Kept a c := by
  intro ha
  obtain ⟨hkind, hid, hstages, hb⟩ := hab ha
  obtain ⟨hkind', hid', hstages', hc⟩ := hbc hb
  exact ⟨hkind'.trans hkind, hid'.trans hid, hstages'.trans hstages, hc⟩

section KeptPieces

variable {s : State V} (d : ℕ)

theorem kept_resolveFuture (r : String) (value : Future V) :
    Kept (s.calls d) ((resolveFuture s r value).calls d) := by
  rw [resolveFuture_calls]
  split
  · exact fun h => ⟨rfl, rfl, rfl, h⟩
  · exact .rfl

theorem kept_putStream (r : String) (msg : Message V) :
    Kept (s.calls d) ((putStream s r msg).calls d) := by
  rw [putStream_calls]
  split
  · exact fun h => ⟨rfl, rfl, rfl, h⟩
  · exact .rfl

theorem kept_updateInfo (c : ℕ) {f : RequestInfo V → RequestInfo V}
    (hf : ∀ i, (f i).terminalStages = i.terminalStages) :
    Kept (s.calls d) ((s.updateInfo c f).calls d) := by
  rw [updateInfo_calls]
  exact fun h => ⟨rfl, rfl, by by_cases hd : d = c <;> simp [hd, hf], h⟩

theorem kept_handleSuccess {cfg : Config Q} (c : ℕ) (msg : CompleteMessage V) :
    Kept (s.calls d) ((handleSuccess cfg s c msg).calls d) := by
  unfold handleSuccess
  dsimp only
  split_ifs
  · exact .rfl
  · refine ((kept_updateInfo d c ?_).trans (kept_resolveFuture d _ _)).trans
      (kept_putStream d _ _)
    exact fun _ => rfl
  · exact kept_putStream (s := storePartials s _ _) d _ _
  · refine ((kept_putStream (s := storePartials s _ _) d _ _).trans
      (kept_updateInfo d c ?_)).trans (kept_resolveFuture d _ _)
    exact fun _ => rfl

end KeptPieces

/-- A piece of call `c`, which is about `id`: the maps keep their entries, or lose the future and
the queue of the id. -/
structure Own (s t : State V) (c : ℕ) (id : String) : Prop where
  calls : ∀ d ≠ c, t.calls d = s.calls d
  kept : Kept (s.calls c) (t.calls c)
  requests : t.requests = s.requests
  partialResults : t.partialResults = s.partialResults
  handlers : t.handlers = s.handlers
  completionFutures : t.completionFutures = s.completionFutures ∨
    t.completionFutures = update s.completionFutures id none
  streamQueues : t.streamQueues = s.streamQueues ∨ t.streamQueues = update s.streamQueues id none

/-- What a piece does. -/
inductive Moves (cfg : Config Q) (s : State V) : Action V Q → State V → Prop
  | own {a : Action V Q} {t : State V} (c : ℕ) (id : String) (hcaller : a.caller = some c)
    (hid : a.concerns s id) (h : Own s t c id) : Moves cfg s a t
  | track {a : Action V Q} {t : State V} (c : ℕ) (id : String) (hcaller : a.caller = some c)
    (hid : a.concerns s id) (hidle : (s.calls c).phase = .idle) (hnone : s.requests id = none)
    (hcalls : ∀ d ≠ c, t.calls d = s.calls d)
    (hnew : (t.calls c).requestId = id ∧ (t.calls c).phase ≠ .idle)
    (hrequests : t.requests = update s.requests id (some c))
    (hfutures : t.completionFutures = update s.completionFutures id (some c))
    (hqueues : t.streamQueues = s.streamQueues ∨ t.streamQueues = update s.streamQueues id (some c))
    (hpartials : t.partialResults = s.partialResults) (hhandlers : t.handlers = s.handlers) :
    Moves cfg s a t
  | running {t : State V} (c k : ℕ) (hk : s.requests (s.calls c).requestId = some k)
    (h : Own (s.updateInfo k fun info => { info with state := .running }) t c
      (s.calls c).requestId) : Moves cfg s (.handed c none) t
  | handler {a : Action V Q} (n : ℕ) (handler : Handler V)
    (haborting : ∀ r d, handler = .aborting r d → s.requests r = some d) :
    Moves cfg s a (s.setHandler n handler)
  | success (n c : ℕ) (msg : CompleteMessage V) (hidle : s.handlers n = .idle)
    (hc : s.requests msg.requestId = some c) (hsuccess : msg.success = true) :
    Moves cfg s (.complete n msg) ((handleSuccess cfg s c msg).setHandler n (.ended none))
  | failing (n c : ℕ) (msg : CompleteMessage V) (hc : s.requests msg.requestId = some c) :
    Moves cfg s (.complete n msg) ((s.updateInfo c fun info =>
      { info with state := .failed, error := msg.error }).setHandler n (.failing msg))
  | aborted (n info : ℕ) (id : String) (hhandler : s.handlers n = .aborting id info) :
    Moves cfg s (.broadcast n) (abortBroadcast s n id info)
  | failed (n : ℕ) (msg : CompleteMessage V) (hhandler : s.handlers n = .failing msg) :
    Moves cfg s (.broadcast n) (failureBroadcast s n msg)
  | chunk (msg : StreamMessage V) : Moves cfg s (.chunk msg) (handleStream s msg)
  | failPending (message : String) :
    Moves cfg s (.failPending message) (failPendingRequests s message)
  | registerStage (name : String) :
    Moves cfg s (.registerStage name) { s with stages := insert name s.stages }

section Steps

variable {cfg : Config Q} {s t : State V} {c : ℕ} {a : Action V Q}

/-- A piece that moves its call to another phase. -/
theorem own_setPhase (id : String) {phase : Phase V} (hphase : phase ≠ .idle) :
    Own s (s.setPhase c phase) c id := by
  refine ⟨fun d hd => ?_, fun h => ?_, rfl, rfl, rfl, Or.inl rfl, Or.inl rfl⟩
  · simp [setPhase_calls, hd]
  · simp [setPhase_calls, hphase]

theorem own_finally (id : String) {phase : Phase V} (hphase : phase ≠ .idle) :
    Own s ((streamFinally s id).setPhase c phase) c id := by
  have h : Own s (s.setPhase c phase) c id := own_setPhase id hphase
  exact { h with completionFutures := Or.inr rfl, streamQueues := Or.inr rfl }

theorem own_failSubmission (s : State V) (c : ℕ) (failure : Failure) :
    Own s (failSubmission s c failure) c (s.calls c).requestId := by
  unfold failSubmission
  split
  · exact own_setPhase _ (by simp)
  · exact own_finally _ (by simp)

/-- A call that has not been made raises at once. -/
theorem own_refused {kind : Kind} {id : String} (hidle : (s.calls c).phase = .idle)
    (failure : Failure) :
    Own s (raiseCall (s.updateCall c fun _ => Call.start kind id) c failure) c id :=
  ⟨fun d hd => by simp [raiseCall, setPhase_calls, updateCall_ne, hd], fun h => absurd hidle h, rfl,
    rfl, rfl, Or.inl rfl, Or.inl rfl⟩

theorem moves_submit {id : String} (request : Q) (hidle : (s.calls c).phase = .idle) :
    Moves cfg s (.submit c id request) (submit cfg s c id request) := by
  cases hcheck : checkSubmission cfg s id request with
  | error failure =>
    rw [submit_of_error hcheck]
    exact .own c id rfl rfl (own_refused hidle failure)
  | ok terminalStages =>
    rw [submit_of_ok hcheck]
    exact .track c id rfl rfl hidle (checkSubmission_eq_ok hcheck).2.1
      (fun d hd => by rw [trackRequest_ne _ _ _ _ _ hd, updateCall_ne _ _ _ _ hd])
      ⟨by simp [Call.start], by simp⟩ rfl rfl (Or.inl rfl) rfl rfl

theorem moves_stream {id : String} (request : Q) (hidle : (s.calls c).phase = .idle) :
    Moves cfg s (.stream c id request) (stream cfg s c id request) := by
  by_cases hqueue : s.streamQueues id = none
  · cases hcheck : checkSubmission cfg s id request with
    | error failure =>
      have h : Own s (raiseCall (s.updateCall c fun _ => Call.start .stream id) c failure) c id :=
        own_refused hidle failure
      rw [stream_of_error hqueue hcheck]
      exact .own c id rfl rfl { h with
        completionFutures := Or.inr rfl, streamQueues := Or.inr (update_idem _ _ _) }
    | ok terminalStages =>
      rw [stream_of_ok hqueue hcheck]
      exact .track c id rfl rfl hidle (checkSubmission_eq_ok hcheck).2.1
        (fun d hd => by
          rw [trackRequest_ne _ _ _ _ _ hd, openQueue_calls, updateCall_ne _ _ _ _ hd])
        ⟨by simp [Call.start], by simp⟩ rfl rfl (Or.inr rfl) rfl rfl
  · rw [stream_of_streaming hqueue]
    exact .own c id rfl rfl (own_refused hidle _)

theorem moves_submitted : Moves cfg s (.handed c none) (submitted cfg s c) := by
  unfold submitted
  dsimp only
  split
  · exact .own c _ rfl rfl (own_failSubmission s c _)
  next k hk =>
    refine .running c k hk ?_
    split
    · split <;> exact own_setPhase _ (by simp)
    · exact own_setPhase _ (by simp)

theorem own_receive (expected completed : Finset String) (msg : Message V)
    (rest : List (Message V)) :
    Own s (receive s c expected completed msg rest) c (s.calls c).requestId := by
  have hyields : Own s ((s.updateCall c fun call => { call with queue := rest }).updateCall c
      fun call => { call with
        phase := .yielding expected completed msg, yielded := call.yielded ++ [msg] }) c
      (s.calls c).requestId :=
    ⟨fun d hd => by simp [updateCall_ne, hd], fun _ => by simp, rfl, rfl, rfl, Or.inl rfl,
      Or.inl rfl⟩
  unfold receive
  dsimp only
  split
  · split
    · exact hyields
    · refine ⟨fun d hd => ?_, fun _ => ?_, rfl, rfl, rfl, Or.inr ?_, Or.inr ?_⟩ <;>
        simp [raiseCall, setPhase_calls, updateCall_ne, *]
  · exact hyields

theorem own_resume (expected completed : Finset String) (msg : Message V) :
    Own s (resume s c expected completed msg) c (s.calls c).requestId := by
  unfold resume
  split
  · dsimp only
    split
    · exact own_finally _ (by simp)
    · exact own_setPhase _ (by simp)
  · exact own_setPhase _ (by simp)

theorem moves_of_step (hstep : step cfg s a = some t) : Moves cfg s a t := by
  cases a with
  | submit c id request =>
    simp only [step] at hstep
    split at hstep <;> cases hstep
    next hidle => exact moves_submit request hidle
  | stream c id request =>
    simp only [step] at hstep
    split at hstep <;> cases hstep
    next hidle => exact moves_stream request hidle
  | handed c error =>
    simp only [step] at hstep
    split at hstep <;> cases hstep
    cases error with
    | some message => exact .own c _ rfl rfl (own_failSubmission s c _)
    | none => exact moves_submitted
  | wake c =>
    simp only [step] at hstep
    split at hstep
    next owner _ =>
      obtain ⟨outcome, houtcome, rfl⟩ := Option.map_eq_some_iff.mp hstep
      have hphase : outcome ≠ .idle := by
        rintro rfl
        cases hfuture : (s.calls owner).future <;> simp [hfuture, Future.outcome] at houtcome
      have h : Own s (s.setPhase c outcome) c (s.calls c).requestId := own_setPhase _ hphase
      exact .own c _ rfl rfl { h with completionFutures := Or.inr rfl }
    · cases hstep
  | receive c =>
    simp only [step] at hstep
    split at hstep <;> cases hstep
    exact .own c _ rfl rfl (own_receive _ _ _ _)
  | resume c =>
    simp only [step] at hstep
    split at hstep <;> cases hstep
    exact .own c _ rfl rfl (own_resume _ _ _)
  | abort n id =>
    simp only [step] at hstep
    split at hstep <;> cases hstep
    unfold abort
    split
    · exact .handler n _ nofun
    next c hc =>
      split
      · exact .handler n _ nofun
      · refine .handler n _ fun r d heq => ?_
        cases heq
        exact hc
  | complete n msg =>
    simp only [step] at hstep
    split at hstep <;> cases hstep
    next hidle =>
      unfold handleCompletion
      split
      · exact .handler n _ nofun
      next c hc =>
        split
        next hsuccess => exact .success n c msg hidle hc hsuccess
        · exact .failing n c msg hc
  | broadcast n =>
    simp only [step] at hstep
    split at hstep <;> cases hstep
    next id info hhandler => exact .aborted n info id hhandler
    next msg hhandler => exact .failed n msg hhandler
  | chunk msg =>
    cases hstep
    exact .chunk msg
  | failPending message =>
    cases hstep
    exact .failPending message
  | registerStage name =>
    cases hstep
    exact .registerStage name

/-- Every piece keeps the identity of every call that has been made. -/
theorem kept_of_step (hstep : step cfg s a = some t) (d : ℕ) : Kept (s.calls d) (t.calls d) := by
  have hown : ∀ {s : State V} {c : ℕ} {id : String}, Own s t c id →
      Kept (s.calls d) (t.calls d) := by
    intro s c id h
    by_cases hd : d = c
    · exact hd ▸ h.kept
    · exact .of_eq (h.calls d hd)
  cases moves_of_step hstep with
  | own c id hcaller hid h => exact hown h
  | track c id hcaller hid hidle hnone hcalls hnew hrequests hfutures hqueues hpartials hhandlers =>
    by_cases hd : d = c
    · exact fun h => absurd (hd ▸ hidle) h
    · exact .of_eq (hcalls d hd)
  | running c k hk h =>
    refine (kept_updateInfo d k ?_).trans (hown h)
    exact fun _ => rfl
  | handler n handler haborting => exact .rfl
  | success n c msg hidle hc hsuccess => exact kept_handleSuccess d c msg
  | failing n c msg hc =>
    rw [setHandler_calls]
    exact kept_updateInfo d c fun _ => rfl
  | aborted n info id hhandler =>
    refine ((kept_updateInfo d info ?_).trans (kept_resolveFuture d _ _)).trans
      (kept_putStream d _ _)
    exact fun _ => rfl
  | failed n msg hhandler => exact (kept_resolveFuture d _ _).trans (kept_putStream d _ _)
  | chunk msg => exact kept_putStream d _ _
  | failPending message =>
    intro h
    refine ⟨rfl, rfl, ?_, h⟩
    simp only [failPendingRequests, failCall]
    split_ifs <;> rfl
  | registerStage name => exact .rfl

end Steps

end Omni.Coordinator
