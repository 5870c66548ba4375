import Omni.Coordinator.AgreementCalls
import Omni.Coordinator.AgreementSteps

/-!
# One outcome for every accepted request

When no request ends during its own hand-over to the entry stage, every call of
`submit` gets the outcome that the book has for it. Otherwise the coordinator
looks up an entry that has gone and the caller gets a `KeyError`.
-/

namespace Omni.Coordinator

open Omni.Transition

variable {V Q : Type} {cfg : Config Q} {s : State V} {B : Book V} {c : ℕ} {p q : State V × Book V}
  {as : List (Action V Q)} {a : Action V Q} {r : String} {ok : State V × Book V → Action V Q → Prop}

/-- No request ends during its own hand-over, and an id is taken again only after
its previous caller is done. Only `submit` is used. -/
def OneAtATime (cfg : Config Q) (s : State V) (a : Action V Q) : Prop :=
  (∀ c, (s.calls c).phase = .submitting → ¬endsRequest cfg s a (s.calls c).requestId) ∧
    match a with
    | .submit _ requestId _ => s.requests requestId = none →
        ∀ d, (s.calls d).requestId = requestId → (s.calls d).phase.unfinished = false
    | .stream _ _ _ => False
    | _ => True

/-- A live request is not in its hand-over when the action ends it. -/
theorem Agrees.not_submitting (h : Agrees s B) (hok : OneAtATime cfg s a)
    (hends : endsRequest cfg s a r) (hlive : B.ledger.live r = some c) :
    (s.calls c).phase ≠ .submitting := by
  intro hphase
  obtain rfl := (h.key (B.ledger.key_of_live hlive)).1
  exact hok.1 c hphase hends

theorem Agrees.submit (h : Agrees s B) {request : Q} (hidle : (s.calls c).phase = .idle)
    (hfree : s.requests r = none →
      ∀ d, (s.calls d).requestId = r → (s.calls d).phase.unfinished = false) :
    Agrees (submit cfg s c r request) ((observeSubmission cfg s c r request).elim B B.record) := by
  unfold Omni.Coordinator.submit submitRequest observeSubmission
  dsimp only
  rw [checkSubmission_updateCall]
  cases hcheck : checkSubmission cfg s r request with
  | error failure => exact h.refuse r failure hidle
  | ok terminalStages =>
    have hnone := (checkSubmission_eq_ok hcheck).2.1
    exact h.accept hidle hnone (hfree hnone)

theorem Agrees.handleCompletion (h : Agrees s B) (n : ℕ) {msg : CompleteMessage V}
    (hok : ∀ c, B.ledger.live msg.requestId = some c → msg.success = true →
      concludes cfg s msg → (s.calls c).phase ≠ .submitting) :
    Agrees (handleCompletion cfg s n msg)
      (if msg.success then B.record (.completed msg.requestId msg.fromStage msg.result)
        else B) := by
  unfold Omni.Coordinator.handleCompletion
  rw [h.requests]
  cases hlive : B.ledger.live msg.requestId with
  | none => cases hsuccess : msg.success <;> simpa [Book.record, hlive] using h.setHandler n _
  | some c =>
    cases hsuccess : msg.success with
    | false =>
      have hmarked : Agrees (s.updateInfo c fun info =>
          { info with state := .failed, error := msg.error }) B := h.updateInfo c fun _ => rfl
      exact hmarked.setHandler n _
    | true =>
      simp only [if_true, Book.record, hlive]
      exact (h.handleSuccess hlive (hok c hlive hsuccess)).setHandler n _

/-- The start of an abort changes nothing the callers see. -/
theorem Agrees.abort (h : Agrees s B) (n : ℕ) (r : String) :
    Agrees (abort s n r) B := by
  unfold Omni.Coordinator.abort
  split
  · exact h.setHandler n _
  · split <;> exact h.setHandler n _

/-- Every permitted step keeps the coordinator in agreement with the book. -/
theorem Agrees.step (h : Agrees p.1 p.2) (hok : OneAtATime cfg p.1 a)
    (hstep : watched cfg p a = some q) :
    Agrees q.1 q.2 := by
  obtain ⟨s, B⟩ := p
  obtain ⟨t, B'⟩ := q
  obtain ⟨hmove, hbook⟩ := watch_eq_some.mp hstep
  dsimp only at h hok hmove hbook ⊢
  subst hbook
  cases a with
  | submit c r request =>
    cases hphase : (s.calls c).phase <;>
      simp only [Omni.Coordinator.step, hphase, Option.some.injEq, reduceCtorEq] at hmove
    subst hmove
    exact h.submit hphase hok.2
  | stream c r request => exact absurd hok.2 id
  | handed c error =>
    cases hphase : (s.calls c).phase <;>
      simp only [Omni.Coordinator.step, hphase, Option.some.injEq, reduceCtorEq] at hmove
    subst hmove
    cases error with
    | none => exact (h.submitted hphase).2
    | some message => exact h.failSubmission c message
  | wake c =>
    cases hphase : (s.calls c).phase <;>
      simp only [Omni.Coordinator.step, hphase, Option.map_eq_some_iff, reduceCtorEq] at hmove
    obtain ⟨outcome, houtcome, rfl⟩ := hmove
    exact h.wake hphase houtcome
  | receive c =>
    have hc := h.phase c
    unfold PhaseAgrees at hc
    cases hphase : (s.calls c).phase <;>
      simp only [Omni.Coordinator.step, hphase, reduceCtorEq] at hmove hc
  | resume c =>
    have hc := h.phase c
    unfold PhaseAgrees at hc
    cases hphase : (s.calls c).phase <;>
      simp only [Omni.Coordinator.step, hphase, reduceCtorEq] at hmove hc
  | abort n r =>
    cases hhandler : s.handlers n <;>
      simp only [Omni.Coordinator.step, hhandler, Option.some.injEq, reduceCtorEq] at hmove
    subst hmove
    exact h.abort n r
  | complete n msg =>
    cases hhandler : s.handlers n <;>
      simp only [Omni.Coordinator.step, hhandler, Option.some.injEq, reduceCtorEq] at hmove
    subst hmove
    have hmsg := h.handleCompletion n fun c hlive hsuccess hends =>
      h.not_submitting hok ⟨hsuccess, rfl, hends⟩ hlive
    cases hsuccess : msg.success <;> simpa [observe, hsuccess] using hmsg
  | broadcast n =>
    cases hhandler : s.handlers n <;>
      simp only [Omni.Coordinator.step, hhandler, Option.some.injEq, reduceCtorEq] at hmove
    case aborting r info =>
      subst hmove
      simp only [observe, hhandler, Option.elim]
      exact h.abortBroadcast n info fun c hlive =>
        h.not_submitting hok (by simp [endsRequest, hhandler]) hlive
    case failing msg =>
      subst hmove
      simp only [observe, hhandler, Option.elim]
      exact h.failureBroadcast n fun c hlive =>
        h.not_submitting hok (by simp [endsRequest, hhandler]) hlive
  | chunk msg =>
    cases hmove
    rw [handleStream, putStream_of_none (h.noStream _)]
    exact h
  | failPending message =>
    cases hmove
    exact h.failPendingRequests message fun c hphase => hok.1 c hphase trivial
  | registerStage name =>
    cases hmove
    exact h.frame rfl rfl rfl rfl (fun _ => .rfl) fun _ => rfl

theorem agrees_of_run
    (hrun : Run (watched cfg) (fun p => OneAtATime cfg p.1) (State.init, Book.empty) as p) :
    Agrees p.1 p.2 :=
  hrun.invariant (I := fun p => Agrees p.1 p.2) (fun _ _ _ h hok hstep => h.step hok hstep)
    agrees_init

theorem verdict_of_run {o : Outcome V} (hrun : Run (watched cfg) ok p as q)
    (hverdict : p.2.ledger.verdict c = some o) :
    q.2.ledger.verdict c = some o := by
  refine hrun.invariant (I := fun p => p.2.ledger.verdict c = some o) ?_ hverdict
  intro p a q hp _ hstep
  rw [(watch_eq_some.mp hstep).2]
  cases observe cfg p.1 a with
  | none => exact hp
  | some e => exact Book.record_final hp e

/-- What an accepted call of `submit` gets: it is waiting for the verdict, ready to
leave with it, or has left with it. -/
structure Delivered (cfg : Config Q) (s : State V) (B : Book V) (c : ℕ) : Prop where
  noKeyError : ∀ key, (s.calls c).phase ≠ .raised (.keyError key)
  returned : ∀ value, (s.calls c).phase = .returned value →
    ∃ o, B.ledger.verdict c = some o ∧ o.phase = .returned value
  raised : ∀ failure, (s.calls c).phase = .raised failure →
    B.ledger.verdict c = some (.raises failure)
  waiting : B.ledger.verdict c = none → (s.calls c).future = .pending ∧
    ((s.calls c).phase = .submitting ∨ (s.calls c).phase = .awaiting c)
  settled : ∀ o, B.ledger.verdict c = some o → (s.calls c).future = o.future ∧
    ((s.calls c).phase = o.phase ∨
      ∃ t, step cfg s (.wake c : Action V Q) = some t ∧ (t.calls c).phase = o.phase)
  forgotten : ∀ o, B.ledger.verdict c = some o →
    (s.requests (s.calls c).requestId = none ∧ s.partialResults (s.calls c).requestId = none) ∨
      ∃ d, d ≠ c ∧ s.requests (s.calls c).requestId = some d ∧ B.ledger.Accepted d ∧
        B.ledger.verdict d = none

/-- Agreement with the book is the promise to every accepted caller. -/
theorem Agrees.delivered (h : Agrees s B) (hc : B.Accepted c) : Delivered cfg s B c := by
  obtain ⟨haccepted, hrefused⟩ := hc
  obtain ⟨r, hkey⟩ := Option.ne_none_iff_exists'.mp haccepted
  obtain ⟨hrid, hidle⟩ := h.key hkey
  have hphase := h.phase c
  unfold PhaseAgrees at hphase
  have hraised : ∀ failure, (s.calls c).phase = .raised failure →
      B.ledger.verdict c = some (.raises failure) := by
    intro failure hp
    simp only [hp] at hphase
    rcases hphase with hnone | hno | hverdict
    · simp [hkey] at hnone
    · exact absurd hrefused hno
    · exact hverdict
  refine ⟨?_, ?_, hraised, ?_, ?_, ?_⟩
  · intro key hp
    exact (h.settled (hraised _ hp)).2 key rfl
  · intro value hp
    simpa only [hp] using hphase
  · intro hopen
    have hlive : B.ledger.live r = some c := (B.ledger.live_of_key hkey).resolve_right
      (by simp [hopen])
    refine ⟨(h.live hlive).2, ?_⟩
    cases hp : (s.calls c).phase with
    | idle => exact absurd hp hidle
    | submitting => exact Or.inl rfl
    | awaiting owner =>
      simp only [hp] at hphase
      exact Or.inr (by rw [hphase.1])
    | receiving expected completed => simp only [hp] at hphase
    | yielding expected completed msg => simp only [hp] at hphase
    | returned value =>
      simp only [hp] at hphase
      obtain ⟨o, ho, _⟩ := hphase
      simp [hopen] at ho
    | raised failure => simp [hopen] at hraised; exact absurd hp (hraised failure)
  · intro o ho
    refine ⟨(h.settled ho).1, ?_⟩
    cases hp : (s.calls c).phase with
    | idle => exact absurd hp hidle
    | submitting =>
      simp only [hp] at hphase
      simp [B.ledger.verdict_of_live hphase] at ho
    | awaiting owner =>
      simp only [hp] at hphase
      obtain ⟨rfl, _⟩ := hphase
      refine Or.inr ⟨submitReturns s owner o.phase, ?_, ?_⟩
      · simp only [Omni.Coordinator.step, hp, (h.settled ho).1]
        cases o <;> rfl
      · simp [submitReturns, setPhase_calls]
    | receiving expected completed => simp only [hp] at hphase
    | yielding expected completed msg => simp only [hp] at hphase
    | returned value =>
      simp only [hp] at hphase
      obtain ⟨o', ho', hval⟩ := hphase
      obtain rfl := Option.some.inj (ho.symm.trans ho')
      exact Or.inl hval.symm
    | raised failure =>
      obtain rfl := Option.some.inj (ho.symm.trans (hraised failure hp))
      exact Or.inl rfl
  · intro o ho
    rw [hrid, h.requests]
    cases hlive : B.ledger.live r with
    | none =>
      refine Or.inl ⟨rfl, ?_⟩
      rw [Option.eq_none_iff_forall_not_mem]
      intro p hp
      exact (h.partials hp).1 hlive
    | some d =>
      refine Or.inr ⟨d, ?_, rfl, ?_, B.ledger.verdict_of_live hlive⟩
      · rintro rfl
        simp [B.ledger.verdict_of_live hlive] at ho
      · simp [Ledger.Accepted, B.ledger.key_of_live hlive]

theorem Agrees.future_final (hp : Agrees p.1 p.2) (hq : Agrees q.1 q.2)
    (hrun : Run (watched cfg) ok p as q) (hc : p.2.ledger.Accepted c)
    (hdone : (p.1.calls c).future.done = true) :
    (q.1.calls c).future = (p.1.calls c).future := by
  obtain ⟨r, hkey⟩ := Option.ne_none_iff_exists'.mp hc
  rcases p.2.ledger.live_of_key hkey with hlive | hverdict
  · simp [(hp.live hlive).2, Future.done] at hdone
  · obtain ⟨o, ho⟩ := Option.ne_none_iff_exists'.mp hverdict
    rw [(hp.settled ho).1, (hq.settled (verdict_of_run hrun ho)).1]

/-- **One outcome.** In every run in which no request ends during its own hand-over
and no id is taken again before its previous caller is done, every accepted call
of `submit` gets the book's verdict and nothing else, its future is resolved once,
and the verdict never changes. -/
theorem submit_delivers {cfg : Config Q} {p : State V × Book V} {as : List (Action V Q)}
    (hrun : Run (watched cfg) (fun p => OneAtATime cfg p.1) (State.init, Book.empty) as p)
    {c : ℕ} (hc : p.2.Accepted c) :
    Delivered cfg p.1 p.2 c ∧
      ∀ bs q, Run (watched cfg) (fun p => OneAtATime cfg p.1) p bs q →
        ((p.1.calls c).future.done = true → (q.1.calls c).future = (p.1.calls c).future) ∧
        ∀ o, p.2.ledger.verdict c = some o → q.2.ledger.verdict c = some o := by
  have hagrees := agrees_of_run hrun
  refine ⟨hagrees.delivered hc, fun bs q hrest => ⟨fun hdone => ?_, fun o ho => ?_⟩⟩
  · exact hagrees.future_final (agrees_of_run (hrun.trans hrest)) hrest hc.1 hdone
  · exact verdict_of_run hrest ho

/-- The run in which the only terminal stage completes the request after its hand-over. -/
theorem submit_delivers_completed :
    ∃ p : State ℕ × Book ℕ, p.2.Accepted 0 ∧ Delivered oneTerminal p.1 p.2 0 ∧
      (p.1.calls 0).phase = .returned (some (.single (some 7))) := by
  have hnone : ∀ {s : State ℕ} {a : Action ℕ Unit},
      (∀ r, ¬endsRequest oneTerminal s a r) → ∀ c, (s.calls c).phase = .submitting →
        ¬endsRequest oneTerminal s a (s.calls c).requestId := fun h _ _ => h _
  have hrun : Run (watched oneTerminal) (fun p => OneAtATime oneTerminal p.1)
      ((State.init : State ℕ), Book.empty) _ _ :=
    .cons (a := .registerStage "preprocessing") ⟨hnone fun _ => id, trivial⟩ rfl <|
    .cons (a := .submit 0 "r" ()) ⟨hnone fun _ => id, fun _ _ _ => rfl⟩ rfl <|
    .cons (a := .handed 0 none) ⟨hnone fun _ => id, trivial⟩ rfl <|
    .cons (a := .complete 0 ⟨"r", "decode", true, some 7, none⟩)
      ⟨fun c hc => by (rcases c with _ | c <;> cases hc), trivial⟩ rfl <|
    .cons (a := .wake 0) ⟨hnone fun _ => id, trivial⟩ rfl (.nil _)
  refine ⟨_, ?accepted, (submit_delivers hrun ?accepted).1, rfl⟩
  exact ⟨Option.isSome_iff_ne_none.mp rfl, rfl⟩

/-- A request that is aborted while `submit_to_stage` is suspended: its entry is gone
when the call goes on, and the caller gets a `KeyError` for a cancelled request. -/
theorem submit_raises_keyError :
    ∃ p : State ℕ × Book ℕ, Run (watched oneTerminal) anyAction (State.init, Book.empty)
        [.registerStage "preprocessing", .submit 0 "r" (), .abort 0 "r", .broadcast 0,
          .handed 0 none] p ∧
      p.2.Accepted 0 ∧ p.2.ledger.verdict 0 = some (abortOutcome "r") ∧
      (p.1.calls 0).phase = .raised (.keyError "r") := by
  refine ⟨_, run_of_exec rfl, ⟨Option.isSome_iff_ne_none.mp rfl, rfl⟩, rfl, rfl⟩

end Omni.Coordinator
