import Omni.Coordinator.Consumer

/-!
# The merge of several terminal stages

The promise to the caller of a request that expects two or more terminal stages,
for every order of their completions. It fails only if the last missing stage
completes while the call is still suspended in its hand-over.
-/

namespace Omni.Coordinator

open Omni.Transition

variable {V Q : Type} {cfg : Config Q} {s t : State V} {c : ℕ} {r : String}
  {expected : Finset String} {kind : Kind} {request : Q} {log : List (Message V)}

/-- What the maps and the call are like once the call has been accepted. -/
theorem accepted_call (hstep : step cfg s (kind.call c r request) = some t)
    (hphase : (t.calls c).phase = .submitting) :
    s.requests r = none ∧ t.requests r = some c ∧ t.completionFutures r = some c ∧
      t.partialResults r = s.partialResults r ∧
      (kind = .stream → t.streamQueues r = some c) ∧
      (t.calls c).kind = kind ∧ (t.calls c).requestId = r ∧ (t.calls c).future = .pending ∧
      (t.calls c).queue = [] ∧ (t.calls c).yielded = [] := by
  cases kind with
  | submit =>
    simp only [Kind.call, step] at hstep
    split at hstep
    · cases hstep
      cases hcheck : checkSubmission cfg s r request with
      | error failure =>
        rw [submit_of_error hcheck] at hphase
        simp [raiseCall, setPhase_calls] at hphase
      | ok terminalStages =>
        rw [submit_of_ok hcheck]
        simp [(checkSubmission_eq_ok hcheck).2.1, Call.start, Call.idle]
    · cases hstep
  | stream =>
    simp only [Kind.call, step] at hstep
    split at hstep
    · cases hstep
      by_cases hqueue : s.streamQueues r = none
      · cases hcheck : checkSubmission cfg s r request with
        | error failure =>
          rw [stream_of_error hqueue hcheck] at hphase
          simp [raiseCall, setPhase_calls] at hphase
        | ok terminalStages =>
          rw [stream_of_ok hqueue hcheck]
          simp [(checkSubmission_eq_ok hcheck).2.1, Call.start, Call.idle]
      · rw [stream_of_streaming hqueue] at hphase
        simp [raiseCall, setPhase_calls] at hphase
    · cases hstep

/-- An accepted call starts with nothing collected. -/
theorem merging_of_call (hs : Keyed s) (hstep : step cfg s (kind.call c r request) = some t)
    (hphase : (t.calls c).phase = .submitting) (hmany : 1 < (t.calls c).info.terminalStages.card) :
    Merging t c r (t.calls c).info.terminalStages [] := by
  obtain ⟨hfree, hrequest, hregistered, hpartials, hqueue, hkind, hrid, hpending, hempty,
    hyielded⟩ := accepted_call hstep hphase
  have hstages : (t.calls c).info.terminalStages ≠ ∅ := by
    intro h
    simp [h] at hmany
  have hnone : s.partialResults r = none := by
    rw [Option.eq_none_iff_forall_not_mem]
    intro p hp
    obtain ⟨d, hd, _⟩ := hs.partials hp
    simp [hfree] at hd
  have hopen : covers (t.calls c).info.terminalStages (deliverable (V := V)
      (t.calls c).info.terminalStages []) = false := by
    simp [covers, deliverable, completedStages, hstages]
  exact {
    keyed := hs.step hstep
    named := ⟨hrid, by simp [hphase]⟩
    stages := rfl
    successes := fun _ hdone => by simp at hdone
    unresolved := fun _ => ⟨hrequest, hregistered, hpending, by rw [hpartials, hnone]; rfl⟩
    resolved := fun hall => by simp [hopen] at hall
    queue := fun hstream _ => ⟨hqueue (hkind.symm.trans hstream), [],
      by rw [conclusive_of_not hopen, hyielded, hempty]; rfl, by simp, fun _ => rfl⟩
    caller := by
      unfold CallerAgrees
      simp only [hphase]
      exact ⟨hopen, hyielded⟩ }

/-- Every permitted step keeps the state of the request. -/
theorem Merging.step {p q : State V × List (Message V)} {a : Action V Q}
    (h : Merging p.1 c r expected p.2) (hmany : 1 < expected.card) (honly : SuccessOnly c r p.1 a)
    (hhand : NotDuringHandOver cfg c r p.1 a) (hstep : collecting cfg r p a = some q) :
    Merging q.1 c r expected q.2 := by
  obtain ⟨s, log⟩ := p
  obtain ⟨t, log'⟩ := q
  obtain ⟨hmove, hlog⟩ := watch_eq_some.mp hstep
  dsimp only at h honly hhand hmove hlog ⊢
  subst hlog
  by_cases helse : Elsewhere r s a
  · have harrival : arrival r s a = none := by
      cases a with
      | complete n msg => exact if_neg helse
      | chunk msg => exact if_neg helse
      | _ => rfl
    rw [harrival]
    exact h.elsewhere helse hmove
  replace honly := honly.resolve_left helse
  cases a with
  | handed d error =>
    obtain ⟨rfl, rfl⟩ := honly
    simp only [Omni.Coordinator.step] at hmove
    split at hmove
    next hphase =>
      cases hmove
      exact h.handed hmany hphase
    · cases hmove
  | wake d =>
    obtain rfl : d = c := honly
    exact h.wake hmove
  | receive d =>
    obtain rfl : d = c := honly
    exact h.receive hmove
  | resume d =>
    obtain rfl : d = c := honly
    exact h.resume hmove
  | complete n msg =>
    obtain ⟨rfl, hsuccess⟩ := honly
    simp only [Omni.Coordinator.step] at hmove
    split at hmove
    next hidle =>
      cases hmove
      simp only [arrival, if_true, Option.elim]
      cases hcovers : covers expected (deliverable expected log) with
      | true => exact h.completion_late hidle hsuccess hcovers
      | false =>
        refine h.completion_open hmany hidle hsuccess (fun hphase hconcludes => ?_) hcovers
        exact hhand hphase ⟨hsuccess, rfl, hconcludes⟩
    · cases hmove
  | chunk msg =>
    obtain rfl : msg.requestId = r := honly
    simp only [Omni.Coordinator.step] at hmove
    cases hmove
    simp only [arrival, if_true, Option.elim]
    exact h.chunk cfg
  | submit d id request => exact honly.elim
  | stream d id request => exact honly.elim
  | abort n id => exact honly.elim
  | broadcast n => exact honly.elim
  | failPending message => exact honly.elim
  | registerStage name => exact honly.elim

/-- The stages of the merged result are the expected ones. -/
theorem completedStages_conclusive (hall : covers expected (deliverable expected log) = true) :
    completedStages (conclusive expected log) = expected := by
  apply Finset.Subset.antisymm
  · intro stage hstage
    simp only [completedStages, List.mem_toFinset, List.mem_filterMap] at hstage
    obtain ⟨msg, hmem, hcompletes⟩ := hstage
    apply completedStages_deliverable expected log
    simp only [completedStages, List.mem_toFinset, List.mem_filterMap]
    exact ⟨msg, (shortestPrefix_isPrefix _ _).subset hmem, hcompletes⟩
  · have hspec : covers expected (conclusive expected log) = true := shortestPrefix_spec hall
    simpa [covers] using hspec

/-- What a request that expects several terminal stages has come to after the
arrivals `log`. -/
structure MergeResult (cfg : Config Q) (s : State V) (c : ℕ) (r : String)
    (expected : Finset String) (log : List (Message V)) : Prop where
  finished : s.requests r = none ↔ covers expected (deliverable expected log) = true
  resolved : (s.calls c).future.done = true ↔ covers expected (deliverable expected log) = true
  merged : covers expected (deliverable expected log) = true → ∃ values,
    (s.calls c).future = .result (.merged values) ∧ values.keys = expected ∧
      ∀ stage, values.lookup stage = lastResult stage (conclusive expected log)
  submits : (s.calls c).kind = .submit → ∀ value, (s.calls c).phase = .returned value →
    ∃ result, value = some result ∧ (s.calls c).future = .result result
  wakes : (s.calls c).kind = .submit → covers expected (deliverable expected log) = true →
    (∃ result, (s.calls c).phase = .returned (some result)) ∨
      ∃ t, step cfg s (.wake c : Action V Q) = some t ∧
        ∃ result, (t.calls c).phase = .returned (some result)
  inOrder : (s.calls c).kind = .stream → (s.calls c).yielded <+: conclusive expected log
  ends : (s.calls c).kind = .stream → ∀ value, (s.calls c).phase = .returned value →
    covers expected (deliverable expected log) = true ∧
      (s.calls c).yielded = conclusive expected log
  finishes : (s.calls c).kind = .stream →
    covers expected (deliverable expected log) = true →
      ∃ bs t, Run (step cfg) (OwnSteps c) s bs t ∧ (t.calls c).phase = .returned none ∧
        (t.calls c).yielded = conclusive expected log
  noError : ∀ failure, (s.calls c).phase ≠ .raised failure

/-- The state of the request is what its caller has been promised. -/
theorem Merging.result (h : Merging s c r expected log) :
    MergeResult cfg s c r expected log where
  finished := by
    cases hcovers : covers expected (deliverable expected log) with
    | false => simp [(h.unresolved hcovers).1]
    | true => simp [(h.resolved hcovers).1]
  resolved := by
    cases hcovers : covers expected (deliverable expected log) with
    | false => simp [(h.unresolved hcovers).2.2.1, Future.done]
    | true => simp [(h.resolved hcovers).2, Future.done]
  merged hall := ⟨_, (h.resolved hall).2,
    by rw [mergeResults_keys, completedStages_conclusive hall], mergeResults_lookup _⟩
  submits hkind value hphase := by
    have hcaller := h.caller
    unfold CallerAgrees at hcaller
    simp only [hphase, hkind] at hcaller
    exact ⟨_, hcaller.2, (h.resolved hcaller.1).2⟩
  wakes hkind hall := by
    have hcaller := h.caller
    unfold CallerAgrees at hcaller
    cases hphase : (s.calls c).phase with
    | idle => simp only [hphase] at hcaller
    | raised failure => simp only [hphase] at hcaller
    | submitting => simp [hphase, hall] at hcaller
    | receiving stages completed => simp [hphase, hkind] at hcaller
    | yielding stages completed msg => simp [hphase, hkind] at hcaller
    | returned value =>
      simp only [hphase, hkind] at hcaller
      exact Or.inl ⟨_, by rw [hcaller.2]⟩
    | awaiting owner =>
      simp only [hphase] at hcaller
      obtain ⟨_, rfl⟩ := hcaller
      refine Or.inr ⟨submitReturns s owner (.returned (some (.merged
        (mergeResults (conclusive expected log))))), ?_,
        .merged (mergeResults (conclusive expected log)), ?_⟩
      · simp [Omni.Coordinator.step, hphase, (h.resolved hall).2, Future.outcome]
      · simp [submitReturns, setPhase_calls]
  inOrder := h.given
  ends hkind value hphase := by
    have hcaller := h.caller
    unfold CallerAgrees at hcaller
    simp only [hphase, hkind] at hcaller
    exact ⟨hcaller.1, hcaller.2.2⟩
  finishes := h.finishes
  noError failure hphase := by
    have hcaller := h.caller
    unfold CallerAgrees at hcaller
    simp only [hphase] at hcaller

/-- **Merge.** A call is accepted for a request with two or more terminal stages, and
for this request nothing but successful completions, stream messages and the steps
of the call happens, the last missing stage not completing during the hand-over.
Then in every state reached the request is resolved exactly if every stage has
completed, with the last result of each, and the consumer is given, in order, the
messages up to that point and then ends. -/
theorem merge_delivers {cfg : Config Q} {s t : State V} {kind : Kind} {c : ℕ} {r : String}
    {request : Q} (hs : Reachable cfg s)
    (hcall : step cfg s (kind.call c r request) = some t)
    (hphase : (t.calls c).phase = .submitting)
    (hmany : 1 < (t.calls c).info.terminalStages.card)
    {u : State V} {log : List (Message V)} {as : List (Action V Q)}
    (hrun : Run (collecting cfg r)
      (fun p a => SuccessOnly c r p.1 a ∧ NotDuringHandOver cfg c r p.1 a) (t, []) as (u, log)) :
    MergeResult cfg u c r (t.calls c).info.terminalStages log :=
  (hrun.invariant (I := fun p => Merging p.1 c r (t.calls c).info.terminalStages p.2)
    (fun _ _ _ h hok hstep => h.step hmany hok.1 hok.2 hstep)
    (merging_of_call (keyed_of_reachable hs) hcall hphase hmany)).result

/-- A pipeline with two terminal stages. -/
def twoTerminals : Config Unit := ⟨"preprocessing", {"decode", "code2wav"}, none⟩

/-- The run in which both terminal stages complete after the hand-over, one of them
twice, with a stream message in between. -/
theorem merge_delivers_two :
    ∃ (t u : State ℕ) (log : List (Message ℕ)), log.length = 4 ∧
      MergeResult twoTerminals u 0 "r" (t.calls 0).info.terminalStages log := by
  have hrun : Run (collecting twoTerminals "r")
      (fun p a => SuccessOnly 0 "r" p.1 a ∧ NotDuringHandOver twoTerminals 0 "r" p.1 a)
      (stream twoTerminals { (State.init : State ℕ) with
        stages := insert "preprocessing" ∅ } 0 "r" (), [])
      [.handed 0 none, .complete 0 ⟨"r", "decode", true, some 7, none⟩,
        .chunk ⟨"r", "code2wav", 3⟩, .complete 1 ⟨"r", "decode", true, some 8, none⟩,
        .complete 2 ⟨"r", "code2wav", true, some 9, none⟩] _ :=
    .cons ⟨Or.inr ⟨rfl, rfl⟩, fun _ => id⟩ rfl <|
    .cons ⟨Or.inr ⟨rfl, rfl⟩, nofun⟩ rfl <|
    .cons ⟨Or.inr rfl, nofun⟩ rfl <|
    .cons ⟨Or.inr ⟨rfl, rfl⟩, nofun⟩ rfl <|
    .cons ⟨Or.inr ⟨rfl, rfl⟩, nofun⟩ rfl (.nil _)
  have hcall : step twoTerminals { (State.init : State ℕ) with
      stages := insert "preprocessing" ∅ } (Kind.stream.call 0 "r" ()) = some _ := rfl
  refine ⟨_, _, _, ?_, merge_delivers ⟨[.registerStage "preprocessing"], run_of_exec rfl⟩ hcall
    rfl ?_ hrun⟩
  · rfl
  · decide

/-- The last missing stage completes while `submit_to_stage` is suspended: the request
is gone when the call goes on, and the consumer gets a `KeyError` and no message. -/
theorem merge_raises_keyError :
    ∃ s t u : State ℕ, ∃ log : List (Message ℕ), Reachable twoTerminals s ∧
      step twoTerminals s (.stream 0 "r" ()) = some t ∧
      (t.calls 0).phase = .submitting ∧
      Run (collecting twoTerminals "r") (fun p => SuccessOnly 0 "r" p.1) (t, [])
        [.complete 0 ⟨"r", "decode", true, some 7, none⟩,
          .complete 1 ⟨"r", "code2wav", true, some 9, none⟩, .handed 0 none] (u, log) ∧
      covers {"decode", "code2wav"} (deliverable {"decode", "code2wav"} log) = true ∧
      (u.calls 0).phase = .raised (.keyError "r") ∧ (u.calls 0).yielded = [] := by
  refine ⟨_, _, _, _, ⟨[.registerStage "preprocessing"], run_of_exec rfl⟩, rfl, rfl,
    .cons (Or.inr ⟨rfl, rfl⟩) rfl (.cons (Or.inr ⟨rfl, rfl⟩) rfl
      (.cons (Or.inr ⟨rfl, rfl⟩) rfl (.nil _))), ?_, rfl, rfl⟩
  decide

end Omni.Coordinator
