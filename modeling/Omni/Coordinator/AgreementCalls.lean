import Omni.Coordinator.Agreement

/-!
# The callers follow the book

One lemma for each piece of a call of `submit`: the submission that is refused
or accepted, its return from `submit_to_stage`, and the caller that wakes up.
-/

namespace Omni.Coordinator

open Function

variable {V Q : Type} {s : State V} {B : Book V} {c owner : ℕ} {phase : Phase V} {cfg : Config Q}

/-- A call that has not been made is not on the book. -/
theorem Agrees.key_of_idle (h : Agrees s B) (hidle : (s.calls c).phase = .idle) :
    B.ledger.key c = none := by
  rw [Option.eq_none_iff_forall_not_mem]
  intro r hkey
  exact (h.key hkey).2 hidle

/-- Tickets on the book are not calls that have not been made. -/
theorem Agrees.ne_idle (h : Agrees s B) {d : ℕ} (hidle : (s.calls c).phase = .idle)
    (hkey : B.ledger.key d ≠ none) : d ≠ c := by
  rintro rfl
  exact hkey (h.key_of_idle hidle)

/-- A refused submission changes nothing but its own call. -/
theorem Agrees.refuse (h : Agrees s B) (r : String) (failure : Failure)
    (hidle : (s.calls c).phase = .idle) :
    Agrees (raiseCall (s.updateCall c fun _ => Call.start .submit r) c failure) B := by
  have hother : ∀ {d}, d ≠ c → (raiseCall (s.updateCall c fun _ => Call.start .submit r) c
      failure).calls d = s.calls d := by
    intro d hd
    simp [raiseCall, setPhase_calls, updateCall_ne, hd]
  have hon : ∀ {d}, B.ledger.key d ≠ none → (raiseCall (s.updateCall c fun _ =>
      Call.start .submit r) c failure).calls d = s.calls d :=
    fun hkey => hother (h.ne_idle hidle hkey)
  exact { h with
    expected := fun hlive => by
      rw [hon (by simp [B.ledger.key_of_live hlive])]
      exact h.expected hlive
    live := fun hlive => by
      rw [hon (by simp [B.ledger.key_of_live hlive])]
      exact h.live hlive
    key := fun hkey => by
      rw [hon (by simp [hkey])]
      exact h.key hkey
    settled := fun hverdict => by
      rw [hon (Ledger.key_of_verdict hverdict)]
      exact h.settled hverdict
    submits := fun d => by
      by_cases hd : d = c
      · simp [hd, raiseCall, setPhase_calls, Call.start]
      · rw [hother hd]
        exact h.submits d
    phase := fun d => by
      by_cases hd : d = c
      · simp [hd, PhaseAgrees, raiseCall, setPhase_calls, h.key_of_idle hidle]
      · have hphase := h.phase d
        unfold PhaseAgrees at hphase ⊢
        rw [hother hd]
        exact hphase }

/-- An accepted submission enters the maps and the book together. -/
theorem Agrees.accept (h : Agrees s B) {r : String} {terminalStages : Finset String}
    (hidle : (s.calls c).phase = .idle) (hnone : s.requests r = none)
    (hfree : ∀ d, (s.calls d).requestId = r → (s.calls d).phase.unfinished = false) :
    Agrees (trackRequest cfg (s.updateCall c fun _ => Call.start .submit r) c r terminalStages)
      (B.record (.accepted c r terminalStages)) := by
  have hkey := h.key_of_idle hidle
  have hdead : B.ledger.live r = none := by rw [← h.requests]; exact hnone
  have hother : ∀ {d}, d ≠ c → (trackRequest cfg (s.updateCall c fun _ =>
      Call.start .submit r) c r terminalStages).calls d = s.calls d := by
    intro d hd
    rw [trackRequest_ne _ _ _ _ _ hd, updateCall_ne _ _ _ _ hd]
  have hrequests : ∀ {r' d}, B.ledger.live r' = some d → r' ≠ r ∧ d ≠ c := by
    intro r' d hlive
    refine ⟨?_, h.ne_idle hidle (by simp [B.ledger.key_of_live hlive])⟩
    rintro rfl
    simp [hlive] at hdead
  exact {
    requests := by
      simp [Book.record, Ledger.enter_live hkey hdead, h.requests]
    partials := fun {r' p} hp => by
      obtain ⟨hlive, hcard⟩ := h.partials hp
      obtain ⟨d, hd⟩ := Option.ne_none_iff_exists'.mp hlive
      have hr := (hrequests hd).1
      simpa [Book.record, Ledger.enter_live hkey hdead, hr] using And.intro hlive hcard
    collected := fun {r'} hlive => by
      by_cases hr : r' = r
      · subst hr
        have hpartials : s.partialResults r' = none := by
          rw [Option.eq_none_iff_forall_not_mem]
          intro p hp
          exact (h.partials hp).1 hdead
        simp [Book.record, hpartials]
      · simp only [Book.record, Ledger.enter_live hkey hdead, update_of_ne hr] at hlive
        simpa [Book.record, hr] using h.collected hlive
    expected := fun {r' d} hlive => by
      simp only [Book.record, Ledger.enter_live hkey hdead] at hlive ⊢
      by_cases hr : r' = r
      · subst hr
        simp only [update_self, Option.some.injEq] at hlive
        simp [← hlive]
      · rw [update_of_ne hr] at hlive
        rw [update_of_ne hr, hother (hrequests hlive).2]
        exact h.expected hlive
    registered := fun {r' d} hreg => by
      simp only [Book.record, Ledger.enter_key hkey hdead]
      rw [trackRequest_completionFutures, updateCall_completionFutures] at hreg
      by_cases hr : r' = r
      · subst hr
        simp only [update_self, Option.some.injEq] at hreg
        simp [← hreg]
      · have hd := h.registered (by simpa [hr] using hreg)
        rwa [update_of_ne (h.ne_idle hidle (by simp [hd]))]
    live := fun {r' d} hlive => by
      simp only [Book.record, Ledger.enter_live hkey hdead] at hlive
      by_cases hr : r' = r
      · subst hr
        simp only [update_self, Option.some.injEq] at hlive
        simp [← hlive]
      · rw [update_of_ne hr] at hlive
        rw [hother (hrequests hlive).2]
        simpa [hr] using h.live hlive
    key := fun {r' d} hd => by
      simp only [Book.record, Ledger.enter_key hkey hdead] at hd
      by_cases hc : d = c
      · subst hc
        simp only [update_self, Option.some.injEq] at hd
        simp [← hd, Call.start]
      · rw [update_of_ne hc] at hd
        rw [hother hc]
        exact h.key hd
    settled := fun {d o} hverdict => by
      simp only [Book.record, Ledger.enter_verdict] at hverdict
      rw [hother (h.ne_idle hidle (Ledger.key_of_verdict hverdict))]
      exact h.settled hverdict
    noStream := h.noStream
    submits := fun d => by
      by_cases hc : d = c
      · simp [hc, Call.start]
      · rw [hother hc]
        exact h.submits d
    phase := fun d => by
      unfold PhaseAgrees
      by_cases hc : d = c
      · subst hc
        simp [Book.record, Ledger.enter_live hkey hdead, Call.start]
      · have hd := h.phase d
        have hrid := hfree d
        unfold PhaseAgrees at hd
        rw [hother hc]
        cases hp : (s.calls d).phase with
        | idle => trivial
        | submitting =>
          rw [hp] at hd
          have hr := (hrequests hd).1
          simpa [Book.record, Ledger.enter_live hkey hdead, hr] using hd
        | awaiting owner =>
          rw [hp] at hd hrid
          have hr : (s.calls d).requestId ≠ r := by
            intro heq
            simpa [Phase.unfinished] using hrid heq
          simpa [hr] using hd
        | receiving expected completed => simp only [hp] at hd
        | yielding expected completed msg => simp only [hp] at hd
        | returned value => simpa [Book.record, hp] using hd
        | raised failure =>
          simpa [Book.record, Ledger.enter_key hkey hdead, hp, hc] using hd }

/-- Moving a call to another phase that agrees with the book. -/
theorem Agrees.setPhase (h : Agrees s B) (hphase : phase ≠ .idle)
    (hagrees : PhaseAgrees (s.setPhase c phase) B c) :
    Agrees (s.setPhase c phase) B := { h with
  expected hlive := by
    rw [setPhase_calls]
    exact h.expected hlive
  live hlive := by
    rw [setPhase_calls]
    exact h.live hlive
  key {r d} hkey := by
    rw [setPhase_calls]
    refine ⟨(h.key hkey).1, ?_⟩
    by_cases hd : d = c
    · simpa [hd] using hphase
    · simpa [hd] using (h.key hkey).2
  settled hverdict := by
    rw [setPhase_calls]
    exact h.settled hverdict
  submits d := by
    rw [setPhase_calls]
    exact h.submits d
  phase d := by
    by_cases hd : d = c
    · exact hd ▸ hagrees
    · have hdone := h.phase d
      unfold PhaseAgrees at hdone ⊢
      simpa [setPhase_calls, hd] using hdone }

theorem Agrees.failSubmission (h : Agrees s B) (c : ℕ) (message : String) :
    Agrees (failSubmission s c (.external message)) (B.record (.refused c message)) := by
  have hrecord : Agrees s (B.record (.refused c message)) := { h with
    phase := fun d => by
      have hd := h.phase d
      unfold PhaseAgrees at hd ⊢
      cases hp : (s.calls d).phase with
      | raised failure =>
        rw [hp] at hd
        by_cases hc : d = c
        · simp [Book.record, hc]
        · simpa [Book.record, hc] using hd
      | idle => trivial
      | submitting => simpa only [hp, Book.record] using hd
      | awaiting owner => simpa only [hp] using hd
      | receiving expected completed => simp only [hp] at hd
      | yielding expected completed msg => simp only [hp] at hd
      | returned value => simpa only [hp, Book.record] using hd }
  unfold Omni.Coordinator.failSubmission
  rw [h.submits c]
  refine hrecord.setPhase (by simp) ?_
  unfold PhaseAgrees
  simp [setPhase_calls, Book.record]

/-- Once the hand-over has returned, the call awaits its own future. -/
theorem Agrees.submitted (h : Agrees s B) (hphase : (s.calls c).phase = .submitting) :
    submitted cfg s c =
        (s.updateInfo c fun info => { info with state := .running }).setPhase c (.awaiting c) ∧
      Agrees (submitted cfg s c) B := by
  have hlive : B.ledger.live (s.calls c).requestId = some c := by
    have hc := h.phase c
    unfold PhaseAgrees at hc
    simpa only [hphase] using hc
  have hreg := (h.live hlive).1
  have heq : Omni.Coordinator.submitted cfg s c =
      (s.updateInfo c fun info => { info with state := .running }).setPhase c (.awaiting c) := by
    unfold Omni.Coordinator.submitted
    simp only [h.requests, hlive, updateInfo_calls, h.submits c, updateInfo_completionFutures, hreg]
  have hrunning : Agrees (s.updateInfo c fun info => { info with state := .running }) B :=
    h.updateInfo c fun _ => rfl
  refine ⟨heq, heq ▸ hrunning.setPhase (by simp) ?_⟩
  unfold PhaseAgrees
  simp [setPhase_calls, updateInfo_calls, hreg]

/-- A caller wakes up with the outcome on the book. -/
theorem Agrees.outcome (h : Agrees s B) (hphase : (s.calls c).phase = .awaiting owner)
    (houtcome : (s.calls owner).future.outcome = some phase) :
    owner = c ∧ s.completionFutures (s.calls c).requestId = some c ∧
      ∃ o, B.ledger.verdict c = some o ∧ phase = o.phase := by
  have hc := h.phase c
  unfold PhaseAgrees at hc
  simp only [hphase] at hc
  obtain ⟨rfl, hreg⟩ := hc
  refine ⟨rfl, hreg, ?_⟩
  rcases B.ledger.live_of_key (h.registered hreg) with hlive | hverdict
  · simp [(h.live hlive).2, Future.outcome] at houtcome
  · obtain ⟨o, ho⟩ := Option.ne_none_iff_exists'.mp hverdict
    refine ⟨o, ho, ?_⟩
    rw [(h.settled ho).1] at houtcome
    cases o <;> simpa [Outcome.future, Outcome.phase, Future.outcome, eq_comm] using houtcome

/-- A caller that wakes up keeps the agreement. -/
theorem Agrees.wake (h : Agrees s B) (hphase : (s.calls c).phase = .awaiting owner)
    (houtcome : (s.calls owner).future.outcome = some phase) :
    Agrees (submitReturns s c phase) B := by
  obtain ⟨rfl, hreg, o, hverdict, rfl⟩ := h.outcome hphase houtcome
  have hset : Agrees (s.setPhase owner o.phase) B := by
    refine h.setPhase (by cases o <;> simp [Outcome.phase]) ?_
    unfold PhaseAgrees
    cases o <;> simp [setPhase_calls, Outcome.phase, hverdict]
  have hne : ∀ {r d}, s.completionFutures r = some d → d ≠ owner →
      r ≠ (s.calls owner).requestId := by
    rintro r d hd hdne rfl
    exact hdne (Option.some.inj (hd.symm.trans hreg))
  exact { hset with
    registered := fun {r d} hr => by
      by_cases heq : r = (s.calls owner).requestId
      · simp [submitReturns, heq] at hr
      · exact hset.registered (by simpa [submitReturns, heq] using hr)
    live := fun {r d} hlive => by
      obtain ⟨hd, hpending⟩ := hset.live hlive
      have hdne : d ≠ owner := by
        rintro rfl
        simp [B.ledger.verdict_of_live hlive] at hverdict
      exact ⟨by simpa [submitReturns, hne hd hdne] using hd, hpending⟩
    phase := fun d => by
      have hd := hset.phase d
      unfold PhaseAgrees at hd ⊢
      simp only [submitReturns]
      cases hp : ((s.setPhase owner o.phase).calls d).phase with
      | awaiting owner' =>
        simp only [hp] at hd
        obtain ⟨rfl, hreg'⟩ := hd
        have hdne : owner' ≠ owner := by
          rintro rfl
          cases o <;> simp [setPhase_calls, Outcome.phase] at hp
        have hrid := hne hreg' hdne
        exact ⟨rfl, by simpa [hrid] using hreg'⟩
      | idle => trivial
      | submitting => simpa only [hp] using hd
      | receiving expected completed => simp only [hp] at hd
      | yielding expected completed msg => simp only [hp] at hd
      | returned value => simpa only [hp] using hd
      | raised failure => simpa only [hp] using hd }

end Omni.Coordinator
