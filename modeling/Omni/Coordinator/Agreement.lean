import Omni.Coordinator.Book
import Omni.Coordinator.Effects

/-!
# The coordinator follows its book

The simulation relation between the coordinator's state and the book, for runs
that use `submit` only. A frame rule covers the pieces that touch nothing the
callers see, and a settlement rule covers every way in which a request ends.
-/

namespace Omni.Coordinator

open Function

variable {V Q : Type} {s t : State V} {B : Book V} {r : String} {o : Outcome V}

/-- The caller is still inside `submit`. -/
def Phase.unfinished : Phase V → Bool
  | .submitting | .awaiting _ => true
  | _ => false

/-- What the phase of a call says about the book. -/
def PhaseAgrees (s : State V) (B : Book V) (c : ℕ) : Prop :=
  match (s.calls c).phase with
  | .idle => True
  | .submitting => B.ledger.live (s.calls c).requestId = some c
  | .awaiting owner => owner = c ∧ s.completionFutures (s.calls c).requestId = some c
  | .receiving _ _ => False
  | .yielding _ _ _ => False
  | .returned value => ∃ o, B.ledger.verdict c = some o ∧ o.phase = .returned value
  | .raised failure => B.ledger.key c = none ∨ B.refused c ≠ none ∨
      B.ledger.verdict c = some (.raises failure)

/-- The coordinator's state follows the book. -/
structure Agrees (s : State V) (B : Book V) : Prop where
  requests : s.requests = B.ledger.live
  partials : ∀ {r p}, s.partialResults r = some p →
    B.ledger.live r ≠ none ∧ 1 < (B.expected r).card ∧ p.keys ⊆ B.expected r
  collected : ∀ {r}, B.ledger.live r ≠ none → (s.partialResults r).getD ∅ = B.collected r
  expected : ∀ {r c}, B.ledger.live r = some c → (s.calls c).info.terminalStages = B.expected r
  registered : ∀ {r c}, s.completionFutures r = some c → B.ledger.key c = some r
  live : ∀ {r c}, B.ledger.live r = some c →
    s.completionFutures r = some c ∧ (s.calls c).future = .pending
  key : ∀ {r c}, B.ledger.key c = some r → (s.calls c).requestId = r ∧ (s.calls c).phase ≠ .idle
  settled : ∀ {c o}, B.ledger.verdict c = some o →
    (s.calls c).future = o.future ∧ ∀ k, o ≠ .raises (.keyError k)
  noStream : ∀ r, s.streamQueues r = none
  submits : ∀ c, (s.calls c).kind = .submit
  phase : ∀ c, PhaseAgrees s B c

/-- The parts of a call that only its own steps change. -/
structure SameCaller (a b : Call V) : Prop where
  kind : b.kind = a.kind
  requestId : b.requestId = a.requestId
  phase : b.phase = a.phase
  terminalStages : b.info.terminalStages = a.info.terminalStages

theorem SameCaller.rfl {a : Call V} : SameCaller a a := ⟨Eq.refl _, Eq.refl _, Eq.refl _, Eq.refl _⟩

theorem agrees_init : Agrees (State.init : State V) Book.empty where
  requests := by rfl
  partials h := by simp [State.init] at h
  collected h := by simp [Book.empty, Ledger.empty] at h
  expected h := by simp [Book.empty, Ledger.empty] at h
  registered h := by simp [State.init] at h
  live h := by simp [Book.empty, Ledger.empty] at h
  key h := by simp [Book.empty, Ledger.empty] at h
  settled h := by simp [Book.empty, Ledger.empty] at h
  noStream _ := by rfl
  submits _ := by rfl
  phase _ := trivial

/-- A step that leaves the maps, the futures and the callers alone keeps the
agreement. -/
theorem Agrees.frame (h : Agrees s B) (hrequests : t.requests = s.requests)
    (hpartials : t.partialResults = s.partialResults)
    (hfutures : t.completionFutures = s.completionFutures)
    (hstreams : t.streamQueues = s.streamQueues) (hcalls : ∀ d, SameCaller (s.calls d) (t.calls d))
    (hfuture : ∀ d, (t.calls d).future = (s.calls d).future) : Agrees t B where
  requests := hrequests.trans h.requests
  partials hp := h.partials (by rwa [← hpartials])
  collected hne := by rw [hpartials]; exact h.collected hne
  expected hlive := (hcalls _).terminalStages.trans (h.expected hlive)
  registered hreg := h.registered (by rwa [← hfutures])
  live hlive := by rw [hfutures, hfuture]; exact h.live hlive
  key hkey := by rw [(hcalls _).requestId, (hcalls _).phase]; exact h.key hkey
  settled hverdict := by rw [hfuture]; exact h.settled hverdict
  noStream r := by rw [hstreams]; exact h.noStream r
  submits c := (hcalls c).kind.trans (h.submits c)
  phase c := by
    have hc := h.phase c
    unfold PhaseAgrees at hc ⊢
    rw [(hcalls c).phase, (hcalls c).requestId, hfutures]
    exact hc

/-- A step that removes a live request, resolves its future with an outcome and
touches no other future follows the book's settlement. -/
theorem Agrees.settle {c : ℕ} (h : Agrees s B) (hlive : B.ledger.live r = some c)
    (hphase : (s.calls c).phase ≠ .submitting) (ho : ∀ k, o ≠ .raises (.keyError k))
    (hrequests : t.requests = update s.requests r none)
    (hpartials : t.partialResults = update s.partialResults r none)
    (hfutures : t.completionFutures = s.completionFutures)
    (hstreams : t.streamQueues = s.streamQueues) (hcalls : ∀ d, SameCaller (s.calls d) (t.calls d))
    (hfuture : ∀ d, (t.calls d).future = if d = c then o.future else (s.calls d).future) :
    Agrees t (B.settle r o) where
  requests := by rw [hrequests, h.requests]; exact Ledger.settle_live.symm
  partials {r' p} hp := by
    rw [hpartials] at hp
    by_cases hr : r' = r
    · simp [hr] at hp
    · rw [update_of_ne hr] at hp
      simpa [Book.settle, Ledger.settle_live, hr] using h.partials hp
  collected {r'} hne := by
    by_cases hr : r' = r
    · simp [Book.settle, Ledger.settle_live, hr] at hne
    · have hlive' : B.ledger.live r' ≠ none := by
        simpa [Book.settle, Ledger.settle_live, hr] using hne
      simpa [hpartials, Book.settle, hr] using h.collected hlive'
  expected {r' d} hlive' := by
    by_cases hr : r' = r
    · simp [Book.settle, Ledger.settle_live, hr] at hlive'
    · rw [(hcalls d).terminalStages]
      apply h.expected
      simpa [Book.settle, Ledger.settle_live, hr] using hlive'
  registered hreg := by
    simpa [Book.settle] using h.registered (by rwa [← hfutures])
  live {r' d} hlive' := by
    by_cases hr : r' = r
    · simp [Book.settle, Ledger.settle_live, hr] at hlive'
    · have hd : B.ledger.live r' = some d := by
        simpa [Book.settle, Ledger.settle_live, hr] using hlive'
      have hne : d ≠ c := by
        rintro rfl
        exact hr (Option.some.inj ((B.ledger.key_of_live hd).symm.trans
          (B.ledger.key_of_live hlive)))
      rw [hfutures, hfuture, if_neg hne]
      exact h.live hd
  key hkey := by
    rw [(hcalls _).requestId, (hcalls _).phase]
    exact h.key (by simpa [Book.settle] using hkey)
  settled {d o'} hverdict := by
    by_cases hd : d = c
    · subst hd
      simp only [Book.settle, Ledger.settle_verdict hlive, update_self,
        Option.some.injEq] at hverdict
      subst hverdict
      exact ⟨by simp [hfuture], ho⟩
    · rw [hfuture, if_neg hd]
      simp only [Book.settle, Ledger.settle_verdict hlive, update_of_ne hd] at hverdict
      exact h.settled hverdict
  noStream r := by rw [hstreams]; exact h.noStream r
  submits c := (hcalls c).kind.trans (h.submits c)
  phase d := by
    have hd := h.phase d
    unfold PhaseAgrees at hd ⊢
    rw [(hcalls d).phase, (hcalls d).requestId, hfutures]
    cases hp : (s.calls d).phase with
    | idle => trivial
    | submitting =>
      rw [hp] at hd
      have hr : (s.calls d).requestId ≠ r := by
        intro heq
        simp only [heq, hlive, Option.some.injEq] at hd
        exact hphase (hd ▸ hp)
      simpa [Book.settle, Ledger.settle_live, hr] using hd
    | awaiting owner => simpa only [hp] using hd
    | receiving expected completed => simp only [hp] at hd
    | yielding expected completed msg => simp only [hp] at hd
    | returned value =>
      rw [hp] at hd
      obtain ⟨o', hverdict, ho'⟩ := hd
      exact ⟨o', Ledger.settle_final hverdict, ho'⟩
    | raised failure =>
      rw [hp] at hd
      rcases hd with hkey | hrefused | hverdict
      · left
        simpa [Book.settle] using hkey
      · exact Or.inr (Or.inl hrefused)
      · exact Or.inr (Or.inr (Ledger.settle_final hverdict))

/-- Only what has been collected for live requests matters. -/
theorem Agrees.congr_book {B' : Book V} (h : Agrees s B) (hledger : B'.ledger = B.ledger)
    (hrefused : B'.refused = B.refused) (hexpected : B'.expected = B.expected)
    (hcollected : ∀ r, B.ledger.live r ≠ none → B'.collected r = B.collected r) :
    Agrees s B' := by
  obtain ⟨ledger, refused, expected, collected⟩ := B'
  subst hledger hrefused hexpected
  exact { h with
    collected := fun hne => (h.collected hne).trans (hcollected _ hne).symm }

/-- The settlement of a request that is not live changes nothing that matters. -/
theorem Agrees.settle_dead (h : Agrees s B) (hdead : B.ledger.live r = none) (o : Outcome V) :
    Agrees s (B.settle r o) := by
  refine h.congr_book (Ledger.settle_of_dead hdead) rfl rfl fun r' hne => ?_
  have hr : r' ≠ r := by
    rintro rfl
    exact hne hdead
  simp [Book.settle, hr]

theorem putStream_of_none (hnone : s.streamQueues r = none) (msg : Message V) :
    putStream s r msg = s := by
  simp [putStream, hnone]

theorem rejectCompletionFuture_of_none (hnone : s.streamQueues r = none) (exc : Failure) :
    rejectCompletionFuture s r exc = resolveFuture s r (.exception exc) := by
  simp [rejectCompletionFuture, hnone]

theorem sameCaller_resolveFuture (s : State V) (r : String) (value : Future V) (d : ℕ) :
    SameCaller (s.calls d) ((resolveFuture s r value).calls d) := by
  rw [resolveFuture_calls]
  split
  · exact ⟨rfl, rfl, rfl, rfl⟩
  · exact .rfl

/-- Changing anything in the tracking info but the terminal stages is not seen by
the callers. -/
theorem Agrees.updateInfo (h : Agrees s B) (c : ℕ) {f : RequestInfo V → RequestInfo V}
    (hf : ∀ i, (f i).terminalStages = i.terminalStages) :
    Agrees (s.updateInfo c f) B := by
  refine h.frame rfl rfl rfl rfl (fun d => ?_) fun d => ?_
  · rw [updateInfo_calls]
    exact ⟨rfl, rfl, rfl, by by_cases hd : d = c <;> simp [hd, hf]⟩
  · rw [updateInfo_calls]

theorem Agrees.setHandler (h : Agrees s B) (n : ℕ) (handler : Handler V) :
    Agrees (s.setHandler n handler) B :=
  h.frame rfl rfl rfl rfl (fun _ => .rfl) fun _ => rfl

/-- Under the agreement, resolving the future of an id resolves that of the live
request and no other. -/
theorem Agrees.resolveFuture_future (h : Agrees s B) (r : String) (value : Future V) (d : ℕ) :
    ((resolveFuture s r value).calls d).future =
      if B.ledger.live r = some d then value else (s.calls d).future := by
  have hiff : (s.completionFutures r = some d ∧ (s.calls d).future.done = false) ↔
      B.ledger.live r = some d := by
    constructor
    · rintro ⟨hreg, hdone⟩
      rcases B.ledger.live_of_key (h.registered hreg) with hlive | hverdict
      · exact hlive
      · obtain ⟨o, ho⟩ := Option.ne_none_iff_exists'.mp hverdict
        rw [(h.settled ho).1] at hdone
        cases o <;> simp [Outcome.future, Future.done] at hdone
    · intro hlive
      obtain ⟨hreg, hpending⟩ := h.live hlive
      exact ⟨hreg, by simp [hpending, Future.done]⟩
  rw [resolveFuture_calls]
  by_cases hlive : B.ledger.live r = some d
  · rw [if_pos (hiff.mpr hlive), if_pos hlive]
  · rw [if_neg (mt hiff.mp hlive), if_neg hlive]

theorem Agrees.finish (h : Agrees s B)
    (hphase : ∀ c, B.ledger.live r = some c → (s.calls c).phase ≠ .submitting)
    (ho : ∀ k, o ≠ .raises (.keyError k)) :
    Agrees (dropRequest (resolveFuture s r o.future) r) (B.settle r o) := by
  have hfuture := h.resolveFuture_future r o.future
  cases hlive : B.ledger.live r with
  | none =>
    simp only [hlive, reduceCtorEq, if_false] at hfuture
    have hrequests : update s.requests r none = s.requests := by
      rw [update_eq_self_iff, h.requests, hlive]
    have hpartials : update s.partialResults r none = s.partialResults := by
      rw [update_eq_self_iff, eq_comm, Option.eq_none_iff_forall_not_mem]
      intro p hp
      exact (h.partials hp).1 hlive
    have hframe : Agrees (dropRequest (resolveFuture s r o.future) r) B :=
      h.frame (by simp [hrequests]) (by simp [hpartials]) (by simp) (by simp)
        (sameCaller_resolveFuture s r _) hfuture
    exact hframe.settle_dead hlive o
  | some c =>
    refine h.settle hlive (hphase c hlive) ho (by simp) (by simp) (by simp) (by simp)
      (sameCaller_resolveFuture s r _) fun d => ?_
    rw [dropRequest_calls, hfuture d, hlive]
    by_cases hd : d = c <;> simp [hd, Ne.symm, eq_comm]

end Omni.Coordinator
