import Omni.Coordinator.Agreement

/-!
# The ends of a request follow the book

One lemma for each of the four ways in which a request can end: the rest of an
abort, the rest of a failure, the last completion and the fatal error.
-/

namespace Omni.Coordinator

variable {V Q : Type} {s : State V} {B : Book V} {r : String} {msg : CompleteMessage V} {c : ℕ}

/-- The rest of an abort settles the request as cancelled. -/
theorem Agrees.abortBroadcast (h : Agrees s B) (n : ℕ) (info : ℕ)
    (hphase : ∀ c, B.ledger.live r = some c → (s.calls c).phase ≠ .submitting) :
    Agrees (abortBroadcast s n r info) (B.record (.aborted r)) := by
  have hmarked : Agrees (s.updateInfo info fun i => { i with state := .aborted }) B :=
    h.updateInfo info fun _ => rfl
  have hend := hmarked.finish (r := r) (o := abortOutcome r)
    (fun c hlive => by simpa only [updateInfo_calls] using hphase c hlive)
    (fun k => by simp [abortOutcome])
  unfold Omni.Coordinator.abortBroadcast
  dsimp only
  rw [putStream_of_none (by simpa using h.noStream r),
    rejectCompletionFuture_of_none (by simpa using h.noStream r)]
  exact hend.setHandler n _

theorem Agrees.failureBroadcast (h : Agrees s B) (n : ℕ)
    (hphase : ∀ c, B.ledger.live msg.requestId = some c → (s.calls c).phase ≠ .submitting) :
    Agrees (failureBroadcast s n msg) (B.record (.failed msg.requestId msg.error)) := by
  have hend := h.finish (r := msg.requestId) (o := failureOutcome msg.error) hphase
    (fun k => by simp [failureOutcome])
  unfold Omni.Coordinator.failureBroadcast
  dsimp only
  rw [putStream_of_none (by simpa using h.noStream _),
    rejectCompletionFuture_of_none (h.noStream _)]
  exact hend.setHandler n _

/-- A live request expects what its record says. -/
theorem Agrees.expectedTerminalStages (h : Agrees s B) (cfg : Config Q)
    (hlive : B.ledger.live r = some c) :
    expectedTerminalStages cfg s r = B.expected r := by
  simp only [Omni.Coordinator.expectedTerminalStages, h.requests, hlive, h.expected hlive]

/-- Storing the partial result of an expected stage in both worlds. -/
theorem Agrees.storePartials (h : Agrees s B) {p : Finmap fun _ : String => Option V}
    (hlive : B.ledger.live r = some c) (hcard : 1 < (B.expected r).card)
    (hkeys : p.keys ⊆ B.expected r) :
    Agrees (storePartials s r p) { B with collected := Function.update B.collected r p } := { h with
  partials := by
    intro r' p' hp
    simp only [Omni.Coordinator.storePartials] at hp
    by_cases hr : r' = r
    · subst hr
      simp only [Function.update_self, Option.some.injEq] at hp
      exact ⟨by simp [hlive], hcard, hp ▸ hkeys⟩
    · rw [Function.update_of_ne hr] at hp
      exact h.partials hp
  collected := by
    intro r' hne
    by_cases hr : r' = r
    · subst hr
      simp
    · simpa [hr] using h.collected hne }

theorem Agrees.handleSuccess_single {cfg : Config Q} (h : Agrees s B)
    (hlive : B.ledger.live msg.requestId = some c) (hphase : (s.calls c).phase ≠ .submitting)
    (hstage : B.expected msg.requestId = ∅ ∨ msg.fromStage ∈ B.expected msg.requestId)
    (hcard : (B.expected msg.requestId).card ≤ 1) :
    Agrees (handleSuccess cfg s c msg)
      (B.settle msg.requestId (.returns (.single msg.result))) := by
  have hexpected := h.expectedTerminalStages cfg hlive
  rw [Omni.Coordinator.handleSuccess_single (by rwa [hexpected]) (by rwa [hexpected]),
    putStream_of_none (by simpa using h.noStream _)]
  have hmarked : Agrees (s.updateInfo c fun i => { i with
      state := .completed, result := some (.single msg.result) }) B :=
    h.updateInfo c fun _ => rfl
  have hend := hmarked.finish (r := msg.requestId) (o := .returns (.single msg.result))
    (fun d hd => by
      rw [hlive, Option.some.injEq] at hd
      simpa only [updateInfo_calls, ← hd] using hphase)
    (fun k => by simp)
  have hpartials : s.partialResults msg.requestId = none := by
    rw [Option.eq_none_iff_forall_not_mem]
    intro p hp
    have := (h.partials hp).2.1
    omega
  refine hend.frame (by simp) ?_ (by simp) (by simp) (fun _ => .rfl) fun _ => rfl
  simp [hpartials]

theorem Agrees.handleSuccess {cfg : Config Q} (h : Agrees s B)
    (hlive : B.ledger.live msg.requestId = some c)
    (hphase : concludes cfg s msg → (s.calls c).phase ≠ .submitting) :
    Agrees (handleSuccess cfg s c msg) (B.complete msg.requestId msg.fromStage msg.result) := by
  have hexpected := h.expectedTerminalStages cfg hlive
  by_cases hignored : B.expected msg.requestId ≠ ∅ ∧ msg.fromStage ∉ B.expected msg.requestId
  · rw [handleSuccess_ignored (by rw [hexpected]; exact hignored.1)
      (by rw [hexpected]; exact hignored.2)]
    simpa only [Book.complete, if_pos hignored] using h
  by_cases hsingle : (B.expected msg.requestId).card ≤ 1
  · have hstage : B.expected msg.requestId = ∅ ∨
        msg.fromStage ∈ B.expected msg.requestId := by tauto
    have hconcludes : concludes cfg s msg :=
      ⟨by rwa [hexpected], Or.inl (by rwa [hexpected])⟩
    simpa only [Book.complete, if_neg hignored, if_pos hsingle] using
      h.handleSuccess_single hlive (hphase hconcludes) hstage hsingle
  have hcard : 1 < (B.expected msg.requestId).card := by omega
  have hstage : msg.fromStage ∈ B.expected msg.requestId := by
    by_contra hnot
    refine hignored ⟨?_, hnot⟩
    rintro hempty
    simp [hempty] at hcard
  have hcollect : collect s msg = (B.collected msg.requestId).insert msg.fromStage msg.result := by
    rw [collect, h.collected (by simp [hlive])]
  have hkeys : (collect s msg).keys ⊆ B.expected msg.requestId := by
    rw [collect, keys_insert]
    refine Finset.insert_subset hstage ?_
    cases hp : s.partialResults msg.requestId with
    | none => simp
    | some p => simpa using (h.partials hp).2.2
  have hstore := h.storePartials hlive hcard hkeys
  have hstream : putStream (Omni.Coordinator.storePartials s msg.requestId (collect s msg))
      msg.requestId (.complete msg) =
        Omni.Coordinator.storePartials s msg.requestId (collect s msg) :=
    putStream_of_none (hstore.noStream _) _
  by_cases hall : B.expected msg.requestId ⊆ (collect s msg).keys
  · have hconcludes : concludes cfg s msg := by
      refine ⟨by rw [hexpected]; exact Or.inr hstage, Or.inr ?_⟩
      rwa [hexpected, ← keys_insert]
    have hmarked : Agrees ((Omni.Coordinator.storePartials s msg.requestId
        (collect s msg)).updateInfo c fun i => { i with
          state := .completed, result := some (.merged (collect s msg)) }) _ :=
      hstore.updateInfo c fun _ => rfl
    have hend := hmarked.finish (r := msg.requestId)
      (o := .returns (.merged (collect s msg)))
      (fun d hd => by
        rw [hlive, Option.some.injEq] at hd
        simpa only [updateInfo_calls, storePartials_calls, ← hd] using hphase hconcludes)
      (fun k => by simp)
    rw [handleSuccess_merged (by rwa [hexpected]) (by rwa [hexpected])
      (by rw [hexpected]; exact fun hlt => hlt.2 hall), hstream]
    simp only [Book.complete, if_neg hignored, if_neg hsingle, ← hcollect, if_pos hall]
    refine hend.congr_book rfl rfl rfl fun r' _ => ?_
    by_cases hr : r' = msg.requestId <;> simp [Book.settle, hr]
  · rw [handleSuccess_waiting (by rwa [hexpected]) (by rwa [hexpected])
      (by rw [hexpected]; exact ⟨hkeys, hall⟩), hstream]
    simpa only [Book.complete, if_neg hignored, if_neg hsingle, ← hcollect, if_neg hall]
      using hstore

/-- Under the agreement the fatal error reaches exactly the live requests. -/
theorem Agrees.failCall_future (h : Agrees s B) (message : String) (d : ℕ) :
    (failCall s message d).future =
      if B.ledger.isLive d then .exception (.runtimeError message) else (s.calls d).future := by
  have hiff : ((s.requests (s.calls d).requestId).isSome ∧
      s.completionFutures (s.calls d).requestId = some d ∧ (s.calls d).future.done = false) ↔
      B.ledger.isLive d = true := by
    rw [B.ledger.isLive_iff, h.requests]
    constructor
    · rintro ⟨_, hreg, hdone⟩
      rcases B.ledger.live_of_key (h.registered hreg) with hlive | hverdict
      · exact ⟨_, hlive⟩
      · obtain ⟨o, ho⟩ := Option.ne_none_iff_exists'.mp hverdict
        rw [(h.settled ho).1] at hdone
        cases o <;> simp [Outcome.future, Future.done] at hdone
    · rintro ⟨r, hlive⟩
      obtain ⟨hreg, hpending⟩ := h.live hlive
      obtain rfl := (h.key (B.ledger.key_of_live hlive)).1
      exact ⟨by simp [hlive], hreg, by simp [hpending, Future.done]⟩
  have hstream := h.noStream (s.calls d).requestId
  by_cases hlive : B.ledger.isLive d = true
  · simp [failCall, hiff.mpr hlive, hlive, hstream]
  · simp only [failCall, hstream, if_neg hlive, if_neg (mt hiff.mp hlive)]

/-- The fatal error settles every live request. -/
theorem Agrees.failPendingRequests (h : Agrees s B) (message : String)
    (hphase : ∀ c, (s.calls c).phase ≠ .submitting) :
    Agrees (failPendingRequests s message) (B.record (.fatal message)) := by
  have hsame : ∀ d, SameCaller (s.calls d) (failCall s message d) := by
    intro d
    refine ⟨rfl, rfl, rfl, ?_⟩
    simp only [failCall]
    split_ifs <;> rfl
  exact { h with
    requests := rfl
    partials := fun hp => by simp [Omni.Coordinator.failPendingRequests] at hp
    collected := fun hlive => absurd rfl hlive
    expected := fun hlive => by simp [Book.record, Ledger.settleAll] at hlive
    live := fun hlive => by simp [Book.record, Ledger.settleAll] at hlive
    key := fun {r d} hkey => by
      have hd := h.key hkey
      exact ⟨(hsame d).requestId.trans hd.1, fun hidle => hd.2 ((hsame d).phase ▸ hidle)⟩
    settled := fun {d o} hverdict => by
      simp only [Book.record, Ledger.settleAll] at hverdict
      rw [Omni.Coordinator.failPendingRequests, h.failCall_future]
      by_cases hlive : B.ledger.isLive d = true
      · simp only [hlive, if_true, Option.some.injEq] at hverdict
        subst hverdict
        simp [hlive, Outcome.future]
      · simp only [hlive] at hverdict
        simpa [hlive] using h.settled hverdict
    submits := fun d => (hsame d).kind.trans (h.submits d)
    phase := fun d => by
      have hd := h.phase d
      unfold PhaseAgrees at hd ⊢
      simp only [Omni.Coordinator.failPendingRequests, (hsame d).phase, (hsame d).requestId]
      cases hp : (s.calls d).phase with
      | idle => trivial
      | submitting => exact absurd hp (hphase d)
      | awaiting owner => simpa only [hp] using hd
      | receiving expected completed => simp only [hp] at hd
      | yielding expected completed msg => simp only [hp] at hd
      | returned value =>
        rw [hp] at hd
        obtain ⟨o, hverdict, ho⟩ := hd
        exact ⟨o, Ledger.settleAll_final hverdict, ho⟩
      | raised failure =>
        rw [hp] at hd
        rcases hd with hkey | hrefused | hverdict
        · exact Or.inl hkey
        · exact Or.inr (Or.inl hrefused)
        · exact Or.inr (Or.inr (Ledger.settleAll_final hverdict)) }

end Omni.Coordinator
