import Omni.Coordinator.Reach

/-!
# The maps lead to calls of their id

In every reachable state the maps lead from an id to calls made with that id, so
a piece about another id does not change a call. Partial results belong to a
tracked request that waits for several terminal stages.
-/

namespace Omni.Coordinator

open Omni.Transition Function

variable {V Q κ β : Type} {cfg : Config Q} {s t : State V} {a : Action V Q} {c h : ℕ}
  {r id : String} {m : κ → Option β}

/-- The call has been made with the given request id. -/
def Named (s : State V) (c : ℕ) (r : String) : Prop :=
  (s.calls c).requestId = r ∧ (s.calls c).phase ≠ .idle

theorem Named.of_step (hnamed : Named s c r) (hstep : step cfg s a = some t) : Named t c r := by
  obtain ⟨_, hid, _, hmade⟩ := kept_of_step hstep c hnamed.2
  exact ⟨hid.trans hnamed.1, hmade⟩

/-- The maps, and the aborts under way, lead from an id to calls of that id, and
partial results belong to a tracked request that expects them. -/
structure Keyed (s : State V) : Prop where
  registered : ∀ {r c}, Registered s r c → Named s c r
  aborting : ∀ {h r c}, s.handlers h = .aborting r c → Named s c r
  partials : ∀ {r p}, s.partialResults r = some p → ∃ c, s.requests r = some c ∧
    1 < (s.calls c).info.terminalStages.card ∧ p.keys ⊆ (s.calls c).info.terminalStages

theorem keyed_init : Keyed (State.init : State V) where
  registered h := by rcases h with h | h | h <;> simp [State.init] at h
  aborting h := by simp [State.init] at h
  partials h := by simp [State.init] at h

/-- Calls that are registered or held by an abort after a step were so before,
or have just been entered under their own id. -/
theorem Keyed.of_entries (hs : Keyed s) (hstep : step cfg s a = some t)
    (hregistered : ∀ {r c}, Registered t r c → Registered s r c ∨ Named t c r)
    (haborting : ∀ {h r c}, t.handlers h = .aborting r c →
      s.handlers h = .aborting r c ∨ Registered s r c)
    (hpartials : ∀ {r p}, t.partialResults r = some p →
      (s.partialResults r = some p ∧ t.requests r = s.requests r) ∨
      ∃ c, s.requests r = some c ∧ t.requests r = some c ∧
        1 < (s.calls c).info.terminalStages.card ∧
        p.keys ⊆ (s.calls c).info.terminalStages) : Keyed t where
  registered h := by
    rcases hregistered h with hold | hnew
    · exact (hs.registered hold).of_step hstep
    · exact hnew
  aborting h := by
    rcases haborting h with hold | hold
    · exact (hs.aborting hold).of_step hstep
    · exact (hs.registered hold).of_step hstep
  partials {r p} h := by
    have hlift : ∀ {c}, s.requests r = some c →
        (t.calls c).info.terminalStages = (s.calls c).info.terminalStages := by
      intro c hc
      exact (kept_of_step hstep c (hs.registered (Or.inl hc)).2).2.2.1
    rcases hpartials h with ⟨hold, hsame⟩ | ⟨c, hc, hc', hcard, hkeys⟩
    · obtain ⟨c, hc, hcard, hkeys⟩ := hs.partials hold
      exact ⟨c, hsame.trans hc, by rwa [hlift hc], by rwa [hlift hc]⟩
    · exact ⟨c, hc', by rwa [hlift hc], by rwa [hlift hc]⟩

/-- Entries of the map only disappear. -/
def Shrinks {κ β : Type} (m m' : κ → Option β) : Prop := ∀ k, m' k = m k ∨ m' k = none

theorem Shrinks.rfl : Shrinks m m := fun _ => Or.inl (Eq.refl _)

theorem shrinks_update_none [DecidableEq κ] (m : κ → Option β) (k : κ) :
    Shrinks m (update m k none) := by
  intro k'
  by_cases hk : k' = k <;> simp [hk]

theorem Shrinks.some {m' : κ → Option β} (h : Shrinks m m') {k : κ} {b : β} (hb : m' k = some b) :
    m k = some b := by
  rcases h k with heq | hnone
  · rwa [heq] at hb
  · simp [hnone] at hb

/-- A step that enters nothing into the maps keeps them keyed, if partial results
and tracked requests disappear together. -/
theorem Keyed.of_shrinks (hs : Keyed s) (hstep : step cfg s a = some t)
    (hrequests : Shrinks s.requests t.requests)
    (hfutures : Shrinks s.completionFutures t.completionFutures)
    (hqueues : Shrinks s.streamQueues t.streamQueues)
    (hhandlers : ∀ {h r c}, t.handlers h = .aborting r c →
      s.handlers h = .aborting r c ∨ Registered s r c)
    (hpartials : ∀ {r p}, t.partialResults r = some p →
      s.partialResults r = some p ∧ t.requests r = s.requests r) : Keyed t := by
  refine hs.of_entries hstep (fun h => Or.inl ?_) hhandlers fun h => Or.inl (hpartials h)
  rcases h with h | h | h
  · exact Or.inl (hrequests.some h)
  · exact Or.inr (Or.inl (hfutures.some h))
  · exact Or.inr (Or.inr (hqueues.some h))

/-- A step that enters an accepted call into the maps keeps them keyed. -/
theorem Keyed.of_track (hs : Keyed s) (hstep : step cfg s a = some t) (hnamed : Named t c id)
    (hnone : s.requests id = none) (hrequests : t.requests = update s.requests id (some c))
    (hfutures : t.completionFutures = update s.completionFutures id (some c))
    (hqueues : t.streamQueues = s.streamQueues ∨ t.streamQueues = update s.streamQueues id (some c))
    (hpartials : t.partialResults = s.partialResults) (hhandlers : t.handlers = s.handlers) :
    Keyed t := by
  have hentry : ∀ {m : String → Option ℕ} {r d}, update m id (some c) r = some d →
      m r = some d ∨ Named t d r := by
    intro m r d h
    by_cases hr : r = id
    · subst hr
      rw [update_self, Option.some.injEq] at h
      exact Or.inr (h ▸ hnamed)
    · rw [update_of_ne hr] at h
      exact Or.inl h
  refine hs.of_entries hstep (fun {r d} h => ?_) (fun h => Or.inl (by rwa [hhandlers] at h))
    fun {r p} h => ?_
  · rcases h with h | h | h
    · exact (hentry (hrequests ▸ h)).imp_left Or.inl
    · exact (hentry (hfutures ▸ h)).imp_left fun h => Or.inr (Or.inl h)
    · rcases hqueues with hq | hq
      · exact Or.inl (Or.inr (Or.inr (hq ▸ h)))
      · exact (hentry (hq ▸ h)).imp_left fun h => Or.inr (Or.inr h)
  · rw [hpartials] at h
    have hr : r ≠ id := by
      rintro rfl
      obtain ⟨d, hd, _⟩ := hs.partials h
      simp [hnone] at hd
    exact Or.inl ⟨h, by rw [hrequests, update_of_ne hr]⟩

/-- A piece of a call keeps the maps keyed. -/
theorem Keyed.of_own {u : State V} (hs : Keyed s) (hstep : step cfg s a = some t)
    (h : Own u t c id) (hrequests : u.requests = s.requests)
    (hfutures : u.completionFutures = s.completionFutures)
    (hqueues : u.streamQueues = s.streamQueues)
    (hpartials : u.partialResults = s.partialResults) (hhandlers : u.handlers = s.handlers) :
    Keyed t := by
  have hshrinks : ∀ {m m' : String → Option ℕ}, m' = m ∨ m' = update m id none → Shrinks m m' := by
    rintro m m' (rfl | rfl)
    · exact .rfl
    · exact shrinks_update_none _ _
  have hsame : t.requests = s.requests := h.requests.trans hrequests
  refine hs.of_shrinks hstep (hsame ▸ .rfl) (hfutures ▸ hshrinks h.completionFutures)
    (hqueues ▸ hshrinks h.streamQueues) (fun hh => Or.inl ?_) fun hp => ⟨?_, by rw [hsame]⟩
  · rwa [h.handlers, hhandlers] at hh
  · rwa [h.partialResults, hpartials] at hp

theorem handlers_ended {n : ℕ} {answer : Option Bool}
    (hh : update s.handlers n (.ended answer) h = .aborting r c) :
    s.handlers h = .aborting r c := by
  by_cases hn : h = n
  · simp [hn] at hh
  · rwa [update_of_ne hn] at hh

theorem partials_dropped {p : Finmap fun _ : String => Option V}
    (hp : update s.partialResults id none r = some p) :
    s.partialResults r = some p ∧ update s.requests id none r = s.requests r := by
  by_cases hr : r = id
  · simp [hr] at hp
  · rw [update_of_ne hr] at hp ⊢
    exact ⟨hp, rfl⟩

theorem Keyed.of_success {msg : CompleteMessage V} (hs : Keyed s) (hidle : s.handlers h = .idle)
    (hc : s.requests msg.requestId = some c) (hsuccess : msg.success = true) :
    Keyed ((handleSuccess cfg s c msg).setHandler h (.ended none)) := by
  have hstep : step cfg s (.complete h msg : Action V Q) =
      some ((handleSuccess cfg s c msg).setHandler h (.ended none)) := by
    simp [step, hidle, handleCompletion, hc, hsuccess]
  have hexpected : expectedTerminalStages cfg s msg.requestId =
      (s.calls c).info.terminalStages := by
    simp [expectedTerminalStages, hc]
  by_cases hignored : expectedTerminalStages cfg s msg.requestId ≠ ∅ ∧
      msg.fromStage ∉ expectedTerminalStages cfg s msg.requestId
  · rw [handleSuccess_ignored hignored.1 hignored.2] at hstep ⊢
    exact hs.of_shrinks hstep .rfl .rfl .rfl (fun hh => Or.inl (handlers_ended hh))
      fun hp => ⟨hp, rfl⟩
  by_cases hcard : (expectedTerminalStages cfg s msg.requestId).card ≤ 1
  · rw [handleSuccess_single (by tauto) hcard] at hstep ⊢
    refine hs.of_shrinks hstep (shrinks_update_none _ _) (by simpa using .rfl)
      (by simpa using .rfl) (fun hh => Or.inl (handlers_ended (by simpa using hh)))
      fun {r p} hp => ?_
    have hold : s.partialResults r = some p := by simpa using hp
    -- a request that expects one stage has no partial results
    have hr : r ≠ msg.requestId := by
      rintro rfl
      obtain ⟨d, hd, hmany, _⟩ := hs.partials hold
      rw [hc, Option.some.injEq] at hd
      rw [hexpected, hd] at hcard
      omega
    exact ⟨hold, by simp [hr]⟩
  have hmany : 1 < (expectedTerminalStages cfg s msg.requestId).card := by omega
  have hstage : msg.fromStage ∈ expectedTerminalStages cfg s msg.requestId := by
    by_contra hnot
    refine hignored ⟨?_, hnot⟩
    rintro hempty
    simp [hempty] at hmany
  by_cases hmissing : (collect s msg).keys ⊂ expectedTerminalStages cfg s msg.requestId
  · rw [handleSuccess_waiting hstage hmany hmissing] at hstep ⊢
    refine hs.of_entries hstep (fun {r d} hr => Or.inl ?_)
      (fun hh => Or.inl (handlers_ended (by simpa [storePartials] using hh))) fun {r p} hp => ?_
    · simpa [Registered, storePartials] using hr
    · by_cases hr : r = msg.requestId
      · subst hr
        have hcollect : collect s msg = p := by
          simpa [storePartials] using hp
        exact Or.inr ⟨c, hc, by simpa [storePartials] using hc, hexpected ▸ hmany,
          hexpected ▸ hcollect ▸ hmissing.1⟩
      · left
        simpa [storePartials, hr] using hp
  · rw [handleSuccess_merged hstage hmany hmissing] at hstep ⊢
    refine hs.of_shrinks hstep ?_ ?_ ?_ (fun hh => Or.inl (handlers_ended (by
      simpa [storePartials] using hh))) fun {r p} hp => ?_
    · simpa [storePartials] using shrinks_update_none _ _
    · simpa [storePartials] using .rfl
    · simpa [storePartials] using .rfl
    · have hr : r ≠ msg.requestId := by
        rintro rfl
        simp at hp
      simpa [storePartials, hr] using hp

theorem Keyed.step (hs : Keyed s) (hstep : step cfg s a = some t) : Keyed t := by
  have hmoves := moves_of_step hstep
  cases hmoves with
  | own c id hcaller hid h => exact hs.of_own hstep h rfl rfl rfl rfl rfl
  | track c id hcaller hid hidle hnone hcalls hnew hrequests hfutures hqueues hpartials hhandlers =>
    exact hs.of_track hstep hnew hnone hrequests hfutures hqueues hpartials hhandlers
  | running c k hk h => exact hs.of_own hstep h rfl rfl rfl rfl rfl
  | handler n handler haborting =>
    refine hs.of_shrinks hstep .rfl .rfl .rfl (fun {h' r d} hh => ?_) fun hp => ⟨hp, rfl⟩
    by_cases hn : h' = n
    · rw [setHandler_handlers, hn, update_self] at hh
      exact Or.inr (Or.inl (haborting r d hh))
    · exact Or.inl (by simpa [hn] using hh)
  | success n c msg hidle hc hsuccess => exact hs.of_success hidle hc hsuccess
  | failing n c msg hc =>
    refine hs.of_shrinks hstep .rfl .rfl .rfl (fun {h' r d} hh => Or.inl ?_) fun hp => ⟨hp, rfl⟩
    by_cases hn : h' = n
    · simp [hn] at hh
    · simpa [hn] using hh
  | aborted n info id hhandler =>
    unfold abortBroadcast at hstep ⊢
    dsimp only at hstep ⊢
    exact hs.of_shrinks hstep (by simpa using shrinks_update_none _ _) (by simpa using .rfl)
      (by simpa using .rfl) (fun hh => Or.inl (handlers_ended (by simpa using hh)))
      fun hp => by simpa using partials_dropped (by simpa using hp)
  | failed n msg hhandler =>
    unfold failureBroadcast at hstep ⊢
    dsimp only at hstep ⊢
    exact hs.of_shrinks hstep (by simpa using shrinks_update_none _ _) (by simpa using .rfl)
      (by simpa using .rfl) (fun hh => Or.inl (handlers_ended (by simpa using hh)))
      fun hp => by simpa using partials_dropped (by simpa using hp)
  | chunk msg =>
    unfold handleStream at hstep ⊢
    exact hs.of_shrinks hstep (by simpa using .rfl) (by simpa using .rfl) (by simpa using .rfl)
      (fun h => Or.inl (by simpa using h)) fun h => ⟨by simpa using h, by simp⟩
  | failPending message =>
    exact hs.of_shrinks hstep (fun _ => Or.inr rfl) .rfl .rfl Or.inl
      fun h => by simp [failPendingRequests] at h
  | registerStage name => exact hs.of_shrinks hstep .rfl .rfl .rfl Or.inl fun h => ⟨h, rfl⟩

theorem keyed_of_reachable (hs : Reachable cfg s) : Keyed s := by
  obtain ⟨as, hrun⟩ := hs
  exact hrun.invariant (fun _ _ _ h _ hstep => h.step hstep) keyed_init

/-- A piece about another id does not change a call. -/
theorem Keyed.calls_of_elsewhere (hs : Keyed s) (hnamed : Named s c r) (helse : Elsewhere r s a)
    (hstep : Omni.Coordinator.step cfg s a = some t) : t.calls c = s.calls c := by
  refine calls_of_step hstep ?_
  rintro (hcaller | ⟨id, hid, hregistered⟩ | ⟨h, id, rfl, hhandler⟩)
  · cases a with
    | submit d id request =>
      obtain rfl : d = c := Option.some.inj hcaller
      simp only [Omni.Coordinator.step] at hstep
      split at hstep
      next hidle => exact hnamed.2 hidle
      · cases hstep
    | stream d id request =>
      obtain rfl : d = c := Option.some.inj hcaller
      simp only [Omni.Coordinator.step] at hstep
      split at hstep
      next hidle => exact hnamed.2 hidle
      · cases hstep
    | handed d error => exact helse (Option.some.inj hcaller ▸ hnamed.1)
    | wake d => exact helse (Option.some.inj hcaller ▸ hnamed.1)
    | receive d => exact helse (Option.some.inj hcaller ▸ hnamed.1)
    | resume d => exact helse (Option.some.inj hcaller ▸ hnamed.1)
    | abort h id => cases hcaller
    | complete h msg => cases hcaller
    | broadcast h => cases hcaller
    | chunk msg => cases hcaller
    | failPending message => cases hcaller
    | registerStage name => cases hcaller
  · obtain rfl := (hs.registered hregistered).1.symm.trans hnamed.1
    exact helse hid
  · obtain rfl := (hs.aborting hhandler).1.symm.trans hnamed.1
    exact helse (by simp [Action.concerns, hhandler])

/-- Calls of an id stay so, and no run about other ids changes them. -/
theorem Keyed.calls_of_run {as : List (Action V Q)} (hs : Keyed s)
    (hrun : Run (Omni.Coordinator.step cfg) (Elsewhere r) s as t) (hnamed : Named s c r) :
    Keyed t ∧ Named t c r ∧ t.calls c = s.calls c := by
  refine hrun.invariant (I := fun u => Keyed u ∧ Named u c r ∧ u.calls c = s.calls c)
    (fun u a v h helse hstep => ?_) ⟨hs, hnamed, rfl⟩
  obtain ⟨hkeyed, hnamed', hcalls⟩ := h
  exact ⟨hkeyed.step hstep, hnamed'.of_step hstep,
    (hkeyed.calls_of_elsewhere hnamed' helse hstep).trans hcalls⟩

/-- **Requests do not interfere.** Whatever happens about other ids, in any order, the maps have the
same entries for an id, and the calls made with it are as they were. -/
theorem requests_do_not_interfere {as : List (Action V Q)} (hs : Reachable cfg s)
    (hrun : Run (step cfg) (Elsewhere r) s as t) :
    SameEntries s t r ∧ ∀ c, Named s c r → t.calls c = s.calls c :=
  ⟨sameEntries_of_run hrun, fun _ hnamed =>
    ((keyed_of_reachable hs).calls_of_run hrun hnamed).2.2⟩

/-- A request is submitted, completed and aborted while another one waits. -/
theorem requests_do_not_interfere_two : ∃ s t : State ℕ, s.requests "r" = some 0 ∧
    t.requests "q" = none ∧ SameEntries s t "r" ∧ ∀ c, Named s c "r" → t.calls c = s.calls c := by
  have hrun : Run (step oneTerminal) (Elsewhere "r") (submit oneTerminal
      { (State.init : State ℕ) with stages := insert "preprocessing" ∅ } 0 "r" ())
      [.submit 1 "q" (), .handed 1 none, .abort 0 "q", .broadcast 0] _ :=
    .cons (by decide : "q" ≠ "r") rfl <| .cons (by decide : "q" ≠ "r") rfl <|
      .cons (by decide : "q" ≠ "r") rfl <| .single (by decide : "q" ≠ "r") rfl
  exact ⟨_, _, rfl, rfl, requests_do_not_interfere
    ⟨[.registerStage "preprocessing", .submit 0 "r" ()], run_of_exec rfl⟩ hrun⟩

end Omni.Coordinator
