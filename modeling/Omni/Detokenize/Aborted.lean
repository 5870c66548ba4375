import Omni.Detokenize.Scheduler

/-!
# What is left of an aborted request

A handler creates a state, or notes the end of a stream, also for a request that has been aborted.
What is left is decided by the last message of the request that is handled.
-/

namespace Omni.Detokenize

open Transition Option List

variable {ι P R ε : Type} [DecidableEq ι] {s' : State ι P R ε} {work : Work ι P ε}
  {state : RequestState P} {r' : ι} {token : ℕ} {payload : P} {a : Action ι P ε}

/-- The scheduler holds nothing of a request. -/
def Nothing (r : ι) (s : State ι P R ε) : Prop :=
  s.states.get r = none ∧ s.doneSeen.get r = none

/-- A message of the request waits. -/
def Waits (r : ι) (inbox : List (ι × IncomingMessage P ε)) : Prop := ∃ entry ∈ inbox, entry.1 = r

/-- The request has been aborted, and `abort` has returned. -/
def Returned (r : ι) (s : State ι P R ε) : Prop := r ∈ s.aborted ∧ s.aborting ≠ some r

/-- All messages of an aborted request have been handled. -/
def Settled (r : ι) (s : State ι P R ε) : Prop :=
  Returned r s ∧ ¬Waits r s.inbox ∧ s.work.request ≠ some r

/-- What has been put out for a request. -/
def messagesOf (r : ι) (s : State ι P R ε) : List (OutgoingMessage ι R ε) :=
  s.outbox.filter fun m => m.requestId = r

/-- The tokenizer raises. -/
def Raises (d : Detokenizer P R ε) (tokens : List ℕ) : Prop := ∃ exc, d.decode tokens = .error exc

/-- A message removes the state of its request: it raises, it is the payload of a request that does
not stream, or it is the later one of payload and end of the stream. -/
def Clears (d : Detokenizer P R ε) (s : State ι P R ε) (r : ι) : IncomingMessage P ε → Prop
  | .streamChunk (.error _) => True
  | .streamChunk (.ok token) =>
    Raises d (((s.states.get r).map (·.pendingTokens)).getD [] ++ [token])
  | .newRequest payload =>
    d.isStreaming payload = false ∨ s.doneSeen.get r ≠ none ∨
      ∃ state, s.states.get r = some state ∧ state.done = true
  | .streamDone => ∃ state, s.states.get r = some state ∧ state.payload ≠ none

/-- The last message of an aborted request removes its state when its handling begins, and `abort`
returns without a new state between its two `pop`s. -/
def Contained (d : Detokenizer P R ε) (s : State ι P R ε) : Action ι P ε → Prop
  | .take => ∀ r msg rest, s.inbox = (r, msg) :: rest → Returned r s → ¬Waits r rest →
      Clears d s r msg
  | .abortReturns => ∀ r, s.aborting = some r → ¬Waits r s.inbox →
      s.states.get r = none ∧
        ∀ msg, s.work = .start r msg → Clears d { s with doneSeen := s.doneSeen.pop r } r msg
  | _ => True

/-- A handler of a request touches this request only, apart from evictions. -/
structure Local (d : Detokenizer P R ε) (nowMs : ℤ) (r : ι) (s s' : State ι P R ε) : Prop where
  inbox : s'.inbox = s.inbox
  aborted : s'.aborted = s.aborted
  aborting : s'.aborting = s.aborting
  states : ∃ kept : Dict ι (RequestState P), kept ⊆ s.states ∧
    (∀ r', s.Spares d nowMs r' → kept.get r' = s.states.get r') ∧
    ∀ r', r' ≠ r → s'.states.get r' = kept.get r'
  doneSeen : ∀ r', r' ≠ r → s.doneSeen.get r' = none → s'.doneSeen.get r' = none
  outbox : ∃ messages, s'.outbox = s.outbox ++ messages ∧ ∀ m ∈ messages, m.requestId = r
  work : s'.work.request = none ∨ s'.work.request = some r

variable {d : Detokenizer P R ε} {r : ι} {s : State ι P R ε}

theorem Local.nothing {nowMs : ℤ} (hlocal : Local d nowMs r s s') (hne : r' ≠ r)
    (hnothing : Nothing r' s) : Nothing r' s' := by
  obtain ⟨kept, hsub, -, hstates⟩ := hlocal.states
  refine ⟨?_, hlocal.doneSeen r' hne hnothing.2⟩
  rw [hstates r' hne]
  exact Dict.get_eq_none_of_subset hsub hnothing.1

section Handlers

variable {r : ι} {d : Detokenizer P R ε} {nowMs : ℤ} {s : State ι P R ε}

/-- Steps that touch the states. -/
theorem local_states {states : Dict ι (RequestState P)}
    (hstates : ∀ r', r' ≠ r → states.get r' = s.states.get r')
    (hwork : work.request = none ∨ work.request = some r) :
    Local d nowMs r s { s with states := states, work := work } where
  inbox := rfl
  aborted := rfl
  aborting := rfl
  states := ⟨s.states, List.Subset.refl _, fun _ _ => rfl, hstates⟩
  doneSeen _ _ hget := hget
  outbox := ⟨[], (append_nil _).symm, by simp⟩
  work := hwork

theorem local_doneSeen {doneSeen : Dict ι Unit}
    (hdone : ∀ r', r' ≠ r → s.doneSeen.get r' = none → doneSeen.get r' = none)
    (hwork : work.request = none ∨ work.request = some r) :
    Local d nowMs r s { s with doneSeen := doneSeen, work := work } where
  inbox := rfl
  aborted := rfl
  aborting := rfl
  states := ⟨s.states, List.Subset.refl _, fun _ _ => rfl, fun _ _ => rfl⟩
  doneSeen := hdone
  outbox := ⟨[], (append_nil _).symm, by simp⟩
  work := hwork

/-- Steps that only go on. -/
theorem local_work (hwork : work.request = none ∨ work.request = some r) :
    Local d nowMs r s { s with work := work } :=
  local_states (fun _ _ => rfl) hwork

theorem local_put {m : OutgoingMessage ι R ε} (hm : m.requestId = r)
    (hwork : work.request = none ∨ work.request = some r) :
    Local d nowMs r s (s.put m work) where
  inbox := rfl
  aborted := rfl
  aborting := rfl
  states := ⟨s.states, List.Subset.refl _, fun _ _ => rfl, fun _ _ => rfl⟩
  doneSeen _ _ hget := hget
  outbox := ⟨[m], rfl, by simpa using hm⟩
  work := hwork

theorem get_update_ne (hne : r' ≠ r) (state : RequestState P) :
    (s.update r state).states.get r' = s.states.get r' := by
  unfold State.update
  split
  · rfl
  · exact Dict.get_set_ne hne ..

/-- Steps that set fields of the handler's state. -/
theorem local_update (hwork : work.request = none ∨ work.request = some r) :
    Local d nowMs r s { s.update r state with work := work } :=
  local_states (fun _ hne => get_update_ne hne state) hwork

theorem local_ensureState (use : Use P) :
    Local d nowMs r s (s.ensureState r nowMs use) := by
  unfold State.ensureState
  split
  · cases use <;> exact local_update (.inr rfl)
  · exact local_states (fun _ hne => Dict.get_set_ne hne ..) (.inr rfl)

theorem local_begin (msg : IncomingMessage P ε) : Local d nowMs r s (s.begin r nowMs msg) := by
  rcases msg with payload | (exc | token) | -
  · exact local_ensureState _
  · exact local_work (.inr rfl)
  · exact local_ensureState _
  · unfold State.begin State.onStreamDone
    dsimp only
    split
    · exact local_doneSeen (fun _ hne hget => (Dict.get_set_ne hne ..).trans hget) (.inr rfl)
    · refine local_update ?_
      split
      · exact .inr rfl
      · exact .inl rfl

theorem local_decodePending :
    Local d nowMs r s (s.decodePending d r token state) := by
  unfold State.decodePending
  dsimp only
  split
  · exact local_update (.inr rfl)
  · split
    · exact local_update (.inl rfl)
    · refine local_update ?_
      split
      · exact .inl rfl
      · exact .inr rfl

theorem local_arrive :
    Local d nowMs r s (s.arrive d r payload state) := by
  unfold State.arrive
  split
  · exact local_update (.inr rfl)
  · refine local_update ?_
    split
    · exact .inr rfl
    · exact .inl rfl

theorem checkOrphans_spec {t : State ι P R ε} (h : s.checkOrphans d nowMs = some t) :
    ∃ states, states ⊆ s.states ∧ (∀ r', s.Spares d nowMs r' → states.get r' = s.states.get r') ∧
      t = { s with states := states } := by
  unfold State.checkOrphans at h
  split at h
  · exact ⟨s.states, List.Subset.refl _, fun _ _ => rfl, (some.inj h).symm⟩
  next stateMax idleMs horphans =>
    split at h
    next hmany =>
      split at h
      · cases h
      · refine ⟨_, filter_sublist.subset, fun r' hspares => ?_, (some.inj h).symm⟩
        refine Dict.get_filter fun entry hentry hkey => ?_
        rw [hspares stateMax idleMs horphans hmany entry hentry hkey]
        rfl
    · exact ⟨s.states, List.Subset.refl _, fun _ _ => rfl, (some.inj h).symm⟩

/-- **Steps of a handler.** -/
theorem local_handle (hwork : work.request = some r) (h : s.handle d nowMs work = some s') :
    Local d nowMs r s s' := by
  cases work <;> simp only [Work.request, Option.some.injEq, reduceCtorEq] at hwork <;> subst hwork
  case start r msg =>
    obtain rfl := some.inj h
    exact local_begin msg
  case inserted r use =>
    obtain ⟨t, ht, rfl⟩ := map_eq_some_iff.1 h
    obtain ⟨states, hsub, hspares, rfl⟩ := checkOrphans_spec ht
    cases use <;>
      exact ⟨rfl, rfl, rfl, ⟨states, hsub, hspares, fun _ hne => get_update_ne hne _⟩,
        fun _ _ hget => hget, ⟨[], (append_nil _).symm, by simp⟩, .inr rfl⟩
  case decode r token state =>
    obtain rfl := some.inj h
    exact local_decodePending
  case delta r text =>
    obtain rfl := some.inj h
    exact local_put rfl (.inl rfl)
  case arrived r payload state =>
    obtain rfl := some.inj h
    exact local_arrive
  case unlatch r =>
    obtain rfl := some.inj h
    exact local_doneSeen (fun _ hne hget => (Dict.get_pop_ne hne _).trans hget) (.inr rfl)
  case latched r =>
    rw [State.handle] at h
    split at h
    · obtain rfl := some.inj h
      exact local_work (.inr rfl)
    · obtain rfl := some.inj h
      exact local_work (.inl rfl)
  case evictDone r excess =>
    have hdrop (n : ℕ) : ∀ r', r' ≠ r → s.doneSeen.get r' = none →
        Dict.get r' (s.doneSeen.drop n) = none :=
      fun _ _ => Dict.get_eq_none_of_subset (drop_subset ..)
    rw [State.handle, State.evictDoneSeen.eq_def] at h
    split at h
    · split at h
      · cases h
      · obtain rfl := some.inj h
        exact local_doneSeen (hdrop _) (.inl rfl)
    · cases excess with
      | zero =>
        obtain rfl := some.inj h
        exact local_work (.inl rfl)
      | succ excess =>
        obtain rfl := some.inj h
        exact local_doneSeen (hdrop 1) (.inr rfl)
  case finalize r =>
    obtain rfl := some.inj h
    exact local_states (fun _ hne => Dict.get_pop_ne hne _) (.inr rfl)
  case finalized r state =>
    obtain rfl := some.inj h
    refine local_doneSeen (fun _ hne hget => (Dict.get_pop_ne hne _).trans hget) ?_
    split
    · exact .inl rfl
    · split
      · exact .inl rfl
      · exact .inr rfl
  case flush r payload pendingTokens =>
    rw [State.handle] at h
    split at h
    · obtain rfl := some.inj h
      exact local_work (.inr rfl)
    · split at h
      · obtain rfl := some.inj h
        exact local_work (.inr rfl)
      · split at h
        · obtain rfl := some.inj h
          exact local_work (.inr rfl)
        · obtain rfl := some.inj h
          exact local_put rfl (.inr rfl)
  case build r payload =>
    rw [State.handle] at h
    split at h
    · obtain rfl := some.inj h
      exact local_work (.inr rfl)
    · obtain rfl := some.inj h
      exact local_put rfl (.inl rfl)
  case raised r exc =>
    obtain rfl := some.inj h
    exact local_states (fun _ hne => Dict.get_pop_ne hne _) (.inr rfl)
  case unlatchRaised r exc =>
    obtain rfl := some.inj h
    exact local_doneSeen (fun _ hne hget => (Dict.get_pop_ne hne _).trans hget) (.inr rfl)
  case report r exc =>
    obtain rfl := some.inj h
    exact local_put rfl (.inl rfl)

end Handlers

/-- What the handler of the last message of an aborted request has before it leaves nothing. -/
def LeavesNothing (d : Detokenizer P R ε) (r : ι) (s : State ι P R ε) : Work ι P ε → Prop
  | .start _ msg => Clears d s r msg
  | .inserted _ (.chunk token) => Raises d [token] ∨ Nothing r s
  | .inserted _ (.payload payload) =>
    d.isStreaming payload = false ∨ s.doneSeen.get r ≠ none ∨ Nothing r s
  | .decode _ token state => Raises d (state.pendingTokens ++ [token]) ∨ Nothing r s
  | .arrived _ payload state =>
    d.isStreaming payload = false ∨ s.doneSeen.get r ≠ none ∨ state.done = true ∨ Nothing r s
  | .unlatch _ => True
  | .finalize _ => True
  | .finalized _ _ => s.states.get r = none
  | .raised _ _ => True
  | .unlatchRaised _ _ => s.states.get r = none
  | _ => Nothing r s

/-- The states of an aborted request when no message of it waits. -/
def Ends (d : Detokenizer P R ε) (r : ι) (s : State ι P R ε) : Prop :=
  (s.work.request = some r → LeavesNothing d r s s.work) ∧ (s.work.request ≠ some r → Nothing r s)

theorem update_of_nothing (hget : s.states.get r = none) (state : RequestState P) :
    s.update r state = s := by
  rw [State.update, hget]
  rfl

theorem leavesNothing_of_nothing (hnothing : Nothing r s) (hbegun : ∀ msg, work ≠ .start r msg)
    (hwork : work.request = some r) :
    LeavesNothing d r s work := by
  cases work with
  | start r' msg =>
    obtain rfl : r' = r := some.inj hwork
    exact absurd rfl (hbegun msg)
  | inserted r' use =>
    cases use with
    | chunk token => exact .inr hnothing
    | payload payload => exact .inr (.inr hnothing)
  | decode r' token state => exact .inr hnothing
  | arrived r' payload state => exact .inr (.inr (.inr hnothing))
  | unlatch r' => trivial
  | finalize r' => trivial
  | finalized r' state => exact hnothing.1
  | raised r' exc => trivial
  | unlatchRaised r' exc => exact hnothing.1
  | idle => exact hnothing
  | delta r' text => exact hnothing
  | latched r' => exact hnothing
  | evictDone r' excess => exact hnothing
  | flush r' payload tokens => exact hnothing
  | build r' payload => exact hnothing
  | report r' exc => exact hnothing

theorem Ends.of_nothing (hnothing : Nothing r s) (hbegun : ∀ msg, s.work ≠ .start r msg) :
    Ends d r s :=
  ⟨leavesNothing_of_nothing hnothing hbegun, fun _ => hnothing⟩

theorem Ends.of_leaves (hwork : s.work.request = some r) (hleaves : LeavesNothing d r s s.work) :
    Ends d r s :=
  ⟨fun _ => hleaves, fun hne => absurd hwork hne⟩

section Last

variable {d : Detokenizer P R ε} {r : ι} {s : State ι P R ε}

/-- The handling of a message that removes the state begins. -/
theorem ends_begin (nowMs : ℤ) {msg : IncomingMessage P ε} (hclears : Clears d s r msg) :
    Ends d r (s.begin r nowMs msg) := by
  rcases msg with payload | (exc | token) | -
  · rw [State.begin, State.ensureState]
    split
    next state hget =>
      refine .of_leaves rfl ?_
      rcases hclears with hnot | hseen | ⟨state', hget', hdone⟩
      · exact .inl hnot
      · exact .inr (.inl hseen)
      · obtain rfl := some.inj (hget.symm.trans hget')
        exact .inr (.inr (.inl hdone))
    next hget =>
      refine .of_leaves rfl ?_
      rcases hclears with hnot | hseen | ⟨state', hget', -⟩
      · exact .inl hnot
      · exact .inr (.inl hseen)
      · rw [hget] at hget'
        cases hget'
  · exact .of_leaves rfl trivial
  · rw [State.begin, State.ensureState]
    have hraises : Raises d (((s.states.get r).map (·.pendingTokens)).getD [] ++ [token]) := hclears
    split
    next state hget =>
      rw [hget] at hraises
      exact .of_leaves rfl (.inl hraises)
    next hget =>
      rw [hget] at hraises
      exact .of_leaves rfl (.inl hraises)
  · obtain ⟨state, hget, hpayload⟩ := hclears
    rw [State.begin, State.onStreamDone, hget]
    dsimp only
    rw [if_pos (by simpa [isSome_iff_ne_none] using hpayload)]
    exact .of_leaves rfl trivial

theorem ends_use (nowMs : ℤ) {use : Use P} (hleaves : match use with
      | .chunk token => Raises d (state.pendingTokens ++ [token]) ∨ Nothing r s
      | .payload payload => d.isStreaming payload = false ∨ s.doneSeen.get r ≠ none ∨ Nothing r s) :
    Ends d r (s.use r state nowMs use) := by
  cases use with
  | chunk token =>
    refine .of_leaves rfl (hleaves.imp_right fun hnothing => ?_)
    rw [State.use, update_of_nothing hnothing.1]
    exact hnothing
  | payload payload =>
    refine .of_leaves rfl (hleaves.imp_right (Or.imp_right fun hnothing => .inr ?_))
    rw [State.use, update_of_nothing hnothing.1]
    exact hnothing

theorem ends_decodePending (hleaves : Raises d (state.pendingTokens ++ [token]) ∨ Nothing r s) :
    Ends d r (s.decodePending d r token state) := by
  rw [State.decodePending]
  rcases hleaves with ⟨exc, hraises⟩ | hnothing
  · rw [hraises]
    exact .of_leaves rfl trivial
  · simp only [update_of_nothing hnothing.1]
    split
    · exact .of_leaves rfl trivial
    · split
      · exact .of_nothing hnothing (by simp)
      · refine .of_nothing hnothing fun msg => ?_
        split <;> simp

theorem ends_arrive
    (hleaves : d.isStreaming payload = false ∨ s.doneSeen.get r ≠ none ∨ state.done = true ∨
      Nothing r s) :
    Ends d r (s.arrive d r payload state) := by
  unfold State.arrive
  split
  · exact .of_leaves rfl trivial
  next hseen =>
    by_cases hfinal : (state.done || !d.isStreaming payload) = true
    · rw [if_pos hfinal]
      exact .of_leaves rfl trivial
    · rw [if_neg hfinal]
      have hnothing : Nothing r s := by
        rcases hleaves with hnot | hsome | hdone | hnothing
        · simp [hnot] at hfinal
        · exact absurd hseen hsome
        · simp [hdone] at hfinal
        · exact hnothing
      refine .of_nothing ?_ (by simp)
      rw [update_of_nothing hnothing.1]
      exact hnothing

theorem ends_handle {nowMs : ℤ} (hwork : work.request = some r) (hleaves : LeavesNothing d r s work)
    (h : s.handle d nowMs work = some s') : Ends d r s' := by
  cases work <;> simp only [Work.request, Option.some.injEq, reduceCtorEq] at hwork <;> subst hwork
  case start r msg =>
    obtain rfl := some.inj h
    exact ends_begin nowMs hleaves
  case inserted r use =>
    obtain ⟨t, ht, rfl⟩ := map_eq_some_iff.1 h
    obtain ⟨states, hsub, -, rfl⟩ := checkOrphans_spec ht
    have hkept (hnothing : Nothing r s) : Nothing r { s with states := states } :=
      ⟨Dict.get_eq_none_of_subset hsub hnothing.1, hnothing.2⟩
    refine ends_use nowMs ?_
    cases use with
    | chunk token => exact hleaves.imp_right hkept
    | payload payload => exact hleaves.imp_right (Or.imp_right hkept)
  case decode r token state =>
    obtain rfl := some.inj h
    exact ends_decodePending hleaves
  case arrived r payload state =>
    obtain rfl := some.inj h
    exact ends_arrive hleaves
  case unlatch r =>
    obtain rfl := some.inj h
    exact .of_leaves rfl trivial
  case finalize r =>
    obtain rfl := some.inj h
    exact .of_leaves rfl (Dict.get_pop_self ..)
  case finalized r state =>
    obtain rfl := some.inj h
    refine .of_nothing ⟨hleaves, Dict.get_pop_self ..⟩ fun msg => ?_
    unfold State.finalizeWith
    split
    · simp
    · split <;> simp
  case raised r exc =>
    obtain rfl := some.inj h
    exact .of_leaves rfl (Dict.get_pop_self ..)
  case unlatchRaised r exc =>
    obtain rfl := some.inj h
    exact .of_nothing ⟨hleaves, Dict.get_pop_self ..⟩ (by simp)
  case delta r text =>
    obtain rfl := some.inj h
    exact .of_nothing hleaves (by simp [State.put])
  case report r exc =>
    obtain rfl := some.inj h
    exact .of_nothing hleaves (by simp [State.put])
  case latched r =>
    rw [State.handle] at h
    split at h
    · obtain rfl := some.inj h
      exact .of_nothing hleaves (by simp)
    · obtain rfl := some.inj h
      exact .of_nothing hleaves (by simp)
  case evictDone r excess =>
    have hdrop (n : ℕ) (work : Work ι P ε) :
        Nothing r { s with doneSeen := s.doneSeen.drop n, work := work } :=
      ⟨hleaves.1, Dict.get_eq_none_of_subset (drop_subset ..) hleaves.2⟩
    rw [State.handle, State.evictDoneSeen.eq_def] at h
    split at h
    · split at h
      · cases h
      · obtain rfl := some.inj h
        exact .of_nothing (hdrop _ _) (by simp)
    · cases excess with
      | zero =>
        obtain rfl := some.inj h
        exact .of_nothing hleaves (by simp)
      | succ excess =>
        obtain rfl := some.inj h
        exact .of_nothing (hdrop 1 _) (by simp)
  case flush r payload pendingTokens =>
    rw [State.handle] at h
    split at h
    · obtain rfl := some.inj h
      exact .of_nothing hleaves (by simp)
    · split at h
      · obtain rfl := some.inj h
        exact .of_leaves rfl trivial
      · split at h
        · obtain rfl := some.inj h
          exact .of_nothing hleaves (by simp)
        · obtain rfl := some.inj h
          exact .of_nothing hleaves (by simp [State.put])
  case build r payload =>
    rw [State.handle] at h
    split at h
    · obtain rfl := some.inj h
      exact .of_leaves rfl trivial
    · obtain rfl := some.inj h
      exact .of_nothing hleaves (by simp [State.put])

end Last

/-- No aborted request without waiting messages keeps anything. -/
def AllEnd (d : Detokenizer P R ε) (s : State ι P R ε) : Prop :=
  ∀ r, Returned r s → ¬Waits r s.inbox → Ends d r s

/-- What is left of a request depends on its entries only. -/
theorem LeavesNothing.congr (hstates : s'.states.get r = s.states.get r)
    (hdone : s'.doneSeen.get r = s.doneSeen.get r) (h : LeavesNothing d r s work) :
    LeavesNothing d r s' work := by
  have hnothing : Nothing r s → Nothing r s' := fun h => ⟨hstates.trans h.1, hdone.trans h.2⟩
  cases work with
  | start r' msg =>
    rcases msg with payload | (exc | token) | -
    · simpa only [LeavesNothing, Clears, hstates, hdone] using h
    · trivial
    · simpa only [LeavesNothing, Clears, hstates] using h
    · simpa only [LeavesNothing, Clears, hstates] using h
  | inserted r' use =>
    cases use with
    | chunk token => exact Or.imp_right hnothing h
    | payload payload =>
      exact Or.imp_right (Or.imp (fun hseen => by rwa [hdone]) hnothing) h
  | decode r' token state => exact Or.imp_right hnothing h
  | arrived r' payload state =>
    exact Or.imp_right (Or.imp (fun hseen => by rwa [hdone]) (Or.imp_right hnothing)) h
  | unlatch r' => trivial
  | finalize r' => trivial
  | finalized r' state => exact hstates.trans h
  | raised r' exc => trivial
  | unlatchRaised r' exc => exact hstates.trans h
  | idle => exact hnothing h
  | delta r' text => exact hnothing h
  | latched r' => exact hnothing h
  | evictDone r' excess => exact hnothing h
  | flush r' payload tokens => exact hnothing h
  | build r' payload => exact hnothing h
  | report r' exc => exact hnothing h

/-- The entries of a request and the handler are the same. -/
theorem Ends.congr (hstates : s'.states.get r = s.states.get r)
    (hdone : s'.doneSeen.get r = s.doneSeen.get r) (hwork : s'.work = s.work) (h : Ends d r s) :
    Ends d r s' := by
  rw [Ends, hwork]
  exact ⟨fun hreq => (h.1 hreq).congr hstates hdone,
    fun hreq => ⟨hstates.trans (h.2 hreq).1, hdone.trans (h.2 hreq).2⟩⟩

theorem allEnd_step (hall : AllEnd d s) (hok : Contained d s a) (hstep : step d s a = some s') :
    AllEnd d s' := by
  intro r hreturned hwaits
  cases a with
  | enqueue r' msg =>
    simp only [step] at hstep
    split at hstep
    · cases hstep
    · cases hstep
      refine (hall r hreturned ?_).congr rfl rfl rfl
      rintro ⟨entry, hentry, rfl⟩
      exact hwaits ⟨entry, mem_append_left _ hentry, rfl⟩
  | take =>
    simp only [step] at hstep
    split at hstep
    next r' msg inbox hidle hinbox =>
      cases hstep
      by_cases hr : r' = r
      · subst hr
        have hleaves : LeavesNothing d r' s (.start r' msg) :=
          hok r' msg inbox hinbox hreturned hwaits
        exact .of_leaves rfl (hleaves.congr rfl rfl)
      · have hbefore : ¬Waits r s.inbox := by
          rw [hinbox]
          rintro ⟨entry, hentry, rfl⟩
          rcases mem_cons.1 hentry with rfl | hentry
          · exact hr rfl
          · exact hwaits ⟨entry, hentry, rfl⟩
        have hnothing := (hall r hreturned hbefore).2 (by simp [hidle, Work.request])
        exact ⟨fun hreq => absurd (some.inj hreq) hr, fun _ => hnothing⟩
    · cases hstep
  | work nowMs =>
    have hhandle : s.handle d nowMs s.work = some s' := hstep
    cases hwork : s.work.request with
    | none =>
      have hidle : s.work = .idle := by
        cases hw : s.work <;> simp [hw, Work.request] at hwork ⊢
      rw [hidle] at hhandle
      cases hhandle
    | some r' =>
      have hlocal := local_handle hwork hhandle
      have hends : Ends d r s := by
        refine hall r ?_ (by rwa [← hlocal.inbox])
        rwa [Returned, ← hlocal.aborted, ← hlocal.aborting]
      by_cases hr : r' = r
      · subst hr
        exact ends_handle hwork (hends.1 hwork) hhandle
      · have hnothing := hends.2 (by simp [hwork, hr])
        refine ⟨fun hreq => ?_, fun _ => hlocal.nothing (Ne.symm hr) hnothing⟩
        rcases hlocal.work with hnone | hsome
        · rw [hnone] at hreq
          cases hreq
        · exact absurd (some.inj (hsome.symm.trans hreq)) hr
  | abort r' =>
    simp only [step] at hstep
    split at hstep
    · cases hstep
    next hnone =>
      cases hstep
      have hr : r ≠ r' := fun hr => hreturned.2 (by rw [hr])
      have hbefore : Returned r s :=
        ⟨(mem_cons.1 hreturned.1).resolve_left hr, by simp [hnone]⟩
      exact (hall r hbefore hwaits).congr (Dict.get_pop_ne hr _) rfl rfl
  | abortReturns =>
    simp only [step] at hstep
    split at hstep
    · cases hstep
    next r' haborting =>
      cases hstep
      by_cases hr : r = r'
      · subst hr
        obtain ⟨hstates, hclears⟩ := hok r haborting hwaits
        by_cases hbegun : ∃ msg, s.work = .start r msg
        · obtain ⟨msg, hmsg⟩ := hbegun
          have hleaves : LeavesNothing d r { s with doneSeen := s.doneSeen.pop r }
              (.start r msg) := hclears msg hmsg
          refine .of_leaves (by simp [hmsg, Work.request]) ?_
          rw [hmsg]
          exact hleaves.congr rfl rfl
        · exact .of_nothing ⟨hstates, Dict.get_pop_self ..⟩ (not_exists.1 hbegun)
      · have hbefore : Returned r s :=
          ⟨hreturned.1, fun h => hr (some.inj (h.symm.trans haborting))⟩
        have hends : Ends d r s := hall r hbefore hwaits
        exact Ends.congr (s := s) rfl (Dict.get_pop_ne hr _) rfl hends

/-- Nothing more happens for a request. -/
structure Quiet (r : ι) (s : State ι P R ε) : Prop where
  aborted : r ∈ s.aborted
  waits : ¬Waits r s.inbox
  work : s.work.request ≠ some r
  nothing : Nothing r s

/-- A request for which nothing more happens stays so, and nothing is put out for it. -/
theorem quiet_step (hquiet : Quiet r s) (hstep : step d s a = some s') :
    Quiet r s' ∧ messagesOf r s' = messagesOf r s := by
  cases a with
  | enqueue r' msg =>
    simp only [step] at hstep
    split at hstep
    · cases hstep
    next hnot =>
      cases hstep
      refine ⟨{ hquiet with waits := ?_ }, rfl⟩
      rintro ⟨entry, hentry, rfl⟩
      rcases mem_append.1 hentry with hentry | hentry
      · exact hquiet.waits ⟨entry, hentry, rfl⟩
      · rw [mem_singleton] at hentry
        subst hentry
        exact hnot hquiet.aborted
  | take =>
    simp only [step] at hstep
    split at hstep
    next r' msg inbox hidle hinbox =>
      cases hstep
      have hr : r' ≠ r := fun hr => hquiet.waits ⟨(r', msg), by simp [hinbox], hr⟩
      refine ⟨⟨hquiet.aborted, ?_, fun hreq => hr (some.inj hreq), hquiet.nothing⟩, rfl⟩
      rintro ⟨entry, hentry, rfl⟩
      exact hquiet.waits ⟨entry, by simp [hinbox, hentry], rfl⟩
    · cases hstep
  | work nowMs =>
    have hhandle : s.handle d nowMs s.work = some s' := hstep
    cases hwork : s.work.request with
    | none =>
      have hidle : s.work = .idle := by
        cases hw : s.work <;> simp [hw, Work.request] at hwork ⊢
      rw [hidle] at hhandle
      cases hhandle
    | some r' =>
      have hlocal := local_handle hwork hhandle
      have hr : r' ≠ r := fun hr => hquiet.work (by rw [hwork, hr])
      refine ⟨⟨?_, ?_, ?_, hlocal.nothing hr.symm hquiet.nothing⟩, ?_⟩
      · rw [hlocal.aborted]
        exact hquiet.aborted
      · rw [hlocal.inbox]
        exact hquiet.waits
      · rcases hlocal.work with hnone | hsome
        · simp [hnone]
        · simp [hsome, hr]
      · obtain ⟨messages, hout, hmessages⟩ := hlocal.outbox
        have hnone : messages.filter (fun m => m.requestId = r) = [] := by
          rw [filter_eq_nil_iff]
          intro m hm
          simp [hmessages m hm, hr]
        rw [messagesOf, hout, filter_append, hnone, append_nil]
        rfl
  | abort r' =>
    simp only [step] at hstep
    split at hstep
    · cases hstep
    · cases hstep
      have hpop : Dict.get r (s.states.pop r') = none :=
        Dict.get_eq_none_of_subset filter_sublist.subset hquiet.nothing.1
      exact ⟨⟨mem_cons_of_mem _ hquiet.aborted, hquiet.waits, hquiet.work, hpop,
        hquiet.nothing.2⟩, rfl⟩
  | abortReturns =>
    simp only [step] at hstep
    split at hstep
    · cases hstep
    next r' _ =>
      cases hstep
      have hpop : Dict.get r (s.doneSeen.pop r') = none :=
        Dict.get_eq_none_of_subset filter_sublist.subset hquiet.nothing.2
      exact ⟨⟨hquiet.aborted, hquiet.waits, hquiet.work, hquiet.nothing.1, hpop⟩, rfl⟩

/-- After an abort, once the messages of the request have been handled, the scheduler holds nothing
of it and puts out nothing more for it, if the last of these messages has removed its state. -/
theorem nothing_after_abort {d : Detokenizer P R ε} {as : List (Action ι P ε)} {s : State ι P R ε}
    (hrun : Run (step d) (Contained d) .init as s) {r : ι} (hsettled : Settled r s) :
    Nothing r s ∧ ∀ bs t, Run (step d) anyAction s bs t →
      Nothing r t ∧ messagesOf r t = messagesOf r s := by
  have hall : AllEnd d s := by
    refine hrun.invariant (fun _ _ _ hall hok hstep => allEnd_step hall hok hstep) ?_
    intro r hreturned
    cases hreturned.1
  obtain ⟨hreturned, hwaits, hwork⟩ := hsettled
  have hquiet : Quiet r s := ⟨hreturned.1, hwaits, hwork, (hall r hreturned hwaits).2 hwork⟩
  refine ⟨hquiet.nothing, fun bs t hafter => ?_⟩
  have hkept : Quiet r t ∧ messagesOf r t = messagesOf r s := by
    induction hafter with
    | nil => exact ⟨hquiet, rfl⟩
    | snoc _ _ hstep ih =>
      obtain ⟨hnext, hmessages⟩ := quiet_step ih.1 hstep
      exact ⟨hnext, hmessages.trans ih.2⟩
  exact ⟨hkept.1.nothing, hkept.2⟩

/-- A tokenizer of special tokens only. -/
def silent (_ : List ℕ) : Except String Chars := .ok []

/-- The scheduler of Qwen3-Omni with this tokenizer, whose payloads say whether they stream. -/
def silentQwen : Detokenizer Bool Unit String := qwen3Omni silent id fun _ => .ok ()

/-- The Ming scheduler with this tokenizer. -/
def silentMing : Detokenizer Bool Unit String := mingOmni silent id fun _ => .ok ()

/-- A chunk and the payload of a request that does not stream are left when it is aborted. -/
theorem nothing_after_abort_two :
    ∃ s : State ℕ Bool Unit String, Settled 7 s ∧ Nothing 7 s ∧ s.outbox.length = 1 := by
  let left : List (ℕ × IncomingMessage Bool String) :=
    [(7, .streamChunk (.ok 1)), (7, .newRequest false)]
  have hwaits : Waits 7 left := ⟨_, mem_cons_self .., rfl⟩
  have hwaits' : Waits 7 left.tail := ⟨_, mem_cons_self .., rfl⟩
  obtain ⟨s, hrun, hsettled, hout⟩ : ∃ s : State ℕ Bool Unit String,
      Run (step silentQwen) (Contained silentQwen) .init
        [.enqueue 7 (.streamChunk (.ok 1)), .enqueue 7 (.newRequest false), .abort 7,
          .abortReturns, .take, .work 0, .work 0, .work 0, .take, .work 0, .work 0, .work 0,
          .work 0, .work 0, .work 0] s ∧ Settled 7 s ∧ s.outbox.length = 1 := by
    refine ⟨_, .cons trivial rfl <| .cons trivial rfl <| .cons trivial rfl <| .cons ?_ rfl <|
      .cons ?_ rfl <| .cons trivial rfl <| .cons trivial rfl <| .cons trivial rfl <|
      .cons ?_ rfl <| .cons trivial rfl <| .cons trivial rfl <| .cons trivial rfl <|
      .cons trivial rfl <| .cons trivial rfl <| .cons trivial rfl <| .nil _, ?_, ?_⟩
    · rintro r hr hnot
      obtain rfl : 7 = r := some.inj hr
      exact absurd hwaits hnot
    · rintro r msg rest hinbox - hnot
      obtain ⟨hfirst, rfl⟩ := List.cons.inj hinbox
      obtain ⟨rfl, -⟩ := Prod.mk.inj hfirst
      exact absurd hwaits' hnot
    · rintro r msg rest hinbox - -
      obtain ⟨hfirst, -⟩ := List.cons.inj hinbox
      obtain ⟨rfl, rfl⟩ := Prod.mk.inj hfirst
      exact .inl rfl
    · unfold Settled Returned Waits
      decide +kernel
    · rfl
  exact ⟨s, hsettled, (nothing_after_abort hrun hsettled).1, hout⟩

/-- A chunk that waits when its request is aborted creates a state that stays. -/
theorem queued_chunk_remains :
    (∃ s, Reachable (step silentQwen) (.init : State ℕ Bool Unit String) s ∧ Settled 7 s ∧
      ¬Nothing 7 s) ∧
    ∃ s, Reachable (step silentMing) (.init : State ℕ Bool Unit String) s ∧ Settled 7 s ∧
      ¬Nothing 7 s := by
  let as : List (Action ℕ Bool String) :=
    [.enqueue 7 (.streamChunk (.ok 1)), .abort 7, .abortReturns, .take, .work 0, .work 0, .work 0]
  constructor
  · refine ⟨_, ⟨as, run_of_isSome _ _ _ (by decide +kernel)⟩, ?_, ?_⟩
    · unfold Settled Returned Waits
      decide +kernel
    · unfold Nothing
      decide +kernel
  · refine ⟨_, ⟨as, run_of_isSome _ _ _ (by decide +kernel)⟩, ?_, ?_⟩
    · unfold Settled Returned Waits
      decide +kernel
    · unfold Nothing
      decide +kernel

end Omni.Detokenize
