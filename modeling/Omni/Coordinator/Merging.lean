import Omni.Coordinator.Keyed
import Omni.Coordinator.Messages

/-!
# Merging the results of several terminal stages

The invariant of a request whose stages only succeed. It relates the coordinator
to the list of messages that have arrived for the request since it was accepted.
-/

namespace Omni.Coordinator

variable {V Q : Type} {cfg : Config Q} {s t : State V} {c n : ℕ} {msg : CompleteMessage V}
  {a : Action V Q} {r : String}

/-- What a message to the completion loop brings for a request. -/
def arrival (r : String) (_ : State V) : Action V Q → Option (Message V)
  | .complete _ msg => if msg.requestId = r then some (.complete msg) else none
  | .chunk msg => if msg.requestId = r then some (.stream msg) else none
  | _ => none

/-- The coordinator together with the messages that have arrived for a request. -/
def collecting (cfg : Config Q) (r : String) :
    State V × List (Message V) → Action V Q → Option (State V × List (Message V)) :=
  Transition.watch (step cfg) (arrival r) fun log msg => log ++ [msg]

/-- For request `r` of call `c` nothing happens but successful completions, stream
messages and the steps of the call; anything may happen elsewhere. -/
def SuccessOnly (c : ℕ) (r : String) (s : State V) (a : Action V Q) : Prop :=
  Elsewhere r s a ∨ match a with
    | .handed d error => d = c ∧ error = none
    | .wake d => d = c
    | .receive d => d = c
    | .resume d => d = c
    | .complete _ msg => msg.requestId = r ∧ msg.success = true
    | .chunk msg => msg.requestId = r
    | _ => False

/-- The action does not end the request while its own call is handing it over. -/
def NotDuringHandOver (cfg : Config Q) (c : ℕ) (r : String) (s : State V) (a : Action V Q) :
    Prop :=
  (s.calls c).phase = .submitting → ¬endsRequest cfg s a r

/-- Where the call stands, given the messages that have arrived. -/
def CallerAgrees (s : State V) (c : ℕ) (expected : Finset String) (log : List (Message V)) :
    Prop :=
  match (s.calls c).phase with
  | .submitting => covers expected (deliverable expected log) = false ∧ (s.calls c).yielded = []
  | .awaiting owner => (s.calls c).kind = .submit ∧ owner = c
  | .receiving stages completed => (s.calls c).kind = .stream ∧ stages = expected ∧
      completed = completedStages (s.calls c).yielded ∧
      covers expected (s.calls c).yielded = false
  | .yielding stages completed msg => (s.calls c).kind = .stream ∧ stages = expected ∧
      ∃ before, (s.calls c).yielded = before ++ [msg] ∧ completed = completedStages before ∧
        covers expected before = false
  | .returned value => covers expected (deliverable expected log) = true ∧
      match (s.calls c).kind with
      | .submit => value = some (.merged (mergeResults (conclusive expected log)))
      | .stream => value = none ∧ (s.calls c).yielded = conclusive expected log
  | .idle => False
  | .raised _ => False

/-- The state of a request after the arrival of the messages `log`. -/
structure Merging (s : State V) (c : ℕ) (r : String) (expected : Finset String)
    (log : List (Message V)) : Prop where
  keyed : Keyed s
  named : Named s c r
  stages : (s.calls c).info.terminalStages = expected
  successes : ∀ done, Message.complete done ∈ log → done.success = true
  unresolved : covers expected (deliverable expected log) = false →
    s.requests r = some c ∧ s.completionFutures r = some c ∧
      (s.calls c).future = .pending ∧
      (s.partialResults r).getD ∅ = mergeResults (deliverable expected log)
  resolved : covers expected (deliverable expected log) = true →
    s.requests r = none ∧
      (s.calls c).future = .result (.merged (mergeResults (conclusive expected log)))
  queue : (s.calls c).kind = .stream → (s.calls c).phase ≠ .returned none →
    s.streamQueues r = some c ∧ ∃ extra,
      (s.calls c).yielded ++ (s.calls c).queue = conclusive expected log ++ extra ∧
      (∀ done, Message.complete done ∉ extra) ∧
      (covers expected (deliverable expected log) = false → extra = [])
  caller : CallerAgrees s c expected log

section Conclusive

variable {expected : Finset String} {log : List (Message V)}

/-- Before the last stage has completed everything deliverable is to be received. -/
theorem conclusive_of_not (hnot : covers expected (deliverable expected log) = false) :
    conclusive expected log = deliverable expected log :=
  shortestPrefix_of_not (lasting_covers expected) hnot

/-- A message after the last completion is not to be received. -/
theorem conclusive_append (h : covers expected (deliverable expected log) = true)
    (more : List (Message V)) : conclusive expected (log ++ more) = conclusive expected log := by
  unfold conclusive deliverable at *
  rw [List.filter_append, shortestPrefix_append h]

/-- A message that arrives before the last completion is to be received. -/
theorem conclusive_concat (hnot : covers expected (deliverable expected log) = false)
    {msg : Message V} (hmsg : deliverable expected (log ++ [msg]) =
      deliverable expected log ++ [msg]) :
    conclusive expected (log ++ [msg]) = conclusive expected log ++ [msg] := by
  rw [conclusive_of_not hnot, conclusive, hmsg,
    shortestPrefix_concat (lasting_covers expected) hnot]

theorem covers_append (h : covers expected (deliverable expected log) = true)
    (more : List (Message V)) : covers expected (deliverable expected (log ++ more)) = true := by
  unfold deliverable at *
  rw [List.filter_append]
  exact lasting_covers expected _ _ h

end Conclusive

variable {expected : Finset String} {log : List (Message V)}

/-- Everything that happens elsewhere keeps the state of the request. -/
theorem Merging.elsewhere (h : Merging s c r expected log) (helse : Elsewhere r s a)
    (hstep : step cfg s a = some t) :
    Merging t c r expected log := by
  have hcall := h.keyed.calls_of_elsewhere h.named helse hstep
  have hsame := sameEntries_of_step helse hstep
  exact {
    keyed := h.keyed.step hstep
    named := by rw [Named, hcall]; exact h.named
    stages := by rw [hcall]; exact h.stages
    successes := h.successes
    unresolved := fun hnot => by
      rw [hsame.requests, hsame.completionFutures, hsame.partialResults, hcall]
      exact h.unresolved hnot
    resolved := fun hall => by
      rw [hsame.requests, hcall]
      exact h.resolved hall
    queue := by
      rw [hsame.streamQueues, hcall]
      exact h.queue
    caller := by
      unfold CallerAgrees
      rw [hcall]
      exact h.caller }

/-- The parts of a call that no arrival changes. -/
structure SameProgress (a b : Call V) : Prop where
  kind : b.kind = a.kind
  phase : b.phase = a.phase
  yielded : b.yielded = a.yielded

/-- An arrival that puts `delivered` on the queue of the call, which is what the
consumer is to receive of it before the last completion. -/
theorem Merging.arrive {msg : Message V} (h : Merging s c r expected log)
    (delivered : List (Message V)) (hstep : step cfg s a = some t)
    (hsuccess : ∀ done, msg = .complete done → done.success = true)
    (hsame : SameProgress (s.calls c) (t.calls c)) (hqueues : t.streamQueues r = s.streamQueues r)
    (hqueue : s.streamQueues r = some c → (t.calls c).queue = (s.calls c).queue ++ delivered)
    (hopen : covers expected (deliverable expected log) = false →
      conclusive expected (log ++ [msg]) = conclusive expected log ++ delivered)
    (hclosed : covers expected (deliverable expected log) = true →
      ∀ done, Message.complete done ∉ delivered) (hsubmitting : (s.calls c).phase = .submitting →
      covers expected (deliverable expected (log ++ [msg])) = false)
    (hunresolved : covers expected (deliverable expected (log ++ [msg])) = false →
      t.requests r = some c ∧ t.completionFutures r = some c ∧ (t.calls c).future = .pending ∧
        (t.partialResults r).getD ∅ = mergeResults (deliverable expected (log ++ [msg])))
    (hresolved : covers expected (deliverable expected (log ++ [msg])) = true →
      t.requests r = none ∧ (t.calls c).future =
        .result (.merged (mergeResults (conclusive expected (log ++ [msg]))))) :
    Merging t c r expected (log ++ [msg]) where
  keyed := h.keyed.step hstep
  named := h.named.of_step hstep
  stages := (kept_of_step hstep c h.named.2).2.2.1.trans h.stages
  successes done hdone := by
    rcases List.mem_append.mp hdone with hold | hnew
    · exact h.successes done hold
    · exact hsuccess done (List.mem_singleton.mp hnew).symm
  unresolved := hunresolved
  resolved := hresolved
  queue := by
    rw [hsame.kind, hsame.phase, hsame.yielded, hqueues]
    intro hkind hphase
    obtain ⟨hregistered, extra, hsplit, hextra, hnone⟩ := h.queue hkind hphase
    refine ⟨hregistered, ?_⟩
    rw [hqueue hregistered, ← List.append_assoc, hsplit]
    cases hcovers : covers expected (deliverable expected log) with
    | false =>
      obtain rfl := hnone hcovers
      exact ⟨[], by rw [hopen hcovers]; simp, by simp, fun _ => rfl⟩
    | true =>
      refine ⟨extra ++ delivered, by rw [conclusive_append hcovers, List.append_assoc], ?_, ?_⟩
      · intro done hdone
        rcases List.mem_append.mp hdone with hold | hnew
        · exact hextra done hold
        · exact hclosed hcovers done hnew
      · rw [covers_append hcovers]
        exact nofun
  caller := by
    have hcaller := h.caller
    unfold CallerAgrees at hcaller ⊢
    rw [hsame.phase, hsame.kind, hsame.yielded]
    cases hphase : (s.calls c).phase with
    | submitting =>
      simp only [hphase] at hcaller
      exact ⟨hsubmitting hphase, hcaller.2⟩
    | awaiting owner => simpa only [hphase] using hcaller
    | receiving stages completed => simpa only [hphase] using hcaller
    | yielding stages completed current => simpa only [hphase] using hcaller
    | returned value =>
      simp only [hphase] at hcaller ⊢
      rw [conclusive_append hcaller.1]
      exact ⟨covers_append hcaller.1 _, hcaller.2⟩
    | idle => simp only [hphase] at hcaller
    | raised failure => simp only [hphase] at hcaller

theorem Merging.chunk (cfg : Config Q) {msg : StreamMessage V}
    (h : Merging s c msg.requestId expected log) :
    Merging (handleStream s msg) c msg.requestId expected (log ++ [.stream msg]) := by
  have hstep : step cfg s (.chunk msg : Action V Q) = some (handleStream s msg) := rfl
  have hcall := putStream_calls s msg.requestId (.stream msg) c
  have hcovers : covers expected (deliverable expected (log ++ [.stream msg])) =
      covers expected (deliverable expected log) := by
    simp [covers]
  refine h.arrive [.stream msg] hstep (by simp) ?_ (by simp [handleStream]) ?_
    (fun hopen => conclusive_concat hopen (by simp)) (by simp) ?_ ?_ ?_
  · rw [handleStream, hcall]
    split <;> exact ⟨rfl, rfl, rfl⟩
  · intro hregistered
    rw [handleStream, hcall, if_pos hregistered]
  · intro hphase
    have hcaller := h.caller
    unfold CallerAgrees at hcaller
    simp only [hphase] at hcaller
    rw [hcovers, hcaller.1]
  · intro hnot
    rw [hcovers] at hnot
    have hold := h.unresolved hnot
    have hfuture : ((handleStream s msg).calls c).future = (s.calls c).future := by
      rw [handleStream, hcall]
      split <;> rfl
    rw [hfuture]
    simpa [handleStream] using hold
  · intro hall
    rw [hcovers] at hall
    have hold := h.resolved hall
    have hfuture : ((handleStream s msg).calls c).future = (s.calls c).future := by
      rw [handleStream, hcall]
      split <;> rfl
    rw [hfuture, conclusive_append hall]
    simpa [handleStream] using hold

/-- Before the last completion the partial results, with one more completion, are
the merged results of the messages to be received. -/
theorem Merging.collect
    (h : Merging s c msg.requestId expected log)
    (hopen : covers expected (deliverable expected log) = false)
    (hstage : msg.fromStage ∈ expected) :
    collect s msg = mergeResults (deliverable expected (log ++ [.complete msg])) := by
  rw [deliverable_complete msg hstage, mergeResults_complete, Omni.Coordinator.collect,
    (h.unresolved hopen).2.2.2]

/-- A completion arrives after the last one that was missing. -/
theorem Merging.completion_late (h : Merging s c msg.requestId expected log)
    (hidle : s.handlers n = .idle) (hsuccess : msg.success = true)
    (hclosed : covers expected (deliverable expected log) = true) :
    Merging (handleCompletion cfg s n msg) c msg.requestId expected (log ++ [.complete msg]) := by
  have hstep : step cfg s (.complete n msg : Action V Q) = some (handleCompletion cfg s n msg) := by
    simp [step, hidle]
  have heq : handleCompletion cfg s n msg = s.setHandler n (.ended none) := by
    simp [handleCompletion, (h.resolved hclosed).1]
  rw [heq] at hstep ⊢
  refine h.arrive [] hstep (fun done hdone => ?_) ⟨rfl, rfl, rfl⟩ rfl
    (fun _ => (List.append_nil _).symm) (fun hopen => ?_) (by simp) (fun hphase => ?_)
    (fun hopen => ?_) fun _ => ?_
  · cases hdone
    exact hsuccess
  · simp [hclosed] at hopen
  · have hcaller := h.caller
    unfold CallerAgrees at hcaller
    simp [hphase, hclosed] at hcaller
  · simp [covers_append hclosed] at hopen
  · rw [conclusive_append hclosed]
    exact h.resolved hclosed

theorem mergedCall (msg : CompleteMessage V) (values : Finmap fun _ : String => Option V)
    (hregistered : s.completionFutures msg.requestId = some c)
    (hpending : (s.calls c).future = .pending) :
    (dropRequest (resolveFuture ((putStream (storePartials s msg.requestId values)
      msg.requestId (.complete msg)).updateInfo c fun info =>
        { info with state := .completed, result := some (.merged values) })
      msg.requestId (.result (.merged values))) msg.requestId).calls c =
    { if s.streamQueues msg.requestId = some c then
        { s.calls c with queue := (s.calls c).queue ++ [.complete msg] }
      else s.calls c with
      info := { (s.calls c).info with state := .completed, result := some (.merged values) }
      future := .result (.merged values) } := by
  have hcall : (putStream (storePartials s msg.requestId values) msg.requestId
      (.complete msg)).calls c =
        if s.streamQueues msg.requestId = some c then
          { s.calls c with queue := (s.calls c).queue ++ [.complete msg] }
        else s.calls c := putStream_calls ..
  have hdone : (((putStream (storePartials s msg.requestId values) msg.requestId
      (.complete msg)).updateInfo c fun info =>
        { info with state := .completed, result := some (.merged values) }).calls c).future.done =
          false := by
    rw [updateInfo_calls, hcall]
    split <;> simp [hpending, Future.done]
  rw [dropRequest_calls, resolveFuture_calls, if_pos ⟨by simpa using hregistered, hdone⟩,
    updateInfo_calls, hcall]
  split <;> simp

/-- A completion arrives while stages are missing. -/
theorem Merging.completion_open (h : Merging s c msg.requestId expected log)
    (hmany : 1 < expected.card) (hidle : s.handlers n = .idle) (hsuccess : msg.success = true)
    (hphase : (s.calls c).phase = .submitting → ¬concludes cfg s msg)
    (hopen : covers expected (deliverable expected log) = false) :
    Merging (handleCompletion cfg s n msg) c msg.requestId expected (log ++ [.complete msg]) := by
  have hstep : step cfg s (.complete n msg : Action V Q) = some (handleCompletion cfg s n msg) := by
    simp [step, hidle]
  obtain ⟨hrequest, hregistered, hpending, hpartials⟩ := h.unresolved hopen
  have hexpected : expectedTerminalStages cfg s msg.requestId = expected := by
    simp [expectedTerminalStages, hrequest, h.stages]
  have heq : handleCompletion cfg s n msg =
      (handleSuccess cfg s c msg).setHandler n (.ended none) := by
    simp [handleCompletion, hrequest, hsuccess]
  have hne : expectedTerminalStages cfg s msg.requestId ≠ ∅ := by
    rw [hexpected]
    rintro rfl
    simp at hmany
  have hdone : ∀ done, Message.complete msg = .complete done → done.success = true := by
    rintro done ⟨⟩
    exact hsuccess
  rw [heq] at hstep ⊢
  by_cases hstage : msg.fromStage ∈ expected
  swap
  · -- the stage is not expected: nothing changes, and the message is not deliverable
    rw [handleSuccess_ignored hne (by rwa [hexpected])] at hstep ⊢
    have hsame := deliverable_ignored (l := log) msg hstage
    refine h.arrive [] hstep hdone ⟨rfl, rfl, rfl⟩ rfl
      (fun _ => (List.append_nil _).symm) (fun _ => ?_) (by simp) (fun hsub => by rwa [hsame])
      (fun _ => by rw [hsame]; exact h.unresolved hopen) fun hall => ?_
    · rw [conclusive, hsame, List.append_nil, conclusive]
    · rw [hsame, hopen] at hall
      cases hall
  have hcollect := h.collect hopen hstage
  have hkeys : (Omni.Coordinator.collect s msg).keys =
      completedStages (deliverable expected (log ++ [.complete msg])) := by
    rw [hcollect, mergeResults_keys]
  have hconcat : conclusive expected (log ++ [.complete msg]) =
      conclusive expected log ++ [.complete msg] :=
    conclusive_concat hopen (deliverable_complete msg hstage)
  have hcall : (putStream (storePartials s msg.requestId (Omni.Coordinator.collect s msg))
      msg.requestId (.complete msg)).calls c =
        if s.streamQueues msg.requestId = some c then
          { s.calls c with queue := (s.calls c).queue ++ [.complete msg] }
        else s.calls c := putStream_calls ..
  by_cases hmissing : (Omni.Coordinator.collect s msg).keys ⊂ expected
  · -- other stages are missing
    have hstill : covers expected (deliverable expected (log ++ [.complete msg])) = false := by
      rw [covers, decide_eq_false_iff_not, ← hkeys]
      exact hmissing.2
    rw [handleSuccess_waiting (by rwa [hexpected]) (by rwa [hexpected])
      (by rwa [hexpected])] at hstep ⊢
    refine h.arrive [.complete msg] hstep hdone ?_ ?_ (fun hreg => ?_)
      (fun _ => hconcat) (by simp [hopen]) (fun _ => hstill) (fun _ => ⟨?_, ?_, ?_, ?_⟩)
      (by simp [hstill])
    · rw [setHandler_calls, hcall]
      split <;> exact ⟨rfl, rfl, rfl⟩
    · simp [storePartials]
    · rw [setHandler_calls, hcall, if_pos hreg]
    · simpa [storePartials] using hrequest
    · simpa [storePartials] using hregistered
    · rw [setHandler_calls, hcall]
      split <;> exact hpending
    · simp [hcollect]
  · -- the last missing stage completes
    have hall : expected ⊆ (Omni.Coordinator.collect s msg).keys := by
      have hsub : (Omni.Coordinator.collect s msg).keys ⊆ expected :=
        hkeys ▸ completedStages_deliverable expected _
      exact not_not.mp fun hnot => hmissing ⟨hsub, hnot⟩
    have hclosed : covers expected (deliverable expected (log ++ [.complete msg])) = true := by
      rw [covers, decide_eq_true_eq, ← hkeys]
      exact hall
    have hconcludes : concludes cfg s msg :=
      ⟨Or.inr (by rwa [hexpected]), Or.inr (by rwa [hexpected, ← keys_insert])⟩
    have hconclusive : conclusive expected (log ++ [.complete msg]) =
        deliverable expected (log ++ [.complete msg]) := by
      rw [hconcat, conclusive_of_not hopen, deliverable_complete msg hstage]
    rw [handleSuccess_merged (by rwa [hexpected]) (by rwa [hexpected])
      (by rwa [hexpected])] at hstep ⊢
    have hmerged := mergedCall msg (Omni.Coordinator.collect s msg) hregistered hpending
    refine h.arrive [.complete msg] hstep hdone ?_ ?_ (fun hreg => ?_)
      (fun _ => hconcat) (by simp [hopen]) (fun hsub => absurd hconcludes (hphase hsub))
      (by simp [hclosed]) (fun _ => ⟨?_, ?_⟩)
    · rw [setHandler_calls, hmerged]
      split <;> exact ⟨rfl, rfl, rfl⟩
    · simp
    · rw [setHandler_calls, hmerged, if_pos hreg]
    · simp
    · rw [setHandler_calls, hmerged, hconclusive, hcollect]

end Omni.Coordinator
