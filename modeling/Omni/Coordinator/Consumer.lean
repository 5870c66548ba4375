import Omni.Coordinator.Merging

/-!
# The caller of a request with several terminal stages

The steps of the call itself: the return from its hand-over, the caller of
`submit` that wakes up, and the consumer of `stream` that is given one message
after the other.
-/

namespace Omni.Coordinator

open Omni.Transition List

variable {V Q : Type} {cfg : Config Q} {s t : State V} {c : ℕ} {r : String}
  {expected : Finset String} {log : List (Message V)}

/-- A step of the call itself, which leaves the messages and the results alone. -/
theorem Merging.advance {a : Action V Q} (h : Merging s c r expected log)
    (hstep : step cfg s a = some t) (hfuture : (t.calls c).future = (s.calls c).future)
    (hrequests : t.requests = s.requests) (hpartials : t.partialResults = s.partialResults)
    (hfutures : covers expected (deliverable expected log) = false →
      t.completionFutures r = s.completionFutures r)
    (hqueue : (t.calls c).kind = .stream → (t.calls c).phase ≠ .returned none →
      t.streamQueues r = s.streamQueues r ∧ (s.calls c).phase ≠ .returned none ∧
        (t.calls c).yielded ++ (t.calls c).queue = (s.calls c).yielded ++ (s.calls c).queue)
    (hcaller : CallerAgrees t c expected log) : Merging t c r expected log where
  keyed := h.keyed.step hstep
  named := h.named.of_step hstep
  stages := (kept_of_step hstep c h.named.2).2.2.1.trans h.stages
  successes := h.successes
  unresolved hnot := by
    rw [hrequests, hfutures hnot, hfuture, hpartials]
    exact h.unresolved hnot
  resolved hall := by
    rw [hrequests, hfuture]
    exact h.resolved hall
  queue hkind hphase := by
    obtain ⟨hqueues, hbefore, hsplit⟩ := hqueue hkind hphase
    rw [hqueues, hsplit]
    exact h.queue ((kept_of_step hstep c h.named.2).1.symm.trans hkind) hbefore
  caller := hcaller

/-- The hand-over returns. -/
theorem Merging.handed (h : Merging s c r expected log) (hmany : 1 < expected.card)
    (hphase : (s.calls c).phase = .submitting) :
    Merging (submitted cfg s c) c r expected log := by
  have hstep : step cfg s (.handed c none : Action V Q) = some (submitted cfg s c) := by
    simp [step, hphase]
  have hcaller := h.caller
  unfold CallerAgrees at hcaller
  simp only [hphase] at hcaller
  obtain ⟨hopen, hyielded⟩ := hcaller
  obtain ⟨hrequest, hregistered, _, _⟩ := h.unresolved hopen
  have hrid := h.named.1
  cases hkind : (s.calls c).kind with
  | submit =>
    have heq : submitted cfg s c = (s.updateInfo c fun info =>
        { info with state := .running }).setPhase c (.awaiting c) := by
      unfold submitted
      simp only [hrid, hrequest, updateInfo_calls, hkind, updateInfo_completionFutures, hregistered]
    rw [heq] at hstep ⊢
    refine h.advance hstep (by simp [setPhase_calls, updateInfo_calls]) rfl rfl (fun _ => rfl)
      (fun hstream => ?_) ?_
    · simp [setPhase_calls, updateInfo_calls, hkind] at hstream
    · simp [CallerAgrees, setPhase_calls, updateInfo_calls, hkind]
  | stream =>
    have heq : submitted cfg s c = (s.updateInfo c fun info =>
        { info with state := .running }).setPhase c (.receiving expected ∅) := by
      unfold submitted
      simp only [hrid, hrequest, updateInfo_calls, hkind, expectedTerminalStages,
        updateInfo_requests, if_true, h.stages]
    rw [heq] at hstep ⊢
    refine h.advance hstep (by simp [setPhase_calls, updateInfo_calls]) rfl rfl (fun _ => rfl)
      (fun _ _ => ⟨rfl, by simp [hphase], by simp [setPhase_calls, updateInfo_calls]⟩) ?_
    have hempty : expected ≠ ∅ := by
      rintro rfl
      simp at hmany
    simp [CallerAgrees, setPhase_calls, updateInfo_calls, hkind, hyielded, completedStages,
      covers, hempty]

/-- The caller of `submit` wakes up. -/
theorem Merging.wake (h : Merging s c r expected log)
    (hstep : step cfg s (.wake c : Action V Q) = some t) : Merging t c r expected log := by
  have hmove := hstep
  simp only [step] at hmove
  split at hmove
  next owner hphase =>
    obtain ⟨outcome, houtcome, rfl⟩ := Option.map_eq_some_iff.mp hmove
    have hcaller := h.caller
    unfold CallerAgrees at hcaller
    simp only [hphase] at hcaller
    obtain ⟨hkind, rfl⟩ := hcaller
    cases hcovers : covers expected (deliverable expected log) with
    | false => simp [(h.unresolved hcovers).2.2.1, Future.outcome] at houtcome
    | true =>
      have hfuture := (h.resolved hcovers).2
      rw [hfuture, Future.outcome] at houtcome
      cases houtcome
      refine h.advance hstep (by simp [submitReturns, setPhase_calls]) rfl rfl
        (by simp [hcovers]) (fun hstream => ?_) ?_
      · simp [submitReturns, setPhase_calls, hkind] at hstream
      · simp [CallerAgrees, submitReturns, setPhase_calls, hkind, hcovers]
  · cases hmove

/-- While stages are missing from a first part of what has been put on the queue, the
message after it is the next one that the consumer is to receive. -/
theorem Merging.next {taken rest : List (Message V)} {msg : Message V}
    (h : Merging s c r expected log) (hkind : (s.calls c).kind = .stream)
    (hphase : (s.calls c).phase ≠ .returned none)
    (hput : (s.calls c).yielded ++ (s.calls c).queue = taken ++ msg :: rest)
    (hmissing : covers expected taken = false) :
    ∃ more, conclusive expected log = taken ++ msg :: more := by
  obtain ⟨_, extra, hsplit, _, hnone⟩ := h.queue hkind hphase
  rw [hput] at hsplit
  cases hcovers : covers expected (deliverable expected log) with
  | false =>
    rw [hnone hcovers, append_nil] at hsplit
    exact ⟨rest, hsplit.symm⟩
  | true =>
    obtain ⟨a, more, hmore⟩ :=
      prefix_shortestPrefix (lasting_covers expected) hsplit hcovers hmissing
    change conclusive expected log = _ at hmore
    have hhead : taken ++ msg :: rest = taken ++ a :: (more ++ extra) := by
      rw [hsplit, hmore]
      simp
    obtain ⟨rfl, _⟩ := List.cons.inj (append_cancel_left hhead)
    exact ⟨more, hmore⟩

/-- What happens when the consumer is given the next message. -/
theorem Merging.receive_eq (h : Merging s c r expected log)
    (hstep : step cfg s (.receive c : Action V Q) = some t) :
    ∃ msg rest more, (s.calls c).kind = .stream ∧
      (∃ completed, (s.calls c).phase = .receiving expected completed) ∧
      covers expected (s.calls c).yielded = false ∧ (s.calls c).queue = msg :: rest ∧
      conclusive expected log = (s.calls c).yielded ++ msg :: more ∧
      t = s.updateCall c fun call => { call with
        queue := rest
        phase := .yielding expected (completedStages (s.calls c).yielded) msg
        yielded := call.yielded ++ [msg] } := by
  simp only [step] at hstep
  split at hstep
  next stages completed msg rest hphase hqueue =>
    rw [Option.some.injEq] at hstep
    have hcaller := h.caller
    unfold CallerAgrees at hcaller
    simp only [hphase] at hcaller
    obtain ⟨hkind, rfl, rfl, hmissing⟩ := hcaller
    obtain ⟨more, hmore⟩ := h.next hkind (by simp [hphase]) (by rw [hqueue]) hmissing
    have hmem : msg ∈ log := by
      have hmem : msg ∈ conclusive stages log := by
        rw [hmore]
        simp
      exact mem_of_mem_filter ((shortestPrefix_isPrefix _ _).subset hmem)
    refine ⟨msg, rest, more, hkind, ⟨_, hphase⟩, hmissing, hqueue, hmore, ?_⟩
    subst hstep
    unfold Omni.Coordinator.receive
    cases msg with
    | complete done => simp [h.successes done hmem, State.updateCall]
    | stream chunk => simp [State.updateCall]
  · cases hstep

/-- The consumer is given the next message. -/
theorem Merging.receive (h : Merging s c r expected log)
    (hstep : step cfg s (.receive c : Action V Q) = some t) : Merging t c r expected log := by
  obtain ⟨msg, rest, more, hkind, ⟨completed, hphase⟩, hmissing, hqueue, _, heq⟩ :=
    h.receive_eq hstep
  rw [heq] at hstep ⊢
  refine h.advance hstep (by simp) rfl rfl (fun _ => rfl)
    (fun _ _ => ⟨rfl, by simp [hphase], by simp [hqueue]⟩) ?_
  simp [CallerAgrees, hkind, hmissing]

/-- The consumer that has been given the completion of the last missing stage has
been given everything it is to receive. -/
theorem Merging.complete {before : List (Message V)} {msg : Message V}
    (h : Merging s c r expected log) (hkind : (s.calls c).kind = .stream)
    (hphase : (s.calls c).phase ≠ .returned none) (hyielded : (s.calls c).yielded = before ++ [msg])
    (hbefore : covers expected before = false) (hall : covers expected (s.calls c).yielded = true) :
    covers expected (deliverable expected log) = true ∧
      (s.calls c).yielded = conclusive expected log := by
  obtain ⟨_, extra, hsplit, _, hnone⟩ := h.queue hkind hphase
  have hlasting := lasting_covers (V := V) expected
  cases hcovers : covers expected (deliverable expected log) with
  | false =>
    have hmore := hlasting _ (s.calls c).queue hall
    rw [hsplit, hnone hcovers, append_nil, conclusive_of_not hcovers, hcovers] at hmore
    cases hmore
  | true =>
    have hspec : covers expected (conclusive expected log) = true := shortestPrefix_spec hcovers
    refine ⟨rfl, ?_⟩
    calc (s.calls c).yielded
        = shortestPrefix (covers expected) (s.calls c).yielded := by
          rw [hyielded, shortestPrefix_concat hlasting hbefore]
      _ = shortestPrefix (covers expected) ((s.calls c).yielded ++ (s.calls c).queue) :=
          (shortestPrefix_append hall _).symm
      _ = shortestPrefix (covers expected) (conclusive expected log) := by
          rw [hsplit, shortestPrefix_append hspec]
      _ = conclusive expected log := shortestPrefix_idem hlasting _

/-- The consumer asks for more. -/
theorem Merging.resume (h : Merging s c r expected log)
    (hstep : step cfg s (.resume c : Action V Q) = some t) : Merging t c r expected log := by
  have hmove := hstep
  simp only [step] at hmove
  split at hmove
  next stages completed msg hphase =>
    rw [Option.some.injEq] at hmove
    have hcaller := h.caller
    unfold CallerAgrees at hcaller
    simp only [hphase] at hcaller
    obtain ⟨hkind, rfl, before, hyielded, rfl, hbefore⟩ := hcaller
    unfold Omni.Coordinator.resume at hmove
    cases msg with
    | stream chunk =>
      dsimp only at hmove
      subst hmove
      refine h.advance hstep (by simp [setPhase_calls]) rfl rfl (fun _ => rfl)
        (fun _ _ => ⟨rfl, by simp [hphase], by simp [setPhase_calls]⟩) ?_
      have hstill : covers stages (before ++ [.stream chunk]) = false := by
        simpa [covers] using hbefore
      simp [CallerAgrees, setPhase_calls, hkind, hyielded, hstill]
    | complete done =>
      dsimp only at hmove
      have hstages : completedStages (s.calls c).yielded =
          insert done.fromStage (completedStages before) := by
        rw [hyielded, completedStages_complete]
      split at hmove
      next hend =>
        have hall : covers stages (s.calls c).yielded = true := by
          rw [covers, decide_eq_true_eq, hstages]
          rcases hend with rfl | hsub
          · exact Finset.empty_subset _
          · exact hsub
        obtain ⟨hcovers, hconclusive⟩ :=
          h.complete hkind (by simp [hphase]) hyielded hbefore hall
        subst hmove
        refine h.advance hstep (by simp [setPhase_calls]) rfl rfl (by simp [hcovers])
          (fun _ hreturned => absurd (by simp [setPhase_calls]) hreturned) ?_
        simp [CallerAgrees, setPhase_calls, hkind, hcovers, hconclusive]
      next hmore =>
        have hstill : covers stages (s.calls c).yielded = false := by
          rw [covers, decide_eq_false_iff_not, hstages]
          exact fun hsub => hmore (Or.inr hsub)
        subst hmove
        refine h.advance hstep (by simp [setPhase_calls]) rfl rfl (fun _ => rfl)
          (fun _ _ => ⟨rfl, by simp [hphase], by simp [setPhase_calls]⟩) ?_
        simp [CallerAgrees, setPhase_calls, hkind, hstill, hstages]
  · cases hmove

/-- What the consumer has been given is a prefix of what it is to receive. -/
theorem Merging.given (h : Merging s c r expected log) (hkind : (s.calls c).kind = .stream) :
    (s.calls c).yielded <+: conclusive expected log := by
  have hcaller := h.caller
  unfold CallerAgrees at hcaller
  cases hphase : (s.calls c).phase with
  | idle => simp only [hphase] at hcaller
  | raised failure => simp only [hphase] at hcaller
  | submitting =>
    simp only [hphase] at hcaller
    rw [hcaller.2]
    exact nil_prefix
  | awaiting owner => simp [hphase, hkind] at hcaller
  | returned value =>
    simp only [hphase, hkind] at hcaller
    rw [hcaller.2.2]
  | receiving stages completed =>
    simp only [hphase] at hcaller
    obtain ⟨_, rfl, _, hmissing⟩ := hcaller
    cases hqueue : (s.calls c).queue with
    | cons msg rest =>
      obtain ⟨more, hmore⟩ := h.next hkind (by simp [hphase]) (by rw [hqueue]) hmissing
      rw [hmore]
      exact prefix_append _ _
    | nil =>
      obtain ⟨_, extra, hsplit, _, hnone⟩ := h.queue hkind (by simp [hphase])
      rw [hqueue, append_nil] at hsplit
      cases hcovers : covers stages (deliverable stages log) with
      | false => rw [hsplit, hnone hcovers, append_nil]
      | true =>
        have hdone := lasting_covers stages _ extra (shortestPrefix_spec hcovers)
        change covers stages (conclusive stages log ++ extra) = true at hdone
        rw [← hsplit, hmissing] at hdone
        cases hdone
  | yielding stages completed msg =>
    simp only [hphase] at hcaller
    obtain ⟨_, rfl, before, hyielded, _, hbefore⟩ := hcaller
    obtain ⟨more, hmore⟩ := h.next hkind (by simp [hphase])
      (by rw [hyielded, append_assoc]; rfl) hbefore
    exact ⟨more, by rw [hmore, hyielded, append_assoc]; rfl⟩

/-- Asking for more gives the consumer nothing by itself. -/
theorem resume_yielded (hstep : step cfg s (.resume c : Action V Q) = some t) :
    (t.calls c).yielded = (s.calls c).yielded ∧
      ∀ stages completed msg, (t.calls c).phase ≠ .yielding stages completed msg := by
  simp only [step] at hstep
  split at hstep
  · cases hstep
    unfold Omni.Coordinator.resume
    split
    · dsimp only
      split <;> simp [setPhase_calls]
    · simp [setPhase_calls]
  · cases hstep

/-- The steps of the consumer. -/
def OwnSteps (c : ℕ) (_ : State V) (a : Action V Q) : Prop := a = .receive c ∨ a = .resume c

/-- How much the consumer has still to do: it is given each message and asks for more. -/
def remaining (s : State V) (c : ℕ) (expected : Finset String) (log : List (Message V)) : ℕ :=
  2 * ((conclusive expected log).length - (s.calls c).yielded.length) +
    match (s.calls c).phase with
    | .yielding _ _ _ => 1
    | _ => 0

/-- Once every stage has completed, the consumer ends after its own steps, whatever
else happens or not, with everything it is to receive. -/
theorem Merging.finishes (h : Merging s c r expected log) (hkind : (s.calls c).kind = .stream)
    (hall : covers expected (deliverable expected log) = true) :
    ∃ bs t, Run (step cfg) (OwnSteps c) s bs t ∧ (t.calls c).phase = .returned none ∧
      (t.calls c).yielded = conclusive expected log := by
  induction hn : remaining s c expected log using Nat.strong_induction_on generalizing s with
  | _ n ih =>
    have hcaller := h.caller
    unfold CallerAgrees at hcaller
    cases hphase : (s.calls c).phase with
    | idle => simp only [hphase] at hcaller
    | raised failure => simp only [hphase] at hcaller
    | submitting => simp [hphase, hall] at hcaller
    | awaiting owner => simp [hphase, hkind] at hcaller
    | returned value =>
      simp only [hphase, hkind] at hcaller
      obtain ⟨_, rfl, hyielded⟩ := hcaller
      exact ⟨[], s, .nil s, hphase, hyielded⟩
    | receiving stages completed =>
      simp only [hphase] at hcaller
      obtain ⟨_, rfl, _, hmissing⟩ := hcaller
      obtain ⟨_, extra, hsplit, _, _⟩ := h.queue hkind (by simp [hphase])
      obtain ⟨msg, rest, hqueue⟩ : ∃ msg rest, (s.calls c).queue = msg :: rest := by
        cases hqueue : (s.calls c).queue with
        | cons msg rest => exact ⟨msg, rest, rfl⟩
        | nil =>
          have hspec : covers stages (conclusive stages log) = true := shortestPrefix_spec hall
          have hdone := lasting_covers stages _ extra hspec
          rw [← hsplit, hqueue, append_nil, hmissing] at hdone
          cases hdone
      obtain ⟨t, hstep⟩ : ∃ t, step cfg s (.receive c : Action V Q) = some t := by
        simp only [step, hphase, hqueue]
        exact ⟨_, rfl⟩
      obtain ⟨msg', rest', more, _, _, _, _, hmore, heq⟩ := h.receive_eq hstep
      have hless : remaining t c stages log < n := by
        subst heq
        simp only [remaining, updateCall_self, length_append, length_singleton, hphase] at hn ⊢
        rw [hmore, length_append, length_cons] at hn ⊢
        omega
      obtain ⟨bs, u, hrun, hend⟩ :=
        ih _ hless (h.receive hstep) (by rw [heq]; simpa using hkind) rfl
      exact ⟨_, u, .cons (Or.inl rfl) hstep hrun, hend⟩
    | yielding stages completed msg =>
      simp only [hphase] at hcaller
      obtain ⟨_, rfl, _⟩ := hcaller
      obtain ⟨t, hstep⟩ : ∃ t, step cfg s (.resume c : Action V Q) = some t := by
        simp only [step, hphase]
        exact ⟨_, rfl⟩
      obtain ⟨hyielded, hnot⟩ := resume_yielded hstep
      have hless : remaining t c stages log < n := by
        simp only [remaining, hphase, hyielded] at hn ⊢
        omega
      obtain ⟨bs, u, hrun, hend⟩ := ih _ hless (h.resume hstep)
        ((kept_of_step hstep c h.named.2).1.trans hkind) rfl
      exact ⟨_, u, .cons (Or.inr rfl) hstep hrun, hend⟩

end Omni.Coordinator
