import Omni.Serve.Speech

/-!
# Speech endpoints release what they use

At each await of a handler, what is left to do until its request, its generator and its tasks are
released, and that its `except` and `finally` clauses do it.
-/

namespace Omni.Serve

open Transition List Option

theorem Task.settled_cancel (task : Task) : task.cancel.settled = true := by
  cases task <;> rfl

variable {task : Task}

theorem Task.cancel_eq (h : task ≠ .done) : task.cancel = .pending true := by
  cases task with
  | pending cancelling => rfl
  | done => exact absurd rfl h

namespace Streamed

/-- Request and generator are taken care of. -/
structure Cleared (s : Streamed) : Prop where
  request : s.submitted = true → s.ended = true ∨ s.aborted = true
  generator : s.generator = .finished ∨ s.generator = .running ∧ s.chunkTask = .pending true

/-- The `try` block waits for a chunk. -/
structure Fetching (s : Streamed) : Prop where
  asking : s.chunkTask ≠ .done → s.generator ≠ .finished
  chunk : s.chunkTask = .done → s.chunkResult = .silent → s.generator ≠ .finished
  stop : s.chunkTask = .done → s.chunkResult = .stop → s.ended = true

/-- What holds while the response is in use. -/
def BodyHolds (s : Streamed) : Prop :=
  match s.body with
  | .absent => False
  | .unstarted | .atYield => s.generator ≠ .running
  | .awaiting => True
  | .abort => s.aborted = true ∧ s.generator ≠ .running
  | .completed => s.Cleared

/-- What holds at each await. -/
def Holds (s : Streamed) : Prop :=
  match s.handler with
  | .wait => s.body = .absent ∧ s.Fetching
  | .cancelChunk => s.body = .absent
  | .abort | .abortExcept => s.body = .absent ∧ s.aborted = true
  | .finallyChunk ok => s.body = .absent ∧ ok = false ∧ s.Cleared ∧ s.chunkTask.settled = true
  | .finallyWatch ok => s.body = .absent ∧ s.chunkTask.settled = true ∧
      s.disconnectTask.settled = true ∧ if ok then s.chunkTask = .done else s.Cleared
  | .raised => s.body = .absent ∧ s.Released
  | .returned => s.chunkTask = .done ∧ s.disconnectTask.settled = true ∧ s.BodyHolds

/-- The generator runs in `next_chunk_task` or under the body. -/
structure Sound (s : Streamed) : Prop where
  runs : s.generator = .running → s.chunkTask ≠ .done ∨ s.body = .awaiting
  holds : s.Holds

theorem sound_init : Sound init where
  runs h := by cases h
  holds := by
    have hfetching : init.Fetching :=
      { asking := nofun
        chunk := nofun
        stop := fun h => by cases h }
    exact ⟨rfl, hfetching⟩

variable {s s' : Streamed} {outcome : Outcome}

theorem sound_leave {ok : Bool} (hbody : s.body = .absent)
    (hruns : s.generator = .running → s.chunkTask ≠ .done ∨ s.body = .awaiting)
    (hchunk : s.chunkTask.settled = true) (hwatch : s.disconnectTask.settled = true)
    (hok : if ok then s.chunkTask = .done else s.Cleared) : Sound (s.leave ok) := by
  cases ok with
  | false =>
    have hcleared : s.Cleared := hok
    exact ⟨fun h => hruns h, hbody, hcleared.request, hcleared.generator, hchunk, hwatch⟩
  | true =>
    have hdone : s.chunkTask = .done := hok
    have hgenerator : s.generator ≠ .running := by
      intro hrunning
      rcases hruns hrunning with hpending | hawaiting
      · exact hpending hdone
      · rw [hbody] at hawaiting
        cases hawaiting
    exact ⟨fun h => absurd h hgenerator, hdone, hwatch, hgenerator⟩

theorem sound_finallyDisconnect {ok : Bool} (hbody : s.body = .absent)
    (hruns : s.generator = .running → s.chunkTask ≠ .done ∨ s.body = .awaiting)
    (hchunk : s.chunkTask.settled = true)
    (hok : if ok then s.chunkTask = .done else s.Cleared) : Sound (s.finallyDisconnect ok) := by
  unfold finallyDisconnect
  split
  next hwatch =>
    exact sound_leave hbody hruns hchunk (by rw [hwatch]; rfl) hok
  · refine ⟨hruns, hbody, hchunk, Task.settled_cancel _, ?_⟩
    cases ok with
    | false =>
      have hcleared : s.Cleared := hok
      rw [if_neg Bool.false_ne_true]
      exact ⟨hcleared.request, hcleared.generator⟩
    | true => exact hok

/-- The `finally` block after a failure, with the generator closed unless it is running. -/
theorem sound_enterFinally (hbody : s.body = .absent)
    (hruns : s.generator = .running → s.chunkTask ≠ .done ∨ s.body = .awaiting)
    (hrequest : s.submitted = true → s.ended = true ∨ s.aborted = true)
    (hclosed : s.generator ≠ .running → s.generator = .finished) :
    Sound (s.enterFinally false) := by
  unfold enterFinally
  split
  next hdone =>
    have hgenerator : s.generator = .finished := by
      refine hclosed fun hrunning => ?_
      rcases hruns hrunning with hpending | hawaiting
      · exact hpending hdone
      · rw [hbody] at hawaiting
        cases hawaiting
    exact sound_finallyDisconnect hbody hruns (by rw [hdone]; rfl) ⟨hrequest, Or.inl hgenerator⟩
  next hpending =>
    have hcancel := Task.cancel_eq hpending
    refine ⟨fun _ => Or.inl (by simp [hcancel]), hbody, rfl, ⟨hrequest, ?_⟩, Task.settled_cancel _⟩
    by_cases hrunning : s.generator = .running
    · exact Or.inr ⟨hrunning, hcancel⟩
    · exact Or.inl (hclosed hrunning)

theorem running_of_close (h : s.close.generator = .running) : s.generator = .running := by
  by_contra hnot
  simp [close, hnot] at h

theorem finished_of_close (h : s.close.generator ≠ .running) : s.close.generator = .finished := by
  by_cases hrunning : s.generator = .running <;> simp [close, hrunning] at h ⊢

/-- `aclose()` and then the `finally` block. -/
theorem sound_close_enterFinally (hbody : s.body = .absent)
    (hruns : s.generator = .running → s.chunkTask ≠ .done ∨ s.body = .awaiting)
    (hrequest : s.submitted = true → s.ended = true ∨ s.aborted = true) :
    Sound (s.close.enterFinally false) :=
  sound_enterFinally hbody (fun h => hruns (running_of_close h)) hrequest finished_of_close

theorem sound_callAbort {point : StreamPoint} (hpoint : point = .abort ∨ point = .abortExcept)
    (hbody : s.body = .absent)
    (hruns : s.generator = .running → s.chunkTask ≠ .done ∨ s.body = .awaiting) :
    Sound (s.callAbort point) := by
  refine ⟨hruns, ?_⟩
  rcases hpoint with rfl | rfl <;> exact ⟨hbody, rfl⟩

theorem sound_takeChunk (h : Sound s) (hpoint : s.handler = .wait) (hdone : s.chunkTask = .done) :
    Sound s.takeChunk := by
  have hholds := h.holds
  simp only [Holds, hpoint] at hholds
  obtain ⟨hbody, hfetching⟩ := hholds
  unfold takeChunk
  split
  next hsilent =>
    refine ⟨fun _ => Or.inl (by simp), ?_⟩
    simp only [Holds, hpoint]
    exact ⟨hbody, fun _ => hfetching.chunk hdone hsilent, fun hnot => by simp at hnot,
      fun hnot => by simp at hnot⟩
  · unfold enterFinally
    rw [if_pos hdone]
    exact sound_finallyDisconnect hbody h.runs (by rw [hdone]; rfl) hdone
  next hstop =>
    exact sound_close_enterFinally hbody h.runs fun _ => Or.inl (hfetching.stop hdone hstop)
  all_goals exact sound_callAbort (Or.inr rfl) hbody h.runs

theorem sound_resume (h : Sound s) (hstep : s.resume = some s') : Sound s' := by
  have hholds := h.holds
  cases hpoint : s.handler <;> simp only [Holds, resume, hpoint, reduceCtorEq] at hholds hstep
  case wait =>
    split at hstep
    · split at hstep
      · cases hstep
        exact sound_callAbort (Or.inl rfl) hholds.1 h.runs
      next hpending =>
        cases hstep
        exact ⟨fun _ => Or.inl (by simp [Task.cancel_eq hpending]), hholds.1⟩
    · split at hstep
      next hdone =>
        cases hstep
        exact sound_takeChunk h hpoint hdone
      · cases hstep
  case cancelChunk =>
    cases hstep
    exact sound_callAbort (Or.inl rfl) hholds h.runs
  case abort =>
    split at hstep
    · cases hstep
      exact sound_callAbort (Or.inr rfl) hholds.1 h.runs
    · cases hstep
      exact sound_close_enterFinally hholds.1 h.runs fun _ => Or.inr hholds.2
  case abortExcept =>
    cases hstep
    exact sound_close_enterFinally hholds.1 h.runs fun _ => Or.inr hholds.2
  case finallyChunk ok =>
    obtain ⟨hbody, rfl, hcleared, hchunk⟩ := hholds
    cases hstep
    exact sound_finallyDisconnect hbody h.runs hchunk hcleared
  case finallyWatch ok =>
    obtain ⟨hbody, hchunk, hwatch, hok⟩ := hholds
    cases hstep
    exact sound_leave hbody h.runs hchunk hwatch hok

theorem sound_cancel (h : Sound s) (hspared : s.Spared .cancel) (hstep : s.cancel = some s') :
    Sound s' := by
  have hholds := h.holds
  cases hpoint : s.handler <;> simp only [Holds, cancel, hpoint, reduceCtorEq] at hholds hstep
  case wait =>
    cases hstep
    exact sound_callAbort (Or.inr rfl) hholds.1 h.runs
  case cancelChunk =>
    cases hstep
    exact sound_callAbort (Or.inr rfl) hholds h.runs
  case abort =>
    cases hstep
    exact sound_callAbort (Or.inr rfl) hholds.1 fun hrunning => h.runs (running_of_close hrunning)
  case abortExcept =>
    cases hstep
    exact sound_close_enterFinally hholds.1 h.runs fun _ => Or.inr hholds.2
  case finallyChunk ok =>
    obtain ⟨hbody, -, hcleared, hchunk⟩ := hholds
    have hwatch : s.disconnectTask = .done := hspared.2 ok hpoint
    cases hstep
    exact ⟨h.runs, hbody, hcleared.request, hcleared.generator, hchunk,
      by rw [show _ = s.disconnectTask from rfl, hwatch]; rfl⟩
  case finallyWatch ok =>
    obtain ⟨hbody, hchunk, hwatch, hok⟩ := hholds
    have hfalse : ok = false := by
      cases ok with
      | false => rfl
      | true => exact absurd hpoint hspared.1
    subst hfalse
    have hcleared : s.Cleared := hok
    cases hstep
    exact ⟨h.runs, hbody, hcleared.request, hcleared.generator, hchunk, hwatch⟩

/-- What a step of `next_chunk_task` leaves alone. -/
theorem chunkStep_frame (hstep : s.chunkStep outcome = some s') :
    s.chunkTask ≠ .done ∧ s'.handler = s.handler ∧ s'.body = s.body ∧
      s'.disconnectTask = s.disconnectTask ∧ s'.aborted = s.aborted := by
  unfold chunkStep at hstep
  split at hstep
  · cases hstep
  next cancelling hpending =>
    have hnot : s.chunkTask ≠ .done := by simp [hpending]
    split at hstep
    · cases hstep
      unfold yieldOutcome
      split <;> exact ⟨hnot, rfl, rfl, rfl, rfl⟩
    · cases hstep
      exact ⟨hnot, rfl, rfl, rfl, rfl⟩
    all_goals
      split at hstep
      all_goals
        cases hstep
        exact ⟨hnot, rfl, rfl, rfl, rfl⟩

theorem runs_chunkStep (hstep : s.chunkStep outcome = some s')
    (hrunning : s'.generator = .running) :
    s'.chunkTask ≠ .done := by
  unfold chunkStep at hstep
  split at hstep
  · cases hstep
  next cancelling hpending =>
    split at hstep
    · cases hstep
      simp only [yieldOutcome] at hrunning
      split at hrunning <;> cases hrunning
    next hfinished =>
      cases hstep
      simp [hfinished] at hrunning
    all_goals
      rename_i hgenerator
      split at hstep
      · cases hstep
        simp [hgenerator] at hrunning
      · cases hstep
        simp [hpending]

/-- A chunk that has been asked for is one of the generator's, or the task raises. -/
theorem Fetching.chunkStep (h : s.Fetching) (hstep : s.chunkStep outcome = some s') :
    s'.Fetching := by
  unfold Streamed.chunkStep at hstep
  split at hstep
  · cases hstep
  next cancelling hpending =>
    have hnot : s.generator ≠ .finished := h.asking (by simp [hpending])
    split at hstep
    · cases hstep
      refine ⟨fun hdone => absurd rfl hdone, fun _ hsilent => ?_, fun _ hstop => ?_⟩
      · simp only at hsilent
        simp [yieldOutcome, hsilent]
      · simp only at hstop
        simp [yieldOutcome, hstop]
    · exact absurd (by assumption) hnot
    all_goals
      split at hstep
      · cases hstep
        exact ⟨fun hdone => absurd rfl hdone, nofun, nofun⟩
      · cases hstep
        exact ⟨nofun,
          fun hdone => absurd hdone (by simp [hpending]),
          fun hdone => absurd hdone (by simp [hpending])⟩

/-- A cancelled `next_chunk_task` ends and closes the generator that runs in it. -/
theorem Cleared.chunkStep (h : s.Cleared) (hsettled : s.chunkTask.settled = true)
    (hstep : s.chunkStep outcome = some s') : s'.Cleared ∧ s'.chunkTask = .done := by
  unfold Streamed.chunkStep at hstep
  split at hstep
  · cases hstep
  next cancelling hpending =>
    obtain rfl : cancelling = true := by
      cases cancelling with
      | true => rfl
      | false => simp [hpending, Task.settled] at hsettled
    split at hstep
    · cases hstep
      exact ⟨⟨h.request, Or.inl rfl⟩, rfl⟩
    next hfinished =>
      cases hstep
      exact ⟨⟨h.request, Or.inl hfinished⟩, rfl⟩
    all_goals
      rename_i hgenerator
      rcases h.generator with hfinished | hrunning
      · rw [hgenerator] at hfinished
        cases hfinished
      · rw [hgenerator] at hrunning
        cases hrunning.1

theorem sound_chunkStep (h : Sound s) (hstep : s.chunkStep outcome = some s') : Sound s' := by
  obtain ⟨hpending, hhandler, hbody, hwatch, haborted⟩ := chunkStep_frame hstep
  have hholds := h.holds
  refine ⟨fun hrunning => Or.inl (runs_chunkStep hstep hrunning), ?_⟩
  unfold Holds at hholds ⊢
  rw [hhandler]
  split at hholds
  · exact ⟨hbody.trans hholds.1, hholds.2.chunkStep hstep⟩
  · exact hbody.trans hholds
  · exact ⟨hbody.trans hholds.1, haborted.trans hholds.2⟩
  · exact ⟨hbody.trans hholds.1, haborted.trans hholds.2⟩
  · obtain ⟨habsent, hok, hcleared, hsettled⟩ := hholds
    obtain ⟨hcleared', hdone⟩ := hcleared.chunkStep hsettled hstep
    exact ⟨hbody.trans habsent, hok, hcleared', by rw [hdone]; rfl⟩
  next ok hpoint =>
    obtain ⟨habsent, hsettled, hdisconnect, hok⟩ := hholds
    cases ok with
    | true => exact absurd hok hpending
    | false =>
      have hcleared : s.Cleared := hok
      obtain ⟨hcleared', hdone⟩ := hcleared.chunkStep hsettled hstep
      refine ⟨hbody.trans habsent, by rw [hdone]; rfl, by rw [hwatch]; exact hdisconnect, ?_⟩
      exact hcleared'
  · obtain ⟨habsent, hreleased⟩ := hholds
    have hcleared : s.Cleared := ⟨hreleased.request, hreleased.generator⟩
    obtain ⟨hcleared', hdone⟩ := hcleared.chunkStep hreleased.chunkTask hstep
    exact ⟨hbody.trans habsent, hcleared'.request, hcleared'.generator, by rw [hdone]; rfl,
      by rw [hwatch]; exact hreleased.disconnectTask⟩
  · exact absurd hholds.1 hpending

theorem sound_world {ended : Bool} (h : Sound s) (htask : task = s.disconnectTask ∨ task = .done)
    (hended : s.ended = true → ended = true) :
    Sound { s with ended := ended, disconnectTask := task } := by
  have hrequest : (s.submitted = true → s.ended = true ∨ s.aborted = true) →
      s.submitted = true → ended = true ∨ s.aborted = true :=
    fun hor hsubmitted => (hor hsubmitted).imp_left hended
  have hsettled : s.disconnectTask.settled = true → task.settled = true := by
    rcases htask with rfl | rfl
    · exact id
    · exact fun _ => rfl
  have hholds := h.holds
  refine ⟨h.runs, ?_⟩
  cases hpoint : s.handler <;> simp only [Holds, hpoint] at hholds ⊢
  case wait =>
    exact ⟨hholds.1, hholds.2.asking, hholds.2.chunk, fun hdone hstop =>
      hended (hholds.2.stop hdone hstop)⟩
  case finallyChunk =>
    obtain ⟨habsent, hok, hcleared, hchunk⟩ := hholds
    exact ⟨habsent, hok, ⟨hrequest hcleared.request, hcleared.generator⟩, hchunk⟩
  case finallyWatch ok =>
    obtain ⟨habsent, hchunk, hdisconnect, hok⟩ := hholds
    refine ⟨habsent, hchunk, hsettled hdisconnect, ?_⟩
    cases ok with
    | true => exact hok
    | false =>
      have hcleared : s.Cleared := hok
      rw [if_neg Bool.false_ne_true]
      exact ⟨hrequest hcleared.request, hcleared.generator⟩
  case raised =>
    obtain ⟨habsent, hreleased⟩ := hholds
    exact ⟨habsent, hrequest hreleased.request, hreleased.generator, hreleased.chunkTask,
      hsettled hreleased.disconnectTask⟩
  case returned =>
    obtain ⟨hdone, hdisconnect, hbody⟩ := hholds
    refine ⟨hdone, hsettled hdisconnect, ?_⟩
    cases hat : s.body <;> simp only [BodyHolds, hat] at hbody ⊢
    all_goals first
      | exact hbody
      | exact ⟨hrequest hbody.request, hbody.generator⟩
  all_goals exact hholds

theorem Sound.returned (h : Sound s) (hbody : s.body ≠ .absent) : s.handler = .returned ∧
    s.chunkTask = .done ∧ s.disconnectTask.settled = true ∧ s.BodyHolds := by
  have hholds := h.holds
  cases hpoint : s.handler <;> simp only [Holds, hpoint] at hholds
  case returned => exact ⟨rfl, hholds⟩
  case cancelChunk => exact absurd hholds hbody
  all_goals exact absurd hholds.1 hbody

/-- A step of the body, which keeps what the handler has left. -/
theorem sound_body (h : Sound s) (hbody : s.body ≠ .absent) (hhandler : s'.handler = s.handler)
    (htask : s'.chunkTask = s.chunkTask) (hwatch : s'.disconnectTask = s.disconnectTask)
    (hruns : s'.generator = .running → s'.body = .awaiting)
    (hholds : s.BodyHolds → s'.BodyHolds) : Sound s' := by
  obtain ⟨hreturned, hdone, hsettled, hat⟩ := h.returned hbody
  refine ⟨fun hrunning => Or.inr (hruns hrunning), ?_⟩
  unfold Holds
  rw [hhandler, hreturned]
  exact ⟨htask.trans hdone, by rw [hwatch]; exact hsettled, hholds hat⟩

theorem sound_bodyNext (h : Sound s) (hstep : s.bodyNext = some s') : Sound s' := by
  unfold bodyNext at hstep
  split at hstep
  next hbody =>
    cases hstep
    have hat := (h.returned (by simp [hbody])).2.2.2
    simp only [BodyHolds, hbody] at hat
    exact sound_body h (by simp [hbody]) rfl rfl rfl (fun hrunning => absurd hrunning hat)
      fun _ => hat
  next hbody =>
    cases hstep
    exact sound_body h (by simp [hbody]) rfl rfl rfl (fun _ => rfl) fun _ => trivial
  · cases hstep

theorem sound_bodyChunk (h : Sound s) (hstep : s.bodyChunk outcome = some s') : Sound s' := by
  unfold bodyChunk at hstep
  split at hstep
  next hbody =>
    have hpresent : s.body ≠ .absent := by simp [hbody]
    cases hstep
    cases outcome with
    | silent => exact h
    | audio =>
      exact sound_body h hpresent rfl rfl rfl nofun nofun
    | stop =>
      exact sound_body h hpresent rfl rfl rfl nofun
        fun _ => ⟨fun _ => Or.inl rfl, Or.inl rfl⟩
    | unusable =>
      exact sound_body h hpresent rfl rfl rfl nofun
        fun _ => ⟨rfl, nofun⟩
    | error =>
      exact sound_body h hpresent rfl rfl rfl nofun
        fun _ => ⟨rfl, nofun⟩
    | cancelled =>
      exact sound_body h hpresent rfl rfl rfl nofun
        fun _ => ⟨rfl, nofun⟩
  · cases hstep

theorem sound_bodyClose (h : Sound s) (hspared : s.Spared .bodyClose)
    (hstep : s.bodyClose = some s') : Sound s' := by
  unfold bodyClose at hstep
  split at hstep
  next hbody =>
    exact absurd hbody hspared
  next hbody =>
    cases hstep
    have hat := (h.returned (by simp [hbody])).2.2.2
    simp only [BodyHolds, hbody] at hat
    exact sound_body h (by simp [hbody]) rfl rfl rfl (fun hrunning => absurd hrunning hat)
      fun _ => ⟨rfl, hat⟩
  · cases hstep

theorem sound_bodyResume (h : Sound s) (hstep : s.bodyResume = some s') : Sound s' := by
  unfold bodyResume at hstep
  split at hstep
  next hbody =>
    cases hstep
    have hat := (h.returned (by simp [hbody])).2.2.2
    simp only [BodyHolds, hbody] at hat
    obtain ⟨haborted, hnot⟩ := hat
    have hclosed : s.close.generator = .finished := finished_of_close fun hrunning =>
      hnot (running_of_close hrunning)
    refine sound_body h (by simp [hbody]) rfl rfl rfl (fun hrunning => ?_) fun _ => ?_
    · exact absurd (running_of_close hrunning) hnot
    · exact ⟨fun _ => Or.inr haborted, Or.inl hclosed⟩
  · cases hstep

theorem Sound.step {a : StreamedAction} (h : Sound s) (hspared : s.Spared a)
    (hstep : s.step a = some s') : Sound s' := by
  cases a with
  | resume => exact sound_resume h hstep
  | cancel => exact sound_cancel h hspared hstep
  | chunk outcome => exact sound_chunkStep h hstep
  | disconnectTask =>
    simp only [Streamed.step] at hstep
    split at hstep
    · cases hstep
    · cases hstep
      exact sound_world h (Or.inr rfl) id
  | finish =>
    simp only [Streamed.step] at hstep
    split at hstep
    · cases hstep
      exact sound_world h (Or.inl rfl) fun _ => rfl
    · cases hstep
  | bodyNext => exact sound_bodyNext h hstep
  | bodyChunk outcome => exact sound_bodyChunk h hstep
  | bodyClose => exact sound_bodyClose h hspared hstep
  | bodyResume => exact sound_bodyResume h hstep

theorem Sound.released (h : Sound s) (hover : s.isOver = true) : s.Released := by
  have hholds := h.holds
  unfold isOver at hover
  rcases of_decide_eq_true hover with hraised | ⟨hreturned, hbody⟩
  · unfold Holds at hholds
    simp only [hraised] at hholds
    exact hholds.2
  · unfold Holds BodyHolds at hholds
    simp only [hreturned, hbody] at hholds
    obtain ⟨hdone, hsettled, hcleared⟩ := hholds
    exact ⟨hcleared.request, hcleared.generator, by rw [hdone]; rfl, hsettled⟩

end Streamed

namespace Single

/-- The request is taken care of. -/
def Cleared (s : Single) : Prop := s.submitted = true → s.ended = true ∨ s.aborted = true

/-- What holds at each await. -/
def Holds (s : Single) : Prop :=
  match s.handler with
  | .wait => s.speechTask ≠ .pending true ∧
      (s.speechTask = .done → s.submitted = true → s.ended = true)
  | .abort | .abortExcept => s.aborted = true
  | .finallySpeech => s.Cleared ∧ s.speechTask.settled = true
  | .finallyDisconnect | .completed => s.Released

/-- The audio is encoded once the request has ended. -/
structure Sound (s : Single) : Prop where
  encoding : s.speech = .encoding → s.ended = true
  holds : s.Holds

theorem sound_init : Sound init where
  encoding h := by cases h
  holds := ⟨by simp [init], nofun⟩

variable {s s' : Single}

theorem sound_finallyDisconnect (hencoding : s.speech = .encoding → s.ended = true)
    (hcleared : s.Cleared) (hspeech : s.speechTask.settled = true) :
    Sound s.finallyDisconnect := by
  unfold finallyDisconnect
  split
  next hdone =>
    exact ⟨hencoding, hcleared, hspeech, by rw [show _ = s.disconnectTask from rfl, hdone]; rfl⟩
  · exact ⟨hencoding, hcleared, hspeech, Task.settled_cancel _⟩

theorem sound_enterFinally (hencoding : s.speech = .encoding → s.ended = true)
    (hcleared : s.Cleared) : Sound s.enterFinally := by
  unfold enterFinally
  split
  next hdone =>
    exact sound_finallyDisconnect hencoding hcleared (by rw [hdone]; rfl)
  · exact ⟨hencoding, hcleared, Task.settled_cancel _⟩

theorem sound_resume (h : Sound s) (hstep : s.resume = some s') : Sound s' := by
  have hholds := h.holds
  cases hpoint : s.handler <;> simp only [Holds, resume, hpoint, reduceCtorEq] at hholds hstep
  case wait =>
    split at hstep
    next hdone =>
      cases hstep
      exact sound_enterFinally h.encoding fun hsubmitted => Or.inl (hholds.2 hdone hsubmitted)
    · split at hstep
      · cases hstep
        exact ⟨h.encoding, rfl⟩
      · cases hstep
  case finallySpeech =>
    cases hstep
    exact sound_finallyDisconnect h.encoding hholds.1 hholds.2
  case finallyDisconnect =>
    cases hstep
    exact ⟨h.encoding, hholds.request, hholds.speechTask, hholds.disconnectTask⟩
  all_goals
    cases hstep
    exact sound_enterFinally h.encoding fun _ => Or.inr hholds

theorem sound_cancel (h : Sound s) (hspared : s.Spared .cancel) (hstep : s.cancel = some s') :
    Sound s' := by
  have hholds := h.holds
  cases hpoint : s.handler <;> simp only [Holds, cancel, hpoint, reduceCtorEq] at hholds hstep
  case abortExcept =>
    cases hstep
    exact sound_enterFinally h.encoding fun _ => Or.inr hholds
  case finallySpeech =>
    have hwatch : s.disconnectTask = .done := hspared hpoint
    cases hstep
    exact ⟨h.encoding, hholds.1, hholds.2,
      by rw [show _ = s.disconnectTask from rfl, hwatch]; rfl⟩
  case finallyDisconnect =>
    cases hstep
    exact ⟨h.encoding, hholds.request, hholds.speechTask, hholds.disconnectTask⟩
  all_goals
    cases hstep
    exact ⟨h.encoding, rfl⟩

variable {raises : Bool}

theorem speechStep_settled (hsettled : s.speechTask.settled = true)
    (hstep : s.speechStep raises = some s') : s' = { s with speechTask := .done } := by
  unfold speechStep at hstep
  split at hstep
  · cases hstep
  next cancelling hpending =>
    obtain rfl : cancelling = true := by
      cases cancelling with
      | true => rfl
      | false => simp [hpending, Task.settled] at hsettled
    exact (some.inj hstep).symm

theorem speechStep_frame (hstep : s.speechStep raises = some s') :
    s'.handler = s.handler ∧ s'.disconnectTask = s.disconnectTask ∧ s'.aborted = s.aborted := by
  unfold speechStep at hstep
  repeat' split at hstep
  all_goals first
    | cases hstep; done
    | (cases hstep; exact ⟨rfl, rfl, rfl⟩)

theorem speechStep_wait (hencoding : s.speech = .encoding → s.ended = true)
    (hnot : s.speechTask ≠ .pending true) (hstep : s.speechStep raises = some s') :
    (s'.speech = .encoding → s'.ended = true) ∧ s'.speechTask ≠ .pending true ∧
      (s'.speechTask = .done → s'.submitted = true → s'.ended = true) := by
  unfold speechStep at hstep
  split at hstep
  · cases hstep
  next cancelling hpending =>
    obtain rfl : cancelling = false := by
      cases cancelling with
      | true => exact absurd hpending hnot
      | false => rfl
    simp only [Bool.false_eq_true, if_false] at hstep
    split at hstep
    · cases hstep
      exact ⟨nofun, hnot, fun hdone => by simp [hpending] at hdone⟩
    · split at hstep
      · cases hstep
        exact ⟨fun _ => rfl, by simp, fun _ _ => rfl⟩
      · cases hstep
        exact ⟨fun _ => rfl, hnot, fun _ _ => rfl⟩
    next hat =>
      cases hstep
      exact ⟨hencoding, by simp, fun _ _ => hencoding hat⟩

theorem encoding_speechStep (hencoding : s.speech = .encoding → s.ended = true)
    (hstep : s.speechStep raises = some s') : s'.speech = .encoding → s'.ended = true := by
  by_cases hcancelled : s.speechTask = .pending true
  · rw [speechStep_settled (by rw [hcancelled]; rfl) hstep]
    exact hencoding
  · exact (speechStep_wait hencoding hcancelled hstep).1

theorem sound_speechStep (h : Sound s) (hstep : s.speechStep raises = some s') :
    Sound s' := by
  obtain ⟨hhandler, hwatch, haborted⟩ := speechStep_frame hstep
  have hholds := h.holds
  refine ⟨encoding_speechStep h.encoding hstep, ?_⟩
  unfold Holds at hholds ⊢
  rw [hhandler]
  split at hholds
  · exact (speechStep_wait h.encoding hholds.1 hstep).2
  · exact haborted.trans hholds
  · exact haborted.trans hholds
  · obtain rfl := speechStep_settled hholds.2 hstep
    exact ⟨hholds.1, rfl⟩
  · obtain rfl := speechStep_settled hholds.speechTask hstep
    exact ⟨hholds.request, rfl, hholds.disconnectTask⟩
  · obtain rfl := speechStep_settled hholds.speechTask hstep
    exact ⟨hholds.request, rfl, hholds.disconnectTask⟩

theorem sound_world {ended : Bool} (h : Sound s) (htask : task = s.disconnectTask ∨ task = .done)
    (hended : s.ended = true → ended = true) :
    Sound { s with ended := ended, disconnectTask := task } := by
  have hcleared : s.Cleared → s.submitted = true → ended = true ∨ s.aborted = true :=
    fun hor hsubmitted => (hor hsubmitted).imp_left hended
  have hsettled : s.disconnectTask.settled = true → task.settled = true := by
    rcases htask with rfl | rfl
    · exact id
    · exact fun _ => rfl
  have hholds := h.holds
  refine ⟨fun hat => hended (h.encoding hat), ?_⟩
  cases hpoint : s.handler <;> simp only [Holds, hpoint] at hholds ⊢
  case wait => exact ⟨hholds.1, fun hdone hsubmitted => hended (hholds.2 hdone hsubmitted)⟩
  case finallySpeech => exact ⟨hcleared hholds.1, hholds.2⟩
  case finallyDisconnect | completed =>
    exact ⟨hcleared hholds.request, hholds.speechTask, hsettled hholds.disconnectTask⟩
  all_goals exact hholds

theorem Sound.step {a : SingleAction} (h : Sound s) (hspared : s.Spared a)
    (hstep : s.step a = some s') : Sound s' := by
  cases a with
  | resume => exact sound_resume h hstep
  | cancel => exact sound_cancel h hspared hstep
  | speech raises => exact sound_speechStep h hstep
  | disconnectTask =>
    simp only [Single.step] at hstep
    split at hstep
    · cases hstep
    · cases hstep
      exact sound_world h (Or.inr rfl) id
  | finish =>
    simp only [Single.step] at hstep
    split at hstep
    · cases hstep
      exact sound_world h (Or.inl rfl) fun _ => rfl
    · cases hstep

theorem Sound.released (h : Sound s) (hover : s.handler = .completed) : s.Released := by
  have hholds := h.holds
  unfold Holds at hholds
  simpa only [hover] using hholds

end Single

namespace Item

/-- The reference is done when the request is submitted, and cancelled with its item. -/
structure Tidy (item : Item) : Prop where
  speaking : item.speaking = true → ∀ task ∈ item.reference, task = .done
  settled : item.task.settled = true → ∀ task ∈ item.reference, task.settled = true

/-- The item has not been cancelled, and it ends with its request. -/
structure Calm (item : Item) : Prop where
  task : item.task ≠ .pending true
  ended : item.task = .done → item.speaking = true → item.ended = true

variable {item item' : Item}

/-- What a step of an item, its reference or its request leaves alone. -/
structure Step (item item' : Item) : Prop where
  tidy : item.Tidy → item'.Tidy
  calm : item.Calm → item'.Calm
  settled : item.task.settled = true → item'.task.settled = true
  done : item.task = .done → item'.task = .done
  aborted : item'.aborted = item.aborted
  released : item.Released → item'.Released

variable {raises : Bool}

theorem step_work (hstep : item.work raises = some item') : Step item item' := by
  unfold work at hstep
  split at hstep
  · cases hstep
  next cancelling hpending =>
    have hnot : item.task ≠ .done := by simp [hpending]
    split at hstep
    next hcancelling =>
      subst hcancelling
      cases hstep
      have hsettled : item.task.settled = true := by rw [hpending]; rfl
      exact ⟨fun h => ⟨h.speaking, fun _ => h.settled hsettled⟩,
        fun h => absurd hpending h.task, fun _ => rfl, fun _ => rfl, rfl,
        fun h => ⟨h.request, rfl, h.reference⟩⟩
    next hcancelling =>
      obtain rfl : cancelling = false := by simpa using hcancelling
      have hunsettled : item.task.settled ≠ true := by rw [hpending]; decide
      split at hstep
      next hspeaking =>
        cases hstep
        refine ⟨fun h => ⟨h.speaking, fun _ task htask => ?_⟩, fun _ => ⟨by simp, fun _ _ => rfl⟩,
          fun _ => rfl, fun _ => rfl, rfl, fun h => absurd h.task hunsettled⟩
        rw [h.speaking hspeaking task htask]
        rfl
      next hspeaking =>
        split at hstep
        · cases hstep
        next hreference =>
          have hdone : ∀ task ∈ item.reference, task = .done := by
            intro task htask
            by_contra hother
            exact hreference (by simp [mem_def.mp htask, hother])
          split at hstep
          · cases hstep
            exact ⟨fun h => ⟨h.speaking, fun _ task htask => by rw [hdone task htask]; rfl⟩,
              fun _ => ⟨by simp, fun _ hsubmitted => absurd hsubmitted hspeaking⟩, fun _ => rfl,
              fun _ => rfl, rfl, fun h => absurd h.task hunsettled⟩
          · cases hstep
            exact ⟨fun h => ⟨fun _ => hdone, h.settled⟩,
              fun h => ⟨h.task, fun hended => absurd hended hnot⟩, id, id, rfl,
              fun h => absurd h.task hunsettled⟩

theorem step_create (hstep : item.create = some item') : Step item item' := by
  unfold create at hstep
  split at hstep
  next hfresh =>
    obtain ⟨htask, -, hspeaking⟩ := hfresh
    have hunsettled : item.task.settled ≠ true := by rw [htask]; decide
    cases hstep
    exact ⟨fun _ => ⟨fun h => absurd h (by simp [hspeaking]), fun h => absurd h hunsettled⟩,
      fun h => ⟨h.task, h.ended⟩, id, id, rfl, fun h => absurd h.task hunsettled⟩
  · cases hstep

theorem step_refer (hstep : item.refer = some item') : Step item item' := by
  unfold refer at hstep
  split at hstep
  · cases hstep
    have hdone : ∀ task ∈ some Task.done, task = .done := by simp
    have hsettled : ∀ task ∈ some Task.done, task.settled = true := by simp [Task.settled]
    exact ⟨fun _ => ⟨fun _ => hdone, fun _ => hsettled⟩, fun h => ⟨h.task, h.ended⟩, id, id, rfl,
      fun h => ⟨h.request, h.task, hsettled⟩⟩
  · cases hstep

theorem step_finish (hstep : (if item.speaking then some { item with ended := true } else none) =
    some item') : Step item item' := by
  split at hstep
  · cases hstep
    exact ⟨fun h => ⟨h.speaking, h.settled⟩, fun h => ⟨h.task, fun _ _ => rfl⟩, id, id, rfl,
      fun h => ⟨fun _ => Or.inl rfl, h.task, h.reference⟩⟩
  · cases hstep

theorem tidy_cancel (h : item.Tidy) : item.cancel.Tidy := by
  by_cases hspeaking : item.speaking = true
  · have hreference : item.cancel.reference = item.reference := if_pos (Or.inr hspeaking)
    refine ⟨fun _ => by rw [hreference]; exact h.speaking hspeaking, fun _ task htask => ?_⟩
    rw [hreference] at htask
    rw [h.speaking hspeaking task htask]
    rfl
  · refine ⟨fun hnever => absurd hnever hspeaking, fun _ => ?_⟩
    by_cases hdone : item.task = .done
    · rw [show item.cancel.reference = item.reference from if_pos (Or.inl hdone)]
      exact h.settled (by rw [hdone]; rfl)
    · rw [show item.cancel.reference = item.reference.map Task.cancel from
        if_neg (by simp [hdone, hspeaking])]
      intro task htask
      obtain ⟨reference, -, rfl⟩ := map_eq_some_iff.mp htask
      exact Task.settled_cancel reference

theorem tidy_abort (h : item.Tidy) : { item with aborted := true }.Tidy := ⟨h.speaking, h.settled⟩

theorem Tidy.released (h : item.Tidy) (hdone : item.task = .done)
    (hrequest : item.speaking = true → item.ended = true ∨ item.aborted = true) : item.Released :=
  ⟨hrequest, by rw [hdone]; rfl, h.settled (by rw [hdone]; rfl)⟩

end Item

namespace Batch

variable {s s' : Batch}

/-- What holds at each point of `batch_task`. -/
def Phase (s : Batch) : Prop :=
  match s.batchTask with
  | .unstarted => s.items = []
  | .gathering => if s.cancelling then ∀ item ∈ s.items, item.task.settled = true
      else ∀ item ∈ s.items, item.Calm
  | .regathering => s.cancelling = false ∧ ∀ item ∈ s.items, item.task = .done
  | .aborting k => (s.cancelling = true → k + 1 = s.items.length) ∧
      (∀ item ∈ s.items, item.task = .done) ∧
      ∀ i item, s.items[i]? = some item → i ≤ k → item.aborted = true
  | .done => ∀ item ∈ s.items, item.Released

/-- What holds at each await of the handler. -/
def Reached (s : Batch) : Prop :=
  match s.handler with
  | .wait => s.cancelling = false ∧ s.batchTask ≠ .regathering ∧ ∀ k, s.batchTask ≠ .aborting k
  | .awaiting => True
  | .finallyDisconnect | .completed => s.batchTask = .done ∧ s.disconnectTask.settled = true

/-- The items with their tasks, `batch_task` and the handler. -/
structure Sound (s : Batch) : Prop where
  tidy : ∀ item ∈ s.items, item.Tidy
  phase : s.Phase
  reached : s.Reached

theorem sound_init (size : ℕ) : Sound (init size) where
  tidy := nofun
  phase := rfl
  reached := ⟨rfl, by simp [init], by simp [init]⟩

theorem sound_enterFinally (h : Sound s) (hdone : s.batchTask = .done) : Sound s.enterFinally := by
  unfold enterFinally
  split
  next hwatch =>
    exact ⟨h.tidy, h.phase, hdone, by rw [show _ = s.disconnectTask from rfl, hwatch]; rfl⟩
  · exact ⟨h.tidy, h.phase, hdone, Task.settled_cancel _⟩

theorem sound_cancelBatchTask (h : Sound s) (hgather : s.batchTask ≠ .regathering)
    (habort : ∀ k, s.batchTask = .aborting k → k + 1 = s.items.length) :
    Sound { s.cancelBatchTask with handler := .awaiting } := by
  have hphase := h.phase
  unfold Phase at hphase
  unfold cancelBatchTask
  split
  · exact ⟨h.tidy, h.phase, trivial⟩
  next hpoint =>
    refine ⟨?_, ?_, trivial⟩
    · intro item hitem
      obtain ⟨before, hbefore, rfl⟩ := mem_map.mp hitem
      exact Item.tidy_cancel (h.tidy before hbefore)
    · simp only [Phase, hpoint, if_true]
      intro item hitem
      obtain ⟨before, hbefore, rfl⟩ := mem_map.mp hitem
      exact Task.settled_cancel before.task
  next hdone hgathering =>
    refine ⟨h.tidy, ?_, trivial⟩
    split at hphase
    next hpoint =>
      simp only [hpoint]
      exact hphase
    next hpoint =>
      exact absurd hpoint hgathering
    next hpoint =>
      exact absurd hpoint hgather
    next k hpoint =>
      simp only [hpoint]
      exact ⟨fun _ => habort k hpoint, hphase.2⟩
    next hpoint =>
      exact absurd hpoint hdone

theorem sound_resume (h : Sound s) (hstep : s.resume = some s') : Sound s' := by
  have hat := h.reached
  unfold Reached at hat
  unfold resume at hstep
  split at hstep
  next hpoint =>
    simp only [hpoint] at hat
    split at hstep
    next hdone =>
      cases hstep
      exact sound_enterFinally h hdone
    · split at hstep
      · cases hstep
        exact sound_cancelBatchTask h hat.2.1 fun k hk => absurd hk (hat.2.2 k)
      · cases hstep
  · split at hstep
    next hdone =>
      cases hstep
      exact sound_enterFinally h hdone
    · cases hstep
  next hpoint =>
    simp only [hpoint] at hat
    cases hstep
    exact ⟨h.tidy, h.phase, hat⟩
  · cases hstep

theorem sound_cancel (h : Sound s) (hspared : s.Spared .cancel) (hstep : s.cancel = some s') :
    Sound s' := by
  have hat := h.reached
  unfold Reached at hat
  unfold cancel at hstep
  split at hstep
  next hpoint =>
    cases hstep
    exact sound_enterFinally h (hspared.1 hpoint)
  next hpoint =>
    split at hstep
    next hdone =>
      cases hstep
      exact sound_enterFinally h hdone
    · cases hstep
      have hsame : { s.cancelBatchTask with handler := .awaiting } = s.cancelBatchTask := by
        unfold cancelBatchTask
        split <;> rw [← hpoint]
      rw [← hsame]
      exact sound_cancelBatchTask h (hspared.2 hpoint).1 (hspared.2 hpoint).2
  next hpoint =>
    simp only [hpoint] at hat
    cases hstep
    exact ⟨h.tidy, h.phase, hat⟩
  · cases hstep

theorem reached_wait (hat : s.Reached) (hwait : s.handler = .wait) : s.cancelling = false ∧
    s.batchTask ≠ .regathering ∧ ∀ k, s.batchTask ≠ .aborting k := by
  unfold Reached at hat
  simpa only [hwait] using hat

theorem reached_of_point {point : BatchTaskPoint} {cancelling : Bool} {items : List Item}
    (hat : s.Reached)
    (hwait : s.handler = .wait → cancelling = false ∧ point ≠ .regathering ∧
      ∀ k, point ≠ .aborting k) (hnot : s.batchTask ≠ .done) :
    Reached { s with batchTask := point, cancelling := cancelling, items := items } := by
  unfold Reached at hat ⊢
  split at hat
  all_goals
    rename_i hpoint
    simp only [hpoint]
  · exact hwait hpoint
  · exact absurd hat.1 hnot
  · exact absurd hat.1 hnot

theorem sound_abortItem {k : ℕ} (h : Sound s) (hcalm : s.cancelling = false)
    (hhandler : s.handler ≠ .wait) (hdone : ∀ item ∈ s.items, item.task = .done)
    (haborted : ∀ i item, s.items[i]? = some item → i < k → item.aborted = true)
    (hnot : s.batchTask ≠ .done) : Sound (s.abortItem k) := by
  have hreached : s.handler = .awaiting := by
    have hat := h.reached
    unfold Reached at hat
    split at hat
    next hpoint =>
      exact absurd hpoint hhandler
    · assumption
    · exact absurd hat.1 hnot
    · exact absurd hat.1 hnot
  unfold abortItem
  split
  next hlt =>
    refine ⟨?_, ⟨fun hcancelling => ?_, ?_, ?_⟩, by simp only [Reached, hreached]⟩
    · intro item hitem
      obtain ⟨i, hi⟩ := mem_iff_getElem?.mp hitem
      simp only [getElem?_modify] at hi
      obtain ⟨before, hbefore, rfl⟩ := map_eq_some_iff.mp hi
      have htidy := h.tidy before (mem_of_getElem? hbefore)
      split
      · exact Item.tidy_abort htidy
      · exact htidy
    · exact absurd (show s.cancelling = true from hcancelling) (by simp [hcalm])
    · intro item hitem
      obtain ⟨i, hi⟩ := mem_iff_getElem?.mp hitem
      simp only [getElem?_modify] at hi
      obtain ⟨before, hbefore, rfl⟩ := map_eq_some_iff.mp hi
      have htask := hdone before (mem_of_getElem? hbefore)
      split <;> exact htask
    · intro i item hi hle
      simp only [getElem?_modify] at hi
      obtain ⟨before, hbefore, rfl⟩ := map_eq_some_iff.mp hi
      split
      · rfl
      · exact haborted i before hbefore (by omega)
  next hge =>
    refine ⟨h.tidy, fun item hitem => ?_, by simp only [Reached, hreached]⟩
    obtain ⟨i, hi⟩ := mem_iff_getElem?.mp hitem
    have hlt : i < s.items.length := (List.getElem?_eq_some_iff.mp hi).1
    exact (h.tidy item hitem).released (hdone item hitem) fun _ =>
      Or.inr (haborted i item hi (by omega))

theorem sound_batchStep (h : Sound s) (hstep : s.batchStep = some s') : Sound s' := by
  have hphase := h.phase
  have hat := h.reached
  unfold Phase at hphase
  unfold batchStep at hstep
  split at hstep
  next hpoint =>
    simp only [hpoint] at hphase
    split at hstep
    · cases hstep
      refine ⟨h.tidy, ?_, ?_⟩
      · intro item hitem
        rw [show _ = s.items from rfl, hphase] at hitem
        cases hitem
      · exact reached_of_point hat (fun hwait => ⟨rfl, by simp, by simp⟩) (by simp [hpoint])
    next hcancelling =>
      cases hstep
      have hfresh : ∀ item ∈ List.replicate s.size
          (⟨.pending false, none, false, false, false⟩ : Item), item.Tidy ∧ item.Calm ∧
            s.size ≠ 0 := by
        intro item hitem
        obtain ⟨hsize, rfl⟩ := mem_replicate.mp hitem
        exact ⟨⟨nofun, nofun⟩, ⟨by simp, nofun⟩, hsize⟩
      refine ⟨fun item hitem => (hfresh item hitem).1, ?_, ?_⟩
      · by_cases hsize : s.size = 0
        · simp only [Phase, hsize, if_true]
          exact nofun
        · simp only [Phase, hsize, if_false, hcancelling, Bool.false_eq_true]
          exact fun item hitem => (hfresh item hitem).2.1
      · refine reached_of_point hat (fun hwait => ⟨by simpa using hcancelling, ?_⟩)
          (by simp [hpoint])
        split <;> simp
  next hpoint =>
    simp only [hpoint] at hphase
    split at hstep
    next hall =>
      have hdone : ∀ item ∈ s.items, item.task = .done := fun item hitem =>
        of_decide_eq_true (all_eq_true.mp hall item hitem)
      split at hstep
      next hcancelling =>
        cases hstep
        refine ⟨h.tidy, ⟨rfl, hdone⟩, reached_of_point hat (fun hwait => ?_) (by simp [hpoint])⟩
        exact absurd hcancelling (by simp [reached_wait hat hwait])
      next hcancelling =>
        cases hstep
        rw [if_neg hcancelling] at hphase
        refine ⟨h.tidy, fun item hitem => ?_,
          reached_of_point hat (fun hwait => ⟨by simpa using hcancelling, by simp, by simp⟩)
            (by simp [hpoint])⟩
        exact (h.tidy item hitem).released (hdone item hitem) fun hspeaking =>
          Or.inl ((hphase item hitem).ended (hdone item hitem) hspeaking)
    · cases hstep
  next hpoint =>
    simp only [hpoint] at hphase
    obtain ⟨hcalm, hdone⟩ := hphase
    have hwait : s.handler ≠ .wait := fun hwait => (reached_wait hat hwait).2.1 hpoint
    rw [if_neg (by simp [hcalm])] at hstep
    cases hstep
    exact sound_abortItem h hcalm hwait hdone (fun i item _ hlt => absurd hlt (by omega))
      (by simp [hpoint])
  next k hpoint =>
    simp only [hpoint] at hphase
    obtain ⟨hlast, hdone, haborted⟩ := hphase
    have hwait : s.handler ≠ .wait := fun hwait => (reached_wait hat hwait).2.2 k hpoint
    split at hstep
    next hcancelling =>
      cases hstep
      refine ⟨h.tidy, fun item hitem => ?_,
        reached_of_point hat (fun hpoint => absurd hpoint hwait) (by simp [hpoint])⟩
      obtain ⟨i, hi⟩ := mem_iff_getElem?.mp hitem
      have hlt : i < s.items.length := (List.getElem?_eq_some_iff.mp hi).1
      have hle := hlast hcancelling
      exact (h.tidy item hitem).released (hdone item hitem) fun _ =>
        Or.inr (haborted i item hi (by omega))
    next hcancelling =>
      cases hstep
      exact sound_abortItem h (by simpa using hcancelling) hwait hdone
        (fun i item hi hlt => haborted i item hi (by omega)) (by simp [hpoint])
  · cases hstep

theorem sound_atItem {i : ℕ} {step : Item → Option Item}
    (hitem : ∀ item item', step item = some item' → Item.Step item item') (h : Sound s)
    (hstep : s.atItem i step = some s') : Sound s' := by
  obtain ⟨item', hbind, rfl⟩ := map_eq_some_iff.mp hstep
  obtain ⟨item, hget, hmove⟩ := bind_eq_some_iff.mp hbind
  have hmember : item ∈ s.items := mem_of_getElem? hget
  have hkept := hitem item item' hmove
  -- what a step of an item keeps holds of all items again
  have hall : ∀ P : Item → Prop, (P item → P item') → (∀ other ∈ s.items, P other) →
      ∀ other ∈ s.items.set i item', P other := by
    intro P hkeep hbefore other hother
    rcases mem_or_eq_of_mem_set hother with hold | rfl
    · exact hbefore other hold
    · exact hkeep (hbefore item hmember)
  have hphase := h.phase
  refine ⟨hall Item.Tidy hkept.tidy h.tidy, ?_, h.reached⟩
  unfold Phase at hphase ⊢
  split at hphase
  all_goals
    rename_i hpoint
    simp only [hpoint]
  · rw [hphase] at hmember
    cases hmember
  · split at hphase
    next hcancelling =>
      rw [if_pos hcancelling]
      exact hall (fun item => item.task.settled = true) hkept.settled hphase
    next hcancelling =>
      rw [if_neg hcancelling]
      exact hall Item.Calm hkept.calm hphase
  · exact ⟨hphase.1, hall (fun item => item.task = .done) hkept.done hphase.2⟩
  next k =>
    refine ⟨by rw [length_set]; exact hphase.1,
      hall (fun item => item.task = .done) hkept.done hphase.2.1, ?_⟩
    intro j other hother hle
    rw [getElem?_set] at hother
    split at hother
    next hij =>
      subst hij
      split at hother
      · cases hother
        rw [hkept.aborted]
        exact hphase.2.2 i item hget hle
      · cases hother
    · exact hphase.2.2 j other hother hle
  · exact hall Item.Released hkept.released hphase

theorem Sound.step {a : BatchAction} (h : Sound s) (hspared : s.Spared a)
    (hstep : s.step a = some s') : Sound s' := by
  cases a with
  | resume => exact sound_resume h hstep
  | cancel => exact sound_cancel h hspared hstep
  | batch => exact sound_batchStep h hstep
  | work i raises => exact sound_atItem (fun _ _ => Item.step_work) h hstep
  | create i => exact sound_atItem (fun _ _ => Item.step_create) h hstep
  | refer i => exact sound_atItem (fun _ _ => Item.step_refer) h hstep
  | disconnectTask =>
    simp only [Batch.step] at hstep
    split at hstep
    · cases hstep
    · cases hstep
      refine ⟨h.tidy, h.phase, ?_⟩
      have hat := h.reached
      unfold Reached at hat ⊢
      split at hat
      all_goals
        rename_i hpoint
        simp only [hpoint]
      · exact hat
      · exact ⟨hat.1, rfl⟩
      · exact ⟨hat.1, rfl⟩
  | finish i => exact sound_atItem (fun _ _ => Item.step_finish) h hstep

theorem Sound.released (h : Sound s) (hover : s.handler = .completed) : s.Released := by
  have hat := h.reached
  have hphase := h.phase
  unfold Reached at hat
  simp only [hover] at hat
  unfold Phase at hphase
  simp only [hat.1] at hphase
  exact ⟨hphase, hat.1, hat.2⟩

end Batch

/-- What holds at each await of an endpoint. -/
def Endpoint.Sound : Endpoint → Prop
  | .streamed s => s.Sound
  | .single s => s.Sound
  | .batch s => s.Sound

variable {e : Endpoint}

theorem Called.sound (h : Called e) : e.Sound := by
  cases h with
  | streamed => exact Streamed.sound_init
  | single => exact Single.sound_init
  | batch size => exact Batch.sound_init size

theorem Endpoint.Sound.step {e' : Endpoint} {a : Action} (h : e.Sound) (hspared : Spared e a)
    (hstep : Serve.step e a = some e') : e'.Sound := by
  cases e with
  | streamed s =>
    cases a with
    | streamed a =>
      obtain ⟨s', hmove, rfl⟩ := map_eq_some_iff.mp hstep
      exact Streamed.Sound.step h hspared hmove
    | single a => cases hstep
    | batch a => cases hstep
  | single s =>
    cases a with
    | streamed a => cases hstep
    | single a =>
      obtain ⟨s', hmove, rfl⟩ := map_eq_some_iff.mp hstep
      exact Single.Sound.step h hspared hmove
    | batch a => cases hstep
  | batch s =>
    cases a with
    | streamed a => cases hstep
    | single a => cases hstep
    | batch a =>
      obtain ⟨s', hmove, rfl⟩ := map_eq_some_iff.mp hstep
      exact Batch.Sound.step h hspared hmove

theorem Endpoint.Sound.released (h : e.Sound) (hover : e.Over) : e.Released := by
  cases e with
  | streamed s => exact Streamed.Sound.released h hover
  | single s => exact Single.Sound.released h hover
  | batch s => exact Batch.Sound.released h hover

/-- Once an endpoint is not used any more, its requests have ended or have been aborted, its chunk
generator is closed and its tasks are done or have been cancelled, in every interleaving that does
not fall into a gap. -/
theorem released_of_spared {e e' : Endpoint} {as : List Action} (hcalled : Called e)
    (hrun : Run step Spared e as e') (hover : e'.Over) : e'.Released := by
  have hsound : e'.Sound := hrun.invariant (I := Endpoint.Sound)
    (fun _ _ _ h hspared hstep => h.step hspared hstep) hcalled.sound
  exact hsound.released hover

/-- A streamed response whose consumer goes away after its first chunk. -/
def closedAfterChunk : List Action :=
  [.streamed (.chunk .audio), .streamed (.chunk .audio), .streamed .resume,
    .streamed .disconnectTask, .streamed .resume, .streamed .bodyNext, .streamed .bodyClose,
    .streamed .bodyResume]

theorem released_of_spared_closedAfterChunk :
    (Endpoint.streamed ⟨.returned, .completed, .finished, .done, .audio, .done, true, false,
      true⟩).Released :=
  released_of_spared .streamed
    (run_of_exec_guarded (by decide +kernel :
      exec (fun e a => if Spared e a then step e a else none) (.streamed .init)
        closedAfterChunk = some _))
    (by decide +kernel : Streamed.isOver _ = true)

/-- A body that is closed before it has been started, a handler cancelled in its `finally` block
and a batch handler cancelled at its first wait leave requests that nobody aborts. -/
theorem unspared_leaks :
    (∃ s, Run step anyAction (.streamed .init)
      [.streamed (.chunk .audio), .streamed (.chunk .audio), .streamed .resume,
        .streamed .disconnectTask, .streamed .resume, .streamed .bodyClose] (.streamed s) ∧
      s.isOver = true ∧ s.submitted = true ∧ s.ended = false ∧ s.aborted = false ∧
      s.generator = .suspended) ∧
    (∃ s, Run step anyAction (.streamed .init)
      [.streamed (.chunk .audio), .streamed (.chunk .audio), .streamed .resume,
        .streamed .cancel] (.streamed s) ∧
      s.isOver = true ∧ ¬s.Released) ∧
    (∃ s, Run step anyAction (.batch (.init 1)) [.batch .batch, .batch (.work 0 false),
        .batch .cancel, .batch .disconnectTask, .batch .resume] (.batch s) ∧
      s.handler = .completed ∧ ∀ item ∈ s.items, ¬item.Released) := by
  refine ⟨⟨_, run_of_exec (by rfl), by decide +kernel⟩,
    ⟨_, run_of_exec (by rfl), by decide +kernel⟩, ⟨_, run_of_exec (by rfl), rfl, ?_⟩⟩
  intro item hitem hreleased
  obtain rfl := mem_singleton.mp hitem
  exact absurd hreleased.task (by decide +kernel)

end Omni.Serve
