import Mathlib.Data.List.Basic
import Mathlib.Tactic.Common
import Omni.Library.Transition
import Omni.Scheduler.State

/-!
# The waiting queue between two threads

`abort` runs on the thread of the stage, while the scheduler's own thread appends to
`waiting_queue` and replaces it. The attribute refers to a list object: an append changes the
object, and an assignment leaves the old object to whoever has read it. Requests are known by
their ids.
-/

namespace Omni.Scheduler.Threads

open Transition List

/-- Where the thread of the stage stands in `abort`. In all points but the first it holds
`_request_admission_lock`. -/
inductive StagePoint
  | outside
  /-- The id is in `_aborted_request_ids`. -/
  | marked (requestId : String)
  /-- `self.waiting_queue` has been read, and the comprehension runs through the list. -/
  | read (requestId : String) (list : ℕ)
  /-- The new list has been built, but not yet assigned. -/
  | built (requestId : String) (kept : List String)
  deriving DecidableEq

/-- Where the thread of the scheduler stands. -/
inductive SchedulerPoint
  | outside
  /-- `get_new_batch_prefill` has read the queue and chosen requests of it. -/
  | selecting (list : ℕ) (chosen : List String)
  /-- These requests have been retracted, and have still to be appended. -/
  | retracting (reqs : List String)
  /-- The queue has been read for `self.waiting_queue.append(req)`. -/
  | appending (req : String) (list : ℕ) (reqs : List String)
  deriving DecidableEq

/-- The requests that the scheduler thread has taken out of the batch and not yet appended. -/
def SchedulerPoint.held : SchedulerPoint → List String
  | .retracting reqs => reqs
  | .appending req _ reqs => req :: reqs
  | _ => []

/-- The scheduler, as far as its queue goes. The fields after `scheduler` are history. -/
structure State where
  lists : ℕ → List String
  listCount : ℕ
  waitingQueue : ℕ
  batch : List String
  aborted : AbortedIds
  stage : StagePoint
  scheduler : SchedulerPoint
  enqueued : List String
  /-- The requests that have ever been selected for a batch. -/
  selected : List String
  finished : List String
  /-- The requests for which `abort` has been called. -/
  called : List String
  /-- The requests for which `abort` has returned. -/
  returned : List String
  /-- The requests that have been selected for the first time after their abort had returned. -/
  late : List String

/-- A scheduler that has not seen any request. -/
def State.init : State where
  lists := fun _ => []
  listCount := 1
  waitingQueue := 0
  batch := []
  aborted := ⟨∅, []⟩
  stage := .outside
  scheduler := .outside
  enqueued := []
  selected := []
  finished := []
  called := []
  returned := []
  late := []

/-- The content of `self.waiting_queue`. -/
def State.waiting (s : State) : List String := s.lists s.waitingQueue

/-- `self.waiting_queue = reqs`. -/
def State.setQueue (s : State) (reqs : List String) : State :=
  { s with
    lists := Function.update s.lists s.listCount reqs
    listCount := s.listCount + 1
    waitingQueue := s.listCount }

/-- Append to a list object. -/
def State.appendTo (s : State) (list : ℕ) (req : String) : State :=
  { s with lists := Function.update s.lists list (s.lists list ++ [req]) }

/-- What the threads do. -/
inductive Action
  /-- `abort` takes the lock and marks the id. -/
  | abort (requestId : String)
  /-- `abort` reads the queue. -/
  | read
  /-- The comprehension of `abort` has come to the end of the list. -/
  | build
  /-- `abort` assigns the queue and returns. -/
  | assign
  /-- `_enqueue_built_request`, which holds the lock. -/
  | enqueue (req : String)
  /-- `get_new_batch_prefill` reads the queue and chooses requests. -/
  | select (chosen : List String)
  /-- It assigns the queue without them. -/
  | assignSelected
  /-- Requests of the batch are retracted. -/
  | retract (reqs : List String)
  /-- The queue is read to append the next of them. -/
  | readToAppend
  | append
  /-- A request leaves the batch with its result. -/
  | finish (req : String)
  deriving DecidableEq

/-- One step of one of the threads. -/
def step (s : State) : Action → Option State
  | .abort requestId =>
    if s.stage = .outside then
      some { s with
        aborted := s.aborted.add requestId
        stage := .marked requestId
        called := s.called ++ [requestId] }
    else none
  | .read =>
    match s.stage with
    | .marked requestId => some { s with stage := .read requestId s.waitingQueue }
    | _ => none
  | .build =>
    match s.stage with
    | .read requestId list =>
      some { s with stage := .built requestId ((s.lists list).filter (· ≠ requestId)) }
    | _ => none
  | .assign =>
    match s.stage with
    | .built requestId kept =>
      some { s.setQueue kept with stage := .outside, returned := s.returned ++ [requestId] }
    | _ => none
  | .enqueue req =>
    if s.stage = .outside ∧ s.scheduler = .outside ∧ req ∉ s.enqueued then
      if req ∈ s.aborted.ids then some s
      else some { s.appendTo s.waitingQueue req with enqueued := s.enqueued ++ [req] }
    else none
  | .select chosen =>
    if s.scheduler = .outside ∧ ∀ q ∈ chosen, q ∈ s.waiting then
      some { s with
        scheduler := .selecting s.waitingQueue chosen
        selected := s.selected ++ chosen
        late := s.late ++ chosen.filter fun q => q ∈ s.returned ∧ q ∉ s.selected }
    else none
  | .assignSelected =>
    match s.scheduler with
    | .selecting list chosen =>
      some { s.setQueue ((s.lists list).filter (· ∉ chosen)) with
        scheduler := .outside
        batch := s.batch ++ chosen }
    | _ => none
  | .retract reqs =>
    if s.scheduler = .outside ∧ ∀ q ∈ reqs, q ∈ s.batch then
      some { s with
        scheduler := .retracting reqs
        batch := s.batch.filter (· ∉ reqs) }
    else none
  | .readToAppend =>
    match s.scheduler with
    | .retracting (req :: reqs) =>
      some { s with scheduler := .appending req s.waitingQueue reqs }
    | .retracting [] => some { s with scheduler := .outside }
    | _ => none
  | .append =>
    match s.scheduler with
    | .appending req list reqs =>
      some { s.appendTo list req with scheduler := .retracting reqs }
    | _ => none
  | .finish req =>
    if s.scheduler = .outside ∧ req ∈ s.batch then
      some { s with
        batch := s.batch.filter (· ≠ req)
        finished := s.finished ++ [req] }
    else none

/-- An abort neither loses nor revives a waiting request. -/
structure Kept (s : State) : Prop where
  /-- A request that was not aborted is in the queue, in the batch, about to be appended to the
  queue, or finished. -/
  present : ∀ q ∈ s.enqueued, q ∉ s.called →
    q ∈ s.waiting ∨ q ∈ s.batch ∨ q ∈ s.scheduler.held ∨ q ∈ s.finished
  /-- No request is in the queue and in the batch. -/
  apart : ∀ q ∈ s.waiting, q ∉ s.batch
  /-- No request is selected for the first time after its abort has returned. -/
  late : s.late = []

/-- The thread of the stage is between its read of the queue and its assignment. -/
def StagePoint.window : StagePoint → Option String
  | .read requestId _ => some requestId
  | .built requestId _ => some requestId
  | _ => none

/-- The other thread is not between its read of the queue and its write, unless what was read is
not out of date by the step. -/
def Action.Undisturbed (s : State) : Action → Prop
  | .assignSelected =>
    match s.scheduler with
    | .selecting _ chosen => ∀ r ∈ s.stage.window, ∀ q ∈ chosen, q = r
    | _ => True
  | .assign =>
    match s.stage, s.scheduler with
    | .built requestId _, .selecting list _ => requestId ∈ s.lists list → requestId ∈ s.selected
    | .built _ _, .appending req _ _ => req ∈ s.called
    | _, _ => True
  | .append =>
    match s.scheduler, s.stage with
    | .appending req _ _, .built _ _ => req ∈ s.called
    | .appending req list _, .read _ list' => list' = list ∨ req ∈ s.called
    | _, _ => True
  | .enqueue req => req ∈ s.returned → req ∈ s.aborted.ids
  | _ => True

instance (s : State) : ∀ a : Action, Decidable (a.Undisturbed s)
  | .assignSelected => by
    unfold Action.Undisturbed
    cases s.scheduler <;> infer_instance
  | .assign => by
    unfold Action.Undisturbed
    cases s.stage <;> cases s.scheduler <;> infer_instance
  | .append => by
    unfold Action.Undisturbed
    cases s.scheduler <;> cases s.stage <;> infer_instance
  | .enqueue _ => inferInstanceAs (Decidable (_ → _))
  | .abort _ | .read | .build | .select _ | .retract _ | .readToAppend | .finish _ =>
    inferInstanceAs (Decidable True)

/-- How the list that an abort has read or built stands to the queue. -/
def StagePoint.Agrees (s : State) : StagePoint → Prop
  | .read requestId list =>
    requestId ∈ s.called ∧ list < s.listCount ∧
      (∀ q ∈ s.lists list, q ≠ requestId → q ∈ s.waiting) ∧
      (∀ q ∈ s.waiting, q ∉ s.called → q ∈ s.lists list) ∧
      ∀ req reqs, s.scheduler = .appending req list reqs → s.waitingQueue = list
  | .built requestId kept =>
    requestId ∈ s.called ∧ (∀ q ∈ kept, q ≠ requestId ∧ q ∈ s.waiting) ∧
      ∀ q ∈ s.waiting, q ∉ s.called → q ∈ kept
  | .marked requestId => requestId ∈ s.called
  | .outside => True

/-- How the list that the scheduler has read stands to the queue. -/
def SchedulerPoint.Agrees (s : State) : SchedulerPoint → Prop
  | .selecting list chosen =>
    list < s.listCount ∧ (∀ q ∈ chosen, q ∈ s.selected) ∧
      (∀ q ∈ s.waiting, q ∈ s.lists list) ∧
      (∀ q ∈ s.lists list, q ∉ s.called → q ∈ s.waiting) ∧
      ∀ q ∈ s.lists list, q ∉ s.batch ∧ (q ∈ s.returned → q ∈ s.selected)
  | .appending req list _ => list < s.listCount ∧ (s.waitingQueue = list ∨ req ∈ s.called)
  | _ => True

/-- What holds in every run whose steps are undisturbed. -/
structure Sound (s : State) : Prop extends Kept s where
  bound : s.waitingQueue < s.listCount
  known : ∀ list, ∀ q ∈ s.lists list, q ∈ s.enqueued
  batched : ∀ q ∈ s.batch, q ∈ s.selected
  chosen : ∀ q ∈ s.selected, q ∈ s.enqueued
  held : ∀ q ∈ s.scheduler.held, q ∈ s.selected ∧ q ∉ s.batch
  called : ∀ q ∈ s.returned, q ∈ s.called
  early : ∀ q ∈ s.waiting, q ∈ s.returned → q ∈ s.selected
  stage : s.stage.Agrees s
  scheduler : s.scheduler.Agrees s

theorem sound_init : Sound State.init where
  present := by simp [State.init]
  apart := by simp [State.init, State.waiting]
  late := rfl
  bound := Nat.zero_lt_one
  known := by simp [State.init]
  batched := by simp [State.init]
  chosen := by simp [State.init]
  held := by simp [State.init, SchedulerPoint.held]
  called := by simp [State.init]
  early := by simp [State.init, State.waiting]
  stage := trivial
  scheduler := trivial

section Lists

variable {s : State} {reqs : List String} {req : String} {list : ℕ}

@[simp]
theorem waiting_setQueue : (s.setQueue reqs).waiting = reqs := by
  simp [State.waiting, State.setQueue]

theorem lists_setQueue (hlist : list < s.listCount) :
    (s.setQueue reqs).lists list = s.lists list := by
  simp [State.setQueue, Function.update_of_ne (Nat.ne_of_lt hlist)]

theorem mem_lists_setQueue {q : String} (h : q ∈ (s.setQueue reqs).lists list) :
    q ∈ reqs ∨ q ∈ s.lists list := by
  simp only [State.setQueue] at h
  by_cases heq : list = s.listCount
  · subst heq
    rw [Function.update_self] at h
    exact Or.inl h
  · rw [Function.update_of_ne heq] at h
    exact Or.inr h

theorem mem_lists_appendTo {q : String} {list' : ℕ} :
    q ∈ (s.appendTo list req).lists list' ↔ q ∈ s.lists list' ∨ list' = list ∧ q = req := by
  simp only [State.appendTo]
  by_cases heq : list' = list
  · subst heq
    simp [Function.update_self]
  · simp [heq]

theorem mem_waiting_appendTo {q : String} :
    q ∈ (s.appendTo list req).waiting ↔ q ∈ s.waiting ∨ s.waitingQueue = list ∧ q = req := by
  exact mem_lists_appendTo

end Lists

/-- A step that leaves the queue alone keeps what an abort has read. -/
theorem StagePoint.Agrees.of_queue {s t : State} {point : StagePoint} (h : point.Agrees s)
    (hlists : t.lists = s.lists) (hcount : t.listCount = s.listCount)
    (hqueue : t.waitingQueue = s.waitingQueue) (hcalled : t.called = s.called)
    (happend : ∀ req list reqs, t.scheduler = .appending req list reqs → t.waitingQueue = list) :
    point.Agrees t := by
  have hwaiting : t.waiting = s.waiting := by rw [State.waiting, hlists, hqueue, State.waiting]
  cases point with
  | read requestId list =>
    obtain ⟨hmem, hbound, hsub, hsup, -⟩ := h
    refine ⟨hcalled ▸ hmem, hcount ▸ hbound, ?_, ?_, fun req reqs => happend req list reqs⟩
    · rw [hlists, hwaiting]
      exact hsub
    · rw [hlists, hwaiting, hcalled]
      exact hsup
  | built requestId kept =>
    obtain ⟨hmem, hsub, hsup⟩ := h
    refine ⟨hcalled ▸ hmem, ?_, ?_⟩
    · rw [hwaiting]
      exact hsub
    · rw [hwaiting, hcalled]
      exact hsup
  | marked requestId =>
    have hmem : requestId ∈ s.called := h
    exact show requestId ∈ t.called from hcalled ▸ hmem
  | outside => trivial

section Steps

variable {s t : State}

theorem Sound.abort (h : Sound s) {requestId : String}
    (hstep : step s (.abort requestId) = some t) : Sound t := by
  simp only [step] at hstep
  split at hstep
  · cases hstep
    have hcalled {q : String} (hnot : q ∉ s.called ++ [requestId]) : q ∉ s.called :=
      fun hmem => hnot (mem_append_left _ hmem)
    refine
      { h with
        present := fun q hq hnot => h.present q hq (hcalled hnot)
        called := fun q hq => mem_append_left _ (h.called q hq)
        stage := mem_append_right _ (mem_singleton_self _)
        scheduler := ?_ }
    have hscheduler := h.scheduler
    cases hs : s.scheduler with
    | selecting list chosen =>
      rw [hs] at hscheduler
      obtain ⟨hbound, hchosen, hall, hback, hgood⟩ := hscheduler
      exact ⟨hbound, hchosen, hall, fun q hq hnot => hback q hq (hcalled hnot), hgood⟩
    | appending req list reqs =>
      rw [hs] at hscheduler
      exact ⟨hscheduler.1, hscheduler.2.imp_right (mem_append_left _)⟩
    | outside => trivial
    | retracting reqs => trivial
  · cases hstep

theorem Sound.read (h : Sound s) (hstep : step s .read = some t) : Sound t := by
  simp only [step] at hstep
  split at hstep
  next requestId hstage =>
    cases hstep
    have hcalled : requestId ∈ s.called := by
      have hagrees := h.stage
      rw [hstage] at hagrees
      exact hagrees
    exact
      { h with
        stage := ⟨hcalled, h.bound, fun q hq _ => hq, fun q hq _ => hq, fun _ _ _ => rfl⟩ }
  next => cases hstep

theorem Sound.build (h : Sound s) (hstep : step s .build = some t) : Sound t := by
  simp only [step] at hstep
  split at hstep
  next requestId list hstage =>
    cases hstep
    have hagrees := h.stage
    rw [hstage] at hagrees
    obtain ⟨hcalled, -, hsub, hsup, -⟩ := hagrees
    refine { h with stage := ⟨hcalled, fun q hq => ?_, fun q hq hnot => ?_⟩ }
    · obtain ⟨hmem, hne⟩ := mem_filter.mp hq
      have hne : q ≠ requestId := of_decide_eq_true hne
      exact ⟨hne, hsub q hmem hne⟩
    · refine mem_filter.mpr ⟨hsup q hq hnot, decide_eq_true ?_⟩
      rintro rfl
      exact hnot hcalled
  next => cases hstep

theorem Sound.assign (h : Sound s) (hok : Action.assign.Undisturbed s)
    (hstep : step s .assign = some t) : Sound t := by
  simp only [step] at hstep
  split at hstep
  next requestId kept hstage =>
    cases hstep
    have hagrees := h.stage
    rw [hstage] at hagrees
    obtain ⟨hcalled, hsub, hsup⟩ := hagrees
    have hwaiting (q : String) : q ∈ (s.setQueue kept).waiting ↔ q ∈ kept := by
      rw [waiting_setQueue]
    have hreturned {q : String} (hq : q ∈ s.returned ++ [requestId]) :
        q ∈ s.returned ∨ q = requestId := by simpa using hq
    exact
      { present := fun q hq hnot => by
          rcases h.present q hq hnot with hmem | hrest
          · exact Or.inl ((hwaiting q).mpr (hsup q hmem hnot))
          · exact Or.inr hrest
        apart := fun q hq => h.apart q (hsub q ((hwaiting q).mp hq)).2
        late := h.late
        bound := Nat.lt_succ_self _
        known := fun list q hq => by
          rcases mem_lists_setQueue hq with hkept | hold
          · exact h.known _ q (hsub q hkept).2
          · exact h.known list q hold
        batched := h.batched
        chosen := h.chosen
        held := h.held
        called := fun q hq => by
          rcases hreturned hq with hold | rfl
          · exact h.called q hold
          · exact hcalled
        early := fun q hq hback => by
          obtain ⟨hne, hmem⟩ := hsub q ((hwaiting q).mp hq)
          exact h.early q hmem ((hreturned hback).resolve_right hne)
        stage := trivial
        scheduler := by
          have hscheduler := h.scheduler
          change SchedulerPoint.Agrees _ s.scheduler
          cases hs : s.scheduler with
          | selecting list chosen =>
            rw [hs] at hscheduler
            obtain ⟨hbound, hchosen, hall, hback, hgood⟩ := hscheduler
            have hlists (q : String) : q ∈ (s.setQueue kept).lists list ↔ q ∈ s.lists list := by
              rw [lists_setQueue hbound]
            have hrevived : requestId ∈ s.lists list → requestId ∈ s.selected := by
              simpa only [Action.Undisturbed, hstage, hs] using hok
            refine ⟨Nat.lt_succ_of_lt hbound, hchosen, fun q hq => ?_, fun q hq hnot => ?_,
              fun q hq => ?_⟩
            · exact (hlists q).mpr (hall q (hsub q ((hwaiting q).mp hq)).2)
            · exact (hwaiting q).mpr (hsup q (hback q ((hlists q).mp hq) hnot) hnot)
            · have hmem : q ∈ s.lists list := (hlists q).mp hq
              refine ⟨(hgood q hmem).1, fun hret => ?_⟩
              rcases hreturned hret with hold | rfl
              · exact (hgood q hmem).2 hold
              · exact hrevived hmem
          | appending req list reqs =>
            rw [hs] at hscheduler
            have hreq : req ∈ s.called := by
              simpa only [Action.Undisturbed, hstage, hs] using hok
            exact ⟨Nat.lt_succ_of_lt hscheduler.1, Or.inr hreq⟩
          | outside => trivial
          | retracting reqs => trivial }
  next => cases hstep

theorem Sound.enqueue (h : Sound s) {req : String} (hok : (Action.enqueue req).Undisturbed s)
    (hstep : step s (.enqueue req) = some t) : Sound t := by
  simp only [step] at hstep
  split at hstep
  next hfree =>
    obtain ⟨hstage, hscheduler, hnew⟩ := hfree
    split at hstep
    · cases hstep
      exact h
    next hlive =>
      cases hstep
      have hwaiting (q : String) : q ∈ (s.appendTo s.waitingQueue req).waiting ↔
          q ∈ s.waiting ∨ q = req := by
        rw [mem_waiting_appendTo, and_iff_right rfl]
      exact
        { present := fun q hq hnot => by
            rcases mem_append.mp hq with hold | hreq
            · exact (h.present q hold hnot).imp_left fun hmem =>
                (hwaiting q).mpr (Or.inl hmem)
            · exact Or.inl ((hwaiting q).mpr (Or.inr (mem_singleton.mp hreq)))
          apart := fun q hq => by
            rcases (hwaiting q).mp hq with hold | rfl
            · exact h.apart q hold
            · exact fun hbatch => hnew (h.chosen q (h.batched q hbatch))
          late := h.late
          bound := h.bound
          known := fun list q hq => by
            rcases mem_lists_appendTo.mp hq with hold | ⟨-, rfl⟩
            · exact mem_append_left _ (h.known list q hold)
            · exact mem_append_right _ (mem_singleton_self _)
          batched := h.batched
          chosen := fun q hq => mem_append_left _ (h.chosen q hq)
          held := h.held
          called := h.called
          early := fun q hq hback => by
            rcases (hwaiting q).mp hq with hold | rfl
            · exact h.early q hold hback
            · exact absurd (hok hback) hlive
          stage := by
            change StagePoint.Agrees _ s.stage
            rw [hstage]
            trivial
          scheduler := by
            change SchedulerPoint.Agrees _ s.scheduler
            rw [hscheduler]
            trivial }
  next => cases hstep

theorem Sound.select (h : Sound s) {chosen : List String}
    (hstep : step s (.select chosen) = some t) : Sound t := by
  simp only [step] at hstep
  split at hstep
  next hfree =>
    obtain ⟨hscheduler, hchosen⟩ := hfree
    cases hstep
    have hheld : s.scheduler.held = [] := by rw [hscheduler]; rfl
    exact
      { h with
        present := fun q hq hnot => by
          have hold := h.present q hq hnot
          rw [hheld] at hold
          exact hold
        late := by
          have hnone : (chosen.filter fun q => q ∈ s.returned ∧ q ∉ s.selected) = [] := by
            refine filter_eq_nil_iff.mpr fun q hq hlate => ?_
            obtain ⟨hback, hfirst⟩ := of_decide_eq_true hlate
            exact hfirst (h.early q (hchosen q hq) hback)
          simp only [hnone, h.late, append_nil]
        batched := fun q hq => mem_append_left _ (h.batched q hq)
        chosen := fun q hq => by
          rcases mem_append.mp hq with hold | hnew
          · exact h.chosen q hold
          · exact h.known _ q (hchosen q hnew)
        held := fun q hq => absurd hq not_mem_nil
        early := fun q hq hback => mem_append_left _ (h.early q hq hback)
        stage := h.stage.of_queue rfl rfl rfl rfl fun _ _ _ hnot => nomatch hnot
        scheduler := ⟨h.bound, fun q hq => mem_append_right _ hq, fun q hq => hq,
          fun q hq _ => hq, fun q hq => ⟨h.apart q hq, fun hback =>
            mem_append_left _ (h.early q hq hback)⟩⟩ }
  next => cases hstep

theorem Sound.assignSelected (h : Sound s) (hok : Action.assignSelected.Undisturbed s)
    (hstep : step s .assignSelected = some t) : Sound t := by
  simp only [step] at hstep
  split at hstep
  next list chosen hscheduler =>
    cases hstep
    have hagrees := h.scheduler
    rw [hscheduler] at hagrees
    obtain ⟨hbound, hchosen, hall, hback, hgood⟩ := hagrees
    have hheld : s.scheduler.held = [] := by rw [hscheduler]; rfl
    have hwaiting (q : String) :
        q ∈ (s.setQueue ((s.lists list).filter (· ∉ chosen))).waiting ↔
          q ∈ s.lists list ∧ q ∉ chosen := by
      rw [waiting_setQueue, mem_filter, decide_eq_true_eq]
    have hwindow : ∀ r ∈ s.stage.window, ∀ q ∈ chosen, q = r := by
      simpa only [Action.Undisturbed, hscheduler] using hok
    -- what an abort under way wants to keep has not been chosen
    have hkept {r q : String} (hr : r ∈ s.stage.window) (hmem : q ∈ s.waiting) (hne : q ≠ r) :
        q ∈ s.lists list ∧ q ∉ chosen :=
      ⟨hall q hmem, fun hq => hne (hwindow r hr q hq)⟩
    exact
      { present := fun q hq hnot => by
          rcases h.present q hq hnot with hmem | hbatch | hhold | hdone
          · by_cases hq' : q ∈ chosen
            · exact Or.inr (Or.inl (mem_append_right _ hq'))
            · exact Or.inl ((hwaiting q).mpr ⟨hall q hmem, hq'⟩)
          · exact Or.inr (Or.inl (mem_append_left _ hbatch))
          · rw [hheld] at hhold
            cases hhold
          · exact Or.inr (Or.inr (Or.inr hdone))
        apart := fun q hq => by
          obtain ⟨hmem, hq'⟩ := (hwaiting q).mp hq
          intro hbatch
          rcases mem_append.mp hbatch with hold | hnew
          · exact (hgood q hmem).1 hold
          · exact hq' hnew
        late := h.late
        bound := Nat.lt_succ_self _
        known := fun other q hq => by
          rcases mem_lists_setQueue hq with hrest | hold
          · exact h.known list q (mem_filter.mp hrest).1
          · exact h.known other q hold
        batched := fun q hq => by
          rcases mem_append.mp hq with hold | hnew
          · exact h.batched q hold
          · exact hchosen q hnew
        chosen := h.chosen
        held := fun q hq => absurd hq not_mem_nil
        called := h.called
        early := fun q hq => (hgood q ((hwaiting q).mp hq).1).2
        stage := by
          have hagrees := h.stage
          change StagePoint.Agrees _ s.stage
          cases hs : s.stage with
          | read requestId other =>
            rw [hs] at hagrees hkept
            obtain ⟨hcalled, hother, hsub, hsup, -⟩ := hagrees
            have hlists (q : String) :
                q ∈ (s.setQueue ((s.lists list).filter (· ∉ chosen))).lists other ↔
                  q ∈ s.lists other := by
              rw [lists_setQueue hother]
            refine ⟨hcalled, Nat.lt_succ_of_lt hother, fun q hq hne => ?_, fun q hq hnot => ?_,
              fun _ _ hnot => nomatch hnot⟩
            · exact (hwaiting q).mpr (hkept rfl (hsub q ((hlists q).mp hq) hne) hne)
            · exact (hlists q).mpr (hsup q (hback q ((hwaiting q).mp hq).1 hnot) hnot)
          | built requestId kept =>
            rw [hs] at hagrees hkept
            obtain ⟨hcalled, hsub, hsup⟩ := hagrees
            refine ⟨hcalled, fun q hq => ?_, fun q hq hnot => ?_⟩
            · obtain ⟨hne, hmem⟩ := hsub q hq
              exact ⟨hne, (hwaiting q).mpr (hkept rfl hmem hne)⟩
            · exact hsup q (hback q ((hwaiting q).mp hq).1 hnot) hnot
          | marked requestId =>
            rw [hs] at hagrees
            exact hagrees
          | outside => trivial
        scheduler := trivial }
  next => cases hstep

theorem Sound.retract (h : Sound s) {reqs : List String}
    (hstep : step s (.retract reqs) = some t) : Sound t := by
  simp only [step] at hstep
  split at hstep
  next hfree =>
    obtain ⟨hscheduler, hreqs⟩ := hfree
    cases hstep
    have hheld : s.scheduler.held = [] := by rw [hscheduler]; rfl
    have hbatch {q : String} : q ∈ s.batch.filter (· ∉ reqs) ↔ q ∈ s.batch ∧ q ∉ reqs := by
      rw [mem_filter, decide_eq_true_eq]
    exact
      { h with
        present := fun q hq hnot => by
          rcases h.present q hq hnot with hmem | hold | hhold | hdone
          · exact Or.inl hmem
          · by_cases hq' : q ∈ reqs
            · exact Or.inr (Or.inr (Or.inl hq'))
            · exact Or.inr (Or.inl (hbatch.mpr ⟨hold, hq'⟩))
          · rw [hheld] at hhold
            cases hhold
          · exact Or.inr (Or.inr (Or.inr hdone))
        apart := fun q hq hmem => h.apart q hq (hbatch.mp hmem).1
        batched := fun q hq => h.batched q (hbatch.mp hq).1
        held := fun q hq => ⟨h.batched q (hreqs q hq), fun hmem => (hbatch.mp hmem).2 hq⟩
        stage := h.stage.of_queue rfl rfl rfl rfl fun _ _ _ hnot => nomatch hnot
        scheduler := trivial }
  next => cases hstep

theorem Sound.readToAppend (h : Sound s) (hstep : step s .readToAppend = some t) : Sound t := by
  simp only [step] at hstep
  split at hstep
  next req reqs hscheduler =>
    cases hstep
    have hheld : s.scheduler.held = req :: reqs := by rw [hscheduler]; rfl
    exact
      { h with
        present := fun q hq hnot => by
          have hold := h.present q hq hnot
          rw [hheld] at hold
          exact hold
        held := fun q hq => h.held q (hheld ▸ hq)
        stage := h.stage.of_queue rfl rfl rfl rfl fun _ _ _ heq => by injection heq
        scheduler := ⟨h.bound, Or.inl rfl⟩ }
  next hscheduler =>
    cases hstep
    have hheld : s.scheduler.held = [] := by rw [hscheduler]; rfl
    exact
      { h with
        present := fun q hq hnot => by
          have hold := h.present q hq hnot
          rw [hheld] at hold
          exact hold
        held := fun q hq => absurd hq not_mem_nil
        stage := h.stage.of_queue rfl rfl rfl rfl fun _ _ _ hnot => nomatch hnot
        scheduler := trivial }
  next => cases hstep

theorem Sound.append (h : Sound s) (hok : Action.append.Undisturbed s)
    (hstep : step s .append = some t) : Sound t := by
  simp only [step] at hstep
  split at hstep
  next req list reqs hscheduler =>
    cases hstep
    have hagrees := h.scheduler
    rw [hscheduler] at hagrees
    obtain ⟨hbound, hcurrent⟩ := hagrees
    have hheld : s.scheduler.held = req :: reqs := by rw [hscheduler]; rfl
    have hreq : req ∈ s.selected ∧ req ∉ s.batch :=
      h.held req (hheld ▸ mem_cons_self ..)
    have hwaiting (q : String) : q ∈ (s.appendTo list req).waiting ↔
        q ∈ s.waiting ∨ s.waitingQueue = list ∧ q = req := mem_waiting_appendTo
    exact
      { present := fun q hq hnot => by
          rcases h.present q hq hnot with hmem | hbatch | hhold | hdone
          · exact Or.inl ((hwaiting q).mpr (Or.inl hmem))
          · exact Or.inr (Or.inl hbatch)
          · rw [hheld] at hhold
            rcases mem_cons.mp hhold with rfl | hrest
            · exact Or.inl ((hwaiting q).mpr (Or.inr ⟨hcurrent.resolve_right hnot, rfl⟩))
            · exact Or.inr (Or.inr (Or.inl hrest))
          · exact Or.inr (Or.inr (Or.inr hdone))
        apart := fun q hq => by
          rcases (hwaiting q).mp hq with hold | ⟨-, rfl⟩
          · exact h.apart q hold
          · exact hreq.2
        late := h.late
        bound := h.bound
        known := fun other q hq => by
          rcases mem_lists_appendTo.mp hq with hold | ⟨-, rfl⟩
          · exact h.known other q hold
          · exact h.chosen q hreq.1
        batched := h.batched
        chosen := h.chosen
        held := fun q hq => h.held q (hheld ▸ mem_cons_of_mem req hq)
        called := h.called
        early := fun q hq hback => by
          rcases (hwaiting q).mp hq with hold | ⟨-, rfl⟩
          · exact h.early q hold hback
          · exact hreq.1
        stage := by
          have hagrees := h.stage
          change StagePoint.Agrees _ s.stage
          cases hs : s.stage with
          | read requestId other =>
            rw [hs] at hagrees
            obtain ⟨hcalled, hother, hsub, hsup, hlast⟩ := hagrees
            have hseen : other = list ∨ req ∈ s.called := by
              simpa only [Action.Undisturbed, hscheduler, hs] using hok
            refine ⟨hcalled, hother, fun q hq hne => ?_, fun q hq hnot => ?_,
              fun _ _ hnot => nomatch hnot⟩
            · rcases mem_lists_appendTo.mp hq with hold | ⟨hlist, rfl⟩
              · exact (hwaiting q).mpr (Or.inl (hsub q hold hne))
              · have hqueue := hlast q reqs (hlist ▸ hscheduler)
                exact (hwaiting q).mpr (Or.inr ⟨hqueue.trans hlist, rfl⟩)
            · rcases (hwaiting q).mp hq with hold | ⟨-, rfl⟩
              · exact mem_lists_appendTo.mpr (Or.inl (hsup q hold hnot))
              · exact mem_lists_appendTo.mpr (Or.inr ⟨hseen.resolve_right hnot, rfl⟩)
          | built requestId kept =>
            rw [hs] at hagrees
            obtain ⟨hcalled, hsub, hsup⟩ := hagrees
            have hreq : req ∈ s.called := by
              simpa only [Action.Undisturbed, hscheduler, hs] using hok
            refine ⟨hcalled, fun q hq => ?_, fun q hq hnot => ?_⟩
            · exact (hsub q hq).imp_right fun hmem => (hwaiting q).mpr (Or.inl hmem)
            · rcases (hwaiting q).mp hq with hold | ⟨-, rfl⟩
              · exact hsup q hold hnot
              · exact absurd hreq hnot
          | marked requestId =>
            rw [hs] at hagrees
            exact hagrees
          | outside => trivial
        scheduler := trivial }
  next => cases hstep

theorem Sound.finish (h : Sound s) {req : String} (hstep : step s (.finish req) = some t) :
    Sound t := by
  simp only [step] at hstep
  split at hstep
  next hfree =>
    obtain ⟨hscheduler, -⟩ := hfree
    cases hstep
    have hheld : s.scheduler.held = [] := by rw [hscheduler]; rfl
    have hbatch {q : String} : q ∈ s.batch.filter (· ≠ req) ↔ q ∈ s.batch ∧ q ≠ req := by
      rw [mem_filter, decide_eq_true_eq]
    exact
      { h with
        present := fun q hq hnot => by
          rcases h.present q hq hnot with hmem | hold | hhold | hdone
          · exact Or.inl hmem
          · by_cases hq' : q = req
            · exact Or.inr (Or.inr (Or.inr (by simp [hq'])))
            · exact Or.inr (Or.inl (hbatch.mpr ⟨hold, hq'⟩))
          · rw [hheld] at hhold
            cases hhold
          · exact Or.inr (Or.inr (Or.inr (mem_append_left _ hdone)))
        apart := fun q hq hmem => h.apart q hq (hbatch.mp hmem).1
        batched := fun q hq => h.batched q (hbatch.mp hq).1
        held := fun q hq => absurd (hheld ▸ hq) not_mem_nil
        stage := h.stage.of_queue rfl rfl rfl rfl fun _ _ _ heq => by
          rw [show s.scheduler = _ from hscheduler] at heq
          cases heq
        scheduler := by
          change SchedulerPoint.Agrees _ s.scheduler
          rw [hscheduler]
          trivial }
  next => cases hstep

theorem Sound.step {a : Action} (h : Sound s) (hok : a.Undisturbed s)
    (hstep : step s a = some t) : Sound t := by
  cases a with
  | abort requestId => exact h.abort hstep
  | read => exact h.read hstep
  | build => exact h.build hstep
  | assign => exact h.assign hok hstep
  | enqueue req => exact h.enqueue hok hstep
  | select chosen => exact h.select hstep
  | assignSelected => exact h.assignSelected hok hstep
  | retract reqs => exact h.retract hstep
  | readToAppend => exact h.readToAppend hstep
  | append => exact h.append hok hstep
  | finish req => exact h.finish hstep

end Steps

/-- **Aborts and the queue.** In every interleaving whose steps are undisturbed, no abort loses or
revives a waiting request. -/
theorem kept_of_run {s : State} {actions : List Action}
    (hrun : Run step (fun s a => a.Undisturbed s) State.init actions s) : Kept s :=
  (hrun.invariant (I := Sound) (fun _ _ _ h hok hstep => h.step hok hstep) sound_init).toKept

/-- Aborts around a selection and a retraction that do no harm: the second request is taken out
while it is being selected, and the third one before it is. -/
def crossing : List Action :=
  [.enqueue "a", .enqueue "b", .enqueue "c", .select ["a", "b"], .abort "b", .assignSelected,
    .read, .build, .assign, .retract ["a", "b"], .readToAppend, .abort "c", .read, .append, .build,
    .assign, .readToAppend, .append]

/-- After them the first two requests wait again. -/
theorem kept_of_run_crossing :
    ∃ s : State, s.waiting = ["a", "b"] ∧ s.returned = ["b", "c"] ∧ Kept s := by
  have hrun := run_of_isSome_guarded step (fun s a => a.Undisturbed s) State.init crossing
    (by decide +kernel)
  exact ⟨_, by decide +kernel, by decide +kernel, kept_of_run hrun⟩

/-- Two requests wait. The first one is selected while the second one is aborted, and the abort
puts it back; or it is retracted meanwhile, and the abort overwrites it; or the second one is
aborted while the first one is selected, and the scheduler puts it back. -/
theorem abort_overlaps :
    (∃ as s, Run step anyAction State.init as s ∧ "a" ∈ s.waiting ∧ "a" ∈ s.batch ∧ ¬Kept s) ∧
    (∃ as s, Run step anyAction State.init as s ∧ "a" ∈ s.enqueued ∧ s.waiting = [] ∧
      s.batch = [] ∧ ¬Kept s) ∧
    ∃ as s, Run step anyAction State.init as s ∧ s.late = ["b"] ∧ ¬Kept s := by
  have hback := run_of_isSome step State.init
    [.enqueue "a", .enqueue "b", .select ["a"], .abort "b", .read, .build, .assignSelected, .assign]
    (by decide +kernel)
  have hlost := run_of_isSome step State.init
    [.enqueue "a", .enqueue "b", .select ["a"], .assignSelected, .retract ["a"], .readToAppend,
      .abort "b", .read, .build, .append, .readToAppend, .assign]
    (by decide +kernel)
  have hrevived := run_of_isSome step State.init
    [.enqueue "a", .enqueue "b", .select ["a"], .abort "b", .read, .build, .assign,
      .assignSelected, .select ["b"]]
    (by decide +kernel)
  refine ⟨⟨_, _, hback, ?_, ?_, fun hkept => ?_⟩, ⟨_, _, hlost, ?_, ?_, ?_, fun hkept => ?_⟩,
    ⟨_, _, hrevived, ?_, fun hkept => ?_⟩⟩
  · decide +kernel
  · decide +kernel
  · exact hkept.apart "a" (by decide +kernel) (by decide +kernel)
  · decide +kernel
  · decide +kernel
  · decide +kernel
  · have hplaces := hkept.present "a" (by decide +kernel) (by decide +kernel)
    revert hplaces
    decide +kernel
  · decide +kernel
  · have hlate := hkept.late
    revert hlate
    decide +kernel

end Omni.Scheduler.Threads
