import Mathlib.Data.List.Induction
import Omni.Stage.Steps

/-!
# What the log of a stage says

The log determines which ids are in `_aborted`. Every step only adds to it, and nothing is
delivered for an id in `_aborted`.
-/

namespace Omni.Stage

open State

variable {V : Type} {cfg : Config V} {s s' s'' : State V} {m : Option ℕ}
  {r error fromStage target : String} {log : List (Entry V)} {entry : Entry V} {i k chunkId : ℕ}
  {item : Item V} {payload data result : V} {raised exc : Option String}
  {all rest targets : List String} {merge : Merge V} {task : ReceiveTask V} {single : Bool}
  {a : Action V}

/-- The receive task that made an entry. -/
def Entry.maker : Entry V → Option ℕ
  | .delivered task .. | .failed task .. | .dropped task .. | .reported task .. => task
  | _ => none

/-- Whether an id is in `_aborted` after an entry, given whether it was before. -/
def Entry.remember (r : String) (before : Bool) : Entry V → Bool
  | .failed _ requestId _ | .aborted requestId => decide (requestId = r) || before
  | .forgotten requestId => decide (requestId ≠ r) && before
  | _ => before

/-- Whether an id is in `_aborted` after a log. -/
def remembers (r : String) (log : List (Entry V)) : Bool :=
  log.foldl (fun before entry => entry.remember r before) false

/-- Entries that do not change `_aborted`. -/
def Entry.IsNote (entry : Entry V) : Prop := ∀ r before, entry.remember r before = before

/-- What holds when an entry is made: nothing is delivered for an id in `_aborted`, and errors are
dropped for such ids only. -/
def Entry.Fits (log : List (Entry V)) : Entry V → Prop
  | .delivered _ requestId .. => remembers requestId log = false
  | .dropped _ requestId _ => remembers requestId log = true
  | _ => True

/-- Every entry of a log fits what is before it. -/
def Fitting (log : List (Entry V)) : Prop :=
  ∀ before entry after, log = before ++ entry :: after → entry.Fits before

/-- The log agrees with `_aborted`, and its entries fit. -/
structure LogOk (s : State V) : Prop where
  ids : ∀ r, r ∈ s.abortedIds ↔ remembers r s.log = true
  fits : Fitting s.log

/-- The request has failed here or was aborted. -/
def Spoiled (log : List (Entry V)) (r : String) : Prop :=
  (∃ task error, .failed task r error ∈ log) ∨ .aborted r ∈ log

/-- What a step on behalf of a receive task does to the log. -/
structure Logs (m : Option ℕ) (s s' : State V) : Prop where
  log : ∃ new, s'.log = s.log ++ new ∧ ∀ entry ∈ new, entry.maker = none ∨ entry.maker = m
  ok : LogOk s → LogOk s'

/-- The same for a step that schedules no task and ends none: it changes at most its own. -/
structure Grows (m : Option ℕ) (s s' : State V) : Prop extends Logs m s s' where
  length : s'.receiveTasks.length = s.receiveTasks.length
  others : ∀ j, m ≠ some j → s'.receiveTasks[j]? = s.receiveTasks[j]?
  tails : s'.receiveLaneTails = s.receiveLaneTails

theorem remembers_concat :
    remembers r (log ++ [entry]) = entry.remember r (remembers r log) := by
  simp [remembers]

/-- What was in a log stays in it. -/
theorem Spoiled.append (h : Spoiled log r) (new : List (Entry V)) :
    Spoiled (log ++ new) r := by
  rcases h with ⟨task, error, hfailed⟩ | haborted
  · exact .inl ⟨task, error, List.mem_append_left _ hfailed⟩
  · exact .inr (List.mem_append_left _ haborted)

/-- An id in `_aborted` got there by a failure or an abort. -/
theorem spoiled_of_remembers (h : remembers r log = true) :
    Spoiled log r := by
  induction log using List.reverseRecOn with
  | nil => simp [remembers] at h
  | append_singleton log entry ih =>
    rw [remembers_concat] at h
    cases entry with
    | failed task requestId error =>
      simp only [Entry.remember, Bool.or_eq_true, decide_eq_true_eq] at h
      rcases h with rfl | h
      · exact .inl ⟨task, error, by simp⟩
      · exact (ih h).append _
    | aborted requestId =>
      simp only [Entry.remember, Bool.or_eq_true, decide_eq_true_eq] at h
      rcases h with rfl | h
      · exact .inr (by simp)
      · exact (ih h).append _
    | forgotten requestId =>
      simp only [Entry.remember, Bool.and_eq_true] at h
      exact (ih h.2).append _
    | _ => exact (ih h).append _

/-- The same, for a state. -/
theorem LogOk.spoiled (h : LogOk s) (hr : r ∈ s.abortedIds) : Spoiled s.log r :=
  spoiled_of_remembers ((h.ids r).mp hr)

theorem Fitting.concat {new : Entry V} (hlog : Fitting log) (hnew : new.Fits log) :
    Fitting (log ++ [new]) := by
  intro before entry after heq
  rcases List.eq_nil_or_concat after with rfl | ⟨init, last, rfl⟩
  · obtain ⟨rfl, heq⟩ := List.append_inj' heq rfl
    obtain rfl : new = entry := by simpa using heq
    exact hnew
  · rw [List.concat_eq_append, ← List.cons_append, ← List.append_assoc] at heq
    exact hlog _ _ _ (List.append_inj' heq rfl).1

/-- Ids that leave `_aborted` fit every log. -/
theorem Fitting.forgotten (hlog : Fitting log) (gone : List String) :
    Fitting (log ++ gone.map .forgotten) := by
  induction gone using List.reverseRecOn with
  | nil => simpa using hlog
  | append_singleton gone id ih =>
    rw [List.map_append, ← List.append_assoc]
    exact ih.concat trivial

/-- A step that leaves the log and `_aborted` alone. -/
theorem Logs.same (hids : s'.abortedIds = s.abortedIds) (hlog : s'.log = s.log) :
    Logs m s s' :=
  ⟨⟨[], by simp [hlog], by simp⟩, fun h => ⟨by simpa [hids, hlog] using h.ids,
    by simpa [hlog] using h.fits⟩⟩

/-- What a step on behalf of a task may leave alone, but for the tasks. -/
def State.logged (s : State V) : List String × List (Entry V) × (String → String → Option ℕ) :=
  (s.abortedIds, s.log, s.receiveLaneTails)

/-- A step that leaves the log, `_aborted`, the tasks and the lanes alone. -/
theorem Grows.same (h : s'.logged = s.logged) (htasks : s'.receiveTasks = s.receiveTasks) :
    Grows m s s' := by
  simp only [State.logged, Prod.mk.injEq] at h
  exact ⟨.same h.1 h.2.1, by rw [htasks], fun _ _ => by rw [htasks], h.2.2⟩

/-- A step that changes its task only. -/
theorem Grows.modify {f : ReceiveTask V → ReceiveTask V}
    (h : s'.logged = s.logged) (htasks : s'.receiveTasks = s.receiveTasks.modify i f) :
    Grows (some i) s s' := by
  simp only [State.logged, Prod.mk.injEq] at h
  refine ⟨.same h.1 h.2.1, by rw [htasks, List.length_modify], fun j hj => ?_, h.2.2⟩
  have hne : i ≠ j := fun heq => hj (congrArg some heq)
  simp [htasks, hne]

/-- Two steps in a row. -/
theorem Grows.trans (hfirst : Grows m s s') (hsecond : Grows m s' s'') :
    Grows m s s'' := by
  obtain ⟨new, hnew, hmaker⟩ := hfirst.log
  obtain ⟨more, hmore, hmaker'⟩ := hsecond.log
  refine ⟨⟨⟨new ++ more, by simp [hnew, hmore], ?_⟩, fun h => hsecond.ok (hfirst.ok h)⟩,
    hsecond.length.trans hfirst.length,
    fun j hj => (hsecond.others j hj).trans (hfirst.others j hj),
    hsecond.tails.trans hfirst.tails⟩
  intro entry hentry
  rcases List.mem_append.mp hentry with h | h
  · exact hmaker _ h
  · exact hmaker' _ h

/-- An entry that fits and does not change `_aborted` is made. -/
theorem Grows.record (hnote : entry.IsNote) (hfits : LogOk s → entry.Fits s.log)
    (hmaker : entry.maker = none ∨ entry.maker = m) :
    Grows m s (s.record entry) := by
  refine ⟨⟨⟨[entry], rfl, by simpa using hmaker⟩, fun h => ⟨fun r => ?_, ?_⟩⟩, rfl,
    fun _ _ => rfl, rfl⟩
  · change r ∈ s.abortedIds ↔ remembers r (s.log ++ [entry]) = true
    rw [remembers_concat, hnote, h.ids]
  · exact h.fits.concat (hfits h)

/-- Ids that are removed from `_aborted` are forgotten. -/
theorem remembers_forgotten {gone : List String} :
    remembers r (log ++ gone.map .forgotten) = (decide (r ∉ gone) && remembers r log) := by
  induction gone using List.reverseRecOn with
  | nil => simp
  | append_singleton gone id ih =>
    rw [List.map_append, ← List.append_assoc, List.map_singleton, remembers_concat, ih]
    by_cases hid : id = r
    · simp [Entry.remember, hid]
    · have hne : r ≠ id := fun h => hid h.symm
      simp [Entry.remember, hid, hne]

theorem Grows.recordAborted
    (hentry : ∀ id before, entry.remember id before = (decide (r = id) || before))
    (hfits : LogOk s → entry.Fits s.log) (hmaker : entry.maker = none ∨ entry.maker = m) :
    Grows m s ((s.record entry).recordAborted cfg r) := by
  set gone := evicted cfg (s.abortedIds.insert r) with hgone
  have hlog : ((s.record entry).recordAborted cfg r).log = s.log ++ [entry] ++ gone.map
    .forgotten :=
    rfl
  refine ⟨⟨⟨[entry] ++ gone.map .forgotten, by simp [hlog], ?_⟩, fun h => ⟨fun id => ?_, ?_⟩⟩,
    rfl, fun _ _ => rfl, rfl⟩
  · intro e he
    rcases List.mem_append.mp he with he | he
    · rw [List.mem_singleton.mp he]
      exact hmaker
    · obtain ⟨id, -, rfl⟩ := List.mem_map.mp he
      exact .inl rfl
  · change id ∈ (s.abortedIds.insert r).filter (· ∉ gone) ↔ _
    rw [hlog, remembers_forgotten, remembers_concat, hentry, List.mem_filter, List.mem_insert_iff,
      h.ids]
    have heq : id = r ↔ r = id := eq_comm
    rw [heq]
    simp [and_comm]
  · exact (h.fits.concat (hfits h)).forgotten gone

/-- `_send_failure` up to its await, for what is written before it. -/
theorem grows_beginFailure :
    Grows m s (s.beginFailure cfg m r error) :=
  .recordAborted (fun _ _ => rfl) (fun _ => trivial) (.inr rfl)

/-- A task ends. -/
theorem logs_finish (h : s.finish i = some s') : Logs m s s' := by
  obtain ⟨task, -, -, -, rfl⟩ := resumeInTurn_eq_some.mp h
  unfold finishTask
  dsimp only
  repeat' split
  all_goals exact .same rfl rfl

end Omni.Stage
