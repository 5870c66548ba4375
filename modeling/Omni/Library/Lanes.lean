import Mathlib.Data.List.Basic
import Mathlib.Data.Nat.Basic
import Mathlib.Order.Basic
import Mathlib.Order.Nat
import Mathlib.Tactic.Common

/-!
# Lanes of tasks

Tasks of one lane end one after the other: each one waits for the task that was the last of its
lane when it was scheduled, and a lane forgets its last task when that one ends. Nothing here
refers to a particular system.
-/

namespace Omni.Lanes

variable {K : Type*}

/-- A task in a lane. -/
structure Task (K : Type*) where
  lane : K
  predecessor : Option ℕ
  done : Bool

/-- The tasks, numbered in the order in which they were scheduled, and the last task of each
lane. -/
structure Board (K : Type*) where
  tasks : List (Task K)
  tails : K → Option ℕ

/-- A board without tasks. -/
def Board.empty : Board K := ⟨[], fun _ => none⟩

/-- A task is scheduled at the end of a lane. -/
def Board.schedule [DecidableEq K] (b : Board K) (k : K) : Board K where
  tasks := b.tasks ++ [⟨k, b.tails k, false⟩]
  tails := Function.update b.tails k (some b.tasks.length)

/-- A task ends. -/
def Board.finish [DecidableEq K] (b : Board K) (i : ℕ) (k : K) : Board K where
  tasks := b.tasks.modify i fun task => { task with done := true }
  tails := if b.tails k = some i then Function.update b.tails k none else b.tails

/-- Task `i` is in lane `k`. -/
def Board.InLane (b : Board K) (k : K) (i : ℕ) : Prop :=
  ∃ task, b.tasks[i]? = some task ∧ task.lane = k

/-- Task `i` has ended. -/
def Board.Done (b : Board K) (i : ℕ) : Prop :=
  ∃ task, b.tasks[i]? = some task ∧ task.done = true

/-- The predecessor of task `i` has ended, if it has one. -/
def Board.Ready (b : Board K) (i : ℕ) : Prop :=
  ∀ task, b.tasks[i]? = some task → ∀ p, task.predecessor = some p → b.Done p

/-- The chains of predecessors are unbroken. -/
structure Board.Sound (b : Board K) : Prop where
  chain : ∀ i task, b.tasks[i]? = some task → ∀ j < i, b.InLane task.lane j →
    b.Done j ∨ ∃ p, task.predecessor = some p ∧ j ≤ p
  predecessor : ∀ i task p, b.tasks[i]? = some task → task.predecessor = some p →
    p < i ∧ b.InLane task.lane p
  inTurn : ∀ i, b.Done i → b.Ready i
  tail : ∀ k t, b.tails k = some t → b.InLane k t ∧ ¬b.Done t ∧ ∀ j, b.InLane k j → j ≤ t
  noTail : ∀ k, b.tails k = none → ∀ j, b.InLane k j → b.Done j

variable {b : Board K} {i j : ℕ} {k : K}

theorem Board.InLane.lt (h : b.InLane k i) : i < b.tasks.length := by
  obtain ⟨task, htask, -⟩ := h
  exact (List.getElem?_eq_some_iff.mp htask).1

theorem Board.InLane.unique {k' : K} (h : b.InLane k i) (h' : b.InLane k' i) : k = k' := by
  obtain ⟨task, htask, rfl⟩ := h
  obtain ⟨task', htask', rfl⟩ := h'
  rw [Option.some.inj (htask.symm.trans htask')]

/-- Tasks before one that has ended, or that is ready, have ended. -/
theorem Board.Sound.done_of_ready (h : b.Sound) (hi : b.InLane k i) (hready : b.Ready i)
    (hj : b.InLane k j) (hlt : j < i) : b.Done j := by
  induction i using Nat.strong_induction_on with
  | _ i ih =>
    obtain ⟨task, htask, rfl⟩ := hi
    rcases h.chain i task htask j hlt hj with hdone | ⟨p, hp, hle⟩
    · exact hdone
    · have hpdone := hready task htask p hp
      obtain ⟨hlt', hlane⟩ := h.predecessor i task p htask hp
      rcases hle.eq_or_lt with rfl | hless
      · exact hpdone
      · exact ih p hlt' hlane (h.inTurn p hpdone) hless

/-- Of the tasks of a lane that are ready, one that has not ended is the last. -/
theorem Board.Sound.le_of_ready (h : b.Sound) (hi : b.InLane k i) (hdone : ¬b.Done i)
    (hj : b.InLane k j) (hready : b.Ready j) : j ≤ i := by
  by_contra hlt
  exact hdone (h.done_of_ready hj hready hi (not_le.mp hlt))

/-- A lane whose tasks have not all ended has a task that can go on. -/
theorem Board.Sound.exists_ready (h : b.Sound) (hi : b.InLane k i) (hdone : ¬b.Done i) :
    ∃ j, b.InLane k j ∧ ¬b.Done j ∧ b.Ready j := by
  induction i using Nat.strong_induction_on with
  | _ i ih =>
    by_cases hready : b.Ready i
    · exact ⟨i, hi, hdone, hready⟩
    · simp only [Ready, not_forall] at hready
      obtain ⟨task, htask, p, hp, hpdone⟩ := hready
      obtain ⟨hlt, hlane⟩ := h.predecessor i task p htask hp
      obtain ⟨task', htask', rfl⟩ := hi
      obtain rfl : task = task' := Option.some.inj (htask.symm.trans htask')
      exact ih p hlt hlane hpdone

/-- When all tasks have ended, no lane has a last task. -/
theorem Board.Sound.tails_eq_none (h : b.Sound)
    (hall : ∀ i, i < b.tasks.length → b.Done i) : b.tails k = none := by
  cases htail : b.tails k with
  | none => rfl
  | some t =>
    obtain ⟨hlane, hdone, -⟩ := h.tail k t htail
    exact absurd (hall t hlane.lt) hdone

theorem Board.sound_empty : (empty : Board K).Sound where
  chain i task h := by simp [empty] at h
  predecessor i task p h := by simp [empty] at h
  inTurn i h := by
    obtain ⟨task, htask, -⟩ := h
    simp [empty] at htask
  tail k t h := by simp [empty] at h
  noTail k _ j h := by
    obtain ⟨task, htask, -⟩ := h
    simp [empty] at htask

variable [DecidableEq K]

theorem Board.schedule_getElem? {task : Task K} :
    (b.schedule k).tasks[i]? = some task ↔
      b.tasks[i]? = some task ∨ (i = b.tasks.length ∧ task = ⟨k, b.tails k, false⟩) := by
  unfold schedule
  rcases lt_trichotomy i b.tasks.length with hlt | rfl | hgt
  · rw [List.getElem?_append_left hlt]
    simp [hlt.ne]
  · simp [eq_comm]
  · rw [List.getElem?_eq_none (by simp; omega), List.getElem?_eq_none (by omega)]
    simp [hgt.ne']

/-- A new task has not ended. -/
theorem Board.schedule_done : (b.schedule k).Done i ↔ b.Done i := by
  simp only [Done, schedule_getElem?]
  constructor
  · rintro ⟨task, htask | ⟨-, rfl⟩, hdone⟩
    · exact ⟨task, htask, hdone⟩
    · simp at hdone
  · rintro ⟨task, htask, hdone⟩
    exact ⟨task, .inl htask, hdone⟩

theorem Board.schedule_inLane {k' : K} :
    (b.schedule k).InLane k' i ↔ b.InLane k' i ∨ (i = b.tasks.length ∧ k' = k) := by
  simp only [InLane, schedule_getElem?]
  constructor
  · rintro ⟨task, htask | ⟨rfl, rfl⟩, rfl⟩
    · exact .inl ⟨task, htask, rfl⟩
    · exact .inr ⟨rfl, rfl⟩
  · rintro (⟨task, htask, rfl⟩ | ⟨rfl, rfl⟩)
    · exact ⟨task, .inl htask, rfl⟩
    · exact ⟨_, .inr ⟨rfl, rfl⟩, rfl⟩

/-- Scheduling a task keeps the chains unbroken. -/
theorem Board.Sound.schedule (h : b.Sound) : (b.schedule k).Sound where
  chain i task htask j hlt hj := by
    rw [schedule_done]
    rcases schedule_getElem?.mp htask with htask | ⟨rfl, rfl⟩
    · refine h.chain i task htask j hlt ?_
      rcases schedule_inLane.mp hj with hj | ⟨rfl, -⟩
      · exact hj
      · have := (List.getElem?_eq_some_iff.mp htask).1
        omega
    · rcases schedule_inLane.mp hj with hj | ⟨rfl, -⟩
      · cases htail : b.tails k with
        | none => exact .inl (h.noTail k htail j hj)
        | some t => exact .inr ⟨t, rfl, (h.tail k t htail).2.2 j hj⟩
      · exact absurd hlt (lt_irrefl _)
  predecessor i task p htask hp := by
    rcases schedule_getElem?.mp htask with htask | ⟨rfl, rfl⟩
    · obtain ⟨hlt, hlane⟩ := h.predecessor i task p htask hp
      exact ⟨hlt, schedule_inLane.mpr (.inl hlane)⟩
    · have hlane := (h.tail k p hp).1
      exact ⟨hlane.lt, schedule_inLane.mpr (.inl hlane)⟩
  inTurn i hdone task htask p hp := by
    rw [schedule_done] at hdone ⊢
    rcases schedule_getElem?.mp htask with htask | ⟨rfl, rfl⟩
    · exact h.inTurn i hdone task htask p hp
    · obtain ⟨task, htask, -⟩ := hdone
      simp at htask
  tail k' t ht := by
    rw [schedule_done]
    by_cases hk : k' = k
    · subst hk
      obtain rfl : b.tasks.length = t := by simpa [schedule] using ht
      refine ⟨schedule_inLane.mpr (.inr ⟨rfl, rfl⟩), ?_, fun j hj => ?_⟩
      · rintro ⟨task, htask, -⟩
        simp at htask
      · rcases schedule_inLane.mp hj with hj | ⟨rfl, -⟩
        · exact hj.lt.le
        · exact le_rfl
    · have ht : b.tails k' = some t := by simpa [Board.schedule, hk] using ht
      obtain ⟨hlane, hdone, hlast⟩ := h.tail k' t ht
      refine ⟨schedule_inLane.mpr (.inl hlane), hdone, fun j hj => ?_⟩
      rcases schedule_inLane.mp hj with hj | ⟨-, hk'⟩
      · exact hlast j hj
      · exact absurd hk' hk
  noTail k' hnone j hj := by
    rw [schedule_done]
    by_cases hk : k' = k
    · simp [Board.schedule, hk] at hnone
    · have hnone : b.tails k' = none := by simpa [Board.schedule, hk] using hnone
      rcases schedule_inLane.mp hj with hj | ⟨-, hk'⟩
      · exact h.noTail k' hnone j hj
      · exact absurd hk' hk

theorem Board.finish_getElem? {task : Task K} :
    (b.finish i k).tasks[j]? = some task ↔ ∃ task', b.tasks[j]? = some task' ∧
      task = { task' with done := task'.done || decide (j = i) } := by
  unfold finish
  rw [List.getElem?_modify]
  cases b.tasks[j]? with
  | none => simp
  | some task' =>
    by_cases hij : i = j
    · simp [hij, eq_comm]
    · have hji : j ≠ i := fun h => hij h.symm
      simp [hij, hji, eq_comm]

/-- Which tasks have ended. -/
theorem Board.finish_done (hi : b.InLane k i) :
    (b.finish i k).Done j ↔ b.Done j ∨ j = i := by
  simp only [Done, finish_getElem?]
  constructor
  · rintro ⟨task, ⟨task', htask, rfl⟩, hdone⟩
    rcases Bool.or_eq_true_iff.mp hdone with hdone | hdone
    · exact .inl ⟨task', htask, hdone⟩
    · exact .inr (of_decide_eq_true hdone)
  · rintro (⟨task, htask, hdone⟩ | rfl)
    · exact ⟨_, ⟨task, htask, rfl⟩, by simp [hdone]⟩
    · obtain ⟨task, htask, -⟩ := hi
      exact ⟨_, ⟨task, htask, rfl⟩, by simp⟩

/-- The lanes stay as they are when a task ends. -/
theorem Board.finish_inLane {k' : K} : (b.finish i k).InLane k' j ↔ b.InLane k' j := by
  simp only [InLane, finish_getElem?]
  constructor
  · rintro ⟨task, ⟨task', htask, rfl⟩, rfl⟩
    exact ⟨task', htask, rfl⟩
  · rintro ⟨task, htask, rfl⟩
    exact ⟨_, ⟨task, htask, rfl⟩, rfl⟩

/-- A task that is ready ends: the chains stay unbroken. -/
theorem Board.Sound.finish (h : b.Sound) (hi : b.InLane k i) (hready : b.Ready i) :
    (b.finish i k).Sound where
  chain j task htask l hlt hl := by
    obtain ⟨task', htask', rfl⟩ := finish_getElem?.mp htask
    rw [finish_done hi]
    rcases h.chain j task' htask' l hlt (finish_inLane.mp hl) with hdone | hp
    · exact .inl (.inl hdone)
    · exact .inr hp
  predecessor j task p htask hp := by
    obtain ⟨task', htask', rfl⟩ := finish_getElem?.mp htask
    obtain ⟨hlt, hlane⟩ := h.predecessor j task' p htask' hp
    exact ⟨hlt, finish_inLane.mpr hlane⟩
  inTurn j hdone task htask p hp := by
    obtain ⟨task', htask', rfl⟩ := finish_getElem?.mp htask
    rw [finish_done hi]
    rcases (finish_done hi).mp hdone with hdone | rfl
    · exact .inl (h.inTurn j hdone task' htask' p hp)
    · exact .inl (hready task' htask' p hp)
  tail k' t ht := by
    have hold : b.tails k' = some t ∧ t ≠ i := by
      unfold Board.finish at ht
      split at ht
      case isTrue htail =>
        by_cases hk : k' = k
        · simp [hk] at ht
        · have ht : b.tails k' = some t := by simpa [hk] using ht
          exact ⟨ht, fun heq => hk ((heq ▸ (h.tail k' t ht).1).unique hi)⟩
      case isFalse htail =>
        refine ⟨ht, ?_⟩
        rintro rfl
        obtain rfl := (h.tail k' t ht).1.unique hi
        exact htail ht
    obtain ⟨hlane, hdone, hlast⟩ := h.tail k' t hold.1
    refine ⟨finish_inLane.mpr hlane, ?_, fun j hj => hlast j (finish_inLane.mp hj)⟩
    rw [finish_done hi]
    rintro (hd | heq)
    · exact hdone hd
    · exact hold.2 heq
  noTail k' hnone j hj := by
    rw [finish_done hi]
    replace hj := finish_inLane.mp hj
    unfold Board.finish at hnone
    split at hnone
    case isTrue htail =>
      by_cases hk : k' = k
      · subst hk
        obtain ⟨hlane, -, hlast⟩ := h.tail k' i htail
        rcases (hlast j hj).eq_or_lt with rfl | hlt
        · exact .inr rfl
        · exact .inl (h.done_of_ready hlane hready hj hlt)
      · exact .inl (h.noTail k' (by simpa [hk] using hnone) j hj)
    case isFalse => exact .inl (h.noTail k' hnone j hj)

end Omni.Lanes
