import Omni.Coordinator.Effects
import Omni.Library.Prefix

/-!
# The messages of a request with several terminal stages

The part of the arrivals that a consumer is meant to see, the point at which every
expected terminal stage has completed, and the last result of each stage.
-/

namespace Omni.Coordinator

variable {V : Type}

/-- The stage whose completion the message is. -/
def Message.completes : Message V → Option String
  | .complete msg => some msg.fromStage
  | .stream _ => none

/-- The result that the message brings from a stage. -/
def Message.resultOf (stage : String) : Message V → Option (Option V)
  | .complete msg => if msg.fromStage = stage then some msg.result else none
  | .stream _ => none

/-- The stages that have completed. -/
def completedStages (l : List (Message V)) : Finset String := (l.filterMap (·.completes)).toFinset

/-- Every expected stage has completed. -/
def covers (expected : Finset String) (l : List (Message V)) : Bool :=
  decide (expected ⊆ completedStages l)

/-- The message is for the consumer: a stream message, or the completion of an
expected stage. -/
def Message.expectedBy (expected : Finset String) : Message V → Bool
  | .complete msg => decide (msg.fromStage ∈ expected)
  | .stream _ => true

/-- The arrivals without the completions of stages that are not expected. -/
def deliverable (expected : Finset String) (l : List (Message V)) : List (Message V) :=
  l.filter (·.expectedBy expected)

/-- What the consumer is to receive: everything up to and including the completion
of the last missing stage. -/
def conclusive (expected : Finset String) (l : List (Message V)) : List (Message V) :=
  shortestPrefix (covers expected) (deliverable expected l)

/-- The last result that a stage has sent. -/
def lastResult (stage : String) (l : List (Message V)) : Option (Option V) :=
  (l.filterMap (·.resultOf stage)).getLast?

/-- The results of the stages, later ones replacing earlier ones. -/
def mergeResults (l : List (Message V)) : Finmap fun _ : String => Option V :=
  l.foldl (fun values msg => match msg with
    | .complete done => values.insert done.fromStage done.result
    | .stream _ => values) ∅

section Lists

variable {expected : Finset String} {l : List (Message V)} (done : CompleteMessage V)
  (chunk : StreamMessage V)

@[simp] theorem completedStages_complete :
    completedStages (l ++ [.complete done]) = insert done.fromStage (completedStages l) := by
  simp [completedStages, Message.completes]

@[simp] theorem completedStages_stream :
    completedStages (l ++ [.stream chunk]) = completedStages l := by
  simp [completedStages, Message.completes]

@[simp] theorem mergeResults_complete :
    mergeResults (l ++ [.complete done]) = (mergeResults l).insert done.fromStage done.result := by
  simp [mergeResults]

@[simp] theorem mergeResults_stream : mergeResults (l ++ [.stream chunk]) = mergeResults l := by
  simp [mergeResults]

@[simp] theorem deliverable_stream :
    deliverable expected (l ++ [.stream chunk]) = deliverable expected l ++ [.stream chunk] := by
  simp [deliverable, Message.expectedBy]

theorem deliverable_complete (hstage : done.fromStage ∈ expected) :
    deliverable expected (l ++ [.complete done]) = deliverable expected l ++ [.complete done] := by
  simp [deliverable, Message.expectedBy, hstage]

theorem deliverable_ignored (hstage : done.fromStage ∉ expected) :
    deliverable expected (l ++ [.complete done]) = deliverable expected l := by
  simp [deliverable, Message.expectedBy, hstage]

/-- Once every stage has completed this stays so. -/
theorem lasting_covers (expected : Finset String) :
    Lasting (covers expected : List (Message V) → Bool) := by
  intro l l' h
  simp only [covers, decide_eq_true_eq] at h ⊢
  refine h.trans fun stage hstage => ?_
  simp only [completedStages, List.filterMap_append, List.toFinset_append] at hstage ⊢
  exact Finset.mem_union_left _ hstage

theorem completedStages_deliverable (expected : Finset String) (l : List (Message V)) :
    completedStages (deliverable expected l) ⊆ expected := by
  intro stage hstage
  simp only [completedStages, List.mem_toFinset, List.mem_filterMap] at hstage
  obtain ⟨msg, hmem, hcompletes⟩ := hstage
  have hexpected := (List.mem_filter.mp hmem).2
  cases msg with
  | complete done =>
    simp only [Message.completes, Option.some.injEq] at hcompletes
    simpa [Message.expectedBy, hcompletes] using hexpected
  | stream chunk => simp [Message.completes] at hcompletes

theorem mergeResults_keys (l : List (Message V)) : (mergeResults l).keys = completedStages l := by
  induction l using List.reverseRecOn with
  | nil => rfl
  | append_singleton l msg ih =>
    cases msg with
    | complete done =>
      ext stage
      simp [← ih, Finmap.mem_keys, Finmap.mem_insert]
    | stream chunk => simpa using ih

theorem mergeResults_lookup (l : List (Message V)) (stage : String) :
    (mergeResults l).lookup stage = lastResult stage l := by
  induction l using List.reverseRecOn with
  | nil => rfl
  | append_singleton l msg ih =>
    cases msg with
    | complete done =>
      rw [mergeResults_complete]
      by_cases hstage : done.fromStage = stage
      · subst hstage
        simp [lastResult, Message.resultOf]
      · rw [Finmap.lookup_insert_of_ne _ (Ne.symm hstage), ih]
        simp [lastResult, Message.resultOf, hstage]
    | stream chunk =>
      rw [mergeResults_stream, ih]
      simp [lastResult, Message.resultOf]

end Lists

end Omni.Coordinator
