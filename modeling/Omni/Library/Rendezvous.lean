import Mathlib.Data.List.Induction
import Mathlib.Tactic.Common

/-!
# Answers to requests of several messages

A request is open from its first message on. It is answered, and closed, by the message after which
both its payload and the end of its stream have come, or by one that fails. The end of the stream
does not open a request. Nothing here refers to a particular system.
-/

namespace Omni.Rendezvous

open List

/-- What a message does for a request. -/
inductive Signal
  | payload
  | item
  | fails
  | done
  deriving DecidableEq

/-- An open request: what has come. -/
structure Progress where
  payload : Bool
  done : Bool
  deriving DecidableEq

/-- The request after a signal, and whether the signal answers it. -/
def step : Option Progress → Signal → Option Progress × Bool
  | none, .payload => (some ⟨true, false⟩, false)
  | some p, .payload => if p.done then (none, true) else (some ⟨true, false⟩, false)
  | none, .item => (some ⟨false, false⟩, false)
  | some p, .item => (some p, false)
  | _, .fails => (none, true)
  | none, .done => (none, false)
  | some p, .done => if p.payload then (none, true) else (some ⟨false, true⟩, false)

attribute [local simp] step

/-- One signal more, with the number of answers. -/
def advance (s : Option Progress × ℕ) (signal : Signal) : Option Progress × ℕ :=
  ((step s.1 signal).1, s.2 + (step s.1 signal).2.toNat)

/-- A failure answers and closes. -/
theorem advance_fails (s : Option Progress × ℕ) : advance s .fails = (none, s.2 + 1) := by
  rcases s with ⟨- | p, n⟩ <;> rfl

/-- The request and the number of its answers after some signals. -/
def run (signals : List Signal) : Option Progress × ℕ := signals.foldl advance (none, 0)

/-- The signals from the one on that opens the request. -/
def opened (signals : List Signal) : List Signal := signals.dropWhile (· = .done)

/-- The payload has come, and the end of the stream, which did not open the request. -/
def Complete (signals : List Signal) : Prop :=
  .payload ∈ opened signals ∧ .done ∈ opened signals

instance (signals : List Signal) : Decidable (Complete signals) :=
  inferInstanceAs (Decidable (_ ∧ _))

/-- No signal answers. -/
def Waiting (signals : List Signal) : Prop := .fails ∉ signals ∧ ¬Complete signals

instance (signals : List Signal) : Decidable (Waiting signals) :=
  inferInstanceAs (Decidable (_ ∧ _))

/-- The signals end with the first one that answers, up to ends of the stream after it. -/
def EndsWithAnswer (signals : List Signal) : Prop :=
  ∃ before last after, signals = before ++ last :: after ∧ Waiting before ∧
    (last = .fails ∨ Complete (before ++ [last])) ∧ ∀ signal ∈ after, signal = .done

/-- The request while it waits. -/
def progress (signals : List Signal) : Option Progress :=
  if opened signals = [] then none
  else some ⟨.payload ∈ opened signals, .done ∈ opened signals⟩

theorem run_concat (signals : List Signal) (signal : Signal) :
    run (signals ++ [signal]) = ((step (run signals).1 signal).1,
      (run signals).2 + (step (run signals).1 signal).2.toNat) := by
  rw [run, foldl_append]
  rfl

theorem opened_concat (signals : List Signal) (signal : Signal) :
    opened (signals ++ [signal]) =
      if opened signals = [] then (if signal = .done then [] else [signal])
      else opened signals ++ [signal] := by
  unfold opened
  rw [List.dropWhile_append]
  simp only [List.isEmpty_iff, List.dropWhile_cons, List.dropWhile_nil, decide_eq_true_eq]

/-- What a signal does for a request that waits. -/
theorem step_progress (signals : List Signal) (hwaiting : Waiting signals) (signal : Signal) :
    ((step (progress signals) signal).2 = true ↔ signal = .fails ∨ Complete (signals ++ [signal])) ∧
      (¬(signal = .fails ∨ Complete (signals ++ [signal])) →
        (step (progress signals) signal).1 = progress (signals ++ [signal])) := by
  have hnot := hwaiting.2
  unfold Complete at hnot
  simp only [Complete, progress, opened_concat]
  by_cases hempty : opened signals = []
  · cases signal <;> simp [hempty, step]
  · cases signal <;>
      by_cases hpayload : Signal.payload ∈ opened signals <;>
      by_cases hdone : Signal.done ∈ opened signals <;>
      simp_all [step]

variable {signals : List Signal} {signal : Signal}

/-- A signal that does not answer leaves the request waiting. -/
theorem Waiting.concat (hwaiting : Waiting signals)
    (hnot : ¬(signal = .fails ∨ Complete (signals ++ [signal]))) :
    Waiting (signals ++ [signal]) := by
  rw [not_or] at hnot
  refine ⟨fun hmem => ?_, hnot.2⟩
  rcases mem_append.1 hmem with hmem | hmem
  · exact hwaiting.1 hmem
  · exact hnot.1 (mem_singleton.1 hmem).symm

theorem Waiting.init (hwaiting : Waiting (signals ++ [signal])) :
    Waiting signals ∧ ¬(signal = .fails ∨ Complete (signals ++ [signal])) := by
  have hfails : signal ≠ .fails := by
    rintro rfl
    exact hwaiting.1 (by simp)
  refine ⟨⟨fun hmem => hwaiting.1 (mem_append_left _ hmem), fun hcomplete => ?_⟩,
    fun hanswer => hanswer.elim hfails hwaiting.2⟩
  have hopened : opened signals ≠ [] := ne_nil_of_mem hcomplete.1
  refine hwaiting.2 ?_
  rw [Complete, opened_concat, if_neg hopened]
  exact ⟨mem_append_left _ hcomplete.1, mem_append_left _ hcomplete.2⟩

/-- A request that waits is as far as its signals say. -/
theorem run_of_waiting (hwaiting : Waiting signals) :
    run signals = (progress signals, 0) := by
  induction signals using List.reverseRecOn with
  | nil => rfl
  | append_singleton signals signal ih =>
    obtain ⟨hbefore, hnot⟩ := hwaiting.init
    obtain ⟨hanswer, hnext⟩ := step_progress signals hbefore signal
    have hno : (step (progress signals) signal).2 = false := by
      rw [Bool.eq_false_iff, Ne, hanswer]
      exact hnot
    rw [run_concat, ih hbefore, hno, hnext hnot]
    rfl

/-- Without an answer, the request waits. -/
theorem waiting_of_count (hrun : (run signals).2 = 0) : Waiting signals := by
  induction signals using List.reverseRecOn with
  | nil => exact ⟨by simp, by simp [Complete, opened]⟩
  | append_singleton signals signal ih =>
    rw [run_concat, Nat.add_eq_zero_iff, Bool.toNat_eq_zero] at hrun
    have hbefore := ih hrun.1
    refine hbefore.concat fun hanswer => ?_
    rw [run_of_waiting hbefore, ← Bool.not_eq_true] at hrun
    exact hrun.2 ((step_progress signals hbefore signal).1.2 hanswer)

/-- An answer closes the request. -/
theorem step_answers {p : Option Progress} (h : (step p signal).2 = true) :
    (step p signal).1 = none := by
  rcases p with - | ⟨payload, done⟩ <;> cases signal <;> simp_all [step] <;>
    split at h <;> simp_all

/-- What leaves a request closed without an answer is the end of a stream. -/
theorem step_silent {p : Option Progress} (hclosed : (step p signal).1 = none)
    (hanswer : (step p signal).2 = false) : p = none ∧ signal = .done := by
  rcases p with - | ⟨payload, done⟩ <;> cases signal <;> simp_all [step] <;>
    split at hclosed <;> simp_all

/-- **Answers.** A request is answered once and closed if and only if its signals end with the first
one that answers. -/
theorem run_eq_iff (signals : List Signal) :
    run signals = (none, 1) ↔ EndsWithAnswer signals := by
  constructor
  · intro hrun
    induction signals using List.reverseRecOn with
    | nil => simp [run] at hrun
    | append_singleton signals signal ih =>
      rw [run_concat, Prod.mk.injEq] at hrun
      obtain ⟨hclosed, hcount⟩ := hrun
      cases hlast : (step (run signals).1 signal).2 with
      | true =>
        rw [hlast, Bool.toNat_true, Nat.add_eq_right] at hcount
        have hbefore := waiting_of_count hcount
        rw [run_of_waiting hbefore, (step_progress signals hbefore signal).1] at hlast
        exact ⟨signals, signal, [], rfl, hbefore, hlast, by simp⟩
      | false =>
        rw [hlast, Bool.toNat_false, Nat.add_zero] at hcount
        obtain ⟨hnone, hdone⟩ := step_silent hclosed hlast
        obtain ⟨before, last, after, hsignals, hbefore, hanswer, hafter⟩ :=
          ih (Prod.ext hnone hcount)
        refine ⟨before, last, after ++ [signal], by simp [hsignals], hbefore, hanswer, ?_⟩
        simpa [or_imp, forall_and, hdone] using hafter
  · rintro ⟨before, last, after, hsignals, hbefore, hanswer, hafter⟩
    subst hsignals
    have hlast : run (before ++ [last]) = (none, 1) := by
      have hstep := (step_progress before hbefore last).1.2 hanswer
      rw [run_concat, run_of_waiting hbefore, step_answers hstep, hstep]
      rfl
    induction after using List.reverseRecOn with
    | nil => exact hlast
    | append_singleton after signal ih =>
      have hdone := hafter signal (by simp)
      have hsplit : before ++ last :: (after ++ [signal]) =
          (before ++ last :: after) ++ [signal] := by simp
      rw [hsplit, run_concat, ih fun s hs => hafter s (mem_append_left _ hs), hdone]
      rfl

section System

variable {σ α : Type} (next : σ → α → σ) (signal : σ → α → Option Signal)

/-- The signals of the events. -/
def observed : σ → List α → List Signal
  | _, [] => []
  | s, a :: as => (signal s a).toList ++ observed (next s a) as

variable {next signal}

/-- If every event does to a request what its signal says, so does a list of events. -/
theorem view_foldl (view : σ → Option Progress × ℕ) (I : σ → Prop) (ok : α → Prop)
    (hkeep : ∀ s a, I s → ok a → I (next s a))
    (hview : ∀ s a, I s → ok a → view (next s a) = (signal s a).toList.foldl advance (view s))
    {s : σ} (hs : I s) {as : List α} (hok : ∀ a ∈ as, ok a) :
    view (as.foldl next s) = (observed next signal s as).foldl advance (view s) := by
  induction as generalizing s with
  | nil => rfl
  | cons a as ih =>
    have ha := hok a (mem_cons_self ..)
    rw [foldl_cons, ih (hkeep s a hs ha) fun b hb => hok b (mem_cons_of_mem _ hb),
      hview s a hs ha, observed, foldl_append]

/-- Signals that do not depend on the state. -/
theorem observed_eq_filterMap (next : σ → α → σ) (signal : α → Option Signal) (s : σ)
    (as : List α) : observed next (fun _ => signal) s as = as.filterMap signal := by
  induction as generalizing s with
  | nil => rfl
  | cons a as ih =>
    rw [observed, ih, filterMap_cons]
    cases signal a <;> rfl

end System

end Omni.Rendezvous
