import Mathlib.Data.Finset.Card
import Mathlib.Tactic.Common

/-!
# Pools of credits

A pool has a fixed number of credits. Each acquisition has its own ticket and takes
one credit, which comes back at most once. The fields of `Pool` carry these rules,
so every pool obeys them.
-/

namespace Omni

open Finset

/-- A pool of `c` credits: how many are free, the tickets that hold one, and the
tickets that have given theirs back. -/
structure Pool (c : ℕ) (τ : Type*) where
  free : ℕ
  out : Finset τ
  back : Finset τ
  /-- Every credit is free or held by one ticket. -/
  balance : free + out.card = c
  /-- A credit that has been given back is not held. -/
  disjoint : Disjoint out back

namespace Pool

variable {c : ℕ} {τ : Type*}

/-- The pool before the first acquisition. -/
def full (c : ℕ) : Pool c τ :=
  ⟨c, ∅, ∅, by rw [card_empty, Nat.add_zero], disjoint_empty_left ∅⟩

variable [DecidableEq τ]

/-- Take a credit under a new ticket; anything else is refused. -/
def acquire (P : Pool c τ) (t : τ) : Pool c τ :=
  if h : 0 < P.free ∧ t ∉ P.out ∧ t ∉ P.back then
    { free := P.free - 1
      out := insert t P.out
      back := P.back
      balance := by
        have hbalance := P.balance
        rw [card_insert_of_notMem h.2.1]
        omega
      disjoint := by
        rw [disjoint_insert_left]
        exact ⟨h.2.2, P.disjoint⟩ }
  else P

/-- Give the credit of a ticket back, which does nothing unless the ticket holds one. -/
def release (P : Pool c τ) (t : τ) : Pool c τ :=
  if h : t ∈ P.out then
    { free := P.free + 1
      out := P.out.erase t
      back := insert t P.back
      balance := by
        have hbalance := P.balance
        have hpos := card_pos.mpr ⟨t, h⟩
        rw [card_erase_of_mem h]
        omega
      disjoint := by
        rw [disjoint_insert_right]
        exact ⟨notMem_erase t P.out, P.disjoint.mono_left (P.out.erase_subset t)⟩ }
  else P

section Acquire

variable {P : Pool c τ} {t : τ}

theorem acquire_free (hfree : 0 < P.free) (hout : t ∉ P.out) (hback : t ∉ P.back) :
    (P.acquire t).free = P.free - 1 := by
  simp [acquire, hfree, hout, hback]

theorem acquire_out (hfree : 0 < P.free) (hout : t ∉ P.out) (hback : t ∉ P.back) :
    (P.acquire t).out = insert t P.out := by
  simp [acquire, hfree, hout, hback]

@[simp] theorem acquire_back : (P.acquire t).back = P.back := by
  unfold acquire
  split <;> rfl

theorem release_free (hout : t ∈ P.out) : (P.release t).free = P.free + 1 := by
  simp [release, hout]

theorem release_out (hout : t ∈ P.out) : (P.release t).out = P.out.erase t := by
  simp [release, hout]

theorem release_back (hout : t ∈ P.out) : (P.release t).back = insert t P.back := by
  simp [release, hout]

/-- A release takes no other ticket's credit. -/
theorem mem_release_out {u : τ} (hu : u ∈ P.out) (hne : u ≠ t) : u ∈ (P.release t).out := by
  by_cases hout : t ∈ P.out
  · rw [release_out hout]
    exact mem_erase.mpr ⟨hne, hu⟩
  · simpa [release, hout] using hu

theorem release_out_subset : (P.release t).out ⊆ P.out := by
  by_cases hout : t ∈ P.out
  · rw [release_out hout]
    exact P.out.erase_subset t
  · simp [release, hout]

end Acquire

omit [DecidableEq τ] in
/-- All credits are free exactly if no ticket holds one. -/
theorem free_eq_iff (P : Pool c τ) : P.free = c ↔ P.out = ∅ := by
  have hbalance := P.balance
  rw [← card_eq_zero]
  omega

omit [DecidableEq τ] in
/-- Tickets known to hold credits leave so many fewer free. -/
theorem free_add_le (P : Pool c τ) {held : Finset τ} (hheld : held ⊆ P.out) :
    P.free + held.card ≤ c := by
  have hbalance := P.balance
  have hcard := card_le_card hheld
  omega

end Pool

end Omni
