import Mathlib.Data.List.Nodup
import Mathlib.Tactic.Common

/-!
# `CreditAllocator` in memory mode

A queue of free credits, each the offset of one slot of the pool. Taking a credit waits
until one is free; a credit given back to a full pool is dropped.
-/

namespace Omni.Relay

/-- `CreditAllocator` with a slot size. -/
structure CreditAllocator where
  credits : ℕ
  slotSize : ℕ
  freeCredits : List ℕ
  deriving DecidableEq

namespace CreditAllocator

/-- The allocator with all credits free. -/
def new (credits slotSize : ℕ) : CreditAllocator :=
  ⟨credits, slotSize, (List.range credits).map (· * slotSize)⟩

/-- `acquire_async`, which waits while it is `none`. -/
def acquire? (a : CreditAllocator) : Option (ℕ × CreditAllocator) :=
  match a.freeCredits with
  | [] => none
  | creditId :: rest => some (creditId, { a with freeCredits := rest })

/-- `release`. -/
def release (a : CreditAllocator) (creditId : ℕ) : CreditAllocator :=
  if a.freeCredits.length < a.credits then
    { a with freeCredits := a.freeCredits ++ [creditId] }
  else a

variable {a : CreditAllocator} {creditId : ℕ}

theorem acquire?_eq_some {b : CreditAllocator} :
    a.acquire? = some (creditId, b) ↔
      a.freeCredits = creditId :: b.freeCredits ∧ b = { a with freeCredits := b.freeCredits } := by
  cases h : a.freeCredits with
  | nil => simp [acquire?, h]
  | cons first rest =>
    simp only [acquire?, h, Option.some.injEq, Prod.mk.injEq, List.cons.injEq]
    constructor
    · rintro ⟨rfl, rfl⟩
      exact ⟨⟨rfl, rfl⟩, rfl⟩
    · rintro ⟨⟨rfl, hrest⟩, hb⟩
      exact ⟨rfl, by rw [hrest, ← hb]⟩

theorem mem_of_mem_release {other : ℕ} (hfree : other ∈ (a.release creditId).freeCredits) :
    other ∈ a.freeCredits ∨ other = creditId := by
  unfold release at hfree
  split at hfree
  · simpa using hfree
  · exact Or.inl hfree

theorem nodup_release (hnodup : a.freeCredits.Nodup) (hheld : creditId ∉ a.freeCredits) :
    (a.release creditId).freeCredits.Nodup := by
  unfold release
  split
  · refine List.Nodup.append hnodup (List.nodup_singleton creditId) ?_
    intro other hfree hother
    rw [List.mem_singleton] at hother
    exact hheld (hother ▸ hfree)
  · exact hnodup

end CreditAllocator

end Omni.Relay
