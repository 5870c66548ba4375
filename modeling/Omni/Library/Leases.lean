import Mathlib.Data.List.Nodup
import Mathlib.Logic.Function.Basic
import Mathlib.Tactic.Common

/-!
# Leases of slots

Requests hold slots of a row, each its own one. The slots that nobody holds are in a list, from
whose end they are taken and to which they are given back.
-/

namespace Omni

open Function List

/-- Who holds which slot, and the slots that are free. -/
structure Leases (R : Type*) where
  slotOf : R → Option ℕ
  free : List ℕ

namespace Leases

variable {R : Type*}

/-- All slots below a bound are free. -/
def fresh (bound : ℕ) : Leases R := ⟨fun _ => none, List.range bound⟩

/-- Somebody holds the slot. -/
def Held (l : Leases R) (slot : ℕ) : Prop := ∃ r, l.slotOf r = some slot

/-- The slots below a bound are held by one request each, or free. -/
structure Sound (bound : ℕ) (l : Leases R) : Prop where
  lt : ∀ r slot, l.slotOf r = some slot → slot < bound
  injective : ∀ r r' slot, l.slotOf r = some slot → l.slotOf r' = some slot → r = r'
  nodup : l.free.Nodup
  mem_free : ∀ slot, slot ∈ l.free ↔ slot < bound ∧ ¬l.Held slot

theorem sound_fresh (bound : ℕ) : (fresh bound : Leases R).Sound bound where
  lt _ _ hslot := by cases hslot
  injective _ _ _ hslot := by cases hslot
  nodup := nodup_range
  mem_free slot := by
    constructor
    · intro hmem
      refine ⟨mem_range.mp hmem, ?_⟩
      rintro ⟨r, hslot⟩
      cases hslot
    · rintro ⟨hlt, -⟩
      exact mem_range.mpr hlt

variable [DecidableEq R]

/-- The slot that is held, or the last free one. -/
def acquire (l : Leases R) (r : R) : Option (Leases R × ℕ) :=
  match l.slotOf r with
  | some slot => some (l, slot)
  | none => l.free.getLast?.map fun slot =>
    (⟨update l.slotOf r (some slot), l.free.dropLast⟩, slot)

/-- The slot that is held is given back. -/
def release (l : Leases R) (r : R) : Leases R :=
  match l.slotOf r with
  | none => l
  | some slot => ⟨update l.slotOf r none, l.free ++ [slot]⟩

variable {l l' : Leases R} {r : R} {slot bound : ℕ}

/-- An acquisition gives a slot that is held already, or a free one. -/
theorem acquire_cases (hacquire : l.acquire r = some (l', slot)) :
    l' = l ∧ l.slotOf r = some slot ∨
      l.slotOf r = none ∧ l.free = l'.free ++ [slot] ∧
        l'.slotOf = update l.slotOf r (some slot) := by
  unfold acquire at hacquire
  split at hacquire
  next heq =>
    obtain ⟨rfl, rfl⟩ := Prod.mk.inj (Option.some.inj hacquire)
    exact .inl ⟨rfl, heq⟩
  next hnone =>
    obtain ⟨last, hlast, heq⟩ := Option.map_eq_some_iff.mp hacquire
    obtain ⟨rfl, rfl⟩ := Prod.mk.inj heq
    exact .inr ⟨hnone, (dropLast_append_getLast? last hlast).symm, rfl⟩

/-- What is acquired is held. -/
theorem slotOf_acquire (hacquire : l.acquire r = some (l', slot)) : l'.slotOf r = some slot := by
  rcases acquire_cases hacquire with ⟨rfl, hslot⟩ | ⟨-, -, hslots⟩
  · exact hslot
  · rw [hslots, update_self]

/-- What is held stays held by an acquisition. -/
theorem slotOf_acquire_of_some (hacquire : l.acquire r = some (l', slot)) {r' : R} {slot' : ℕ}
    (hslot : l.slotOf r' = some slot') : l'.slotOf r' = some slot' := by
  rcases acquire_cases hacquire with ⟨rfl, -⟩ | ⟨hnone, -, hslots⟩
  · exact hslot
  · have hne : r' ≠ r := by
      rintro rfl
      rw [hnone] at hslot
      cases hslot
    rw [hslots, update_of_ne hne]
    exact hslot

theorem Sound.acquire (h : l.Sound bound) (hacquire : l.acquire r = some (l', slot)) :
    l'.Sound bound := by
  rcases acquire_cases hacquire with ⟨rfl, -⟩ | ⟨hnone, hfree, hslots⟩
  · exact h
  have hlast : slot ∈ l.free := by
    rw [hfree]
    exact mem_append_right _ (mem_singleton.mpr rfl)
  obtain ⟨hlt, hnot⟩ := (h.mem_free slot).mp hlast
  have hnodup := h.nodup
  rw [hfree] at hnodup
  obtain ⟨hnodup', -, hapart⟩ := nodup_append.mp hnodup
  have hcases {r' : R} {slot' : ℕ} (hslot : l'.slotOf r' = some slot') :
      r' = r ∧ slot' = slot ∨ r' ≠ r ∧ l.slotOf r' = some slot' := by
    rw [hslots] at hslot
    by_cases heq : r' = r
    · subst heq
      rw [update_self] at hslot
      exact .inl ⟨rfl, (Option.some.inj hslot).symm⟩
    · rw [update_of_ne heq] at hslot
      exact .inr ⟨heq, hslot⟩
  refine ⟨fun r' slot' hslot => ?_, fun r₁ r₂ slot' h₁ h₂ => ?_, hnodup', fun slot' => ?_⟩
  · rcases hcases hslot with ⟨-, rfl⟩ | ⟨-, hold⟩
    · exact hlt
    · exact h.lt r' slot' hold
  · rcases hcases h₁ with ⟨rfl, rfl⟩ | ⟨-, hold₁⟩
    · rcases hcases h₂ with ⟨rfl, -⟩ | ⟨-, hold₂⟩
      · rfl
      · exact absurd ⟨r₂, hold₂⟩ hnot
    · rcases hcases h₂ with ⟨rfl, rfl⟩ | ⟨-, hold₂⟩
      · exact absurd ⟨r₁, hold₁⟩ hnot
      · exact h.injective r₁ r₂ slot' hold₁ hold₂
  · have hmem : slot' ∈ l.free ↔ slot' ∈ l'.free ∨ slot' = slot := by
      rw [hfree, mem_append, mem_singleton]
    constructor
    · intro hslot'
      obtain ⟨hlt', hnot'⟩ := (h.mem_free slot').mp (hmem.mpr (.inl hslot'))
      refine ⟨hlt', ?_⟩
      rintro ⟨r', hheld⟩
      rcases hcases hheld with ⟨-, rfl⟩ | ⟨-, hold⟩
      · exact hapart _ hslot' _ (mem_singleton.mpr rfl) rfl
      · exact hnot' ⟨r', hold⟩
    · rintro ⟨hlt', hnot'⟩
      have hold : ¬l.Held slot' := fun ⟨r', hheld⟩ =>
        hnot' ⟨r', slotOf_acquire_of_some hacquire hheld⟩
      rcases hmem.mp ((h.mem_free slot').mpr ⟨hlt', hold⟩) with hslot' | rfl
      · exact hslot'
      · exact absurd ⟨r, slotOf_acquire hacquire⟩ hnot'

theorem slotOf_release (l : Leases R) (r : R) :
    (l.release r).slotOf = update l.slotOf r none := by
  unfold release
  split
  next hnone =>
    funext r'
    by_cases heq : r' = r
    · subst heq
      rw [update_self, hnone]
    · rw [update_of_ne heq]
  · rfl

theorem Sound.release (h : l.Sound bound) (r : R) : (l.release r).Sound bound := by
  have hold {r' : R} {slot' : ℕ} (hslot : (l.release r).slotOf r' = some slot') :
      r' ≠ r ∧ l.slotOf r' = some slot' := by
    rw [slotOf_release] at hslot
    by_cases heq : r' = r
    · subst heq
      rw [update_self] at hslot
      cases hslot
    · rw [update_of_ne heq] at hslot
      exact ⟨heq, hslot⟩
  cases hslot : l.slotOf r with
  | none =>
    have heq : l.release r = l := by simp only [Leases.release, hslot]
    rw [heq]
    exact h
  | some slot =>
    have hfree : (l.release r).free = l.free ++ [slot] := by simp only [Leases.release, hslot]
    have hout : slot ∉ l.free := fun hmem => ((h.mem_free slot).mp hmem).2 ⟨r, hslot⟩
    refine ⟨fun r' slot' hslot' => h.lt r' slot' (hold hslot').2,
      fun r₁ r₂ slot' h₁ h₂ => h.injective r₁ r₂ slot' (hold h₁).2 (hold h₂).2, ?_, fun slot' => ?_⟩
    · rw [hfree, nodup_append]
      refine ⟨h.nodup, nodup_singleton _, fun a ha b hb => ?_⟩
      rintro rfl
      exact hout (mem_singleton.mp hb ▸ ha)
    · rw [hfree, mem_append, mem_singleton]
      constructor
      · rintro (hmem | rfl)
        · obtain ⟨hlt, hnot⟩ := (h.mem_free slot').mp hmem
          exact ⟨hlt, fun ⟨r', hheld⟩ => hnot ⟨r', (hold hheld).2⟩⟩
        · exact ⟨h.lt r slot' hslot, fun ⟨r', hheld⟩ =>
            (hold hheld).1 (h.injective r' r slot' (hold hheld).2 hslot)⟩
      · rintro ⟨hlt, hnot⟩
        by_cases heq : slot' = slot
        · exact .inr heq
        · refine .inl ((h.mem_free slot').mpr ⟨hlt, fun ⟨r', hheld⟩ => hnot ⟨r', ?_⟩⟩)
          have hne : r' ≠ r := by
            rintro rfl
            exact heq (Option.some.inj (hheld.symm.trans hslot))
          rw [slotOf_release, update_of_ne hne]
          exact hheld

/-- A release frees no slot of another request. -/
theorem held_release (hheld : l.Held slot) (hother : l.slotOf r ≠ some slot) :
    (l.release r).Held slot := by
  obtain ⟨r', hslot⟩ := hheld
  have hne : r' ≠ r := by
    rintro rfl
    exact hother hslot
  refine ⟨r', ?_⟩
  rw [slotOf_release, update_of_ne hne]
  exact hslot

end Leases

end Omni
