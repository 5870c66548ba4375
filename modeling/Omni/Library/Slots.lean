import Mathlib.Data.Bool.Count
import Mathlib.Data.List.Basic
import Mathlib.Logic.Function.Basic

/-!
# Ranges of slots

A row of flags says which slots are free. Owners hold ranges of slots that are taken,
no two of them the same slot.
-/

namespace Omni

open Function

/-- A range of slots. -/
structure SlotRange where
  start : ℕ
  count : ℕ
  deriving DecidableEq

/-- The slot belongs to the range. -/
def SlotRange.Has (range : SlotRange) (slot : ℕ) : Prop :=
  range.start ≤ slot ∧ slot < range.start + range.count

/-- All slots of the range are there and have the given flag. -/
def Uniform (flags : List Bool) (value : Bool) (range : SlotRange) : Prop :=
  ∀ slot, range.Has slot → flags[slot]? = some value

/-- Give all slots of a range the same flag. -/
def setRange (flags : List Bool) (value : Bool) (range : SlotRange) : List Bool :=
  (List.range' range.start range.count).foldl (fun flags slot => flags.set slot value) flags

/-- The range starts at the first of all places where it finds only free slots. -/
def IsFirstFit (flags : List Bool) (range : SlotRange) : Prop :=
  Uniform flags true range ∧ ∀ start < range.start, ¬Uniform flags true ⟨start, range.count⟩

/-- What a search for free slots may answer. -/
def FirstFit (flags : List Bool) (count : ℕ) : Option ℕ → Prop
  | some start => IsFirstFit flags ⟨start, count⟩
  | none => ∀ start, ¬Uniform flags true ⟨start, count⟩

variable {flags : List Bool} {value : Bool} {range : SlotRange}

theorem Uniform.inside (huniform : Uniform flags value range) (hpos : 0 < range.count) :
    range.start + range.count ≤ flags.length := by
  have hlast := huniform (range.start + range.count - 1) ⟨by omega, by omega⟩
  have hlt := (List.getElem?_eq_some_iff.mp hlast).1
  omega

/-- One more slot. -/
theorem setRange_succ (flags : List Bool) (value : Bool) (start count : ℕ) :
    setRange flags value ⟨start, count + 1⟩ =
      (setRange flags value ⟨start, count⟩).set (start + count) value := by
  simp [setRange, List.range'_concat]

@[simp] theorem length_setRange (flags : List Bool) (value : Bool) (range : SlotRange) :
    (setRange flags value range).length = flags.length := by
  obtain ⟨start, count⟩ := range
  induction count with
  | zero => rfl
  | succ count ih => rw [setRange_succ, List.length_set, ih]

theorem getElem?_setRange_of_has {slot : ℕ} (hhas : range.Has slot) (hslot : slot < flags.length) :
    (setRange flags value range)[slot]? = some value := by
  obtain ⟨start, count⟩ := range
  induction count with
  | zero => exact absurd hhas.2 (by simpa using hhas.1)
  | succ count ih =>
    rw [setRange_succ]
    by_cases hlast : start + count = slot
    · subst hlast
      simp [hslot]
    · rw [List.getElem?_set_ne hlast]
      have hle : start ≤ slot := hhas.1
      have hlt : slot < start + (count + 1) := hhas.2
      exact ih ⟨hle, by simp only; omega⟩

/-- All other slots keep their flag. -/
theorem getElem?_setRange_of_not_has {slot : ℕ} (hhas : ¬range.Has slot) :
    (setRange flags value range)[slot]? = flags[slot]? := by
  obtain ⟨start, count⟩ := range
  simp only [SlotRange.Has] at hhas
  induction count with
  | zero => rfl
  | succ count ih =>
    rw [setRange_succ, List.getElem?_set_ne (by omega)]
    exact ih (by omega)

/-- Turning the flags of a uniform range changes their number by its length. -/
theorem count_setRange (huniform : Uniform flags (!value) range) :
    (setRange flags value range).count value = flags.count value + range.count := by
  obtain ⟨start, count⟩ := range
  induction count with
  | zero => rfl
  | succ count ih =>
    have hshort : Uniform flags (!value) ⟨start, count⟩ := fun slot hslot =>
      huniform slot ⟨hslot.1, Nat.lt_succ_of_lt hslot.2⟩
    have hflag : (setRange flags value ⟨start, count⟩)[start + count]? = some !value := by
      rw [getElem?_setRange_of_not_has (by simp [SlotRange.Has])]
      exact huniform _ ⟨Nat.le_add_right .., Nat.lt_succ_self _⟩
    obtain ⟨hlt, hget⟩ := List.getElem?_eq_some_iff.mp hflag
    rw [setRange_succ, List.count_set hlt, ih hshort, hget]
    cases value <;> simp [Nat.add_assoc]

/-- Taking a free range. -/
theorem count_take (hfree : Uniform flags true range) :
    (setRange flags false range).count true + range.count = flags.count true := by
  have htaken := @count_setRange _ false _ hfree
  have hbefore := List.count_true_add_count_false flags
  have hafter := List.count_true_add_count_false (setRange flags false range)
  rw [length_setRange] at hafter
  omega

/-- A range that finds free slots after some have been taken has found them before. -/
theorem Uniform.of_take {other : SlotRange}
    (hfree : Uniform (setRange flags false range) true other) : Uniform flags true other := by
  intro slot hslot
  have hflag := hfree slot hslot
  by_cases hhas : range.Has slot
  · have hlt := (List.getElem?_eq_some_iff.mp hflag).1
    rw [length_setRange] at hlt
    rw [getElem?_setRange_of_has hhas hlt] at hflag
    simp at hflag
  · rwa [getElem?_setRange_of_not_has hhas] at hflag

section Owners

variable {ι : Type*} [DecidableEq ι]

/-- Every owner holds slots that are there and taken, and no slot has two owners. -/
structure Holds (flags : List Bool) (owned : ι → Option SlotRange) : Prop where
  taken : ∀ owner range, owned owner = some range → Uniform flags false range
  disjoint : ∀ owner other range range', owner ≠ other → owned owner = some range →
    owned other = some range' → ∀ slot, range.Has slot → ¬range'.Has slot

variable {owned : ι → Option SlotRange}

theorem Holds.take (h : Holds flags owned) (hfree : Uniform flags true range) {owner : ι}
    (howner : owned owner = none) :
    Holds (setRange flags false range) (update owned owner (some range)) := by
  have hapart : ∀ other range', owned other = some range' → ∀ slot, range'.Has slot →
      ¬range.Has slot := by
    intro other range' hother slot hslot hhas
    have hflag := h.taken other range' hother slot hslot
    rw [hfree slot hhas] at hflag
    simp at hflag
  constructor
  · intro other range' hother slot hslot
    by_cases hsame : other = owner
    · subst hsame
      obtain rfl : range = range' := by simpa using hother
      exact getElem?_setRange_of_has hslot (List.getElem?_eq_some_iff.mp (hfree slot hslot)).1
    · rw [update_of_ne hsame] at hother
      rw [getElem?_setRange_of_not_has (hapart other range' hother slot hslot)]
      exact h.taken other range' hother slot hslot
  · intro first second range₁ range₂ hne h₁ h₂ slot hslot
    by_cases hfirst : first = owner
    · subst hfirst
      obtain rfl : range = range₁ := by simpa using h₁
      rw [update_of_ne hne.symm] at h₂
      exact fun hhas => hapart second range₂ h₂ slot hhas hslot
    · rw [update_of_ne hfirst] at h₁
      by_cases hsecond : second = owner
      · subst hsecond
        obtain rfl : range = range₂ := by simpa using h₂
        exact hapart first range₁ h₁ slot hslot
      · rw [update_of_ne hsecond] at h₂
        exact h.disjoint first second range₁ range₂ hne h₁ h₂ slot hslot

/-- An owner that is forgotten leaves its range taken. -/
theorem Holds.drop (h : Holds flags owned) (owner : ι) :
    Holds flags (update owned owner none) := by
  have hstill : ∀ other range', update owned owner none other = some range' →
      owned other = some range' := by
    intro other range' hother
    by_cases hsame : other = owner
    · subst hsame
      simp at hother
    · rwa [update_of_ne hsame] at hother
  constructor
  · exact fun other range' hother => h.taken other range' (hstill other range' hother)
  · exact fun first second range₁ range₂ hne h₁ h₂ =>
      h.disjoint first second range₁ range₂ hne (hstill first range₁ h₁) (hstill second range₂ h₂)

theorem Holds.giveBack (h : Holds flags owned) {owner : ι} (howner : owned owner = some range) :
    Holds (setRange flags true range) (update owned owner none) := by
  have hrest := h.drop owner
  refine ⟨fun other range' hother slot hslot => ?_, hrest.disjoint⟩
  have hne : other ≠ owner := by
    rintro rfl
    simp at hother
  have hbefore : owned other = some range' := by rwa [update_of_ne hne] at hother
  have hnot := h.disjoint other owner range' range hne hbefore howner slot hslot
  rw [getElem?_setRange_of_not_has hnot]
  exact h.taken other range' hbefore slot hslot

end Owners

end Omni
