import Mathlib.Algebra.GroupWithZero.Nat
import Mathlib.Data.List.Basic

/-!
# Rows that belong to the entries of a list

A table has one row for each entry of a list. The table names the owner of each row,
so that it fits the list if its owners are the entries in their order.
-/

namespace Omni

open List

variable {α β : Type*}

/-- The rows at the indices of the entries that are kept. -/
def reslice (keep : α → Bool) (entries : List α) (rows : List β) : List β :=
  ((entries.zip rows).filter fun pair => keep pair.1).map Prod.snd

theorem reslice_cons (keep : α → Bool) (entry : α) (entries : List α) (row : β) (rows : List β) :
    reslice keep (entry :: entries) (row :: rows) =
      if keep entry then row :: reslice keep entries rows else reslice keep entries rows := by
  by_cases hkeep : keep entry = true
  · simp [reslice, hkeep]
  · simp [reslice, hkeep]

/-- Reslicing a table that fits makes one that fits the kept entries. -/
theorem reslice_self (keep : α → Bool) (entries : List α) :
    reslice keep entries entries = entries.filter keep := by
  induction entries with
  | nil => rfl
  | cons entry entries ih => rw [reslice_cons, filter_cons, ih]

/-- The rows are those of the entries, unless there are no entries. -/
def Fits (entries rows : List α) : Prop := entries = [] ∨ rows = entries

/-- A table that fits still does after both have been resliced. -/
theorem Fits.reslice {entries rows : List α} (h : Fits entries rows) (keep : α → Bool) :
    Fits (entries.filter keep) (Omni.reslice keep entries rows) := by
  rcases h with rfl | rfl
  · exact Or.inl rfl
  · exact Or.inr (reslice_self keep _)

/-- Tables that fit lists with entries can be put together. -/
theorem Fits.append {entries rows entries' rows' : List α} (h : Fits entries rows)
    (h' : Fits entries' rows') (hentries : entries ≠ []) (hentries' : entries' ≠ []) :
    Fits (entries ++ entries') (rows ++ rows') := by
  have hrows := h.resolve_left hentries
  have hrows' := h'.resolve_left hentries'
  exact Or.inr (by rw [hrows, hrows'])

/-- Taking entries away without their rows leaves a table that fits exactly if all of them
have been taken, or none. -/
theorem Fits.filter_iff {entries rows : List α} (h : Fits entries rows) (keep : α → Bool) :
    Fits (entries.filter keep) rows ↔
      ¬((∃ entry ∈ entries, keep entry = false) ∧ ∃ entry ∈ entries, keep entry = true) := by
  rcases h with rfl | rfl
  · simp [Fits]
  · have hnone : rows.filter keep = [] ↔ ¬∃ entry ∈ rows, keep entry = true := by
      simp [filter_eq_nil_iff]
    have hall : rows = rows.filter keep ↔ ¬∃ entry ∈ rows, keep entry = false := by
      rw [eq_comm, filter_eq_self]
      simp
    unfold Fits
    rw [hnone, hall, not_and_or]
    exact or_comm

/-- Every entry with the property stands at the place of its row. -/
def Paired (P : α → Prop) (entries rows : List α) : Prop :=
  ∀ (i : ℕ) (entry : α), entries[i]? = some entry → P entry → rows[i]? = some entry

section Paired

variable {P Q : α → Prop} {entries rows : List α}

theorem paired_nil (P : α → Prop) (rows : List α) : Paired P [] rows := by
  intro i entry hentry
  simp at hentry

theorem paired_self (P : α → Prop) (entries : List α) : Paired P entries entries :=
  fun _ _ hentry _ => hentry

theorem paired_cons {entry : α} :
    Paired P (entry :: entries) rows ↔
      (P entry → rows.head? = some entry) ∧ Paired P entries rows.tail := by
  constructor
  · intro h
    refine ⟨fun hP => ?_, fun i other hother hP => ?_⟩
    · rw [head?_eq_getElem?]
      exact h 0 entry rfl hP
    · rw [getElem?_tail]
      exact h (i + 1) other hother hP
  · rintro ⟨hhead, htail⟩ i other hother hP
    cases i with
    | zero =>
      cases hother
      rw [← head?_eq_getElem?]
      exact hhead hP
    | succ i =>
      rw [← getElem?_tail]
      exact htail i other hother hP

/-- Fewer entries have to stand at their places. -/
theorem Paired.imp (h : Paired P entries rows) (himp : ∀ entry ∈ entries, Q entry → P entry) :
    Paired Q entries rows :=
  fun i entry hentry hQ => h i entry hentry (himp entry (mem_of_getElem? hentry) hQ)

/-- Taking entries away without their rows, but none in front of one with the property. -/
theorem Paired.filter (h : Paired P entries rows) (keep : α → Bool)
    (hfront : ∀ p q, [p, q].Sublist entries → keep p = false → keep q = true → ¬P q) :
    Paired P (entries.filter keep) rows := by
  induction entries generalizing rows with
  | nil => exact paired_nil P rows
  | cons first entries ih =>
    obtain ⟨hhead, htail⟩ := paired_cons.mp h
    have hrest := ih htail fun p q hsub => hfront p q (hsub.cons first)
    cases hkeep : keep first with
    | true =>
      rw [filter_cons_of_pos hkeep]
      exact paired_cons.mpr ⟨hhead, hrest⟩
    | false =>
      rw [filter_cons_of_neg (by simp [hkeep])]
      intro i entry hentry hP
      obtain ⟨hmem, hkept⟩ := mem_filter.mp (mem_of_getElem? hentry)
      exact absurd hP (hfront first entry
        (cons_sublist_cons.mpr (singleton_sublist.mpr hmem)) hkeep hkept)

/-- Taking entries away with their rows. -/
theorem Paired.reslice (h : Paired P entries rows) {keep : α → Bool}
    (hkeep : ∀ entry, keep entry = true → P entry) :
    Paired (fun _ => True) (entries.filter keep) (Omni.reslice keep entries rows) := by
  induction entries generalizing rows with
  | nil => exact paired_nil _ _
  | cons first entries ih =>
    obtain ⟨hhead, htail⟩ := paired_cons.mp h
    have hrest := ih htail
    cases rows with
    | nil =>
      intro i entry hentry
      have hkept := (mem_filter.mp (mem_of_getElem? hentry)).2
      obtain ⟨j, hj⟩ := mem_iff_getElem?.mp (mem_filter.mp (mem_of_getElem? hentry)).1
      have hrow := h j entry hj (hkeep entry hkept)
      simp at hrow
    | cons row rows =>
      rw [reslice_cons, filter_cons]
      split
      next hfirst =>
        obtain rfl := Option.some.inj (hhead (hkeep first hfirst))
        exact paired_cons.mpr ⟨fun _ => rfl, hrest⟩
      · exact hrest

end Paired

/-- Every piece has the property at the place where it starts, when the pieces are laid out
one after the other. -/
def Placed (len : α → ℕ) (P : ℕ → α → Prop) : ℕ → List α → Prop
  | _, [] => True
  | start, piece :: pieces => P start piece ∧ Placed len P (start + len piece) pieces

section Placed

variable {len : α → ℕ} {P Q : ℕ → α → Prop}

/-- The last piece starts behind all others. -/
theorem placed_snoc {start : ℕ} {pieces : List α} {piece : α} :
    Placed len P start (pieces ++ [piece]) ↔
      Placed len P start pieces ∧ P (start + (pieces.map len).sum) piece := by
  induction pieces generalizing start with
  | nil => simp [Placed]
  | cons first pieces ih =>
    rw [cons_append, Placed, Placed, ih, map_cons, sum_cons, Nat.add_assoc, and_assoc]

/-- A property of pieces that follows from another one within the space that they take. -/
theorem Placed.imp {start bound : ℕ} {pieces : List α} (h : Placed len P start pieces)
    (hbound : start + (pieces.map len).sum ≤ bound)
    (himp : ∀ start piece, piece ∈ pieces → start + len piece ≤ bound → P start piece →
      Q start piece) : Placed len Q start pieces := by
  induction pieces generalizing start with
  | nil => trivial
  | cons first pieces ih =>
    rw [map_cons, sum_cons] at hbound
    refine ⟨himp start first mem_cons_self (by omega) h.1, ih h.2 (by omega) ?_⟩
    exact fun start piece hpiece => himp start piece (mem_cons_of_mem first hpiece)

end Placed

end Omni
