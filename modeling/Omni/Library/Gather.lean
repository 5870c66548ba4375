import Mathlib.Data.List.FinRange
import Mathlib.Tactic.Common

/-!
# Rows of a table

A batch takes some rows out of a table and puts new values back, no row twice. Masked updates
choose between two values entry by entry.
-/

namespace Omni

variable {ι α : Type*} {n : ℕ} {P : α → Prop} {i : ι}

/-- `where(mask, x, y)`. -/
def maskedWhere (mask : ι → Bool) (x y : ι → α) : ι → α := fun i => if mask i then x i else y i

@[simp] theorem maskedWhere_apply (mask : ι → Bool) (x y : ι → α) (i : ι) :
    maskedWhere mask x y i = if mask i then x i else y i := rfl

/-- An entry of a masked update is one of the two values. -/
theorem maskedWhere_cases {mask : ι → Bool} {x y : ι → α} (hx : mask i = true → P (x i))
    (hy : mask i = false → P (y i)) :
    P (maskedWhere mask x y i) := by
  unfold maskedWhere
  cases h : mask i with
  | true => exact hx h
  | false => exact hy h

section Rows

variable [DecidableEq ι] {rows : Fin n → ι}

/-- The place of a row of the table in the batch. -/
def placeOf (rows : Fin n → ι) (i : ι) : Option (Fin n) :=
  (List.finRange n).find? fun b => rows b = i

/-- `table[rows] = values`. -/
def putRows (table : ι → α) (rows : Fin n → ι) (values : Fin n → α) : ι → α := fun i =>
  (placeOf rows i).elim (table i) values

/-- A row of the table has no place in the batch exactly if the batch has not taken it. -/
theorem placeOf_eq_none_iff : placeOf rows i = none ↔ ∀ b, rows b ≠ i := by
  unfold placeOf
  simp

theorem rows_of_placeOf {b : Fin n} (h : placeOf rows i = some b) : rows b = i := by
  have hfound := List.find?_some h
  exact of_decide_eq_true hfound

/-- The other rows stay. -/
theorem putRows_of_ne (hi : ∀ b, rows b ≠ i) (table : ι → α) (values : Fin n → α) :
    putRows table rows values i = table i := by
  unfold putRows
  rw [placeOf_eq_none_iff.mpr hi, Option.elim_none]

/-- What holds of all rows and of all new values holds of the rows afterwards. -/
theorem putRows_forall {table : ι → α} {values : Fin n → α} (htable : ∀ i, P (table i))
    (hvalues : ∀ b, P (values b)) (i : ι) :
    P (putRows table rows values i) := by
  unfold putRows
  cases placeOf rows i with
  | none => exact htable i
  | some b => exact hvalues b

end Rows

end Omni
