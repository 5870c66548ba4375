import Mathlib.Data.List.Basic
import Mathlib.Tactic.Common
import Omni.Library.Rows

/-!
# Assignment through boolean masks

Rows are written to the positions of a table at which a mask is set, the first row to the
first of them and so on. A mask often comes from comparing a list with one of its values.
-/

namespace Omni

open List

variable {α β : Type*} {i : ℕ} {mask' : List Bool} {rows' : List α}

/-- The table with rows at the positions `start + i` for which `mask[i]` is set. -/
def scatter (t : ℕ → α) (start : ℕ) (mask : List Bool) (rows : List α) : ℕ → α := fun p =>
  if start ≤ p ∧ mask[p - start]? = some true then
    rows.getD ((mask.take (p - start)).count true) (t p)
  else t p

/-- `t[mask] = rows`: one row for each position, or one row for all of them. -/
def assignRows (t : ℕ → α) (start : ℕ) (mask : List Bool) (rows : List α) : Option (ℕ → α) :=
  if rows.length = mask.count true then some (scatter t start mask rows)
  else match rows with
    | [row] => some (scatter t start mask (List.replicate (mask.count true) row))
    | _ => none

/-- One row for each position is accepted. -/
theorem assignRows_eq {t : ℕ → α} {start : ℕ} {mask : List Bool} {rows : List α}
    (hlength : rows.length = mask.count true) :
    assignRows t start mask rows = some (scatter t start mask rows) := by
  exact if_pos hlength

section Scatter

variable {t : ℕ → α} {start : ℕ} {mask : List Bool} {rows : List α}

theorem scatter_outside {p : ℕ} (hp : p < start ∨ start + mask.length ≤ p) :
    scatter t start mask rows p = t p := by
  refine if_neg fun ⟨hle, hset⟩ => ?_
  obtain ⟨hlt, _⟩ := List.getElem?_eq_some_iff.mp hset
  omega

/-- Positions at which the mask is not set keep their row. -/
theorem scatter_unset (hmask : mask[i]? ≠ some true) :
    scatter t start mask rows (start + i) = t (start + i) := by
  refine if_neg fun ⟨_, hset⟩ => hmask ?_
  rwa [Nat.add_sub_cancel_left] at hset

/-- A position at which the mask is set gets the row with the number of such positions
before it. -/
theorem scatter_set {row : α} (hmask : mask[i]? = some true)
    (hrow : rows[(mask.take i).count true]? = some row) :
    scatter t start mask rows (start + i) = row := by
  unfold scatter
  rw [Nat.add_sub_cancel_left, if_pos ⟨Nat.le_add_right start i, hmask⟩, List.getD, hrow,
    Option.getD_some]

/-- Before a position at which the mask is set there are fewer such positions than in the
whole mask. -/
theorem count_take_lt (hmask : mask[i]? = some true) :
    (mask.take i).count true < mask.count true := by
  obtain ⟨hlt, hget⟩ := List.getElem?_eq_some_iff.mp hmask
  have hsplit : mask.take i ++ true :: mask.drop (i + 1) = mask := by
    rw [← hget, getElem_cons_drop, take_append_drop]
  have hcount := congrArg (List.count true) hsplit
  rw [count_append, count_cons_self] at hcount
  omega

/-- Two tables one after the other, and their masks: the first part is the first table. -/
theorem scatter_append_left (hi : i < mask.length) (hlength : rows.length = mask.count true) :
    scatter t 0 (mask ++ mask') (rows ++ rows') i = scatter t 0 mask rows i := by
  unfold scatter
  rw [Nat.sub_zero, getElem?_append_left hi, take_append_of_le_length (Nat.le_of_lt hi)]
  by_cases hset : mask[i]? = some true
  · have hlt := count_take_lt hset
    rw [if_pos ⟨Nat.zero_le i, hset⟩, if_pos ⟨Nat.zero_le i, hset⟩, List.getD, List.getD,
      getElem?_append_left (by omega)]
  · rw [if_neg (fun h => hset h.2), if_neg (fun h => hset h.2)]

/-- Two tables one after the other, and their masks: the second part is the second table. -/
theorem scatter_append_right (hlength : rows.length = mask.count true) :
    scatter t 0 (mask ++ mask') (rows ++ rows') (mask.length + i) =
      scatter t mask.length mask' rows' (mask.length + i) := by
  unfold scatter
  rw [Nat.sub_zero, Nat.add_sub_cancel_left, getElem?_append_right (Nat.le_add_right _ _),
    Nat.add_sub_cancel_left, take_length_add_append, count_append, ← hlength]
  by_cases hset : mask'[i]? = some true
  · rw [if_pos ⟨Nat.zero_le _, hset⟩, if_pos ⟨Nat.le_add_right _ _, hset⟩, List.getD, List.getD,
      getElem?_append_right (Nat.le_add_right _ _), Nat.add_sub_cancel_left]
  · rw [if_neg (fun h => hset h.2), if_neg (fun h => hset h.2)]

end Scatter

section Matches

variable [DecidableEq β] {ids : List β} {id : β}

/-- `ids == id`. -/
def matchMask (ids : List β) (id : β) : List Bool := ids.map (· == id)

@[simp] theorem matchMask_length : (matchMask ids id).length = ids.length :=
  length_map _

theorem matchMask_getElem? : (matchMask ids id)[i]? = some true ↔ ids[i]? = some id := by
  rw [matchMask, getElem?_map, Option.map_eq_some_iff]
  constructor
  · rintro ⟨value, hvalue, heq⟩
    rw [hvalue, beq_iff_eq.mp heq]
  · intro hid
    exact ⟨id, hid, beq_self_eq_true id⟩

/-- The mask is set as often as the value occurs. -/
theorem matchMask_count : (matchMask ids id).count true = ids.count id := by
  rw [matchMask, List.count, countP_map, List.count]
  refine countP_congr fun value _ => ?_
  simp

/-- The mask is set somewhere exactly if the value occurs. -/
theorem mem_matchMask : true ∈ matchMask ids id ↔ id ∈ ids := by
  rw [← count_pos_iff, matchMask_count, count_pos_iff]

theorem matchMask_take : (matchMask ids id).take i = matchMask (ids.take i) id :=
  map_take.symm

end Matches

section Zip

/-- The rows are combined with the values at the positions of the mask, the first row with the
first of them and so on, until there are no rows left. -/
@[simp] def zipMasked (f : α → β → α) : List α → List Bool → List β → List α
  | x :: xs, true :: mask, row :: rows => f x row :: zipMasked f xs mask rows
  | x :: xs, false :: mask, rows => x :: zipMasked f xs mask rows
  | xs, _, _ => xs

variable (f : α → β → α)

@[simp] theorem zipMasked_nil_rows : ∀ (xs : List α) (mask : List Bool), zipMasked f xs mask [] = xs
  | [], _ => by simp [zipMasked]
  | x :: xs, [] => by simp [zipMasked]
  | x :: xs, true :: mask => by simp [zipMasked]
  | x :: xs, false :: mask => by simp [zipMasked, zipMasked_nil_rows xs mask]

theorem length_zipMasked : ∀ (xs : List α) (mask : List Bool) (rows : List β),
    (zipMasked f xs mask rows).length = xs.length
  | [], _, _ => by simp [zipMasked]
  | x :: xs, [], rows => by simp [zipMasked]
  | x :: xs, true :: mask, [] => by simp [zipMasked]
  | x :: xs, true :: mask, row :: rows => by simp [zipMasked, length_zipMasked xs mask rows]
  | x :: xs, false :: mask, rows => by simp [zipMasked, length_zipMasked xs mask rows]

/-- Without a position in the mask, nothing changes. -/
theorem zipMasked_of_not_any : ∀ (xs : List α) (mask : List Bool) (rows : List β),
    mask.any id = false → zipMasked f xs mask rows = xs
  | [], _, _, _ => by simp [zipMasked]
  | x :: xs, [], rows, _ => by simp [zipMasked]
  | x :: xs, true :: mask, rows, h => by simp at h
  | x :: xs, false :: mask, rows, h => by
    rw [zipMasked, zipMasked_of_not_any xs mask rows (by simpa using h)]

/-- The rest of the values gets the rows that are left. -/
theorem drop_zipMasked : ∀ (n : ℕ) (xs : List α) (mask : List Bool) (rows : List β),
    (zipMasked f xs mask rows).drop n =
      zipMasked f (xs.drop n) (mask.drop n) (rows.drop ((mask.take n).count true))
  | 0, xs, mask, rows => by simp
  | n + 1, [], mask, rows => by simp [zipMasked]
  | n + 1, x :: xs, [], rows => by cases hxs : xs.drop n <;> simp [zipMasked, hxs]
  | n + 1, x :: xs, true :: mask, [] => by simp [zipMasked]
  | n + 1, x :: xs, true :: mask, row :: rows => by
    simp [zipMasked, drop_zipMasked n xs mask rows]
  | n + 1, x :: xs, false :: mask, rows => by simp [zipMasked, drop_zipMasked n xs mask rows]

/-- The first part of the values needs the first rows only. -/
theorem take_zipMasked : ∀ (n : ℕ) (xs : List α) (mask : List Bool) (rows : List β),
    (zipMasked f xs mask rows).take n =
      zipMasked f (xs.take n) (mask.take n) (rows.take ((mask.take n).count true))
  | 0, xs, mask, rows => by simp
  | n + 1, [], mask, rows => by simp [zipMasked]
  | n + 1, x :: xs, [], rows => by simp [zipMasked]
  | n + 1, x :: xs, true :: mask, [] => by simp [zipMasked]
  | n + 1, x :: xs, true :: mask, row :: rows => by
    simp [zipMasked, take_zipMasked n xs mask rows]
  | n + 1, x :: xs, false :: mask, rows => by simp [zipMasked, take_zipMasked n xs mask rows]

/-- Rows that no position is left for do not matter. -/
theorem zipMasked_take_rows : ∀ (xs : List α) (mask : List Bool) (rows : List β) (k : ℕ),
    mask.count true ≤ k → zipMasked f xs mask (rows.take k) = zipMasked f xs mask rows
  | [], _, _, _, _ => by simp [zipMasked]
  | x :: xs, [], _, _, _ => by simp [zipMasked]
  | x :: xs, true :: mask, rows, 0, h => by simp at h
  | x :: xs, true :: mask, [], k + 1, _ => by simp
  | x :: xs, true :: mask, row :: rows, k + 1, h => by
    simp only [count_cons_self, Nat.add_le_add_iff_right] at h
    simp [zipMasked, zipMasked_take_rows xs mask rows k h]
  | x :: xs, false :: mask, rows, k, h => by
    rw [count_cons_of_ne (by simp : (false : Bool) ≠ true)] at h
    simp [zipMasked, zipMasked_take_rows xs mask rows k h]

/-- The value at a position. -/
theorem getElem?_zipMasked : ∀ (xs : List α) (mask : List Bool) (rows : List β) (i : ℕ),
    (zipMasked f xs mask rows)[i]? =
      if mask[i]? = some true then
        xs[i]?.map fun x => (rows[(mask.take i).count true]?).elim x (f x)
      else xs[i]?
  | [], mask, rows, i => by simp [zipMasked]
  | x :: xs, [], rows, i => by simp [zipMasked]
  | x :: xs, true :: mask, [], i => by simp
  | x :: xs, true :: mask, row :: rows, 0 => by simp [zipMasked]
  | x :: xs, true :: mask, row :: rows, i + 1 => by
    simp [zipMasked, getElem?_zipMasked xs mask rows i]
  | x :: xs, false :: mask, rows, 0 => by simp [zipMasked]
  | x :: xs, false :: mask, rows, i + 1 => by
    simp [zipMasked, getElem?_zipMasked xs mask rows i]

end Zip

section Compress

variable {sel mask : List Bool}

/-- What a mask selects of another one contains all of it that lies in the selection. -/
theorem count_reslice (hsub : ∀ i : ℕ, mask[i]? = some true → sel[i]? = some true) :
    (reslice id sel mask).count true = mask.count true := by
  induction sel generalizing mask with
  | nil =>
    have hnone : mask.count true = 0 := by
      rw [count_eq_zero]
      intro htrue
      obtain ⟨i, hi⟩ := mem_iff_getElem?.mp htrue
      simpa using hsub i hi
    rw [hnone]
    rfl
  | cons b sel ih =>
    cases mask with
    | nil => simp [reslice]
    | cons c mask =>
      have htail : ∀ i : ℕ, mask[i]? = some true → sel[i]? = some true := fun i hi => hsub (i + 1)
        hi
      rw [reslice_cons, count_cons]
      cases b with
      | true =>
        simp only [id_eq, if_true]
        rw [count_cons, ih htail]
      | false =>
        have hc : c = false := by
          cases c with
          | false => rfl
          | true => simpa using hsub 0 rfl
        simp [hc, ih htail]

/-- Up to a position, a selection selects from what comes before the position. -/
theorem reslice_take (i : ℕ) :
    (reslice id sel mask).take ((reslice id (sel.take i) (mask.take i)).length) =
      reslice id (sel.take i) (mask.take i) := by
  induction sel generalizing mask i with
  | nil => simp [reslice]
  | cons b sel ih =>
    cases mask with
    | nil => simp [reslice]
    | cons c mask =>
      cases i with
      | zero => simp [reslice]
      | succ i =>
        rw [take_succ_cons, take_succ_cons, reslice_cons, reslice_cons]
        cases b with
        | true =>
          simp only [id_eq, if_true]
          rw [length_cons, take_succ_cons, ih i]
        | false => simpa using ih i

/-- A selection has as many entries as its mask is set. -/
theorem length_reslice (hlength : sel.length = mask.length) :
    (reslice id sel mask).length = sel.count true := by
  induction sel generalizing mask with
  | nil => simp [reslice]
  | cons b sel ih =>
    cases mask with
    | nil => simp at hlength
    | cons c mask =>
      have htail := ih (Nat.succ.inj hlength)
      rw [reslice_cons, count_cons]
      cases b with
      | true => simp [htail]
      | false => simpa using htail

/-- The entry of a selection that comes from a selected position. -/
theorem reslice_getElem? (hlength : sel.length = mask.length) (hsel : sel[i]? = some true) :
    (reslice id sel mask)[(sel.take i).count true]? = mask[i]? := by
  induction sel generalizing mask i with
  | nil => simp at hsel
  | cons b sel ih =>
    cases mask with
    | nil => simp at hlength
    | cons c mask =>
      rw [reslice_cons]
      cases i with
      | zero =>
        simp only [getElem?_cons_zero, Option.some.injEq] at hsel
        simp [hsel]
      | succ i =>
        have htail := ih (Nat.succ.inj hlength) hsel
        cases b with
        | true => simpa using htail
        | false => simpa using htail

end Compress

end Omni
