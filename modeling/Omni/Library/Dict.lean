import Mathlib.Data.List.Basic

/-!
# Dictionaries

A dictionary of Python: entries in the order in which their keys came. A new value for a key keeps
the place of the key. Nothing here refers to a particular system.
-/

namespace Omni

variable {κ α : Type} [DecidableEq κ]

/-- The entries of a dictionary. -/
abbrev Dict (κ α : Type) := List (κ × α)

namespace Dict

/-- `d.get(key)`. -/
def get (key : κ) : Dict κ α → Option α
  | [] => none
  | (k, value) :: rest => if k = key then some value else get key rest

/-- `d[key] = value`. -/
def set (key : κ) (value : α) : Dict κ α → Dict κ α
  | [] => [(key, value)]
  | (k, old) :: rest => if k = key then (k, value) :: rest else (k, old) :: set key value rest

/-- `d.pop(key, None)`. -/
def pop (key : κ) (d : Dict κ α) : Dict κ α := d.filter fun entry => entry.1 ≠ key

attribute [local simp] get set

theorem get_set_self (key : κ) (value : α) (d : Dict κ α) :
    get key (set key value d) = some value := by
  induction d with
  | nil => exact if_pos rfl
  | cons entry rest ih =>
    rw [set]
    split
    next hkey =>
      exact if_pos hkey
    next hkey =>
      exact (if_neg hkey).trans ih

theorem get_set_ne {key other : κ} (hne : other ≠ key) (value : α) (d : Dict κ α) :
    get other (set key value d) = get other d := by
  induction d with
  | nil => exact if_neg hne.symm
  | cons entry rest ih =>
    rw [set]
    split
    next hkey =>
      rw [get, get, hkey, if_neg hne.symm, if_neg hne.symm]
    · rw [get, get, ih]

/-- The second of two values for a key replaces the first. -/
theorem set_set (key : κ) (value value' : α) (d : Dict κ α) :
    set key value' (set key value d) = set key value' d := by
  induction d with
  | nil => exact if_pos rfl
  | cons entry rest ih =>
    by_cases hkey : entry.1 = key
    · rw [set, if_pos hkey, set, set, if_pos hkey, if_pos hkey]
    · rw [set, if_neg hkey, set, set, if_neg hkey, if_neg hkey, ih]

theorem get_pop_self (key : κ) (d : Dict κ α) : get key (pop key d) = none := by
  induction d with
  | nil => rfl
  | cons entry rest ih =>
    by_cases hkey : entry.1 = key
    · rw [pop, List.filter_cons_of_neg (by simpa using hkey)]
      exact ih
    · rw [pop, List.filter_cons_of_pos (by simpa using hkey), get, if_neg hkey]
      exact ih

theorem get_pop_ne {key other : κ} (hne : other ≠ key) (d : Dict κ α) :
    get other (pop key d) = get other d := by
  induction d with
  | nil => rfl
  | cons entry rest ih =>
    by_cases hkey : entry.1 = key
    · rw [pop, List.filter_cons_of_neg (by simpa using hkey), get, hkey, if_neg hne.symm]
      exact ih
    · rw [pop, List.filter_cons_of_pos (by simpa using hkey), get, get]
      rw [show get other (rest.filter fun entry => entry.1 ≠ key) = get other rest from ih]

/-- A key whose entries all stay keeps its value. -/
theorem get_filter {key : κ} {p : κ × α → Bool} {d : Dict κ α}
    (hstay : ∀ entry ∈ d, entry.1 = key → p entry = true) :
    get key (d.filter p) = get key d := by
  induction d with
  | nil => rfl
  | cons entry rest ih =>
    obtain ⟨hentry, hrest⟩ := List.forall_mem_cons.1 hstay
    by_cases hkey : entry.1 = key
    · rw [List.filter_cons_of_pos (hentry hkey), get, if_pos hkey, get, if_pos hkey]
    · rw [get, if_neg hkey, ← ih hrest]
      cases hp : p entry with
      | true => rw [List.filter_cons_of_pos hp, get, if_neg hkey]
      | false => rw [List.filter_cons_of_neg (by simp [hp])]

/-- An absent key is absent from a part of the entries. -/
theorem get_eq_none_of_subset {key : κ} {d d' : Dict κ α} (hsub : d' ⊆ d)
    (hget : get key d = none) : get key d' = none := by
  have hnot (d : Dict κ α) : get key d = none ↔ ∀ entry ∈ d, entry.1 ≠ key := by
    induction d with
    | nil => simp
    | cons entry rest ih =>
      rw [get, List.forall_mem_cons, ← ih]
      split <;> simp_all
  rw [hnot] at hget ⊢
  exact fun entry hentry => hget entry (hsub hentry)

end Dict

end Omni
