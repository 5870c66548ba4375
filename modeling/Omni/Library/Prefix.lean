import Mathlib.Data.List.Infix

/-!
# The shortest prefix that satisfies a predicate

A consumer that stops as soon as what it has seen satisfies a predicate has seen
the shortest such prefix of its input. For a predicate that stays true when the
list grows, more input after that point makes no difference.
-/

namespace Omni

open List

variable {α : Type*}

/-- The shortest prefix of `l` that satisfies `p`, and all of `l` if none does. -/
def shortestPrefix (p : List α → Bool) (l : List α) : List α :=
  (l.inits.find? p).getD l

/-- The predicate stays true when the list grows. -/
def Lasting (p : List α → Bool) : Prop := ∀ l l', p l = true → p (l ++ l') = true

variable {p : List α → Bool} {l : List α}

/-- Without a satisfying prefix the whole list is taken. -/
theorem shortestPrefix_of_not (hp : Lasting p) (hnot : p l = false) :
    shortestPrefix p l = l := by
  have hnone : l.inits.find? p = none := by
    rw [find?_eq_none]
    intro l' hmem hl'
    obtain ⟨rest, rfl⟩ := (mem_inits _ _).mp hmem
    simp [hp l' rest hl'] at hnot
  simp [shortestPrefix, hnone]

/-- Input after the predicate has become true makes no difference. -/
theorem shortestPrefix_append (hl : p l = true) (rest : List α) :
    shortestPrefix p (l ++ rest) = shortestPrefix p l := by
  have hsome : (l.inits.find? p).isSome := by
    rw [find?_isSome]
    exact ⟨l, (mem_inits _ _).mpr prefix_rfl, hl⟩
  obtain ⟨first, hfirst⟩ := Option.isSome_iff_exists.mp hsome
  simp [shortestPrefix, inits_append, find?_append, hfirst]

/-- The element that makes the predicate true is the last one taken. -/
theorem shortestPrefix_concat (hp : Lasting p) (hnot : p l = false) (a : α) :
    shortestPrefix p (l ++ [a]) = l ++ [a] := by
  have hnone : l.inits.find? p = none := by
    rw [find?_eq_none]
    intro l' hmem hl'
    obtain ⟨rest, rfl⟩ := (mem_inits _ _).mp hmem
    simp [hp l' rest hl'] at hnot
  cases ha : p (l ++ [a]) <;> simp [shortestPrefix, inits_append, hnone, ha]

/-- What is taken is a prefix. -/
theorem shortestPrefix_isPrefix (p : List α → Bool) (l : List α) : shortestPrefix p l <+: l := by
  unfold shortestPrefix
  cases hfirst : l.inits.find? p with
  | none => simp
  | some first => exact (mem_inits _ _).mp (mem_of_find?_eq_some hfirst)

/-- What is taken satisfies the predicate if the whole list does. -/
theorem shortestPrefix_spec (hl : p l = true) : p (shortestPrefix p l) = true := by
  unfold shortestPrefix
  cases hfirst : l.inits.find? p with
  | none => simpa using hl
  | some first => exact find?_some hfirst

/-- Taking the shortest prefix twice changes nothing. -/
theorem shortestPrefix_idem (hp : Lasting p) (l : List α) :
    shortestPrefix p (shortestPrefix p l) = shortestPrefix p l := by
  cases hl : p l with
  | false => rw [shortestPrefix_of_not hp hl, shortestPrefix_of_not hp hl]
  | true =>
    obtain ⟨rest, hrest⟩ := shortestPrefix_isPrefix p l
    have happend := shortestPrefix_append (shortestPrefix_spec hl) rest
    rw [hrest] at happend
    exact happend.symm

/-- A list that does not satisfy the predicate and begins the same input as a
shortest satisfying prefix is a prefix of it. -/
theorem prefix_shortestPrefix (hp : Lasting p) {taken rest extra : List α}
    (hsplit : taken ++ rest = shortestPrefix p l ++ extra) (hl : p l = true)
    (htaken : p taken = false) :
    ∃ a more, shortestPrefix p l = taken ++ a :: more := by
  have hspec := shortestPrefix_spec hl
  rcases append_eq_append_iff.mp hsplit with ⟨more, hmore, _⟩ | ⟨more, hmore, _⟩
  · cases more with
    | nil => rw [hmore, append_nil, htaken] at hspec; cases hspec
    | cons a more => exact ⟨a, more, hmore⟩
  · rw [hmore, hp _ more hspec] at htaken
    cases htaken

end Omni
