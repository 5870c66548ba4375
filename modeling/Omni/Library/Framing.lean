import Mathlib.Data.List.Basic
import Mathlib.Data.Set.Basic

/-!
# Fields put together to one text

When texts that are joined with a separator can be taken apart again, although the separator may
occur in them. Nothing here refers to a particular system.
-/

namespace Omni.Framing

open List

variable {α ι : Type} {c sep : α} {a b x y : List α} {text : ι → List α} {parts : Set ι}
  {l m : List ι}

/-- A field without the mark that ends it can be taken off. -/
theorem append_cons_inj (ha : c ∉ a) (hb : c ∉ b) (h : a ++ c :: x = b ++ c :: y) :
    a = b ∧ x = y := by
  induction a generalizing b with
  | nil =>
    cases b with
    | nil => exact ⟨rfl, (List.cons.inj h).2⟩
    | cons d b => exact absurd (mem_cons.2 (.inl (List.cons.inj h).1)) hb
  | cons d a ih =>
    cases b with
    | nil => exact absurd (mem_cons.2 (.inl (List.cons.inj h).1.symm)) ha
    | cons e b =>
      obtain ⟨hhead, htail⟩ := List.cons.inj h
      obtain ⟨hrest, hxy⟩ := ih (fun hc => ha (mem_cons_of_mem _ hc))
        (fun hc => hb (mem_cons_of_mem _ hc)) htail
      exact ⟨by rw [hhead, hrest], hxy⟩

/-- A field of symbols with a property, before a text that does not start with such a symbol, can
be taken off. -/
theorem append_inj_of_all {p : α → Prop} (ha : ∀ c ∈ a, p c) (hb : ∀ c ∈ b, p c)
    (hx : ∀ c ∈ x.head?, ¬ p c) (hy : ∀ c ∈ y.head?, ¬ p c) (h : a ++ x = b ++ y) :
    a = b ∧ x = y := by
  induction a generalizing b with
  | nil =>
    cases b with
    | nil => exact ⟨rfl, h⟩
    | cons d b =>
      refine absurd (hb d (mem_cons_self ..)) (hx d ?_)
      rw [nil_append] at h
      rw [h]
      rfl
  | cons d a ih =>
    cases b with
    | nil =>
      refine absurd (ha d (mem_cons_self ..)) (hy d ?_)
      rw [nil_append] at h
      rw [← h]
      rfl
    | cons e b =>
      obtain ⟨hhead, htail⟩ := List.cons.inj h
      obtain ⟨hrest, hxy⟩ := ih (fun c hc => ha c (mem_cons_of_mem _ hc))
        (fun c hc => hb c (mem_cons_of_mem _ hc)) htail
      exact ⟨by rw [hhead, hrest], hxy⟩

/-- A field that is followed by a mark, and of which with its mark none is the start of another,
can be taken off. -/
theorem append_cons_inj_of_not_prefix (ha : ¬ (a ++ [c]) <+: b) (hb : ¬ (b ++ [c]) <+: a)
    (h : a ++ c :: x = b ++ c :: y) : a = b ∧ x = y := by
  rcases append_eq_append_iff.1 h with ⟨m, hm, hrest⟩ | ⟨m, hm, hrest⟩
  · cases m with
    | nil =>
      rw [append_nil] at hm
      exact ⟨hm.symm, (List.cons.inj hrest).2⟩
    | cons d m =>
      obtain ⟨rfl, -⟩ := List.cons.inj hrest
      exact absurd ⟨m, by rw [hm, append_assoc]; rfl⟩ ha
  · cases m with
    | nil =>
      rw [append_nil] at hm
      exact ⟨hm, (List.cons.inj hrest).2.symm⟩
    | cons d m =>
      obtain ⟨rfl, -⟩ := List.cons.inj hrest
      exact absurd ⟨m, by rw [hm, append_assoc]; rfl⟩ hb

/-- The rest of a joined text after one of its parts. -/
def Continues (sep : α) (rest : List α) : Prop := ∀ c ∈ rest.head?, c = sep

/-- Parts that end where the next separator can start, whatever follows. -/
def SelfDelimiting (sep : α) (text : ι → List α) (parts : Set ι) : Prop :=
  ∀ i ∈ parts, ∀ j ∈ parts, ∀ x y, Continues sep x → Continues sep y →
    text i ++ x = text j ++ y → i = j ∧ x = y

/-- `sep.join(parts)` after a first part. -/
def joinTail (sep : α) (text : ι → List α) : List ι → List α
  | [] => []
  | i :: rest => sep :: (text i ++ joinTail sep text rest)

/-- `sep.join(parts)` for a separator of one symbol. -/
def join (sep : α) (text : ι → List α) (parts : List ι) : List α :=
  [sep].intercalate (parts.map text)

theorem join_cons (sep : α) (text : ι → List α) (i : ι) (rest : List ι) :
    join sep text (i :: rest) = text i ++ joinTail sep text rest := by
  induction rest generalizing i with
  | nil => simp [join, joinTail]
  | cons j rest ih =>
    have hrest := ih j
    rw [join, map_cons] at hrest
    rw [join, map_cons, map_cons, intercalate_cons_cons, hrest, joinTail,
      append_assoc, singleton_append]

theorem continues_joinTail (sep : α) (text : ι → List α) (parts : List ι) :
    Continues sep (joinTail sep text parts) := by
  intro c hc
  cases parts with
  | nil => cases hc
  | cons i rest => exact (Option.some.inj hc).symm

/-- The parts after the first one can be taken apart. -/
theorem SelfDelimiting.joinTail_inj (hparts : SelfDelimiting sep text parts)
    (hl : ∀ i ∈ l, i ∈ parts) (hm : ∀ i ∈ m, i ∈ parts)
    (h : joinTail sep text l = joinTail sep text m) : l = m := by
  induction l generalizing m with
  | nil =>
    cases m with
    | nil => rfl
    | cons j m => cases h
  | cons i l ih =>
    cases m with
    | nil => cases h
    | cons j m =>
      obtain ⟨hij, hrest⟩ := hparts i (hl i (mem_cons_self ..)) j
        (hm j (mem_cons_self ..)) _ _ (continues_joinTail sep text l)
        (continues_joinTail sep text m) (List.cons.inj h).2
      rw [hij, ih (fun k hk => hl k (mem_cons_of_mem _ hk))
        (fun k hk => hm k (mem_cons_of_mem _ hk)) hrest]

/-- Joined parts can be taken apart. -/
theorem SelfDelimiting.join_inj (hparts : SelfDelimiting sep text parts) {i j : ι}
    (hl : ∀ k ∈ i :: l, k ∈ parts) (hm : ∀ k ∈ j :: m, k ∈ parts)
    (h : join sep text (i :: l) = join sep text (j :: m)) : i :: l = j :: m := by
  rw [join_cons, join_cons] at h
  obtain ⟨hij, hrest⟩ := hparts i (hl i (mem_cons_self ..)) j (hm j (mem_cons_self ..))
    _ _ (continues_joinTail sep text l) (continues_joinTail sep text m) h
  rw [hij, hparts.joinTail_inj (fun k hk => hl k (mem_cons_of_mem _ hk))
    (fun k hk => hm k (mem_cons_of_mem _ hk)) hrest]

/-- The decimal digits of a number determine it. -/
theorem toDigits_injective : Function.Injective (Nat.toDigits 10) := by
  intro n m h
  rw [← Nat.ofDigitChars_ten_toDigits (n := n), h, Nat.ofDigitChars_ten_toDigits]

/-- A number before a character that is not a digit can be taken off. -/
theorem toDigits_append_inj {n m : ℕ} {x y : List Char}
    (hx : ∀ c ∈ x.head?, c.isDigit = false) (hy : ∀ c ∈ y.head?, c.isDigit = false)
    (h : Nat.toDigits 10 n ++ x = Nat.toDigits 10 m ++ y) : n = m ∧ x = y := by
  have hdigit (k : ℕ) : ∀ c ∈ Nat.toDigits 10 k, c.isDigit = true := fun c hc =>
    Nat.isDigit_of_mem_toDigits (by decide) (by decide) hc
  obtain ⟨hdigits, hrest⟩ := append_inj_of_all (p := fun c : Char => c.isDigit = true)
    (hdigit n) (hdigit m) (fun c hc => by rw [hx c hc]; decide)
    (fun c hc => by rw [hy c hc]; decide) h
  exact ⟨toDigits_injective hdigits, hrest⟩

end Omni.Framing
