import Omni.Library.Framing

/-!
# Words between spaces

`str.split()` and `" ".join(...)`. A text is looked at as its symbols that are no space, each with a
mark whether a word starts with it: this view is compatible with appending, which the list of words
is not. Nothing here refers to a particular system.
-/

namespace Omni.Words

open List

variable {α : Type} (space : α → Bool) {c blank : α} {word : List α} {words : List (List α)}

/-- A symbol before the first word. -/
def extend (c : α) : List (List α) → List (List α)
  | [] => [[c]]
  | word :: words => (c :: word) :: words

/-- The text starts with a word. -/
def startsWord : List α → Bool
  | [] => false
  | c :: _ => !space c

/-- `text.split()`. -/
def split : List α → List (List α)
  | [] => []
  | c :: rest =>
    if space c then split rest
    else if startsWord space rest then extend c (split rest)
    else [c] :: split rest

/-- The symbols that are no space. The first one starts a word if `fresh`. -/
def marks : Bool → List α → List (α × Bool)
  | _, [] => []
  | fresh, c :: rest => if space c then marks true rest else (c, fresh) :: marks false rest

/-- Whether a symbol after the text starts a word. -/
def freshAfter : Bool → List α → Bool
  | fresh, [] => fresh
  | _, c :: rest => freshAfter (space c) rest

/-- The marks of one word. -/
def wordMarks : List α → List (α × Bool)
  | [] => []
  | c :: rest => (c, true) :: rest.map fun d => (d, false)

/-- A word: it is not empty and has no space. -/
def IsWord (word : List α) : Prop := word ≠ [] ∧ ∀ c ∈ word, space c = false

variable {space}

theorem marks_append (fresh : Bool) (x y : List α) :
    marks space fresh (x ++ y) =
      marks space fresh x ++ marks space (freshAfter space fresh x) y := by
  induction x generalizing fresh with
  | nil => rfl
  | cons c x ih =>
    rw [cons_append, marks, marks, freshAfter]
    cases hc : space c with
    | true => simpa using ih true
    | false => simpa using ih false

theorem freshAfter_append (fresh : Bool) (x y : List α) :
    freshAfter space fresh (x ++ y) = freshAfter space (freshAfter space fresh x) y := by
  induction x generalizing fresh with
  | nil => rfl
  | cons c x ih => exact ih (space c)

/-- As many symbols, whether the first one starts a word or not. -/
theorem length_marks (fresh fresh' : Bool) (x : List α) :
    (marks space fresh x).length = (marks space fresh' x).length := by
  cases x with
  | nil => rfl
  | cons c x =>
    rw [marks, marks]
    cases space c <;> rfl

/-- Whether the first symbol starts a word shows, unless it is a space or missing. -/
theorem marks_eq_iff (fresh fresh' : Bool) (x : List α) :
    marks space fresh x = marks space fresh' x ↔
      fresh = fresh' ∨ ∀ c ∈ x.head?, space c = true := by
  cases x with
  | nil => simp [marks]
  | cons c x =>
    rw [marks, marks]
    cases hc : space c <;> simp [hc]

theorem split_space (hc : space c = true) (x : List α) :
    split space (c :: x) = split space x := by
  rw [split, if_pos hc]

theorem split_word (hc : space c = false) (x : List α) :
    split space (c :: x) =
      if startsWord space x then extend c (split space x) else [c] :: split space x := by
  rw [split, if_neg (by simp [hc])]

theorem isWord_of_mem_split {x : List α} (h : word ∈ split space x) : IsWord space word := by
  induction x generalizing word with
  | nil => cases h
  | cons c x ih =>
    cases hc : space c with
    | true =>
      rw [split_space hc] at h
      exact ih h
    | false =>
      have hcons (w : List α) (hw : ∀ d ∈ w, space d = false) : IsWord space (c :: w) := by
        refine ⟨by simp, fun d hd => ?_⟩
        rcases mem_cons.1 hd with rfl | hd
        · exact hc
        · exact hw d hd
      have hsingle : IsWord space [c] := hcons [] nofun
      rw [split_word hc] at h
      split at h
      · cases hwords : split space x with
        | nil =>
          rw [hwords, extend, mem_singleton] at h
          rw [h]
          exact hsingle
        | cons w words =>
          rw [hwords, extend] at h
          rw [hwords] at ih
          rcases mem_cons.1 h with rfl | h
          · exact hcons w (ih (mem_cons_self ..)).2
          · exact ih (mem_cons_of_mem _ h)
      · rcases mem_cons.1 h with rfl | h
        · exact hsingle
        · exact ih h

/-- The marks of a text are those of its words, and an open word at the start takes the mark from
its first symbol. -/
theorem marks_eq_split (x : List α) :
    marks space true x = (split space x).flatMap wordMarks ∧
      ((∀ c ∈ x.head?, space c = true) → marks space false x = (split space x).flatMap wordMarks) ∧
      (∀ c ∈ x.head?, space c = false → ∃ word words, split space x = word :: words ∧
        marks space false x = word.map (fun d => (d, false)) ++ words.flatMap wordMarks) := by
  induction x with
  | nil => exact ⟨rfl, fun _ => rfl, nofun⟩
  | cons c x ih =>
    obtain ⟨htrue, hspace, hopen⟩ := ih
    cases hc : space c with
    | true =>
      have hsplit := split_space hc x
      refine ⟨?_, fun _ => ?_, fun d hd hnot => ?_⟩
      · rw [hsplit, marks, hc]
        exact htrue
      · rw [hsplit, marks, hc]
        exact htrue
      · obtain rfl : c = d := Option.some.inj hd
        rw [hc] at hnot
        cases hnot
    | false =>
      have hfirst (fresh : Bool) :
          marks space fresh (c :: x) = (c, fresh) :: marks space false x := by
        rw [marks, hc]
        rfl
      -- the word that starts with this symbol, and the words after it
      obtain ⟨word, words, hsplit, hrest⟩ : ∃ word words,
          split space (c :: x) = (c :: word) :: words ∧
            marks space false x = word.map (fun d => (d, false)) ++ words.flatMap wordMarks := by
        rw [split_word hc]
        cases x with
        | nil => exact ⟨[], [], rfl, rfl⟩
        | cons d x =>
          cases hd : space d with
          | true =>
            refine ⟨[], split space (d :: x), by simp [startsWord, hd], hspace fun e he => ?_⟩
            obtain rfl : d = e := Option.some.inj he
            exact hd
          | false =>
            obtain ⟨word, words, hwords, hmarks⟩ := hopen d rfl hd
            exact ⟨word, words, by simp [startsWord, hd, hwords, extend], hmarks⟩
      refine ⟨?_, fun h => ?_, fun d hd _ => ?_⟩
      · rw [hfirst, hsplit, hrest]
        rfl
      · rw [h c rfl] at hc
        cases hc
      · refine ⟨c :: word, words, hsplit, ?_⟩
        rw [hfirst, hrest]
        rfl

theorem flatMap_wordMarks_inj {l m : List (List α)} (hl : ∀ w ∈ l, IsWord space w)
    (hm : ∀ w ∈ m, IsWord space w) (h : l.flatMap wordMarks = m.flatMap wordMarks) : l = m := by
  have hhead (l : List (List α)) (hl : ∀ w ∈ l, IsWord space w) :
      ∀ c ∈ (l.flatMap wordMarks).head?, ¬ c.2 = false := by
    intro c hc
    cases l with
    | nil => cases hc
    | cons w l =>
      cases w with
      | nil => exact absurd rfl (hl [] (mem_cons_self ..)).1
      | cons d w =>
        obtain rfl : (d, true) = c := Option.some.inj hc
        simp
  induction l generalizing m with
  | nil =>
    cases m with
    | nil => rfl
    | cons w m =>
      cases w with
      | nil => exact absurd rfl (hm [] (mem_cons_self ..)).1
      | cons d w => cases h
  | cons v l ih =>
    cases v with
    | nil => exact absurd rfl (hl [] (mem_cons_self ..)).1
    | cons c v =>
      cases m with
      | nil => cases h
      | cons w m =>
        cases w with
        | nil => exact absurd rfl (hm [] (mem_cons_self ..)).1
        | cons d w =>
          obtain ⟨hfirst, hrest⟩ := List.cons.inj h
          have hl' : ∀ w ∈ l, IsWord space w := fun w hw => hl w (mem_cons_of_mem _ hw)
          have hm' : ∀ w ∈ m, IsWord space w := fun w hw => hm w (mem_cons_of_mem _ hw)
          obtain ⟨hword, hwords⟩ := Framing.append_inj_of_all (p := fun e : α × Bool => e.2 = false)
            (by simp) (by simp) (hhead l hl') (hhead m hm') hrest
          have hvw : v = w := map_injective_iff.2 (fun a b hab => (Prod.mk.inj hab).1) hword
          rw [(Prod.mk.inj hfirst).1, hvw, ih hl' hm' hwords]

/-- Two texts have the same words if and only if they have the same marks. -/
theorem split_eq_iff (l : List (List α)) (hl : ∀ w ∈ l, IsWord space w) (x : List α) :
    l = split space x ↔ l.flatMap wordMarks = marks space true x := by
  rw [(marks_eq_split x).1]
  constructor
  · intro h
    rw [h]
  · exact flatMap_wordMarks_inj hl fun w hw => isWord_of_mem_split hw

/-- `" ".join(words)`. -/
def unwords (blank : α) (words : List (List α)) : List α := [blank].intercalate words

theorem unwords_cons_cons (blank : α) (v w : List α) (words : List (List α)) :
    unwords blank (v :: w :: words) = v ++ blank :: unwords blank (w :: words) := by
  rfl

theorem marks_word (hword : ∀ c ∈ word, space c = false) :
    marks space false word = word.map (fun c => (c, false)) ∧
      freshAfter space false word = false := by
  induction word with
  | nil => exact ⟨rfl, rfl⟩
  | cons c word ih =>
    obtain ⟨hmarks, hfresh⟩ := ih fun d hd => hword d (mem_cons_of_mem _ hd)
    have hc := hword c (mem_cons_self ..)
    constructor
    · rw [marks, hc, hmarks]
      rfl
    · rw [freshAfter, hc, hfresh]

theorem IsWord.marks_true (hword : IsWord space word) :
    marks space true word = wordMarks word ∧ freshAfter space true word = false := by
  cases word with
  | nil => exact absurd rfl hword.1
  | cons c word =>
    have hc := hword.2 c (mem_cons_self ..)
    obtain ⟨hmarks, hfresh⟩ := marks_word fun d hd => hword.2 d (mem_cons_of_mem _ hd)
    constructor
    · rw [marks, hc, hmarks]
      rfl
    · rw [freshAfter, hc, hfresh]

/-- Joined words have the marks of the words, and end within the last one. -/
theorem marks_unwords (hblank : space blank = true) (hwords : ∀ w ∈ words, IsWord space w) :
    marks space true (unwords blank words) = words.flatMap wordMarks ∧
      freshAfter space true (unwords blank words) = words.isEmpty := by
  induction words with
  | nil => exact ⟨rfl, rfl⟩
  | cons v words ih =>
    obtain ⟨hmarks, hfresh⟩ := (hwords v (mem_cons_self ..)).marks_true
    cases words with
    | nil =>
      have hsingle : unwords blank [v] = v := by simp [unwords]
      rw [hsingle, hmarks, hfresh]
      simp
    | cons w words =>
      obtain ⟨hmarks', hfresh'⟩ := ih fun u hu => hwords u (mem_cons_of_mem _ hu)
      rw [unwords_cons_cons, marks_append, freshAfter_append, hmarks, hfresh, marks, freshAfter,
        hblank, hmarks', hfresh']
      exact ⟨rfl, rfl⟩

theorem split_unwords (hblank : space blank = true) (hwords : ∀ w ∈ words, IsWord space w) :
    split space (unwords blank words) = words :=
  ((split_eq_iff words hwords _).2 (marks_unwords hblank hwords).1.symm).symm

end Omni.Words
