import Mathlib.Data.Finset.Card
import Mathlib.Logic.Relation

/-!
# Depth-first walks

A walk through a graph that may have cycles visits each node once, until its value makes it stop.
If it may go as deep as there are nodes, it ends, and it has been wherever its start leads to.
-/

namespace Omni.DepthFirst

open Relation

variable {ι α : Type*} [DecidableEq ι] (children : ι → List ι) (visit : ι → α → α)
  (stop : α → Bool)

/-- Walk from a node, given the value so far and what has been seen. It is `none` if the walk would
go deeper than `depth` levels. -/
def walk : ℕ → ι → α × Finset ι → Option (α × Finset ι)
  | 0, _, _ => none
  | depth + 1, x, (value, seen) =>
    if x ∈ seen then some (value, seen)
    else if stop (visit x value) then some (visit x value, insert x seen)
    else (children x).foldlM (fun r child => if stop r.1 then some r else walk depth child r)
      (visit x value, insert x seen)

/-- The node leads to another one. -/
def Reaches : ι → ι → Prop := ReflTransGen fun x y => y ∈ children x

/-- A walk from some nodes has visited a path, and if it did not stop, all that these nodes lead to
has been seen. -/
structure Walked (xs path : List ι) (r r' : α × Finset ι) : Prop where
  seen : r'.2 = r.2 ∪ path.toFinset
  value : r'.1 = path.foldl (fun value x => visit x value) r.1
  reached : ∀ y ∈ path, ∃ x ∈ xs, Reaches children x y
  closed : stop r'.1 = false → (∀ x ∈ xs, x ∈ r'.2) ∧ ∀ y ∈ path, ∀ z ∈ children y, z ∈ r'.2

variable {children visit stop} {nodes : Finset ι} {x y : ι} {r r' : α × Finset ι}
  {xs path : List ι} {depth : ℕ}

theorem Walked.stopped (hstop : stop r.1 = true) : Walked children visit stop xs [] r r where
  seen := by simp
  value := rfl
  reached := by simp
  closed h := by simp [hstop] at h

/-- A walk from one node goes on from the others. -/
theorem Walked.cons {more : List ι} {r'' : α × Finset ι}
    (hfirst : Walked children visit stop [x] path r r') (hstop : stop r'.1 = false)
    (hrest : Walked children visit stop xs more r' r'') :
    Walked children visit stop (x :: xs) (path ++ more) r r'' := by
  obtain ⟨hstart, hclosed⟩ := hfirst.closed hstop
  have hgrows : r'.2 ⊆ r''.2 := by
    rw [hrest.seen]
    exact Finset.subset_union_left
  refine ⟨?_, ?_, fun y hy => ?_, fun h => ⟨fun z hz => ?_, fun y hy z hz => ?_⟩⟩
  · rw [hrest.seen, hfirst.seen, List.toFinset_append, Finset.union_assoc]
  · rw [hrest.value, hfirst.value, List.foldl_append]
  · rcases List.mem_append.mp hy with hy | hy
    · obtain ⟨z, hz, hreach⟩ := hfirst.reached y hy
      exact ⟨x, by simp, List.mem_singleton.mp hz ▸ hreach⟩
    · obtain ⟨z, hz, hreach⟩ := hrest.reached y hy
      exact ⟨z, List.mem_cons_of_mem x hz, hreach⟩
  · rcases List.mem_cons.mp hz with rfl | hz
    · exact hgrows (hstart z (by simp))
    · exact (hrest.closed h).1 z hz
  · rcases List.mem_append.mp hy with hy | hy
    · exact hgrows (hclosed y hy z hz)
    · exact (hrest.closed h).2 y hy z hz

theorem Walked.down {value : α} {seen : Finset ι}
    (h : Walked children visit stop (children x) path (visit x value, insert x seen) r') :
    Walked children visit stop [x] (x :: path) (value, seen) r' := by
  have hseen : r'.2 = seen ∪ (x :: path).toFinset := by
    rw [h.seen, List.toFinset_cons, Finset.union_insert, Finset.insert_union]
  refine ⟨hseen, h.value, fun y hy => ⟨x, by simp, ?_⟩, fun hstop => ⟨?_, fun y hy z hz => ?_⟩⟩
  · rcases List.mem_cons.mp hy with rfl | hy
    · exact .refl
    · obtain ⟨z, hz, hreach⟩ := h.reached y hy
      exact .head hz hreach
  · simp [hseen]
  · rcases List.mem_cons.mp hy with rfl | hy
    · exact (h.closed hstop).1 z hz
    · exact (h.closed hstop).2 y hy z hz

theorem loop_stopped (hstop : stop r.1 = true) :
    xs.foldlM (fun r child => if stop r.1 then some r else
      walk children visit stop depth child r) r = some r := by
  induction xs with
  | nil => rfl
  | cons x xs ih => simp [hstop, ih]

/-- If a walk from each child ends, the loop over them does. -/
theorem exists_loop (hxs : ∀ x ∈ xs, x ∈ nodes) (hdepth : (nodes \ r.2).card < depth)
    (hwalk : ∀ x r, x ∈ nodes → (nodes \ r.2).card < depth →
      ∃ path r', walk children visit stop depth x r = some r' ∧
        Walked children visit stop [x] path r r') :
    ∃ path r', xs.foldlM (fun r child => if stop r.1 then some r else
        walk children visit stop depth child r) r = some r' ∧
      Walked children visit stop xs path r r' := by
  induction xs generalizing r with
  | nil => exact ⟨[], r, rfl, by constructor <;> simp⟩
  | cons x xs ih =>
    rw [List.forall_mem_cons] at hxs
    by_cases hstop : stop r.1 = true
    · exact ⟨[], r, loop_stopped hstop, .stopped hstop⟩
    obtain ⟨first, r', hr', hfirst⟩ := hwalk x r hxs.1 hdepth
    have hgrows : r.2 ⊆ r'.2 := hfirst.seen ▸ Finset.subset_union_left
    have hdepth' : (nodes \ r'.2).card < depth :=
      (Finset.card_le_card (Finset.sdiff_subset_sdiff subset_rfl hgrows)).trans_lt hdepth
    simp only [List.foldlM_cons, hstop, Bool.false_eq_true, if_false, hr', Option.bind_eq_bind,
      Option.bind_some]
    by_cases hstop' : stop r'.1 = true
    · refine ⟨first, r', loop_stopped hstop', ⟨hfirst.seen, hfirst.value, fun y hy => ?_, ?_⟩⟩
      · obtain ⟨z, hz, hreach⟩ := hfirst.reached y hy
        exact ⟨x, by simp, List.mem_singleton.mp hz ▸ hreach⟩
      · simp [hstop']
    · obtain ⟨more, r'', hr'', hrest⟩ := ih hxs.2 hdepth'
      exact ⟨first ++ more, r'', hr'', hfirst.cons (Bool.eq_false_iff.mpr hstop') hrest⟩

variable (visit stop) in
/-- A walk that may go deep enough ends. -/
theorem exists_walk (hclosed : ∀ x ∈ nodes, ∀ y ∈ children x, y ∈ nodes) (hx : x ∈ nodes)
    (hdepth : (nodes \ r.2).card < depth) :
    ∃ path r', walk children visit stop depth x r = some r' ∧
      Walked children visit stop [x] path r r' := by
  induction depth generalizing x r with
  | zero => exact absurd hdepth (Nat.not_lt_zero _)
  | succ depth ih =>
    obtain ⟨value, seen⟩ := r
    simp only [walk]
    split_ifs with hseen hstop
    · exact ⟨[], _, rfl, by constructor <;> simp [hseen]⟩
    · refine ⟨[x], _, rfl, ⟨by ext; simp, rfl, ?_, ?_⟩⟩
      · exact fun y hy => ⟨x, by simp, List.mem_singleton.mp hy ▸ .refl⟩
      · simp [hstop]
    · have hless : (nodes \ insert x seen).card < (nodes \ seen).card := by
        rw [Finset.sdiff_insert]
        exact Finset.card_erase_lt_of_mem (Finset.mem_sdiff.mpr ⟨hx, hseen⟩)
      obtain ⟨path, r', hr', hwalked⟩ := exists_loop (r := (visit x value, insert x seen))
        (hclosed x hx)
        (hless.trans_le (Nat.lt_succ_iff.mp hdepth)) fun y r hy hr => ih hy hr
      exact ⟨x :: path, r', hr', hwalked.down⟩

/-- From the beginning, a walk that does not stop visits exactly what the node leads to. -/
theorem Walked.mem_iff {value : α} (h : Walked children visit stop [x] path (value, ∅) r')
    (hstop : stop r'.1 = false) : y ∈ path ↔ Reaches children x y := by
  obtain ⟨hstart, hclosed⟩ := h.closed hstop
  have hseen : ∀ z, z ∈ r'.2 ↔ z ∈ path := by simp [h.seen]
  constructor
  · intro hy
    obtain ⟨z, hz, hreach⟩ := h.reached y hy
    exact List.mem_singleton.mp hz ▸ hreach
  · intro hreach
    induction hreach with
    | refl => exact (hseen x).mp (hstart x (by simp))
    | tail _ hz ih => exact (hseen _).mp (hclosed _ ih _ hz)

end Omni.DepthFirst
