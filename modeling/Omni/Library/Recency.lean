import Mathlib.Data.Finset.Basic
import Mathlib.Data.Finset.Dedup
import Mathlib.Logic.Function.Basic
import Mathlib.Tactic.Common

/-!
# Stores that know when their keys were last used

A store holds a value under each of its keys and knows the time of the last use of each. An
eviction takes the least recently used keys away, and no more of them than it has to. A list that
has the keys in the order of their last use represents the store, and what an eviction leaves is
a tail of that list.
-/

namespace Omni

open Function List Finset

/-- Values under keys, with the time at which each key was last used. -/
structure Recency (K V : Type*) where
  held : Finset K
  value : K → Option V
  used : K → ℕ
  clock : ℕ
  /-- The keys that are held are those that have a value. -/
  isSome_value : ∀ k, (value k).isSome = true ↔ k ∈ held
  /-- Every use lies in the past. -/
  used_lt : ∀ k ∈ held, used k < clock
  /-- No two keys were used at the same time. -/
  used_inj : ∀ k ∈ held, ∀ j ∈ held, used k = used j → k = j

namespace Recency

variable {K V : Type*}

/-- The store without keys. -/
def empty : Recency K V where
  held := ∅
  value _ := none
  used _ := 0
  clock := 0
  isSome_value k := by simp
  used_lt k hk := absurd hk (notMem_empty k)
  used_inj k hk := absurd hk (notMem_empty k)

variable [DecidableEq K]

/-- Use a key. -/
def touch (s : Recency K V) (k : K) : Recency K V where
  held := s.held
  value := s.value
  used := update s.used k s.clock
  clock := s.clock + 1
  isSome_value := s.isSome_value
  used_lt j hj := by
    by_cases heq : j = k
    · subst heq
      simp
    · rw [update_of_ne heq]
      exact Nat.lt_succ_of_lt (s.used_lt j hj)
  used_inj i hi j hj hused := by
    have hilt := s.used_lt i hi
    have hjlt := s.used_lt j hj
    by_cases hik : i = k <;> by_cases hjk : j = k
    · rw [hik, hjk]
    · subst hik
      simp only [update_self, update_of_ne hjk] at hused
      omega
    · subst hjk
      simp only [update_self, update_of_ne hik] at hused
      omega
    · simp only [update_of_ne hik, update_of_ne hjk] at hused
      exact s.used_inj i hi j hj hused

/-- Keep some keys only. -/
def restrict (s : Recency K V) (R : Finset K) : Recency K V where
  held := s.held ∩ R
  value k := if k ∈ R then s.value k else none
  used := s.used
  clock := s.clock
  isSome_value k := by
    by_cases hk : k ∈ R
    · simp [hk, s.isSome_value]
    · simp [hk]
  used_lt k hk := s.used_lt k (mem_inter.mp hk).1
  used_inj k hk j hj := s.used_inj k (mem_inter.mp hk).1 j (mem_inter.mp hj).1

/-- Remove a key. -/
def erase (s : Recency K V) (k : K) : Recency K V :=
  s.restrict (s.held.erase k)

/-- Put a value under a key, which is a use of the key. -/
def put (s : Recency K V) (k : K) (v : V) : Recency K V where
  held := insert k s.held
  value := update s.value k (some v)
  used := update s.used k s.clock
  clock := s.clock + 1
  isSome_value j := by
    by_cases heq : j = k
    · subst heq
      simp
    · rw [update_of_ne heq, s.isSome_value, mem_insert, or_iff_right heq]
  used_lt j hj := by
    by_cases heq : j = k
    · subst heq
      simp
    · rw [update_of_ne heq]
      exact Nat.lt_succ_of_lt (s.used_lt j (mem_of_mem_insert_of_ne hj heq))
  used_inj i hi j hj hused := by
    by_cases hik : i = k <;> by_cases hjk : j = k
    · rw [hik, hjk]
    · subst hik
      have hjlt := s.used_lt j (mem_of_mem_insert_of_ne hj hjk)
      simp only [update_self, update_of_ne hjk] at hused
      omega
    · subst hjk
      have hilt := s.used_lt i (mem_of_mem_insert_of_ne hi hik)
      simp only [update_self, update_of_ne hik] at hused
      omega
    · simp only [update_of_ne hik, update_of_ne hjk] at hused
      exact s.used_inj i (mem_of_mem_insert_of_ne hi hik) j (mem_of_mem_insert_of_ne hj hjk) hused

/-- A set of held keys, with every key also all keys that were used later. -/
structure Recent (s : Recency K V) (R : Finset K) : Prop where
  held : R ⊆ s.held
  later : ∀ k ∈ R, ∀ j ∈ s.held, s.used k ≤ s.used j → j ∈ R

/-- An eviction leaves the most recently used keys, as many as fit. -/
def Evicts (s : Recency K V) (fits : Finset K → Prop) (t : Recency K V) : Prop :=
  ∃ R, s.Recent R ∧ fits R ∧ (∀ R', s.Recent R' → fits R' → R' ⊆ R) ∧ t = s.restrict R

variable {s t u : Recency K V} {fits : Finset K → Prop} {k : K} {R : Finset K}

omit [DecidableEq K] in
theorem value_eq_none : s.value k = none ↔ k ∉ s.held := by
  rw [← s.isSome_value k, Bool.not_eq_true, Option.isSome_eq_false_iff, Option.isNone_iff_eq_none]

/-- The keys of a store in the order of their last use. -/
structure Lists (s : Recency K V) (keys : List K) : Prop where
  mem : ∀ k, k ∈ keys ↔ k ∈ s.held
  order : keys.Pairwise fun k j => s.used k < s.used j

variable {keys : List K}

omit [DecidableEq K] in
theorem lists_empty : (empty : Recency K V).Lists [] :=
  ⟨fun k => by simp [empty], List.Pairwise.nil⟩

omit [DecidableEq K] in
theorem Lists.nodup (h : s.Lists keys) : keys.Nodup :=
  h.order.imp fun hlt heq => absurd (congrArg s.used heq) (Nat.ne_of_lt hlt)

omit [DecidableEq K] in
theorem Lists.toFinset_eq [DecidableEq K] (h : s.Lists keys) : keys.toFinset = s.held := by
  ext k
  rw [mem_toFinset, h.mem]

theorem Lists.restrict (h : s.Lists keys) {kept : List K} (hkept : kept.Sublist keys) :
    (s.restrict kept.toFinset).Lists kept := by
  refine ⟨fun k => ?_, h.order.sublist hkept⟩
  show k ∈ kept ↔ k ∈ s.held ∩ kept.toFinset
  rw [mem_inter, mem_toFinset, ← h.mem]
  exact ⟨fun hk => ⟨hkept.subset hk, hk⟩, And.right⟩

/-- Without a key, the others keep their order. -/
theorem Lists.erase (h : s.Lists keys) (k : K) : (s.erase k).Lists (keys.filter (· ≠ k)) := by
  have hset : (keys.filter (· ≠ k)).toFinset = s.held.erase k := by
    ext j
    simp [h.mem, and_comm]
  have hlists := h.restrict (keys.filter_sublist (p := (· ≠ k)))
  rwa [hset] at hlists

/-- The key that has been used comes last. -/
theorem Lists.touch (h : s.Lists keys) (hk : k ∈ keys) :
    (s.touch k).Lists (keys.filter (· ≠ k) ++ [k]) := by
  refine ⟨fun j => ?_, pairwise_append.mpr ⟨?_, pairwise_singleton _ _, ?_⟩⟩
  · show _ ↔ j ∈ s.held
    by_cases heq : j = k
    · subst heq
      simp [(h.mem j).mp hk]
    · simp [heq, h.mem]
  · refine (h.order.sublist keys.filter_sublist).imp_of_mem fun {i j} hi hj hlt => ?_
    have hik : i ≠ k := of_decide_eq_true (mem_filter.mp hi).2
    have hjk : j ≠ k := of_decide_eq_true (mem_filter.mp hj).2
    simpa only [Recency.touch, update_of_ne hik, update_of_ne hjk] using hlt
  · intro i hi j hj
    obtain rfl := List.mem_singleton.mp hj
    obtain ⟨himem, hij⟩ := mem_filter.mp hi
    simp only [Recency.touch, update_self, update_of_ne (of_decide_eq_true hij)]
    exact s.used_lt i ((h.mem i).mp himem)

/-- A new key comes last. -/
theorem Lists.put (h : s.Lists keys) (hk : k ∉ keys) (v : V) :
    (s.put k v).Lists (keys ++ [k]) := by
  refine ⟨fun j => ?_, pairwise_append.mpr ⟨?_, pairwise_singleton _ _, ?_⟩⟩
  · show _ ↔ j ∈ insert k s.held
    rw [List.mem_append, List.mem_singleton, Finset.mem_insert, h.mem, or_comm]
  · refine h.order.imp_of_mem fun {i j} hi hj hlt => ?_
    have hik : i ≠ k := ne_of_mem_of_not_mem hi hk
    have hjk : j ≠ k := ne_of_mem_of_not_mem hj hk
    simpa only [Recency.put, update_of_ne hik, update_of_ne hjk] using hlt
  · intro i hi j hj
    obtain rfl := List.mem_singleton.mp hj
    simp only [Recency.put, update_self, update_of_ne (ne_of_mem_of_not_mem hi hk)]
    exact s.used_lt i ((h.mem i).mp hi)

/-- In an ascending list, the elements of a set that is closed upwards are a tail. -/
theorem exists_drop_eq_filter {used : K → ℕ} (horder : keys.Pairwise fun k j => used k < used j)
    (hlater : ∀ k ∈ R, ∀ j ∈ keys, used k ≤ used j → j ∈ R) :
    ∃ n ≤ keys.length, keys.drop n = keys.filter (· ∈ R) := by
  induction keys with
  | nil => exact ⟨0, Nat.zero_le _, rfl⟩
  | cons k rest ih =>
    obtain ⟨hfirst, hrest⟩ := pairwise_cons.mp horder
    by_cases hk : k ∈ R
    · refine ⟨0, Nat.zero_le _, (List.filter_eq_self.mpr fun j hj => decide_eq_true ?_).symm⟩
      rcases List.mem_cons.mp hj with rfl | hj'
      · exact hk
      · exact hlater k hk j hj (hfirst j hj').le
    · obtain ⟨n, hn, hdrop⟩ := ih hrest fun i hi j hj => hlater i hi j (mem_cons_of_mem k hj)
      refine ⟨n + 1, Nat.succ_le_succ hn, ?_⟩
      rw [List.drop_succ_cons, hdrop, List.filter_cons_of_neg (by simpa using hk)]

/-- A tail of the list is a set of most recently used keys. -/
theorem Lists.recent_drop (h : s.Lists keys) (n : ℕ) : s.Recent (keys.drop n).toFinset := by
  refine ⟨fun k hk => ?_, fun k hk j hj hle => ?_⟩
  · exact (h.mem k).mp (mem_of_mem_drop (mem_toFinset.mp hk))
  · have hmem : j ∈ keys.take n ++ keys.drop n := by
      rw [take_append_drop]
      exact (h.mem j).mpr hj
    rcases mem_append.mp hmem with htake | hdrop
    · have horder : (keys.take n ++ keys.drop n).Pairwise fun k j => s.used k < s.used j := by
        rw [take_append_drop]
        exact h.order
      have hlt := (pairwise_append.mp horder).2.2 j htake k (mem_toFinset.mp hk)
      exact absurd hle (Nat.not_le.mpr hlt)
    · exact mem_toFinset.mpr hdrop

/-- Every set of most recently used keys is a tail of the list. -/
theorem Lists.drop_of_recent (h : s.Lists keys) (hR : s.Recent R) :
    ∃ n ≤ keys.length, R = (keys.drop n).toFinset := by
  obtain ⟨n, hn, hdrop⟩ := exists_drop_eq_filter h.order fun k hk j hj hle =>
    hR.later k hk j ((h.mem j).mp hj) hle
  refine ⟨n, hn, ?_⟩
  rw [hdrop]
  ext k
  simp only [mem_toFinset, mem_filter, decide_eq_true_eq]
  exact ⟨fun hk => ⟨(h.mem k).mpr (hR.held hk), hk⟩, And.right⟩

/-- Dropping keys from the front until the rest fits is an eviction. -/
theorem Lists.evicts (h : s.Lists keys) {n : ℕ} (hfits : fits (keys.drop n).toFinset)
    (hleast : ∀ m < n, ¬fits (keys.drop m).toFinset) :
    s.Evicts fits (s.restrict (keys.drop n).toFinset) := by
  refine ⟨_, h.recent_drop n, hfits, fun R' hR' hfits' => ?_, rfl⟩
  obtain ⟨m, -, rfl⟩ := h.drop_of_recent hR'
  have hle : n ≤ m := Nat.le_of_not_lt fun hlt => hleast m hlt hfits'
  intro k hk
  rw [mem_toFinset] at hk ⊢
  exact (drop_sublist_drop_left keys hle).subset hk

end Recency

end Omni
