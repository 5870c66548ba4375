import Mathlib.Algebra.BigOperators.Group.Finset.Basic
import Mathlib.Algebra.GroupWithZero.Nat
import Omni.Library.Recency

/-!
# The cache of stage outputs

`StageOutputCache` of `scheduling/stage_cache.py` and what it is for: a store under two limits, one
on the number of its entries and one on their bytes, from which the least recently used entries go
first. Keys are the strings that `str(key)` makes of them.
-/

namespace Omni.Cache

open List

variable {K V : Type} {bytes : ℤ} {count : ℕ}

/-- `_CacheEntry`. -/
structure CacheEntry (V : Type) where
  data : V
  sizeBytes : ℕ
  deriving DecidableEq

/-- What the constructor of `StageOutputCache` sets, with `_detach_value` for its `cache_device`
and the identity of objects. -/
structure CacheConfig (V : Type) where
  maxSize : Option ℕ
  maxBytes : Option ℕ
  sizeFn : V → ℕ
  detachValue : V → V
  same : V → V → Bool

/-- `StageOutputCache`. The entries of the `OrderedDict` are in its order. -/
structure StageOutputCache (K V : Type) where
  cache : List (K × CacheEntry V)
  currentBytes : ℤ
  evictionCount : ℕ
  deriving DecidableEq

/-- A new cache. -/
def StageOutputCache.init : StageOutputCache K V := ⟨[], 0, 0⟩

/-- A call of one of the methods. `remove_if` tests its predicate outside the lock, so the keys
that it removes are given. -/
inductive CacheCall (K V : Type)
  | get (key : Option K)
  | put (key : Option K) (data : V)
  | clear
  | removeIfSame (key : Option K) (expectedData : V)
  | removeIf (toRemove : List K)

/-- What a call returns. -/
inductive CacheReturn (V : Type)
  | data (value : Option V)
  | unit
  | removed (done : Bool)
  | count (removed : ℕ)
  deriving DecidableEq

section Code

variable [DecidableEq K]

/-- `OrderedDict.pop`. -/
def popKey (cache : List (K × CacheEntry V)) (key : K) : List (K × CacheEntry V) :=
  cache.filter fun p => p.1 ≠ key

/-- `OrderedDict.move_to_end`. -/
def moveToEnd (cache : List (K × CacheEntry V)) (key : K) : List (K × CacheEntry V) :=
  match cache.lookup key with
  | none => cache
  | some entry => popKey cache key ++ [(key, entry)]

/-- `OrderedDict.__setitem__`. -/
def setItem (cache : List (K × CacheEntry V)) (key : K) (entry : CacheEntry V) :
    List (K × CacheEntry V) :=
  match cache.lookup key with
  | none => cache ++ [(key, entry)]
  | some _ => cache.map fun p => if p.1 = key then (key, entry) else p

/-- The first loop of `_evict_over_budget`. -/
def evictOverSize (maxSize : Option ℕ) :
    List (K × CacheEntry V) → ℤ → ℕ → StageOutputCache K V
  | [], bytes, count => ⟨[], bytes, count⟩
  | p :: rest, bytes, count =>
    if maxSize.any fun n => n < (p :: rest).length then
      evictOverSize maxSize rest (bytes - p.2.sizeBytes) (count + 1)
    else ⟨p :: rest, bytes, count⟩

/-- The second loop of `_evict_over_budget`. -/
def evictOverBytes (maxBytes : Option ℕ) :
    List (K × CacheEntry V) → ℤ → ℕ → StageOutputCache K V
  | [], bytes, count =>
    if maxBytes.any fun n : ℕ => (n : ℤ) < bytes then ⟨[], 0, count⟩ else ⟨[], bytes, count⟩
  | p :: rest, bytes, count =>
    if maxBytes.any fun n : ℕ => (n : ℤ) < bytes then
      evictOverBytes maxBytes rest (bytes - p.2.sizeBytes) (count + 1)
    else ⟨p :: rest, bytes, count⟩

namespace StageOutputCache

/-- `_evict_over_budget`. -/
def evictOverBudget (cfg : CacheConfig V) (c : StageOutputCache K V) : StageOutputCache K V :=
  let c := evictOverSize cfg.maxSize c.cache c.currentBytes c.evictionCount
  evictOverBytes cfg.maxBytes c.cache c.currentBytes c.evictionCount

/-- `get`. -/
def get (c : StageOutputCache K V) : Option K → StageOutputCache K V × Option V
  | none => (c, none)
  | some key =>
    match c.cache.lookup key with
    | none => (c, none)
    | some entry => ({ c with cache := moveToEnd c.cache key }, some entry.data)

/-- An entry is taken out, if it is there. -/
def drop (c : StageOutputCache K V) (key : K) : StageOutputCache K V :=
  match c.cache.lookup key with
  | none => c
  | some entry =>
    { c with cache := popKey c.cache key, currentBytes := c.currentBytes - entry.sizeBytes }

/-- `put`. -/
def put (cfg : CacheConfig V) (c : StageOutputCache K V) (key : Option K) (data : V) :
    StageOutputCache K V :=
  match key with
  | none => c
  | some key =>
    let sizeBytes := cfg.sizeFn data
    let c := c.drop key
    if cfg.maxBytes.any fun n => n < sizeBytes then c
    else
      let cache := moveToEnd (setItem c.cache key ⟨cfg.detachValue data, sizeBytes⟩) key
      evictOverBudget cfg { c with cache := cache, currentBytes := c.currentBytes + sizeBytes }

/-- `remove_if_same`. -/
def removeIfSame (cfg : CacheConfig V) (c : StageOutputCache K V) (key : Option K)
    (expectedData : V) : StageOutputCache K V × Bool :=
  match key with
  | none => (c, false)
  | some key =>
    match c.cache.lookup key with
    | none => (c, false)
    | some entry => if cfg.same entry.data expectedData then (c.drop key, true) else (c, false)

/-- The second section of `remove_if`. -/
def removeAll (c : StageOutputCache K V) : List K → StageOutputCache K V × ℕ
  | [] => (c, 0)
  | key :: rest =>
    let (done, removed) := (c.drop key).removeAll rest
    (done, removed + if (c.cache.lookup key).isSome then 1 else 0)

/-- A call. -/
def call (cfg : CacheConfig V) (c : StageOutputCache K V) :
    CacheCall K V → StageOutputCache K V × CacheReturn V
  | .get key => ((c.get key).1, .data (c.get key).2)
  | .put key data => (c.put cfg key data, .unit)
  | .clear => ({ c with cache := [], currentBytes := 0 }, .unit)
  | .removeIfSame key data =>
    ((c.removeIfSame cfg key data).1, .removed (c.removeIfSame cfg key data).2)
  | .removeIf toRemove => ((c.removeAll toRemove).1, .count (c.removeAll toRemove).2)

/-- Calls one after the other, with what they return. -/
def calls (cfg : CacheConfig V) (c : StageOutputCache K V) :
    List (CacheCall K V) → StageOutputCache K V × List (CacheReturn V)
  | [] => (c, [])
  | next :: rest =>
    let (done, returns) := (c.call cfg next).1.calls cfg rest
    (done, (c.call cfg next).2 :: returns)

end StageOutputCache

end Code

/-- The bytes of an entry of the reference. -/
def sizeOfKey (s : Recency K (CacheEntry V)) (k : K) : ℕ :=
  (s.value k).elim 0 (·.sizeBytes)

/-- Both limits hold for a set of keys. -/
def Fits (cfg : CacheConfig V) (s : Recency K (CacheEntry V)) (R : Finset K) : Prop :=
  (∀ n ∈ cfg.maxSize, R.card ≤ n) ∧ ∀ n ∈ cfg.maxBytes, ∑ k ∈ R, sizeOfKey s k ≤ n

section Reference

variable [DecidableEq K]

/-- A call to the reference: its state before and after, and what it returns. -/
def Answers (cfg : CacheConfig V) (s : Recency K (CacheEntry V)) :
    CacheCall K V → CacheReturn V → Recency K (CacheEntry V) → Prop
  | .get none, out, t => out = .data none ∧ t = s
  | .get (some k), out, t => out = .data ((s.value k).map (·.data)) ∧
      t = if k ∈ s.held then s.touch k else s
  | .put none _, out, t => out = .unit ∧ t = s
  | .put (some k) v, out, t => out = .unit ∧
      if ∃ n ∈ cfg.maxBytes, n < cfg.sizeFn v then t = s.erase k
      else
        let u := (s.erase k).put k ⟨cfg.detachValue v, cfg.sizeFn v⟩
        u.Evicts (Fits cfg u) t
  | .clear, out, t => out = .unit ∧ t = .empty
  | .removeIfSame none _, out, t => out = .removed false ∧ t = s
  | .removeIfSame (some k) v, out, t =>
      if ∃ entry ∈ s.value k, cfg.same entry.data v = true then
        out = .removed true ∧ t = s.erase k
      else out = .removed false ∧ t = s
  | .removeIf keys, out, t =>
      t = keys.foldl Recency.erase s ∧ out = .count (s.held.card - t.held.card)

/-- Calls to the reference one after the other. -/
def AnswersAll (cfg : CacheConfig V) : Recency K (CacheEntry V) → List (CacheCall K V) →
    List (CacheReturn V) → Recency K (CacheEntry V) → Prop
  | s, [], outs, t => outs = [] ∧ t = s
  | s, next :: rest, outs, t => ∃ out more u, Answers cfg s next out u ∧
      outs = out :: more ∧ AnswersAll cfg u rest more t

end Reference

/-- The value last put under a key since the last `clear`. -/
def lastPut [DecidableEq K] (k : K) : List (CacheCall K V) → Option V → Option V
  | [], last => last
  | .put (some key) data :: rest, last => lastPut k rest (if key = k then some data else last)
  | .clear :: rest, _ => lastPut k rest none
  | _ :: rest, last => lastPut k rest last

/-- The bytes of some entries. -/
def totalBytes (cache : List (K × CacheEntry V)) : ℕ :=
  (cache.map fun p => p.2.sizeBytes).sum

/-- Both loops take entries from the front until their limit holds. -/
theorem evictOverSize_spec (maxSize : Option ℕ) (cache : List (K × CacheEntry V)) (count : ℕ) :
    ∃ n ≤ cache.length, evictOverSize maxSize cache (totalBytes cache) count =
        ⟨cache.drop n, totalBytes (cache.drop n), count + n⟩ ∧
      (∀ limit ∈ maxSize, (cache.drop n).length ≤ limit) ∧
      ∀ m < n, ∃ limit ∈ maxSize, limit < (cache.drop m).length := by
  induction cache generalizing count with
  | nil => exact ⟨0, Nat.zero_le _, rfl, fun limit _ => Nat.zero_le limit, fun m hm => by omega⟩
  | cons p rest ih =>
    by_cases hover : ∃ limit ∈ maxSize, limit < (p :: rest).length
    · obtain ⟨n, hn, heq, hfits, hleast⟩ := ih (count + 1)
      have hany : (maxSize.any fun n => n < (p :: rest).length) = true := by
        simpa [Option.any_eq_true] using hover
      have hbytes : (totalBytes (p :: rest) : ℤ) - p.2.sizeBytes = totalBytes rest := by
        simp [totalBytes]
      refine ⟨n + 1, Nat.succ_le_succ hn, ?_, hfits, fun m hm => ?_⟩
      · rw [evictOverSize, if_pos hany, hbytes, heq, drop_succ_cons]
        congr 1
        omega
      · cases m with
        | zero => exact hover
        | succ m => exact hleast m (Nat.lt_of_succ_lt_succ hm)
    · have hany : ¬(maxSize.any fun n => n < (p :: rest).length) = true := by
        simpa [Option.any_eq_true] using hover
      refine ⟨0, Nat.zero_le _, by rw [evictOverSize, if_neg hany]; rfl, fun limit hlimit => ?_,
        fun m hm => by omega⟩
      exact Nat.le_of_not_lt fun hlt => hover ⟨limit, hlimit, hlt⟩

theorem evictOverBytes_spec (maxBytes : Option ℕ) (cache : List (K × CacheEntry V)) (count : ℕ) :
    ∃ n ≤ cache.length, evictOverBytes maxBytes cache (totalBytes cache) count =
        ⟨cache.drop n, totalBytes (cache.drop n), count + n⟩ ∧
      (∀ limit ∈ maxBytes, totalBytes (cache.drop n) ≤ limit) ∧
      ∀ m < n, ∃ limit ∈ maxBytes, limit < totalBytes (cache.drop m) := by
  induction cache generalizing count with
  | nil =>
    have hany : ¬(maxBytes.any fun n : ℕ =>
        (n : ℤ) < (totalBytes ([] : List (K × CacheEntry V)) : ℕ)) = true := by
      simp [Option.any_eq_true, totalBytes]
    exact ⟨0, Nat.zero_le _, by rw [evictOverBytes, if_neg hany]; rfl,
      fun limit _ => Nat.zero_le limit, fun m hm => by omega⟩
  | cons p rest ih =>
    by_cases hover : ∃ limit ∈ maxBytes, limit < totalBytes (p :: rest)
    · obtain ⟨n, hn, heq, hfits, hleast⟩ := ih (count + 1)
      have hany : (maxBytes.any fun n : ℕ => (n : ℤ) < (totalBytes (p :: rest) : ℕ)) = true := by
        simpa [Option.any_eq_true] using hover
      have hbytes : (totalBytes (p :: rest) : ℤ) - p.2.sizeBytes = totalBytes rest := by
        simp [totalBytes]
      refine ⟨n + 1, Nat.succ_le_succ hn, ?_, hfits, fun m hm => ?_⟩
      · rw [evictOverBytes, if_pos hany, hbytes, heq, drop_succ_cons]
        congr 1
        omega
      · cases m with
        | zero => exact hover
        | succ m => exact hleast m (Nat.lt_of_succ_lt_succ hm)
    · have hany : ¬(maxBytes.any fun n : ℕ => (n : ℤ) < (totalBytes (p :: rest) : ℕ)) = true := by
        simpa [Option.any_eq_true] using hover
      refine ⟨0, Nat.zero_le _, by rw [evictOverBytes, if_neg hany]; rfl, fun limit hlimit => ?_,
        fun m hm => by omega⟩
      exact Nat.le_of_not_lt fun hlt => hover ⟨limit, hlimit, hlt⟩

/-- Both limits for a list of entries. -/
def Within (cfg : CacheConfig V) (cache : List (K × CacheEntry V)) : Prop :=
  (∀ n ∈ cfg.maxSize, cache.length ≤ n) ∧ ∀ n ∈ cfg.maxBytes, totalBytes cache ≤ n

/-- Entries go from the front until both limits hold, and no more of them. -/
theorem evictOverBudget_spec (cfg : CacheConfig V) (c : StageOutputCache K V)
    (hbytes : c.currentBytes = totalBytes c.cache) :
    ∃ n, (c.evictOverBudget cfg).cache = c.cache.drop n ∧
      (c.evictOverBudget cfg).currentBytes = totalBytes (c.cache.drop n) ∧
      Within cfg (c.cache.drop n) ∧ ∀ m < n, ¬Within cfg (c.cache.drop m) := by
  obtain ⟨n, -, heq, hsize, hleast⟩ := evictOverSize_spec cfg.maxSize c.cache c.evictionCount
  obtain ⟨m, -, heq', hbytes', hleast'⟩ :=
    evictOverBytes_spec cfg.maxBytes (c.cache.drop n) (c.evictionCount + n)
  have hresult : c.evictOverBudget cfg = ⟨c.cache.drop (n + m), totalBytes (c.cache.drop (n + m)),
      c.evictionCount + n + m⟩ := by
    unfold StageOutputCache.evictOverBudget
    rw [hbytes, heq]
    rw [heq', drop_drop]
  rw [drop_drop] at hbytes'
  refine ⟨n + m, by rw [hresult], by rw [hresult], ⟨fun limit hlimit => ?_, hbytes'⟩,
    fun i hi hwithin => ?_⟩
  · have hle := hsize limit hlimit
    rw [length_drop] at hle ⊢
    omega
  · by_cases hlt : i < n
    · obtain ⟨limit, hlimit, hover⟩ := hleast i hlt
      exact absurd (hwithin.1 limit hlimit) (Nat.not_le.mpr hover)
    · obtain ⟨limit, hlimit, hover⟩ := hleast' (i - n) (by omega)
      rw [drop_drop, Nat.add_sub_cancel' (Nat.le_of_not_lt hlt)] at hover
      exact absurd (hwithin.2 limit hlimit) (Nat.not_le.mpr hover)

variable {cache : List (K × CacheEntry V)}

/-- The eviction loops bring nothing in. -/
theorem evictOverSize_subset {maxSize : Option ℕ} :
    (evictOverSize maxSize cache bytes count).cache ⊆ cache := by
  induction cache generalizing bytes count with
  | nil => exact List.Subset.refl _
  | cons p rest ih =>
    rw [evictOverSize]
    split
    · exact subset_cons_of_subset p ih
    · exact List.Subset.refl _

theorem evictOverBytes_subset {maxBytes : Option ℕ} :
    (evictOverBytes maxBytes cache bytes count).cache ⊆ cache := by
  induction cache generalizing bytes count with
  | nil =>
    rw [evictOverBytes]
    split <;> exact List.Subset.refl _
  | cons p rest ih =>
    rw [evictOverBytes]
    split
    · exact subset_cons_of_subset p ih
    · exact List.Subset.refl _

theorem evictOverBudget_subset (cfg : CacheConfig V) (c : StageOutputCache K V) :
    (c.evictOverBudget cfg).cache ⊆ c.cache :=
  List.Subset.trans evictOverBytes_subset evictOverSize_subset

/-- The cache has the entries of the reference in the order of their last use, and its counter
their bytes. -/
structure Represents (c : StageOutputCache K V) (s : Recency K (CacheEntry V)) : Prop where
  keys : s.Lists (c.cache.map Prod.fst)
  values : ∀ p ∈ c.cache, s.value p.1 = some p.2
  bytes : c.currentBytes = totalBytes c.cache

variable {cfg : CacheConfig V} {c : StageOutputCache K V} {s : Recency K (CacheEntry V)} {key : K}

theorem represents_init : Represents (.init : StageOutputCache K V) .empty :=
  ⟨Recency.lists_empty, fun _ hp => absurd hp not_mem_nil, rfl⟩

variable [DecidableEq K]

/-- An entry is found if the reference has it. -/
theorem Represents.lookup (h : Represents c s) (key : K) : c.cache.lookup key = s.value key := by
  cases hfound : c.cache.lookup key with
  | some entry =>
    obtain ⟨before, after, hsplit, -⟩ := lookup_eq_some_iff.mp hfound
    have hmem : (key, entry) ∈ c.cache := by
      rw [hsplit]
      exact mem_append_right _ mem_cons_self
    exact (h.values _ hmem).symm
  | none =>
    refine (Recency.value_eq_none.mpr fun hheld => ?_).symm
    obtain ⟨p, hp, hkey⟩ := mem_map.mp ((h.keys.mem key).mpr hheld)
    have hne := lookup_eq_none_iff.mp hfound p hp
    simp [hkey] at hne

theorem Represents.found (h : Represents c s) (key : K) :
    (∃ entry, c.cache.lookup key = some entry) ↔ key ∈ s.held := by
  rw [h.lookup, ← s.isSome_value, Option.isSome_iff_exists]

theorem keys_popKey (cache : List (K × CacheEntry V)) (key : K) :
    (popKey cache key).map Prod.fst = (cache.map Prod.fst).filter (· ≠ key) := by
  rw [popKey, filter_map]
  rfl

/-- A key that is not there is not taken out. -/
theorem popKey_of_lookup_eq_none (hnone : cache.lookup key = none) : popKey cache key = cache := by
  refine filter_eq_self.mpr fun p hp => decide_eq_true fun heq => ?_
  have hne := lookup_eq_none_iff.mp hnone p hp
  simp [heq] at hne

variable {entry : CacheEntry V}

/-- An entry that is taken out takes its bytes with it. -/
theorem totalBytes_popKey (hnodup : (cache.map Prod.fst).Nodup)
    (hfound : cache.lookup key = some entry) :
    totalBytes cache = entry.sizeBytes + totalBytes (popKey cache key) := by
  obtain ⟨before, after, rfl, hbefore⟩ := lookup_eq_some_iff.mp hfound
  have hfirst : popKey before key = before := by
    refine filter_eq_self.mpr fun p hp => decide_eq_true fun heq => ?_
    have hne := hbefore p hp
    simp [heq] at hne
  have hlast : popKey after key = after := by
    refine filter_eq_self.mpr fun p hp => decide_eq_true fun heq => ?_
    rw [map_append, map_cons] at hnodup
    have hnot := (nodup_cons.mp (nodup_append.mp hnodup).2.1).1
    exact hnot (mem_map.mpr ⟨p, hp, heq⟩)
  have hpop : popKey (before ++ (key, entry) :: after) key = before ++ after := by
    rw [popKey, filter_append, filter_cons_of_neg (by simp)]
    exact congrArg₂ _ hfirst hlast
  rw [hpop]
  simp only [totalBytes, map_append, map_cons, sum_append, sum_cons]
  omega

/-- An entry that is taken out is erased from the reference. -/
theorem Represents.drop (h : Represents c s) (key : K) : Represents (c.drop key) (s.erase key) := by
  have hcache : (c.drop key).cache = popKey c.cache key := by
    unfold StageOutputCache.drop
    split
    next hnone => exact (popKey_of_lookup_eq_none hnone).symm
    · rfl
  refine ⟨?_, fun p hp => ?_, ?_⟩
  · rw [hcache, keys_popKey]
    exact h.keys.erase key
  · rw [hcache] at hp
    obtain ⟨hmem, hne⟩ := mem_filter.mp hp
    have hheld : p.1 ∈ s.held.erase key := Finset.mem_erase.mpr
      ⟨of_decide_eq_true hne, (h.keys.mem _).mp (mem_map_of_mem hmem)⟩
    show (if p.1 ∈ s.held.erase key then s.value p.1 else none) = some p.2
    rw [if_pos hheld, h.values p hmem]
  · rw [hcache]
    unfold StageOutputCache.drop
    split
    next hnone => rw [popKey_of_lookup_eq_none hnone, h.bytes]
    next entry hfound =>
      have htotal := totalBytes_popKey h.keys.nodup hfound
      show c.currentBytes - entry.sizeBytes = _
      rw [h.bytes, htotal]
      omega

/-- An entry that is read is used in the reference. -/
theorem Represents.touch (h : Represents c s) (hfound : c.cache.lookup key = some entry) :
    Represents { c with cache := moveToEnd c.cache key } (s.touch key) := by
  have hmove : moveToEnd c.cache key = popKey c.cache key ++ [(key, entry)] := by
    rw [moveToEnd, hfound]
  have hheld : key ∈ s.held := (h.found key).mp ⟨entry, hfound⟩
  refine ⟨?_, fun p hp => ?_, ?_⟩
  · show (s.touch key).Lists ((moveToEnd c.cache key).map Prod.fst)
    rw [hmove, map_append, keys_popKey]
    exact h.keys.touch ((h.keys.mem key).mpr hheld)
  · show s.value p.1 = some p.2
    have hmem : p ∈ popKey c.cache key ++ [(key, entry)] := hmove ▸ hp
    rcases mem_append.mp hmem with hrest | hlast
    · exact h.values p (mem_filter.mp hrest).1
    · obtain rfl := mem_singleton.mp hlast
      rw [← h.lookup, hfound]
  · show c.currentBytes = totalBytes (moveToEnd c.cache key)
    have htotal := totalBytes_popKey h.keys.nodup hfound
    rw [h.bytes, hmove, htotal]
    simp only [totalBytes, map_append, map_cons, map_nil, sum_append, sum_cons, sum_nil]
    omega

theorem moveToEnd_setItem (hnone : cache.lookup key = none) (entry : CacheEntry V) :
    moveToEnd (setItem cache key entry) key = cache ++ [(key, entry)] := by
  have hset : setItem cache key entry = cache ++ [(key, entry)] := by
    rw [setItem, hnone]
  have hfound : (cache ++ [(key, entry)]).lookup key = some entry := by
    refine lookup_eq_some_iff.mpr ⟨cache, [], rfl, lookup_eq_none_iff.mp hnone⟩
  rw [hset, moveToEnd, hfound]
  rw [popKey, filter_append, filter_cons_of_neg (by simp), filter_nil, append_nil]
  exact congrArg (· ++ _) (popKey_of_lookup_eq_none hnone)

/-- A new entry is the most recently used one. -/
theorem Represents.put (h : Represents c s) (hnew : key ∉ s.held) (entry : CacheEntry V) :
    Represents { c with
        cache := moveToEnd (setItem c.cache key entry) key
        currentBytes := c.currentBytes + entry.sizeBytes } (s.put key entry) := by
  have hnone : c.cache.lookup key = none := by
    rw [h.lookup, Recency.value_eq_none]
    exact hnew
  have hcache := moveToEnd_setItem hnone entry
  refine ⟨?_, fun p hp => ?_, ?_⟩
  · show (s.put key entry).Lists ((moveToEnd (setItem c.cache key entry) key).map Prod.fst)
    rw [hcache, map_append]
    exact h.keys.put (fun hmem => hnew ((h.keys.mem key).mp hmem)) entry
  · show Function.update s.value key (some entry) p.1 = some p.2
    have hmem : p ∈ c.cache ++ [(key, entry)] := hcache ▸ hp
    rcases mem_append.mp hmem with hold | hlast
    · have hne : p.1 ≠ key := by
        rintro rfl
        exact hnew ((h.keys.mem p.1).mp (mem_map_of_mem hold))
      rw [Function.update_of_ne hne, h.values p hold]
    · obtain rfl := mem_singleton.mp hlast
      exact Function.update_self ..
  · show c.currentBytes + entry.sizeBytes = totalBytes (moveToEnd (setItem c.cache key entry) key)
    rw [hcache, h.bytes]
    simp [totalBytes]

/-- The limits for entries at the end of the cache are those of the reference for their keys. -/
theorem Represents.within_iff (h : Represents c s) (n : ℕ) :
    Within cfg (c.cache.drop n) ↔ Fits cfg s ((c.cache.map Prod.fst).drop n).toFinset := by
  have hnodup : ((c.cache.map Prod.fst).drop n).Nodup := h.keys.nodup.sublist (drop_sublist ..)
  have hcard : ((c.cache.map Prod.fst).drop n).toFinset.card = (c.cache.drop n).length := by
    rw [toFinset_card_of_nodup hnodup, ← map_drop, length_map]
  have hsum : ∑ k ∈ ((c.cache.map Prod.fst).drop n).toFinset, sizeOfKey s k =
      totalBytes (c.cache.drop n) := by
    rw [sum_toFinset _ hnodup, ← map_drop, map_map, totalBytes]
    refine congrArg List.sum (map_congr_left fun p hp => ?_)
    simp [sizeOfKey, h.values p (mem_of_mem_drop hp)]
  rw [Within, Fits, hcard, hsum]

/-- The loops evict from the reference what they take from the cache. -/
theorem Represents.evict (h : Represents c s) (cfg : CacheConfig V) :
    ∃ t, s.Evicts (Fits cfg s) t ∧ Represents (c.evictOverBudget cfg) t ∧
      Within cfg (c.evictOverBudget cfg).cache := by
  obtain ⟨n, hcache, hbytes, hwithin, hleast⟩ := evictOverBudget_spec cfg c h.bytes
  have hevicts := h.keys.evicts ((h.within_iff n).mp hwithin) fun m hm hfits =>
    hleast m hm ((h.within_iff m).mpr hfits)
  refine ⟨_, hevicts, ⟨?_, fun p hp => ?_, ?_⟩, by rwa [hcache]⟩
  · rw [hcache, map_drop]
    exact h.keys.restrict (drop_sublist ..)
  · rw [hcache] at hp
    have hmem : p.1 ∈ ((c.cache.map Prod.fst).drop n).toFinset := by
      rw [mem_toFinset, ← map_drop]
      exact mem_map_of_mem hp
    show (if p.1 ∈ _ then s.value p.1 else none) = some p.2
    rw [if_pos hmem, h.values p (mem_of_mem_drop hp)]
  · rw [hbytes, hcache]

variable {rest : List (K × CacheEntry V)}

omit [DecidableEq K] in
/-- Fewer entries have fewer bytes. -/
theorem totalBytes_le_of_sublist (hsub : rest.Sublist cache) :
    totalBytes rest ≤ totalBytes cache := by
  induction hsub with
  | slnil => exact Nat.le_refl _
  | cons p _ ih =>
    simp only [totalBytes, map_cons, sum_cons] at ih ⊢
    omega
  | cons_cons p _ ih =>
    simp only [totalBytes, map_cons, sum_cons] at ih ⊢
    omega

omit [DecidableEq K] in
/-- A cache that is within its limits stays within them when entries go. -/
theorem Within.sublist (h : Within cfg cache) (hsub : rest.Sublist cache) : Within cfg rest :=
  ⟨fun n hn => hsub.length_le.trans (h.1 n hn),
    fun n hn => (totalBytes_le_of_sublist hsub).trans (h.2 n hn)⟩

/-- A cache without an entry is within the limits. -/
theorem Within.drop (h : Within cfg c.cache) (key : K) : Within cfg (c.drop key).cache := by
  unfold StageOutputCache.drop
  split
  · exact h
  · exact h.sublist filter_sublist

/-- A read changes the order only. -/
theorem Within.get (hs : Represents c s) (h : Within cfg c.cache)
    (hfound : c.cache.lookup key = some entry) : Within cfg (moveToEnd c.cache key) := by
  have hbytes := (hs.touch hfound).bytes
  have hlists := (hs.touch hfound).keys
  have htotal : totalBytes (moveToEnd c.cache key) = totalBytes c.cache :=
    Int.ofNat_inj.mp (hbytes.symm.trans hs.bytes)
  have hlength : (moveToEnd c.cache key).length = c.cache.length := by
    have hcard := congrArg Finset.card hlists.toFinset_eq
    have hcard' := congrArg Finset.card hs.keys.toFinset_eq
    rw [toFinset_card_of_nodup hlists.nodup, length_map] at hcard
    rw [toFinset_card_of_nodup hs.keys.nodup, length_map] at hcard'
    exact hcard.trans hcard'.symm
  exact ⟨fun n hn => hlength ▸ h.1 n hn, fun n hn => htotal ▸ h.2 n hn⟩

theorem Represents.removeAll (h : Represents c s) (hwithin : Within cfg c.cache) (keys : List K) :
    Represents (c.removeAll keys).1 (keys.foldl Recency.erase s) ∧
      Within cfg (c.removeAll keys).1.cache ∧
      (c.removeAll keys).2 + (keys.foldl Recency.erase s).held.card = s.held.card := by
  induction keys generalizing c s with
  | nil => exact ⟨h, hwithin, Nat.zero_add _⟩
  | cons key rest ih =>
    obtain ⟨hrest, hwithin', hcount⟩ := ih (h.drop key) (hwithin.drop key)
    refine ⟨hrest, hwithin', ?_⟩
    have hheld : (s.erase key).held = s.held.erase key := by
      show s.held ∩ s.held.erase key = _
      exact Finset.inter_eq_right.mpr (Finset.erase_subset key s.held)
    simp only [StageOutputCache.removeAll, foldl_cons]
    by_cases hkey : key ∈ s.held
    · obtain ⟨entry, hfound⟩ := (h.found key).mpr hkey
      have hcard := Finset.card_erase_add_one hkey
      rw [hheld] at hcount
      rw [hfound, Option.isSome_some, if_pos rfl]
      omega
    · have hnone : c.cache.lookup key = none := by
        rw [h.lookup, Recency.value_eq_none]
        exact hkey
      rw [hheld, Finset.erase_eq_of_notMem hkey] at hcount
      rw [hnone]
      simpa using hcount

theorem Represents.call (h : Represents c s) (hwithin : Within cfg c.cache)
    (next : CacheCall K V) :
    ∃ t, Answers cfg s next (c.call cfg next).2 t ∧ Represents (c.call cfg next).1 t ∧
      Within cfg (c.call cfg next).1.cache := by
  cases next with
  | get key =>
    cases key with
    | none => exact ⟨s, ⟨rfl, rfl⟩, h, hwithin⟩
    | some key =>
      simp only [StageOutputCache.call, StageOutputCache.get, Answers, ← h.lookup]
      cases hfound : c.cache.lookup key with
      | none =>
        have hheld : key ∉ s.held := by
          rw [← h.found key, hfound]
          simp
        exact ⟨s, ⟨rfl, (if_neg hheld).symm⟩, h, hwithin⟩
      | some entry =>
        have hheld : key ∈ s.held := (h.found key).mp ⟨entry, hfound⟩
        exact ⟨s.touch key, ⟨rfl, (if_pos hheld).symm⟩, h.touch hfound, hwithin.get h hfound⟩
  | put key data =>
    cases key with
    | none => exact ⟨s, ⟨rfl, rfl⟩, h, hwithin⟩
    | some key =>
      have hdrop := h.drop key
      have hany : (cfg.maxBytes.any fun n => n < cfg.sizeFn data) = true ↔
          ∃ n ∈ cfg.maxBytes, n < cfg.sizeFn data := by
        simp [Option.any_eq_true]
      by_cases hover : ∃ n ∈ cfg.maxBytes, n < cfg.sizeFn data
      · have hput : c.put cfg (some key) data = c.drop key := if_pos (hany.mpr hover)
        refine ⟨s.erase key, ⟨rfl, ?_⟩, ?_, ?_⟩
        · rw [if_pos hover]
        · simpa only [StageOutputCache.call, hput] using hdrop
        · simpa only [StageOutputCache.call, hput] using hwithin.drop key
      · have hnew : key ∉ (s.erase key).held := fun hmem =>
          Finset.notMem_erase key s.held (Finset.mem_inter.mp hmem).2
        obtain ⟨t, hevicts, hrep, hfits⟩ :=
          (hdrop.put hnew ⟨cfg.detachValue data, cfg.sizeFn data⟩).evict cfg
        refine ⟨t, ⟨rfl, ?_⟩, ?_, ?_⟩
        · rw [if_neg hover]
          exact hevicts
        · simp only [StageOutputCache.call, StageOutputCache.put]
          rw [if_neg fun hcond => hover (hany.mp hcond)]
          exact hrep
        · simp only [StageOutputCache.call, StageOutputCache.put]
          rw [if_neg fun hcond => hover (hany.mp hcond)]
          exact hfits
  | clear =>
    refine ⟨.empty, ⟨rfl, rfl⟩, ⟨Recency.lists_empty, fun _ hp => absurd hp not_mem_nil, rfl⟩,
      hwithin.sublist (nil_sublist _)⟩
  | removeIfSame key data =>
    cases key with
    | none => exact ⟨s, ⟨rfl, rfl⟩, h, hwithin⟩
    | some key =>
      simp only [StageOutputCache.call, StageOutputCache.removeIfSame, Answers, ← h.lookup]
      cases hfound : c.cache.lookup key with
      | none => exact ⟨s, by simp, h, hwithin⟩
      | some entry =>
        by_cases hsame : cfg.same entry.data data = true
        · exact ⟨s.erase key, by simp [hsame], by simpa [hsame] using h.drop key,
            by simpa [hsame] using hwithin.drop key⟩
        · exact ⟨s, by simp [hsame], by simpa [hsame] using h, by simpa [hsame] using hwithin⟩
  | removeIf keys =>
    obtain ⟨hrep, hwithin', hcount⟩ := h.removeAll hwithin keys
    refine ⟨_, ⟨rfl, congrArg CacheReturn.count ?_⟩, hrep, hwithin'⟩
    omega

/-- What the reference holds under a key is what was last put under it. -/
theorem Answers.value {next : CacheCall K V} {out : CacheReturn V}
    {t : Recency K (CacheEntry V)} (h : Answers cfg s next out t) {last : K → Option V}
    (hlast : ∀ k entry, s.value k = some entry →
      ∃ v, last k = some v ∧ entry = ⟨cfg.detachValue v, cfg.sizeFn v⟩) (k : K)
    (entry : CacheEntry V) (hvalue : t.value k = some entry) :
    ∃ v, lastPut k [next] (last k) = some v ∧ entry = ⟨cfg.detachValue v, cfg.sizeFn v⟩ := by
  have hrestrict (u : Recency K (CacheEntry V)) (R : Finset K)
      (h : (u.restrict R).value k = some entry) : k ∈ R ∧ u.value k = some entry :=
    Option.ite_none_right_eq_some.mp h
  cases next with
  | get key =>
    cases key with
    | none => exact hlast k entry (h.2 ▸ hvalue)
    | some key =>
      obtain ⟨-, rfl⟩ := h
      split at hvalue <;> exact hlast k entry hvalue
  | put key data =>
    cases key with
    | none => exact hlast k entry (h.2 ▸ hvalue)
    | some key =>
      obtain ⟨-, h⟩ := h
      simp only [lastPut]
      split at h
      · subst h
        obtain ⟨hmem, hold⟩ := hrestrict _ _ hvalue
        rw [if_neg fun heq => (Finset.mem_erase.mp hmem).1 heq.symm]
        exact hlast k entry hold
      · obtain ⟨R, -, -, -, rfl⟩ := h
        obtain ⟨-, hput⟩ := hrestrict _ _ hvalue
        simp only [Recency.put] at hput
        by_cases heq : key = k
        · subst heq
          rw [Function.update_self] at hput
          exact ⟨data, if_pos rfl, (Option.some.inj hput).symm⟩
        · rw [Function.update_of_ne (Ne.symm heq)] at hput
          rw [if_neg heq]
          exact hlast k entry (hrestrict _ _ hput).2
  | clear =>
    obtain ⟨-, rfl⟩ := h
    cases hvalue
  | removeIfSame key data =>
    cases key with
    | none => exact hlast k entry (h.2 ▸ hvalue)
    | some key =>
      simp only [Answers] at h
      split at h
      · obtain ⟨-, rfl⟩ := h
        exact hlast k entry (hrestrict _ _ hvalue).2
      · exact hlast k entry (h.2 ▸ hvalue)
  | removeIf keys =>
    obtain ⟨rfl, -⟩ := h
    suffices hold : ∀ u : Recency K (CacheEntry V),
        (keys.foldl Recency.erase u).value k = some entry → u.value k = some entry from
      hlast k entry (hold s hvalue)
    clear hvalue
    induction keys with
    | nil => exact fun u hu => hu
    | cons key rest ih => exact fun u hu => (hrestrict _ _ (ih _ hu)).2

theorem lastPut_cons (k : K) (next : CacheCall K V) (rest : List (CacheCall K V))
    (last : Option V) : lastPut k (next :: rest) last = lastPut k rest (lastPut k [next] last) := by
  cases next with
  | put key data => cases key <;> rfl
  | _ => rfl

/-- Calls one after the other answer as the reference does. -/
theorem Represents.calls (h : Represents c s) (hwithin : Within cfg c.cache)
    (last : K → Option V) (hlast : ∀ k entry, s.value k = some entry →
      ∃ v, last k = some v ∧ entry = ⟨cfg.detachValue v, cfg.sizeFn v⟩)
    (nexts : List (CacheCall K V)) :
    ∃ t, AnswersAll cfg s nexts (c.calls cfg nexts).2 t ∧ Represents (c.calls cfg nexts).1 t ∧
      Within cfg (c.calls cfg nexts).1.cache ∧
      ∀ k entry, t.value k = some entry →
        ∃ v, lastPut k nexts (last k) = some v ∧ entry = ⟨cfg.detachValue v, cfg.sizeFn v⟩ := by
  induction nexts generalizing c s last with
  | nil => exact ⟨s, ⟨rfl, rfl⟩, h, hwithin, hlast⟩
  | cons next rest ih =>
    obtain ⟨u, hanswers, hrep, hwithin'⟩ := h.call hwithin next
    obtain ⟨t, hrest, hrep', hwithin'', hlast'⟩ :=
      ih hrep hwithin' (fun k => lastPut k [next] (last k)) (hanswers.value hlast)
    refine ⟨t, ⟨_, _, u, hanswers, rfl, hrest⟩, hrep', hwithin'', fun k entry hvalue => ?_⟩
    rw [lastPut_cons]
    exact hlast' k entry hvalue

/-- Whatever is called, the cache answers as the reference does. It then has the entries of the
reference, each with the value last put under its key, its counter has the sum of their sizes, and
both limits hold. -/
theorem calls_refine (cfg : CacheConfig V) (nexts : List (CacheCall K V)) :
    ∃ s, AnswersAll cfg .empty nexts (StageOutputCache.init.calls cfg nexts).2 s ∧
      let c := (StageOutputCache.init.calls cfg nexts).1
      (∀ k, c.cache.lookup k = s.value k) ∧ s.Lists (c.cache.map Prod.fst) ∧
      (∀ k entry, s.value k = some entry → ∃ v, lastPut k nexts none = some v ∧
        entry = ⟨cfg.detachValue v, cfg.sizeFn v⟩) ∧
      c.currentBytes = totalBytes c.cache ∧
      (∀ n ∈ cfg.maxSize, c.cache.length ≤ n) ∧ ∀ n ∈ cfg.maxBytes, c.currentBytes ≤ n := by
  have hempty : Within cfg (StageOutputCache.init : StageOutputCache K V).cache :=
    ⟨fun n _ => Nat.zero_le n, fun n _ => Nat.zero_le n⟩
  obtain ⟨s, hanswers, hrep, hwithin, hlast⟩ := represents_init.calls hempty (fun _ => none)
    nofun nexts
  refine ⟨s, hanswers, hrep.lookup, hrep.keys, hlast, hrep.bytes, hwithin.1, fun n hn => ?_⟩
  rw [hrep.bytes]
  exact Int.ofNat_le.mpr (hwithin.2 n hn)

/-- Taking an entry out brings nothing in. -/
theorem drop_subset (c : StageOutputCache K V) (key : K) : (c.drop key).cache ⊆ c.cache := by
  unfold StageOutputCache.drop
  split
  · exact List.Subset.refl _
  · exact filter_subset_self _

/-- Moving an entry to the end brings nothing in. -/
theorem moveToEnd_subset (cache : List (K × CacheEntry V)) (key : K) :
    moveToEnd cache key ⊆ cache := by
  unfold moveToEnd
  split
  · exact List.Subset.refl _
  next entry hfound =>
    obtain ⟨before, after, hsplit, -⟩ := lookup_eq_some_iff.mp hfound
    have hmem : (key, entry) ∈ cache := by
      rw [hsplit]
      exact mem_append_right _ mem_cons_self
    exact append_subset.mpr ⟨filter_subset_self _, cons_subset.mpr ⟨hmem, nil_subset _⟩⟩

variable {p : K × CacheEntry V}

theorem mem_setItem (hp : p ∈ setItem cache key entry) :
    p ∈ cache ∨ p = (key, entry) := by
  unfold setItem at hp
  split at hp
  · rcases mem_append.mp hp with hold | hnew
    · exact .inl hold
    · exact .inr (mem_singleton.mp hnew)
  · obtain ⟨q, hq, rfl⟩ := mem_map.mp hp
    split
    · exact .inr rfl
    · exact .inl hq

/-- `get` brings nothing in. -/
theorem get_subset (c : StageOutputCache K V) (key : K) :
    (c.get (some key)).1.cache ⊆ c.cache := by
  simp only [StageOutputCache.get]
  split
  · exact List.Subset.refl _
  · exact moveToEnd_subset c.cache key

theorem mem_put {data : V} (hp : p ∈ (c.put cfg (some key) data).cache) :
    p ∈ c.cache ∨ p.1 = key ∧ p.2.data = cfg.detachValue data := by
  simp only [StageOutputCache.put] at hp
  split at hp
  · exact .inl (drop_subset c key hp)
  · rcases mem_setItem (moveToEnd_subset _ _ (evictOverBudget_subset _ _ hp)) with hold | rfl
    · exact .inl (drop_subset c key hold)
    · exact .inr ⟨rfl, rfl⟩

end Omni.Cache
