import Omni.Comm.StageIo
import Mathlib.Data.List.Nodup

/-!
# Positions of tensors

`extract_tensors` keeps the last tensor at each path, and `restore_tensors` puts it at every
position with that path.
-/

namespace Omni.Comm

open List

variable {D E L R : Type}

/-- The last entry for a key. -/
def lastAt (entries : List (String × Tensor D)) (path : String) : Option (Tensor D) :=
  entries.reverse.lookup path

theorem lookup_cons_eq (entry : String × Tensor D) (entries : List (String × Tensor D))
    (path : String) : (entry :: entries).lookup path =
      if path = entry.1 then some entry.2 else entries.lookup path := by
  rw [lookup_cons]
  by_cases hpath : path = entry.1
  · rw [if_pos hpath, beq_iff_eq.mpr hpath]
  · rw [if_neg hpath, beq_eq_false_iff_ne.mpr hpath]

theorem lastAt_cons (entry : String × Tensor D) (entries : List (String × Tensor D))
    (path : String) : lastAt (entry :: entries) path =
      (lastAt entries path).or (if path = entry.1 then some entry.2 else none) := by
  rw [lastAt, reverse_cons, lookup_append, lookup_cons_eq, lookup_nil, lastAt]

theorem lastAt_append (first second : List (String × Tensor D)) (path : String) :
    lastAt (first ++ second) path = (lastAt second path).or (lastAt first path) := by
  simp [lastAt, lookup_append]

theorem lookup_replace (entries : List (String × Tensor D)) (key path : String)
    (tensor : Tensor D) :
    (entries.map fun entry => if entry.1 = key then (key, tensor) else entry).lookup path =
      if path = key then (if key ∈ entries.map Prod.fst then some tensor else none)
      else entries.lookup path := by
  induction entries with
  | nil => simp
  | cons entry entries ih =>
    rw [map_cons, lookup_cons_eq, ih, lookup_cons_eq]
    by_cases hentry : entry.1 = key
    · by_cases hpath : path = key
      · simp [hentry, hpath]
      · simp [hentry, hpath]
    · by_cases hpath : path = key
      · subst hpath
        have hne : ¬path = entry.1 := fun heq => hentry heq.symm
        have hmem : path ∈ (entry :: entries).map Prod.fst ↔ path ∈ entries.map Prod.fst := by
          rw [map_cons, mem_cons, or_iff_right hne]
        simp only [hentry, if_false, hne, if_true, hmem]
      · simp [hentry, hpath]

theorem lookup_assign (tensors : List (String × Tensor D)) (key path : String)
    (tensor : Tensor D) : (assign tensors key tensor).lookup path =
      if path = key then some tensor else tensors.lookup path := by
  unfold assign
  split
  next hmem => rw [lookup_replace, if_pos hmem]
  next hmem =>
    rw [lookup_append, lookup_cons_eq, lookup_nil]
    by_cases hpath : path = key
    · subst hpath
      have hnone : tensors.lookup path = none := by
        rw [lookup_eq_none_iff]
        intro entry hentry
        have hne : path ≠ entry.1 := fun heq => hmem (heq ▸ mem_map_of_mem hentry)
        simpa using hne
      simp [hnone]
    · simp [hpath]

theorem lastAt_assign (tensors : List (String × Tensor D)) (key path : String)
    (tensor : Tensor D) : lastAt (assign tensors key tensor) path =
      if path = key then some tensor else lastAt tensors path := by
  unfold assign
  split
  next hmem =>
    have hmem' : key ∈ tensors.reverse.map Prod.fst := by simpa using hmem
    rw [lastAt, ← map_reverse, lookup_replace, if_pos hmem', lastAt]
  · rw [lastAt_append, lastAt_cons]
    by_cases hpath : path = key
    · simp [hpath, lastAt]
    · simp [hpath, lastAt]

theorem lastAt_update (tensors childTensors : List (String × Tensor D)) (path : String) :
    lastAt (updateTensors tensors childTensors) path =
      (lastAt childTensors path).or (lastAt tensors path) := by
  unfold updateTensors
  induction childTensors generalizing tensors with
  | nil => simp [lastAt]
  | cons entry childTensors ih =>
    rw [foldl_cons, ih, lastAt_assign, lastAt_cons, Option.or_assoc]
    by_cases hpath : path = entry.1
    · simp [hpath]
    · simp [hpath]

theorem nodup_assign {tensors : List (String × Tensor D)} (h : (tensors.map Prod.fst).Nodup)
    (key : String) (tensor : Tensor D) : ((assign tensors key tensor).map Prod.fst).Nodup := by
  unfold assign
  split
  · have hkeys : (tensors.map fun entry => if entry.1 = key then (key, tensor) else entry).map
        Prod.fst = tensors.map Prod.fst := by
      rw [map_map]
      refine map_congr_left fun entry _ => ?_
      by_cases hentry : entry.1 = key
      · simp [hentry]
      · simp [hentry]
    rwa [hkeys]
  next hmem =>
    rw [map_append]
    exact nodup_append.mpr ⟨h, nodup_singleton _, by
      rintro path hpath _ hkey rfl
      obtain rfl : path = key := by simpa using hkey
      exact hmem hpath⟩

theorem nodup_update {tensors : List (String × Tensor D)} (h : (tensors.map Prod.fst).Nodup)
    (childTensors : List (String × Tensor D)) :
    ((updateTensors tensors childTensors).map Prod.fst).Nodup := by
  induction childTensors generalizing tensors with
  | nil => exact h
  | cons entry childTensors ih => exact ih (nodup_assign h entry.1 entry.2)

/-- An entry is the last one for its key when keys are apart. -/
theorem mem_iff_lastAt {tensors : List (String × Tensor D)} (h : (tensors.map Prod.fst).Nodup)
    (path : String) (tensor : Tensor D) :
    (path, tensor) ∈ tensors ↔ lastAt tensors path = some tensor := by
  induction tensors with
  | nil => simp [lastAt]
  | cons entry tensors ih =>
    obtain ⟨hnot, hrest⟩ := nodup_cons.mp h
    rw [lastAt_cons, mem_cons, ih hrest]
    by_cases hpath : path = entry.1
    · subst hpath
      have hnone : lastAt tensors entry.1 = none := by
        rw [lastAt, lookup_eq_none_iff]
        intro other hother
        have hne : entry.1 ≠ other.1 := fun heq =>
          hnot (heq ▸ mem_map_of_mem (mem_reverse.mp hother))
        simpa using hne
      simp [hnone, Prod.ext_iff, eq_comm]
    · simp [hpath, Prod.ext_iff]

mutual

/-- The tensors of a tree in their order, each with the path that leads to it. -/
def positions : Tree D L → String → List (String × Tensor D)
  | .tensor value, path => [(path, value)]
  | .dict entries, path => positionsEntries entries path
  | .list items, path => positionsItems items path 0
  | .tuple items, path => positionsItems items path 0
  | .str _, _ => []
  | .int _, _ => []
  | .other _, _ => []

/-- The tensors of a dictionary. -/
def positionsEntries : List (String × Tree D L) → String → List (String × Tensor D)
  | [], _ => []
  | (key, value) :: rest, path =>
    positions value (if path = "" then key else path ++ "." ++ key) ++ positionsEntries rest path

/-- The tensors of a list or a tuple, from index `idx` on. -/
def positionsItems : List (Tree D L) → String → ℕ → List (String × Tensor D)
  | [], _, _ => []
  | value :: rest, path, idx =>
    positions value (path ++ "[" ++ toString idx ++ "]") ++ positionsItems rest path (idx + 1)

end

mutual

theorem lastAt_extract (tree : Tree D L) (path p : String) :
    lastAt (extractTensors tree path).2 p = lastAt (positions tree path) p := by
  match tree with
  | .tensor value => rfl
  | .dict entries =>
    simpa [extractTensors, positions, lastAt] using lastAt_extractEntries entries path [] p
  | .list items =>
    simpa [extractTensors, positions, lastAt] using lastAt_extractItems items path 0 [] p
  | .tuple items =>
    simpa [extractTensors, positions, lastAt] using lastAt_extractItems items path 0 [] p
  | .str _ => rfl
  | .int _ => rfl
  | .other _ => rfl

theorem lastAt_extractEntries (entries : List (String × Tree D L)) (path : String)
    (tensors : List (String × Tensor D)) (p : String) :
    lastAt (extractEntries entries path tensors).2 p =
      (lastAt (positionsEntries entries path) p).or (lastAt tensors p) := by
  match entries with
  | [] => simp [extractEntries, positionsEntries, lastAt]
  | (key, value) :: rest =>
    simp only [extractEntries, positionsEntries, lastAt_append]
    rw [lastAt_extractEntries rest path, lastAt_update, lastAt_extract value, Option.or_assoc]

theorem lastAt_extractItems (items : List (Tree D L)) (path : String) (idx : ℕ)
    (tensors : List (String × Tensor D)) (p : String) :
    lastAt (extractItems items path idx tensors).2 p =
      (lastAt (positionsItems items path idx) p).or (lastAt tensors p) := by
  match items with
  | [] => simp [extractItems, positionsItems, lastAt]
  | value :: rest =>
    simp only [extractItems, positionsItems, lastAt_append]
    rw [lastAt_extractItems rest path, lastAt_update, lastAt_extract value, Option.or_assoc]

end

mutual

/-- The keys of the extracted dictionary are apart. -/
theorem nodup_extract (tree : Tree D L) (path : String) :
    ((extractTensors tree path).2.map Prod.fst).Nodup := by
  match tree with
  | .tensor value => simp [extractTensors]
  | .dict entries => exact nodup_extractEntries entries path nodup_nil
  | .list items => exact nodup_extractItems items path 0 nodup_nil
  | .tuple items => exact nodup_extractItems items path 0 nodup_nil
  | .str _ => exact nodup_nil
  | .int _ => exact nodup_nil
  | .other _ => exact nodup_nil

theorem nodup_extractEntries (entries : List (String × Tree D L)) (path : String)
    {tensors : List (String × Tensor D)} (h : (tensors.map Prod.fst).Nodup) :
    ((extractEntries entries path tensors).2.map Prod.fst).Nodup := by
  match entries with
  | [] => exact h
  | (key, value) :: rest => exact nodup_extractEntries rest path (nodup_update h _)

theorem nodup_extractItems (items : List (Tree D L)) (path : String) (idx : ℕ)
    {tensors : List (String × Tensor D)} (h : (tensors.map Prod.fst).Nodup) :
    ((extractItems items path idx tensors).2.map Prod.fst).Nodup := by
  match items with
  | [] => exact h
  | value :: rest => exact nodup_extractItems rest path (idx + 1) (nodup_update h _)

end

mutual

/-- Every tensor replaced by another one, which may depend on the path. -/
def replaceTensors {D' : Type} (f : String → Tensor D → Tensor D') :
    Tree D L → String → Tree D' L
  | .tensor value, path => .tensor (f path value)
  | .dict entries, path => .dict (replaceEntries f entries path)
  | .list items, path => .list (replaceItems f items path 0)
  | .tuple items, path => .tuple (replaceItems f items path 0)
  | .str value, _ => .str value
  | .int value, _ => .int value
  | .other value, _ => .other value

/-- The values of a dictionary. -/
def replaceEntries {D' : Type} (f : String → Tensor D → Tensor D') :
    List (String × Tree D L) → String → List (String × Tree D' L)
  | [], _ => []
  | (key, value) :: rest, path =>
    (key, replaceTensors f value (if path = "" then key else path ++ "." ++ key)) ::
      replaceEntries f rest path

/-- The items of a list or a tuple, from index `idx` on. -/
def replaceItems {D' : Type} (f : String → Tensor D → Tensor D') :
    List (Tree D L) → String → ℕ → List (Tree D' L)
  | [], _, _ => []
  | value :: rest, path, idx =>
    replaceTensors f value (path ++ "[" ++ toString idx ++ "]") ::
      replaceItems f rest path (idx + 1)

end

mutual

/-- No dictionary uses the reserved key. -/
def NoReserved : Tree D L → Prop
  | .dict entries => NoReservedEntries entries
  | .list items => NoReservedItems items
  | .tuple items => NoReservedItems items
  | .tensor _ => True
  | .str _ => True
  | .int _ => True
  | .other _ => True

/-- The same for the entries of a dictionary. -/
def NoReservedEntries : List (String × Tree D L) → Prop
  | [] => True
  | (key, value) :: rest =>
    key ≠ "_tensor_placeholder" ∧ NoReserved value ∧ NoReservedEntries rest

/-- The same for the items of a list or a tuple. -/
def NoReservedItems : List (Tree D L) → Prop
  | [] => True
  | value :: rest => NoReserved value ∧ NoReservedItems rest

end

theorem keys_extractEntries (entries : List (String × Tree D L)) (path : String)
    (tensors : List (String × Tensor D)) :
    (extractEntries entries path tensors).1.map Prod.fst = entries.map Prod.fst := by
  induction entries generalizing tensors with
  | nil => rfl
  | cons entry entries ih => exact congrArg (entry.1 :: ·) (ih _)

theorem not_mem_keys_of_noReserved {entries : List (String × Tree D L)}
    (h : NoReservedEntries entries) : "_tensor_placeholder" ∉ entries.map Prod.fst := by
  induction entries with
  | nil => simp
  | cons entry entries ih =>
    obtain ⟨hkey, -, hrest⟩ := h
    rw [map_cons, mem_cons]
    rintro (heq | hmem)
    · exact hkey heq.symm
    · exact ih hrest hmem

section Restore

variable {tensors : List (String × Tensor D)} {E : String → Tensor D}

mutual

theorem restore_extract (tree : Tree D L) (path : String) (hreserved : NoReserved tree)
    (hfound : ∀ entry ∈ positions tree path, tensors.lookup entry.1 = some (E entry.1)) :
    restoreTensors tensors (extractTensors tree path).1 =
      .ok (replaceTensors (fun path _ => E path) tree path) := by
  match tree with
  | .tensor value =>
    have hlookup := hfound (path, value) (mem_singleton_self _)
    simp [extractTensors, placeholder, restoreTensors, replaceTensors, hlookup]
  | .dict entries =>
    have hkeys : (extractEntries entries path []).1.lookup "_tensor_placeholder" = none := by
      have hmem := not_mem_keys_of_noReserved hreserved
      rw [← keys_extractEntries entries path []] at hmem
      rw [lookup_eq_none_iff]
      intro entry hentry
      have hne : "_tensor_placeholder" ≠ entry.1 := fun heq =>
        hmem (heq ▸ mem_map_of_mem hentry)
      simpa using hne
    have hentries := restore_extractEntries entries path [] hreserved hfound
    simp only [extractTensors, restoreTensors, hkeys, hentries, replaceTensors]
    rfl
  | .list items =>
    have hitems := restore_extractItems items path 0 [] hreserved hfound
    simp only [extractTensors, restoreTensors, hitems, replaceTensors]
    rfl
  | .tuple items =>
    have hitems := restore_extractItems items path 0 [] hreserved hfound
    simp only [extractTensors, restoreTensors, hitems, replaceTensors]
    rfl
  | .str _ => simp [extractTensors, restoreTensors, replaceTensors]
  | .int _ => simp [extractTensors, restoreTensors, replaceTensors]
  | .other _ => simp [extractTensors, restoreTensors, replaceTensors]

theorem restore_extractEntries (entries : List (String × Tree D L)) (path : String)
    (before : List (String × Tensor D)) (hreserved : NoReservedEntries entries)
    (hfound : ∀ entry ∈ positionsEntries entries path, tensors.lookup entry.1 = some (E entry.1)) :
    restoreEntries tensors (extractEntries entries path before).1 =
      .ok (replaceEntries (fun path _ => E path) entries path) := by
  match entries with
  | [] => rfl
  | (key, value) :: rest =>
    obtain ⟨-, hvalue, hrest⟩ := hreserved
    have hhead := restore_extract value (if path = "" then key else path ++ "." ++ key) hvalue
      fun entry hentry => hfound entry (mem_append_left _ hentry)
    have htail := restore_extractEntries rest path (updateTensors before (extractTensors value
      (if path = "" then key else path ++ "." ++ key)).2) hrest
      fun entry hentry => hfound entry (mem_append_right _ hentry)
    simp only [extractEntries, restoreEntries, hhead, htail, replaceEntries]
    rfl

theorem restore_extractItems (items : List (Tree D L)) (path : String) (idx : ℕ)
    (before : List (String × Tensor D)) (hreserved : NoReservedItems items)
    (hfound : ∀ entry ∈ positionsItems items path idx, tensors.lookup entry.1 = some (E entry.1)) :
    restoreItems tensors (extractItems items path idx before).1 =
      .ok (replaceItems (fun path _ => E path) items path idx) := by
  match items with
  | [] => rfl
  | value :: rest =>
    obtain ⟨hvalue, hrest⟩ := hreserved
    have hhead := restore_extract value (path ++ "[" ++ toString idx ++ "]") hvalue
      fun entry hentry => hfound entry (mem_append_left _ hentry)
    have htail := restore_extractItems rest path (idx + 1) (updateTensors before
      (extractTensors value (path ++ "[" ++ toString idx ++ "]")).2) hrest
      fun entry hentry => hfound entry (mem_append_right _ hentry)
    simp only [extractItems, restoreItems, hhead, htail, replaceItems]
    rfl

end

end Restore

section Replace

variable {D' D'' : Type}

mutual

theorem replace_replace (f : String → Tensor D' → Tensor D'') (g : String → Tensor D → Tensor D')
    (tree : Tree D L) (path : String) :
    replaceTensors f (replaceTensors g tree path) path =
      replaceTensors (fun path value => f path (g path value)) tree path := by
  match tree with
  | .tensor _ => rfl
  | .dict entries => simp only [replaceTensors, replaceEntries_replace]
  | .list items => simp only [replaceTensors, replaceItems_replace]
  | .tuple items => simp only [replaceTensors, replaceItems_replace]
  | .str _ => rfl
  | .int _ => rfl
  | .other _ => rfl

theorem replaceEntries_replace (f : String → Tensor D' → Tensor D'')
    (g : String → Tensor D → Tensor D') (entries : List (String × Tree D L)) (path : String) :
    replaceEntries f (replaceEntries g entries path) path =
      replaceEntries (fun path value => f path (g path value)) entries path := by
  match entries with
  | [] => rfl
  | (key, value) :: rest =>
    simp only [replaceEntries, replace_replace, replaceEntries_replace]

theorem replaceItems_replace (f : String → Tensor D' → Tensor D'')
    (g : String → Tensor D → Tensor D') (items : List (Tree D L)) (path : String) (idx : ℕ) :
    replaceItems f (replaceItems g items path idx) path idx =
      replaceItems (fun path value => f path (g path value)) items path idx := by
  match items with
  | [] => rfl
  | value :: rest => simp only [replaceItems, replace_replace, replaceItems_replace]

end

mutual

/-- Two replacements give the same tree when they agree at every position. -/
theorem replace_eq_iff (f g : String → Tensor D → Tensor D') (tree : Tree D L) (path : String) :
    replaceTensors f tree path = replaceTensors g tree path ↔
      ∀ entry ∈ positions tree path, f entry.1 entry.2 = g entry.1 entry.2 := by
  match tree with
  | .tensor _ => simp [replaceTensors, positions]
  | .dict entries => simp [replaceTensors, positions, replaceEntries_eq_iff f g entries path]
  | .list items => simp [replaceTensors, positions, replaceItems_eq_iff f g items path 0]
  | .tuple items => simp [replaceTensors, positions, replaceItems_eq_iff f g items path 0]
  | .str _ => simp [replaceTensors, positions]
  | .int _ => simp [replaceTensors, positions]
  | .other _ => simp [replaceTensors, positions]

theorem replaceEntries_eq_iff (f g : String → Tensor D → Tensor D')
    (entries : List (String × Tree D L)) (path : String) :
    replaceEntries f entries path = replaceEntries g entries path ↔
      ∀ entry ∈ positionsEntries entries path, f entry.1 entry.2 = g entry.1 entry.2 := by
  match entries with
  | [] => simp [replaceEntries, positionsEntries]
  | (key, value) :: rest =>
    simp only [replaceEntries, positionsEntries, List.cons.injEq, Prod.mk.injEq, true_and,
      replace_eq_iff f g value, replaceEntries_eq_iff f g rest path, forall_mem_append]

theorem replaceItems_eq_iff (f g : String → Tensor D → Tensor D') (items : List (Tree D L))
    (path : String) (idx : ℕ) :
    replaceItems f items path idx = replaceItems g items path idx ↔
      ∀ entry ∈ positionsItems items path idx, f entry.1 entry.2 = g entry.1 entry.2 := by
  match items with
  | [] => simp [replaceItems, positionsItems]
  | value :: rest =>
    simp only [replaceItems, positionsItems, List.cons.injEq, replace_eq_iff f g value,
      replaceItems_eq_iff f g rest path (idx + 1), forall_mem_append]

end

end Replace

end Omni.Comm
