import Mathlib.Algebra.GroupWithZero.Nat
import Mathlib.Data.List.Basic
import Mathlib.Data.List.Nodup
import Mathlib.Data.List.Perm.Basic
import Mathlib.Data.Nat.Notation

/-!
# Stale rows of a batch

`_drop_stale_overrun` and `_free_overrun_step_slots` of `OmniScheduler`. The tensors of an extend
batch have a segment for each request; those of a decode batch have a row. Indices that are out of
range raise. The fields that an assertion excludes are left out.
-/

namespace Omni.Scheduler

open List

/-- `ScheduleBatch`, as far as `_drop_stale_overrun` cuts it. -/
structure ScheduleBatch (ρ : Type) where
  reqs : List ρ
  isExtend : Bool
  outCacheLoc : Option (List ℕ)
  inputIds : List ℕ
  extendLens : List ℕ
  extendNumTokens : ℕ
  prefixLens : List ℕ
  extendLogprobStartLens : List ℕ
  extendInputLogprobTokenIds : Option (List ℕ)
  returnLogprob : Bool
  decodingReqs : List ρ
  deriving DecidableEq

/-- The settings of the cache. -/
structure OverrunConfig where
  pageSize : ℕ
  disableRadixCache : Bool

/-- The batch, the result, which may be `None`, and the slots that are freed. -/
structure StaleDrop (ρ : Type) where
  batch : ScheduleBatch ρ
  result : Option (ScheduleBatch ρ)
  freed : List ℕ

variable {ρ α : Type} {start : ℕ} {keep : List ℕ}

/-- The entries at some indices. -/
def gather (entries : List α) (indices : List ℕ) : Option (List α) :=
  indices.mapM fun i => entries[i]?

/-- `starts` and `lp_starts`. -/
def segmentStarts (start : ℕ) : List ℕ → List ℕ
  | [] => []
  | len :: lens => start :: segmentStarts (start + len) lens

/-- The tokens of the segments of some rows. -/
def segmentTokens (lens rows : List ℕ) : List ℕ :=
  rows.flatMap fun i => List.range' ((segmentStarts 0 lens).getD i 0) (lens.getD i 0)

/-- The rows with a mark. -/
def markedRows (marks : List Bool) (mark : Bool) : List ℕ :=
  (List.range marks.length).filter fun i => marks[i]? = some mark

/-- `_free_overrun_step_slots`. -/
def freeOverrunStepSlots (cfg : OverrunConfig) (outCacheLoc : Option (List ℕ))
    (dropIndices : List ℕ) : Option (List ℕ) :=
  if dropIndices = [] then some []
  else if cfg.pageSize ≠ 1 ∨ cfg.disableRadixCache then some []
  else outCacheLoc.elim (some []) fun loc => gather loc dropIndices

/-- `lp_lens`. -/
def ScheduleBatch.logprobLens (b : ScheduleBatch ρ) : List ℕ :=
  List.zipWith (· - ·) b.extendLens b.extendLogprobStartLens

section

variable (filterBatch : ScheduleBatch ρ → List ℕ → ScheduleBatch ρ) (cfg : OverrunConfig)

/-- The branch for extend batches. -/
def dropExtend (b : ScheduleBatch ρ) (drop : List Bool) :
    Option (ScheduleBatch ρ × List ℕ) := do
  let keep := markedRows drop false
  let keepTokens := segmentTokens b.extendLens keep
  let freed ← freeOverrunStepSlots cfg b.outCacheLoc
    (segmentTokens b.extendLens (markedRows drop true))
  let filtered := filterBatch b keep
  let inputIds ← gather b.inputIds keepTokens
  let outCacheLoc ← b.outCacheLoc.elim (some filtered.outCacheLoc) fun loc =>
    (gather loc keepTokens).map some
  let extendLens ← gather b.extendLens keep
  let prefixLens ← gather b.prefixLens keep
  let startLens ← gather b.extendLogprobStartLens keep
  let tokenIds ← b.extendInputLogprobTokenIds.elim (some filtered.extendInputLogprobTokenIds)
    fun ids =>
      if filtered.returnLogprob then
        (gather ids (segmentTokens b.logprobLens keep)).map some
      else some none
  return ({ filtered with
    inputIds := inputIds
    outCacheLoc := outCacheLoc
    extendLens := extendLens
    extendNumTokens := extendLens.sum
    prefixLens := prefixLens
    extendLogprobStartLens := startLens
    extendInputLogprobTokenIds := tokenIds }, freed)

/-- The branch for other batches. -/
def dropDecode (b : ScheduleBatch ρ) (drop : List Bool) : Option (ScheduleBatch ρ × List ℕ) := do
  let keep := markedRows drop false
  let freed ← freeOverrunStepSlots cfg b.outCacheLoc (markedRows drop true)
  let filtered := filterBatch b keep
  let outCacheLoc ← b.outCacheLoc.elim (some filtered.outCacheLoc) fun loc =>
    (gather loc keep).map some
  return ({ filtered with outCacheLoc := outCacheLoc }, freed)

/-- `_drop_stale_overrun`. A request is stale if it has finished or has been retracted. -/
def dropStaleRows [DecidableEq ρ] (stale : ρ → Bool) (b : ScheduleBatch ρ) :
    Option (StaleDrop ρ) :=
  let drop := b.reqs.map stale
  if b.reqs = [] ∨ true ∉ drop then some ⟨b, some b, []⟩
  else
    (if b.isExtend then dropExtend filterBatch cfg b drop
      else dropDecode filterBatch cfg b drop).map fun (b, freed) =>
      let b := { b with decodingReqs := b.decodingReqs.filter (· ∈ b.reqs) }
      ⟨b, if b.reqs = [] then none else some b, freed⟩

end

/-- The segment of a row. -/
def segment (lens : List ℕ) (entries : List α) (i : ℕ) : List α :=
  (entries.drop (lens.take i).sum).take (lens.getD i 0)

/-- The segments of some rows. -/
def segments (lens : List ℕ) (entries : List α) (rows : List ℕ) : List α :=
  rows.flatMap (segment lens entries)

/-- The lengths of the segments of the cache slots. -/
def ScheduleBatch.slotLens (b : ScheduleBatch ρ) : List ℕ :=
  if b.isExtend then b.extendLens else List.replicate b.reqs.length 1

/-- Every tensor of a batch has the segments of its requests, and no slot is used twice. -/
structure ScheduleBatch.WellFormed (b : ScheduleBatch ρ) : Prop where
  extendLens : b.isExtend = true → b.extendLens.length = b.reqs.length
  prefixLens : b.isExtend = true → b.prefixLens.length = b.reqs.length
  startLens : b.isExtend = true → b.extendLogprobStartLens.length = b.reqs.length
  start_le : ∀ i, b.extendLogprobStartLens.getD i 0 ≤ b.extendLens.getD i 0
  inputIds : b.isExtend = true → b.inputIds.length = b.extendLens.sum
  extendNumTokens : b.extendNumTokens = b.extendLens.sum
  outCacheLoc : ∀ loc, b.outCacheLoc = some loc → loc.Nodup ∧ loc.length = b.slotLens.sum
  tokenIds : b.isExtend = true → ∀ ids, b.extendInputLogprobTokenIds = some ids →
    ids.length = b.logprobLens.sum
  decodingReqs : b.decodingReqs ⊆ b.reqs

/-- `filter_batch` keeps the rows, and leaves the other fields as they are or without a value. -/
structure KeepsRows (filterBatch : ScheduleBatch ρ → List ℕ → ScheduleBatch ρ) : Prop where
  reqs : ∀ b keep, (filterBatch b keep).reqs = keep.filterMap (b.reqs[·]?)
  outCacheLoc : ∀ b keep, b.outCacheLoc = none → (filterBatch b keep).outCacheLoc = none
  tokenIds : ∀ b keep, b.extendInputLogprobTokenIds = none →
    (filterBatch b keep).extendInputLogprobTokenIds = none
  decodingReqs : ∀ b keep, (filterBatch b keep).decodingReqs = b.decodingReqs

/-- Of a batch exactly the segments of the requests that are not stale are left, and the slots of
the stale ones are freed. -/
structure StaleDrop.Exact [DecidableEq ρ] (cfg : OverrunConfig) (stale : ρ → Bool)
    (b : ScheduleBatch ρ) (kept dropped : List ℕ) (d : StaleDrop ρ) : Prop where
  reqs : d.batch.reqs = b.reqs.filter (!stale ·)
  decodingReqs : d.batch.decodingReqs = b.decodingReqs.filter (!stale ·)
  result : d.result = if b.reqs ≠ [] ∧ d.batch.reqs = [] then none else some d.batch
  outCacheLoc : d.batch.outCacheLoc = b.outCacheLoc.map (segments b.slotLens · kept)
  freed : d.freed = if cfg.pageSize ≠ 1 ∨ cfg.disableRadixCache then []
    else (b.outCacheLoc.map (segments b.slotLens · dropped)).getD []
  inputIds : b.isExtend = true → d.batch.inputIds = segments b.extendLens b.inputIds kept
  extendLens : b.isExtend = true → d.batch.extendLens = kept.filterMap (b.extendLens[·]?)
  extendNumTokens : b.isExtend = true → d.batch.extendNumTokens = d.batch.extendLens.sum
  prefixLens : b.isExtend = true → d.batch.prefixLens = kept.filterMap (b.prefixLens[·]?)
  startLens : b.isExtend = true →
    d.batch.extendLogprobStartLens = kept.filterMap (b.extendLogprobStartLens[·]?)
  tokenIds : b.isExtend = true → d.batch.extendInputLogprobTokenIds =
    if d.batch.returnLogprob ∨ dropped = [] then
      b.extendInputLogprobTokenIds.map (segments b.logprobLens · kept)
    else none

variable {lens rows : List ℕ} {entries : List α}

theorem segments_range (hlength : entries.length = lens.sum) :
    segments lens entries (List.range lens.length) = entries := by
  induction lens generalizing entries with
  | nil => exact (length_eq_zero_iff.1 hlength).symm
  | cons len lens ih =>
    have hrest : segments lens (entries.drop len) (List.range lens.length) = entries.drop len := by
      refine ih ?_
      rw [length_drop, hlength, sum_cons]
      omega
    have hnext (i : ℕ) : segment (len :: lens) entries (i + 1) =
        segment lens (entries.drop len) i := by
      rw [segment, segment, drop_drop, take_succ_cons, sum_cons]
      rfl
    rw [segments, length_cons, range_succ_eq_map, flatMap_cons, flatMap_map,
      flatMap_congr fun i _ => hnext i]
    change entries.take len ++ segments lens (entries.drop len) _ = _
    rw [hrest, take_append_drop]

theorem gather_range' {len : ℕ} (hrange : start + len ≤ entries.length) :
    gather entries (List.range' start len) = some ((entries.drop start).take len) := by
  induction len generalizing start with
  | zero => rfl
  | succ len ih =>
    have hstart : start < entries.length := by omega
    have hrest : gather entries (List.range' (start + 1) len) = _ := ih (by omega)
    rw [gather] at hrest ⊢
    rw [List.range'_succ, mapM_cons, hrest, getElem?_eq_getElem hstart,
      drop_eq_getElem_cons hstart, take_succ_cons]
    rfl

theorem gather_flatMap {f : ℕ → List ℕ} {g : ℕ → List α}
    (hrows : ∀ i ∈ rows, gather entries (f i) = some (g i)) :
    gather entries (rows.flatMap f) = some (rows.flatMap g) := by
  induction rows with
  | nil => rfl
  | cons i rows ih =>
    have hfirst := hrows i (mem_cons_self ..)
    have hrest := ih fun j hj => hrows j (mem_cons_of_mem _ hj)
    rw [gather] at hfirst hrest ⊢
    rw [flatMap_cons, mapM_append, hfirst, hrest]
    rfl

theorem gather_rows (hrows : ∀ i ∈ rows, i < entries.length) :
    gather entries rows = some (rows.filterMap (entries[·]?)) := by
  induction rows with
  | nil => rfl
  | cons i rows ih =>
    have hrest := ih fun j hj => hrows j (mem_cons_of_mem _ hj)
    have hi := getElem?_eq_getElem (hrows i (mem_cons_self ..))
    rw [gather] at hrest ⊢
    rw [mapM_cons, hrest, filterMap_cons_some hi, hi]
    rfl

theorem segmentStarts_getD (start : ℕ) {i : ℕ} (hi : i < lens.length) :
    (segmentStarts start lens).getD i 0 = start + (lens.take i).sum ∧
      (lens.take i).sum + lens.getD i 0 ≤ lens.sum := by
  induction lens generalizing start i with
  | nil => exact absurd hi (Nat.not_lt_zero i)
  | cons len lens ih =>
    cases i with
    | zero => exact ⟨rfl, by simp⟩
    | succ i =>
      obtain ⟨hstart, hle⟩ := ih (start + len) (Nat.lt_of_succ_lt_succ hi)
      rw [segmentStarts, getD_cons_succ, getD_cons_succ, hstart, take_succ_cons, sum_cons, sum_cons]
      omega

theorem gather_segmentTokens (hlength : entries.length = lens.sum)
    (hrows : ∀ i ∈ rows, i < lens.length) :
    gather entries (segmentTokens lens rows) = some (segments lens entries rows) := by
  refine gather_flatMap fun i hi => ?_
  obtain ⟨hstart, hle⟩ := segmentStarts_getD 0 (hrows i hi)
  rw [hstart, Nat.zero_add]
  exact gather_range' (hlength ▸ hle)

theorem segmentTokens_replicate {n : ℕ} (hrows : ∀ i ∈ rows, i < n) :
    segmentTokens (List.replicate n 1) rows = rows := by
  have hone : ∀ i ∈ rows, List.range' ((segmentStarts 0 (List.replicate n 1)).getD i 0)
      ((List.replicate n 1).getD i 0) = [i] := by
    intro i hi
    have hlt : i < (List.replicate n 1).length := by rw [length_replicate]; exact hrows i hi
    rw [(segmentStarts_getD 0 hlt).1, take_replicate, sum_replicate_nat,
      Nat.min_eq_left (Nat.le_of_lt (hrows i hi)), getD_eq_getElem?_getD,
      getElem?_replicate_of_lt (hrows i hi), Nat.zero_add, Nat.mul_one]
    rfl
  rw [segmentTokens, flatMap_congr hone, flatMap_singleton']

variable {marks : List Bool} {stale : ρ → Bool}

theorem lt_of_mem_markedRows {reqs : List ρ} (stale : ρ → Bool) (mark : Bool) :
    ∀ i ∈ markedRows (reqs.map stale) mark, i < reqs.length := by
  intro i hi
  have hlt := mem_range.1 (mem_filter.1 hi).1
  rwa [length_map] at hlt

theorem filterMap_markedRows (reqs : List ρ) (mark : Bool) :
    (markedRows (reqs.map stale) mark).filterMap (reqs[·]?) =
      reqs.filter fun r => stale r = mark := by
  induction reqs with
  | nil => rfl
  | cons r reqs ih =>
    rw [markedRows, map_cons, length_cons, range_succ_eq_map, filter_cons,
      filter_map, filter_cons, ← ih]
    have hrest : (fun i : ℕ => decide ((stale r :: reqs.map stale)[i]? = some mark)) ∘ Nat.succ =
        fun i : ℕ => decide ((reqs.map stale)[i]? = some mark) := rfl
    rw [hrest]
    by_cases hr : stale r = mark
    · simp [hr, markedRows, filterMap_map]
    · simp [hr, markedRows, filterMap_map]

theorem markedRows_perm :
    (markedRows marks false ++ markedRows marks true).Perm (List.range marks.length) := by
  have hother : markedRows marks true =
      (List.range marks.length).filter fun i => !decide (marks[i]? = some false) := by
    refine filter_congr fun i hi => ?_
    have hi := mem_range.1 hi
    rw [getElem?_eq_getElem hi]
    cases marks[i] <;> rfl
  rw [hother]
  exact filter_append_perm ..

/-- The segments of different rows have no entry in common. -/
theorem segments_disjoint (hlength : entries.length = lens.sum)
    (hmarks : marks.length = lens.length) (hnodup : entries.Nodup) :
    List.Disjoint (segments lens entries (markedRows marks true))
      (segments lens entries (markedRows marks false)) := by
  have hperm : (segments lens entries (markedRows marks false) ++
      segments lens entries (markedRows marks true)).Perm entries := by
    rw [segments, segments, ← flatMap_append]
    refine (markedRows_perm.flatMap_right _).trans (List.Perm.of_eq ?_)
    rw [hmarks]
    exact segments_range hlength
  exact fun _ hd hk => disjoint_of_nodup_append (hperm.nodup_iff.2 hnodup) hk hd

section

variable {b : ScheduleBatch ρ} {filterBatch : ScheduleBatch ρ → List ℕ → ScheduleBatch ρ}
  {cfg : OverrunConfig}

theorem ScheduleBatch.WellFormed.slotLens_length (hb : b.WellFormed) :
    b.slotLens.length = b.reqs.length := by
  rw [ScheduleBatch.slotLens]
  split
  · exact hb.extendLens ‹_›
  · exact length_replicate

theorem ScheduleBatch.WellFormed.logprobLens_length (hb : b.WellFormed)
    (hextend : b.isExtend = true) : b.logprobLens.length = b.reqs.length := by
  rw [ScheduleBatch.logprobLens, length_zipWith, hb.extendLens hextend, hb.startLens hextend,
    Nat.min_self]

theorem ScheduleBatch.WellFormed.gather_slots (hb : b.WellFormed)
    (hrows : ∀ i ∈ rows, i < b.reqs.length) :
    ∀ loc, b.outCacheLoc = some loc →
      gather loc (segmentTokens b.slotLens rows) = some (segments b.slotLens loc rows) :=
  fun loc hloc => gather_segmentTokens (hb.outCacheLoc loc hloc).2
    fun i hi => hb.slotLens_length ▸ hrows i hi

theorem freeOverrunStepSlots_segmentTokens (cfg : OverrunConfig) (hb : b.WellFormed)
    (hrows : ∀ i ∈ rows, i < b.reqs.length) :
    freeOverrunStepSlots cfg b.outCacheLoc (segmentTokens b.slotLens rows) =
      some (if cfg.pageSize ≠ 1 ∨ cfg.disableRadixCache then []
        else (b.outCacheLoc.map (segments b.slotLens · rows)).getD []) := by
  have hgather := hb.gather_slots hrows
  rw [freeOverrunStepSlots]
  cases hloc : b.outCacheLoc with
  | none => simp
  | some loc =>
    have hgather := hgather loc hloc
    split
    next hnil =>
      rw [hnil] at hgather
      have hnone : [] = segments b.slotLens loc rows := Option.some.inj hgather
      simp [← hnone]
    · split
      · rfl
      · exact hgather

theorem keptSlots (hb : b.WellFormed) (hkeeps : KeepsRows filterBatch)
    (hrows : ∀ i ∈ keep, i < b.reqs.length) :
    (b.outCacheLoc.elim (some (filterBatch b keep).outCacheLoc) fun loc =>
      (gather loc (segmentTokens b.slotLens keep)).map some) =
      some (b.outCacheLoc.map (segments b.slotLens · keep)) := by
  cases hloc : b.outCacheLoc with
  | none => exact congrArg some (hkeeps.outCacheLoc b keep hloc)
  | some loc =>
    rw [Option.elim_some, hb.gather_slots hrows loc hloc]
    rfl

theorem keptTokenIds (hb : b.WellFormed) (hkeeps : KeepsRows filterBatch)
    (hextend : b.isExtend = true) (hrows : ∀ i ∈ keep, i < b.reqs.length) :
    (b.extendInputLogprobTokenIds.elim (some (filterBatch b keep).extendInputLogprobTokenIds)
      fun ids =>
        if (filterBatch b keep).returnLogprob then
          (gather ids (segmentTokens b.logprobLens keep)).map some
        else some none) =
      some (if (filterBatch b keep).returnLogprob then
        b.extendInputLogprobTokenIds.map (segments b.logprobLens · keep) else none) := by
  cases hids : b.extendInputLogprobTokenIds with
  | none =>
    rw [Option.elim_none, hkeeps.tokenIds b keep hids, Option.map_none, ite_self]
  | some ids =>
    have hwithin : ∀ i ∈ keep, i < b.logprobLens.length :=
      fun i hi => hb.logprobLens_length hextend ▸ hrows i hi
    rw [Option.elim_some, gather_segmentTokens (hb.tokenIds hextend ids hids) hwithin]
    split
    · rfl
    · rfl

theorem dropExtend_eq (hb : b.WellFormed) (hkeeps : KeepsRows filterBatch)
    (hextend : b.isExtend = true) (hkeep : keep = markedRows (b.reqs.map stale) false) :
    dropExtend filterBatch cfg b (b.reqs.map stale) = some
      ({ filterBatch b keep with
        inputIds := segments b.extendLens b.inputIds keep
        outCacheLoc := b.outCacheLoc.map (segments b.slotLens · keep)
        extendLens := keep.filterMap (b.extendLens[·]?)
        extendNumTokens := (keep.filterMap (b.extendLens[·]?)).sum
        prefixLens := keep.filterMap (b.prefixLens[·]?)
        extendLogprobStartLens := keep.filterMap (b.extendLogprobStartLens[·]?)
        extendInputLogprobTokenIds := if (filterBatch b keep).returnLogprob then
          b.extendInputLogprobTokenIds.map (segments b.logprobLens · keep) else none },
      if cfg.pageSize ≠ 1 ∨ cfg.disableRadixCache then []
        else (b.outCacheLoc.map (segments b.slotLens · (markedRows (b.reqs.map stale) true))).getD
          []) := by
  have hrows : ∀ i ∈ keep, i < b.reqs.length := hkeep ▸ lt_of_mem_markedRows stale false
  have hslots : b.slotLens = b.extendLens := by rw [ScheduleBatch.slotLens, if_pos hextend]
  have hfreed := freeOverrunStepSlots_segmentTokens cfg hb (lt_of_mem_markedRows stale true)
  have hkept := keptSlots hb hkeeps hrows
  rw [hslots] at hfreed hkept ⊢
  rw [dropExtend]
  simp only [← hkeep]
  rw [hfreed, hkept, keptTokenIds hb hkeeps hextend hrows,
    gather_segmentTokens (hb.inputIds hextend) fun i hi => hb.extendLens hextend ▸ hrows i hi,
    gather_rows fun i hi => hb.extendLens hextend ▸ hrows i hi,
    gather_rows fun i hi => hb.prefixLens hextend ▸ hrows i hi,
    gather_rows fun i hi => hb.startLens hextend ▸ hrows i hi]
  rfl

/-- The cut of another batch. -/
theorem dropDecode_eq (hb : b.WellFormed) (hkeeps : KeepsRows filterBatch)
    (hextend : b.isExtend = false) (hkeep : keep = markedRows (b.reqs.map stale) false) :
    dropDecode filterBatch cfg b (b.reqs.map stale) = some
      ({ filterBatch b keep with
        outCacheLoc := b.outCacheLoc.map (segments b.slotLens · keep) },
      if cfg.pageSize ≠ 1 ∨ cfg.disableRadixCache then []
        else (b.outCacheLoc.map (segments b.slotLens · (markedRows (b.reqs.map stale) true))).getD
          []) := by
  have hrows : ∀ i ∈ keep, i < b.reqs.length := hkeep ▸ lt_of_mem_markedRows stale false
  have hslots {rows : List ℕ} (hrows : ∀ i ∈ rows, i < b.reqs.length) :
      segmentTokens b.slotLens rows = rows := by
    rw [ScheduleBatch.slotLens, if_neg (by rw [hextend]; exact Bool.false_ne_true)]
    exact segmentTokens_replicate hrows
  have hfreed := freeOverrunStepSlots_segmentTokens cfg hb (lt_of_mem_markedRows stale true)
  have hkept := keptSlots hb hkeeps hrows
  rw [hslots (lt_of_mem_markedRows stale true)] at hfreed
  rw [hslots hrows] at hkept
  rw [dropDecode]
  simp only [← hkeep]
  rw [hfreed, hkept]
  rfl

/-- The requests that are left. -/
theorem reqs_filterBatch (b : ScheduleBatch ρ) (stale : ρ → Bool) (hkeeps : KeepsRows filterBatch) :
    (filterBatch b (markedRows (b.reqs.map stale) false)).reqs = b.reqs.filter (!stale ·) := by
  rw [hkeeps.reqs, filterMap_markedRows]
  exact filter_congr fun r _ => by cases stale r <;> rfl

variable [DecidableEq ρ]

/-- A batch without stale requests is left as it is. -/
theorem exact_of_fresh (hb : b.WellFormed) (hfresh : b.reqs = [] ∨ true ∉ b.reqs.map stale) :
    StaleDrop.Exact cfg stale b (markedRows (b.reqs.map stale) false)
      (markedRows (b.reqs.map stale) true) ⟨b, some b, []⟩ := by
  have hfalse : ∀ r ∈ b.reqs, stale r = false := by
    intro r hr
    rcases hfresh with hnil | hfresh
    · exact absurd (hnil ▸ hr) not_mem_nil
    · exact Bool.eq_false_iff.2 fun h => hfresh (mem_map.2 ⟨r, hr, h⟩)
  have hstale : ∀ r ∈ b.reqs, (!stale r) = true := fun r hr => by rw [hfalse r hr]; rfl
  have hmarks : ∀ i < b.reqs.length, (b.reqs.map stale)[i]? = some false := by
    intro i hi
    rw [getElem?_map, getElem?_eq_getElem hi, Option.map_some, hfalse _ (getElem_mem hi)]
  have hkept : markedRows (b.reqs.map stale) false = List.range b.reqs.length := by
    rw [markedRows, length_map]
    exact filter_eq_self.2 fun i hi => decide_eq_true (hmarks i (mem_range.1 hi))
  have hdropped : markedRows (b.reqs.map stale) true = [] := by
    rw [markedRows, length_map]
    refine filter_eq_nil_iff.2 fun i hi => ?_
    rw [hmarks i (mem_range.1 hi)]
    decide
  have hentries (entries : List ℕ) (hlength : entries.length = b.reqs.length) :
      entries = (List.range b.reqs.length).filterMap (entries[·]?) := by
    have hall : gather entries (List.range' 0 entries.length) = _ :=
      gather_range' (Nat.le_of_eq (Nat.zero_add _))
    rw [← range_eq_range', gather_rows fun i hi => mem_range.1 hi, drop_zero, take_length] at hall
    rw [← hlength]
    exact (Option.some.inj hall).symm
  rw [hkept, hdropped]
  exact {
    reqs := (filter_eq_self.2 hstale).symm
    decodingReqs := (filter_eq_self.2 fun r hr => hstale r (hb.decodingReqs hr)).symm
    result := (if_neg fun h => h.1 h.2).symm
    outCacheLoc := by
      cases hloc : b.outCacheLoc with
      | none => rfl
      | some loc =>
        rw [Option.map_some, ← hb.slotLens_length, segments_range (hb.outCacheLoc loc hloc).2]
    freed := by cases b.outCacheLoc <;> simp [segments]
    inputIds := fun hextend => by
      rw [← hb.extendLens hextend, segments_range (hb.inputIds hextend)]
    extendLens := fun hextend => hentries _ (hb.extendLens hextend)
    extendNumTokens := fun _ => hb.extendNumTokens
    prefixLens := fun hextend => hentries _ (hb.prefixLens hextend)
    startLens := fun hextend => hentries _ (hb.startLens hextend)
    tokenIds := fun hextend => by
      rw [if_pos (Or.inr rfl)]
      cases hids : b.extendInputLogprobTokenIds with
      | none => rfl
      | some ids =>
        rw [Option.map_some, ← hb.logprobLens_length hextend,
          segments_range (hb.tokenIds hextend ids hids)] }

theorem decodingReqs_filter (stale : ρ → Bool) (hb : b.WellFormed)
    (hkeeps : KeepsRows filterBatch) :
    (filterBatch b (markedRows (b.reqs.map stale) false)).decodingReqs.filter
      (· ∈ (filterBatch b (markedRows (b.reqs.map stale) false)).reqs) =
      b.decodingReqs.filter (!stale ·) := by
  rw [reqs_filterBatch b stale hkeeps, hkeeps.decodingReqs]
  refine filter_congr fun r hr => ?_
  cases hstale : stale r with
  | false => exact decide_eq_true (mem_filter.2 ⟨hb.decodingReqs hr, by rw [hstale]; rfl⟩)
  | true => exact decide_eq_false fun h => by simp [hstale] at h

/-- Exactly the requests that are not stale are left in the batch, with their segments, and exactly
the slots of the others are freed. -/
theorem stale_rows_dropped (hb : b.WellFormed) (hkeeps : KeepsRows filterBatch) :
    ∃ d, dropStaleRows filterBatch cfg stale b = some d ∧
      d.Exact cfg stale b (markedRows (b.reqs.map stale) false)
        (markedRows (b.reqs.map stale) true) ∧
      ∀ loc, d.batch.outCacheLoc = some loc → List.Disjoint d.freed loc := by
  have hdisjoint {d : StaleDrop ρ} (hd : d.Exact cfg stale b
      (markedRows (b.reqs.map stale) false) (markedRows (b.reqs.map stale) true)) :
      ∀ loc, d.batch.outCacheLoc = some loc → List.Disjoint d.freed loc := by
    intro loc hloc
    rw [hd.freed]
    split
    · exact disjoint_nil_left _
    · rw [hd.outCacheLoc] at hloc
      obtain ⟨all, hall, rfl⟩ := Option.map_eq_some_iff.1 hloc
      obtain ⟨hnodup, hlength⟩ := hb.outCacheLoc all hall
      rw [hall]
      exact segments_disjoint hlength (by rw [length_map, hb.slotLens_length]) hnodup
  have hreqs := reqs_filterBatch b stale hkeeps
  have hdecoding := decodingReqs_filter stale hb hkeeps
  suffices h : ∃ d, dropStaleRows filterBatch cfg stale b = some d ∧
      d.Exact cfg stale b (markedRows (b.reqs.map stale) false)
        (markedRows (b.reqs.map stale) true) by
    obtain ⟨d, hd, hexact⟩ := h
    exact ⟨d, hd, hexact, hdisjoint hexact⟩
  rw [dropStaleRows]
  split
  next hfresh =>
    exact ⟨_, rfl, exact_of_fresh hb hfresh⟩
  next hstale =>
    obtain ⟨hne, hmarked⟩ := not_or.1 hstale
    have hdropped : markedRows (b.reqs.map stale) true ≠ [] := by
      obtain ⟨i, hi⟩ := mem_iff_getElem?.1 (not_not.1 hmarked)
      obtain ⟨hlt, -⟩ := List.getElem?_eq_some_iff.1 hi
      exact ne_nil_of_mem (mem_filter.2 ⟨mem_range.2 hlt, decide_eq_true hi⟩)
    have hresult (c : ScheduleBatch ρ) : (if c.reqs = [] then none else some c) =
        if b.reqs ≠ [] ∧ c.reqs = [] then none else some c := by
      simp only [ne_eq, hne, not_false_eq_true, true_and]
    cases hextend : b.isExtend with
    | true =>
      rw [if_pos rfl, dropExtend_eq hb hkeeps hextend rfl]
      exact ⟨_, rfl, {
        reqs := hreqs
        decodingReqs := hdecoding
        result := hresult _
        outCacheLoc := rfl
        freed := rfl
        inputIds := fun _ => rfl
        extendLens := fun _ => rfl
        extendNumTokens := fun _ => rfl
        prefixLens := fun _ => rfl
        startLens := fun _ => rfl
        tokenIds := fun _ => by simp only [hdropped, or_false] }⟩
    | false =>
      rw [if_neg Bool.false_ne_true, dropDecode_eq hb hkeeps hextend rfl]
      have hextend : b.isExtend ≠ true := by rw [hextend]; exact Bool.false_ne_true
      exact ⟨_, rfl, {
        reqs := hreqs
        decodingReqs := hdecoding
        result := hresult _
        outCacheLoc := rfl
        freed := rfl
        inputIds := fun h => absurd h hextend
        extendLens := fun h => absurd h hextend
        extendNumTokens := fun h => absurd h hextend
        prefixLens := fun h => absurd h hextend
        startLens := fun h => absurd h hextend
        tokenIds := fun h => absurd h hextend }⟩

end

/-- `filter_batch`, for requests of which each says whether it returns logprobs. -/
def filterRows (b : ScheduleBatch (ℕ × Bool)) (keep : List ℕ) : ScheduleBatch (ℕ × Bool) :=
  let reqs := keep.filterMap (b.reqs[·]?)
  { b with reqs := reqs, outCacheLoc := none, returnLogprob := reqs.any (·.2) }

theorem filterRows_keeps : KeepsRows filterRows :=
  ⟨fun _ _ => rfl, fun _ _ _ => rfl, fun _ _ h => h, fun _ _ => rfl⟩

/-- Requests with two tokens and with one. -/
def twoRows : ScheduleBatch (ℕ × Bool) where
  reqs := [(0, true), (1, false)]
  isExtend := true
  outCacheLoc := some [7, 5, 9]
  inputIds := [10, 11, 12]
  extendLens := [2, 1]
  extendNumTokens := 3
  prefixLens := [4, 6]
  extendLogprobStartLens := [0, 0]
  extendInputLogprobTokenIds := some [11, 12, 0]
  returnLogprob := true
  decodingReqs := [(1, false)]

theorem twoRows_wellFormed : twoRows.WellFormed where
  extendLens _ := rfl
  prefixLens _ := rfl
  startLens _ := rfl
  start_le
    | 0 => by decide
    | 1 => by decide
    | _ + 2 => Nat.zero_le _
  inputIds _ := rfl
  extendNumTokens := rfl
  outCacheLoc := by rintro _ ⟨⟩; decide
  tokenIds _ := by rintro _ ⟨⟩; rfl
  decodingReqs := by decide

/-- The case of the first of two requests. -/
theorem stale_rows_dropped_first : ∃ d,
    dropStaleRows filterRows ⟨1, false⟩ (·.1 = 0) twoRows = some d ∧
      d.Exact ⟨1, false⟩ (·.1 = 0) twoRows [1] [0] ∧
      ∀ loc, d.batch.outCacheLoc = some loc → List.Disjoint d.freed loc :=
  stale_rows_dropped twoRows_wellFormed filterRows_keeps

/-- The ids of a request that returns no logprobs are not kept. -/
theorem token_ids_dropped : twoRows.WellFormed ∧ KeepsRows filterRows ∧ ∃ d,
    dropStaleRows filterRows ⟨1, false⟩ (·.1 = 0) twoRows = some d ∧
      d.batch.extendInputLogprobTokenIds = none ∧
      twoRows.extendInputLogprobTokenIds.map (segments twoRows.logprobLens · [1]) = some [0] :=
  ⟨twoRows_wellFormed, filterRows_keeps, _, rfl, rfl, rfl⟩

end Omni.Scheduler
