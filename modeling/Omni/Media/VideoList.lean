import Mathlib.Algebra.GroupWithZero.Nat
import Mathlib.Data.List.Perm.Subperm
import Mathlib.Tactic.Common

/-!
# The list of videos

`ensure_video_list_async` of `video.py`. The values of a list are of one type `V`, loaded videos
among them; what the tests on a path and the loaders do are parameters. A load that raises is
`none`, as is a call that raises.
-/

namespace Omni.Media

open List

variable {V F A : Type}

/-- What the call finds out about a value and what the loaders give for it. -/
structure VideoLoads (V F A : Type) where
  /-- `isinstance(video_item, (str, Path))`. -/
  isPath : V → Bool
  isUrl : V → Bool
  pathExists : V → Bool
  /-- `fetch_video_async`, with `extract_audio`. -/
  fetchVideo : V → Bool → Option (V × F × Option A)
  loadVideoPath : V → Option (V × F)
  extractAudioFromPath : V → Option (Option A)

/-- `_load_video_with_audio`. -/
def VideoLoads.loadVideoWithAudio (w : VideoLoads V F A) (extractAudio : Bool) (task : V × Bool) :
    Option (V × F × Option A) :=
  if task.2 then w.fetchVideo task.1 extractAudio
  else if extractAudio then do
    let (video, sampleFps) ← w.loadVideoPath task.1
    let audio ← w.extractAudioFromPath task.1
    return (video, sampleFps, audio)
  else do
    let (video, sampleFps) ← w.loadVideoPath task.1
    return (video, sampleFps, none)

/-- The lists of the call. `none` in `normalized` is the placeholder for a video. -/
structure VideoLists (V F A : Type) where
  normalized : List (Option V) := []
  sampleFpsList : List F := []
  extractedAudios : List (Option A) := []
  allPaths : Bool := true
  coroutines : List (V × Bool) := []
  urlIndices : List ℕ := []

/-- The first pass at one item. -/
def VideoLists.visit [Zero F] (w : VideoLoads V F A) (extractAudio : Bool) (l : VideoLists V F A)
    (entry : V × ℕ) : VideoLists V F A :=
  let audios := if extractAudio then l.extractedAudios ++ [none] else l.extractedAudios
  if w.isPath entry.1 then
    if w.isUrl entry.1 then
      { l with
        coroutines := l.coroutines ++ [(entry.1, true)]
        urlIndices := l.urlIndices ++ [entry.2]
        normalized := l.normalized ++ [none]
        sampleFpsList := l.sampleFpsList ++ [0]
        extractedAudios := audios }
    else if w.pathExists entry.1 then
      { l with
        coroutines := l.coroutines ++ [(entry.1, false)]
        urlIndices := l.urlIndices ++ [entry.2]
        normalized := l.normalized ++ [none]
        sampleFpsList := l.sampleFpsList ++ [0]
        extractedAudios := audios }
    else
      { l with
        normalized := l.normalized ++ [some entry.1]
        allPaths := false
        extractedAudios := audios }
  else
    { l with
      normalized := l.normalized ++ [some entry.1]
      allPaths := false
      extractedAudios := audios }

/-- `asyncio.gather` of tasks that end in the order `order`: each task leaves its result at its
own place, the first that raises ends the wait. -/
def gather {τ ρ : Type} (run : τ → Option ρ) (tasks : List τ) (order : List ℕ) :
    Option (List ρ) := do
  let slots ← order.foldlM (fun slots k => do
    let task ← tasks[k]?
    let result ← run task
    return slots.set k (some result)) (tasks.map fun _ => none)
  slots.mapM id

/-- `xs[i] = x`, which raises `IndexError` behind the end. -/
def setItem {α : Type} (xs : List α) (i : ℕ) (x : α) : Option (List α) :=
  if i < xs.length then some (xs.set i x) else none

/-- A result at the index of its item. -/
def VideoLists.fill (extractAudio : Bool) (l : VideoLists V F A)
    (entry : ℕ × V × F × Option A) : Option (VideoLists V F A) := do
  let normalized ← setItem l.normalized entry.1 (some entry.2.1)
  let sampleFpsList ← setItem l.sampleFpsList entry.1 entry.2.2.1
  let extractedAudios ← if extractAudio then setItem l.extractedAudios entry.1 entry.2.2.2
    else some l.extractedAudios
  return { l with normalized, sampleFpsList, extractedAudios }

/-- What a call returns: the videos, their frame rates and their audio. -/
structure VideoResult (V F A : Type) where
  videos : List (Option V)
  sampleFps : Option (List F)
  audios : Option (List (Option A))

/-- The argument `videos`. -/
inductive VideosArgument (V : Type)
  | absent
  | list (items : List V)
  | single (item : V)

/-- The call on a list of items. -/
def ensureVideoItems [Zero F] (w : VideoLoads V F A) (extractAudio : Bool) (order : List ℕ)
    (items : List V) : Option (VideoResult V F A) := do
  let l := items.zipIdx.foldl (VideoLists.visit w extractAudio) {}
  let l ← if l.coroutines = [] then some l else do
    let results ← gather (w.loadVideoWithAudio extractAudio) l.coroutines order
    (l.urlIndices.zip results).foldlM (VideoLists.fill extractAudio) l
  return {
    videos := l.normalized
    sampleFps := if l.allPaths then some l.sampleFpsList else none
    audios := if extractAudio then some l.extractedAudios else none }

/-- `ensure_video_list_async`, with the order in which its loads end. -/
def ensureVideoListAsync [Zero F] (w : VideoLoads V F A) (extractAudio : Bool) (order : List ℕ) :
    VideosArgument V → Option (VideoResult V F A)
  | .absent => some ⟨[], none, none⟩
  | .list items => ensureVideoItems w extractAudio order items
  | .single item => ensureVideoItems w extractAudio order [item]

/-- An item that is loaded: a URL or the path of an existing file. -/
def VideoLoads.loads (w : VideoLoads V F A) (item : V) : Bool :=
  w.isPath item && (w.isUrl item || w.pathExists item)

/-- A result that is aligned with the items, where `load` gives what was loaded for an item. -/
structure VideoResult.Aligned (w : VideoLoads V F A) (extractAudio : Bool)
    (load : V → V × F × Option A) (items : List V) (r : VideoResult V F A) : Prop where
  videos : r.videos = items.map fun item => some (if w.loads item then (load item).1 else item)
  audios : r.audios = if extractAudio then
    some (items.map fun item => if w.loads item then (load item).2.2 else none) else none
  fps_none : r.sampleFps = none ↔ ∃ item ∈ items, w.loads item = false
  fps_some : ∀ fps, r.sampleFps = some fps → fps = items.map fun item => (load item).2.1

/-- The items that are loaded, with their indices. -/
def loadedEntries (w : VideoLoads V F A) (items : List V) (n : ℕ) : List (V × ℕ) :=
  (items.zipIdx n).filter fun entry => w.loads entry.1

theorem foldl_visit [Zero F] (w : VideoLoads V F A) (extractAudio : Bool) (items : List V)
    (n : ℕ) (l : VideoLists V F A) :
    (items.zipIdx n).foldl (VideoLists.visit w extractAudio) l =
      { normalized := l.normalized ++ items.map fun item => if w.loads item then none else some item
        sampleFpsList := l.sampleFpsList ++ (loadedEntries w items n).map fun _ => 0
        extractedAudios := l.extractedAudios ++
          if extractAudio then items.map fun _ => none else []
        allPaths := l.allPaths && items.all w.loads
        coroutines := l.coroutines ++
          (loadedEntries w items n).map fun entry => (entry.1, w.isUrl entry.1)
        urlIndices := l.urlIndices ++ (loadedEntries w items n).map Prod.snd } := by
  induction items generalizing n l with
  | nil => cases extractAudio <;> simp [loadedEntries]
  | cons item items ih =>
    rw [zipIdx_cons, foldl_cons, ih]
    cases hpath : w.isPath item <;> cases hurl : w.isUrl item <;>
      cases hexists : w.pathExists item <;> cases extractAudio <;>
      simp [VideoLists.visit, loadedEntries, VideoLoads.loads, hpath, hurl, hexists]

/-- An item is among the loaded ones with its index exactly if it is loaded. -/
theorem mem_loadedEntries {w : VideoLoads V F A} {items : List V} {entry : V × ℕ} :
    entry ∈ loadedEntries w items 0 ↔ items[entry.2]? = some entry.1 ∧ w.loads entry.1 = true := by
  rw [loadedEntries, mem_filter, mem_zipIdx_iff_getElem?]

/-- Values put at their indices, one after the other. -/
def setAll {α : Type} (xs : List α) (entries : List (ℕ × α)) : List α :=
  entries.foldl (fun xs entry => xs.set entry.1 entry.2) xs

/-- Where the values put are those of `ys`, and so are those that stay, the list becomes `ys`. -/
theorem setAll_eq {α : Type} {xs ys : List α} {entries : List (ℕ × α)}
    (hlength : xs.length = ys.length) (hput : ∀ entry ∈ entries, ys[entry.1]? = some entry.2)
    (hstay : ∀ i, (∀ entry ∈ entries, entry.1 ≠ i) → xs[i]? = ys[i]?) :
    setAll xs entries = ys := by
  induction entries generalizing xs with
  | nil => exact ext_getElem? fun i => hstay i nofun
  | cons entry entries ih =>
    rw [setAll, foldl_cons, ← setAll]
    refine ih (by rw [length_set, hlength]) (fun e he => hput e (mem_cons_of_mem _ he)) ?_
    intro i hi
    have hentry := hput entry mem_cons_self
    by_cases hne : entry.1 = i
    · have hlt : i < xs.length := by
        rw [hlength, ← hne]
        exact (List.getElem?_eq_some_iff.mp hentry).1
      rw [hne, getElem?_set_self hlt, ← hne, hentry]
    · rw [getElem?_set_ne hne]
      exact hstay i (forall_mem_cons.mpr ⟨hne, hi⟩)

/-- The results come in the order of the tasks, whichever ends first. -/
theorem gather_eq {τ ρ : Type} {run : τ → Option ρ} {tasks : List τ} {order : List ℕ}
    {result : τ → ρ} (hrun : ∀ task ∈ tasks, run task = some (result task))
    (horder : order.Perm (range tasks.length)) :
    gather run tasks order = some (tasks.map result) := by
  have hslots (order : List ℕ) (slots : List (Option ρ)) (hlt : ∀ k ∈ order, k < tasks.length) :
      ∃ entries : List (ℕ × Option ρ), entries.map Prod.fst = order ∧
        (∀ entry ∈ entries, (tasks.map (some ∘ result))[entry.1]? = some entry.2) ∧
        order.foldlM (fun slots k => do
          let task ← tasks[k]?
          let result ← run task
          return slots.set k (some result)) slots = some (setAll slots entries) := by
    induction order generalizing slots with
    | nil => exact ⟨[], rfl, nofun, rfl⟩
    | cons k order ih =>
      obtain ⟨hk, horder⟩ := forall_mem_cons.mp hlt
      have htask : tasks[k]? = some tasks[k] := getElem?_eq_getElem hk
      obtain ⟨entries, hkeys, hput, hfold⟩ := ih (slots.set k (some (result tasks[k]))) horder
      refine ⟨(k, some (result tasks[k])) :: entries, by rw [map_cons, hkeys],
        forall_mem_cons.mpr ⟨by rw [getElem?_map, htask]; rfl, hput⟩, ?_⟩
      rw [foldlM_cons, htask]
      simp only [Option.bind_eq_bind, Option.bind_some, hrun _ (getElem_mem hk), Option.pure_def]
      exact hfold
  obtain ⟨entries, hkeys, hput, hfold⟩ := hslots order (tasks.map fun _ => none)
    fun k hk => mem_range.mp (horder.mem_iff.mp hk)
  have hall : setAll (tasks.map fun _ => none) entries = tasks.map (some ∘ result) := by
    refine setAll_eq (by simp only [length_map]) hput fun i hi => ?_
    have hout : tasks.length ≤ i := by
      by_contra hlt
      have hmem : i ∈ entries.map Prod.fst := by
        rw [hkeys, horder.mem_iff, mem_range]
        omega
      obtain ⟨entry, hentry, heq⟩ := mem_map.mp hmem
      exact hi entry hentry heq
    simp only [getElem?_map, getElem?_eq_none hout, Option.map_none]
  rw [gather, hfold, hall, Option.bind_eq_bind, Option.bind_some]
  clear hslots hall hfold hput horder hrun
  induction tasks with
  | nil => rfl
  | cons task tasks ih => simp [ih]

/-- The results are all filled in exactly if the frame rates have a place for each. -/
theorem foldlM_fill (extractAudio : Bool) (results : List (ℕ × V × F × Option A))
    (l : VideoLists V F A) (hvideos : ∀ p ∈ results, p.1 < l.normalized.length)
    (haudios : extractAudio = true → ∀ p ∈ results, p.1 < l.extractedAudios.length) :
    results.foldlM (VideoLists.fill extractAudio) l =
      if ∀ p ∈ results, p.1 < l.sampleFpsList.length then
        some { l with
          normalized := setAll l.normalized (results.map fun p => (p.1, some p.2.1))
          sampleFpsList := setAll l.sampleFpsList (results.map fun p => (p.1, p.2.2.1))
          extractedAudios := if extractAudio then
            setAll l.extractedAudios (results.map fun p => (p.1, p.2.2.2))
            else l.extractedAudios }
      else none := by
  induction results generalizing l with
  | nil => cases extractAudio <;> rfl
  | cons p results ih =>
    obtain ⟨hvideo, hvideos⟩ := forall_mem_cons.mp hvideos
    rw [foldlM_cons]
    by_cases hfps : p.1 < l.sampleFpsList.length
    · cases extractAudio with
      | false =>
        simp only [VideoLists.fill, setItem, hvideo, hfps, if_true, Bool.false_eq_true, if_false,
          Option.bind_eq_bind, Option.bind_some, Option.pure_def]
        rw [ih _ (by simpa only [length_set] using hvideos) nofun]
        simp only [setAll, length_set, forall_mem_cons, hfps, true_and, map_cons, foldl_cons,
          if_false, Bool.false_eq_true]
      | true =>
        obtain ⟨haudio, haudios⟩ := forall_mem_cons.mp (haudios rfl)
        simp only [VideoLists.fill, setItem, hvideo, hfps, haudio, if_true, Option.bind_eq_bind,
          Option.bind_some, Option.pure_def]
        rw [ih _ (by simpa only [length_set] using hvideos)
          fun _ => by simpa only [length_set] using haudios]
        simp only [setAll, length_set, forall_mem_cons, hfps, true_and, map_cons, foldl_cons,
          if_true]
    · simp [VideoLists.fill, setItem, hvideo, hfps]

variable [Zero F] {w : VideoLoads V F A} {extractAudio : Bool} {load : V → V × F × Option A}
  {items : List V} {order : List ℕ}

omit [Zero F] in
theorem length_loadedEntries : (loadedEntries w items 0).length = items.countP w.loads := by
  have hcount := countP_map (p := w.loads) (f := Prod.fst) (l := items.zipIdx)
  rw [zipIdx_map_fst] at hcount
  rw [hcount, loadedEntries, ← countP_eq_length_filter]
  rfl

omit [Zero F] in
/-- Values of the items put at the indices of the loaded ones. -/
theorem setAll_loadedEntries {α : Type} (value : V → α) {rest : V → α} {xs : List α}
    (hxs : xs = items.map fun item => if w.loads item then value item else rest item) :
    setAll (items.map rest) ((loadedEntries w items 0).map fun entry =>
      (entry.2, value entry.1)) = xs := by
  subst hxs
  refine setAll_eq (by simp only [length_map]) (forall_mem_map.mpr fun entry hentry => ?_) ?_
  · obtain ⟨hitem, hloads⟩ := mem_loadedEntries.mp hentry
    simp only [getElem?_map, hitem, Option.map_some, hloads, if_true]
  · intro i hi
    rw [getElem?_map, getElem?_map]
    cases hitem : items[i]? with
    | none => rfl
    | some item =>
      have hloads : ¬w.loads item = true := fun hloads =>
        hi (i, value item) (mem_map.mpr ⟨(item, i), mem_loadedEntries.mpr ⟨hitem, hloads⟩, rfl⟩) rfl
      rw [Option.map_some, Option.map_some, if_neg hloads]

/-- The call gives an aligned result or raises `IndexError`. -/
theorem ensureVideoItems_spec
    (hload : ∀ item ∈ items, w.loads item = true →
      w.loadVideoWithAudio extractAudio (item, w.isUrl item) = some (load item))
    (horder : order.Perm (range (items.countP w.loads))) :
    if ∀ entry ∈ loadedEntries w items 0, entry.2 < (loadedEntries w items 0).length then
      ∃ r, ensureVideoItems w extractAudio order items = some r ∧
        r.Aligned w extractAudio load items
    else ensureVideoItems w extractAudio order items = none := by
  have hlength : (loadedEntries w items 0).length = items.countP w.loads := length_loadedEntries
  have hfold := foldl_visit w extractAudio items 0 {}
  simp only [nil_append, Bool.true_and] at hfold
  set loaded := loadedEntries w items 0 with hloaded
  have hgather : gather (w.loadVideoWithAudio extractAudio)
      (loaded.map fun entry => (entry.1, w.isUrl entry.1)) order =
        some (loaded.map fun entry => load entry.1) := by
    have hrun : ∀ task ∈ loaded.map fun entry => (entry.1, w.isUrl entry.1),
        w.loadVideoWithAudio extractAudio task = some (load task.1) := by
      refine forall_mem_map.mpr fun entry hentry => ?_
      obtain ⟨hitem, hloads⟩ := mem_loadedEntries.mp hentry
      exact hload _ (mem_of_getElem? hitem) hloads
    rw [gather_eq hrun (by rwa [length_map, hlength]), map_map]
    rfl
  have hindex {entry : V × ℕ} (hentry : entry ∈ loaded) : entry.2 < items.length :=
    (List.getElem?_eq_some_iff.mp (mem_loadedEntries.mp hentry).1).1
  have hfill := foldlM_fill extractAudio (loaded.map fun entry => (entry.2, load entry.1))
    (items.zipIdx.foldl (VideoLists.visit w extractAudio) {})
    (forall_mem_map.mpr fun entry hentry => by rw [hfold, length_map]; exact hindex hentry)
    (fun haudio => forall_mem_map.mpr fun entry hentry => by
      rw [hfold, if_pos haudio, length_map]
      exact hindex hentry)
  have hcall : ensureVideoItems w extractAudio order items = (do
      let l ← (loaded.map fun entry => (entry.2, load entry.1)).foldlM
        (VideoLists.fill extractAudio) (items.zipIdx.foldl (VideoLists.visit w extractAudio) {})
      return {
        videos := l.normalized
        sampleFps := if l.allPaths then some l.sampleFpsList else none
        audios := if extractAudio then some l.extractedAudios else none }) := by
    unfold ensureVideoItems
    dsimp only
    split
    next hnone =>
      rw [hfold] at hnone
      rw [map_eq_nil_iff.mp hnone]
      rfl
    · rw [hfold]
      rw [hgather, Option.bind_eq_bind, Option.bind_some, zip_map']
  rw [hcall, hfill]
  simp only [forall_mem_map, hfold, length_map]
  split
  · refine ⟨_, rfl, ?_, ?_, ?_, ?_⟩
    · rw [map_map]
      refine setAll_loadedEntries (fun item => some (load item).1) (map_congr_left fun item _ => ?_)
      cases w.loads item <;> rfl
    · cases extractAudio with
      | false => rfl
      | true =>
        simp only [if_true, map_map]
        exact congrArg some (setAll_loadedEntries (fun item => (load item).2.2) rfl)
    · cases hall : items.all w.loads with
      | true => simpa [hall] using fun item hitem => all_eq_true.mp hall item hitem
      | false => simpa using hall
    · intro fps hfps
      cases hall : items.all w.loads with
      | false => simp [hall] at hfps
      | true =>
        have hzeros : (loaded.map fun _ => (0 : F)) = items.map fun _ => 0 := by
          rw [map_const', map_const', hlength, countP_eq_length.mpr (all_eq_true.mp hall)]
        simp only [hall, if_true, Option.some.injEq, hzeros, map_map] at hfps
        rw [← hfps]
        refine setAll_loadedEntries (fun item => (load item).2.1)
          (map_congr_left fun item hitem => ?_)
        rw [if_pos (all_eq_true.mp hall item hitem)]
  · rfl

omit [Zero F] in
/-- Every index of a loaded item is below their number exactly if they come first. -/
theorem loadedEntries_lt_iff : (∀ entry ∈ loadedEntries w items 0,
      entry.2 < (loadedEntries w items 0).length) ↔
    ∀ (i j : ℕ) (a b : V), items[i]? = some a → items[j]? = some b → w.loads a = true →
      w.loads b = false → i < j := by
  have hlength : (loadedEntries w items 0).length = items.countP w.loads := length_loadedEntries
  constructor
  · intro hlt i j a b ha hb hloads hnot
    have hindices : ((loadedEntries w items 0).map Prod.snd).Perm
        (range (loadedEntries w items 0).length) := by
      have hnodup : ((loadedEntries w items 0).map Prod.snd).Nodup := by
        refine Sublist.nodup (filter_sublist.map Prod.snd) ?_
        rw [zipIdx_map_snd]
        exact nodup_range'
      refine (subperm_of_subset hnodup fun i hi => ?_).perm_of_length_le (by simp)
      obtain ⟨entry, hentry, rfl⟩ := mem_map.mp hi
      exact mem_range.mpr (hlt entry hentry)
    by_contra hle
    have hi := hlt (a, i) (mem_loadedEntries.mpr ⟨ha, hloads⟩)
    have hj : j ∈ (loadedEntries w items 0).map Prod.snd := by
      rw [hindices.mem_iff, mem_range]
      exact Nat.lt_of_le_of_lt (Nat.le_of_not_lt hle) hi
    obtain ⟨entry, hentry, rfl⟩ := mem_map.mp hj
    obtain ⟨hitem, hentry⟩ := mem_loadedEntries.mp hentry
    rw [hb, Option.some.injEq] at hitem
    rw [hitem, hentry] at hnot
    cases hnot
  · intro hfirst entry hentry
    obtain ⟨hitem, hloads⟩ := mem_loadedEntries.mp hentry
    obtain ⟨hlt, -⟩ := List.getElem?_eq_some_iff.mp hitem
    have htake : (items.take (entry.2 + 1)).countP w.loads = entry.2 + 1 := by
      rw [countP_eq_length.mpr, length_take, Nat.min_eq_left hlt]
      intro b hb
      obtain ⟨j, hj, rfl⟩ := mem_take_iff_getElem.mp hb
      by_contra hnot
      have hbefore := hfirst entry.2 j _ _ hitem (getElem?_eq_getElem (by omega)) hloads
        (Bool.eq_false_iff.mpr hnot)
      omega
    have hle : _ ≤ items.countP w.loads := (take_sublist (entry.2 + 1) items).countP_le
    omega

/-- The call returns an aligned result exactly if the items that are loaded come before those that
are not. -/
theorem ensureVideoListAsync_aligned_iff
    (hload : ∀ item ∈ items, w.loads item = true →
      w.loadVideoWithAudio extractAudio (item, w.isUrl item) = some (load item))
    (horder : order.Perm (range (items.countP w.loads))) :
    (∃ r, ensureVideoListAsync w extractAudio order (.list items) = some r ∧
      r.Aligned w extractAudio load items) ↔
    ∀ (i j : ℕ) (a b : V), items[i]? = some a → items[j]? = some b → w.loads a = true →
      w.loads b = false → i < j := by
  have hspec := ensureVideoItems_spec hload horder
  rw [← loadedEntries_lt_iff, ensureVideoListAsync]
  split at hspec
  next hlt => exact iff_of_true hspec hlt
  next hlt =>
    refine iff_of_false ?_ hlt
    rintro ⟨r, hr, -⟩
    rw [hspec] at hr
    cases hr

/-- Loads for decoded values `false` and a URL `true`. -/
def urlLoads : VideoLoads Bool ℕ Unit where
  isPath item := item
  isUrl item := item
  pathExists _ := false
  fetchVideo item _ := some (item, 2, none)
  loadVideoPath _ := none
  extractAudioFromPath _ := none

/-- A URL before a decoded value. -/
theorem ensureVideoListAsync_aligned_url_first :
    ∃ r, ensureVideoListAsync urlLoads false [0] (.list [true, false]) = some r ∧
      r.Aligned urlLoads false (fun item => (item, 2, none)) [true, false] :=
  (ensureVideoListAsync_aligned_iff (by decide) (by decide)).mpr (by
    intro i j a b ha hb hloads hnot
    match i, j with
    | 0, 0 => cases ha; cases hb; cases hnot
    | 0, j + 1 => exact Nat.succ_pos j
    | 1, _ => cases ha; cases hloads
    | i + 2, _ => cases ha)

/-- A decoded value before a URL: the load succeeds, the call raises. -/
theorem ensureVideoListAsync_url_last :
    ¬∀ (items : List Bool) (order : List ℕ),
      (∀ item ∈ items, urlLoads.loads item = true →
        urlLoads.loadVideoWithAudio false (item, urlLoads.isUrl item) = some (item, 2, none)) →
      order.Perm (range (items.countP urlLoads.loads)) →
      ∃ r, ensureVideoListAsync urlLoads false order (.list items) = some r ∧
        r.Aligned urlLoads false (fun item => (item, 2, none)) items := by
  intro h
  obtain ⟨r, hr, -⟩ := h [false, true] [0] (by decide) (by decide)
  cases hr

end Omni.Media
