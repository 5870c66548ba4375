import Omni.Thinker.Qwen

/-!
# Deepstack embeddings of one request

The deepstack embeddings come in two layouts: one list of layers for a request with images
only or videos only, and one list for each of both. In both of them the rows of a piece are
those of its visual placeholders in their order.
-/

namespace Omni.Thinker

open List

variable {α : Type}

/-- Layers with a number of rows. -/
def LayersFit (layerCount rowCount : ℕ) (layers : List (List α)) : Prop :=
  layers.length = layerCount ∧ ∀ layer ∈ layers, layer.length = rowCount

/-- The layouts of deepstack embeddings for a number of placeholders of each modality. -/
inductive Layout (layerCount : ℕ) (inputs : OmniInputs α) (total : Modality → ℕ) : Prop
  | without : inputs.deepstackVisualEmbeds = none → inputs.imageDeepstackVisualEmbeds = none →
      inputs.videoDeepstackVisualEmbeds = none → Layout layerCount inputs total
  | joint {m : Modality} {layers : List (List α)} : m ≠ .audio → inputs.embeds m ≠ none →
      inputs.deepstackVisualEmbeds = some layers → LayersFit layerCount (total m) layers →
      (∀ m' ≠ m, m' ≠ .audio → total m' = 0) → Layout layerCount inputs total
  | separate {image video : List (List α)} : inputs.embeds .image ≠ none →
      inputs.embeds .video ≠ none → inputs.deepstackVisualEmbeds = none →
      inputs.imageDeepstackVisualEmbeds = some image →
      inputs.videoDeepstackVisualEmbeds = some video → LayersFit layerCount (total .image) image →
      LayersFit layerCount (total .video) video → 0 < layerCount →
      Layout layerCount inputs total

/-- Row `j` of the deepstack embeddings of a modality, in one of the layers. -/
def OmniInputs.deepstackRow (inputs : OmniInputs α) (layer : ℕ) (m : Modality) (j : ℕ) :
    Option α :=
  match inputs.deepstackVisualEmbeds, m with
  | some layers, _ => (layers[layer]?).bind fun rows => rows[j]?
  | none, .image =>
    inputs.imageDeepstackVisualEmbeds.bind fun layers => (layers[layer]?).bind fun rows => rows[j]?
  | none, .video =>
    inputs.videoDeepstackVisualEmbeds.bind fun layers => (layers[layer]?).bind fun rows => rows[j]?
  | none, .audio => none

/-- The visual placeholders of a piece. -/
def visualMask (ids : List ℕ) (matchId : Modality → ℕ) : List Bool :=
  (matchMask ids (matchId .image)).zipWith or (matchMask ids (matchId .video))

section VisualMask

variable {ids : List ℕ} {matchId : Modality → ℕ}

@[simp] theorem visualMask_length : (visualMask ids matchId).length = ids.length := by
  simp [visualMask]

theorem visualMask_getElem? {x : ℕ} :
    (visualMask ids matchId)[x]? = some true ↔ ∃ m, m ≠ .audio ∧ ids[x]? = some (matchId m) := by
  rw [visualMask, getElem?_zipWith]
  constructor
  · intro hset
    cases himage : (matchMask ids (matchId .image))[x]? with
    | none => simp [himage] at hset
    | some b =>
      cases hvideo : (matchMask ids (matchId .video))[x]? with
      | none => simp [himage, hvideo] at hset
      | some c =>
        simp only [himage, hvideo, Option.some.injEq, Bool.or_eq_true] at hset
        rcases hset with rfl | rfl
        · exact ⟨.image, by simp, matchMask_getElem?.mp himage⟩
        · exact ⟨.video, by simp, matchMask_getElem?.mp hvideo⟩
  · rintro ⟨m, hm, hx⟩
    have hlt : x < ids.length := (List.getElem?_eq_some_iff.mp hx).choose
    have hget : ∀ id, (matchMask ids id)[x]? = some (ids[x] == id) := by
      intro id
      simp [matchMask, hlt]
    have hid : ids[x] = matchId m := (List.getElem?_eq_some_iff.mp hx).choose_spec
    rw [hget, hget]
    cases m with
    | image => simp [hid]
    | video => simp [hid]
    | audio => exact absurd rfl hm

theorem visualMask_of_match {m : Modality} (hm : m ≠ .audio) (i : ℕ)
    (hset : (matchMask ids (matchId m))[i]? = some true) :
    (visualMask ids matchId)[i]? = some true :=
  visualMask_getElem?.mpr ⟨m, hm, matchMask_getElem?.mp hset⟩

/-- Without placeholders of the other visual modality, the mask is that of one modality. -/
theorem visualMask_eq {m : Modality} (hm : m ≠ .audio)
    (hother : ∀ m' ≠ m, m' ≠ .audio → matchId m' ∉ ids) :
    visualMask ids matchId = matchMask ids (matchId m) := by
  refine ext_getElem? fun x => ?_
  by_cases hlt : x < ids.length
  · have hv : x < (visualMask ids matchId).length := by simpa using hlt
    have hm' : x < (matchMask ids (matchId m)).length := by simpa using hlt
    rw [getElem?_eq_getElem hv, getElem?_eq_getElem hm', Option.some.injEq,
      Bool.eq_iff_iff, ← Option.some.injEq, ← Option.some.injEq (matchMask ids (matchId m))[x],
      ← getElem?_eq_getElem hv, ← getElem?_eq_getElem hm', visualMask_getElem?,
      matchMask_getElem?]
    constructor
    · rintro ⟨m', hvisual, hx⟩
      by_cases heq : m' = m
      · exact heq ▸ hx
      · exact absurd (mem_of_getElem? hx) (hother m' heq hvisual)
    · exact fun hx => ⟨m, hm, hx⟩
  · rw [getElem?_eq_none (by simpa using hlt), getElem?_eq_none (by simpa using hlt)]

end VisualMask

section Joint

variable {ids : List ℕ} {matchId : Modality → ℕ}

/-- An assignment that is left out when its mask is empty. -/
theorem assignAny_eq {t : ℕ → α} {mask : List Bool} {rows : List α}
    (hlength : rows.length = mask.count true) :
    assignAny t mask rows = .ok (scatter t 0 mask rows) := by
  unfold assignAny
  by_cases hmem : true ∈ mask
  · rw [if_pos hmem, assign_eq hlength]
  · rw [if_neg hmem]
    have hsame : scatter t 0 mask rows = t := by
      funext p
      refine if_neg fun ⟨_, hset⟩ => hmem ?_
      exact mem_of_getElem? hset
    rw [hsame]

theorem select_match {m : Modality} (hm : m ≠ .audio) :
    (reslice id (visualMask ids matchId) (matchMask ids (matchId m))).count true =
        ids.count (matchId m) ∧
      ∀ {x : ℕ}, (visualMask ids matchId)[x]? = some true →
        ((reslice id (visualMask ids matchId) (matchMask ids (matchId m)))[((visualMask ids
          matchId).take x).count true]? = some true ↔ ids[x]? = some (matchId m)) ∧
        ((reslice id (visualMask ids matchId) (matchMask ids (matchId m))).take
          (((visualMask ids matchId).take x).count true)).count true =
            (ids.take x).count (matchId m) := by
  have hlength : (visualMask ids matchId).length = (matchMask ids (matchId m)).length := by simp
  refine ⟨?_, fun {x} hx => ⟨?_, ?_⟩⟩
  · rw [count_reslice (visualMask_of_match hm), matchMask_count]
  · rw [reslice_getElem? hlength hx, matchMask_getElem?]
  · have htake : ((visualMask ids matchId).take x).length =
        ((matchMask ids (matchId m)).take x).length := by simp
    rw [← length_reslice htake, reslice_take, matchMask_take]
    have hvisual : (visualMask ids matchId).take x = visualMask (ids.take x) matchId := by
      simp [visualMask, take_zipWith, matchMask_take]
    rw [hvisual, count_reslice (visualMask_of_match hm), matchMask_count]

/-- The rows of both modalities, each at its own placeholders. -/
theorem jointLayer_ok [Zero α] (hne : matchId .image ≠ matchId .video) {imgE vidE : List α}
    (hlength : imgE.length = ids.count (matchId .image))
    (hlength' : vidE.length = ids.count (matchId .video)) :
    ∃ layer, jointLayer (matchMask ids (matchId .image)) (matchMask ids (matchId .video))
        (visualMask ids matchId) imgE vidE = .ok layer ∧
      layer.length = (visualMask ids matchId).count true ∧
      ∀ x, (ids[x]? = some (matchId .image) →
          layer[((visualMask ids matchId).take x).count true]? =
            imgE[(ids.take x).count (matchId .image)]?) ∧
        (ids[x]? = some (matchId .video) →
          layer[((visualMask ids matchId).take x).count true]? =
            vidE[(ids.take x).count (matchId .video)]?) := by
  obtain ⟨himage, himageAt⟩ := @select_match ids matchId .image (by simp)
  obtain ⟨hvideo, hvideoAt⟩ := @select_match ids matchId .video (by simp)
  simp only [jointLayer, assignAny_eq (hlength.trans himage.symm),
    assignAny_eq (hlength'.trans hvideo.symm), bind, Except.bind, pure, Except.pure]
  refine ⟨_, rfl, by simp, fun x => ⟨fun hx => ?_, fun hx => ?_⟩⟩
  · have hvisual : (visualMask ids matchId)[x]? = some true :=
      visualMask_getElem?.mpr ⟨.image, by simp, hx⟩
    have hlt := count_take_lt hvisual
    obtain ⟨hset, hcount⟩ := himageAt hvisual
    have hunset := mt (hvideoAt hvisual).1.mp (fun h => hne (Option.some.inj (hx.symm.trans h)))
    have hrow := count_take_lt (hset.mpr hx)
    rw [hcount, himage, ← hlength] at hrow
    rw [getElem?_map, getElem?_range hlt, Option.map_some]
    rw [← Nat.zero_add (((visualMask ids matchId).take x).count true), scatter_unset hunset]
    rw [scatter_set (hset.mpr hx) (by rw [hcount]; exact getElem?_eq_getElem hrow)]
    exact (getElem?_eq_getElem hrow).symm
  · have hvisual : (visualMask ids matchId)[x]? = some true :=
      visualMask_getElem?.mpr ⟨.video, by simp, hx⟩
    have hlt := count_take_lt hvisual
    obtain ⟨hset, hcount⟩ := hvideoAt hvisual
    have hrow := count_take_lt (hset.mpr hx)
    rw [hcount, hvideo, ← hlength'] at hrow
    rw [getElem?_map, getElem?_range hlt, Option.map_some]
    rw [← Nat.zero_add (((visualMask ids matchId).take x).count true)]
    rw [scatter_set (hset.mpr hx) (by rw [hcount]; exact getElem?_eq_getElem hrow)]
    exact (getElem?_eq_getElem hrow).symm

end Joint

/-- The deepstack rows of a piece: in every layer the visual placeholders get, in their
order, the rows that the counters of their modalities point to. -/
def DeepstackRows (layerCount : ℕ) (inputs : OmniInputs α) (matchId : Modality → ℕ)
    (ids : List ℕ) (rows : Modality → ℕ) (layers : List (List α)) : Prop :=
  layers.length = layerCount ∧ ∀ i < layerCount, ∃ layer, layers[i]? = some layer ∧
    layer.length = (visualMask ids matchId).count true ∧
    ∀ x m, m ≠ .audio → ids[x]? = some (matchId m) → ∃ row,
      layer[((visualMask ids matchId).take x).count true]? = some row ∧
      inputs.deepstackRow i m (rows m + (ids.take x).count (matchId m)) = some row

section Rows

variable {layerCount : ℕ} {inputs : OmniInputs α} {matchId : Modality → ℕ} {ids : List ℕ}
  {rows total : Modality → ℕ}

theorem slice_getElem? {layer : List α} {offset count j : ℕ} (hj : j < count) :
    ((layer.drop offset).take count)[j]? = layer[offset + j]? := by
  rw [getElem?_take_of_lt hj, getElem?_drop]

/-- Before a placeholder there are fewer of its kind than in the whole piece. -/
theorem count_take_lt_count {x id : ℕ} (hx : ids[x]? = some id) :
    (ids.take x).count id < ids.count id := by
  have hlt := count_take_lt (matchMask_getElem?.mpr hx)
  rwa [matchMask_take, matchMask_count, matchMask_count] at hlt

/-- The slices of the layers of one modality, when there are no others. -/
theorem deepstackRows_joint {m : Modality} {layers : List (List α)} (hm : m ≠ .audio)
    (hds : inputs.deepstackVisualEmbeds = some layers)
    (hfit : LayersFit layerCount (total m) layers)
    (henough : rows m + ids.count (matchId m) ≤ total m)
    (hother : ∀ m' ≠ m, m' ≠ .audio → matchId m' ∉ ids) :
    DeepstackRows layerCount inputs matchId ids rows
      (sliceLayers layers (rows m, ids.count (matchId m))) := by
  have hmask := visualMask_eq hm hother
  refine ⟨by rw [sliceLayers, length_map, hfit.1], fun i hi => ?_⟩
  obtain ⟨layer, hlayer⟩ : ∃ layer, layers[i]? = some layer := by
    rw [getElem?_eq_getElem (hfit.1.symm ▸ hi)]
    exact ⟨_, rfl⟩
  have hlength := hfit.2 layer (mem_of_getElem? hlayer)
  refine ⟨(layer.drop (rows m)).take (ids.count (matchId m)), ?_, ?_, ?_⟩
  · rw [sliceLayers, getElem?_map, hlayer, Option.map_some]
  · rw [length_take, length_drop, hmask, matchMask_count]
    omega
  · intro x m' hvisual hx
    have heq : m' = m := by
      by_contra hne
      exact hother m' hne hvisual (mem_of_getElem? hx)
    subst heq
    have hlt := count_take_lt_count hx
    rw [hmask, matchMask_take, matchMask_count, slice_getElem? hlt]
    obtain ⟨row, hrow⟩ : ∃ row, layer[rows m' + (ids.take x).count (matchId m')]? = some row := by
      rw [getElem?_eq_getElem (by omega)]
      exact ⟨_, rfl⟩
    refine ⟨row, hrow, ?_⟩
    simp [OmniInputs.deepstackRow, hds, hlayer, hrow]

/-- A loop of calls that all succeed. -/
theorem mapM_ok {β γ : Type} {f : β → Except InjectError γ} {l : List β}
    (hok : ∀ b ∈ l, ∃ c, f b = .ok c) :
    ∃ cs, l.mapM f = .ok cs ∧ cs.length = l.length ∧
      ∀ (i : ℕ) b, l[i]? = some b → ∃ c, cs[i]? = some c ∧ f b = .ok c := by
  induction l with
  | nil => exact ⟨[], rfl, rfl, by simp⟩
  | cons b l ih =>
    obtain ⟨c, hc⟩ := hok b mem_cons_self
    obtain ⟨cs, hcs, hlength, hget⟩ := ih fun b hb => hok b (mem_cons_of_mem _ hb)
    refine ⟨c :: cs, ?_, by rw [length_cons, length_cons, hlength], ?_⟩
    · simp [mapM_cons, hc, hcs, bind, Except.bind, pure, Except.pure]
    · intro i b' hb'
      cases i with
      | zero =>
        rw [getElem?_cons_zero, Option.some.injEq] at hb'
        exact ⟨c, rfl, hb' ▸ hc⟩
      | succ i => exact hget i b' hb'

/-- The joined slices of the layers of both modalities. -/
theorem deepstackRows_separate [Zero α] {image video : List (List α)}
    (hds : inputs.deepstackVisualEmbeds = none)
    (himage : inputs.imageDeepstackVisualEmbeds = some image)
    (hvideo : inputs.videoDeepstackVisualEmbeds = some video)
    (hfit : LayersFit layerCount (total .image) image)
    (hfit' : LayersFit layerCount (total .video) video)
    (henough : ∀ m, matchId m ∈ ids → rows m + ids.count (matchId m) ≤ total m)
    (hne : matchId .image ≠ matchId .video) :
    ∃ layers, ((sliceLayers image (rows .image, ids.count (matchId .image))).zip
        (sliceLayers video (rows .video, ids.count (matchId .video)))).mapM
          (fun layer => jointLayer (matchMask ids (matchId .image))
            (matchMask ids (matchId .video)) (visualMask ids matchId) layer.1 layer.2) =
        .ok layers ∧ DeepstackRows layerCount inputs matchId ids rows layers := by
  have hcount : ∀ m, ids.count (matchId m) = 0 ∨ rows m + ids.count (matchId m) ≤ total m := by
    intro m
    by_cases hmem : matchId m ∈ ids
    · exact Or.inr (henough m hmem)
    · exact Or.inl (count_eq_zero_of_not_mem hmem)
  have hzip : ∀ {i : ℕ} {imgE vidE : List α},
      ((sliceLayers image (rows .image, ids.count (matchId .image))).zip
        (sliceLayers video (rows .video, ids.count (matchId .video))))[i]? = some (imgE, vidE) →
      ∃ imgL vidL, image[i]? = some imgL ∧ video[i]? = some vidL ∧
        imgE = (imgL.drop (rows .image)).take (ids.count (matchId .image)) ∧
        vidE = (vidL.drop (rows .video)).take (ids.count (matchId .video)) ∧
        imgE.length = ids.count (matchId .image) ∧ vidE.length = ids.count (matchId .video) := by
    intro i imgE vidE hi
    obtain ⟨hi, hi'⟩ := getElem?_zip_eq_some.mp hi
    rw [sliceLayers, getElem?_map, Option.map_eq_some_iff] at hi hi'
    obtain ⟨imgL, himgL, rfl⟩ := hi
    obtain ⟨vidL, hvidL, rfl⟩ := hi'
    have hlength := hfit.2 imgL (mem_of_getElem? himgL)
    have hlength' := hfit'.2 vidL (mem_of_getElem? hvidL)
    have hcountImage := hcount .image
    have hcountVideo := hcount .video
    refine ⟨imgL, vidL, himgL, hvidL, rfl, rfl, ?_, ?_⟩
    · rw [length_take, length_drop]
      omega
    · rw [length_take, length_drop]
      omega
  obtain ⟨layers, hok, hlength, hget⟩ := mapM_ok (f := fun layer : List α × List α =>
      jointLayer (matchMask ids (matchId .image)) (matchMask ids (matchId .video))
        (visualMask ids matchId) layer.1 layer.2)
    (l := (sliceLayers image (rows .image, ids.count (matchId .image))).zip
      (sliceLayers video (rows .video, ids.count (matchId .video)))) (by
    rintro ⟨imgE, vidE⟩ hmem
    obtain ⟨i, hi⟩ := mem_iff_getElem?.mp hmem
    obtain ⟨_, _, _, _, _, _, himg, hvid⟩ := hzip hi
    obtain ⟨layer, hlayer, _⟩ := jointLayer_ok hne himg hvid
    exact ⟨layer, hlayer⟩)
  refine ⟨layers, hok, ?_, fun i hi => ?_⟩
  · rw [hlength, length_zip, sliceLayers, sliceLayers, length_map, length_map,
      hfit.1, hfit'.1, Nat.min_self]
  · obtain ⟨⟨imgE, vidE⟩, hpair⟩ : ∃ pair,
        ((sliceLayers image (rows .image, ids.count (matchId .image))).zip
          (sliceLayers video (rows .video, ids.count (matchId .video))))[i]? = some pair := by
      refine ⟨_, getElem?_eq_getElem ?_⟩
      rw [length_zip, sliceLayers, sliceLayers, length_map, length_map, hfit.1,
        hfit'.1, Nat.min_self]
      exact hi
    obtain ⟨imgL, vidL, himgL, hvidL, himgE, hvidE, himg, hvid⟩ := hzip hpair
    obtain ⟨layer, hlayer, hjoint⟩ := hget i _ hpair
    obtain ⟨layer', hlayer', hvisual, hrows⟩ := jointLayer_ok hne himg hvid
    have hsame : layer = layer' := Except.ok.inj (hjoint.symm.trans hlayer')
    subst hsame
    refine ⟨layer, hlayer, hvisual, fun x m hm hx => ?_⟩
    cases m with
    | audio => exact absurd rfl hm
    | image =>
      have hlt := count_take_lt_count hx
      obtain ⟨row, hrow⟩ : ∃ row, imgE[(ids.take x).count (matchId .image)]? = some row :=
        ⟨_, getElem?_eq_getElem (by omega)⟩
      refine ⟨row, ((hrows x).1 hx).trans hrow, ?_⟩
      rw [himgE, slice_getElem? hlt] at hrow
      simp [OmniInputs.deepstackRow, hds, himage, himgL, hrow]
    | video =>
      have hlt := count_take_lt_count hx
      obtain ⟨row, hrow⟩ : ∃ row, vidE[(ids.take x).count (matchId .video)]? = some row :=
        ⟨_, getElem?_eq_getElem (by omega)⟩
      refine ⟨row, ((hrows x).2 hx).trans hrow, ?_⟩
      rw [hvidE, slice_getElem? hlt] at hrow
      simp [OmniInputs.deepstackRow, hds, hvideo, hvidL, hrow]

/-- What the deepstack embeddings of a request come to, if its counters point to its
placeholders. -/
theorem deepstackEmbeds_ok [Zero α] {chunkOffsets : Modality → Option (ℕ × ℕ)}
    (consumed : Consumed) (hlayout : Layout layerCount inputs total)
    (hchunks : ∀ m, chunkOffsets m = chunkOf inputs matchId ids rows m)
    (hembeds : ∀ m, matchId m ∈ ids → inputs.embeds m ≠ none)
    (henough : ∀ m, matchId m ∈ ids → rows m + ids.count (matchId m) ≤ total m)
    (hdistinct : ∀ m m', inputs.embeds m ≠ none → inputs.embeds m' ≠ none →
      matchId m = matchId m' → m = m')
    (hhas : inputs.hasDeepstack = true) :
    ∃ layers consumed', deepstackEmbeds inputs (matchMask ids (matchId .image))
        (matchMask ids (matchId .video)) chunkOffsets consumed = .ok (layers, consumed') ∧
      consumed'.rows = consumed.rows ∧
      match layers with
      | none => true ∉ visualMask ids matchId
      | some layers => DeepstackRows layerCount inputs matchId ids rows layers := by
  have hchunk : ∀ m, (matchId m ∈ ids → (chunkOffsets m).getD (0, 0) =
        (rows m, ids.count (matchId m))) ∧
      (matchId m ∉ ids → (chunkOffsets m).getD (0, 0) = (0, 0)) := by
    intro m
    rw [hchunks]
    constructor
    · intro hmem
      rw [chunkOf, if_pos ⟨hembeds m hmem, hmem⟩, Option.getD_some]
    · intro hmem
      rw [chunkOf, if_neg fun h => hmem h.2, Option.getD_none]
  cases hlayout with
  | without hds himage hvideo => simp [OmniInputs.hasDeepstack, hds, himage, hvideo] at hhas
  | @joint m layers hm hsome hds hfit hzero =>
    have hother : ∀ m' ≠ m, m' ≠ .audio → matchId m' ∉ ids := by
      intro m' hne hvisual hmem
      have hle := henough m' hmem
      have hpos := count_pos_iff.mpr hmem
      rw [hzero m' hne hvisual] at hle
      omega
    have hmask := visualMask_eq hm hother
    unfold deepstackEmbeds
    simp only [hds]
    by_cases hmem : matchId m ∈ ids
    · have hset : true ∈ visualMask ids matchId := by
        rw [hmask]
        exact mem_matchMask.mpr hmem
      have hcount : (visualMask ids matchId).count true = ids.count (matchId m) := by
        rw [hmask, matchMask_count]
      have hoffset : (if true ∈ matchMask ids (matchId .video) ∧
            true ∉ matchMask ids (matchId .image) then ((chunkOffsets .video).getD (0, 0)).1
          else if true ∈ matchMask ids (matchId .image) ∧ true ∉ matchMask ids (matchId .video) then
            ((chunkOffsets .image).getD (0, 0)).1
          else consumed.visual) = rows m := by
        simp only [mem_matchMask]
        cases m with
        | audio => exact absurd rfl hm
        | image =>
          have hvideo := hother .video (by simp) (by simp)
          rw [if_neg fun h => hvideo h.1, if_pos ⟨hmem, hvideo⟩, (hchunk .image).1 hmem]
        | video =>
          have himage := hother .image (by simp) (by simp)
          rw [if_pos ⟨hmem, himage⟩, (hchunk .video).1 hmem]
      rw [if_pos (show true ∈ List.zipWith or _ _ from hset), hoffset]
      refine ⟨_, _, rfl, rfl, ?_⟩
      change DeepstackRows layerCount inputs matchId ids rows
        (sliceLayers layers (rows m, (visualMask ids matchId).count true))
      rw [hcount]
      exact deepstackRows_joint hm hds hfit (henough m hmem) hother
    · have hunset : true ∉ visualMask ids matchId := by
        rw [hmask]
        exact fun h => hmem (mem_matchMask.mp h)
      rw [if_neg (show ¬true ∈ List.zipWith or _ _ from hunset)]
      exact ⟨none, consumed, rfl, rfl, hunset⟩
  | @separate image video hsome hsome' hds himage hvideo hfit hfit' hpos =>
    have hne : matchId .image ≠ matchId .video := fun h => by
      simpa using hdistinct .image .video hsome hsome' h
    have hlayers : ∀ {layers : List (List α)} {n : ℕ}, LayersFit layerCount n layers →
        layersOf (some layers) = some layers := by
      intro layers n hfit
      refine Option.filter_eq_some_iff.mpr ⟨rfl, ?_⟩
      rw [decide_eq_true_eq]
      rintro rfl
      simp [← hfit.1] at hpos
    have hslice : ∀ (m : Modality) (layers : List (List α)),
        sliceLayers layers ((chunkOffsets m).getD (0, 0)) =
          sliceLayers layers (rows m, ids.count (matchId m)) := by
      intro m layers
      by_cases hmem : matchId m ∈ ids
      · rw [(hchunk m).1 hmem]
      · rw [(hchunk m).2 hmem, count_eq_zero_of_not_mem hmem]
        simp [sliceLayers]
    obtain ⟨layers, hok, hrows⟩ :=
      deepstackRows_separate hds himage hvideo hfit hfit' henough hne
    refine ⟨some layers, consumed, ?_, rfl, hrows⟩
    unfold deepstackEmbeds
    simp only [hds, himage, hvideo, hlayers hfit, hlayers hfit', hslice]
    unfold visualMask at hok
    rw [hok]
    rfl

end Rows

/-- The parts of the requests so far, put together: the mask `M` of the positions so far,
and the rows `R` of each layer. -/
structure Merged (layerCount total : ℕ) (parts : List (DeepstackPart α)) (M : List Bool)
    (R : ℕ → List α) : Prop where
  layers : ∀ part ∈ parts, part.layers.length = layerCount
  rows : ∀ i < layerCount, parts.flatMap (fun part => part.layers.getD i []) = R i
  mask : parts.foldl (fun mask part => mask.zipWith or part.mask) (List.replicate total false) =
    M ++ List.replicate (total - M.length) false
  count : ∀ i < layerCount, (R i).length = M.count true
  lengths : ∀ part ∈ parts, part.mask.length = total

section Merged

variable {layerCount total : ℕ} {parts : List (DeepstackPart α)} {M : List Bool}
  {R : ℕ → List α}

theorem Merged.nil : Merged layerCount total ([] : List (DeepstackPart α)) [] fun _ => [] where
  layers := by simp
  rows _ _ := rfl
  mask := rfl
  count _ _ := rfl
  lengths := by simp

/-- A request without deepstack embeddings. -/
theorem Merged.skip (h : Merged layerCount total parts M R) (n : ℕ)
    (hlength : M.length + n ≤ total) :
    Merged layerCount total parts (M ++ List.replicate n false) R := { h with
  mask := by
    rw [h.mask, append_assoc, replicate_append_replicate, length_append, length_replicate]
    congr 2
    omega
  count i hi := by
    rw [h.count i hi, count_append, count_replicate]
    simp }

/-- A mask with nothing before a place, joined with one that has nothing behind it. -/
theorem or_globalMask {v : List Bool} (hlength : M.length + v.length ≤ total) :
    (M ++ List.replicate (total - M.length) false).zipWith or (globalMask total M.length v) =
      (M ++ v) ++ List.replicate (total - (M ++ v).length) false := by
  have hfirst : M.zipWith or (List.replicate M.length false) = M := by
    induction M with
    | nil => rfl
    | cons b M ih => simp [replicate_succ, ih (by simp at hlength; omega)]
  have hsecond : (List.replicate v.length false).zipWith or v = v := by
    clear hlength
    induction v with
    | nil => rfl
    | cons b v ih => simp [replicate_succ, ih]
  have hsplit : List.replicate (total - M.length) false =
      List.replicate v.length false ++ List.replicate (total - M.length - v.length) false := by
    rw [replicate_append_replicate]
    congr 1
    omega
  rw [globalMask, append_assoc, zipWith_append (by simp), hfirst, hsplit,
    zipWith_append (by simp), hsecond, length_append, append_assoc]
  congr 2
  rw [zipWith_replicate]
  congr 1
  omega

/-- A request with deepstack embeddings. -/
theorem Merged.add (h : Merged layerCount total parts M R) {layers : List (List α)}
    {v : List Bool} (hlength : M.length + v.length ≤ total) (hlayers : layers.length = layerCount)
    (hrows : ∀ i < layerCount, (layers.getD i []).length = v.count true) :
    Merged layerCount total (parts ++ [⟨layers, globalMask total M.length v⟩]) (M ++ v)
      fun i => R i ++ layers.getD i [] where
  layers part hpart := by
    rcases mem_append.mp hpart with hold | hnew
    · exact h.layers part hold
    · rw [mem_singleton.mp hnew]
      exact hlayers
  rows i hi := by
    rw [flatMap_append, h.rows i hi]
    simp
  mask := by
    rw [foldl_append, h.mask]
    exact or_globalMask hlength
  count i hi := by
    rw [length_append, h.count i hi, hrows i hi, count_append]
  lengths part hpart := by
    rcases mem_append.mp hpart with hold | hnew
    · exact h.lengths part hold
    · rw [mem_singleton.mp hnew]
      simp only [globalMask, length_append, length_replicate]
      omega

theorem mergeParts_eq (hne : parts ≠ []) (h : Merged layerCount total parts M R) :
    mergeParts total parts = some ⟨(List.range layerCount).map fun i =>
        parts.flatMap fun part => part.layers.getD i [],
      parts.foldl (fun mask part => mask.zipWith or part.mask) (List.replicate total false)⟩ := by
  match parts, hne with
  | [part], _ =>
    have hlayers := h.layers part mem_cons_self
    have hlength := h.lengths part mem_cons_self
    have hmask : (List.replicate total false).zipWith or part.mask = part.mask := by
      rw [← hlength]
      generalize part.mask = mask
      induction mask with
      | nil => rfl
      | cons b mask ih => simp [replicate_succ, ih]
    have hsame : (List.range layerCount).map (fun i =>
        [part].flatMap fun part => part.layers.getD i []) = part.layers := by
      refine ext_getElem (by simp [hlayers]) fun i hi _ => ?_
      simp only [length_map, length_range] at hi
      simp [List.getD, getElem?_eq_getElem (hlayers.symm ▸ hi)]
    rw [mergeParts, hsame, foldl_cons, foldl_nil, hmask]
  | part :: part' :: parts, _ =>
    rw [mergeParts, h.layers part mem_cons_self]
    simp

/-- The model adds the rows of the parts at the positions of their masks. -/
theorem Merged.deepstackAt [Zero α] (h : Merged layerCount total parts M R)
    (hlength : M.length = total) :
    ∃ D, deepstackAt (mergeParts total parts) = .ok D ∧
      ∀ i < layerCount, D i = scatter (fun _ => 0) 0 M (R i) := by
  by_cases hne : parts = []
  · subst hne
    refine ⟨fun _ _ => 0, rfl, fun i hi => ?_⟩
    rw [← h.rows i hi]
    funext p
    simp [scatter]
  · have hmask := h.mask
    rw [hlength, Nat.sub_self, replicate_zero, append_nil] at hmask
    rw [mergeParts_eq hne h, hmask]
    have hrow : ∀ i < layerCount, ((List.range layerCount).map fun i =>
        parts.flatMap fun part => part.layers.getD i [])[i]? = some (R i) := by
      intro i hi
      rw [getElem?_map, getElem?_range hi, Option.map_some, h.rows i hi]
    obtain ⟨tables, hok, htables, hget⟩ := mapM_ok
      (f := fun layer => assign (fun _ => (0 : α)) 0 M layer)
      (l := (List.range layerCount).map fun i => parts.flatMap fun part => part.layers.getD i [])
      (by
        intro layer hlayer
        obtain ⟨i, hi, rfl⟩ := mem_map.mp hlayer
        rw [mem_range] at hi
        rw [h.rows i hi]
        exact ⟨_, assign_eq (h.count i hi)⟩)
    refine ⟨fun i => tables.getD i fun _ => 0, ?_, fun i hi => ?_⟩
    · simp only [Omni.Thinker.deepstackAt, deepstackInput, hok, bind, Except.bind, pure,
        Except.pure]
    · obtain ⟨table, htable, hassign⟩ := hget i _ (hrow i hi)
      rw [assign_eq (h.count i hi), Except.ok.injEq] at hassign
      simp [List.getD, htable, ← hassign]

end Merged

end Omni.Thinker
