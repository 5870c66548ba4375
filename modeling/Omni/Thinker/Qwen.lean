import Omni.Thinker.Inputs

/-!
# `ThinkerModelRunner._inject_multimodal_embeds`

The injection of image, video and audio embeddings into the placeholders of an extend
batch, and the deepstack embeddings of its visual placeholders.
-/

namespace Omni.Thinker

variable {α : Type}

/-- `ThinkerModelRunner`, as far as the injection reads it. -/
structure ThinkerModelRunner (α : Type) where
  embedTokens : EmbedTokens α
  tokenId : Modality → ℕ

/-- What the loop over the modalities of a request has written. -/
structure Injected (α : Type) where
  inputEmbeds : ℕ → α
  consumed : Consumed
  chunkOffsets : Modality → Option (ℕ × ℕ)

/-- The deepstack embeddings of a request with its `global_mask`. -/
structure DeepstackPart (α : Type) where
  layers : List (List α)
  mask : List Bool

namespace ThinkerModelRunner

/-- `pad_values.get(modality, token_id)`. -/
def matchId (runner : ThinkerModelRunner α) (inputs : OmniInputs α) (m : Modality) : ℕ :=
  (inputs.padValues m).getD (runner.tokenId m)

/-- The loop over the modalities, for one of them. -/
def injectModality (runner : ThinkerModelRunner α) (inputs : OmniInputs α) (start : ℕ)
    (reqInputIds : List ℕ) (acc : Injected α) (m : Modality) :
    Except InjectError (Injected α) :=
  match inputs.embeds m with
  | none => .ok acc
  | some embeds =>
    let mask := matchMask reqInputIds (runner.matchId inputs m)
    if true ∉ mask then .ok acc
    else do
      let nTokens := mask.count true
      let offset := acc.consumed.rows m
      let inputEmbeds ← assign acc.inputEmbeds start mask ((embeds.drop offset).take nTokens)
      return ⟨inputEmbeds,
        { acc.consumed with rows := Function.update acc.consumed.rows m (offset + nTokens) },
        Function.update acc.chunkOffsets m (some (offset, nTokens))⟩

end ThinkerModelRunner

/-- A list of layers that is neither missing nor empty. -/
def layersOf (layers : Option (List (List α))) : Option (List (List α)) :=
  layers.filter fun layers => layers ≠ []

/-- `layer[offset : offset + count]` for every layer. -/
def sliceLayers (layers : List (List α)) (chunk : ℕ × ℕ) : List (List α) :=
  layers.map fun layer => (layer.drop chunk.1).take chunk.2

/-- `if mask.any(): t[mask] = rows`. -/
def assignAny (t : ℕ → α) (mask : List Bool) (rows : List α) : Except InjectError (ℕ → α) :=
  if true ∈ mask then assign t 0 mask rows else .ok t

/-- One layer of the image and video embeddings, joined in the order of the positions. -/
def jointLayer [Zero α] (imgMask vidMask visualMask : List Bool) (imgE vidE : List α) :
    Except InjectError (List α) := do
  let imgInVisual := reslice id visualMask imgMask
  let vidInVisual := reslice id visualMask vidMask
  let joint ← assignAny (fun _ => 0) imgInVisual imgE
  let joint ← assignAny joint vidInVisual vidE
  return (List.range (visualMask.count true)).map joint

/-- The deepstack embeddings of the visual positions of one request, and what they consume. -/
def deepstackEmbeds [Zero α] (inputs : OmniInputs α) (imgMask vidMask : List Bool)
    (chunkOffsets : Modality → Option (ℕ × ℕ)) (consumed : Consumed) :
    Except InjectError (Option (List (List α)) × Consumed) :=
  let visualMask := imgMask.zipWith or vidMask
  let imageChunk := (chunkOffsets .image).getD (0, 0)
  let videoChunk := (chunkOffsets .video).getD (0, 0)
  match inputs.deepstackVisualEmbeds with
  | none =>
    match layersOf inputs.imageDeepstackVisualEmbeds,
        layersOf inputs.videoDeepstackVisualEmbeds with
    | some imageDs, some videoDs => do
      let merged ← ((sliceLayers imageDs imageChunk).zip (sliceLayers videoDs videoChunk)).mapM
        fun layer => jointLayer imgMask vidMask visualMask layer.1 layer.2
      return (some merged, consumed)
    | some imageDs, none => .ok (some (sliceLayers imageDs imageChunk), consumed)
    | none, some videoDs => .ok (some (sliceLayers videoDs videoChunk), consumed)
    | none, none => .ok (none, consumed)
  | some dsEmbeds =>
    if true ∈ visualMask then
      let visualCount := visualMask.count true
      let visualOffset :=
        if true ∈ vidMask ∧ true ∉ imgMask then videoChunk.1
        else if true ∈ imgMask ∧ true ∉ vidMask then imageChunk.1
        else consumed.visual
      .ok (some (sliceLayers dsEmbeds (visualOffset, visualCount)),
        { consumed with visual := visualOffset + visualCount })
    else .ok (none, consumed)

/-- The request has deepstack embeddings. -/
def OmniInputs.hasDeepstack (inputs : OmniInputs α) : Bool :=
  inputs.deepstackVisualEmbeds.isSome || inputs.imageDeepstackVisualEmbeds.isSome ||
    inputs.videoDeepstackVisualEmbeds.isSome

/-- The deepstack embeddings of one request, if it has any. -/
def requestDeepstack [Zero α] (inputs : OmniInputs α) (imgMask vidMask : List Bool)
    (acc : Injected α) : Except InjectError (Option (List (List α)) × Consumed) :=
  if inputs.hasDeepstack then
    deepstackEmbeds inputs imgMask vidMask acc.chunkOffsets acc.consumed
  else .ok (none, acc.consumed)

/-- `global_mask[start:end] = visual_mask` in a mask of length `total`. -/
def globalMask (total start : ℕ) (visualMask : List Bool) : List Bool :=
  List.replicate start false ++ visualMask ++
    List.replicate (total - start - visualMask.length) false

/-- The state of the loop over the requests. -/
structure Injecting (α : Type) where
  reqs : ℕ → Req α
  inputEmbeds : ℕ → α
  start : ℕ
  parts : List (DeepstackPart α)

/-- The end of the loop over the requests, for a request with multimodal inputs. -/
def Injecting.finishRow (s : Injecting α) (total : ℕ) (row : ExtendRow) (inputs : OmniInputs α)
    (visualMask : List Bool) (inputEmbeds : ℕ → α) (dsEmbeds : Option (List (List α)))
    (consumed : Consumed) : Injecting α where
  reqs := Function.update s.reqs row.req
    (if row.isChunked = 0 then ⟨none, none⟩ else ⟨some inputs, some consumed⟩)
  inputEmbeds := inputEmbeds
  start := s.start + row.inputIds.length
  parts := s.parts ++
    (dsEmbeds.map fun layers => ⟨layers, globalMask total s.start visualMask⟩).toList

namespace ThinkerModelRunner

/-- The loop over the requests, for a request with multimodal inputs. -/
def injectRequest [Zero α] (runner : ThinkerModelRunner α) (total : ℕ) (s : Injecting α)
    (row : ExtendRow) (inputs : OmniInputs α) : Except InjectError (Injecting α) := do
  let consumed := (s.reqs row.req).omniConsumed.getD .empty
  let acc : Injected α := ⟨s.inputEmbeds, consumed, fun _ => none⟩
  let acc ← [.image, .video, .audio].foldlM (runner.injectModality inputs s.start row.inputIds) acc
  let imgMask := matchMask row.inputIds (runner.matchId inputs .image)
  let vidMask := matchMask row.inputIds (runner.matchId inputs .video)
  let (dsEmbeds, consumed) ← requestDeepstack inputs imgMask vidMask acc
  return s.finishRow total row inputs (imgMask.zipWith or vidMask) acc.inputEmbeds dsEmbeds consumed

/-- The loop over the requests. -/
def injectRow [Zero α] (runner : ThinkerModelRunner α) (total : ℕ) (s : Injecting α)
    (row : ExtendRow) : Except InjectError (Injecting α) :=
  match (s.reqs row.req).omniModelInputs with
  | none => .ok { s with start := s.start + row.inputIds.length }
  | some inputs => runner.injectRequest total s row inputs

end ThinkerModelRunner

/-- The deepstack embeddings of the batch with their mask. All parts have as many layers as
the first. -/
def mergeParts (total : ℕ) : List (DeepstackPart α) → Option (DeepstackPart α)
  | [] => none
  | [part] => some part
  | part :: parts => some ⟨(List.range part.layers.length).map fun layer =>
      (part :: parts).flatMap fun part => part.layers.getD layer [],
    (part :: parts).foldl (fun mask part => mask.zipWith or part.mask) (List.replicate total false)⟩

/-- What `_inject_multimodal_embeds` returns. -/
structure InjectedBatch (α : Type) where
  inputEmbeds : ℕ → α
  deepstack : Option (DeepstackPart α)

/-- `_inject_multimodal_embeds`, with the requests afterwards. -/
def ThinkerModelRunner.injectMultimodalEmbeds [Zero α] (runner : ThinkerModelRunner α)
    (reqs : ℕ → Req α) (batch : List ExtendRow) :
    Except InjectError ((ℕ → Req α) × Option (InjectedBatch α)) :=
  if batch.all fun row => (reqs row.req).omniModelInputs.isNone then .ok (reqs, none)
  else do
    let total := (inputIds batch).length
    let table := runner.embedTokens.table (inputIds batch)
    let s ← batch.foldlM (runner.injectRow total) ⟨reqs, table, 0, []⟩
    return (s.reqs, some ⟨s.inputEmbeds, mergeParts total s.parts⟩)

/-- `full_ds[visual_pos_masks] = ds_input` in `_forward_with_omni_embeds`, layer by layer. -/
def deepstackInput [Zero α] (part : DeepstackPart α) : Except InjectError (List (ℕ → α)) :=
  part.layers.mapM fun layer => assign (fun _ => 0) 0 part.mask layer

/-- The deepstack row that the model adds at a position, in one of the layers. -/
def deepstackAt [Zero α] : Option (DeepstackPart α) → Except InjectError (ℕ → ℕ → α)
  | none => .ok fun _ _ => 0
  | some part => do
    let tables ← deepstackInput part
    return fun layer => tables.getD layer fun _ => 0

section Modalities

variable {runner : ThinkerModelRunner α} {inputs : OmniInputs α} {start : ℕ} {ids : List ℕ}

/-- The chunk of a modality in a piece of the prompt. -/
def chunkOf (inputs : OmniInputs α) (matchId : Modality → ℕ) (ids : List ℕ)
    (rows : Modality → ℕ) (m : Modality) : Option (ℕ × ℕ) :=
  if inputs.embeds m ≠ none ∧ matchId m ∈ ids then some (rows m, ids.count (matchId m)) else none

/-- One modality, with enough embeddings. -/
theorem injectModality_ok {acc : Injected α} {m : Modality}
    (henough : ∀ table, inputs.embeds m = some table → runner.matchId inputs m ∈ ids →
      acc.consumed.rows m + ids.count (runner.matchId inputs m) ≤ table.length) :
    ∃ acc', runner.injectModality inputs start ids acc m = .ok acc' ∧
      Writes inputs.embeds (runner.matchId inputs) start ids [m] acc.inputEmbeds
        acc.consumed.rows acc'.inputEmbeds acc'.consumed.rows ∧
      acc'.consumed.visual = acc.consumed.visual ∧
      acc'.chunkOffsets m = (chunkOf inputs (runner.matchId inputs) ids acc.consumed.rows m).or
        (acc.chunkOffsets m) ∧
      ∀ m' ≠ m, acc'.chunkOffsets m' = acc.chunkOffsets m' := by
  unfold ThinkerModelRunner.injectModality
  cases hembeds : inputs.embeds m with
  | none =>
    refine ⟨acc, rfl, .skip fun h => absurd hembeds h, rfl, ?_, fun _ _ => rfl⟩
    simp [chunkOf, hembeds]
  | some table =>
    by_cases hids : runner.matchId inputs m ∈ ids
    · have hcount := henough table hembeds hids
      have hlength : ((table.drop (acc.consumed.rows m)).take
          ((matchMask ids (runner.matchId inputs m)).count true)).length =
            (matchMask ids (runner.matchId inputs m)).count true := by
        rw [List.length_take, List.length_drop, matchMask_count]
        omega
      simp only [if_neg (not_not.mpr (mem_matchMask.mpr hids)), assign_eq hlength]
      refine ⟨_, rfl, Writes.single hembeds hcount, rfl, ?_, ?_⟩
      · simp [chunkOf, hembeds, hids, matchMask_count]
      · exact fun m' hne => Function.update_of_ne hne _ _
    · simp only [if_pos fun h => hids (mem_matchMask.mp h)]
      refine ⟨acc, rfl, .skip fun _ => hids, rfl, ?_, fun _ _ => rfl⟩
      simp [chunkOf, hids]

/-- The loop over modalities, with enough embeddings. -/
theorem injectModalities_ok {ms : List Modality} (hnodup : ms.Nodup)
    (hdistinct : ∀ m m', inputs.embeds m ≠ none → inputs.embeds m' ≠ none →
      runner.matchId inputs m = runner.matchId inputs m' → m = m')
    {acc : Injected α}
    (henough : ∀ m ∈ ms, ∀ table, inputs.embeds m = some table → runner.matchId inputs m ∈ ids →
      acc.consumed.rows m + ids.count (runner.matchId inputs m) ≤ table.length) :
    ∃ acc', ms.foldlM (runner.injectModality inputs start ids) acc = .ok acc' ∧
      Writes inputs.embeds (runner.matchId inputs) start ids ms acc.inputEmbeds
        acc.consumed.rows acc'.inputEmbeds acc'.consumed.rows ∧
      acc'.consumed.visual = acc.consumed.visual ∧
      (∀ m ∈ ms, acc'.chunkOffsets m =
        (chunkOf inputs (runner.matchId inputs) ids acc.consumed.rows m).or (acc.chunkOffsets m)) ∧
      ∀ m, m ∉ ms → acc'.chunkOffsets m = acc.chunkOffsets m := by
  induction ms generalizing acc with
  | nil => exact ⟨acc, rfl, .nil, rfl, by simp, fun _ _ => rfl⟩
  | cons m ms ih =>
    obtain ⟨hm, hnodup⟩ := List.nodup_cons.mp hnodup
    obtain ⟨first, hok, hwrites, hvisual, hchunk, hothers⟩ :=
      @injectModality_ok α runner inputs start ids acc m (henough m List.mem_cons_self)
    have hrows : ∀ m' ∈ ms, first.consumed.rows m' = acc.consumed.rows m' := by
      intro m' hm'
      refine hwrites.rows_of_notMem fun h => hm ?_
      exact List.mem_singleton.mp h ▸ hm'
    have hrest : ∀ m' ∈ ms, ∀ table, inputs.embeds m' = some table →
        runner.matchId inputs m' ∈ ids →
        first.consumed.rows m' + ids.count (runner.matchId inputs m') ≤ table.length := by
      intro m' hm' table hembeds hids
      rw [hrows m' hm']
      exact henough m' (List.mem_cons_of_mem m hm') table hembeds hids
    obtain ⟨last, hok', hwrites', hvisual', hchunk', hothers'⟩ := ih hnodup hrest
    refine ⟨last, ?_, hwrites.cons hwrites' hm hdistinct, hvisual'.trans hvisual, ?_, ?_⟩
    · rw [List.foldlM_cons, hok]
      exact hok'
    · intro m' hm'
      rcases List.mem_cons.mp hm' with rfl | hmem
      · rw [hothers' m' hm, hchunk]
      · have hne : m' ≠ m := fun h => hm (h ▸ hmem)
        rw [hchunk' m' hmem, hothers m' hne]
        unfold chunkOf
        rw [hrows m' hmem]
    · intro m' hm'
      rw [hothers' m' fun h => hm' (List.mem_cons_of_mem m h),
        hothers m' fun h => hm' (h ▸ List.mem_cons_self)]

end Modalities

end Omni.Thinker
