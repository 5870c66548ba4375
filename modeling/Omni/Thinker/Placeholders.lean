import Omni.Thinker.Deepstack
import Omni.Thinker.Ming

/-!
# Embeddings land on their placeholders

In every run whose pieces cover the placeholders of their prompts in order, the embeddings
of all batches, and for Qwen the deepstack embeddings, are those of the placeholders.
-/

namespace Omni.Thinker

open List

variable {α : Type} {s' : Injecting α} {done batch : List Piece}

/-- The deepstack embeddings of a piece at its place in the batch: in every layer the visual
placeholder number `j` of a modality has row `j`, and the other positions have none. -/
def DeepstackWritten [Zero α] (layerCount : ℕ) (matchId : OmniInputs α → Modality → ℕ)
    (prompts : ℕ → Prompt α) (D : ℕ → ℕ → α) (start : ℕ) (piece : Piece) : Prop :=
  ∀ i < layerCount, ∀ x < piece.extendLen, ∀ token,
    (prompts piece.req).tokens[piece.prefixLen + x]? = some token →
    (∀ inputs ∈ (prompts piece.req).inputs, inputs.hasDeepstack = true → ∀ m, m ≠ .audio →
      token = matchId inputs m → inputs.deepstackRow i m
        (((prompts piece.req).tokens.take (piece.prefixLen + x)).count token) =
          some (D i (start + x))) ∧
    ((∀ inputs ∈ (prompts piece.req).inputs, inputs.hasDeepstack = true → ∀ m, m ≠ .audio →
      token ≠ matchId inputs m) → D i (start + x) = 0)

/-- The inputs of a Qwen request: visual placeholders come with embeddings, and the deepstack
embeddings have one of the two layouts. -/
structure Prompt.WithDeepstack (layerCount : ℕ) (matchId : OmniInputs α → Modality → ℕ)
    (prompt : Prompt α) : Prop where
  wellFormed : prompt.WellFormed matchId
  embeds : ∀ inputs ∈ prompt.inputs, ∀ m, matchId inputs m ∈ prompt.tokens → inputs.embeds m ≠ none
  layout : ∀ inputs ∈ prompt.inputs,
    Layout layerCount inputs fun m => prompt.tokens.count (matchId inputs m)

section Request

variable [Zero α] {runner : ThinkerModelRunner α} {prompts : ℕ → Prompt α} {piece : Piece}
  {layerCount total : ℕ} {s : Injecting α}

/-- What the injection of a piece does to the state of the loop. -/
structure RowInjected (layerCount total : ℕ) (runner : ThinkerModelRunner α)
    (prompts : ℕ → Prompt α) (piece : Piece) (s s' : Injecting α) : Prop where
  start : s'.start = s.start + piece.extendLen
  embedded : RowEmbedded runner.embedTokens runner.matchId prompts piece s.start s.inputEmbeds
    s.reqs s'.inputEmbeds s'.reqs
  deepstack : (s'.parts = s.parts ∧ ∀ inputs ∈ (prompts piece.req).inputs,
      inputs.hasDeepstack = true → ∀ m, m ≠ .audio →
        runner.matchId inputs m ∉ (piece.row prompts).inputIds) ∨
    ∃ inputs layers rows, (prompts piece.req).inputs = some inputs ∧ inputs.hasDeepstack = true ∧
      s'.parts = s.parts ++ [⟨layers, globalMask total s.start
        (visualMask (piece.row prompts).inputIds (runner.matchId inputs))⟩] ∧
      DeepstackRows layerCount inputs (runner.matchId inputs) (piece.row prompts).inputIds rows
        layers ∧
      ∀ m, m ≠ .audio → runner.matchId inputs m ∈ (piece.row prompts).inputIds →
        rows m = ((prompts piece.req).tokens.take piece.prefixLen).count (runner.matchId inputs m)

/-- A request whose inputs are gone, or that never had any. -/
theorem injectRow_none (hnone : (s.reqs piece.req).omniModelInputs = none)
    (hwithin : piece.prefixLen + piece.extendLen ≤ (prompts piece.req).tokens.length)
    (hembeds : ∀ inputs ∈ (prompts piece.req).inputs, ∀ m,
      runner.matchId inputs m ∈ (prompts piece.req).tokens → inputs.embeds m ≠ none)
    (habsent : ∀ inputs ∈ (prompts piece.req).inputs, ∀ m, inputs.embeds m ≠ none →
      runner.matchId inputs m ∉ (piece.row prompts).inputIds)
    (htable : ∀ x < piece.extendLen, ∀ token,
      (prompts piece.req).tokens[piece.prefixLen + x]? = some token →
      s.inputEmbeds (s.start + x) = runner.embedTokens.clamped token) :
    ∃ s', runner.injectRow total s (piece.row prompts) = .ok s' ∧
      RowInjected layerCount total runner prompts piece s s' := by
  have hlength := Piece.row_length hwithin
  refine ⟨{ s with start := s.start + piece.extendLen }, ?_, ?_⟩
  · have hreq : (piece.row prompts).req = piece.req := rfl
    rw [ThinkerModelRunner.injectRow, hreq, hnone, hlength]
  · refine ⟨rfl, .skip hnone habsent htable, Or.inl ⟨rfl, fun inputs hinputs _ m _ hmem => ?_⟩⟩
    · have htokens : runner.matchId inputs m ∈ (prompts piece.req).tokens :=
        drop_subset _ _ (take_subset _ _ hmem)
      exact habsent inputs hinputs m (hembeds inputs hinputs m htokens) hmem

/-- A request with inputs whose counters are at the placeholders that come before the piece. -/
theorem injectRow_some {inputs : OmniInputs α}
    (hsome : (s.reqs piece.req).omniModelInputs = some inputs)
    (hprompt : (prompts piece.req).inputs = some inputs)
    (hwell : (prompts piece.req).WithDeepstack layerCount runner.matchId)
    (hwithin : piece.prefixLen + piece.extendLen ≤ (prompts piece.req).tokens.length)
    (hcounter : ∀ m, inputs.embeds m ≠ none →
      runner.matchId inputs m ∈ (piece.row prompts).inputIds →
      ((s.reqs piece.req).omniConsumed.getD .empty).rows m =
        ((prompts piece.req).tokens.take piece.prefixLen).count (runner.matchId inputs m))
    (htable : ∀ x < piece.extendLen, ∀ token,
      (prompts piece.req).tokens[piece.prefixLen + x]? = some token →
      s.inputEmbeds (s.start + x) = runner.embedTokens.clamped token) :
    ∃ s', runner.injectRow total s (piece.row prompts) = .ok s' ∧
      RowInjected layerCount total runner prompts piece s s' := by
  have hlength := Piece.row_length hwithin
  have hdistinct := hwell.wellFormed.distinct inputs hprompt
  have hfits : ∀ m, inputs.embeds m ≠ none →
      runner.matchId inputs m ∈ (piece.row prompts).inputIds →
      ((s.reqs piece.req).omniConsumed.getD .empty).rows m +
        (piece.row prompts).inputIds.count (runner.matchId inputs m) ≤
          (prompts piece.req).tokens.count (runner.matchId inputs m) := by
    intro m hembeds hmem
    rw [hcounter m hembeds hmem]
    exact Piece.count_le _
  have hpresent : ∀ m, runner.matchId inputs m ∈ (piece.row prompts).inputIds →
      inputs.embeds m ≠ none := fun m hmem =>
    hwell.embeds inputs hprompt m (drop_subset _ _ (take_subset _ _ hmem))
  let before : Injected α :=
    ⟨s.inputEmbeds, (s.reqs piece.req).omniConsumed.getD .empty, fun _ => none⟩
  obtain ⟨acc, hacc, hwrites, -, hchunks, -⟩ :=
    @injectModalities_ok α runner inputs s.start (piece.row prompts).inputIds
      [.image, .video, .audio] (by decide) hdistinct before (by
        intro m _ table hembeds hmem
        rw [hwell.wellFormed.rows inputs hprompt m table hembeds]
        exact hfits m (by simp [hembeds]) hmem)
  have hall : ∀ m : Modality, m ∈ [Modality.image, .video, .audio] := by
    intro m
    cases m <;> simp
  obtain ⟨layers, consumed, hdeepstack, hconsumed, hnone, hlayers⟩ :
      ∃ layers consumed, requestDeepstack inputs
          (matchMask (piece.row prompts).inputIds (runner.matchId inputs .image))
          (matchMask (piece.row prompts).inputIds (runner.matchId inputs .video)) acc =
        .ok (layers, consumed) ∧ consumed.rows = acc.consumed.rows ∧
        (layers = none → inputs.hasDeepstack = true →
          true ∉ visualMask (piece.row prompts).inputIds (runner.matchId inputs)) ∧
        ∀ l, layers = some l → inputs.hasDeepstack = true ∧
          DeepstackRows layerCount inputs (runner.matchId inputs) (piece.row prompts).inputIds
            before.consumed.rows l := by
    unfold requestDeepstack
    by_cases hhas : inputs.hasDeepstack = true
    · have hchunks' : ∀ m, acc.chunkOffsets m = chunkOf inputs (runner.matchId inputs)
          (piece.row prompts).inputIds before.consumed.rows m := by
        intro m
        rw [hchunks m (hall m)]
        exact Option.or_none
      obtain ⟨layers, consumed, hok, hrows, hlayers⟩ :=
        deepstackEmbeds_ok acc.consumed (hwell.layout inputs hprompt) hchunks' hpresent
          (fun m hmem => hfits m (hpresent m hmem) hmem) hdistinct hhas
      refine ⟨layers, consumed, by rw [if_pos hhas, hok], hrows, ?_⟩
      cases layers with
      | none => exact ⟨fun _ _ => hlayers, by simp⟩
      | some layers => exact ⟨by simp, by rintro _ ⟨⟩; exact ⟨hhas, hlayers⟩⟩
    · exact ⟨none, acc.consumed, by rw [if_neg hhas], rfl, fun _ h => absurd h hhas, by simp⟩
  have hreq : (piece.row prompts).req = piece.req := rfl
  refine ⟨s.finishRow total (piece.row prompts) inputs (visualMask (piece.row prompts).inputIds
    (runner.matchId inputs)) acc.inputEmbeds layers consumed, ?_, ?_⟩
  · unfold ThinkerModelRunner.injectRow
    rw [hreq, hsome]
    change runner.injectRequest total s (piece.row prompts) inputs = _
    have hloop : [Modality.image, .video, .audio].foldlM (runner.injectModality inputs s.start
        (piece.row prompts).inputIds) ⟨s.inputEmbeds,
          (s.reqs (piece.row prompts).req).omniConsumed.getD .empty, fun _ => none⟩ = .ok acc :=
              hacc
    simp only [ThinkerModelRunner.injectRequest, hloop, hdeepstack, bind, Except.bind, pure,
      Except.pure, visualMask]
  · constructor
    · rw [← hlength]
      rfl
    · exact .write hsome hprompt hwithin (hconsumed ▸ hwrites) hcounter htable
    · cases layers with
      | none =>
        refine Or.inl ⟨append_nil _, fun inputs' hinputs' hhas m hm hmem => ?_⟩
        obtain rfl := Option.some.inj (hprompt.symm.trans hinputs')
        obtain ⟨x, hx⟩ := mem_iff_getElem?.mp hmem
        exact hnone rfl hhas (mem_of_getElem? (visualMask_getElem?.mpr ⟨m, hm, hx⟩))
      | some layers =>
        obtain ⟨hhas, hrows⟩ := hlayers layers rfl
        exact Or.inr ⟨inputs, layers, before.consumed.rows, hprompt, hhas, rfl, hrows,
          fun m _ hmem => hcounter m (hpresent m hmem) hmem⟩

end Request

variable {layerCount : ℕ} {piece : Piece} {prompts : ℕ → Prompt α}

/-- What has been written into a piece depends on its own positions only. -/
theorem DeepstackWritten.congr [Zero α] {matchId : OmniInputs α → Modality → ℕ} {D D' : ℕ → ℕ → α}
    {start : ℕ} (h : DeepstackWritten layerCount matchId prompts D start piece)
    (hsame : ∀ i < layerCount, ∀ p, start ≤ p → p < start + piece.extendLen → D' i p = D i p) :
    DeepstackWritten layerCount matchId prompts D' start piece := by
  intro i hi x hx token htoken
  rw [hsame i hi (start + x) (by omega) (by omega)]
  exact h i hi x hx token htoken

section Batch

variable [Zero α] {runner : ThinkerModelRunner α} {prompts : ℕ → Prompt α} {layerCount total : ℕ}
  {table : ℕ → α} {reqs : ℕ → Req α}

/-- The invariant of the loop over the requests, after the pieces `done`. -/
structure LoopInv (layerCount total : ℕ) (runner : ThinkerModelRunner α)
    (prompts : ℕ → Prompt α) (table : ℕ → α) (reqs : ℕ → Req α) (done : List Piece)
    (s : Injecting α) : Prop where
  embeds : EmbedInv runner.embedTokens runner.matchId prompts table reqs done s.start
    s.inputEmbeds s.reqs
  deepstack : ∃ M R, M.length = s.start ∧ Merged layerCount total s.parts M R ∧
    Placed Piece.extendLen (DeepstackWritten layerCount runner.matchId prompts
      fun i => scatter (fun _ => 0) 0 M (R i)) 0 done

theorem loopInv_init : LoopInv layerCount total runner prompts table reqs []
    ⟨reqs, table, 0, []⟩ where
  embeds := .nil
  deepstack := ⟨[], fun _ => [], rfl, .nil, trivial⟩

variable {s : Injecting α}

/-- The deepstack rows of one more piece, behind those of the pieces before it. -/
theorem RowInjected.merged (h : RowInjected layerCount total runner prompts piece s s')
    (hwithin : piece.prefixLen + piece.extendLen ≤ (prompts piece.req).tokens.length)
    (htotal : s.start + piece.extendLen ≤ total) {M : List Bool} {R : ℕ → List α}
    (hlength : M.length = s.start) (hmerged : Merged layerCount total s.parts M R) :
    ∃ (v : List Bool)
    (R' : ℕ → List α), v.length = piece.extendLen ∧ Merged layerCount total s'.parts (M ++ v)
        (fun i => R i ++ R' i) ∧
      DeepstackWritten layerCount runner.matchId prompts
        (fun i => scatter (fun _ => 0) 0 (M ++ v) (R i ++ R' i)) s.start piece := by
  have hrow := Piece.row_length hwithin
  rcases h.deepstack with ⟨hparts, hnone⟩ | ⟨inputs, layers, rows, hprompt, hhas, hparts, hrows,
    hcounter⟩
  · refine ⟨List.replicate piece.extendLen false, fun _ => [], length_replicate, ?_, ?_⟩
    · simp only [append_nil, hparts]
      exact hmerged.skip _ (hlength.symm ▸ htotal)
    · intro i hi x hx token htoken
      have hid := (Piece.row_getElem? prompts hx).trans htoken
      constructor
      · rintro inputs hinputs hhas m hm rfl
        exact absurd (mem_of_getElem? hid) (hnone inputs hinputs hhas m hm)
      · intro _
        simp only [← hlength, scatter_append_right (hmerged.count i hi)]
        exact scatter_unset (by simp [getElem?_replicate])
  · have hlayer : ∀ i < layerCount, ∃ layer, layers.getD i [] = layer ∧
        layer.length = (visualMask (piece.row prompts).inputIds (runner.matchId inputs)).count
          true ∧
        ∀ x m, m ≠ .audio → (piece.row prompts).inputIds[x]? = some (runner.matchId inputs m) →
          ∃ row, layer[((visualMask (piece.row prompts).inputIds (runner.matchId inputs)).take
              x).count true]? = some row ∧ inputs.deepstackRow i m (rows m +
                ((piece.row prompts).inputIds.take x).count (runner.matchId inputs m)) =
                  some row := by
      intro i hi
      obtain ⟨layer, hlayer, hcount, hget⟩ := hrows.2 i hi
      exact ⟨layer, by simp [List.getD, hlayer], hcount, hget⟩
    refine ⟨visualMask (piece.row prompts).inputIds (runner.matchId inputs),
      fun i => layers.getD i [], by rw [visualMask_length, hrow], ?_, ?_⟩
    · rw [hparts, ← hlength]
      refine hmerged.add ?_ hrows.1 fun i hi => ?_
      · rw [visualMask_length, hrow, hlength]
        exact htotal
      · obtain ⟨layer, hlayer, hcount, _⟩ := hlayer i hi
        rw [hlayer, hcount]
    · intro i hi x hx token htoken
      have hid := (Piece.row_getElem? prompts hx).trans htoken
      obtain ⟨layer, hlayer, _, hget⟩ := hlayer i hi
      simp only [← hlength, scatter_append_right (hmerged.count i hi), hlayer]
      constructor
      · rintro inputs' hinputs' _ m hm rfl
        obtain rfl := Option.some.inj (hprompt.symm.trans hinputs')
        obtain ⟨row, hrow, hvalue⟩ := hget x m hm hid
        rw [scatter_set (visualMask_getElem?.mpr ⟨m, hm, hid⟩) hrow,
          Piece.count_take (Nat.le_of_lt hx), ← hcounter m hm (mem_of_getElem? hid)]
        exact hvalue
      · intro hnone
        refine scatter_unset fun hset => ?_
        obtain ⟨m, hm, hx'⟩ := visualMask_getElem?.mp hset
        exact hnone inputs hprompt hhas m hm (Option.some.inj (hid.symm.trans hx'))

theorem LoopInv.snoc (h : LoopInv layerCount total runner prompts table reqs done s)
    (hstep : RowInjected layerCount total runner prompts piece s s')
    (hnew : ∀ old ∈ done, old.req ≠ piece.req)
    (hwithin : piece.prefixLen + piece.extendLen ≤ (prompts piece.req).tokens.length)
    (htotal : s.start + piece.extendLen ≤ total) :
    LoopInv layerCount total runner prompts table reqs (done ++ [piece]) s' := by
  obtain ⟨M, R, hM, hmerged, hplaced⟩ := h.deepstack
  obtain ⟨v, R', hv, hmerged', hwritten⟩ := hstep.merged hwithin htotal hM hmerged
  refine ⟨hstep.start ▸ h.embeds.snoc hstep.embedded hnew, M ++ v, fun i => R i ++ R' i, ?_,
    hmerged', ?_⟩
  · rw [length_append, hM, hv, hstep.start]
  · rw [placed_snoc, Nat.zero_add, ← h.embeds.start_eq]
    refine ⟨hplaced.imp (show 0 + _ ≤ s.start by rw [Nat.zero_add, h.embeds.start_eq]) ?_, hwritten⟩
    intro start old _ hbound hold
    refine hold.congr fun i hi p _ hp => ?_
    exact scatter_append_left (by omega) (hmerged.count i hi)

theorem loop_ok (hvalid : Valid prompts batch)
    (hwell : ∀ piece ∈ batch, (prompts piece.req).WithDeepstack layerCount runner.matchId)
    (hready : ∀ piece ∈ batch, Ready runner.matchId prompts reqs piece) {rest : List Piece}
    (hbatch : done ++ rest = batch)
    (hs : LoopInv layerCount (batch.map Piece.extendLen).sum runner prompts
      (runner.embedTokens.table (inputIds (batch.map (Piece.row prompts)))) reqs done s) :
    ∃ s', (rest.map (Piece.row prompts)).foldlM
        (runner.injectRow (batch.map Piece.extendLen).sum) s = .ok s' ∧
      LoopInv layerCount (batch.map Piece.extendLen).sum runner prompts
        (runner.embedTokens.table (inputIds (batch.map (Piece.row prompts)))) reqs batch s' := by
  induction rest generalizing done s with
  | nil =>
    rw [append_nil] at hbatch
    exact ⟨s, rfl, hbatch ▸ hs⟩
  | cons piece rest ih =>
    have hpiece : piece ∈ batch := hbatch ▸ mem_append_right _ mem_cons_self
    have hwithin := hvalid.within piece hpiece
    have hrow := Piece.row_length hwithin
    have hnew := hvalid.new hbatch
    have hbefore : s.reqs piece.req = reqs piece.req := hs.embeds.others _ hnew
    have htable := hs.embeds.table_eq hvalid.within hbatch
    have hstep : ∃ s', runner.injectRow (batch.map Piece.extendLen).sum s (piece.row prompts) =
          .ok s' ∧
        RowInjected layerCount (batch.map Piece.extendLen).sum runner prompts piece s s' := by
      rcases hready piece hpiece with ⟨hnone, habsent⟩ | ⟨inputs, hsome, hprompt, hcounter⟩
      · exact injectRow_none (hbefore ▸ hnone) hwithin (hwell piece hpiece).embeds habsent htable
      · exact injectRow_some (hbefore ▸ hsome) hprompt (hwell piece hpiece) hwithin
          (hbefore ▸ hcounter) htable
    obtain ⟨t, hok, hinjected⟩ := hstep
    have htotal : s.start + piece.extendLen ≤ (batch.map Piece.extendLen).sum := by
      rw [hs.embeds.start_eq, ← hbatch, map_append, sum_append, map_cons, sum_cons]
      omega
    obtain ⟨s', hrest, hinv⟩ := ih (by rw [append_assoc, singleton_append, hbatch])
      (hs.snoc hinjected hnew hwithin htotal)
    refine ⟨s', ?_, hinv⟩
    rw [map_cons, foldlM_cons, hok]
    exact hrest

end Batch

/-- The embeddings of a batch, and its deepstack embeddings, are where they belong. A batch that
is left to the model itself has no placeholders. -/
def ThinkerModelRunner.Lands [Zero α] (layerCount : ℕ) (runner : ThinkerModelRunner α)
    (prompts : ℕ → Prompt α) (batch : List Piece) : Option (InjectedBatch α) → Prop
  | none => Plain runner.matchId prompts batch
  | some out => Placed Piece.extendLen
      (EmbedsWritten runner.embedTokens runner.matchId prompts out.inputEmbeds) 0 batch ∧
    ∃ D, deepstackAt out.deepstack = .ok D ∧ Placed Piece.extendLen
      (DeepstackWritten layerCount runner.matchId prompts D) 0 batch

theorem ThinkerModelRunner.inject_ok [Zero α] {runner : ThinkerModelRunner α} {reqs : ℕ → Req α}
    (hvalid : Valid prompts batch)
    (hwell : ∀ piece ∈ batch, (prompts piece.req).WithDeepstack layerCount runner.matchId)
    (hready : ∀ piece ∈ batch, Ready runner.matchId prompts reqs piece) :
    ∃ reqs' out, runner.injectMultimodalEmbeds reqs (batch.map (Piece.row prompts)) =
        .ok (reqs', out) ∧
      (∀ r, (∀ piece ∈ batch, piece.req ≠ r) → reqs' r = reqs r) ∧
      (∀ piece ∈ batch, After runner.matchId prompts (reqs piece.req) (reqs' piece.req) piece) ∧
      runner.Lands layerCount prompts batch out := by
  unfold ThinkerModelRunner.injectMultimodalEmbeds
  by_cases hall : (batch.map (Piece.row prompts)).all
      fun row => (reqs row.req).omniModelInputs.isNone
  · rw [if_pos hall]
    obtain ⟨hafter, hplain⟩ := plain_of_ready hready hall
    exact ⟨reqs, none, rfl, fun _ _ => rfl, hafter, hplain⟩
  · rw [if_neg hall]
    obtain ⟨s, hok, hinv⟩ := loop_ok hvalid hwell hready (nil_append batch) loopInv_init
    obtain ⟨M, R, hM, hmerged, hplaced⟩ := hinv.deepstack
    obtain ⟨D, hD, hrows⟩ := hmerged.deepstackAt (hM.trans hinv.embeds.start_eq)
    refine ⟨s.reqs, some ⟨s.inputEmbeds, mergeParts (batch.map Piece.extendLen).sum s.parts⟩, ?_,
      hinv.embeds.others, hinv.embeds.after, hinv.embeds.written, D, hD, ?_⟩
    · simp only [inputIds_length hvalid.within, hok, bind, Except.bind, pure, Except.pure]
    · refine hplaced.imp (le_refl _) fun start piece _ _ hpiece => hpiece.congr fun i hi p _ _ => ?_
      rw [hrows i hi]

section Runs

variable {β : Type} {matchId : OmniInputs α → Modality → ℕ} {prompts : ℕ → Prompt α}
  {inject : (ℕ → Req α) → List ExtendRow → Except InjectError ((ℕ → Req α) × β)}

/-- The steps of a run: the batches are valid, and their pieces cover the placeholders of
their prompts in order. -/
def InOrder (matchId : OmniInputs α → Modality → ℕ) (prompts : ℕ → Prompt α) (s : Progress α)
    (batch : List Piece) : Prop :=
  Valid prompts batch ∧ Covers matchId prompts s batch

/-- What the injection of batches in order does: it succeeds, the requests agree with the
history of their prefills after it, and what it returns has a property. -/
theorem injected_of_run {lands : List Piece → β → Prop}
    (hinject : ∀ reqs batch, Valid prompts batch →
      (∀ piece ∈ batch, Ready matchId prompts reqs piece) →
      ∃ reqs' out, inject reqs (batch.map (Piece.row prompts)) = .ok (reqs', out) ∧
        (∀ r, (∀ piece ∈ batch, piece.req ≠ r) → reqs' r = reqs r) ∧
        (∀ piece ∈ batch, After matchId prompts (reqs piece.req) (reqs' piece.req) piece) ∧
        lands batch out) {batches : List (List Piece)} {s : Progress α}
    (hrun : Transition.Run (prefillStep matchId prompts inject) (InOrder matchId prompts)
      (.init prompts) batches s) (hbatch : InOrder matchId prompts s batch) :
    ∃ reqs out, inject s.reqs (batch.map (Piece.row prompts)) = .ok (reqs, out) ∧
      lands batch out := by
  have htracks : Tracks matchId prompts s := by
    refine hrun.invariant (I := Tracks matchId prompts) ?_ (tracks_init matchId prompts)
    intro s batch t hs hok hstep
    obtain ⟨reqs, out, hinjected, hothers, hafter, _⟩ := hinject s.reqs batch hok.1
      fun piece hpiece => ready_of_covers hs hok.2 hpiece
    rw [prefillStep, hinjected] at hstep
    cases hstep
    exact hs.advance hothers hafter
  obtain ⟨reqs, out, hinjected, _, _, hlands⟩ := hinject s.reqs batch hbatch.1
    fun piece hpiece => ready_of_covers htracks hbatch.2 hpiece
  exact ⟨reqs, out, hinjected, hlands⟩

end Runs

/-- **Embeddings on their placeholders.** In every run of prefills in which a piece with
placeholders of a modality comes before the last piece of its request has been prefilled, and
as many of them as there are before the piece have been in earlier pieces of the request, the
injection of every batch succeeds with all embeddings where they belong. -/
theorem embeds_on_placeholders [Zero α] (layerCount : ℕ) (thinker : ThinkerModelRunner α)
    (ming : MingThinkerModelRunner α) (rids : ℕ → String) (prompts : ℕ → Prompt α)
    (batches : List (List Piece)) (s : Progress α) (batch : List Piece) :
    ((∀ r, (prompts r).WithDeepstack layerCount thinker.matchId) →
      Transition.Run (prefillStep thinker.matchId prompts thinker.injectMultimodalEmbeds)
        (InOrder thinker.matchId prompts) (.init prompts) batches s →
      InOrder thinker.matchId prompts s batch →
      ∃ reqs out, thinker.injectMultimodalEmbeds s.reqs (batch.map (Piece.row prompts)) =
        .ok (reqs, out) ∧ thinker.Lands layerCount prompts batch out) ∧
    ((∀ r, (prompts r).Matched ming) →
      Transition.Run (prefillStep ming.matchId prompts (ming.injectMultimodalEmbeds rids))
        (InOrder ming.matchId prompts) (.init prompts) batches s →
      InOrder ming.matchId prompts s batch →
      ∃ reqs out, ming.injectMultimodalEmbeds rids s.reqs (batch.map (Piece.row prompts)) =
        .ok (reqs, out) ∧ ming.Lands prompts batch out) := by
  constructor
  · intro hwell hrun hbatch
    refine injected_of_run (fun reqs batch hvalid hready => ?_) hrun hbatch
    exact thinker.inject_ok hvalid (fun piece _ => hwell piece.req) hready
  · intro hmatched hrun hbatch
    refine injected_of_run (fun reqs batch hvalid hready => ?_) hrun hbatch
    exact ming.inject_ok hvalid (fun piece _ => hmatched piece.req) hready

/-- Two placeholders of images, with a token before them. -/
def twoImages (_ : ℕ) : Prompt ℕ where
  tokens := [1, 7, 7]
  inputs := some ⟨fun m => if m = .image then some [50, 51] else none, fun _ => none, none, none,
    none⟩

/-- A thinker whose image placeholder is 7. -/
def smallThinker : ThinkerModelRunner ℕ where
  embedTokens := ⟨id, 9⟩
  tokenId
    | .image => 7
    | .video => 8
    | .audio => 9

/-- A Ming thinker with the same placeholders. -/
def smallMing : MingThinkerModelRunner ℕ where
  embedTokens := ⟨id, 9⟩
  tokenId m := some (smallThinker.tokenId m)

theorem twoImages_withDeepstack (r : ℕ) : (twoImages r).WithDeepstack 0 smallThinker.matchId where
  wellFormed :=
    { distinct := by
        rintro _ ⟨⟩ m m' _ _
        cases m <;> cases m' <;> simp [smallThinker, ThinkerModelRunner.matchId]
      rows := by
        rintro _ ⟨⟩ m table htable
        cases m <;> cases htable
        rfl }
  embeds := by
    rintro _ ⟨⟩ m
    cases m <;> simp [smallThinker, ThinkerModelRunner.matchId, twoImages]
  layout := by
    rintro _ ⟨⟩
    exact .without rfl rfl rfl

theorem twoImages_matched (r : ℕ) : (twoImages r).Matched smallMing where
  wellFormed := by
    have hsame : smallMing.matchId = smallThinker.matchId := by
      funext inputs m
      rw [MingThinkerModelRunner.matchId, MingThinkerModelRunner.resolveMatchId,
        ThinkerModelRunner.matchId]
      cases inputs.padValues m <;> rfl
    rw [hsame]
    exact (twoImages_withDeepstack r).wellFormed
  ids := by
    rintro _ ⟨⟩ m _
    exact Option.some_ne_none _

/-- Prefilled in two pieces. -/
theorem embeds_on_placeholders_pieces :
    (∃ s reqs out, smallThinker.injectMultimodalEmbeds s
        ([⟨0, 2, 1, 0⟩].map (Piece.row twoImages)) = .ok (reqs, out) ∧
      smallThinker.Lands 0 twoImages [⟨0, 2, 1, 0⟩] out) ∧
    ∃ s reqs out, smallMing.injectMultimodalEmbeds (fun _ => "a") s
        ([⟨0, 2, 1, 0⟩].map (Piece.row twoImages)) = .ok (reqs, out) ∧
      smallMing.Lands twoImages [⟨0, 2, 1, 0⟩] out := by
  have hvalid : ∀ piece ∈ [(⟨0, 0, 2, 1⟩ : Piece), ⟨0, 2, 1, 0⟩], Valid twoImages [piece] := by
    intro piece hpiece
    refine ⟨by simp, ?_, ?_⟩ <;> rcases mem_pair.mp hpiece with rfl | rfl <;> decide
  have hfirst : ∀ matchId : OmniInputs ℕ → Modality → ℕ,
      InOrder matchId twoImages (.init twoImages) [⟨0, 0, 2, 1⟩] := by
    refine fun matchId => ⟨hvalid _ (by simp), fun piece hpiece inputs _ m _ _ => ?_⟩
    obtain rfl := mem_singleton.mp hpiece
    exact ⟨rfl, rfl⟩
  constructor
  · have hrun := Transition.Run.single
      (show InOrder smallThinker.matchId twoImages _ _ from hfirst _)
      (show prefillStep smallThinker.matchId twoImages smallThinker.injectMultimodalEmbeds _ _ =
        some _ from rfl)
    refine ⟨_, (embeds_on_placeholders 0 smallThinker smallMing (fun _ => "a") twoImages _ _
      _).1 twoImages_withDeepstack hrun ⟨hvalid _ (by simp), ?_⟩⟩
    intro piece hpiece inputs hinputs m _ _
    obtain rfl := mem_singleton.mp hpiece
    cases hinputs
    exact ⟨rfl, by cases m <;> rfl⟩
  · have hrun := Transition.Run.single
      (show InOrder smallMing.matchId twoImages _ _ from hfirst _)
      (show prefillStep smallMing.matchId twoImages (smallMing.injectMultimodalEmbeds fun _ => "a")
        _ _ = some _ from rfl)
    refine ⟨_, (embeds_on_placeholders 0 smallThinker smallMing (fun _ => "a") twoImages _ _
      _).2 twoImages_matched hrun ⟨hvalid _ (by simp), ?_⟩⟩
    intro piece hpiece inputs hinputs m _ _
    obtain rfl := mem_singleton.mp hpiece
    cases hinputs
    exact ⟨rfl, by cases m <;> rfl⟩

/-- Behind a cached prefix with the first image, the first row of embeddings is written at the
second placeholder. A prompt that is prefilled again after its last piece gets no embeddings. -/
theorem prefix_shifts_embeds :
    (Valid twoImages [⟨0, 2, 1, 0⟩] ∧ (∀ r, (twoImages r).WithDeepstack 0 smallThinker.matchId) ∧
      ∀ reqs out, smallThinker.injectMultimodalEmbeds (Progress.init twoImages).reqs
        ([⟨0, 2, 1, 0⟩].map (Piece.row twoImages)) = .ok (reqs, out) →
        ¬smallThinker.Lands 0 twoImages [⟨0, 2, 1, 0⟩] out) ∧
    (Valid twoImages [⟨0, 2, 1, 0⟩] ∧ (∀ r, (twoImages r).Matched smallMing) ∧
      ∀ reqs out, smallMing.injectMultimodalEmbeds (fun _ => "a") (Progress.init twoImages).reqs
        ([⟨0, 2, 1, 0⟩].map (Piece.row twoImages)) = .ok (reqs, out) →
        ¬smallMing.Lands twoImages [⟨0, 2, 1, 0⟩] out) ∧
    ∃ s, Valid twoImages [⟨0, 0, 3, 0⟩] ∧
      Transition.Run (prefillStep smallThinker.matchId twoImages
        smallThinker.injectMultimodalEmbeds) (fun _ => Valid twoImages) (.init twoImages)
        [[⟨0, 0, 3, 0⟩]] s ∧
      ∀ reqs out, smallThinker.injectMultimodalEmbeds s.reqs
        ([⟨0, 0, 3, 0⟩].map (Piece.row twoImages)) = .ok (reqs, out) →
        ¬smallThinker.Lands 0 twoImages [⟨0, 0, 3, 0⟩] out := by
  have hvalid : ∀ piece ∈ [(⟨0, 2, 1, 0⟩ : Piece), ⟨0, 0, 3, 0⟩], Valid twoImages [piece] := by
    intro piece hpiece
    refine ⟨by simp, ?_, ?_⟩ <;> rcases mem_pair.mp hpiece with rfl | rfl <;> decide
  have hmisplaced : ∀ (matchId : OmniInputs ℕ → Modality → ℕ) (E : ℕ → ℕ),
      (∀ inputs ∈ (twoImages 0).inputs, matchId inputs .image = 7) → E 0 = 50 →
      ¬EmbedsWritten ⟨id, 9⟩ matchId twoImages E 0 ⟨0, 2, 1, 0⟩ := by
    intro matchId E hmatch hE h
    have hrow := (h 0 (by simp) 7 rfl).1 _ rfl .image [50, 51] rfl (hmatch _ rfl).symm
    rw [hE] at hrow
    exact absurd hrow (by decide)
  refine ⟨⟨hvalid _ (by simp), twoImages_withDeepstack, ?_⟩,
    ⟨hvalid _ (by simp), twoImages_matched, ?_⟩, _, hvalid _ (by simp),
    .single (hvalid _ (by simp)) rfl, ?_⟩
  · rintro reqs out hok hlands
    cases hok
    exact hmisplaced _ _ (by rintro _ ⟨⟩; rfl) rfl hlands.1.1
  · rintro reqs out hok hlands
    cases hok
    exact hmisplaced _ _ (by rintro _ ⟨⟩; rfl) rfl hlands.1
  · rintro reqs out hok hlands
    cases hok
    exact hlands _ (mem_singleton_self _) _ rfl .image (by decide) (by decide)

end Omni.Thinker
