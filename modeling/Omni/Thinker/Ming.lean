import Omni.Thinker.Prompts

/-!
# `MingThinkerModelRunner._inject_multimodal_embeds`

The injection of the embeddings of Ming requests. A modality may have no id to match, and a
request with too few embeddings is refused.
-/

namespace Omni.Thinker

open List

variable {α : Type}

/-- `MingThinkerModelRunner`, as far as the injection reads it. -/
structure MingThinkerModelRunner (α : Type) where
  embedTokens : EmbedTokens α
  tokenId : Modality → Option ℕ

/-- The name of a modality in `omni_model_inputs` and in error texts. -/
def Modality.name : Modality → String
  | .image => "image"
  | .video => "video"
  | .audio => "audio"

/-- `_missing_match_id_error`. -/
def missingMatchIdError (m : Modality) (reqId : String) (remaining : ℤ) : InjectError :=
  .valueError (s!"Ming thinker multimodal embeds could not be injected for {m.name} " ++
    s!"request_id={reqId}: no usable match id for remaining={remaining} embed rows")

/-- `_short_embeds_error`. -/
def shortEmbedsError (m : Modality) (reqId : String) (needed available : ℤ) : InjectError :=
  .valueError ("Ming thinker multimodal embeds are shorter than placeholders for " ++
    s!"{m.name} request_id={reqId}: needed={needed}, available={available}")

namespace MingThinkerModelRunner

/-- `_resolve_match_id`. -/
def resolveMatchId (runner : MingThinkerModelRunner α) (inputs : OmniInputs α) (m : Modality) :
    Option ℕ :=
  match inputs.padValues m with
  | some value => some value
  | none => runner.tokenId m

/-- The loop over the modalities, for one of them. -/
def injectModality (runner : MingThinkerModelRunner α) (inputs : OmniInputs α) (reqId : String)
    (isFinalChunk : Bool) (start : ℕ) (reqInputIds : List ℕ) (acc : (ℕ → α) × Consumed)
    (m : Modality) : Except InjectError ((ℕ → α) × Consumed) :=
  match inputs.embeds m with
  | none => .ok acc
  | some embeds =>
    let offset := acc.2.rows m
    match runner.resolveMatchId inputs m with
    | none =>
      if isFinalChunk ∧ offset < embeds.length then
        .error (missingMatchIdError m reqId (embeds.length - offset))
      else .ok acc
    | some matchId =>
      let mask := matchMask reqInputIds matchId
      let nTokens := mask.count true
      if true ∉ mask then .ok acc
      else if (embeds.length : ℤ) - offset < nTokens then
        .error (shortEmbedsError m reqId nTokens (embeds.length - offset))
      else do
        let inputEmbeds ← assign acc.1 start mask ((embeds.drop offset).take nTokens)
        return (inputEmbeds, { acc.2 with rows := Function.update acc.2.rows m (offset + nTokens) })

end MingThinkerModelRunner

/-- The state of the loop over the requests. -/
structure MingInjecting (α : Type) where
  reqs : ℕ → Req α
  inputEmbeds : ℕ → α
  start : ℕ

namespace MingThinkerModelRunner

/-- The loop over the requests. -/
def injectRow (runner : MingThinkerModelRunner α) (rids : ℕ → String) (s : MingInjecting α)
    (row : ExtendRow) : Except InjectError (MingInjecting α) :=
  match (s.reqs row.req).omniModelInputs with
  | none => .ok { s with start := s.start + row.inputIds.length }
  | some inputs => do
    let isFinalChunk := decide (row.isChunked = 0)
    let acc ← [.image, .video, .audio].foldlM
      (runner.injectModality inputs (rids row.req) isFinalChunk s.start row.inputIds)
      (s.inputEmbeds, (s.reqs row.req).omniConsumed.getD .empty)
    return {
      reqs := Function.update s.reqs row.req
        (if row.isChunked = 0 then ⟨none, none⟩ else ⟨some inputs, some acc.2⟩)
      inputEmbeds := acc.1
      start := s.start + row.inputIds.length }

/-- `_inject_multimodal_embeds`, with the requests afterwards. -/
def injectMultimodalEmbeds (runner : MingThinkerModelRunner α) (rids : ℕ → String)
    (reqs : ℕ → Req α) (batch : List ExtendRow) :
    Except InjectError ((ℕ → Req α) × Option (ℕ → α)) :=
  if batch.all fun row => (reqs row.req).omniModelInputs.isNone then .ok (reqs, none)
  else do
    let s ← batch.foldlM (runner.injectRow rids)
      ⟨reqs, runner.embedTokens.table (inputIds batch), 0⟩
    return (s.reqs, some s.inputEmbeds)

/-- The id that a modality is matched by. -/
def matchId (runner : MingThinkerModelRunner α) (inputs : OmniInputs α) (m : Modality) : ℕ :=
  (runner.resolveMatchId inputs m).getD 0

end MingThinkerModelRunner

/-- The inputs of a Ming request: modalities with embeddings have an id to match. -/
structure Prompt.Matched (runner : MingThinkerModelRunner α) (prompt : Prompt α) : Prop where
  wellFormed : prompt.WellFormed runner.matchId
  ids : ∀ inputs ∈ prompt.inputs, ∀ m, inputs.embeds m ≠ none →
    runner.resolveMatchId inputs m ≠ none

section Request

variable {runner : MingThinkerModelRunner α} {inputs : OmniInputs α} {reqId : String}
  {isFinalChunk : Bool} {start : ℕ} {ids : List ℕ}

/-- One modality, with enough embeddings. -/
theorem mingInjectModality_ok {acc : (ℕ → α) × Consumed} {m : Modality}
    (hid : inputs.embeds m ≠ none → runner.resolveMatchId inputs m ≠ none)
    (henough : ∀ table, inputs.embeds m = some table → runner.matchId inputs m ∈ ids →
      acc.2.rows m + ids.count (runner.matchId inputs m) ≤ table.length) :
    ∃ acc', runner.injectModality inputs reqId isFinalChunk start ids acc m = .ok acc' ∧
      Writes inputs.embeds (runner.matchId inputs) start ids [m] acc.1 acc.2.rows acc'.1
        acc'.2.rows := by
  unfold MingThinkerModelRunner.injectModality
  cases hembeds : inputs.embeds m with
  | none => exact ⟨acc, rfl, .skip fun h => absurd hembeds h⟩
  | some table =>
    obtain ⟨id, hresolve⟩ := Option.ne_none_iff_exists'.mp (hid (by simp [hembeds]))
    have hmatch : runner.matchId inputs m = id := by
      simp [MingThinkerModelRunner.matchId, hresolve]
    simp only [hresolve]
    by_cases hids : id ∈ ids
    · have hcount := henough table hembeds (hmatch ▸ hids)
      rw [hmatch] at hcount
      have hlength : ((table.drop (acc.2.rows m)).take ((matchMask ids id).count true)).length =
          (matchMask ids id).count true := by
        rw [length_take, length_drop, matchMask_count]
        omega
      have havailable : ¬(table.length : ℤ) - acc.2.rows m < (matchMask ids id).count true := by
        rw [matchMask_count]
        omega
      rw [if_neg (not_not.mpr (mem_matchMask.mpr hids)), if_neg havailable, assign_eq hlength]
      refine ⟨_, rfl, ?_⟩
      have hwrites := @Writes.single α inputs.embeds (runner.matchId inputs) start ids acc.1
        acc.2.rows m table hembeds (by rwa [hmatch])
      rw [hmatch] at hwrites
      exact hwrites
    · rw [if_pos fun h => hids (mem_matchMask.mp h)]
      exact ⟨acc, rfl, .skip fun _ => hmatch ▸ hids⟩

/-- The loop over modalities, with enough embeddings. -/
theorem mingInjectModalities_ok {ms : List Modality} (hnodup : ms.Nodup)
    (hdistinct : ∀ m m', inputs.embeds m ≠ none → inputs.embeds m' ≠ none →
      runner.matchId inputs m = runner.matchId inputs m' → m = m')
    (hid : ∀ m, inputs.embeds m ≠ none → runner.resolveMatchId inputs m ≠ none)
    {acc : (ℕ → α) × Consumed}
    (henough : ∀ m ∈ ms, ∀ table, inputs.embeds m = some table → runner.matchId inputs m ∈ ids →
      acc.2.rows m + ids.count (runner.matchId inputs m) ≤ table.length) :
    ∃ acc', ms.foldlM (runner.injectModality inputs reqId isFinalChunk start ids) acc = .ok acc' ∧
      Writes inputs.embeds (runner.matchId inputs) start ids ms acc.1 acc.2.rows acc'.1
        acc'.2.rows := by
  induction ms generalizing acc with
  | nil => exact ⟨acc, rfl, .nil⟩
  | cons m ms ih =>
    obtain ⟨hm, hnodup⟩ := nodup_cons.mp hnodup
    obtain ⟨first, hok, hwrites⟩ := @mingInjectModality_ok α runner inputs reqId isFinalChunk
      start ids acc m (hid m) (henough m mem_cons_self)
    have hrest : ∀ m' ∈ ms, ∀ table, inputs.embeds m' = some table →
        runner.matchId inputs m' ∈ ids →
        first.2.rows m' + ids.count (runner.matchId inputs m') ≤ table.length := by
      intro m' hm' table hembeds hids
      have hne : m' ∉ [m] := fun h => hm (mem_singleton.mp h ▸ hm')
      rw [hwrites.rows_of_notMem hne]
      exact henough m' (mem_cons_of_mem m hm') table hembeds hids
    obtain ⟨last, hok', hwrites'⟩ := ih hnodup hrest
    refine ⟨last, ?_, hwrites.cons hwrites' hm hdistinct⟩
    rw [foldlM_cons, hok]
    exact hok'

end Request

section Batch

variable {runner : MingThinkerModelRunner α} {rids : ℕ → String} {prompts : ℕ → Prompt α}
  {reqs : ℕ → Req α} {piece : Piece} {s : MingInjecting α}

theorem mingInjectRow_ok (hready : Ready runner.matchId prompts s.reqs piece)
    (hmatched : (prompts piece.req).Matched runner)
    (hwithin : piece.prefixLen + piece.extendLen ≤ (prompts piece.req).tokens.length)
    (htable : ∀ x < piece.extendLen, ∀ token,
      (prompts piece.req).tokens[piece.prefixLen + x]? = some token →
      s.inputEmbeds (s.start + x) = runner.embedTokens.clamped token) :
    ∃ s', runner.injectRow rids s (piece.row prompts) = .ok s' ∧
      s'.start = s.start + piece.extendLen ∧
      RowEmbedded runner.embedTokens runner.matchId prompts piece s.start s.inputEmbeds s.reqs
        s'.inputEmbeds s'.reqs := by
  have hreq : (piece.row prompts).req = piece.req := rfl
  have hlength := Piece.row_length hwithin
  unfold MingThinkerModelRunner.injectRow
  rw [hreq]
  rcases hready with ⟨hnone, habsent⟩ | ⟨inputs, hsome, hprompt, hcounter⟩
  · rw [hnone]
    exact ⟨_, rfl, congrArg _ hlength, .skip hnone habsent htable⟩
  · rw [hsome]
    have henough : ∀ m ∈ [Modality.image, .video, .audio], ∀ table,
        inputs.embeds m = some table →
        runner.matchId inputs m ∈ (piece.row prompts).inputIds →
        ((s.reqs piece.req).omniConsumed.getD .empty).rows m +
          (piece.row prompts).inputIds.count (runner.matchId inputs m) ≤ table.length := by
      intro m _ table hembeds hmem
      rw [hcounter m (by simp [hembeds]) hmem, hmatched.wellFormed.rows inputs hprompt m _ hembeds]
      exact Piece.count_le _
    obtain ⟨acc, hok, hwrites⟩ := @mingInjectModalities_ok α runner inputs (rids piece.req)
      (decide ((piece.row prompts).isChunked = 0)) s.start (piece.row prompts).inputIds
      [.image, .video, .audio] (by decide) (hmatched.wellFormed.distinct inputs hprompt)
      (hmatched.ids inputs hprompt)
      (s.inputEmbeds, (s.reqs piece.req).omniConsumed.getD .empty) henough
    simp only [hok, bind, Except.bind, pure, Except.pure]
    exact ⟨_, rfl, congrArg _ hlength, .write hsome hprompt hwithin hwrites hcounter htable⟩

theorem mingLoop_ok {batch : List Piece} (hvalid : Valid prompts batch)
    (hmatched : ∀ piece ∈ batch, (prompts piece.req).Matched runner)
    (hready : ∀ piece ∈ batch, Ready runner.matchId prompts reqs piece) {done rest : List Piece}
    (hbatch : done ++ rest = batch) {s : MingInjecting α}
    (hs : EmbedInv runner.embedTokens runner.matchId prompts
      (runner.embedTokens.table (inputIds (batch.map (Piece.row prompts)))) reqs done s.start
      s.inputEmbeds s.reqs) :
    ∃ s', (rest.map (Piece.row prompts)).foldlM (runner.injectRow rids) s = .ok s' ∧
      EmbedInv runner.embedTokens runner.matchId prompts
        (runner.embedTokens.table (inputIds (batch.map (Piece.row prompts)))) reqs batch s'.start
        s'.inputEmbeds s'.reqs := by
  induction rest generalizing done s with
  | nil =>
    rw [append_nil] at hbatch
    exact ⟨s, rfl, hbatch ▸ hs⟩
  | cons piece rest ih =>
    have hpiece : piece ∈ batch := hbatch ▸ mem_append_right _ mem_cons_self
    have hnew := hvalid.new hbatch
    have hbefore : s.reqs piece.req = reqs piece.req := hs.others _ hnew
    obtain ⟨t, hok, hstart, hembedded⟩ := @mingInjectRow_ok α runner rids prompts piece s
      (hready piece hpiece |>.congr hbefore) (hmatched piece hpiece) (hvalid.within piece hpiece)
      (hs.table_eq hvalid.within hbatch)
    obtain ⟨s', hrest, hinv⟩ := ih (by rw [append_assoc, singleton_append, hbatch])
      (hstart ▸ hs.snoc hembedded hnew)
    refine ⟨s', ?_, hinv⟩
    rw [map_cons, foldlM_cons, hok]
    exact hrest

end Batch

/-- The embeddings of a batch are where they belong. A batch that is left to the model itself
has no placeholders. -/
def MingThinkerModelRunner.Lands (runner : MingThinkerModelRunner α) (prompts : ℕ → Prompt α)
    (batch : List Piece) : Option (ℕ → α) → Prop
  | none => Plain runner.matchId prompts batch
  | some inputEmbeds => Placed Piece.extendLen
      (EmbedsWritten runner.embedTokens runner.matchId prompts inputEmbeds) 0 batch

theorem MingThinkerModelRunner.inject_ok {runner : MingThinkerModelRunner α}
    {rids : ℕ → String} {prompts : ℕ → Prompt α} {reqs : ℕ → Req α} {batch : List Piece}
    (hvalid : Valid prompts batch)
    (hmatched : ∀ piece ∈ batch, (prompts piece.req).Matched runner)
    (hready : ∀ piece ∈ batch, Ready runner.matchId prompts reqs piece) :
    ∃ reqs' out, runner.injectMultimodalEmbeds rids reqs (batch.map (Piece.row prompts)) =
        .ok (reqs', out) ∧
      (∀ r, (∀ piece ∈ batch, piece.req ≠ r) → reqs' r = reqs r) ∧
      (∀ piece ∈ batch, After runner.matchId prompts (reqs piece.req) (reqs' piece.req) piece) ∧
      runner.Lands prompts batch out := by
  unfold MingThinkerModelRunner.injectMultimodalEmbeds
  by_cases hall : (batch.map (Piece.row prompts)).all
      fun row => (reqs row.req).omniModelInputs.isNone
  · rw [if_pos hall]
    obtain ⟨hafter, hplain⟩ := plain_of_ready hready hall
    exact ⟨reqs, none, rfl, fun _ _ => rfl, hafter, hplain⟩
  · rw [if_neg hall]
    obtain ⟨s, hok, hinv⟩ := @mingLoop_ok α runner rids prompts reqs batch hvalid hmatched hready
      [] batch (nil_append batch)
      ⟨reqs, runner.embedTokens.table (inputIds (batch.map (Piece.row prompts))), 0⟩ .nil
    refine ⟨s.reqs, some s.inputEmbeds, ?_, hinv.others, hinv.after, hinv.written⟩
    simp only [hok, bind, Except.bind, pure, Except.pure]

end Omni.Thinker
