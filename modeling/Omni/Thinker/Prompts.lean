import Omni.Library.Transition
import Omni.Thinker.Inputs

/-!
# Prompts and their prefills

A prompt is prefilled in pieces, by one extend batch after the other. A piece begins behind
the prefix whose KV cache is there already, and a request whose last piece has been
prefilled may be prefilled again.
-/

namespace Omni.Thinker

open List

variable {α : Type} {x start : ℕ} {t t' : ℕ → α} {reqs' : ℕ → Req α} {inputs : OmniInputs α}

/-- The prompt of a request, with the `omni_model_inputs` that it comes with. -/
structure Prompt (α : Type) where
  tokens : List ℕ
  inputs : Option (OmniInputs α)

/-- The part of a prompt that an extend batch prefills. -/
structure Piece where
  req : ℕ
  prefixLen : ℕ
  extendLen : ℕ
  isChunked : ℕ
  deriving DecidableEq

/-- The request in the extend batch. -/
def Piece.row (prompts : ℕ → Prompt α) (piece : Piece) : ExtendRow :=
  ⟨piece.req, ((prompts piece.req).tokens.drop piece.prefixLen).take piece.extendLen,
    piece.isChunked⟩

/-- An extend batch has pieces of different requests, and `is_chunked` is 0 on last pieces. -/
structure Valid (prompts : ℕ → Prompt α) (batch : List Piece) : Prop where
  nodup : (batch.map Piece.req).Nodup
  within : ∀ piece ∈ batch, piece.prefixLen + piece.extendLen ≤ (prompts piece.req).tokens.length
  last : ∀ piece ∈ batch, piece.isChunked = 0 ↔
    piece.prefixLen + piece.extendLen = (prompts piece.req).tokens.length

/-- Different modalities have different placeholders, and there is one row of embeddings for
each placeholder. -/
structure Prompt.WellFormed (matchId : OmniInputs α → Modality → ℕ) (prompt : Prompt α) :
    Prop where
  distinct : ∀ inputs ∈ prompt.inputs, ∀ m m', inputs.embeds m ≠ none →
    inputs.embeds m' ≠ none → matchId inputs m = matchId inputs m' → m = m'
  rows : ∀ inputs ∈ prompt.inputs, ∀ m table, inputs.embeds m = some table →
    table.length = prompt.tokens.count (matchId inputs m)

/-- The embeddings of a piece at its place in the batch: the placeholder number `j` of a
modality, counted over the whole prompt, has row `j`, and the other positions have the
embeddings of their tokens. -/
def EmbedsWritten (embedTokens : EmbedTokens α) (matchId : OmniInputs α → Modality → ℕ)
    (prompts : ℕ → Prompt α) (E : ℕ → α) (start : ℕ) (piece : Piece) : Prop :=
  ∀ x < piece.extendLen, ∀ token,
    (prompts piece.req).tokens[piece.prefixLen + x]? = some token →
    (∀ inputs ∈ (prompts piece.req).inputs, ∀ m table, inputs.embeds m = some table →
      token = matchId inputs m →
      table[((prompts piece.req).tokens.take (piece.prefixLen + x)).count token]? =
        some (E (start + x))) ∧
    ((∀ inputs ∈ (prompts piece.req).inputs, ∀ m, inputs.embeds m ≠ none →
      token ≠ matchId inputs m) → E (start + x) = embedTokens.clamped token)

/-- The requests, with the history of their prefills: how many placeholders of a modality
have been in the pieces of a request, and whether its last piece has been prefilled. -/
structure Progress (α : Type) where
  reqs : ℕ → Req α
  own : ℕ → Modality → ℕ
  ended : ℕ → Bool

/-- The requests as they are built. -/
def Progress.init (prompts : ℕ → Prompt α) : Progress α :=
  ⟨fun r => ⟨(prompts r).inputs, none⟩, fun _ _ => 0, fun _ => false⟩

/-- A batch without placeholders. -/
def Plain (matchId : OmniInputs α → Modality → ℕ) (prompts : ℕ → Prompt α)
    (batch : List Piece) : Prop :=
  ∀ piece ∈ batch, ∀ inputs ∈ (prompts piece.req).inputs, ∀ m, inputs.embeds m ≠ none →
    matchId inputs m ∉ (piece.row prompts).inputIds

/-- The number of placeholders of a modality in a piece. -/
def Piece.placeholders (matchId : OmniInputs α → Modality → ℕ) (prompts : ℕ → Prompt α)
    (piece : Piece) (m : Modality) : ℕ :=
  match (prompts piece.req).inputs with
  | none => 0
  | some inputs => (piece.row prompts).inputIds.count (matchId inputs m)

/-- The history after a batch. -/
def Progress.advance (s : Progress α) (matchId : OmniInputs α → Modality → ℕ)
    (prompts : ℕ → Prompt α) (reqs : ℕ → Req α) (batch : List Piece) : Progress α where
  reqs := reqs
  own r m := match batch.find? fun piece => piece.req = r with
    | some piece => s.own r m + piece.placeholders matchId prompts m
    | none => s.own r m
  ended r := match batch.find? fun piece => piece.req = r with
    | some piece => s.ended r || piece.isChunked = 0
    | none => s.ended r

/-- The pieces of a request cover the placeholders of its prompt in their order: a piece with
placeholders of a modality comes before the last piece has been prefilled, and as many of
them as there are before it have been in earlier pieces of the request. -/
def Covers (matchId : OmniInputs α → Modality → ℕ) (prompts : ℕ → Prompt α) (s : Progress α)
    (batch : List Piece) : Prop :=
  ∀ piece ∈ batch, ∀ inputs ∈ (prompts piece.req).inputs, ∀ m, inputs.embeds m ≠ none →
    matchId inputs m ∈ (piece.row prompts).inputIds →
    s.ended piece.req = false ∧
    s.own piece.req m = ((prompts piece.req).tokens.take piece.prefixLen).count (matchId inputs m)

/-- The injection of a batch, as a step of the requests. -/
def prefillStep {β : Type} (matchId : OmniInputs α → Modality → ℕ) (prompts : ℕ → Prompt α)
    (inject : (ℕ → Req α) → List ExtendRow → Except InjectError ((ℕ → Req α) × β))
    (s : Progress α) (batch : List Piece) : Option (Progress α) :=
  match inject s.reqs (batch.map (Piece.row prompts)) with
  | .ok (reqs, _) => some (s.advance matchId prompts reqs batch)
  | .error _ => none

variable {matchId : OmniInputs α → Modality → ℕ}

section Piece

variable {prompts : ℕ → Prompt α} {piece : Piece}

theorem Piece.row_length
    (hwithin : piece.prefixLen + piece.extendLen ≤ (prompts piece.req).tokens.length) :
    (piece.row prompts).inputIds.length = piece.extendLen := by
  rw [Piece.row, length_take, length_drop]
  omega

theorem Piece.row_getElem? (prompts : ℕ → Prompt α) (hx : x < piece.extendLen) :
    (piece.row prompts).inputIds[x]? = (prompts piece.req).tokens[piece.prefixLen + x]? := by
  rw [Piece.row, getElem?_take_of_lt hx, getElem?_drop]

theorem Piece.count_take (hx : x ≤ piece.extendLen) (token : ℕ) :
    ((prompts piece.req).tokens.take (piece.prefixLen + x)).count token =
      ((prompts piece.req).tokens.take piece.prefixLen).count token +
        ((piece.row prompts).inputIds.take x).count token := by
  rw [take_add, count_append, Piece.row, take_take, Nat.min_eq_left hx]

theorem Piece.count_le (token : ℕ) :
    ((prompts piece.req).tokens.take piece.prefixLen).count token +
      (piece.row prompts).inputIds.count token ≤ (prompts piece.req).tokens.count token := by
  have hsplit := congrArg (List.count token)
    (take_append_drop piece.prefixLen (prompts piece.req).tokens)
  rw [count_append] at hsplit
  have hle := (take_sublist piece.extendLen
    ((prompts piece.req).tokens.drop piece.prefixLen)).count_le token
  change _ + (((prompts piece.req).tokens.drop piece.prefixLen).take piece.extendLen).count token
    ≤ _
  omega

variable {embedTokens : EmbedTokens α}

/-- What a loop over all modalities writes into a piece, if its counters are at the
placeholders that come before it. -/
theorem embedsWritten_of_writes {rows rows' : Modality → ℕ}
    (hinputs : (prompts piece.req).inputs = some inputs)
    (hwrites : Writes inputs.embeds (matchId inputs) start (piece.row prompts).inputIds
      [.image, .video, .audio] t rows t' rows')
    (hrows : ∀ m, inputs.embeds m ≠ none → matchId inputs m ∈ (piece.row prompts).inputIds →
      rows m = ((prompts piece.req).tokens.take piece.prefixLen).count (matchId inputs m))
    (htable : ∀ x < piece.extendLen, ∀ token,
      (prompts piece.req).tokens[piece.prefixLen + x]? = some token →
      t (start + x) = embedTokens.clamped token) :
    EmbedsWritten embedTokens matchId prompts t' start piece := by
  intro x hx token htoken
  have hid := (Piece.row_getElem? prompts hx).trans htoken
  constructor
  · rintro inputs' hinputs' m table hembeds rfl
    obtain rfl := Option.some.inj (hinputs.symm.trans hinputs')
    have hsome : inputs.embeds m ≠ none := by simp [hembeds]
    rw [Piece.count_take (Nat.le_of_lt hx), ← hrows m hsome (mem_of_getElem? hid)]
    exact hwrites.written (by cases m <;> simp) hembeds hid
  · intro hnone
    rw [hwrites.other, htable x hx token htoken]
    intro m _ hembeds hx'
    exact hnone inputs hinputs m hembeds (Option.some.inj (hid.symm.trans hx'))

/-- A piece without placeholders, in a table of token embeddings. -/
theorem embedsWritten_of_none
    (hnone : ∀ inputs ∈ (prompts piece.req).inputs, ∀ m, inputs.embeds m ≠ none →
      matchId inputs m ∉ (piece.row prompts).inputIds) (htable : ∀ x < piece.extendLen, ∀ token,
      (prompts piece.req).tokens[piece.prefixLen + x]? = some token →
      t (start + x) = embedTokens.clamped token) :
    EmbedsWritten embedTokens matchId prompts t start piece := by
  intro x hx token htoken
  have hid := (Piece.row_getElem? prompts hx).trans htoken
  constructor
  · rintro inputs hinputs m table hembeds rfl
    exact absurd (mem_of_getElem? hid) (hnone inputs hinputs m (by simp [hembeds]))
  · exact fun _ => htable x hx token htoken

/-- What has been written into a piece depends on its own positions only. -/
theorem EmbedsWritten.congr {E E' : ℕ → α}
    (h : EmbedsWritten embedTokens matchId prompts E start piece)
    (hsame : ∀ p, start ≤ p → p < start + piece.extendLen → E' p = E p) :
    EmbedsWritten embedTokens matchId prompts E' start piece := by
  intro x hx token htoken
  rw [hsame (start + x) (by omega) (by omega)]
  exact h x hx token htoken

end Piece

/-- The inputs and counters of the requests agree with the history of their prefills. -/
def Tracks (_ : OmniInputs α → Modality → ℕ) (prompts : ℕ → Prompt α) (s : Progress α) :
    Prop :=
  ∀ r, (s.ended r = true → (s.reqs r).omniModelInputs = none) ∧
    (s.ended r = false → (s.reqs r).omniModelInputs = (prompts r).inputs ∧
      ∀ inputs ∈ (prompts r).inputs, ∀ m, inputs.embeds m ≠ none →
        ((s.reqs r).omniConsumed.getD .empty).rows m = s.own r m)

theorem tracks_init (matchId : OmniInputs α → Modality → ℕ) (prompts : ℕ → Prompt α) :
    Tracks matchId prompts (.init prompts) := by
  intro r
  refine ⟨by simp [Progress.init], fun _ => ⟨rfl, fun _ _ _ _ => rfl⟩⟩

/-- What the injection of a piece leaves of its request. -/
def After (matchId : OmniInputs α → Modality → ℕ) (prompts : ℕ → Prompt α) (before after : Req α)
    (piece : Piece) : Prop :=
  (before.omniModelInputs = none → after.omniModelInputs = none) ∧
  ∀ inputs, before.omniModelInputs = some inputs →
    (piece.isChunked = 0 → after.omniModelInputs = none) ∧
    (piece.isChunked ≠ 0 → after.omniModelInputs = some inputs ∧
      ∀ m, inputs.embeds m ≠ none → (after.omniConsumed.getD .empty).rows m =
        (before.omniConsumed.getD .empty).rows m +
          (piece.row prompts).inputIds.count (matchId inputs m))

variable {batch : List Piece}

variable {s : Progress α} {prompts : ℕ → Prompt α} {reqs : ℕ → Req α}

/-- The history still agrees after a batch. -/
theorem Tracks.advance (h : Tracks matchId prompts s)
    (hothers : ∀ r, (∀ piece ∈ batch, piece.req ≠ r) → reqs r = s.reqs r)
    (hafter : ∀ piece ∈ batch, After matchId prompts (s.reqs piece.req) (reqs piece.req) piece) :
    Tracks matchId prompts (s.advance matchId prompts reqs batch) := by
  intro r
  unfold Progress.advance
  cases hfind : batch.find? fun piece => piece.req = r with
  | none =>
    have hnone : ∀ piece ∈ batch, piece.req ≠ r := by
      intro piece hpiece heq
      simpa [heq] using find?_eq_none.mp hfind piece hpiece
    simp only [hothers r hnone, hfind]
    exact h r
  | some piece =>
    have hpiece := mem_of_find?_eq_some hfind
    have hreq : piece.req = r := by simpa using find?_some hfind
    subst hreq
    obtain ⟨hended, hopen⟩ := h piece.req
    obtain ⟨hnone, hsome⟩ := hafter piece hpiece
    simp only [hfind, Bool.or_eq_true, decide_eq_true_eq, Bool.or_eq_false_iff,
      decide_eq_false_iff_not]
    constructor
    · rintro (hbefore | hlast)
      · exact hnone (hended hbefore)
      · cases hinputs : (s.reqs piece.req).omniModelInputs with
        | none => exact hnone hinputs
        | some inputs => exact (hsome inputs hinputs).1 hlast
    · rintro ⟨hbefore, hmore⟩
      obtain ⟨hinputs, hrows⟩ := hopen hbefore
      cases hprompt : (prompts piece.req).inputs with
      | none => exact ⟨hnone (hinputs.trans hprompt), by simp⟩
      | some inputs =>
        obtain ⟨hkept, hcount⟩ := (hsome inputs (hinputs.trans hprompt)).2 hmore
        refine ⟨hkept, fun inputs' hinputs' m hembeds => ?_⟩
        cases hinputs'
        rw [hcount m hembeds, hrows inputs hprompt m hembeds]
        simp [Piece.placeholders, hprompt]

/-- What the injection of a batch relies on: a request whose inputs are gone has no placeholders
in its piece, and the counters of the others are at the placeholders before their pieces. -/
def Ready (matchId : OmniInputs α → Modality → ℕ) (prompts : ℕ → Prompt α) (reqs : ℕ → Req α)
    (piece : Piece) : Prop :=
  ((reqs piece.req).omniModelInputs = none ∧ ∀ inputs ∈ (prompts piece.req).inputs, ∀ m,
    inputs.embeds m ≠ none → matchId inputs m ∉ (piece.row prompts).inputIds) ∨
  ∃ inputs, (reqs piece.req).omniModelInputs = some inputs ∧
    (prompts piece.req).inputs = some inputs ∧ ∀ m, inputs.embeds m ≠ none →
      matchId inputs m ∈ (piece.row prompts).inputIds →
      ((reqs piece.req).omniConsumed.getD .empty).rows m =
        ((prompts piece.req).tokens.take piece.prefixLen).count (matchId inputs m)

variable {piece : Piece}

theorem ready_of_covers (htracks : Tracks matchId prompts s)
    (hcovers : Covers matchId prompts s batch) (hpiece : piece ∈ batch) :
    Ready matchId prompts s.reqs piece := by
  obtain ⟨hended, hopen⟩ := htracks piece.req
  cases hlast : s.ended piece.req with
  | true =>
    refine Or.inl ⟨hended hlast, fun inputs hinputs m hembeds hmem => ?_⟩
    have hnot := (hcovers piece hpiece inputs hinputs m hembeds hmem).1
    rw [hlast] at hnot
    cases hnot
  | false =>
    obtain ⟨hinputs, hrows⟩ := hopen hlast
    cases hprompt : (prompts piece.req).inputs with
    | none => exact Or.inl ⟨hinputs.trans hprompt, by simp [hprompt]⟩
    | some inputs =>
      refine Or.inr ⟨inputs, hinputs.trans hprompt, hprompt, fun m hembeds hmem => ?_⟩
      rw [hrows inputs hprompt m hembeds]
      exact (hcovers piece hpiece inputs hprompt m hembeds hmem).2

/-- Only the request of the piece matters. -/
theorem Ready.congr (h : Ready matchId prompts reqs piece)
    (hsame : reqs' piece.req = reqs piece.req) : Ready matchId prompts reqs' piece := by
  unfold Ready
  rw [hsame]
  exact h

/-- A batch that is left to the model changes no request and has no placeholders. -/
theorem plain_of_ready (hready : ∀ piece ∈ batch, Ready matchId prompts reqs piece)
    (hall : (batch.map (Piece.row prompts)).all fun row => (reqs row.req).omniModelInputs.isNone) :
    (∀ piece ∈ batch, After matchId prompts (reqs piece.req) (reqs piece.req) piece) ∧
      Plain matchId prompts batch := by
  have hnone : ∀ piece ∈ batch, (reqs piece.req).omniModelInputs = none := by
    intro piece hpiece
    exact Option.isNone_iff_eq_none.mp (all_eq_true.mp hall _ (mem_map_of_mem hpiece))
  refine ⟨fun piece hpiece => ⟨id, fun inputs h => ?_⟩, ?_⟩
  · rw [hnone piece hpiece] at h
    cases h
  · intro piece hpiece inputs hinputs m hembeds
    rcases hready piece hpiece with ⟨_, habsent⟩ | ⟨_, hsome, _⟩
    · exact habsent inputs hinputs m hembeds
    · rw [hnone piece hpiece] at hsome
      cases hsome

variable {done : List Piece}

variable {rest : List Piece}

theorem Valid.new (hvalid : Valid prompts batch) (hbatch : done ++ piece :: rest = batch) :
    ∀ old ∈ done, old.req ≠ piece.req := by
  intro old hold heq
  have hnodup := hvalid.nodup
  rw [← hbatch, map_append, map_cons, nodup_append] at hnodup
  exact hnodup.2.2 _ (mem_map_of_mem hold) _ mem_cons_self heq

section Loop

variable {embedTokens : EmbedTokens α} {matchId : OmniInputs α → Modality → ℕ}
  {prompts : ℕ → Prompt α} {table : ℕ → α} {reqs : ℕ → Req α}

/-- What the injection of a piece at `start` does to the table and to the requests. -/
structure RowEmbedded (embedTokens : EmbedTokens α) (matchId : OmniInputs α → Modality → ℕ)
    (prompts : ℕ → Prompt α) (piece : Piece) (start : ℕ) (t : ℕ → α) (reqs : ℕ → Req α)
    (t' : ℕ → α) (reqs' : ℕ → Req α) : Prop where
  others : ∀ r, r ≠ piece.req → reqs' r = reqs r
  after : After matchId prompts (reqs piece.req) (reqs' piece.req) piece
  outside : ∀ p, p < start ∨ start + piece.extendLen ≤ p → t' p = t p
  written : EmbedsWritten embedTokens matchId prompts t' start piece

/-- A request whose inputs are gone, or that never had any, without placeholders. -/
theorem RowEmbedded.skip (hnone : (reqs piece.req).omniModelInputs = none)
    (habsent : ∀ inputs ∈ (prompts piece.req).inputs, ∀ m, inputs.embeds m ≠ none →
      matchId inputs m ∉ (piece.row prompts).inputIds) (htable : ∀ x < piece.extendLen, ∀ token,
      (prompts piece.req).tokens[piece.prefixLen + x]? = some token →
      t (start + x) = embedTokens.clamped token) :
    RowEmbedded embedTokens matchId prompts piece start t reqs t reqs := by
  refine ⟨fun _ _ => rfl, ⟨fun _ => hnone, fun inputs h => ?_⟩, fun _ _ => rfl,
    embedsWritten_of_none habsent htable⟩
  rw [hnone] at h
  cases h

/-- A request with inputs, after the loop over the modalities. -/
theorem RowEmbedded.write {consumed : Consumed}
    (hsome : (reqs piece.req).omniModelInputs = some inputs)
    (hprompt : (prompts piece.req).inputs = some inputs)
    (hwithin : piece.prefixLen + piece.extendLen ≤ (prompts piece.req).tokens.length)
    (hwrites : Writes inputs.embeds (matchId inputs) start (piece.row prompts).inputIds
      [.image, .video, .audio] t ((reqs piece.req).omniConsumed.getD .empty).rows t'
      consumed.rows) (hcounter : ∀ m, inputs.embeds m ≠ none →
      matchId inputs m ∈ (piece.row prompts).inputIds →
      ((reqs piece.req).omniConsumed.getD .empty).rows m =
        ((prompts piece.req).tokens.take piece.prefixLen).count (matchId inputs m))
    (htable : ∀ x < piece.extendLen, ∀ token,
      (prompts piece.req).tokens[piece.prefixLen + x]? = some token →
      t (start + x) = embedTokens.clamped token) :
    RowEmbedded embedTokens matchId prompts piece start t reqs t'
      (Function.update reqs piece.req
        (if piece.isChunked = 0 then ⟨none, none⟩ else ⟨some inputs, some consumed⟩)) := by
  refine ⟨fun r hne => Function.update_of_ne hne _ _, ?_, fun p hp => hwrites.outside ?_,
    embedsWritten_of_writes hprompt hwrites hcounter htable⟩
  · rw [Function.update_self]
    refine ⟨fun h => (by rw [hsome] at h; cases h), fun inputs' h => ?_⟩
    obtain rfl := Option.some.inj (hsome.symm.trans h)
    constructor
    · intro hlast
      rw [if_pos hlast]
    · intro hmore
      rw [if_neg hmore]
      exact ⟨rfl, fun m hembeds => hwrites.rows_of_mem (by cases m <;> simp) hembeds⟩
  · rwa [Piece.row_length hwithin]

/-- The table and the requests after the pieces `done`. -/
structure EmbedInv (embedTokens : EmbedTokens α) (matchId : OmniInputs α → Modality → ℕ)
    (prompts : ℕ → Prompt α) (table : ℕ → α) (reqs : ℕ → Req α) (done : List Piece) (start : ℕ)
    (t : ℕ → α) (reqs' : ℕ → Req α) : Prop where
  start_eq : start = (done.map Piece.extendLen).sum
  others : ∀ r, (∀ piece ∈ done, piece.req ≠ r) → reqs' r = reqs r
  after : ∀ piece ∈ done, After matchId prompts (reqs piece.req) (reqs' piece.req) piece
  ahead : ∀ p, start ≤ p → t p = table p
  written : Placed Piece.extendLen (EmbedsWritten embedTokens matchId prompts t) 0 done

theorem EmbedInv.nil : EmbedInv embedTokens matchId prompts table reqs [] 0 table reqs where
  start_eq := rfl
  others _ _ := rfl
  after _ h := by simp at h
  ahead _ _ := rfl
  written := trivial

theorem EmbedInv.snoc {reqs'' : ℕ → Req α}
    (h : EmbedInv embedTokens matchId prompts table reqs done start t reqs')
    (hstep : RowEmbedded embedTokens matchId prompts piece start t reqs' t' reqs'')
    (hnew : ∀ old ∈ done, old.req ≠ piece.req) :
    EmbedInv embedTokens matchId prompts table reqs (done ++ [piece]) (start + piece.extendLen)
      t' reqs'' := by
  have hbefore : reqs' piece.req = reqs piece.req := h.others _ hnew
  constructor
  · rw [h.start_eq, map_append, sum_append]
    simp
  · intro r hr
    have hne : r ≠ piece.req := fun heq =>
      hr piece (mem_append_right _ (mem_singleton_self _)) heq.symm
    rw [hstep.others r hne]
    exact h.others r fun old hold => hr old (mem_append_left _ hold)
  · intro other hother
    rcases mem_append.mp hother with hold | hlast
    · rw [hstep.others _ (hnew other hold)]
      exact h.after other hold
    · obtain rfl := mem_singleton.mp hlast
      rw [← hbefore]
      exact hstep.after
  · intro p hp
    rw [hstep.outside p (Or.inr hp), h.ahead p (by omega)]
  · rw [placed_snoc, Nat.zero_add, ← h.start_eq]
    refine ⟨h.written.imp (show 0 + _ ≤ start by rw [Nat.zero_add, h.start_eq]) ?_, hstep.written⟩
    intro place old _ hbound hold
    exact hold.congr fun p _ hp => hstep.outside p (Or.inl (by omega))

theorem inputIds_length (hwithin : ∀ piece ∈ batch,
      piece.prefixLen + piece.extendLen ≤ (prompts piece.req).tokens.length) :
    (inputIds (batch.map (Piece.row prompts))).length = (batch.map Piece.extendLen).sum := by
  rw [inputIds, length_flatMap, map_map]
  refine congrArg List.sum (map_congr_left fun old hold => ?_)
  exact Piece.row_length (hwithin old hold)

theorem inputIds_getElem? (done rest : List Piece) (piece : Piece) (hwithin : ∀ piece ∈ done,
      piece.prefixLen + piece.extendLen ≤ (prompts piece.req).tokens.length)
    (hx : x < (piece.row prompts).inputIds.length) :
    (inputIds ((done ++ piece :: rest).map (Piece.row prompts)))[
      (done.map Piece.extendLen).sum + x]? = (piece.row prompts).inputIds[x]? := by
  have hlength := inputIds_length hwithin
  have hsplit : inputIds ((done ++ piece :: rest).map (Piece.row prompts)) =
      inputIds (done.map (Piece.row prompts)) ++ ((piece.row prompts).inputIds ++
        inputIds (rest.map (Piece.row prompts))) := by
    simp [inputIds]
  rw [hsplit, getElem?_append_right (by omega), hlength, Nat.add_sub_cancel_left,
    getElem?_append_left hx]

theorem EmbedInv.table_eq (h : EmbedInv embedTokens matchId prompts
      (embedTokens.table (inputIds (batch.map (Piece.row prompts)))) reqs done start t reqs')
    (hwithin : ∀ piece ∈ batch,
      piece.prefixLen + piece.extendLen ≤ (prompts piece.req).tokens.length)
    (hbatch : done ++ piece :: rest = batch) :
    ∀ x < piece.extendLen, ∀ token,
      (prompts piece.req).tokens[piece.prefixLen + x]? = some token →
      t (start + x) = embedTokens.clamped token := by
  intro x hx token htoken
  have hpiece : piece ∈ batch := hbatch ▸ mem_append_right _ mem_cons_self
  have hrow := Piece.row_length (hwithin piece hpiece)
  have hget := inputIds_getElem? done rest piece
    (fun old hold => hwithin old (hbatch ▸ mem_append_left _ hold)) (hrow ▸ hx)
  rw [hbatch, ← h.start_eq, Piece.row_getElem? prompts hx, htoken] at hget
  rw [h.ahead _ (Nat.le_add_right _ _), EmbedTokens.table, List.getD, hget, Option.getD_some]

end Loop

end Omni.Thinker
