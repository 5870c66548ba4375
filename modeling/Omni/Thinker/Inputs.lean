import Omni.Library.Masks
import Omni.Library.Rows

/-!
# Multimodal inputs of thinker requests

The embeddings that come with a request, how far its prefills have consumed them, and an
extend batch with the pieces of the prompts that it prefills. Tables of rows are functions
of the position in the batch.
-/

namespace Omni.Thinker

open List

variable {α : Type}

inductive Modality
  | image
  | video
  | audio
  deriving DecidableEq

/-- `omni_model_inputs`. The layers of deepstack embeddings are lists of rows. -/
structure OmniInputs (α : Type) where
  /-- `image_embeds`, `video_embeds` and `audio_embeds`. -/
  embeds : Modality → Option (List α)
  padValues : Modality → Option ℕ
  deepstackVisualEmbeds : Option (List (List α))
  imageDeepstackVisualEmbeds : Option (List (List α))
  videoDeepstackVisualEmbeds : Option (List (List α))

/-- `_omni_consumed`. A key that is missing counts as 0. -/
structure Consumed where
  rows : Modality → ℕ
  visual : ℕ

/-- The empty dictionary. -/
def Consumed.empty : Consumed := ⟨fun _ => 0, 0⟩

/-- `Req`, as far as the injection reads it. -/
structure Req (α : Type) where
  omniModelInputs : Option (OmniInputs α)
  omniConsumed : Option Consumed

/-- One request of an extend batch, with its part of `input_ids`. -/
structure ExtendRow where
  req : ℕ
  inputIds : List ℕ
  isChunked : ℕ

/-- What an injection raises. -/
inductive InjectError
  /-- The rows do not fit the positions that they are assigned to. -/
  | shapeMismatch
  | valueError (message : String)
  deriving DecidableEq

/-- The token embedding of the text model. -/
structure EmbedTokens (α : Type) where
  weight : ℕ → α
  numEmbeddings : ℕ

/-- `self._embed_tokens(input_ids.clamp(0, num_embeddings - 1))` at one position. -/
def EmbedTokens.clamped (embedTokens : EmbedTokens α) (token : ℕ) : α :=
  embedTokens.weight (min token (embedTokens.numEmbeddings - 1))

/-- `input_embeds` before anything has been injected. -/
def EmbedTokens.table (embedTokens : EmbedTokens α) (inputIds : List ℕ) : ℕ → α :=
  fun p => embedTokens.clamped (inputIds.getD p 0)

/-- `forward_batch.input_ids`. -/
def inputIds (batch : List ExtendRow) : List ℕ := batch.flatMap ExtendRow.inputIds

/-- `t[mask] = rows`, or the exception. -/
def assign (t : ℕ → α) (start : ℕ) (mask : List Bool) (rows : List α) :
    Except InjectError (ℕ → α) :=
  match assignRows t start mask rows with
  | some t => .ok t
  | none => .error .shapeMismatch

/-- One row for each position is accepted. -/
theorem assign_eq {t : ℕ → α} {start : ℕ} {mask : List Bool} {rows : List α}
    (hlength : rows.length = mask.count true) :
    assign t start mask rows = .ok (scatter t start mask rows) := by
  rw [assign, assignRows_eq hlength]

/-- The loop over the modalities `ms` turns a table and counters into others. Every
placeholder gets the row that the counter of its modality points to, and nothing else
changes. -/
structure Writes (embeds : Modality → Option (List α)) (matchId : Modality → ℕ) (start : ℕ)
    (ids : List ℕ) (ms : List Modality) (t : ℕ → α) (rows : Modality → ℕ) (t' : ℕ → α)
    (rows' : Modality → ℕ) : Prop where
  outside : ∀ {p}, p < start ∨ start + ids.length ≤ p → t' p = t p
  other : ∀ {x}, (∀ m ∈ ms, embeds m ≠ none → ids[x]? ≠ some (matchId m)) →
    t' (start + x) = t (start + x)
  written : ∀ {m table x}, m ∈ ms → embeds m = some table → ids[x]? = some (matchId m) →
    table[rows m + (ids.take x).count (matchId m)]? = some (t' (start + x))
  rows_of_mem : ∀ {m}, m ∈ ms → embeds m ≠ none → rows' m = rows m + ids.count (matchId m)
  rows_of_notMem : ∀ {m}, m ∉ ms → rows' m = rows m

section Writes

variable {embeds : Modality → Option (List α)} {matchId : Modality → ℕ} {start : ℕ}
  {ids : List ℕ} {t t' t'' : ℕ → α} {rows rows' rows'' : Modality → ℕ}

theorem Writes.nil : Writes embeds matchId start ids [] t rows t rows where
  outside _ := rfl
  other _ := rfl
  written h := by simp at h
  rows_of_mem h := by simp at h
  rows_of_notMem _ := rfl

/-- A modality without placeholders in the piece writes nothing. -/
theorem Writes.skip {m : Modality} (hskip : embeds m ≠ none → matchId m ∉ ids) :
    Writes embeds matchId start ids [m] t rows t rows where
  outside _ := rfl
  other _ := rfl
  written hm hembeds hx := by
    rw [mem_singleton] at hm
    subst hm
    exact absurd (mem_of_getElem? hx) (hskip (by simp [hembeds]))
  rows_of_mem hm hembeds := by
    rw [mem_singleton] at hm
    subst hm
    rw [count_eq_zero_of_not_mem (hskip hembeds), Nat.add_zero]
  rows_of_notMem _ := rfl

theorem Writes.single {m : Modality} {table : List α} (hembeds : embeds m = some table)
    (henough : rows m + ids.count (matchId m) ≤ table.length) :
    Writes embeds matchId start ids [m] t rows
      (scatter t start (matchMask ids (matchId m))
        ((table.drop (rows m)).take ((matchMask ids (matchId m)).count true)))
      (Function.update rows m (rows m + (matchMask ids (matchId m)).count true)) where
  outside hp := scatter_outside (by rwa [matchMask_length])
  other hx := by
    refine scatter_unset fun hset => ?_
    exact hx m (mem_singleton_self m) (by simp [hembeds]) (matchMask_getElem?.mp hset)
  written {m' table' x} hm hembeds' hx := by
    rw [mem_singleton] at hm
    subst hm
    rw [hembeds, Option.some.injEq] at hembeds'
    subst hembeds'
    have hset : (matchMask ids (matchId m'))[x]? = some true := matchMask_getElem?.mpr hx
    have hlt := count_take_lt hset
    rw [matchMask_take, matchMask_count, matchMask_count] at hlt
    obtain ⟨row, hrow⟩ : ∃ row, table[rows m' + (ids.take x).count (matchId m')]? = some row := by
      rw [getElem?_eq_getElem (by omega)]
      exact ⟨_, rfl⟩
    rw [hrow, scatter_set hset]
    rw [matchMask_take, matchMask_count, matchMask_count, getElem?_take_of_lt hlt,
      getElem?_drop, hrow]
  rows_of_mem hm _ := by
    rw [mem_singleton] at hm
    subst hm
    rw [Function.update_self, matchMask_count]
  rows_of_notMem hm := Function.update_of_ne (by simpa using hm) _ _

/-- One modality after others, when placeholders of different modalities differ. -/
theorem Writes.cons {m : Modality} {ms : List Modality}
    (hfirst : Writes embeds matchId start ids [m] t rows t' rows')
    (hrest : Writes embeds matchId start ids ms t' rows' t'' rows'') (hm : m ∉ ms)
    (hdistinct : ∀ m m', embeds m ≠ none → embeds m' ≠ none → matchId m = matchId m' → m = m') :
    Writes embeds matchId start ids (m :: ms) t rows t'' rows'' where
  outside hp := (hrest.outside hp).trans (hfirst.outside hp)
  other hx := by
    rw [hrest.other fun m' hm' => hx m' (mem_cons_of_mem m hm')]
    refine hfirst.other fun m' hm' => hx m' ?_
    rw [mem_singleton.mp hm']
    exact mem_cons_self
  written {m' table x} hm' hembeds hx := by
    rcases mem_cons.mp hm' with rfl | hmem
    · rw [hrest.other, hfirst.written (mem_singleton_self m') hembeds hx]
      intro other hother hsome heq
      have hsame := hdistinct m' other (by simp [hembeds]) hsome
        (Option.some.inj (hx.symm.trans heq))
      exact hm (hsame ▸ hother)
    · have hne : m' ∉ [m] := fun h => hm (mem_singleton.mp h ▸ hmem)
      rw [← hfirst.rows_of_notMem hne]
      exact hrest.written hmem hembeds hx
  rows_of_mem {m'} hm' hembeds := by
    rcases mem_cons.mp hm' with rfl | hmem
    · rw [hrest.rows_of_notMem hm, hfirst.rows_of_mem (mem_singleton_self m') hembeds]
    · have hne : m' ∉ [m] := fun h => hm (mem_singleton.mp h ▸ hmem)
      rw [hrest.rows_of_mem hmem hembeds, hfirst.rows_of_notMem hne]
  rows_of_notMem {m'} hm' := by
    rw [hrest.rows_of_notMem fun h => hm' (mem_cons_of_mem m h),
      hfirst.rows_of_notMem fun h => hm' (mem_singleton.mp h ▸ mem_cons_self)]

end Writes

end Omni.Thinker
