import Omni.Tts.FishSampling
import Omni.Tts.Served

/-!
# Fish S2-Pro in the scheduler

The prefill of a prompt with reference codes, in chunks and after a cached prefix, and the
collection of a step. What a request has generated does not depend on the batches, as long as it
is not prefilled again once it has generated a token.
-/

namespace Omni.Tts

open List

variable {V E L P : Type} {isChunked : Bool} {prefixLen reqLen : ℕ}

/-- What a request brings along: its prompt, and the codes of the references at the masked
positions of the prompt. -/
structure FishRequest (P : Type) where
  promptIds : List ℕ
  /-- `vq_mask_tokens` and the rows of `vq_parts`, if there are references. -/
  references : Option (List Bool × List (List ℕ))
  params : P
  seed : Option ℕ
  mask_length : ∀ mask rows, references = some (mask, rows) → mask.length = promptIds.length
  rows_length : ∀ mask rows, references = some (mask, rows) → rows.length = mask.count true

/-- `S2ProSGLangRequestData`. `kv` are the input embeddings whose keys and values are in the KV
cache, and `decodeInputs` are kept from all steps. -/
structure FishData (E : Type) where
  history : FishHistory
  lastCodebookValues : Option (List ℕ)
  outputCodes : List (List ℕ)
  outputIds : List ℕ
  kv : List E
  decodeInputs : List E
  deriving DecidableEq

/-- A request that has been prefilled, but has no token yet. -/
def FishData.prefilled (kv : List E) : FishData E := ⟨.empty, none, [], [], kv, []⟩

/-- Before the prefill. -/
def FishData.init : FishData E := .prefilled []

namespace FishModel

variable (m : FishModel E L P)

/-- `embed_text_dim`, and the assignment to the masked positions. -/
def inject (embedTextDim : E → List ℕ → E) : List E → List Bool → List (List ℕ) → List E
  | x :: xs, true :: mask, row :: rows => embedTextDim x row :: inject embedTextDim xs mask rows
  | x :: xs, false :: mask, rows => x :: inject embedTextDim xs mask rows
  | xs, _, _ => xs

/-- `_build_prefill_input_embeds` for one request. The mask of a slice has to be as long as the
slice. -/
def prefillInputEmbeds (r : FishRequest P) (outputIds : List ℕ) (prefixLen reqLen : ℕ) :
    Option (List E) :=
  let inputIds := ((r.promptIds ++ outputIds).drop prefixLen).take reqLen
  let textEmbeds := inputIds.map m.embedTokens
  match r.references with
  | none => some textEmbeds
  | some (mask, rows) =>
    let maskSlice := (mask.drop prefixLen).take reqLen
    if rows = [] ∨ maskSlice.any id = false then some textEmbeds
    else if maskSlice.length = textEmbeds.length then
      let vqBefore := (mask.take prefixLen).count true
      some (inject m.embedTextDim textEmbeds maskSlice
        ((rows.drop vqBefore).take (maskSlice.count true)))
    else none

/-- `collect_s2pro_step_outputs` for one request after `_decode_codebooks`, and the token that
`process_batch_result` appends. -/
def collect (r : FishRequest P) (isChunked : Bool) (d : FishData E) : FishData E :=
  if isChunked then d
  else
    let token := m.semanticToken r.params r.seed (m.syncDecodeRowState d.history) d.kv
    let d := { d with outputIds := d.outputIds ++ [token] }
    if token = m.imEndTokenId then d
    else
      let codes := m.outputCodes d.kv token
      { d with
        lastCodebookValues := some codes.tail
        history := m.appendSemanticHistory d.history token
        outputCodes := d.outputCodes ++ [codes] }

/-- The embeddings of the positions of the prompt. -/
def promptEmbeds (r : FishRequest P) : List E :=
  match r.references with
  | none => r.promptIds.map m.embedTokens
  | some (mask, rows) => inject m.embedTextDim (r.promptIds.map m.embedTokens) mask rows

/-- What a cached prefix has been computed from: the request's own inputs, as far as it has been
prefilled, and otherwise those of a request with the same prompt. -/
def cachedPrefix (r : FishRequest P) (prefixLen : ℕ) (d : FishData E) : List E :=
  if prefixLen ≤ d.kv.length then d.kv.take prefixLen else (m.promptEmbeds r).take prefixLen

/-- A row of a prefill. -/
def prefillRow (r : FishRequest P) (prefixLen reqLen : ℕ) (isChunked : Bool) (d : FishData E) :
    Option (FishData E) :=
  (m.prefillInputEmbeds r d.outputIds prefixLen reqLen).map fun embeds =>
    m.collect r isChunked { d with kv := m.cachedPrefix r prefixLen d ++ embeds }

/-- `before_decode` and `forward` for one request. -/
def decodeInput (d : FishData E) : E :=
  let token := d.outputIds.getLastD 0
  if m.semanticBeginId ≤ token ∧ token ≤ m.semanticEndId then
    m.combine (m.embedTokens token) (d.lastCodebookValues.getD [])
  else m.embedTokens token

/-- A row of a decode step. -/
def decodeRow (r : FishRequest P) (d : FishData E) : FishData E :=
  m.collect r false { d with
    kv := d.kv ++ [m.decodeInput d]
    decodeInputs := d.decodeInputs ++ [m.decodeInput d] }

variable {m}

variable {r : FishRequest P} {d : FishData E}

theorem outputs_collect :
    (m.collect r isChunked d).outputIds.length =
      if isChunked then d.outputIds.length else d.outputIds.length + 1 := by
  unfold collect
  split
  · rfl
  · dsimp only
    split <;> simp

variable (m) in
/-- The runner. -/
def runner : Runner (FishRequest P) (FishData E) where
  promptLen r := r.promptIds.length
  outputs d := d.outputIds.length
  init _ := .init
  prefill := m.prefillRow
  decode r d := some (m.decodeRow r d)
  outputs_init _ := rfl
  outputs_prefill h := by
    obtain ⟨embeds, _, rfl⟩ := Option.map_eq_some_iff.mp h
    exact outputs_collect
  outputs_decode h := by
    cases h
    exact outputs_collect

theorem length_inject (f : E → List ℕ → E) :
    ∀ (xs : List E) (mask : List Bool) (rows : List (List ℕ)),
      (inject f xs mask rows).length = xs.length
  | [], _, _ => by simp [inject]
  | x :: xs, [], rows => by simp [inject]
  | x :: xs, true :: mask, [] => by simp [inject]
  | x :: xs, true :: mask, row :: rows => by simp [inject, length_inject f xs mask rows]
  | x :: xs, false :: mask, rows => by simp [inject, length_inject f xs mask rows]

/-- Without a masked position, nothing is injected. -/
theorem inject_of_not_any (f : E → List ℕ → E) :
    ∀ (xs : List E) (mask : List Bool) (rows : List (List ℕ)), mask.any id = false →
      inject f xs mask rows = xs
  | [], _, _, _ => by simp [inject]
  | x :: xs, [], rows, _ => by simp [inject]
  | x :: xs, true :: mask, rows, h => by simp at h
  | x :: xs, false :: mask, rows, h => by
    rw [inject, inject_of_not_any f xs mask rows (by simpa using h)]

/-- The rest of what is injected, with the rows that are left. -/
theorem drop_inject (f : E → List ℕ → E) :
    ∀ (n : ℕ) (xs : List E) (mask : List Bool) (rows : List (List ℕ)),
      mask.length = xs.length → mask.count true ≤ rows.length →
      (inject f xs mask rows).drop n =
        inject f (xs.drop n) (mask.drop n) (rows.drop ((mask.take n).count true))
  | 0, xs, mask, rows, _, _ => by simp
  | n + 1, [], [], rows, _, _ => by simp [inject]
  | n + 1, x :: xs, true :: mask, [], _, hrows => by simp at hrows
  | n + 1, x :: xs, true :: mask, row :: rows, hlength, hrows => by
    simp only [length_cons, Nat.add_right_cancel_iff] at hlength
    simp only [count_cons_self, length_cons, Nat.add_le_add_iff_right] at hrows
    simp [inject, drop_inject f n xs mask rows hlength hrows]
  | n + 1, x :: xs, false :: mask, rows, hlength, hrows => by
    simp only [length_cons, Nat.add_right_cancel_iff] at hlength
    simp only [count_cons_of_ne (by simp : (false : Bool) ≠ true)] at hrows
    simp [inject, drop_inject f n xs mask rows hlength hrows]

/-- The first part of what is injected needs the first rows only. -/
theorem take_inject (f : E → List ℕ → E) :
    ∀ (n : ℕ) (xs : List E) (mask : List Bool) (rows : List (List ℕ)),
      mask.length = xs.length → mask.count true ≤ rows.length →
      (inject f xs mask rows).take n =
        inject f (xs.take n) (mask.take n) (rows.take ((mask.take n).count true))
  | 0, xs, mask, rows, _, _ => by simp [inject]
  | n + 1, [], [], rows, _, _ => by simp [inject]
  | n + 1, x :: xs, true :: mask, [], _, hrows => by simp at hrows
  | n + 1, x :: xs, true :: mask, row :: rows, hlength, hrows => by
    simp only [length_cons, Nat.add_right_cancel_iff] at hlength
    simp only [count_cons_self, length_cons, Nat.add_le_add_iff_right] at hrows
    simp [inject, take_inject f n xs mask rows hlength hrows]
  | n + 1, x :: xs, false :: mask, rows, hlength, hrows => by
    simp only [length_cons, Nat.add_right_cancel_iff] at hlength
    simp only [count_cons_of_ne (by simp : (false : Bool) ≠ true)] at hrows
    simp [inject, take_inject f n xs mask rows hlength hrows]

/-- The masked positions of a part of the prompt get the rows that are theirs. -/
theorem prefillInputEmbeds_prompt :
    m.prefillInputEmbeds r [] prefixLen reqLen =
      some (((m.promptEmbeds r).drop prefixLen).take reqLen) := by
  unfold prefillInputEmbeds promptEmbeds
  rw [append_nil]
  cases hreferences : r.references with
  | none => simp [map_take, map_drop]
  | some references =>
    obtain ⟨mask, rows⟩ := references
    have hmask : mask.length = (r.promptIds.map m.embedTokens).length := by
      rw [length_map]
      exact r.mask_length mask rows hreferences
    have hrows : mask.count true ≤ rows.length :=
      Nat.le_of_eq (r.rows_length mask rows hreferences).symm
    have hparts : mask.count true =
        (mask.take prefixLen).count true + (mask.drop prefixLen).count true := by
      rw [← count_append, take_append_drop]
    have hslice : ((inject m.embedTextDim (r.promptIds.map m.embedTokens) mask rows).drop
        prefixLen).take reqLen =
        inject m.embedTextDim (((r.promptIds.map m.embedTokens).drop prefixLen).take reqLen)
          ((mask.drop prefixLen).take reqLen)
          ((rows.drop ((mask.take prefixLen).count true)).take
            (((mask.drop prefixLen).take reqLen).count true)) := by
      rw [drop_inject _ _ _ _ _ hmask hrows, take_inject]
      · rw [length_drop, length_drop, hmask]
      · rw [length_drop]
        omega
    dsimp only
    rw [hslice, map_take, map_drop]
    split
    next htext =>
      congr 1
      refine (inject_of_not_any _ _ _ _ ?_).symm
      rcases htext with hnone | hnone
      · have hzero : mask.count true = 0 := by
          rw [hnone] at hrows
          exact Nat.le_zero.mp hrows
        refine any_eq_false.mpr fun x hx htrue => ?_
        have hmem : x ∈ mask := mem_of_mem_drop (mem_of_mem_take hx)
        exact count_eq_zero.mp hzero (htrue ▸ hmem)
      · exact hnone
    next =>
      rw [if_pos]
      rw [length_take, length_take, length_drop, length_drop, hmask]

/-- A request that has been prefilled in part, or has run alone for as many steps as it has. -/
structure Alike (m : FishModel E L P) (r : FishRequest P) (d : FishData E) : Prop where
  remembers : m.Remembers d.history
  partly : d.outputIds = [] → ∃ k, d = .prefilled ((m.promptEmbeds r).take k)
  alone : d.outputIds ≠ [] → m.runner.alone r d.outputIds.length = some d

theorem alike_init (r : FishRequest P) : Alike m r .init where
  remembers := remembers_empty
  partly _ := ⟨0, rfl⟩
  alone h := absurd rfl h

/-- A step keeps the history. -/
theorem remembers_collect (hwindow : 0 < m.repHistoryLen) (h : m.Remembers d.history) :
    m.Remembers (m.collect r isChunked d).history := by
  unfold collect
  split
  · exact h
  · dsimp only
    split
    · exact h
    next hend =>
      refine h.append hwindow ?_
      rcases semanticToken_range r.params r.seed h.sees h.pos d.kv with ⟨hbegin, _⟩ | hnot
      · exact Nat.lt_of_lt_of_le m.semanticBeginId_pos hbegin
      · exact absurd hnot hend

theorem alone_one (r : FishRequest P) : m.runner.alone r 1 =
    some (m.collect r false (.prefilled (m.promptEmbeds r))) := by
  have hlength : (m.promptEmbeds r).length = r.promptIds.length := by
    unfold promptEmbeds
    split
    · exact length_map ..
    · rw [length_inject, length_map]
  change m.prefillRow r 0 r.promptIds.length false .init = _
  have hempty : (FishData.init : FishData E).outputIds = [] := rfl
  rw [prefillRow, hempty, prefillInputEmbeds_prompt, drop_zero, ← hlength, take_length]
  rfl

/-- A prefill that has computed a part of the prompt. -/
theorem cachedPrefix_append {k : ℕ} (hkv : d.kv = (m.promptEmbeds r).take k) :
    m.cachedPrefix r prefixLen d ++ ((m.promptEmbeds r).drop prefixLen).take reqLen =
      (m.promptEmbeds r).take (prefixLen + reqLen) := by
  have hlies : m.cachedPrefix r prefixLen d = (m.promptEmbeds r).take prefixLen := by
    unfold cachedPrefix
    split
    next hle =>
      rw [hkv, length_take] at hle
      rw [hkv, take_take, Nat.min_eq_left (by omega)]
    next => rfl
  rw [hlies, take_add]

theorem Alike.prefill (hwindow : 0 < m.repHistoryLen) {d' : FishData E} (h : Alike m r d)
    (hfirst : d.outputIds = []) (hsum : isChunked = false → prefixLen + reqLen = r.promptIds.length)
    (hrow : m.prefillRow r prefixLen reqLen isChunked d = some d') : Alike m r d' := by
  obtain ⟨k, hd⟩ := h.partly hfirst
  have hkv : d.kv = (m.promptEmbeds r).take k := by rw [hd, FishData.prefilled]
  have hprefilled (kv : List E) : { d with kv := kv } = FishData.prefilled kv := by
    rw [hd]
    rfl
  have hd' : d' = m.collect r isChunked
      (.prefilled ((m.promptEmbeds r).take (prefixLen + reqLen))) := by
    rw [prefillRow, hfirst, prefillInputEmbeds_prompt, Option.map_some, cachedPrefix_append hkv,
      Option.some.injEq] at hrow
    rw [← hrow, ← hprefilled, ← hfirst]
  cases isChunked with
  | true =>
    rw [hd']
    exact ⟨remembers_empty, fun _ => ⟨_, rfl⟩, fun hnot => absurd rfl hnot⟩
  | false =>
    have hlength : (m.promptEmbeds r).length ≤ prefixLen + reqLen := by
      rw [hsum rfl]
      unfold promptEmbeds
      split
      · rw [length_map]
      · rw [length_inject, length_map]
    rw [take_of_length_le hlength] at hd'
    have hone : d'.outputIds.length = 1 := by
      rw [hd']
      exact outputs_collect
    refine ⟨?_, fun hnone => ?_, fun _ => ?_⟩
    · rw [hd']
      exact remembers_collect hwindow remembers_empty
    · rw [hnone] at hone
      cases hone
    · rw [hone, alone_one, hd']

theorem Alike.decode (hwindow : 0 < m.repHistoryLen) (h : Alike m r d)
    (hpos : 0 < d.outputIds.length) : Alike m r (m.decodeRow r d) := by
  have hnext : (m.decodeRow r d).outputIds.length = d.outputIds.length + 1 := outputs_collect
  refine ⟨remembers_collect hwindow h.remembers, fun hnone => ?_, fun _ => ?_⟩
  · rw [hnone] at hnext
    cases hnext
  · have halone := h.alone (ne_nil_of_length_pos hpos)
    obtain ⟨n, hn⟩ := Nat.exists_eq_add_of_lt hpos
    rw [hnext]
    rw [hn] at halone ⊢
    exact (congrArg (fun o => o.bind (m.runner.decode r)) halone).trans rfl

/-- What the next step of a request looks at: the tokens that it penalises, the tokens among which
it looks for a repetition, and the step count. -/
structure Samples (m : FishModel E L P) (r : FishRequest P) (d : FishData E) : Prop where
  penalizes : ∀ (scores : List (Option L)) (t : ℕ),
    (m.penalize r.params (m.syncDecodeRowState d.history) scores)[t]? =
      if t ∈ m.window d.history.previousSemanticTokens then
        scores[t]?.map (Option.map (m.penalty r.params))
      else scores[t]?
  repeats : useRas (m.syncDecodeRowState d.history) =
    decide (4 ≤ d.history.previousSemanticTokens.length ∧
      ¬(lastFour d.history.previousSemanticTokens).Nodup)
  steps : (m.syncDecodeRowState d.history).stepCount = d.history.previousSemanticTokens.length

theorem Remembers.samples (hwindow : 4 ≤ m.repHistoryLen) (h : m.Remembers d.history) :
    Samples m r d where
  penalizes := h.sees.penalize h.pos r.params
  repeats := h.sees.useRas hwindow
  steps := h.sees.stepCount

/-- What two requests have generated is the same. -/
def SameCodes (d d' : FishData E) : Prop :=
  d.outputCodes = d'.outputCodes ∧ d.decodeInputs = d'.decodeInputs ∧
    d.history.previousSemanticTokens = d'.history.previousSemanticTokens

/-- Only requests without a token are prefilled. -/
def FirstRows : FishRequest P → ℕ → ℕ → Bool → FishData E → Prop :=
  fun _ _ _ _ d => d.outputIds = []

instance (r : FishRequest P) (prefixLen reqLen : ℕ) (isChunked : Bool) (d : FishData E) :
    Decidable (FirstRows r prefixLen reqLen isChunked d) :=
  decidable_of_iff (d.outputIds.isEmpty) isEmpty_iff

/-- **Codes do not depend on the batches.** In every run that prefills no request again once it
has a token, each step of a request looks at what it has to, what the request has generated is
what it generates in a run alone, and so are the inputs of its positions. -/
theorem codes_of_run (m : FishModel E L P) (hwindow : 4 ≤ m.repHistoryLen)
    (request : ℕ → FishRequest P) (isEntryRank : Bool) (as : List ServedAction)
    (s : Served V (FishData E))
    (hrun : Transition.Run (Served.step m.runner request) (Served.Prefills request FirstRows)
      (.init V m.runner request isEntryRank) as s) (q : ℕ) :
    Samples m (request q) (s.data q) ∧
    (∃ n, ∃ t : Served V (FishData E),
      Transition.Run (Served.step m.runner fun _ => request q) Transition.anyAction
        (.init V m.runner (fun _ => request q) isEntryRank)
        (m.runner.aloneActions (request q) n) t ∧ SameCodes (s.data q) (t.data 0)) ∧
    ∃ n, ∃ t : Served V (FishData E),
      Transition.Run (Served.step m.runner fun _ => request q) Transition.anyAction
        (.init V m.runner (fun _ => request q) isEntryRank)
        (m.runner.aloneActions (request q) n) t ∧ (s.data q).kv <+: (t.data 0).kv := by
  have hpos : 0 < m.repHistoryLen := by omega
  obtain ⟨-, hdata⟩ := Fed.of_run (A := fun q d => Alike m (request q) d)
    (fun q => alike_init (request q))
    (fun q prefixLen extendLen isChunked d d' h hfirst hfits hrow => by
      refine h.prefill hpos hfirst (fun hwhole => ?_) hrow
      rw [hwhole, if_neg (by simp)] at hfits
      have hnone : d.outputIds = [] := hfirst
      have hfits : prefixLen + extendLen = (request q).promptIds.length + d.outputIds.length :=
        hfits
      rw [hnone] at hfits
      exact hfits)
    (fun q d d' h hlength hrow => by
      cases hrow
      exact h.decode hpos hlength) hrun
  have h := hdata q
  refine ⟨h.remembers.samples hwindow, ?_⟩
  by_cases hnone : (s.data q).outputIds = []
  · obtain ⟨k, hd⟩ := h.partly hnone
    obtain ⟨t, ht, hsame, _⟩ := m.runner.alone_run (V := V) (fun _ => request q) isEntryRank 0 rfl
    obtain ⟨u, hu, hone, _⟩ :=
      m.runner.alone_run (V := V) (fun _ => request q) isEntryRank 1 (alone_one (request q))
    refine ⟨⟨0, t, ht, ?_⟩, 1, u, hu, ?_⟩
    · rw [hd, hsame]
      exact ⟨rfl, rfl, rfl⟩
    · have hkv (r : FishRequest P) (d : FishData E) : (m.collect r false d).kv = d.kv := by
        unfold collect
        rw [if_neg (by simp)]
        dsimp only
        split <;> rfl
      rw [hone, hd, hkv]
      exact take_prefix k _
  · obtain ⟨t, ht, hsame, _⟩ :=
      m.runner.alone_run (V := V) (fun _ => request q) isEntryRank _ (h.alone hnone)
    refine ⟨⟨_, t, ht, ?_⟩, _, t, ht, ?_⟩
    · rw [hsame]
      exact ⟨rfl, rfl, rfl⟩
    · rw [hsame]

/-- A greedy model whose codes depend on the sum of its inputs. -/
def sumModel : FishModel ℕ Unit Unit where
  semanticBeginId := 1
  semanticEndId := 2
  imEndTokenId := 3
  codebookSize := 2
  repHistoryLen := 4
  embedTokens token := token
  embedTextDim x _ := x
  combine x _ := x + 10
  logits _ := [(), (), (), ()]
  codebooks kv _ := [kv.sum]
  penalty _ x := x
  choose _ _ _ _ scores := firstUnmasked scores
  semanticBeginId_pos := by decide
  imEnd_lt _ := by decide
  chooseUnmasked := by
    rintro _ _ _ _ _ ⟨t, x, ht⟩
    exact firstUnmasked_unmasked ht

/-- A prompt without references. -/
def textRequest (promptIds : List ℕ) : FishRequest Unit where
  promptIds := promptIds
  references := none
  params := ()
  seed := none
  mask_length _ _ h := by cases h
  rows_length _ _ h := by cases h

/-- A prompt in two parts, and a decode step. -/
theorem codes_of_run_parts : ∃ s : Served Unit (FishData ℕ),
    (s.data 0).outputCodes = [[1, 0, 11], [1, 0, 22]] ∧
    Samples sumModel (textRequest [5, 6]) (s.data 0) ∧
    (∃ n, ∃ t : Served Unit (FishData ℕ),
      Transition.Run (Served.step sumModel.runner fun _ => textRequest [5, 6])
        Transition.anyAction (.init Unit sumModel.runner (fun _ => textRequest [5, 6]) true)
        (sumModel.runner.aloneActions (textRequest [5, 6]) n) t ∧
        SameCodes (s.data 0) (t.data 0)) ∧
    ∃ n, ∃ t : Served Unit (FishData ℕ),
      Transition.Run (Served.step sumModel.runner fun _ => textRequest [5, 6])
        Transition.anyAction (.init Unit sumModel.runner (fun _ => textRequest [5, 6]) true)
        (sumModel.runner.aloneActions (textRequest [5, 6]) n) t ∧
        (s.data 0).kv <+: (t.data 0).kv := by
  have hrun := Transition.run_of_isSome_guarded
    (Served.step sumModel.runner fun _ => textRequest [5, 6])
    (Served.Prefills (fun _ => textRequest [5, 6]) FirstRows)
    (Served.init Unit sumModel.runner (fun _ => textRequest [5, 6]) true)
    [⟨.enqueue "a", fun _ => 0, fun _ => 0⟩,
      ⟨.select (.prefill [0] id (some 0) false), fun _ => 0, fun _ => 0⟩,
      ⟨goesOn, fun _ => 0, fun _ => 1⟩,
      ⟨.select prefillChoice, fun _ => 0, fun _ => 0⟩,
      ⟨goesOn, fun _ => 1, fun _ => 1⟩,
      ⟨.select (.decode []), fun _ => 0, fun _ => 0⟩,
      ⟨goesOn, fun _ => 0, fun _ => 0⟩] (by decide +kernel)
  exact ⟨_, by decide +kernel,
    codes_of_run sumModel (by decide) (fun _ => textRequest [5, 6]) true _ _ hrun 0⟩

/-- Codes that have been recorded stay. -/
theorem collect_outputCodes (r : FishRequest P) (isChunked : Bool) (d : FishData E) :
    d.outputCodes <+: (m.collect r isChunked d).outputCodes := by
  unfold collect
  split
  · exact prefix_refl _
  · dsimp only
    split
    · exact prefix_refl _
    · exact prefix_append _ _

theorem decodeRow_outputCodes (r : FishRequest P) (d : FishData E) :
    d.outputCodes <+: (m.decodeRow r d).outputCodes :=
  collect_outputCodes r false { d with
    kv := d.kv ++ [m.decodeInput d]
    decodeInputs := d.decodeInputs ++ [m.decodeInput d] }

theorem alone_isSome (r : FishRequest P) (n : ℕ) : ∃ d, m.runner.alone r n = some d := by
  induction n using Nat.twoStepInduction with
  | zero => exact ⟨_, rfl⟩
  | one => exact ⟨_, alone_one r⟩
  | more n _ ih =>
    obtain ⟨d, hd⟩ := ih
    exact ⟨_, (congrArg (fun o => o.bind (m.runner.decode r)) hd).trans rfl⟩

/-- The first two steps of a prompt alone. -/
theorem alone_textRequest (n : ℕ) : ∀ d, sumModel.runner.alone (textRequest [5]) (n + 2) = some d →
    [[1, 0, 5], [1, 0, 16]] <+: d.outputCodes := by
  induction n with
  | zero =>
    intro d hd
    have htwo : (sumModel.runner.alone (textRequest [5]) 2).map FishData.outputCodes =
        some [[1, 0, 5], [1, 0, 16]] := by decide +kernel
    rw [hd, Option.map_some, Option.some.injEq] at htwo
    rw [htwo]
  | succ n ih =>
    intro d hd
    obtain ⟨d', hd', hnext⟩ := Option.bind_eq_some_iff.mp hd
    cases hnext
    exact (ih d' hd').trans (decodeRow_outputCodes _ _)

/-- A request with a token is retracted and prefilled again: the input of its token is made
without the codes, and its next codes differ from those of every run alone. -/
theorem prefilled_again_differs : ∃ s : Served Unit (FishData ℕ),
    Transition.Reachable (Served.step sumModel.runner fun _ => textRequest [5])
      (.init Unit sumModel.runner (fun _ => textRequest [5]) true) s ∧
    (s.data 1).outputCodes = [[1, 0, 5], [1, 0, 6]] ∧
    ∀ n, ∀ t : Served Unit (FishData ℕ),
      Transition.Run (Served.step sumModel.runner fun _ => textRequest [5]) Transition.anyAction
        (.init Unit sumModel.runner (fun _ => textRequest [5]) true)
        (sumModel.runner.aloneActions (textRequest [5]) n) t →
      ¬SameCodes (s.data 1) (t.data 0) := by
  have hrun := Transition.run_of_isSome (Served.step sumModel.runner fun _ => textRequest [5])
    (Served.init Unit sumModel.runner (fun _ => textRequest [5]) true)
    [⟨.enqueue "a", fun _ => 0, fun _ => 0⟩, ⟨.enqueue "b", fun _ => 0, fun _ => 0⟩,
      ⟨.select (.prefill [0, 1] id none false), fun _ => 0, fun _ => 0⟩,
      ⟨goesOn, fun _ => 0, fun _ => 1⟩,
      ⟨.select (.decode [1]), fun _ => 0, fun _ => 0⟩,
      ⟨goesOn, fun _ => 0, fun _ => 0⟩,
      ⟨.select (.prefill [1] id none false), fun _ => 0, fun _ => 0⟩,
      ⟨goesOn, fun _ => 0, fun _ => 2⟩] (by decide +kernel)
  refine ⟨_, ⟨_, hrun⟩, by decide +kernel, fun n t halone hsame => ?_⟩
  have hcodes : (t.data 0).outputCodes = [[1, 0, 5], [1, 0, 6]] :=
    hsame.1.symm.trans (by decide +kernel)
  obtain ⟨d, hd⟩ := alone_isSome (m := sumModel) (textRequest [5]) n
  obtain ⟨u, hu, hdata, _⟩ :=
    sumModel.runner.alone_run (V := Unit) (fun _ => textRequest [5]) true n hd
  rw [halone.unique hu, hdata] at hcodes
  match n with
  | 0 =>
    cases hd
    cases hcodes
  | 1 =>
    rw [alone_one, Option.some.injEq] at hd
    rw [← hd] at hcodes
    exact absurd hcodes (by decide +kernel)
  | n + 2 =>
    have hfirst := alone_textRequest n d hd
    rw [hcodes] at hfirst
    exact absurd hfirst (by decide)

end FishModel

end Omni.Tts
