import Mathlib.Data.List.Sort
import Omni.Tts.DelayPattern

/-!
# The sampling of Fish S2-Pro

`_decode_codebooks` of the text model for one row of a batch, and the history of a request that
is copied into the row before each step. The forward pass, the draw and the codebook loop are
parameters.
-/

namespace Omni.Tts

open List

/-- The model and its sampler. `chooseUnmasked` is what masking with minus infinity is for. -/
structure FishModel (E L P : Type) where
  semanticBeginId : ℕ
  semanticEndId : ℕ
  imEndTokenId : ℕ
  codebookSize : ℕ
  repHistoryLen : ℕ
  embedTokens : ℕ → E
  /-- `embed_text_dim` for a position with reference codes. -/
  embedTextDim : E → List ℕ → E
  /-- The sum with the codes of the last step in `forward`. -/
  combine : E → List ℕ → E
  /-- The logits after the given input embeddings. -/
  logits : List E → List L
  /-- The codebook loop, with the first code. -/
  codebooks : List E → ℕ → List ℕ
  /-- A score divided by the repetition penalty, or times it. -/
  penalty : P → L → L
  /-- Top-k, top-p, temperature and the draw. The temperature and top-p are those for
  repetitions if the flag is set, and the draw has the seed and the step count. -/
  choose : P → Bool → Option ℕ → ℕ → List (Option L) → ℕ
  semanticBeginId_pos : 0 < semanticBeginId
  imEnd_lt : ∀ kv, imEndTokenId < (logits kv).length
  chooseUnmasked : ∀ (params : P) (ras : Bool) (seed : Option ℕ) (step : ℕ)
    (scores : List (Option L)), (∃ t : ℕ, ∃ x, scores[t]? = some (some x)) →
      ∃ x, scores[choose params ras seed step scores]? = some (some x)

/-- The row of a request in the buffers of the model. -/
structure FishRow where
  prevTokens : List ℕ
  prevTokenCount : ℕ
  stepCount : ℕ

/-- What a request remembers of its semantic tokens. -/
structure FishHistory where
  previousSemanticTokens : List ℕ
  semanticHistoryTokens : Option (List ℕ)
  semanticHistoryCount : ℕ
  deriving DecidableEq

/-- No token yet. -/
def FishHistory.empty : FishHistory := ⟨[], none, 0⟩

namespace FishModel

variable {E L P : Type} (m : FishModel E L P) {tokens : List ℕ}

/-- `_append_semantic_history`, and the list of all tokens. -/
def appendSemanticHistory (h : FishHistory) (token : ℕ) : FishHistory :=
  let fresh := match h.semanticHistoryTokens with
    | none => true
    | some history => history.length ≠ m.repHistoryLen
  let history := if fresh then List.replicate m.repHistoryLen 0
    else h.semanticHistoryTokens.getD []
  let count := if fresh then 0 else h.semanticHistoryCount
  { previousSemanticTokens := h.previousSemanticTokens ++ [token]
    semanticHistoryTokens := some
      (if count < m.repHistoryLen then history.set count token else history.tail ++ [token])
    semanticHistoryCount := count + 1 }

/-- `_sync_decode_row_state`, as far as the history goes. -/
def syncDecodeRowState (h : FishHistory) : FishRow :=
  match h.semanticHistoryTokens with
  | some history => ⟨history, min h.semanticHistoryCount m.repHistoryLen, h.semanticHistoryCount⟩
  | none => ⟨List.replicate m.repHistoryLen 0, 0, h.semanticHistoryCount⟩

/-- The last tokens of a history, as many as the window holds. -/
def window (tokens : List ℕ) : List ℕ := tokens.drop (tokens.length - m.repHistoryLen)

/-- What the buffer of a request holds: the last tokens, and padding. -/
structure Remembers (h : FishHistory) : Prop where
  count : h.semanticHistoryCount = h.previousSemanticTokens.length
  fresh : h.semanticHistoryTokens = none → h.previousSemanticTokens = []
  history : ∀ history, h.semanticHistoryTokens = some history →
    history = m.window h.previousSemanticTokens ++
      List.replicate (m.repHistoryLen - h.previousSemanticTokens.length) 0
  pos : ∀ token ∈ h.previousSemanticTokens, 0 < token

variable {m}

theorem remembers_empty : m.Remembers FishHistory.empty where
  count := rfl
  fresh _ := rfl
  history _ h := by cases h
  pos _ h := by cases h

theorem length_window (tokens : List ℕ) :
    (m.window tokens).length = min tokens.length m.repHistoryLen := by
  rw [window, length_drop]
  omega

theorem window_append_of_lt (token : ℕ) (hlt : tokens.length < m.repHistoryLen) :
    m.window (tokens ++ [token]) = m.window tokens ++ [token] := by
  have hfull : (tokens ++ [token]).length - m.repHistoryLen = 0 := by
    rw [length_append, length_singleton]
    omega
  have hshort : tokens.length - m.repHistoryLen = 0 := by omega
  rw [window, window, hfull, hshort, drop_zero, drop_zero]

/-- A token that pushes the oldest one out. -/
theorem window_append_of_le (token : ℕ) (hpos : 0 < m.repHistoryLen)
    (hle : m.repHistoryLen ≤ tokens.length) :
    m.window (tokens ++ [token]) = (m.window tokens).tail ++ [token] := by
  have hnext : (tokens ++ [token]).length - m.repHistoryLen =
      tokens.length - m.repHistoryLen + 1 := by
    rw [length_append, length_singleton]
    omega
  rw [window, window, hnext, tail_drop, drop_append_of_le_length (by omega)]

/-- The buffer remembers the next token too. -/
theorem Remembers.append {h : FishHistory} (hrem : m.Remembers h) {token : ℕ}
    (hwindow : 0 < m.repHistoryLen) (hpos : 0 < token) :
    m.Remembers (m.appendSemanticHistory h token) := by
  obtain ⟨history, hfresh, hhistory⟩ : ∃ history,
      history = m.window h.previousSemanticTokens ++
        List.replicate (m.repHistoryLen - h.previousSemanticTokens.length) 0 ∧
      m.appendSemanticHistory h token =
        { previousSemanticTokens := h.previousSemanticTokens ++ [token]
          semanticHistoryTokens := some (if h.previousSemanticTokens.length < m.repHistoryLen then
            history.set h.previousSemanticTokens.length token else history.tail ++ [token])
          semanticHistoryCount := h.previousSemanticTokens.length + 1 } := by
    unfold appendSemanticHistory
    cases hstored : h.semanticHistoryTokens with
    | none =>
      have hnone := hrem.fresh hstored
      exact ⟨List.replicate m.repHistoryLen 0, by simp [hnone, window], by simp [hnone]⟩
    | some history =>
      have heq := hrem.history history hstored
      have hlength : history.length = m.repHistoryLen := by
        rw [heq, length_append, length_window, length_replicate]
        omega
      exact ⟨history, heq, by simp [hlength, hrem.count]⟩
  rw [hhistory]
  refine ⟨by simp, nofun, fun buffer hbuffer => ?_, fun t ht => ?_⟩
  · cases hbuffer
    dsimp only
    by_cases hlt : h.previousSemanticTokens.length < m.repHistoryLen
    · have hlength : (m.window h.previousSemanticTokens).length =
          h.previousSemanticTokens.length := by
        rw [length_window]
        omega
      obtain ⟨n, hn⟩ : ∃ n, m.repHistoryLen - h.previousSemanticTokens.length = n + 1 :=
        ⟨m.repHistoryLen - h.previousSemanticTokens.length - 1, by omega⟩
      have hrest : m.repHistoryLen - (h.previousSemanticTokens ++ [token]).length = n := by
        rw [length_append, length_singleton]
        omega
      rw [if_pos hlt, hfresh, window_append_of_lt token hlt, hn, hrest,
        set_append_right _ _ (Nat.le_of_eq hlength), hlength, Nat.sub_self,
        replicate_succ, set_cons_zero, append_assoc, singleton_append]
    · have hle : m.repHistoryLen ≤ h.previousSemanticTokens.length := Nat.le_of_not_lt hlt
      have hzero : m.repHistoryLen - h.previousSemanticTokens.length = 0 := by omega
      have hzero' : m.repHistoryLen - (h.previousSemanticTokens ++ [token]).length = 0 := by
        rw [length_append]
        omega
      rw [if_neg hlt, hfresh, window_append_of_le token hwindow hle, hzero, hzero',
        replicate_zero, append_nil, append_nil]
  · rcases mem_append.mp ht with hold | hnew
    · exact hrem.pos t hold
    · rw [mem_singleton.mp hnew]
      exact hpos

variable (m)

/-- `logits + self._semantic_bias`. -/
def biasedLogits (logits : List L) : List (Option L) :=
  maskTokens (fun t => (m.semanticBeginId ≤ t && t ≤ m.semanticEndId) || t = m.imEndTokenId)
    (logits.map some)

/-- `last4`. -/
def last4 (row : FishRow) : List ℕ :=
  [4, 3, 2, 1].map fun back => row.prevTokens.getD (row.prevTokenCount - back) 0

/-- `has_dup`. -/
def hasDup (tokens : List ℕ) : Bool :=
  let sorted := tokens.mergeSort
  (sorted.tail.zip sorted).any fun pair => pair.1 = pair.2

/-- `use_ras`. -/
def useRas (row : FishRow) : Bool := hasDup (last4 row) && 4 ≤ row.prevTokenCount

/-- The scores with the repetition penalty, which are scattered over the scores. -/
def penalize (params : P) (row : FishRow) (scores : List (Option L)) : List (Option L) :=
  row.prevTokens.zipIdx.foldl (fun acc entry =>
    acc.set entry.1 (if entry.2 < row.prevTokenCount then
      (scores[entry.1]?.join).map (m.penalty params) else scores[entry.1]?.join)) scores

/-- The semantic token of a step. -/
def semanticToken (params : P) (seed : Option ℕ) (row : FishRow) (kv : List E) : ℕ :=
  m.choose params (useRas row) seed row.stepCount
    (m.penalize params row (m.biasedLogits (m.logits kv)))

/-- `sem_id`. -/
def semId (token : ℕ) : ℕ :=
  if token = m.imEndTokenId then 0 else min (token - m.semanticBeginId) (m.codebookSize - 1)

/-- The row of `_output_codes`. -/
def outputCodes (kv : List E) (token : ℕ) : List ℕ :=
  token :: m.semId token :: m.codebooks kv (m.semId token)

/-- The row as it has to be for some tokens. -/
structure Sees (row : FishRow) (tokens : List ℕ) : Prop where
  prevTokens : row.prevTokens =
    m.window tokens ++ List.replicate (m.repHistoryLen - tokens.length) 0
  prevTokenCount : row.prevTokenCount = (m.window tokens).length
  stepCount : row.stepCount = tokens.length

variable {m}

/-- What is copied into the row are the last tokens. -/
theorem Remembers.sees {h : FishHistory} (hrem : m.Remembers h) :
    m.Sees (m.syncDecodeRowState h) h.previousSemanticTokens := by
  unfold syncDecodeRowState
  cases hstored : h.semanticHistoryTokens with
  | none =>
    have hnone := hrem.fresh hstored
    exact ⟨by simp [hnone, window], by simp [hnone, window], hrem.count⟩
  | some history =>
    refine ⟨hrem.history history hstored, ?_, hrem.count⟩
    rw [length_window, ← hrem.count]

/-- Entries that are set to values which depend on where they are. -/
theorem getElem?_foldl_set {α β : Type} (f : β → ℕ) (g : β → α) (t : ℕ) (value : α) :
    ∀ (entries : List β) (scores : List α), (∀ e ∈ entries, f e = t → g e = value) →
      (entries.foldl (fun acc e => acc.set (f e) (g e)) scores)[t]? =
        if ∃ e ∈ entries, f e = t then scores[t]?.map fun _ => value else scores[t]?
  | [], scores, _ => by simp
  | e :: entries, scores, hvalue => by
    rw [foldl_cons, getElem?_foldl_set f g t value entries _
      fun e' he' => hvalue e' (mem_cons_of_mem e he')]
    by_cases he : f e = t
    · have hself : (scores.set (f e) (g e))[t]? = scores[t]?.map fun _ => value := by
        rw [he, hvalue e (mem_cons_self ..) he, getElem?_set_self']
        rfl
      have hhead : ∃ e' ∈ e :: entries, f e' = t := ⟨e, mem_cons_self .., he⟩
      rw [hself, if_pos hhead]
      split
      · rw [Option.map_map]
        rfl
      · rfl
    · rw [getElem?_set_ne he]
      refine if_congr ?_ rfl rfl
      simp [he]

variable {row : FishRow}

/-- **Penalty.** The tokens of the window are penalised, and no other ones. -/
theorem Sees.penalize (h : m.Sees row tokens) (hpos : ∀ token ∈ tokens, 0 < token) (params : P)
    (scores : List (Option L)) (t : ℕ) :
    (m.penalize params row scores)[t]? =
      if t ∈ m.window tokens then scores[t]?.map (Option.map (m.penalty params))
      else scores[t]? := by
  have hwindow : ∀ i, i < row.prevTokenCount → row.prevTokens[i]? = (m.window tokens)[i]? := by
    intro i hi
    rw [h.prevTokens, getElem?_append_left (h.prevTokenCount ▸ hi)]
  have hpadding : ∀ i token, row.prevTokenCount ≤ i → row.prevTokens[i]? = some token →
      token = 0 := by
    intro i token hi hget
    rw [h.prevTokens, getElem?_append_right (h.prevTokenCount ▸ hi)] at hget
    exact eq_of_mem_replicate (mem_of_getElem? hget)
  unfold FishModel.penalize
  by_cases ht : t ∈ m.window tokens
  · have htpos : 0 < t := hpos t (mem_of_mem_drop ht)
    rw [if_pos ht, getElem?_foldl_set (fun entry => entry.1) _ t
      ((scores[t]?.join).map (m.penalty params)) row.prevTokens.zipIdx scores fun entry he heq =>
          ?_]
    · obtain ⟨i, hi, hget⟩ := mem_iff_getElem.mp ht
      have hcount : i < row.prevTokenCount := h.prevTokenCount ▸ hi
      have hmem : (t, i) ∈ row.prevTokens.zipIdx := by
        refine mem_zipIdx_iff_getElem?.mpr ?_
        rw [hwindow i hcount, getElem?_eq_getElem hi, hget]
      rw [if_pos ⟨(t, i), hmem, rfl⟩]
      cases hscore : scores[t]? with
      | none => rfl
      | some score => rfl
    · have hget := mem_zipIdx_iff_getElem?.mp he
      by_cases hlt : entry.2 < row.prevTokenCount
      · rw [if_pos hlt, heq]
      · rw [heq] at hget
        rw [hpadding entry.2 t (Nat.le_of_not_lt hlt) hget] at htpos
        exact absurd htpos (Nat.lt_irrefl 0)
  · rw [if_neg ht, getElem?_foldl_set (fun entry => entry.1) _ t (scores[t]?.join)
      row.prevTokens.zipIdx scores fun entry he heq => ?_]
    · split
      · cases hscore : scores[t]? with
        | none => rfl
        | some score => rfl
      · rfl
    · have hget := mem_zipIdx_iff_getElem?.mp he
      rw [if_neg, heq]
      intro hlt
      rw [hwindow entry.2 hlt, heq] at hget
      exact ht (mem_of_getElem? hget)

theorem any_neighbours : ∀ {sorted : List ℕ}, sorted.Pairwise (· ≤ ·) →
    ((sorted.tail.zip sorted).any fun pair => pair.1 = pair.2) = decide ¬sorted.Nodup
  | [], _ => by simp
  | [_], _ => by simp
  | a :: b :: rest, hsorted => by
    obtain ⟨hle, hrest⟩ := pairwise_cons.mp hsorted
    have ih := any_neighbours hrest
    simp only [tail_cons] at ih
    simp only [tail_cons, zip_cons_cons, any_cons, ih]
    by_cases hab : b = a
    · subst hab
      simp
    · have hnot : a ∉ b :: rest := by
        intro hmem
        rcases mem_cons.mp hmem with heq | hmem
        · exact hab heq.symm
        · have hba := (pairwise_cons.mp hrest).1 a hmem
          exact hab (Nat.le_antisymm hba (hle b (mem_cons_self ..)))
      have hiff : (a :: b :: rest).Nodup ↔ (b :: rest).Nodup := by
        rw [nodup_cons]
        exact and_iff_right hnot
      simp [hab, hiff]

theorem hasDup_eq (tokens : List ℕ) : hasDup tokens = decide ¬tokens.Nodup := by
  have hsorted : (tokens.mergeSort).Pairwise (· ≤ ·) := pairwise_mergeSort' (· ≤ ·) tokens
  have hperm : (tokens.mergeSort).Perm tokens := mergeSort_perm tokens _
  exact (any_neighbours hsorted).trans (decide_eq_decide.mpr (not_congr hperm.nodup_iff))

/-- The last four tokens. -/
def lastFour (tokens : List ℕ) : List ℕ := tokens.drop (tokens.length - 4)

theorem lastFour_eq (hfour : 4 ≤ tokens.length) :
    lastFour tokens = [4, 3, 2, 1].map fun back => tokens.getD (tokens.length - back) 0 := by
  have hget : ∀ back, 1 ≤ back → back ≤ 4 →
      tokens.getD (tokens.length - back) 0 = (lastFour tokens).getD (4 - back) 0 := by
    intro back hpos hback
    rw [getD_eq_getElem?_getD, getD_eq_getElem?_getD, lastFour, getElem?_drop]
    congr 2
    omega
  have hlength : (lastFour tokens).length = 4 := by
    rw [lastFour, length_drop]
    omega
  simp only [map_cons, map_nil]
  rw [hget 4 (by omega) (by omega), hget 3 (by omega) (by omega), hget 2 (by omega) (by omega),
    hget 1 (by omega) (by omega)]
  generalize lastFour tokens = last at hlength
  obtain ⟨a, b, c, d, rfl⟩ := length_eq_four.mp hlength
  rfl

/-- **Repetition.** The last four tokens are looked at, once there are four. -/
theorem Sees.useRas (h : m.Sees row tokens) (hwindow : 4 ≤ m.repHistoryLen) :
    useRas row = decide (4 ≤ tokens.length ∧ ¬(lastFour tokens).Nodup) := by
  have hcount : row.prevTokenCount = min tokens.length m.repHistoryLen :=
    h.prevTokenCount.trans (length_window tokens)
  unfold FishModel.useRas
  by_cases hfour : 4 ≤ tokens.length
  · have hlast : last4 row = lastFour tokens := by
      rw [lastFour_eq hfour]
      refine map_congr_left fun back hback => ?_
      have hbounds : 1 ≤ back ∧ back ≤ 4 := by
        simp only [mem_cons, not_mem_nil, or_false] at hback
        omega
      rw [getD_eq_getElem?_getD, getD_eq_getElem?_getD, h.prevTokens,
        getElem?_append_left (by rw [length_window]; omega), window, getElem?_drop]
      congr 2
      omega
    rw [hlast, hasDup_eq]
    have hle : 4 ≤ row.prevTokenCount := by omega
    simp [hfour, hle]
  · have hlt : ¬4 ≤ row.prevTokenCount := by omega
    simp [hfour, hlt]

theorem semanticToken_range (params : P) (seed : Option ℕ) (h : m.Sees row tokens)
    (hpos : ∀ token ∈ tokens, 0 < token) (kv : List E) :
    (m.semanticBeginId ≤ m.semanticToken params seed row kv ∧
      m.semanticToken params seed row kv ≤ m.semanticEndId) ∨
      m.semanticToken params seed row kv = m.imEndTokenId := by
  have hunmasked : ∀ t x, (m.penalize params row (m.biasedLogits (m.logits kv)))[t]? =
      some (some x) → (m.semanticBeginId ≤ t ∧ t ≤ m.semanticEndId) ∨ t = m.imEndTokenId := by
    intro t x hget
    have hscore : ∃ y, (m.biasedLogits (m.logits kv))[t]? = some (some y) := by
      rw [h.penalize hpos] at hget
      split at hget
      · obtain ⟨score, hscore, hsome⟩ := Option.map_eq_some_iff.mp hget
        obtain ⟨y, rfl, _⟩ := Option.map_eq_some_iff.mp hsome
        exact ⟨y, hscore⟩
      · exact ⟨x, hget⟩
    obtain ⟨y, hy⟩ := hscore
    rw [biasedLogits, maskTokens_getElem?] at hy
    obtain ⟨score, _, hkeep⟩ := Option.map_eq_some_iff.mp hy
    split at hkeep
    next hrange => simpa using hrange
    next => cases hkeep
  have hsome : ∃ t : ℕ, ∃ x, (m.penalize params row (m.biasedLogits (m.logits kv)))[t]? =
      some (some x) := by
    have hscore : ∃ y, (m.biasedLogits (m.logits kv))[m.imEndTokenId]? = some (some y) := by
      obtain ⟨y, hy⟩ : ∃ y, (m.logits kv)[m.imEndTokenId]? = some y :=
        ⟨_, getElem?_eq_getElem (m.imEnd_lt kv)⟩
      refine ⟨y, ?_⟩
      rw [biasedLogits, maskTokens_getElem?, getElem?_map, hy]
      simp
    obtain ⟨y, hy⟩ := hscore
    refine ⟨m.imEndTokenId, ?_⟩
    rw [h.penalize hpos, hy]
    split
    · exact ⟨_, rfl⟩
    · exact ⟨y, rfl⟩
  obtain ⟨x, hx⟩ := m.chooseUnmasked params (FishModel.useRas row) seed row.stepCount _ hsome
  exact hunmasked _ x hx

end FishModel

end Omni.Tts
