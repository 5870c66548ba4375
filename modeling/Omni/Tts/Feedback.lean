import Omni.Tts.Served

/-!
# Speech from fed back codes

Qwen3-TTS and Voxtral-TTS: each step appends a code frame and a feedback embedding to the data
of every row, and a decode step takes the next feedback from its queue. The forward pass and the
samplers are parameters.
-/

namespace Omni.Tts

open List

variable {V R E L P : Type} {r : R}

/-- The data of a request. `kv` are the input embeddings whose keys and values are in the KV
cache, and `feedbacks` and `decodeInputs` are kept from all steps. -/
structure SpeechData (E : Type) where
  outputCodes : List (List ℕ)
  pendingFeedbackQueue : List E
  pendingTextQueue : List E
  outputIds : List ℕ
  kv : List E
  feedbacks : List E
  decodeInputs : List E
  deriving DecidableEq

/-- A sampled token, its code frame, and the feedback for the next step. -/
structure SpeechStep (E : Type) where
  token : ℕ
  codes : List ℕ
  feedback : E

/-- What the two runners have in common, by what they do for one request. -/
structure SpeechRunner (R E : Type) where
  eosId : ℕ
  promptLen : R → ℕ
  /-- The text rows that wait for the decode steps. -/
  texts : R → List E
  /-- `_build_prefill_input_embeds` with the output tokens, for a slice. -/
  prefillEmbeds : R → List ℕ → ℕ → ℕ → Option (List E)
  promptEmbeds : R → List E
  /-- The next decode input, and what is left of the feedbacks and the texts. -/
  takeInput : R → SpeechData E → E × List E × List E
  /-- The decode input with the feedback of a step. -/
  generatedInput : R → ℕ → E → E
  /-- The forward pass and the samplers. -/
  sample : R → List ℕ → List E → SpeechStep E
  length_promptEmbeds : ∀ r, (promptEmbeds r).length = promptLen r
  prefill_prompt : ∀ r prefixLen extendLen,
    prefillEmbeds r [] prefixLen extendLen =
      some (((promptEmbeds r).drop prefixLen).take extendLen) ∨ promptLen r < prefixLen + extendLen
  takeInput_cons : ∀ r (d : SpeechData E) j feedback rest,
    d.pendingFeedbackQueue = feedback :: rest → d.pendingTextQueue = (texts r).drop j →
      takeInput r d = (generatedInput r j feedback, rest, (texts r).drop (j + 1))

namespace SpeechRunner

variable (m : SpeechRunner R E)

/-- Before the prefill. -/
def initData (r : R) : SpeechData E := ⟨[], [], m.texts r, [], [], [], []⟩

/-- `post_process_outputs` for one request, and the token that `process_batch_result` appends
unless the row is one of a chunk. -/
def collect (r : R) (isChunked : Bool) (d : SpeechData E) : SpeechData E :=
  let step := m.sample r d.outputIds d.kv
  let d := if step.token = m.eosId then d else { d with
    outputCodes := d.outputCodes ++ [step.codes]
    pendingFeedbackQueue := d.pendingFeedbackQueue ++ [step.feedback]
    feedbacks := d.feedbacks ++ [step.feedback] }
  if isChunked then d else { d with outputIds := d.outputIds ++ [step.token] }

/-- What a cached prefix has been computed from: the request's own inputs, as far as it has been
prefilled, and otherwise those of a request with the same prompt. -/
def cachedPrefix (r : R) (prefixLen : ℕ) (d : SpeechData E) : List E :=
  if prefixLen ≤ d.kv.length then d.kv.take prefixLen else (m.promptEmbeds r).take prefixLen

/-- A row of a prefill. -/
def prefillRow (r : R) (prefixLen extendLen : ℕ) (isChunked : Bool) (d : SpeechData E) :
    Option (SpeechData E) :=
  (m.prefillEmbeds r d.outputIds prefixLen extendLen).map fun embeds =>
    m.collect r isChunked { d with kv := m.cachedPrefix r prefixLen d ++ embeds }

/-- The input of a decode step. -/
def feed (r : R) (d : SpeechData E) : SpeechData E :=
  let input := m.takeInput r d
  { d with
    pendingFeedbackQueue := input.2.1
    pendingTextQueue := input.2.2
    kv := d.kv ++ [input.1]
    decodeInputs := d.decodeInputs ++ [input.1] }

/-- A row of a decode step. -/
def decodeRow (r : R) (d : SpeechData E) : SpeechData E := m.collect r false (m.feed r d)

variable {m}

variable {d : SpeechData E}

theorem outputs_collect {isChunked : Bool} :
    (m.collect r isChunked d).outputIds.length =
      if isChunked then d.outputIds.length else d.outputIds.length + 1 := by
  unfold collect
  cases isChunked with
  | true =>
    simp only [if_true]
    split <;> rfl
  | false =>
    simp only [Bool.false_eq_true, if_false, length_append, length_singleton]
    split <;> rfl

variable (m) in
/-- The runner. -/
def runner : Runner R (SpeechData E) where
  promptLen := m.promptLen
  outputs d := d.outputIds.length
  init := m.initData
  prefill := m.prefillRow
  decode r d := some (m.decodeRow r d)
  outputs_init _ := rfl
  outputs_prefill h := by
    obtain ⟨embeds, _, rfl⟩ := Option.map_eq_some_iff.mp h
    exact outputs_collect
  outputs_decode h := by
    cases h
    exact outputs_collect

/-- The first step alone. -/
theorem alone_one (r : R) : m.runner.alone r 1 =
    some (m.collect r false { m.initData r with kv := m.promptEmbeds r }) := by
  change m.prefillRow r 0 (m.promptLen r) false (m.initData r) = _
  have hwhole : m.prefillEmbeds r [] 0 (m.promptLen r) = some (m.promptEmbeds r) := by
    rcases m.prefill_prompt r 0 (m.promptLen r) with hslice | hnot
    · rw [hslice, drop_zero, ← m.length_promptEmbeds r, take_length]
    · omega
  have hempty : (m.initData r).outputIds = [] := rfl
  rw [prefillRow, hempty, hwhole]
  rfl

/-- A step more alone. -/
theorem alone_succ {n : ℕ} (h : m.runner.alone r (n + 1) = some d) :
    m.runner.alone r (n + 2) = some (m.decodeRow r d) :=
  (congrArg (fun o => o.bind (m.runner.decode r)) h).trans rfl

theorem alone_isSome (r : R) (n : ℕ) : ∃ d, m.runner.alone r n = some d := by
  induction n using Nat.twoStepInduction with
  | zero => exact ⟨_, rfl⟩
  | one => exact ⟨_, alone_one r⟩
  | more n _ ih =>
    obtain ⟨d, hd⟩ := ih
    exact ⟨_, alone_succ hd⟩

/-- The inputs of the positions of a request that has a token. As long as it goes on before the
end token, the position of step `j` has the feedback of step `j`. -/
structure Feeds (m : SpeechRunner R E) (r : R) (d : SpeechData E) : Prop where
  kv : d.kv = m.promptEmbeds r ++ d.decodeInputs
  positions : d.outputIds.length = d.decodeInputs.length + 1
  inputs : m.eosId ∉ d.outputIds.dropLast → ∀ j < d.decodeInputs.length, ∃ feedback,
    d.feedbacks[j]? = some feedback ∧ d.decodeInputs[j]? = some (m.generatedInput r j feedback)

/-- What is in the queues, as long as the end token has not been sampled. -/
structure Queues (m : SpeechRunner R E) (r : R) (d : SpeechData E) : Prop where
  feedbacks : d.feedbacks.length = d.outputIds.length
  pending : d.pendingFeedbackQueue = d.feedbacks.drop d.decodeInputs.length
  texts : d.pendingTextQueue = (m.texts r).drop d.decodeInputs.length

theorem collect_parts (m : SpeechRunner R E) (r : R) (d : SpeechData E) :
    (m.collect r false d).kv = d.kv ∧ (m.collect r false d).decodeInputs = d.decodeInputs ∧
    (m.collect r false d).pendingTextQueue = d.pendingTextQueue ∧
    (m.collect r false d).outputIds = d.outputIds ++ [(m.sample r d.outputIds d.kv).token] ∧
    d.feedbacks <+: (m.collect r false d).feedbacks ∧
    d.outputCodes <+: (m.collect r false d).outputCodes := by
  unfold collect
  simp only [Bool.false_eq_true, if_false]
  split
  · exact ⟨rfl, rfl, rfl, rfl, prefix_refl _, prefix_refl _⟩
  · exact ⟨rfl, rfl, rfl, rfl, prefix_append _ _, prefix_append _ _⟩

variable {d : SpeechData E}

/-- The queues of a step that has not sampled the end token. -/
theorem collect_queues (h : Queues m r d) (hpositions : d.decodeInputs.length ≤ d.feedbacks.length)
    (hgoes : m.eosId ∉ (m.collect r false d).outputIds) : Queues m r (m.collect r false d) := by
  obtain ⟨_, _, _, hids, _, _⟩ := collect_parts m r d
  rw [hids, mem_append, not_or] at hgoes
  have htoken : (m.sample r d.outputIds d.kv).token ≠ m.eosId := by
    intro heq
    exact hgoes.2 (mem_singleton.mpr heq.symm)
  unfold collect
  simp only [Bool.false_eq_true, if_false, if_neg htoken]
  refine ⟨?_, ?_, h.texts⟩
  · rw [length_append, length_append, h.feedbacks]
    rfl
  · rw [drop_append_of_le_length hpositions, h.pending]

theorem feed_input (h : Queues m r d) {feedback : E}
    (hfeedback : d.feedbacks[d.decodeInputs.length]? = some feedback) :
    (m.feed r d).decodeInputs =
        d.decodeInputs ++ [m.generatedInput r d.decodeInputs.length feedback] ∧
      Queues m r (m.feed r d) := by
  obtain ⟨hlt, hget⟩ := List.getElem?_eq_some_iff.mp hfeedback
  have hpending : d.pendingFeedbackQueue =
      feedback :: d.feedbacks.drop (d.decodeInputs.length + 1) := by
    rw [h.pending, drop_eq_getElem_cons hlt, hget]
  have htake := m.takeInput_cons r d _ feedback _ hpending h.texts
  unfold feed
  rw [htake]
  refine ⟨rfl, h.feedbacks, ?_, ?_⟩
  · rw [length_append, length_singleton]
  · rw [length_append, length_singleton]

/-- A list keeps its entries when it grows. -/
theorem getElem?_of_prefix {xs ys : List E} {i : ℕ} {x : E} (h : xs <+: ys)
    (hx : xs[i]? = some x) : ys[i]? = some x := by
  obtain ⟨hlt, rfl⟩ := List.getElem?_eq_some_iff.mp hx
  exact prefix_iff_getElem?.mp h i hlt

/-- Alone, the positions of a request have their inputs. -/
theorem feeds_alone (r : R) (n : ℕ) : ∀ d, m.runner.alone r (n + 1) = some d →
    Feeds m r d ∧ (m.eosId ∉ d.outputIds → Queues m r d) := by
  induction n with
  | zero =>
    intro d hd
    rw [alone_one, Option.some.injEq] at hd
    obtain ⟨hkv, hinputs, _, hids, _, _⟩ :=
      collect_parts m r { m.initData r with kv := m.promptEmbeds r }
    rw [hd] at hkv hinputs hids
    have hnone : d.decodeInputs = [] := hinputs
    refine ⟨⟨?_, ?_, ?_⟩, fun hgoes => ?_⟩
    · rw [hkv, hnone, append_nil]
    · rw [hids, hnone]
      rfl
    · rw [hnone]
      exact fun _ j hj => absurd hj (Nat.not_lt_zero j)
    · rw [← hd] at hgoes ⊢
      exact collect_queues ⟨rfl, rfl, rfl⟩ (Nat.zero_le _) hgoes
  | succ n ih =>
    intro d hd
    obtain ⟨d', hd', hnext⟩ := Option.bind_eq_some_iff.mp hd
    obtain ⟨hfeeds, hqueues⟩ := ih d' hd'
    have hnext : m.collect r false (m.feed r d') = d := Option.some.inj hnext
    obtain ⟨hkv, hinputs, _, hids, hfeedbacks, _⟩ := collect_parts m r (m.feed r d')
    rw [hnext] at hkv hinputs hids hfeedbacks
    have hids : d.outputIds =
        d'.outputIds ++ [(m.sample r (m.feed r d').outputIds (m.feed r d').kv).token] := hids
    have hinputs : d.decodeInputs = d'.decodeInputs ++ [(m.takeInput r d').1] := hinputs
    -- before the end token, the queues are in step and the next feedback is there
    have hbefore : m.eosId ∉ d'.outputIds → ∃ feedback,
        d'.feedbacks[d'.decodeInputs.length]? = some feedback ∧
        d.decodeInputs = d'.decodeInputs ++ [m.generatedInput r d'.decodeInputs.length feedback] ∧
        Queues m r (m.feed r d') := by
      intro hgoes
      have hlt : d'.decodeInputs.length < d'.feedbacks.length := by
        rw [(hqueues hgoes).feedbacks, hfeeds.positions]
        exact Nat.lt_succ_self _
      obtain ⟨hinput, hfed⟩ := feed_input (hqueues hgoes) (getElem?_eq_getElem hlt)
      exact ⟨_, getElem?_eq_getElem hlt, hinputs.trans hinput, hfed⟩
    refine ⟨⟨?_, ?_, fun hgoes j hj => ?_⟩, fun hgoes => ?_⟩
    · rw [hkv, hinputs, ← append_assoc, ← hfeeds.kv]
      rfl
    · rw [hids, hinputs, length_append, length_append, hfeeds.positions]
      rfl
    · rw [hids, dropLast_concat] at hgoes
      obtain ⟨feedback, hfeedback, hinput, _⟩ := hbefore hgoes
      rw [hinput] at hj ⊢
      rw [length_append, length_singleton] at hj
      rcases Nat.lt_or_eq_of_le (Nat.le_of_lt_succ hj) with hlt | rfl
      · obtain ⟨earlier, hearlier, hj⟩ :=
          hfeeds.inputs (fun hmem => hgoes (dropLast_subset _ hmem)) j hlt
        refine ⟨earlier, ?_, ?_⟩
        · exact getElem?_of_prefix hfeedbacks hearlier
        · rw [getElem?_append_left hlt]
          exact hj
      · refine ⟨feedback, ?_, ?_⟩
        · exact getElem?_of_prefix hfeedbacks hfeedback
        · rw [getElem?_concat_length]
    · have hgoes' : m.eosId ∉ d'.outputIds := by
        rw [hids] at hgoes
        exact fun hmem => hgoes (mem_append_left _ hmem)
      obtain ⟨_, _, _, hfed⟩ := hbefore hgoes'
      rw [← hnext] at hgoes ⊢
      refine collect_queues hfed ?_ hgoes
      have hlength := hfed.feedbacks
      change (d'.decodeInputs ++ [(m.takeInput r d').1]).length ≤ (m.feed r d').feedbacks.length
      rw [hlength, length_append, length_singleton, ← hfeeds.positions]
      rfl

/-- Prompts are prefilled whole after their cached prefix, and only before the first token. -/
def WholeFirst : R → ℕ → ℕ → Bool → SpeechData E → Prop :=
  fun _ _ _ isChunked d => isChunked = false ∧ d.outputIds = []

instance (r : R) (prefixLen extendLen : ℕ) (isChunked : Bool) (d : SpeechData E) :
    Decidable (WholeFirst r prefixLen extendLen isChunked d) :=
  decidable_of_iff (isChunked = false ∧ d.outputIds.isEmpty) (by simp [WholeFirst])

/-- What a request has is what it has in a run alone, at the same number of tokens. -/
def Alike (m : SpeechRunner R E) (r : R) (d : SpeechData E) : Prop :=
  m.runner.alone r d.outputIds.length = some d

theorem alike_init (r : R) : Alike m r (m.runner.init r) := rfl

theorem Alike.prefill {prefixLen extendLen : ℕ} {isChunked : Bool} {d' : SpeechData E}
    (h : Alike m r d) (hwhole : WholeFirst r prefixLen extendLen isChunked d)
    (hfits : prefixLen + extendLen = m.promptLen r)
    (hrow : m.prefillRow r prefixLen extendLen isChunked d = some d') : Alike m r d' := by
  obtain ⟨rfl, hnone⟩ := hwhole
  unfold Alike at h
  rw [hnone] at h
  obtain rfl : m.initData r = d := Option.some.inj h
  have hslice := (m.prefill_prompt r prefixLen extendLen).resolve_right (by omega)
  have hrest : ((m.promptEmbeds r).drop prefixLen).take extendLen =
      (m.promptEmbeds r).drop prefixLen := by
    refine take_of_length_le ?_
    rw [length_drop, m.length_promptEmbeds]
    omega
  have hcached : m.cachedPrefix r prefixLen (m.initData r) = (m.promptEmbeds r).take prefixLen := by
    unfold cachedPrefix
    split
    next hle =>
      obtain rfl : prefixLen = 0 := Nat.le_zero.mp hle
      rfl
    next => rfl
  unfold prefillRow at hrow
  rw [hnone, hslice, hrest, Option.map_some, Option.some.injEq, hcached, take_append_drop] at hrow
  have hone : d'.outputIds.length = 1 := by
    rw [← hrow]
    exact outputs_collect
  unfold Alike
  rw [hone, alone_one, ← hrow]
  rfl

theorem Alike.decode (h : Alike m r d) (hpos : 0 < d.outputIds.length) :
    Alike m r (m.decodeRow r d) := by
  have hnext : (m.decodeRow r d).outputIds.length = d.outputIds.length + 1 := outputs_collect
  obtain ⟨n, hn⟩ := Nat.exists_eq_add_of_lt hpos
  unfold Alike at h ⊢
  rw [hnext, hn]
  rw [hn] at h
  exact alone_succ h

theorem alike_of_run {request : ℕ → R} {isEntryRank : Bool} {as : List ServedAction}
    {s : Served V (SpeechData E)}
    (hrun : Transition.Run (Served.step m.runner request) (Served.Prefills request WholeFirst)
      (.init V m.runner request isEntryRank) as s) (q : ℕ) :
    Alike m (request q) (s.data q) ∧
      ((s.data q).outputIds ≠ [] → Feeds m (request q) (s.data q)) := by
  obtain ⟨-, hdata⟩ := Fed.of_run (A := fun q d => Alike m (request q) d)
    (fun q => alike_init (request q))
    (fun q prefixLen extendLen isChunked d d' h hwhole hfits hrow => by
      obtain ⟨rfl, hnone⟩ := hwhole
      refine h.prefill ⟨rfl, hnone⟩ ?_ hrow
      have hfits : prefixLen + extendLen = m.promptLen (request q) + d.outputIds.length := hfits
      rwa [hnone] at hfits)
    (fun q d d' h hlength hrow => by
      cases hrow
      exact h.decode hlength) hrun
  refine ⟨hdata q, fun hsome => ?_⟩
  obtain ⟨n, hn⟩ := Nat.exists_eq_add_of_lt (length_pos_of_ne_nil hsome)
  have halone := hdata q
  unfold Alike at halone
  rw [hn, Nat.zero_add] at halone
  exact (feeds_alone (request q) n _ halone).1

end SpeechRunner

end Omni.Tts
