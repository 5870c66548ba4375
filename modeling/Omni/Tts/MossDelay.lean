import Omni.Tts.DelayPattern
import Omni.Tts.Served

/-!
# MOSS-TTS in the scheduler

The scheduler together with the data of its requests. The engine of MOSS-TTS never looks ahead,
so a batch is chosen, runs, and is processed before the next one is chosen.
-/

namespace Omni.Tts

open Omni.Scheduler DelayModel Option

variable {V E L P : Type} {prompt : DelayRequest P} {b prefixLen extendLen : ℕ} {data : DelayData E}

/-- The scheduler with the data of its requests. -/
structure MossDelay (V E : Type) where
  scheduler : State V
  data : ℕ → DelayData E

/-- An action of the scheduler. In a prefill, `len(req.prefix_indices)` and
`req.extend_input_len` are given for each request. -/
structure MossAction where
  action : Action
  prefixLen : ℕ → ℕ
  extendLen : ℕ → ℕ

/-- Before the first request. -/
def MossDelay.init (V : Type) (m : DelayModel E L P) (request : ℕ → DelayRequest P)
    (isEntryRank : Bool) : MossDelay V E :=
  ⟨.init V isEntryRank, fun q => m.initData (request q)⟩

namespace MossDelay

variable (m : DelayModel E L P) (request : ℕ → DelayRequest P)

/-- A prefill reaches the end of what the request has, and ends before it in a chunk. -/
def fits (s : MossDelay V E) (a : MossAction) (q : ℕ) : Bool :=
  let total := (request q).promptRows.length + (s.data q).outputIds.length
  if s.scheduler.chunkedReq = some q then a.prefixLen q + a.extendLen q < total
  else a.prefixLen q + a.extendLen q = total

/-- The flag for the whole batch in `_collect_moss_step`. -/
def isAudio (s : MossDelay V E) (reqs : List ℕ) : Bool :=
  decide (reqs ≠ []) && reqs.all fun q => (s.data q).isAudio

/-- `execute` and the tokens of `process_batch_result`. The outputs go by request id, and the
ids of a batch differ. -/
def runData (s : MossDelay V E) (a : MossAction) (batch : Batch) : Option (ℕ → DelayData E) :=
  if (batch.reqs.map fun q => (s.scheduler.reqs q).rid).Nodup then
    if batch.isExtend then
      if batch.reqs.all (s.fits request a) then
        some fun q => if q ∈ batch.reqs then
            m.collect (request q) (s.isAudio batch.reqs) (s.scheduler.chunkedReq = some q)
              (m.prefillInput (request q) (a.prefixLen q) (a.extendLen q) (s.data q))
          else s.data q
      else none
    else some fun q => if q ∈ batch.reqs then
        m.collect (request q) (s.isAudio batch.reqs) false (m.decodeInput (s.data q))
      else s.data q
  else none

/-- What an action writes to the data. An admission takes a request once. -/
def dataAfter (s : MossDelay V E) (a : MossAction) : Option (ℕ → DelayData E) :=
  match a.action with
  | .enqueue _ | .abort _ | .select (.decode _) | .select .nothing | .run (.fails _) =>
    some s.data
  | .select (.prefill admitted _ _ _) => if admitted.Nodup then some s.data else none
  | .run (.done _ _) =>
    match s.scheduler.curBatch with
    | none => some s.data
    | some b => s.runData m request a (s.scheduler.batches b)
  | _ => none

/-- The transition function. -/
def step (s : MossDelay V E) (a : MossAction) : Option (MossDelay V E) := do
  let after ← Scheduler.step s.scheduler a.action
  let data ← s.dataAfter m request a
  return ⟨after, data⟩

end MossDelay

/-- The action runs the current batch. -/
def MossAction.isRun (a : MossAction) : Bool :=
  match a.action with
  | .run _ => true
  | _ => false

/-- A prefill that runs prefills whole prompts for the first time. -/
def WholePrefills (s : MossDelay V E) (a : MossAction) : Prop :=
  a.isRun = true → s.scheduler.chunkedReq = none ∧
    ∀ q ∈ s.scheduler.prefilled, (s.data q).generationSteps = 0

instance (s : MossDelay V E) (a : MossAction) : Decidable (WholePrefills s a) :=
  inferInstanceAs (Decidable (_ → _ ∧ ∀ q ∈ s.scheduler.prefilled, _))

/-- The model runner, by what it does for a row of the kind of its request. -/
def DelayModel.runner (m : DelayModel E L P) : Runner (DelayRequest P) (DelayData E) where
  promptLen request := request.promptRows.length
  outputs data := data.outputIds.length
  init := m.initData
  prefill request prefixLen extendLen isChunked data := some
    (m.collect request data.isAudio isChunked (m.prefillInput request prefixLen extendLen data))
  decode request data := some (m.collect request data.isAudio false (m.decodeInput data))
  outputs_init _ := rfl
  outputs_prefill := by
    rintro request _ _ isChunked data _ ⟨⟩
    cases isChunked with
    | true => rfl
    | false => exact List.length_append
  outputs_decode := by
    rintro request data _ ⟨⟩
    exact List.length_append

/-- The state as one of the runner. -/
def MossDelay.served (s : MossDelay V E) : Served V (DelayData E) := ⟨s.scheduler, s.data⟩

def MossAction.served (a : MossAction) : ServedAction := ⟨a.action, a.prefixLen, a.extendLen⟩

section Step

variable {m : DelayModel E L P} {request : ℕ → DelayRequest P} {s t : MossDelay V E}
  {a : MossAction}

theorem isAudio_row {reqs : List ℕ} {q : ℕ} (hq : q ∈ reqs) (haudio : s.isAudio reqs = true) :
    (s.data q).isAudio = true :=
  List.all_eq_true.mp (Bool.and_eq_true_iff.mp haudio).2 q hq

/-- A batch writes what the runner writes for its rows. -/
theorem runData_served (hagrees : ∀ q, Agrees (s.data q)) (a : MossAction) (batch : Batch) :
    s.runData m request a batch = s.served.runData m.runner request a.served batch := by
  have hrow : ∀ q ∈ batch.reqs, ∀ (isChunked : Bool) (data : DelayData E), Agrees data →
      data.isAudio = (s.data q).isAudio → m.collect (request q) (s.isAudio batch.reqs) isChunked
        data =
        m.collect (request q) (s.data q).isAudio isChunked data := by
    intro q hq isChunked data hdata hsame
    rw [collect_of_agrees hdata isChunked fun haudio => hsame.trans (isAudio_row hq haudio), hsame]
  have hfits : ∀ q, s.fits request a q = s.served.fits m.runner request a.served q := by
    intro q
    unfold MossDelay.fits Served.fits Served.isChunked
    simp only [decide_eq_true_eq]
    rfl
  have hsome : batch.reqs.all (fun q =>
      (s.served.row m.runner request a.served batch.isExtend q).isSome) = true := by
    refine List.all_eq_true.mpr fun q _ => ?_
    unfold Served.row
    split <;> rfl
  unfold MossDelay.runData Served.runData
  rw [hsome]
  by_cases hids : (batch.reqs.map fun q => (s.scheduler.reqs q).rid).Nodup
  swap
  · rw [if_neg hids, if_neg fun h => hids h.1]
  rw [if_pos hids]
  unfold Served.row
  cases hextend : batch.isExtend with
  | true =>
    rw [if_pos rfl]
    by_cases hall : batch.reqs.all (s.fits request a) = true
    · rw [if_pos hall, if_pos ⟨hids, fun _ => funext hfits ▸ hall, rfl⟩]
      congr 1
      funext q
      split
      next hq => exact hrow q hq _ _ ((agrees_prefillInput _ _).mpr (hagrees q)) rfl
      · rfl
    · rw [if_neg hall, if_neg fun h => hall (funext hfits ▸ h.2.1 rfl)]
  | false =>
    rw [if_neg (by simp), if_pos ⟨hids, nofun, rfl⟩]
    congr 1
    funext q
    split
    next hq => exact hrow q hq _ _ (agrees_decodeInput.mpr (hagrees q)) rfl
    · rfl

theorem step_served (hagrees : ∀ q, Agrees (s.data q)) :
    s.step m request a = some t ↔ s.served.step m.runner request a.served = some t.served := by
  have hdata : s.dataAfter m request a = s.served.dataAfter m.runner request a.served := by
    unfold MossDelay.dataAfter Served.dataAfter
    simp only [runData_served hagrees]
    rfl
  obtain ⟨scheduler, data⟩ := t
  unfold MossDelay.step Served.step
  rw [hdata]
  simp only [bind_eq_bind, bind_eq_some_iff, pure_def, some.injEq, MossDelay.served,
    MossAction.served, MossDelay.mk.injEq, Served.mk.injEq]

/-- The flags agree in all states of runs. -/
def AgreesAll (m : DelayModel E L P) (s : MossDelay V E) : Prop :=
  Fed m.runner s.served ∧ ∀ q, Agrees (s.data q)

theorem agreesAll_init (m : DelayModel E L P) (request : ℕ → DelayRequest P) (isEntryRank : Bool) :
    AgreesAll m (.init V m request isEntryRank) :=
  ⟨fed_init m.runner request isEntryRank, fun q => agrees_alone m (request q) 0⟩

theorem AgreesAll.step (h : AgreesAll m s)
    (hstep : s.served.step m.runner request a.served = some t.served) : AgreesAll m t := by
  obtain ⟨hfed, hagrees⟩ := h
  obtain ⟨ht, hwrites⟩ := hfed.step hstep
  refine ⟨ht, fun q => ?_⟩
  change Agrees (t.served.data q)
  cases hwrites with
  | nothing hdata => exact congrFun hdata q ▸ hagrees q
  | batch b _ _ hdata =>
    rcases Served.rows hdata q with ⟨_, hsame⟩ | ⟨_, hrow, _⟩
    · exact hsame ▸ hagrees q
    · unfold Served.row at hrow
      split at hrow
      · exact some.inj hrow ▸ ((agrees_prefillInput _ _).mpr (hagrees q)).collect _ _
      · exact some.inj hrow ▸ (agrees_decodeInput.mpr (hagrees q)).collect _ _

end Step

/-- A prompt that is prefilled to its end gives the same keys and values however much of it is
cached. -/
theorem prefillInput_whole {m : DelayModel E L P}
    (hsum : prefixLen + extendLen = prompt.promptRows.length) :
    m.prefillInput prompt prefixLen extendLen (m.initData prompt) =
      m.prefillInput prompt 0 prompt.promptRows.length (m.initData prompt) := by
  have hdrop : (prompt.promptRows.drop prefixLen).take extendLen = prompt.promptRows.drop
    prefixLen :=
    List.take_of_length_le (by rw [List.length_drop]; omega)
  unfold prefillInput
  have hnone : (m.initData prompt).decodeInputs = [] := rfl
  rw [hnone, List.append_nil, hdrop, ← List.map_take, ← List.map_append, List.take_append_drop]
  simp

theorem alone_runner (m : DelayModel E L P) (prompt : DelayRequest P) :
    ∀ n, m.runner.alone prompt n = some (m.alone prompt n)
  | 0 => rfl
  | 1 => rfl
  | n + 2 => by
    rw [Runner.alone, alone_runner m prompt (n + 1)]
    rfl

/-- What a request does alone: its prompt is prefilled at once, and then it decodes. -/
def aloneActions (prompt : DelayRequest P) : ℕ → List MossAction
  | 0 => [⟨.enqueue "", fun _ => 0, fun _ => 0⟩]
  | 1 => aloneActions prompt 0 ++ [⟨.select prefillChoice, fun _ => 0, fun _ => 0⟩] ++
      [⟨goesOn, fun _ => 0, fun _ => prompt.promptRows.length⟩]
  | n + 2 => aloneActions prompt (n + 1) ++ [⟨.select (.decode []), fun _ => 0, fun _ => 0⟩] ++
      [⟨goesOn, fun _ => 0, fun _ => 0⟩]

theorem map_aloneActions (m : DelayModel E L P) (prompt : DelayRequest P) :
    ∀ n, (m.runner.aloneActions prompt n).map (fun a => ⟨a.action, a.prefixLen, a.extendLen⟩) =
      aloneActions prompt n
  | 0 => rfl
  | 1 => rfl
  | n + 2 => by
    rw [Runner.aloneActions, List.map_append, List.map_append, map_aloneActions m prompt (n + 1)]
    rfl

/-- **The request alone.** `alone` is what the system does with a request that is alone. -/
theorem alone_run (m : DelayModel E L P) (request : ℕ → DelayRequest P) (isEntryRank : Bool)
    (n : ℕ) : ∃ s : MossDelay V E,
      Transition.Run (MossDelay.step m request) Transition.anyAction (.init V m request isEntryRank)
        (aloneActions (request 0) n) s ∧ s.data 0 = m.alone (request 0) n := by
  obtain ⟨s, hrun, hdata, _⟩ :=
    m.runner.alone_run (V := V) request isEntryRank n (alone_runner m (request 0) n)
  refine ⟨⟨s.scheduler, s.data⟩, ?_, hdata⟩
  rw [← map_aloneActions m]
  refine hrun.simulate (I := fun s => AgreesAll m ⟨s.scheduler, s.data⟩)
    (f := fun s => (⟨s.scheduler, s.data⟩ : MossDelay V E)) ?_
    (agreesAll_init m request isEntryRank)
  intro s a t h _ hstep
  exact ⟨h.step (t := ⟨t.scheduler, t.data⟩) (a := ⟨a.action, a.prefixLen, a.extendLen⟩) hstep,
    trivial, (step_served h.2).mpr hstep⟩

/-- The sequences that the two data have recorded are the same. -/
def SameRows (data data' : DelayData E) : Prop :=
  data.outputRows = data'.outputRows ∧ data.decodeInputs = data'.decodeInputs ∧
    data.delayStates = data'.delayStates

/-- In a run of whole prefills a request has what it has when it has run alone for as many steps. -/
theorem alike_of_run {m : DelayModel E L P} {request : ℕ → DelayRequest P} {isEntryRank : Bool}
    {as : List MossAction} {s : MossDelay V E}
    (hrun : Transition.Run (MossDelay.step m request) WholePrefills
      (.init V m request isEntryRank) as s) (q : ℕ) :
    s.data q = m.alone (request q) (s.data q).generationSteps := by
  have hserved : Transition.Run (Served.step m.runner request)
      (Served.Prefills request fun _ _ _ isChunked data =>
        isChunked = false ∧ data.generationSteps = 0)
      (Served.init V m.runner request isEntryRank) (as.map MossAction.served) s.served := by
    refine hrun.simulate (I := AgreesAll m) (f := MossDelay.served) (g := MossAction.served) ?_
      (agreesAll_init m request isEntryRank)
    intro s a t h hwhole hstep
    have hstep' := (step_served h.2).mp hstep
    refine ⟨h.step hstep', fun hrun q hq => ?_, hstep'⟩
    obtain ⟨hchunked, hfirst⟩ := hwhole hrun
    exact ⟨by simp [Served.isChunked, MossDelay.served, hchunked], hfirst q hq⟩
  refine (Fed.of_run (A := fun q data => data = m.alone (request q) data.generationSteps)
    (fun _ => rfl) ?_ ?_ hserved).2 q
  · -- A first row is that of the whole prompt.
    rintro q prefixLen extendLen _ data _ halike ⟨rfl, hfirst⟩ hsum ⟨⟩
    rw [hfirst] at halike
    subst halike
    change m.collect (request q) (m.initData (request q)).isAudio false
      (m.prefillInput (request q) prefixLen extendLen (m.initData (request q))) = _
    rw [prefillInput_whole hsum]
    rfl
  · rintro q data _ halike hpos ⟨⟩
    generalize data.generationSteps = n at halike
    subst halike
    cases n with
    | zero => cases hpos
    | succ n =>
      have hsteps := alone_generationSteps m (request q) (n + 1)
      exact (congrArg (m.alone (request q)) (congrArg (· + 1) hsteps)).symm

/-- A greedy model of one codebook, whose first choice depends on the length of its input. -/
def lengthModel : DelayModel Unit Unit Unit where
  padTokenId := 0
  genSlot := 1
  delaySlot := 2
  audioStart := 3
  audioEnd := 4
  imEnd := 5
  audioPadCode := 1
  nVq := 1
  embed _ := ()
  zeros := ()
  textLogits kv :=
    [none, some (), none, none, none, some (), if kv.length = 1 then some () else none, some ()]
  audioLogits _ _ := [some ()]
  penalize _ _ logits := logits
  sampleTokens _ _ _ logits := firstUnmasked logits
  distinct := nodup_slots
  genSlot_unmasked _ := ⟨(), rfl⟩
  sampleUnmasked := by
    rintro _ _ _ _ ⟨t, x, ht⟩
    exact firstUnmasked_unmasked ht

/-- A prompt of two rows. -/
def twoRows : DelayRequest Unit := ⟨[[6, 1], [6, 1]], (), (), 0⟩

theorem alone_twoRows (n : ℕ) : [[7, 1]] <+: (lengthModel.alone twoRows (n + 1)).outputRows := by
  induction n with
  | zero => decide
  | succ n ih =>
    exact ih.trans (collect_outputRows lengthModel twoRows _ _ (lengthModel.decodeInput _))

end Omni.Tts
