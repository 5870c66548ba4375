import Mathlib.Data.List.Basic
import Mathlib.Data.List.Induction
import Mathlib.Data.Rat.Defs
import Mathlib.Logic.Function.Basic

/-!
# Chat completions

A chat completion is answered at once or as a stream of events. In the first case the results of
the terminal stages are merged by the coordinator and made into one chunk. In the second case each
stream message and each result is a chunk of its own, and the events are made from these.
-/

namespace Omni.Serve

open List

/-- The `usage` entry of a stage's dictionary: for each key whether it is there, and with which
value. `others` says that there are further keys. -/
structure UsageDict where
  promptTokens : Option (Option ℕ) := none
  completionTokens : Option (Option ℕ) := none
  totalTokens : Option (Option ℕ) := none
  engineTimeS : Option (Option ℚ) := none
  others : Bool := false
  deriving DecidableEq

/-- `UsageInfo`. -/
structure UsageInfo where
  promptTokens : Option ℕ
  completionTokens : Option ℕ
  totalTokens : Option ℕ
  engineTimeS : Option ℚ
  deriving DecidableEq

/-- The dictionary of a stage's result or stream chunk. `audioData` is a value that counts as true;
`usage` is empty when there is no such entry. -/
structure StageData (A : Type) where
  text : Option String := none
  finishReason : Option String := none
  usage : UsageDict := {}
  promptTokens : Option ℕ := none
  completionTokens : Option ℕ := none
  engineTimeS : Option ℚ := none
  modality : Option String := none
  audioData : Option A := none
  audio : Option A := none
  audioWaveform : Option A := none
  sampleRate : Option ℕ := none
  deriving DecidableEq

/-- `GenerateChunk`. -/
structure GenerateChunk (A : Type) where
  text : String := ""
  finishReason : Option String := none
  usage : Option UsageInfo := none
  modality : String := "text"
  audioData : Option A := none
  sampleRate : Option ℕ := none
  deriving DecidableEq

/-- What a stream message brings. `other` stands for a value of another type, with its `str`. -/
inductive StreamData (A : Type)
  | chunk (chunk : GenerateChunk A)
  | dict (data : StageData A)
  | text (text : String)
  | token (id : ℤ)
  | other (repr : String)
  deriving DecidableEq

/-- A message of a stage to the coordinator: `StreamMessage`, or a `CompleteMessage` of success. -/
inductive Message (A : Type)
  | stream (fromStage : String) (modality : Option String) (data : StreamData A)
  | complete (fromStage : String) (result : StageData A)
  deriving DecidableEq

/-- The result of a request: of its only terminal stage, or merged from its terminal stages. -/
inductive Resolved (A : Type)
  | single (result : StageData A)
  | merged (values : String → Option (StageData A))

variable {A : Type} {other : String} {α : Type*}

/-- `UsageInfo.from_dict`. -/
def UsageInfo.fromDict (data : UsageDict) : Option UsageInfo :=
  if data = {} then none
  else some ⟨data.promptTokens.join, data.completionTokens.join, data.totalTokens.join,
    data.engineTimeS.join⟩

/-- `_build_usage_info`. -/
def buildUsageInfo (data : StageData A) : Option UsageInfo :=
  let usage := data.usage
  let usage :=
    if usage.promptTokens.isNone ∧ data.promptTokens.isSome then
      { usage with promptTokens := some data.promptTokens }
    else usage
  let usage :=
    if usage.completionTokens.isNone ∧ data.completionTokens.isSome then
      { usage with completionTokens := some data.completionTokens }
    else usage
  let prompt := usage.promptTokens.join
  let completion := usage.completionTokens.join
  let usage :=
    if usage.totalTokens.isNone ∧ (prompt.isSome ∨ completion.isSome) then
      { usage with totalTokens := some (some (prompt.getD 0 + completion.getD 0)) }
    else usage
  let usage :=
    if usage.engineTimeS.isNone ∧ data.engineTimeS.isSome then
      { usage with engineTimeS := some data.engineTimeS }
    else usage
  UsageInfo.fromDict usage

/-- `_set_audio_data`. -/
def setAudioData (chunk : GenerateChunk A) (data : StageData A) : GenerateChunk A :=
  let chunk :=
    match data.audioData <|> data.audio <|> data.audioWaveform with
    | some audio => { chunk with audioData := some audio, modality := "audio" }
    | none => chunk
  match data.sampleRate with
  | some rate => { chunk with sampleRate := some rate }
  | none => chunk

/-- The chunk of a dictionary, from a chunk with the values that hold when an entry is missing. -/
def fillChunk (chunk : GenerateChunk A) (data : StageData A) : GenerateChunk A :=
  setAudioData
    { chunk with
      text := data.text.getD chunk.text
      finishReason := data.finishReason <|> chunk.finishReason
      usage := buildUsageInfo data
      modality := data.modality.getD chunk.modality } data

/-- `_default_result_builder`. -/
def defaultResultBuilder (result : Resolved A) : GenerateChunk A :=
  let chunk : GenerateChunk A := { finishReason := some "stop" }
  match result with
  | .single data => fillChunk chunk data
  | .merged values =>
    match values "decode", values "code2wav" <|> values "talker" <|> values "talker_stream" with
    | some decodeResult, some audioResult =>
      let chunk := setAudioData
        { chunk with
          text := decodeResult.text.getD chunk.text
          finishReason := decodeResult.finishReason <|> chunk.finishReason } audioResult
      { chunk with usage := buildUsageInfo decodeResult <|> buildUsageInfo audioResult }
    | _, _ => fillChunk chunk {}

/-- `msg.modality` or the default. -/
def modalityOr (modality : Option String) (default : String) : String :=
  match modality with
  | some m => if m = "" then default else m
  | none => default

/-- `_default_stream_builder`. -/
def defaultStreamBuilder (modality : Option String) (data : StreamData A) : GenerateChunk A :=
  let chunk : GenerateChunk A := { modality := modalityOr modality "text" }
  match data with
  | .chunk given =>
    { given with modality := if given.modality = "" then chunk.modality else given.modality }
  | .dict data => fillChunk chunk data
  | .text text => { chunk with text := text }
  | .token _ => chunk
  | .other repr => { chunk with text := repr }

/-- What the coordinator keeps of a request, and its stream queue. -/
structure Relay (A : Type) where
  tracked : Bool
  partials : String → Option (StageData A)
  queue : List (Message A)
  resolved : Option (Resolved A)

/-- A request that has been submitted. -/
def Relay.init (A : Type) : Relay A := ⟨true, fun _ => none, [], none⟩

/-- `_handle_stream` and `_handle_completion` of a message of the request. -/
def Relay.handle (expected : List String) (r : Relay A) : Message A → Relay A
  | .stream fromStage modality data =>
    { r with queue := r.queue ++ [.stream fromStage modality data] }
  | .complete fromStage result =>
    if r.tracked = false ∨ (expected ≠ [] ∧ fromStage ∉ expected) then r
    else if expected.length ≤ 1 then
      { r with
        tracked := false
        queue := r.queue ++ [.complete fromStage result]
        resolved := some (.single result) }
    else
      let partials := Function.update r.partials fromStage (some result)
      let r := { r with partials := partials, queue := r.queue ++ [.complete fromStage result] }
      if ∃ stage ∈ expected, partials stage = none then r
      else { r with tracked := false, resolved := some (.merged partials) }

/-- The loop of `stream` over its queue, with the stages that have completed. -/
def streamLoop (expected : List String) : List String → List (Message A) → List (Message A)
  | _, [] => []
  | completed, .stream fromStage modality data :: rest =>
    .stream fromStage modality data :: streamLoop expected completed rest
  | completed, .complete fromStage result :: rest =>
    .complete fromStage result ::
      if expected ⊆ fromStage :: completed then []
      else streamLoop expected (fromStage :: completed) rest

/-- A chunk of `generate` in streaming mode. -/
def chunkOf : Message A → GenerateChunk A
  | .stream _ modality data => defaultStreamBuilder modality data
  | .complete _ result => defaultResultBuilder (.single result)

/-- `UsageResponse`. -/
structure UsageResponse where
  promptTokens : ℕ
  completionTokens : ℕ
  totalTokens : ℕ
  deriving DecidableEq

/-- The counts of a usage, with zero for those that are missing. -/
def usageResponse (usage : UsageInfo) : UsageResponse :=
  ⟨usage.promptTokens.getD 0, usage.completionTokens.getD 0, usage.totalTokens.getD 0⟩

/-- `finish_reason or "stop"`. -/
def orStop (finishReason : Option String) : String :=
  match finishReason with
  | some reason => if reason = "" then "stop" else reason
  | none => "stop"

/-- `CompletionResult`. -/
structure CompletionResult where
  text : String
  audio : Option String
  finishReason : String
  usage : Option UsageInfo

/-- `completion` for the chunk that `generate` yields without streaming. `encode` is
`audio_to_base64` with the sample rate. -/
def completion (encode : A → Option ℕ → String) (chunk : GenerateChunk A) : CompletionResult where
  text := chunk.text
  audio := chunk.audioData.map fun data => encode data chunk.sampleRate
  finishReason := orStop chunk.finishReason
  usage := chunk.usage

/-- The parts of a `ChatCompletionResponse` that depend on the result. -/
structure ChatResponse where
  content : Option String
  audio : Option String
  finishReason : String
  usage : Option UsageResponse
  deriving DecidableEq

/-- `_chat_non_stream`. -/
def chatNonStream (modalities : List String) (result : CompletionResult) : ChatResponse :=
  let content := if "text" ∈ modalities ∧ result.text ≠ "" then some result.text else none
  let audio := if "audio" ∈ modalities then result.audio else none
  { content := if content = none ∧ audio = none then some result.text else content
    audio := audio
    finishReason := result.finishReason
    usage := result.usage.map usageResponse }

/-- A `ChatCompletionStreamResponse`. -/
structure StreamEvent where
  role : Option String := none
  content : Option String := none
  audio : Option String := none
  finishReason : Option String := none
  usage : Option UsageResponse := none
  deriving DecidableEq

/-- The local variables of `_chat_stream`, with the events yielded so far. -/
structure ChatStream where
  roleSent : Bool := false
  finishReason : Option String := none
  finalUsage : Option UsageResponse := none
  events : List StreamEvent := []
  deriving DecidableEq

/-- An iteration of `_chat_stream`. -/
def chatChunk (encode : A → Option ℕ → String) (modalities : List String) (s : ChatStream)
    (chunk : GenerateChunk A) : ChatStream :=
  let audioB64 :=
    if chunk.modality = "audio" then
      chunk.audioData.map fun data => encode data chunk.sampleRate
    else none
  let content :=
    if chunk.modality = "text" ∧ chunk.text ≠ "" ∧ "text" ∈ modalities then some chunk.text
    else none
  let audio := if "audio" ∈ modalities then audioB64 else none
  let s :=
    match chunk.finishReason with
    | some reason =>
      { s with
        finishReason := some reason
        finalUsage := chunk.usage.map usageResponse <|> s.finalUsage }
    | none => s
  if chunk.finishReason.isSome ∧ content = none ∧ audio = none then s
  else if s.roleSent = true ∧ content = none ∧ audio = none then s
  else
    { s with
      roleSent := true
      events := s.events ++
        [{ role := if s.roleSent then none else some "assistant", content := content,
           audio := audio }] }

/-- `_chat_stream`, without the sentinel at its end. -/
def chatStream (encode : A → Option ℕ → String) (modalities : List String)
    (chunks : List (GenerateChunk A)) : List StreamEvent :=
  let s := chunks.foldl (chatChunk encode modalities) {}
  s.events ++ [{ finishReason := some (orStop s.finishReason), usage := s.finalUsage }]


/-- The stage that sends the message. -/
def Message.fromStage : Message A → String
  | .stream stage _ _ => stage
  | .complete stage _ => stage

/-- The message is a stream message. -/
def Message.isStream : Message A → Bool
  | .stream _ _ _ => true
  | .complete _ _ => false

/-- The result that the message brings from a stage. -/
def Message.resultFrom (stage : String) : Message A → Option (StageData A)
  | .stream _ _ _ => none
  | .complete fromStage result => if fromStage = stage then some result else none

/-- The result of a stage among the messages. -/
def resultOf (stage : String) (log : List (Message A)) : Option (StageData A) :=
  (log.filterMap (·.resultFrom stage)).getLast?

/-- The messages of the terminal stages, in some order: each stage sends stream messages and then
its result. -/
structure Interleaving (stages : List String) (log : List (Message A)) : Prop where
  origin : ∀ m ∈ log, m.fromStage ∈ stages
  ends : ∀ stage ∈ stages, ∃ before result,
    log.filter (fun m => m.fromStage = stage) = before ++ [.complete stage result] ∧
      ∀ m ∈ before, m.isStream = true

section Interleaving

variable {stages : List String} {log front back : List (Message A)} {m : Message A}
  {stage : String}

theorem resultOf_concat_stream (modality : Option String) (data : StreamData A) :
    resultOf stage (front ++ [.stream other modality data]) = resultOf stage front := by
  simp [resultOf, Message.resultFrom]

theorem resultOf_concat_complete (result : StageData A) :
    resultOf stage (front ++ [.complete other result]) =
      if other = stage then some result else resultOf stage front := by
  by_cases hsame : other = stage <;> simp [resultOf, Message.resultFrom, hsame]

variable {result : StageData A}

theorem mem_of_resultOf (h : resultOf stage front = some result) :
    .complete stage result ∈ front := by
  obtain ⟨m, hm, hresult⟩ := mem_filterMap.mp (mem_of_getLast? h)
  cases m with
  | stream _ _ _ => cases hresult
  | complete fromStage other =>
    simp only [Message.resultFrom, Option.ite_none_right_eq_some, Option.some.injEq] at hresult
    obtain ⟨rfl, rfl⟩ := hresult
    exact hm

/-- As long as messages are to come, a stage has not completed. -/
theorem Interleaving.missing (h : Interleaving stages (front ++ m :: back)) :
    ∃ stage ∈ stages, resultOf stage front = none := by
  have hstage : m.fromStage ∈ stages := h.origin m (by simp)
  refine ⟨_, hstage, ?_⟩
  obtain ⟨before, result, hfilter, hbefore⟩ := h.ends _ hstage
  by_contra hsome
  obtain ⟨early, hearly⟩ := Option.ne_none_iff_exists'.mp hsome
  have hmem := mem_of_resultOf hearly
  have hsplit : before = front.filter (fun n => n.fromStage = m.fromStage) ++
      (m :: back.filter fun n => n.fromStage = m.fromStage).dropLast := by
    have hdrop := congrArg List.dropLast hfilter
    simpa [filter_append, dropLast_append_of_ne_nil] using hdrop.symm
  have hin : Message.complete m.fromStage early ∈ before := by
    rw [hsplit]
    refine mem_append_left _ (mem_filter.mpr ⟨hmem, ?_⟩)
    simp [Message.fromStage]
  exact absurd (hbefore _ hin) (by simp [Message.isStream])

theorem Interleaving.completed (h : Interleaving stages log) (hstage : stage ∈ stages) :
    ∃ result, resultOf stage log = some result := by
  obtain ⟨before, result, hfilter, -⟩ := h.ends stage hstage
  have hmem : Message.complete stage result ∈ log := by
    have hin : Message.complete stage result ∈ log.filter (fun m => m.fromStage = stage) := by
      rw [hfilter]
      exact mem_append_right _ (mem_singleton.mpr rfl)
    exact (mem_filter.mp hin).1
  have hresult : result ∈ log.filterMap (·.resultFrom stage) :=
    mem_filterMap.mpr ⟨_, hmem, by simp [Message.resultFrom]⟩
  have hne : log.filterMap (·.resultFrom stage) ≠ [] := ne_nil_of_mem hresult
  exact ⟨_, getLast?_eq_some_getLast hne⟩

theorem Interleaving.last (h : Interleaving stages log) (hstages : stages ≠ []) :
    ∃ front stage result, log = front ++ [.complete stage result] ∧ stage ∈ stages := by
  obtain ⟨first, hfirst⟩ := exists_mem_of_ne_nil _ hstages
  obtain ⟨_, hcompleted⟩ := h.completed hfirst
  have hne : log ≠ [] := ne_nil_of_mem (mem_of_resultOf hcompleted)
  obtain ⟨front, m, rfl⟩ := (eq_nil_or_concat log).resolve_left hne
  have hstage : m.fromStage ∈ stages := h.origin m (by simp)
  obtain ⟨before, result, hfilter, -⟩ := h.ends _ hstage
  have hm : m = .complete m.fromStage result := by
    have hlast := congrArg List.getLast? hfilter
    simpa [filter_append] using hlast
  exact ⟨front, m.fromStage, result, by rw [concat_eq_append, ← hm], hstage⟩

theorem Interleaving.resultOf_none (h : Interleaving stages log) (hstage : stage ∉ stages) :
    resultOf stage log = none := by
  by_contra hsome
  obtain ⟨result, hresult⟩ := Option.ne_none_iff_exists'.mp hsome
  exact hstage (h.origin _ (mem_of_resultOf hresult))

/-- The coordinator after a first part of the messages: it has put all of them on the queue, and
has the results of the stages that have completed. -/
structure Relayed (stages : List String) (front back : List (Message A)) (r : Relay A) : Prop where
  queue : r.queue = front
  tracked : back ≠ [] → r.tracked = true
  partials : 1 < stages.length → ∀ stage, r.partials stage = resultOf stage front
  single : stages.length ≤ 1 → back = [] → ∀ stage ∈ stages,
    ∃ result, resultOf stage front = some result ∧ r.resolved = some (.single result)
  merged : 1 < stages.length → back = [] →
    ∃ values, r.resolved = some (.merged values) ∧ ∀ stage, values stage = resultOf stage front

variable {r : Relay A}

theorem Relayed.stream (h : Interleaving stages (front ++ m :: back))
    (hr : Relayed stages front (m :: back) r) {modality : Option String} {data : StreamData A}
    (hm : m = .stream stage modality data) :
    Relayed stages (front ++ [m]) back (r.handle stages m) := by
  subst hm
  have hback : back ≠ [] := by
    rintro rfl
    obtain ⟨last, fromStage, result, hlast, -⟩ := h.last fun hnil => by
      simpa [hnil] using h.origin (.stream stage modality data) (by simp)
    have hsame := congrArg List.getLast? hlast
    simp at hsame
  refine ⟨by simp [Relay.handle, hr.queue], fun _ => hr.tracked (by simp), fun hmany other => ?_,
    fun _ hnil => absurd hnil hback, fun _ hnil => absurd hnil hback⟩
  rw [resultOf_concat_stream]
  exact hr.partials hmany other

theorem Relayed.complete (h : Interleaving stages (front ++ m :: back))
    (hr : Relayed stages front (m :: back) r) (hm : m = .complete stage result) :
    Relayed stages (front ++ [m]) back (r.handle stages m) := by
  subst hm
  have hstage : stage ∈ stages := h.origin (.complete stage result) (by simp)
  have htracked : r.tracked = true := hr.tracked (by simp)
  have hkept : ¬(r.tracked = false ∨ (stages ≠ [] ∧ stage ∉ stages)) := by
    simp [htracked, hstage]
  have hmissing : back ≠ [] → ∃ other ∈ stages,
      resultOf other (front ++ [.complete stage result]) = none := by
    intro hne
    obtain ⟨next, rest, rfl⟩ := exists_cons_of_ne_nil hne
    have hlater : Interleaving stages ((front ++ [.complete stage result]) ++ next :: rest) := by
      simpa using h
    exact hlater.missing
  by_cases hone : stages.length ≤ 1
  · have honly : stages = [stage] := by
      cases stages with
      | nil => simp at hstage
      | cons only rest =>
        have hrest : rest = [] := length_eq_zero_iff.mp (by simpa using hone)
        simp only [hrest, mem_singleton] at hstage ⊢
        rw [hstage]
    have hend : back = [] := by
      by_contra hne
      obtain ⟨other, hother, hnone⟩ := hmissing hne
      rw [honly, mem_singleton] at hother
      simp [resultOf_concat_complete, hother] at hnone
    rw [Relay.handle, if_neg hkept, if_pos hone]
    refine ⟨by simp [hr.queue], fun hne => absurd hend hne, fun hmany => absurd hmany (by omega),
      fun _ _ other hother => ?_, fun hmany => absurd hmany (by omega)⟩
    rw [honly, mem_singleton] at hother
    exact ⟨result, by simp [resultOf_concat_complete, hother], rfl⟩
  · have hmany : 1 < stages.length := by omega
    have hpartials : ∀ other, Function.update r.partials stage (some result) other =
        resultOf other (front ++ [.complete stage result]) := by
      intro other
      rw [resultOf_concat_complete, Function.update_apply]
      by_cases hsame : stage = other
      · simp [hsame]
      · rw [if_neg fun heq => hsame heq.symm, if_neg hsame]
        exact hr.partials hmany other
    rw [Relay.handle, if_neg hkept, if_neg hone]
    dsimp only
    split
    next hnone =>
      refine ⟨by simp [hr.queue], fun _ => htracked, fun _ => hpartials,
        fun hle => absurd hle hone, fun _ hnil => ?_⟩
      obtain ⟨other, hother, hnone⟩ := hnone
      rw [hpartials] at hnone
      rw [hnil] at h
      obtain ⟨_, hcompleted⟩ := h.completed hother
      rw [hnone] at hcompleted
      cases hcompleted
    next hall =>
      refine ⟨by simp [hr.queue], fun hne => ?_, fun _ => hpartials, fun hle => absurd hle hone,
        fun _ _ => ⟨_, rfl, hpartials⟩⟩
      obtain ⟨other, hother, hnone⟩ := hmissing hne
      exact absurd ⟨other, hother, (hpartials other).trans hnone⟩ hall

/-- **Coordinator.** All messages are put on the queue, and the request is resolved with the results
of its terminal stages. -/
theorem relayed_of_interleaving (h : Interleaving stages log) (hstages : stages ≠ []) :
    Relayed stages log [] (log.foldl (Relay.handle stages) (Relay.init A)) := by
  suffices hfront : ∀ front back, log = front ++ back →
      Relayed stages front back (front.foldl (Relay.handle stages) (Relay.init A)) from
    hfront log [] (append_nil log).symm
  intro front
  induction front using List.reverseRecOn with
  | nil =>
    rintro back rfl
    obtain ⟨_, _, _, hlast, -⟩ := h.last hstages
    exact ⟨rfl, fun _ => rfl, fun _ _ => rfl, fun _ hnil => by simp [hnil] at hlast,
      fun _ hnil => by simp [hnil] at hlast⟩
  | append_singleton front m ih =>
    rintro back rfl
    have hbefore := ih (m :: back) (by simp)
    have hwhole : Interleaving stages (front ++ m :: back) := by simpa using h
    rw [foldl_append, foldl_cons, foldl_nil]
    cases hm : m with
    | stream fromStage modality data => exact hm ▸ hbefore.stream hwhole hm
    | complete fromStage result => exact hm ▸ hbefore.complete hwhole hm

/-- **Consumer.** The loop of `stream` yields all messages. -/
theorem streamLoop_of_interleaving (h : Interleaving stages log) :
    streamLoop stages [] log = log := by
  suffices hrest : ∀ back front completed, log = front ++ back →
      (∀ stage, stage ∈ completed ↔ resultOf stage front ≠ none) →
      streamLoop stages completed back = back from
    hrest log [] [] rfl (by simp [resultOf])
  intro back
  induction back with
  | nil => intro _ _ _ _; rfl
  | cons m back ih =>
    rintro front completed rfl hcompleted
    have hwhole : front ++ m :: back = (front ++ [m]) ++ back := by simp
    cases m with
    | stream fromStage modality data =>
      rw [streamLoop, ih (front ++ [_]) completed hwhole]
      intro stage
      rw [resultOf_concat_stream]
      exact hcompleted stage
    | complete fromStage result =>
      have hnext : ∀ stage, stage ∈ fromStage :: completed ↔
          resultOf stage (front ++ [.complete fromStage result]) ≠ none := by
        intro stage
        rw [resultOf_concat_complete, mem_cons, hcompleted]
        by_cases hsame : fromStage = stage
        · simp [hsame]
        · rw [if_neg hsame]
          exact ⟨fun hor => hor.resolve_left fun heq => hsame heq.symm, Or.inr⟩
      rw [streamLoop]
      split
      next hall =>
        cases back with
        | nil => rfl
        | cons next rest =>
          rw [hwhole] at h
          obtain ⟨stage, hstage, hnone⟩ := h.missing
          exact absurd hnone ((hnext stage).mp (hall hstage))
      · rw [ih (front ++ [_]) (fromStage :: completed) hwhole hnext]

end Interleaving

/-- The text of a chunk that goes into the content of an event. -/
def GenerateChunk.shownText (chunk : GenerateChunk A) : String :=
  if chunk.modality = "text" then chunk.text else ""

/-- The concatenated content of events. -/
def contentOf (events : List StreamEvent) : String :=
  String.join (events.map fun event => event.content.getD "")

/-- The counts that a chunk with a finish reason brings. -/
def GenerateChunk.reportedUsage (chunk : GenerateChunk A) : Option UsageResponse :=
  if chunk.finishReason.isSome then chunk.usage.map usageResponse else none

section Events

variable {modalities : List String}

theorem contentOf_concat (events : List StreamEvent) (event : StreamEvent) :
    contentOf (events ++ [event]) = contentOf events ++ event.content.getD "" := by
  simp [contentOf, String.join]

/-- An iteration shows the text of its chunk, and the last finish reason and usage win. -/
theorem chatChunk_spec (encode : A → Option ℕ → String) (s : ChatStream)
    (chunk : GenerateChunk A) (htext : "text" ∈ modalities) :
    contentOf (chatChunk encode modalities s chunk).events = contentOf s.events ++ chunk.shownText ∧
      (chatChunk encode modalities s chunk).finishReason = (chunk.finishReason <|> s.finishReason) ∧
      (chatChunk encode modalities s chunk).finalUsage =
        (chunk.reportedUsage <|> s.finalUsage) := by
  have hshown : (if chunk.modality = "text" ∧ chunk.text ≠ "" ∧ "text" ∈ modalities then
      some chunk.text else none).getD "" = chunk.shownText := by
    unfold GenerateChunk.shownText
    by_cases hmodality : chunk.modality = "text" <;> by_cases hempty : chunk.text = "" <;>
      simp [hmodality, hempty, htext]
  unfold chatChunk GenerateChunk.reportedUsage
  dsimp only
  generalize (if chunk.modality = "text" ∧ chunk.text ≠ "" ∧ "text" ∈ modalities then
    some chunk.text else none) = content at hshown
  generalize (if "audio" ∈ modalities then if chunk.modality = "audio" then
    chunk.audioData.map fun data => encode data chunk.sampleRate else none else none) = audio
  have hskip : content = none → chunk.shownText = "" := by
    rintro rfl
    exact hshown.symm
  cases hfinish : chunk.finishReason with
  | none =>
    dsimp only
    split
    next hquiet =>
      simp at hquiet
    · split
      next hquiet =>
        simp [hskip hquiet.2.1]
      · simp [contentOf_concat, hshown]
  | some reason =>
    dsimp only
    split
    next hquiet =>
      simp [hskip hquiet.2.1]
    · split
      next hquiet =>
        simp [hskip hquiet.2.1]
      · simp [contentOf_concat, hshown]

/-- The last value that there is. -/
theorem getLast?_concat_or {β : Type*} (f : α → Option β) (l : List α) (a : α) :
    ((l ++ [a]).filterMap f).getLast? = (f a <|> (l.filterMap f).getLast?) := by
  cases h : f a <;> simp [h]

/-- **Fold.** The events show the texts of the chunks in order, and the finish reason and the usage
are the last that a chunk has brought. -/
theorem chatChunks_spec (encode : A → Option ℕ → String) (chunks : List (GenerateChunk A))
    (htext : "text" ∈ modalities) :
    contentOf (chunks.foldl (chatChunk encode modalities) {}).events =
        String.join (chunks.map GenerateChunk.shownText) ∧
      (chunks.foldl (chatChunk encode modalities) {}).finishReason =
        (chunks.filterMap GenerateChunk.finishReason).getLast? ∧
      (chunks.foldl (chatChunk encode modalities) {}).finalUsage =
        (chunks.filterMap GenerateChunk.reportedUsage).getLast? := by
  induction chunks using List.reverseRecOn with
  | nil => exact ⟨rfl, rfl, rfl⟩
  | append_singleton chunks chunk ih =>
    obtain ⟨hcontent, hfinish, husage⟩ := ih
    obtain ⟨hcontent', hfinish', husage'⟩ :=
      chatChunk_spec encode (chunks.foldl (chatChunk encode modalities) {}) chunk htext
    rw [foldl_append, foldl_cons, foldl_nil, getLast?_concat_or,
      getLast?_concat_or, hcontent', hfinish', husage', hcontent, hfinish, husage]
    exact ⟨by simp [String.join], rfl, rfl⟩

end Events

/-- The text deltas of a request. -/
def textDeltas (log : List (Message A)) : List String :=
  (log.filter Message.isStream).map fun m => (chunkOf m).shownText

/-- The usage that a message brings with a finish reason; results always have one. -/
def Message.reportedUsage (m : Message A) : Option UsageResponse := (chunkOf m).reportedUsage

/-- The result of the audio stage. -/
def audioResult (log : List (Message A)) : Option (StageData A) :=
  resultOf "code2wav" log <|> resultOf "talker" log <|> resultOf "talker_stream" log

/-- What the coordinator has made of the messages. -/
def relayed (stages : List String) (log : List (Message A)) : Relay A :=
  log.foldl (Relay.handle stages) (Relay.init A)

/-- The events of `_chat_stream` for a request whose stages have sent these messages. -/
def streamed (encode : A → Option ℕ → String) (modalities stages : List String)
    (log : List (Message A)) : List StreamEvent :=
  chatStream encode modalities ((streamLoop stages [] (relayed stages log).queue).map chunkOf)

/-- The answer of `_chat_non_stream` for the result that the request is resolved with. -/
def answered (encode : A → Option ℕ → String) (modalities stages : List String)
    (log : List (Message A)) : Option ChatResponse :=
  (relayed stages log).resolved.map fun result =>
    chatNonStream modalities (completion encode (defaultResultBuilder result))

/-- The stream shows the text, and ends like the answer. -/
def EndsAlike (encode : A → Option ℕ → String) (modalities stages : List String)
    (log : List (Message A)) (text : String) : Prop :=
  contentOf (streamed encode modalities stages log) = text ∧
    ∃ answer, answered encode modalities stages log = some answer ∧
      (streamed encode modalities stages log).getLast? =
        some { finishReason := some answer.finishReason, usage := answer.usage }

/-- The terminal stage that completes last reports the same finish reason as `decode`, where no
reason and the empty one count as `"stop"`. Among the messages that carry a finish reason, the last
one with a usage has the counts of `decode`, or those of the audio stage if `decode` has none. -/
structure DecodeSettles (log : List (Message A)) : Prop where
  finishReason : ∀ front stage result decode, log = front ++ [.complete stage result] →
    resultOf "decode" log = some decode → orStop result.finishReason = orStop decode.finishReason
  usage : (log.filterMap Message.reportedUsage).getLast? =
    (((resultOf "decode" log).bind buildUsageInfo <|>
      (audioResult log).bind buildUsageInfo).map usageResponse)

section Main

variable {encode : A → Option ℕ → String} {modalities stages : List String}
  {log : List (Message A)} {text : String}

theorem chunkOf_complete (stage : String) (result : StageData A) :
    (chunkOf (.complete stage result)).finishReason = (result.finishReason <|> some "stop") ∧
      (chunkOf (.complete stage result)).usage = buildUsageInfo result ∧
      (chunkOf (.complete stage result)).text = result.text.getD "" := by
  simp only [chunkOf, defaultResultBuilder, fillChunk, setAudioData]
  cases (result.audioData <|> result.audio <|> result.audioWaveform) <;>
    cases result.sampleRate <;> exact ⟨rfl, rfl, rfl⟩

theorem orStop_or (finishReason : Option String) :
    orStop (finishReason <|> some "stop") = orStop finishReason := by
  cases finishReason <;> rfl

/-- The concatenation of texts, some of which are empty. -/
theorem join_filter_eq (p : α → Bool) (f : α → String) (l : List α)
    (h : ∀ a ∈ l, p a = false → f a = "") :
    String.join ((l.filter p).map f) = String.join (l.map f) := by
  induction l using List.reverseRecOn with
  | nil => rfl
  | append_singleton l a ih =>
    have hrest := ih fun b hb => h b (mem_append_left _ hb)
    cases ha : p a with
    | true => simp [filter_append, ha, String.join, foldl_append] at hrest ⊢; rw [hrest]
    | false =>
      have hempty := h a (by simp) ha
      simp [filter_append, ha, hempty, String.join, foldl_append] at hrest ⊢
      exact hrest

/-- The stream of a request, in words of what its stages have sent. -/
theorem streamed_spec (encode : A → Option ℕ → String) (h : Interleaving stages log)
    (hstages : stages ≠ []) (htext : "text" ∈ modalities)
    (hslim : ∀ stage result, .complete stage result ∈ log → result.text.getD "" = "") :
    contentOf (streamed encode modalities stages log) = String.join (textDeltas log) ∧
      ∀ front stage result, log = front ++ [.complete stage result] →
        (streamed encode modalities stages log).getLast? =
          some { finishReason := some (orStop result.finishReason),
                 usage := (log.filterMap Message.reportedUsage).getLast? } := by
  have hqueue : streamLoop stages [] (relayed stages log).queue = log := by
    rw [relayed, (relayed_of_interleaving h hstages).queue]
    exact streamLoop_of_interleaving h
  obtain ⟨hcontent, hfinish, husage⟩ :=
    chatChunks_spec encode (log.map chunkOf) htext
  constructor
  · rw [streamed, hqueue, chatStream, contentOf_concat, hcontent, map_map, textDeltas]
    have hjoin := join_filter_eq Message.isStream (fun m => (chunkOf m).shownText) log (by
      intro m hm hcomplete
      cases m with
      | stream _ _ _ => cases hcomplete
      | complete stage result =>
        simp only [GenerateChunk.shownText, (chunkOf_complete stage result).2.2,
          hslim stage result hm, ite_self])
    simpa [Function.comp_def] using hjoin.symm
  · rintro front stage result rfl
    rw [streamed, hqueue, chatStream, getLast?_concat, hfinish, husage]
    congr 2
    · rw [map_append, map_singleton, getLast?_concat_or,
        (chunkOf_complete stage result).1]
      cases result.finishReason <;> rfl
    · rw [filterMap_map]
      rfl

/-- The terminal stages of a pipeline: `decode` alone, or with one audio stage. -/
def TextTerminals (stages : List String) : Prop :=
  stages = ["decode"] ∨
    ∃ audio ∈ ["code2wav", "talker", "talker_stream"], stages = ["decode", audio]

/-- The chunk of the merged result takes the finish reason from `decode`, and the usage from it if
it has one. -/
theorem merged_spec {values : String → Option (StageData A)} {decode audio : StageData A}
    (hdecode : values "decode" = some decode)
    (haudio : (values "code2wav" <|> values "talker" <|> values "talker_stream") = some audio) :
    (defaultResultBuilder (.merged values)).finishReason = (decode.finishReason <|> some "stop") ∧
      (defaultResultBuilder (.merged values)).usage =
        (buildUsageInfo decode <|> buildUsageInfo audio) := by
  simp only [defaultResultBuilder, hdecode, haudio, setAudioData]
  cases (audio.audioData <|> audio.audio <|> audio.audioWaveform) <;>
    cases audio.sampleRate <;> exact ⟨rfl, trivial⟩

/-- The answer, in words of what the stages have sent. -/
theorem answered_spec (encode : A → Option ℕ → String) (modalities : List String)
    (h : Interleaving stages log) (hstages : TextTerminals stages) :
    ∃ decode answer, resultOf "decode" log = some decode ∧
      answered encode modalities stages log = some answer ∧
      answer.finishReason = orStop decode.finishReason ∧
      answer.usage = ((resultOf "decode" log).bind buildUsageInfo <|>
        (audioResult log).bind buildUsageInfo).map usageResponse := by
  rcases hstages with rfl | ⟨stage, hstage, rfl⟩
  · have hrelayed := relayed_of_interleaving h (by simp)
    obtain ⟨decode, hdecode, hresolved⟩ := hrelayed.single (by simp) rfl "decode" (by simp)
    have haudio : audioResult log = none := by
      rw [audioResult, h.resultOf_none (by decide), h.resultOf_none (by decide),
        h.resultOf_none (by decide)]
      rfl
    obtain ⟨hfinish, husage, -⟩ := chunkOf_complete "decode" decode
    refine ⟨decode, _, hdecode, by rw [answered, relayed, hresolved]; rfl, ?_, ?_⟩
    · exact (congrArg orStop hfinish).trans (orStop_or _)
    · rw [hdecode, haudio, Option.bind_some, Option.bind_none, ← husage]
      simp only [Option.orElse_eq_orElse, Option.orElse_eq_or, Option.or_none]
      rfl
  · have hrelayed := relayed_of_interleaving h (by simp)
    obtain ⟨values, hresolved, hvalues⟩ := hrelayed.merged (by simp) rfl
    obtain ⟨decode, hdecode⟩ := h.completed (show "decode" ∈ _ by simp)
    obtain ⟨audio, haudio⟩ := h.completed (show stage ∈ _ by simp)
    have haudio' : audioResult log = some audio := by
      simp only [mem_cons, not_mem_nil, or_false] at hstage
      unfold audioResult
      rcases hstage with rfl | rfl | rfl
      · rw [haudio]
        rfl
      · rw [haudio, h.resultOf_none (by decide)]
        rfl
      · rw [haudio, h.resultOf_none (by decide), h.resultOf_none (by decide)]
        rfl
    obtain ⟨hfinish, husage⟩ := merged_spec ((hvalues "decode").trans hdecode) (by
      rw [hvalues, hvalues, hvalues]
      exact haudio')
    refine ⟨decode, _, hdecode, by rw [answered, relayed, hresolved]; rfl, ?_, ?_⟩
    · exact (congrArg orStop hfinish).trans (orStop_or _)
    · rw [hdecode, haudio', Option.bind_some, Option.bind_some, ← husage]
      rfl

end Main

/-- The usage of a text of three tokens. -/
def threeTokens : UsageDict :=
  { promptTokens := some (some 5), completionTokens := some (some 3), totalTokens := some (some 8) }

/-- `decode` is cut off by the length limit; its result comes first or last. -/
def cutOff (decodeFirst : Bool) : List (Message ℕ) :=
  let decode : Message ℕ :=
    .complete "decode" { finishReason := some "length", usage := threeTokens }
  let audio : Message ℕ := .complete "code2wav" { audio := some 0, modality := some "audio" }
  [.stream "decode" (some "text") (.dict { text := some "one " }),
    .stream "code2wav" (some "audio") (.dict { audio := some 7 }),
    .stream "decode" (some "text") (.dict { text := some "two" })] ++
  if decodeFirst then [decode, audio] else [audio, decode]

theorem interleaving_cutOff (decodeFirst : Bool) :
    Interleaving ["decode", "code2wav"] (cutOff decodeFirst) := by
  refine ⟨by cases decodeFirst <;> decide, fun stage hstage => ?_⟩
  simp only [mem_cons, not_mem_nil, or_false] at hstage
  rcases hstage with rfl | rfl
  · refine ⟨[.stream "decode" (some "text") (.dict { text := some "one " }),
      .stream "decode" (some "text") (.dict { text := some "two" })],
      { finishReason := some "length", usage := threeTokens }, ?_, by decide⟩
    cases decodeFirst <;> decide
  · refine ⟨[.stream "code2wav" (some "audio") (.dict { audio := some 7 })],
      { audio := some 0, modality := some "audio" }, ?_, by decide⟩
    cases decodeFirst <;> decide

theorem slim_cutOff {decodeFirst : Bool} (stage : String) (result : StageData ℕ)
    (hmem : .complete stage result ∈ cutOff decodeFirst) : result.text.getD "" = "" := by
  cases decodeFirst <;>
    simp only [cutOff, cons_append, nil_append, mem_cons, reduceCtorEq,
      Bool.false_eq_true, if_false, if_true, Message.complete.injEq, not_mem_nil, or_false,
      false_or] at hmem <;>
    rcases hmem with ⟨-, rfl⟩ | ⟨-, rfl⟩ <;> rfl

end Omni.Serve
