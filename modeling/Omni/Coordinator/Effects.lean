import Omni.Coordinator.Steps

/-!
# What each piece of a handler changes

The lemmas describe every piece by its effect on the four maps and on the record
of a single call, so that later proofs never unfold a handler.
-/

namespace Omni.Coordinator

open Function

variable {V Q : Type}

section Maps

variable (s : State V) (requestId : String) (value : Future V) (exc : Failure) (msg : Message V)

@[simp] theorem resolveFuture_requests :
    (resolveFuture s requestId value).requests = s.requests := by
  unfold resolveFuture
  split
  · rfl
  · split <;> rfl

@[simp] theorem resolveFuture_completionFutures :
    (resolveFuture s requestId value).completionFutures = s.completionFutures := by
  unfold resolveFuture
  split
  · rfl
  · split <;> rfl

@[simp] theorem resolveFuture_streamQueues :
    (resolveFuture s requestId value).streamQueues = s.streamQueues := by
  unfold resolveFuture
  split
  · rfl
  · split <;> rfl

@[simp] theorem resolveFuture_partialResults :
    (resolveFuture s requestId value).partialResults = s.partialResults := by
  unfold resolveFuture
  split
  · rfl
  · split <;> rfl

@[simp] theorem resolveFuture_handlers :
    (resolveFuture s requestId value).handlers = s.handlers := by
  unfold resolveFuture
  split
  · rfl
  · split <;> rfl

@[simp] theorem rejectCompletionFuture_handlers :
    (rejectCompletionFuture s requestId exc).handlers = s.handlers := resolveFuture_handlers ..

@[simp] theorem rejectCompletionFuture_requests :
    (rejectCompletionFuture s requestId exc).requests = s.requests := resolveFuture_requests ..

@[simp] theorem rejectCompletionFuture_completionFutures :
    (rejectCompletionFuture s requestId exc).completionFutures = s.completionFutures :=
  resolveFuture_completionFutures ..

@[simp] theorem rejectCompletionFuture_streamQueues :
    (rejectCompletionFuture s requestId exc).streamQueues = s.streamQueues :=
  resolveFuture_streamQueues ..

@[simp] theorem rejectCompletionFuture_partialResults :
    (rejectCompletionFuture s requestId exc).partialResults = s.partialResults :=
  resolveFuture_partialResults ..

@[simp] theorem putStream_requests : (putStream s requestId msg).requests = s.requests := by
  unfold putStream
  split <;> rfl

@[simp] theorem putStream_completionFutures :
    (putStream s requestId msg).completionFutures = s.completionFutures := by
  unfold putStream
  split <;> rfl

@[simp] theorem putStream_streamQueues :
    (putStream s requestId msg).streamQueues = s.streamQueues := by
  unfold putStream
  split <;> rfl

@[simp] theorem putStream_partialResults :
    (putStream s requestId msg).partialResults = s.partialResults := by
  unfold putStream
  split <;> rfl

@[simp] theorem putStream_handlers : (putStream s requestId msg).handlers = s.handlers := by
  unfold putStream
  split <;> rfl

@[simp] theorem dropRequest_handlers : (dropRequest s requestId).handlers = s.handlers := rfl

@[simp] theorem dropRequest_calls : (dropRequest s requestId).calls = s.calls := rfl

@[simp] theorem dropRequest_completionFutures :
    (dropRequest s requestId).completionFutures = s.completionFutures := rfl

@[simp] theorem dropRequest_streamQueues :
    (dropRequest s requestId).streamQueues = s.streamQueues := rfl

@[simp] theorem dropRequest_requests :
    (dropRequest s requestId).requests = update s.requests requestId none := rfl

@[simp] theorem dropRequest_partialResults :
    (dropRequest s requestId).partialResults = update s.partialResults requestId none :=
  rfl

@[simp] theorem streamFinally_requests : (streamFinally s requestId).requests = s.requests := rfl

@[simp] theorem streamFinally_partialResults :
    (streamFinally s requestId).partialResults = s.partialResults := rfl

@[simp] theorem streamFinally_calls : (streamFinally s requestId).calls = s.calls := rfl

@[simp] theorem streamFinally_completionFutures :
    (streamFinally s requestId).completionFutures = update s.completionFutures requestId none := rfl

@[simp] theorem streamFinally_streamQueues :
    (streamFinally s requestId).streamQueues = update s.streamQueues requestId none :=
  rfl

@[simp] theorem openQueue_requests (c : ℕ) : (openQueue s c requestId).requests = s.requests := rfl

@[simp] theorem openQueue_completionFutures (c : ℕ) :
    (openQueue s c requestId).completionFutures = s.completionFutures := rfl

@[simp] theorem openQueue_partialResults (c : ℕ) :
    (openQueue s c requestId).partialResults = s.partialResults := rfl

@[simp] theorem openQueue_calls (c : ℕ) : (openQueue s c requestId).calls = s.calls := rfl

@[simp] theorem openQueue_streamQueues (c : ℕ) :
    (openQueue s c requestId).streamQueues = update s.streamQueues requestId (some c) := rfl

end Maps

/-- Resolving a future touches one call: the owner of the pending future that is
registered under the id. -/
theorem resolveFuture_calls (s : State V) (requestId : String) (value : Future V) (d : ℕ) :
    (resolveFuture s requestId value).calls d =
      if s.completionFutures requestId = some d ∧ (s.calls d).future.done = false then
        { s.calls d with future := value }
      else s.calls d := by
  unfold resolveFuture
  cases hfuture : s.completionFutures requestId with
  | none => simp
  | some c =>
    by_cases hd : d = c
    · subst hd
      cases hdone : (s.calls d).future.done <;> simp [hdone]
    · have hne : ¬(some c = some d) := fun h => hd (Option.some.inj h).symm
      cases hdone : (s.calls c).future.done <;> simp [hdone, hne, updateCall_ne, hd]

theorem putStream_calls (s : State V) (requestId : String) (msg : Message V) (d : ℕ) :
    (putStream s requestId msg).calls d =
      if s.streamQueues requestId = some d then
        { s.calls d with queue := (s.calls d).queue ++ [msg] }
      else s.calls d := by
  unfold putStream
  cases hqueue : s.streamQueues requestId with
  | none => simp
  | some c =>
    by_cases hd : d = c
    · subst hd
      simp
    · have hne : ¬(some c = some d) := fun h => hd (Option.some.inj h).symm
      simp [hne, updateCall_ne, hd]

/-- A submission that passes its checks finds no fatal error, no entry for its id
and a registered entry stage. -/
theorem checkSubmission_eq_ok {cfg : Config Q} {s : State V} {requestId : String} {request : Q}
    {terminalStages : Finset String}
    (hok : checkSubmission cfg s requestId request = .ok terminalStages) :
    s.fatalError = none ∧ s.requests requestId = none ∧ cfg.entryStage ∈ s.stages ∧
      resolveTerminalStages cfg request = .ok terminalStages := by
  unfold checkSubmission at hok
  cases hfatal : s.fatalError with
  | some message => simp [hfatal] at hok
  | none =>
    simp only [hfatal] at hok
    split_ifs at hok with hdup hentry
    exact ⟨rfl, by simpa using hdup, by simpa using hentry, hok⟩

/-- The checks do not read the records of calls. -/
@[simp] theorem checkSubmission_updateCall (cfg : Config Q) (s : State V) (c : ℕ)
    (f : Call V → Call V) (requestId : String) (request : Q) :
    checkSubmission cfg (s.updateCall c f) requestId request =
      checkSubmission cfg s requestId request := rfl

@[simp] theorem checkSubmission_openQueue (cfg : Config Q) (s : State V) (c : ℕ)
    (requestId id : String) (request : Q) :
    checkSubmission cfg (openQueue s c id) requestId request =
      checkSubmission cfg s requestId request := rfl

section Submission

variable {cfg : Config Q} {s : State V} {c : ℕ} {requestId : String} {request : Q}
  {failure : Failure} {terminalStages : Finset String}

theorem submit_of_error (hcheck : checkSubmission cfg s requestId request = .error failure) :
    submit cfg s c requestId request =
      raiseCall (s.updateCall c fun _ => Call.start .submit requestId) c failure := by
  simp [submit, submitRequest, hcheck, Except.map]

theorem submit_of_ok (hcheck : checkSubmission cfg s requestId request = .ok terminalStages) :
    submit cfg s c requestId request =
      trackRequest cfg (s.updateCall c fun _ => Call.start .submit requestId) c requestId
        terminalStages := by
  simp [submit, submitRequest, hcheck, Except.map]

theorem stream_of_streaming (hqueue : s.streamQueues requestId ≠ none) :
    stream cfg s c requestId request =
      raiseCall (s.updateCall c fun _ => Call.start .stream requestId) c
        (.valueError s!"Request {requestId} already streaming") := by
  simp [stream, Option.isSome_iff_ne_none, hqueue]

theorem stream_of_error (hqueue : s.streamQueues requestId = none)
    (hcheck : checkSubmission cfg s requestId request = .error failure) :
    stream cfg s c requestId request =
      raiseCall (streamFinally (openQueue (s.updateCall c fun _ => Call.start .stream requestId) c
        requestId) requestId) c failure := by
  simp [stream, hqueue, submitRequest, hcheck, Except.map]

theorem stream_of_ok (hqueue : s.streamQueues requestId = none)
    (hcheck : checkSubmission cfg s requestId request = .ok terminalStages) :
    stream cfg s c requestId request =
      trackRequest cfg (openQueue (s.updateCall c fun _ => Call.start .stream requestId) c
        requestId) c requestId terminalStages := by
  simp [stream, hqueue, submitRequest, hcheck, Except.map]

end Submission

@[simp] theorem failSubmission_requests (s : State V) (c : ℕ) (failure : Failure) :
    (failSubmission s c failure).requests = s.requests := by
  unfold failSubmission
  split <;> rfl

section Track

variable (cfg : Config Q) (s : State V) (c : ℕ) (requestId : String)
  (terminalStages : Finset String)

@[simp] theorem trackRequest_requests :
    (trackRequest cfg s c requestId terminalStages).requests =
      update s.requests requestId (some c) := rfl

@[simp] theorem trackRequest_completionFutures :
    (trackRequest cfg s c requestId terminalStages).completionFutures =
      update s.completionFutures requestId (some c) := rfl

@[simp] theorem trackRequest_streamQueues :
    (trackRequest cfg s c requestId terminalStages).streamQueues = s.streamQueues := rfl

@[simp] theorem trackRequest_partialResults :
    (trackRequest cfg s c requestId terminalStages).partialResults = s.partialResults := rfl

@[simp] theorem trackRequest_self :
    (trackRequest cfg s c requestId terminalStages).calls c =
      { s.calls c with
        info := ⟨.pending, cfg.entryStage, terminalStages, none, none⟩
        future := .pending
        phase := .submitting } := by
  simp [trackRequest]

theorem trackRequest_ne {d : ℕ} (hne : d ≠ c) :
    (trackRequest cfg s c requestId terminalStages).calls d = s.calls d := by
  simp [trackRequest, updateCall_ne, hne]

end Track

/-- The partial results of a request together with the result of one more stage. -/
def collect (s : State V) (msg : CompleteMessage V) : Finmap fun _ : String => Option V :=
  ((s.partialResults msg.requestId).getD ∅).insert msg.fromStage msg.result

/-- The stages with a partial result after one more has arrived. -/
theorem keys_insert (p : Finmap fun _ : String => Option V) (stage : String)
    (value : Option V) : (p.insert stage value).keys = insert stage p.keys := by
  ext k
  simp [Finmap.mem_keys, Finmap.mem_insert]

/-- Store the partial results of a request. -/
def storePartials (s : State V) (requestId : String)
    (partials : Finmap fun _ : String => Option V) : State V :=
  { s with partialResults := update s.partialResults requestId (some partials) }

section StorePartials

variable (s : State V) (requestId : String) (partials : Finmap fun _ : String => Option V)

@[simp] theorem storePartials_calls : (storePartials s requestId partials).calls = s.calls := rfl

@[simp] theorem storePartials_requests :
    (storePartials s requestId partials).requests = s.requests := rfl

@[simp] theorem storePartials_completionFutures :
    (storePartials s requestId partials).completionFutures = s.completionFutures := rfl

@[simp] theorem storePartials_streamQueues :
    (storePartials s requestId partials).streamQueues = s.streamQueues := rfl

@[simp] theorem storePartials_handlers :
    (storePartials s requestId partials).handlers = s.handlers := rfl

@[simp] theorem storePartials_partialResults :
    (storePartials s requestId partials).partialResults =
      update s.partialResults requestId (some partials) := rfl

end StorePartials

section Success

variable {cfg : Config Q} {s : State V} {c : ℕ} {msg : CompleteMessage V}

/-- A completion from a stage that is not expected changes nothing. -/
theorem handleSuccess_ignored (hne : expectedTerminalStages cfg s msg.requestId ≠ ∅)
    (hstage : msg.fromStage ∉ expectedTerminalStages cfg s msg.requestId) :
    handleSuccess cfg s c msg = s := by
  simp [handleSuccess, hne, hstage]

theorem handleSuccess_single
    (hstage : expectedTerminalStages cfg s msg.requestId = ∅ ∨
      msg.fromStage ∈ expectedTerminalStages cfg s msg.requestId)
    (hcard : (expectedTerminalStages cfg s msg.requestId).card ≤ 1) :
    handleSuccess cfg s c msg =
      { putStream (resolveFuture (s.updateInfo c fun info =>
            { info with state := .completed, result := some (.single msg.result) })
          msg.requestId (.result (.single msg.result))) msg.requestId (.complete msg) with
        requests := update s.requests msg.requestId none } := by
  have hnot : ¬(expectedTerminalStages cfg s msg.requestId ≠ ∅ ∧
      msg.fromStage ∉ expectedTerminalStages cfg s msg.requestId) := by tauto
  unfold handleSuccess
  simp only [if_neg hnot, if_pos hcard, putStream_requests, resolveFuture_requests,
    updateInfo_requests]

/-- The completion of one of several terminal stages is stored while others are missing. -/
theorem handleSuccess_waiting
    (hstage : msg.fromStage ∈ expectedTerminalStages cfg s msg.requestId)
    (hcard : 1 < (expectedTerminalStages cfg s msg.requestId).card)
    (hmissing : (collect s msg).keys ⊂ expectedTerminalStages cfg s msg.requestId) :
    handleSuccess cfg s c msg =
      putStream (storePartials s msg.requestId (collect s msg)) msg.requestId (.complete msg) := by
  have hnot : ¬(expectedTerminalStages cfg s msg.requestId).card ≤ 1 := by omega
  unfold handleSuccess
  simp only [hstage, not_true, and_false, if_false, if_neg hnot]
  exact if_pos hmissing

theorem handleSuccess_merged
    (hstage : msg.fromStage ∈ expectedTerminalStages cfg s msg.requestId)
    (hcard : 1 < (expectedTerminalStages cfg s msg.requestId).card)
    (hall : ¬(collect s msg).keys ⊂ expectedTerminalStages cfg s msg.requestId) :
    handleSuccess cfg s c msg =
      dropRequest (resolveFuture
        ((putStream (storePartials s msg.requestId (collect s msg)) msg.requestId
          (.complete msg)).updateInfo c fun info =>
            { info with state := .completed, result := some (.merged (collect s msg)) })
        msg.requestId (.result (.merged (collect s msg)))) msg.requestId := by
  have hnot : ¬(expectedTerminalStages cfg s msg.requestId).card ≤ 1 := by omega
  unfold handleSuccess
  simp only [hstage, not_true, and_false, if_false, if_neg hnot]
  exact if_neg hall

end Success

/-- The completion is the last one the request waits for. -/
def concludes (cfg : Config Q) (s : State V) (msg : CompleteMessage V) : Prop :=
  let expected := expectedTerminalStages cfg s msg.requestId
  (expected = ∅ ∨ msg.fromStage ∈ expected) ∧
    (expected.card ≤ 1 ∨
      expected ⊆ insert msg.fromStage ((s.partialResults msg.requestId).getD ∅).keys)

/-- The action takes the request out of the coordinator's maps. -/
def endsRequest (cfg : Config Q) (s : State V) (a : Action V Q) (requestId : String) : Prop :=
  match a with
  | .broadcast h =>
    match s.handlers h with
    | .aborting id _ => id = requestId
    | .failing msg => msg.requestId = requestId
    | _ => False
  | .complete _ msg => msg.success = true ∧ msg.requestId = requestId ∧ concludes cfg s msg
  | .failPending _ => True
  | _ => False

end Omni.Coordinator
