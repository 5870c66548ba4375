import Mathlib.Data.String.Basic
import Mathlib.Logic.Function.Basic
import Omni.Library.Transition

/-!
# The scheduler of diffusion models

`DllmScheduler` of `dllm_scheduler.py`. A request has the number of its arrival. An action is
one step of the loop of the scheduler thread, or an arrival or an abort between two of them.
What upstream code decides is an argument of the action: the requests that the adder takes, the
rows of the pool and the tokens of the model.
-/

namespace Omni.Dllm

/-- A message in the inbox; `request` is the number of the arrival. -/
inductive Incoming (P : Type)
  | newRequest (request : ℕ) (requestId : String) (data : P)
  | other (requestId type : String)

/-- `msg.request_id`. -/
def Incoming.requestId {P : Type} : Incoming P → String
  | .newRequest _ requestId _ => requestId
  | .other requestId _ => requestId

/-- `Req`. -/
structure Req where
  rid : String
  outputIds : List ℕ
  /-- The type of `finished_reason`. -/
  finishedReason : Option String
  reqPoolIdx : Option ℕ
  isChunked : ℕ

/-- `req.finished()`. -/
def Req.finished (r : Req) : Bool := r.finishedReason.isSome

/-- `SGLangDLLMRequestData`; `req` is the number of its request. -/
structure ReqData (P : Type) where
  req : ℕ
  stagePayload : P
  outputIds : List ℕ
  finishReason : Option String

/-- A message of type `result` in the outbox. -/
structure Outgoing (V : Type) where
  request : ℕ
  requestId : String
  data : V

/-- What the scheduler is given, and what upstream code finds out about a request. -/
structure Config (P V : Type) where
  /-- Whether `request_builder` returns for a payload; it raises otherwise. -/
  requestBuilder : P → Bool
  /-- `result_adapter`, which may raise. -/
  resultAdapter : ReqData P → Option V
  /-- What `check_finished` finds out of the output ids of a request. -/
  checkFinished : ℕ → List ℕ → Option String
  /-- `req.output_ids_through_stop`. -/
  outputIdsThroughStop : ℕ → List ℕ → List ℕ

/-- Where the loop is. -/
inductive Pc
  | top
  /-- It gets messages from the inbox, having taken the set of aborted ids. -/
  | draining (aborted : List String)
  /-- The inbox was empty. -/
  | purging (aborted : List String)
  | scheduling
  | forwarding (batch : List ℕ)
  /-- The results of a batch have been applied. -/
  | applied (batch : List ℕ)
  /-- An exception has ended the loop. -/
  | crashed

/-- `DllmScheduler`, and a record of what has happened. -/
structure State (P V : Type) where
  inbox : List (Incoming P)
  outbox : List (Outgoing V)
  abortedRequestIds : List String
  ridToReqData : String → Option (ReqData P)
  waitingQueue : List ℕ
  stagingQueue : List ℕ
  req : ℕ → Req
  pc : Pc
  /-- How many requests have arrived. -/
  arrived : ℕ
  /-- The requests that were aborted before their end. -/
  aborted : List ℕ
  /-- The batches that were prepared. -/
  batches : List (List ℕ)
  /-- The releases of the KV cache of a request, with its row. -/
  released : List (ℕ × ℕ)

/-- A scheduler after `__init__`. -/
def State.init (P V : Type) : State P V where
  inbox := []
  outbox := []
  abortedRequestIds := []
  ridToReqData _ := none
  waitingQueue := []
  stagingQueue := []
  req _ := ⟨"", [], none, none, 0⟩
  pc := .top
  arrived := 0
  aborted := []
  batches := []
  released := []

variable {P V : Type}

/-- The request of a message with its id. -/
def Incoming.request : Incoming P → Option (ℕ × String)
  | .newRequest n rid _ => some (n, rid)
  | .other _ _ => none

/-- The requests in the two queues that have not finished. -/
def State.unfinished (s : State P V) : List ℕ :=
  s.stagingQueue.filter (fun n => !(s.req n).finished) ++ s.waitingQueue

/-- The requests that the scheduler has, with their ids. -/
def State.held (s : State P V) : List (ℕ × String) :=
  s.unfinished.map (fun n => (n, (s.req n).rid)) ++ s.inbox.filterMap Incoming.request

/-- The ids that the loop has taken out of the set of aborted ids and still compares with
those of the messages. -/
def Pc.skips : Pc → List String
  | .draining aborted => aborted
  | _ => []

/-- `inbox.put` of a new request. If an abort of its id is still outstanding, it is aborted. -/
def State.submit (s : State P V) (rid : String) (data : P) : State P V :=
  { s with
    inbox := s.inbox ++ [.newRequest s.arrived rid data]
    arrived := s.arrived + 1
    aborted := if rid ∈ s.abortedRequestIds ∨ rid ∈ s.pc.skips then s.aborted ++ [s.arrived]
      else s.aborted }

/-- `inbox.put` of a message of another type. -/
def State.message (s : State P V) (rid type : String) : State P V :=
  { s with inbox := s.inbox ++ [.other rid type] }

/-- `abort`. -/
def State.abort (s : State P V) (rid : String) : State P V :=
  { s with
    abortedRequestIds := s.abortedRequestIds ++ [rid]
    aborted := s.aborted ++ (s.held.filter fun p => p.2 = rid).map Prod.fst }

/-! A function that can raise gives the state in which it returns or raises. -/

/-- `release_kv_cache`, which needs the row of the request. -/
def State.releaseKvCache (s : State P V) (n : ℕ) : Except (State P V) (State P V) :=
  match (s.req n).reqPoolIdx with
  | none => .error s
  | some row => .ok { s with
      req := Function.update s.req n { s.req n with reqPoolIdx := none }
      released := s.released ++ [(n, row)] }

/-- `_drain_and_purge`: the set of aborted ids is taken. -/
def State.takeAborted (s : State P V) : State P V :=
  { s with pc := .draining s.abortedRequestIds, abortedRequestIds := [] }

/-- A request is built and put into the waiting queue. -/
def State.register (s : State P V) (n : ℕ) (rid : String) (data : P) : State P V :=
  { s with
    req := Function.update s.req n ⟨rid, [], none, none, 0⟩
    ridToReqData := Function.update s.ridToReqData rid (some ⟨n, data, [], none⟩)
    waitingQueue := s.waitingQueue ++ [n] }

/-- `_drain_and_purge`: one message of the inbox. -/
def State.getMessage (cfg : Config P V) (s : State P V) (aborted : List String) :
    Except (State P V) (State P V) :=
  match s.inbox with
  | [] => .ok { s with pc := .purging aborted }
  | msg :: inbox =>
    let s := { s with inbox := inbox }
    if msg.requestId ∈ aborted then .ok s
    else match msg with
      | .newRequest n rid data =>
        if cfg.requestBuilder data then .ok (s.register n rid data) else .error s
      | .other _ _ => .ok s

/-- `_drain_and_purge`: what remains of the staging queue. -/
def State.purgeStaging (aborted : List String) :
    State P V → List ℕ → Except (State P V) (State P V × List ℕ)
  | s, [] => .ok (s, [])
  | s, n :: ns =>
    if (s.req n).rid ∈ aborted then do
      let s ← s.releaseKvCache n
      State.purgeStaging aborted s ns
    else do
      let (s, staging) ← State.purgeStaging aborted s ns
      return (s, if (s.req n).finished then staging else n :: staging)

/-- `_drain_and_purge`: the two queues and the request data. -/
def State.purge (s : State P V) (aborted : List String) : Except (State P V) (State P V) := do
  let s := { s with
    waitingQueue := s.waitingQueue.filter fun n =>
      (s.req n).rid ∉ aborted ∧ !(s.req n).finished }
  let (s, staging) ← s.purgeStaging aborted s.stagingQueue
  return { s with
    stagingQueue := staging
    ridToReqData := fun rid => if rid ∈ aborted then none else s.ridToReqData rid
    pc := .scheduling }

/-- Requests are put into the staging queue unless it has their id. -/
def State.addStaging (s : State P V) : List ℕ → List ℕ → List ℕ
  | staging, [] => staging
  | staging, n :: ns =>
    if (s.req n).rid ∈ staging.map (fun m => (s.req m).rid) then s.addStaging staging ns
    else s.addStaging (staging ++ [n]) ns

/-- `_schedule_next_batch`. The adder takes the requests of the staging queue and the first
`admitted` ones of the waiting queue; `rows` is what `prepare_for_extend` allocates. -/
def State.scheduleNextBatch (s : State P V) (admitted : ℕ) (rows : ℕ → ℕ) : State P V :=
  let canRunList := s.stagingQueue ++ s.waitingQueue.take admitted
  if canRunList = [] then { s with pc := .top }
  else
    let staging := s.addStaging s.stagingQueue canRunList
    let stagingRids := staging.map fun n => (s.req n).rid
    let chunked (n : ℕ) : Req :=
      if n ∈ staging then { s.req n with isChunked := (s.req n).isChunked + 1 } else s.req n
    { s with
      stagingQueue := staging
      waitingQueue := s.waitingQueue.filter fun n => (s.req n).rid ∉ stagingRids
      req := fun n =>
        if n ∈ canRunList then { chunked n with reqPoolIdx := some (rows n) } else chunked n
      pc := .forwarding canRunList
      batches := s.batches ++ [canRunList] }

/-- `req.check_finished()`. -/
def Config.check (cfg : Config P V) (n : ℕ) (r : Req) : Req :=
  if r.finished then r else { r with finishedReason := cfg.checkFinished n r.outputIds }

/-- `_apply_results`: the tokens of one request are appended until it has finished. -/
def Config.appendTokens (cfg : Config P V) (n : ℕ) : Req → List ℕ → Req
  | r, [] => r
  | r, token :: tokens =>
    let r := cfg.check n { r with outputIds := r.outputIds ++ [token] }
    if r.finished then r else cfg.appendTokens n r tokens

/-- `_apply_results`: the result of a request that has finished. -/
def State.putResult (cfg : Config P V) (s : State P V) (n : ℕ) :
    Except (State P V) (State P V) :=
  let req := s.req n
  match s.ridToReqData req.rid with
  | none => .ok s
  | some data =>
    let s := { s with ridToReqData := Function.update s.ridToReqData req.rid none }
    let data := { data with
      outputIds := cfg.outputIdsThroughStop n req.outputIds
      finishReason := req.finishedReason }
    match cfg.resultAdapter data with
    | none => .error s
    | some result => .ok { s with outbox := s.outbox ++ [⟨n, req.rid, result⟩] }

/-- `_apply_results`: the loop over the requests and their tokens. -/
def State.applyTokens (cfg : Config P V) :
    State P V → List (ℕ × List ℕ) → Except (State P V) (State P V)
  | s, [] => .ok s
  | s, (n, tokens) :: rest => do
    let req := cfg.appendTokens n (s.req n) tokens
    let s := { s with req := Function.update s.req n req }
    let s ← if req.finished then s.putResult cfg n else .ok s
    State.applyTokens cfg s rest

/-- `_apply_results`, with the token ids for each request if there are any. -/
def State.applyResults (cfg : Config P V) (s : State P V) (batch : List ℕ)
    (tokenIds : Option (List (List ℕ))) : Except (State P V) (State P V) :=
  let s := { s with pc := .applied batch }
  match tokenIds with
  | none => .ok s
  | some tokenIdsPerReq => s.applyTokens cfg (batch.zip tokenIdsPerReq)

/-- `_post_step`: the requests of the batch that have finished are released. -/
def State.releaseFinished : State P V → List ℕ → Except (State P V) (State P V)
  | s, [] => .ok s
  | s, n :: ns => do
    let s ← if (s.req n).finished then s.releaseKvCache n else .ok s
    State.releaseFinished s ns

/-- `_post_step`; the KV cache of an unfinished request stays in the tree, its row is freed. -/
def State.postStep (s : State P V) (batch : List ℕ) : Except (State P V) (State P V) := do
  let s ← s.releaseFinished batch
  return { s with
    stagingQueue := s.stagingQueue.filter fun n => !(s.req n).finished
    req := fun n =>
      if n ∈ s.stagingQueue ∧ !(s.req n).finished then { s.req n with reqPoolIdx := none }
      else s.req n
    pc := .top }

/-- The state after a function that can raise. -/
def settle : Except (State P V) (State P V) → State P V
  | .ok s => s
  | .error s => { s with pc := .crashed }

/-- `prefill_max_requests` of the adder. -/
def prefillMaxRequests : ℕ := 1

/-- What can happen. -/
inductive Action (P : Type)
  | submit (rid : String) (data : P)
  | message (rid type : String)
  | abort (rid : String)
  | takeAborted
  | getMessage
  | purge
  | scheduleNextBatch (admitted : ℕ) (rows : ℕ → ℕ)
  | applyResults (tokenIds : Option (List (List ℕ)))
  | postStep

/-- One step. -/
def step (cfg : Config P V) (s : State P V) : Action P → Option (State P V)
  | .submit rid data => some (s.submit rid data)
  | .message rid type => some (s.message rid type)
  | .abort rid => some (s.abort rid)
  | .takeAborted => match s.pc with
    | .top => some s.takeAborted
    | _ => none
  | .getMessage => match s.pc with
    | .draining aborted => some (settle (s.getMessage cfg aborted))
    | _ => none
  | .purge => match s.pc with
    | .purging aborted => some (settle (s.purge aborted))
    | _ => none
  | .scheduleNextBatch admitted rows => match s.pc with
    | .scheduling =>
      if admitted ≤ prefillMaxRequests - s.stagingQueue.length then
        some (s.scheduleNextBatch admitted rows)
      else none
    | _ => none
  | .applyResults tokenIds => match s.pc with
    | .forwarding batch => some (settle (s.applyResults cfg batch tokenIds))
    | _ => none
  | .postStep => match s.pc with
    | .applied batch => some (settle (s.postStep batch))
    | _ => none

end Omni.Dllm
