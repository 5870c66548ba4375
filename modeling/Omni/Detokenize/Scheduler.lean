import Mathlib.Data.Int.Notation
import Omni.Library.Dict
import Omni.Library.Transition
import Omni.Library.Utf8

/-!
# Streaming detokenizers

`StreamingDetokenizeScheduler` of Qwen3-Omni and `MingStreamingDetokenizeScheduler` as two threads
run them: the scheduler's thread, which handles the messages of the inbox, and the stage's thread,
which puts messages there and aborts requests. A step of a handler is one access to the dictionaries
or the outbox, with what the handler does on its own before the next one.
-/

namespace Omni.Detokenize

open Transition Utf8

/-- A text, as its characters. -/
abbrev Chars := List Char

/-- `_DONE_SEEN_MAX`. -/
def doneSeenMax : ℕ := 10000

/-- `_DONE_SEEN_EVICT_TO`. -/
def doneSeenEvictTo : ℕ := 5000

/-- What the schedulers are given, and where they differ. `R` are results without the payload's own
fields. -/
structure Detokenizer (P R ε : Type) where
  /-- `tokenizer.decode(tokens, skip_special_tokens=True)`. -/
  decode : List ℕ → Except ε Chars
  /-- The request's parameter `stream`. -/
  isStreaming : P → Bool
  /-- `_build_result`. -/
  buildResult : P → Except ε R
  /-- The decoded text is held back. -/
  incomplete : Chars → Bool
  /-- `_STATE_MAX` and `_STATE_ORPHAN_IDLE_S` in milliseconds, when idle states are evicted. -/
  orphans : Option (ℕ × ℕ)
  /-- There is a state lock: `abort` holds it, and so do the evictions. -/
  locked : Bool

section Variants

variable {P R ε : Type} (decode : List ℕ → Except ε Chars) (isStreaming : P → Bool)
  (buildResult : P → Except ε R)

/-- `StreamingDetokenizeScheduler` of Qwen3-Omni. -/
def qwen3Omni : Detokenizer P R ε where
  decode := decode
  isStreaming := isStreaming
  buildResult := buildResult
  incomplete candidate := candidate.contains replacement
  orphans := none
  locked := false

/-- `MingStreamingDetokenizeScheduler`. -/
def mingOmni : Detokenizer P R ε where
  decode := decode
  isStreaming := isStreaming
  buildResult := buildResult
  incomplete candidate := candidate.getLast? == some replacement
  orphans := some (10000, 300000)
  locked := true

end Variants

/-- `_RequestState`. The state of Qwen3-Omni has no `last_seen`, and nothing reads it there. -/
structure RequestState (P : Type) where
  pendingTokens : List ℕ := []
  payload : Option P := none
  done : Bool := false
  lastSeen : ℤ := 0

/-- A state that `_evict_idle_orphans` removes. -/
def RequestState.isOrphan {P : Type} (state : RequestState P) (idleMs : ℕ) (nowMs : ℤ) : Bool :=
  state.payload.isNone && !state.done && decide (state.lastSeen < nowMs - idleMs)

/-- `IncomingMessage`: its type with its data. A chunk may have no token. -/
inductive IncomingMessage (P ε : Type)
  | newRequest (payload : P)
  | streamChunk (item : Except ε ℕ)
  | streamDone

/-- `OutgoingMessage`. -/
inductive OutgoingMessage (ι R ε : Type)
  | stream (requestId : ι) (text : Chars)
  | result (requestId : ι) (data : R)
  | error (requestId : ι) (exc : ε)

/-- `request_id`. -/
def OutgoingMessage.requestId {ι R ε : Type} : OutgoingMessage ι R ε → ι
  | .stream r _ => r
  | .result r _ => r
  | .error r _ => r

/-- What a handler does with the state that `_ensure_state` returns. -/
inductive Use (P : Type)
  | chunk (token : ℕ)
  | payload (payload : P)

/-- What the scheduler's thread has before it. A handler's state `s` stays the same object when
another thread takes it out of the dictionary. -/
inductive Work (ι P ε : Type)
  | idle
  /-- A message has been taken from the inbox. -/
  | start (r : ι) (msg : IncomingMessage P ε)
  /-- `_ensure_state` has put in a new state. -/
  | inserted (r : ι) (use : Use P)
  /-- `_on_stream_chunk` after `_ensure_state`. -/
  | decode (r : ι) (token : ℕ) (s : RequestState P)
  /-- It puts out a delta. -/
  | delta (r : ι) (text : Chars)
  /-- `_on_new_request` after `_ensure_state`. -/
  | arrived (r : ι) (payload : P) (s : RequestState P)
  /-- It has found the request in `_done_seen`. -/
  | unlatch (r : ι)
  /-- `_on_stream_done` has put the request into `_done_seen`. -/
  | latched (r : ι)
  /-- It evicts entries of `_done_seen`. -/
  | evictDone (r : ι) (excess : ℕ)
  /-- `_finalize`. -/
  | finalize (r : ι)
  /-- `_finalize` after the first `pop`. -/
  | finalized (r : ι) (s : Option (RequestState P))
  /-- `_finalize` with a state that has this payload. -/
  | flush (r : ι) (payload : P) (pendingTokens : List ℕ)
  /-- `_finalize` after the flush. -/
  | build (r : ι) (payload : P)
  /-- An exception: `abort` in the scheduler's thread. -/
  | raised (r : ι) (exc : ε)
  /-- `abort` after its first `pop`. -/
  | unlatchRaised (r : ι) (exc : ε)
  /-- The error message. -/
  | report (r : ι) (exc : ε)

/-- The request of the message that is handled. -/
def Work.request {ι P ε : Type} : Work ι P ε → Option ι
  | .idle => none
  | .start r _ => some r
  | .inserted r _ => some r
  | .decode r _ _ => some r
  | .delta r _ => some r
  | .arrived r _ _ => some r
  | .unlatch r => some r
  | .latched r => some r
  | .evictDone r _ => some r
  | .finalize r => some r
  | .finalized r _ => some r
  | .flush r _ _ => some r
  | .build r _ => some r
  | .raised r _ => some r
  | .unlatchRaised r _ => some r
  | .report r _ => some r

/-- The scheduler, with the requests that the stage has noted as aborted, and the one whose `abort`
is between its two `pop`s. -/
structure State (ι P R ε : Type) where
  states : Dict ι (RequestState P)
  doneSeen : Dict ι Unit
  inbox : List (ι × IncomingMessage P ε)
  outbox : List (OutgoingMessage ι R ε)
  work : Work ι P ε
  aborted : List ι
  aborting : Option ι

section Steps

variable {ι P R ε : Type} [DecidableEq ι]

/-- The scheduler at the start. -/
def State.init : State ι P R ε := ⟨[], [], [], [], .idle, [], none⟩

namespace State

variable (d : Detokenizer P R ε) (s : State ι P R ε)

/-- The fields of a handler's state are set. -/
def update (r : ι) (state : RequestState P) : State ι P R ε :=
  { s with states := if (s.states.get r).isNone then s.states else s.states.set r state }

/-- A message is put out, and the handler goes on. -/
def put (message : OutgoingMessage ι R ε) (work : Work ι P ε) : State ι P R ε :=
  { s with outbox := s.outbox ++ [message], work := work }

/-- `_evict_idle_orphans`. -/
def evictIdleOrphans (idleMs : ℕ) (nowMs : ℤ) : State ι P R ε :=
  { s with states := s.states.filter fun entry => !entry.2.isOrphan idleMs nowMs }

/-- The check for orphans. The eviction waits for the lock. -/
def checkOrphans (nowMs : ℤ) : Option (State ι P R ε) :=
  match d.orphans with
  | none => some s
  | some (stateMax, idleMs) =>
    if stateMax < s.states.length then
      if s.aborting.isSome then none else some (s.evictIdleOrphans idleMs nowMs)
    else some s

/-- The check for orphans leaves the state of a request. -/
def Spares (nowMs : ℤ) (r : ι) : Prop :=
  ∀ stateMax idleMs, d.orphans = some (stateMax, idleMs) → stateMax < s.states.length →
    ∀ entry ∈ s.states, entry.1 = r → entry.2.isOrphan idleMs nowMs = false

/-- The handler goes on with the state that `_ensure_state` returns. -/
def use (r : ι) (state : RequestState P) (nowMs : ℤ) : Use P → State ι P R ε
  | .chunk token =>
    { s.update r { state with lastSeen := nowMs } with
      work := .decode r token { state with lastSeen := nowMs } }
  | .payload payload =>
    { s.update r { state with lastSeen := nowMs } with
      work := .arrived r payload { state with lastSeen := nowMs } }

/-- `_ensure_state`, up to the check for orphans when the state is new. -/
def ensureState (r : ι) (nowMs : ℤ) (use : Use P) : State ι P R ε :=
  match s.states.get r with
  | some state => s.use r state nowMs use
  | none =>
    { s with
      states := s.states.set r { lastSeen := nowMs }
      work := .inserted r use }

/-- `_on_stream_done`, up to the check for evictions. -/
def onStreamDone (r : ι) : State ι P R ε :=
  match s.states.get r with
  | none =>
    { s with doneSeen := s.doneSeen.set r (), work := .latched r }
  | some state =>
    { s.update r { state with done := true } with
      work := if state.payload.isSome then .finalize r else .idle }

/-- A message is handled up to the first access to the dictionaries. -/
def begin (r : ι) (nowMs : ℤ) : IncomingMessage P ε → State ι P R ε
  | .streamChunk (.error exc) => { s with work := .raised r exc }
  | .streamChunk (.ok token) => s.ensureState r nowMs (.chunk token)
  | .streamDone => s.onStreamDone r
  | .newRequest payload => s.ensureState r nowMs (.payload payload)

/-- `_on_stream_chunk` with its state. -/
def decodePending (r : ι) (token : ℕ) (state : RequestState P) : State ι P R ε :=
  let pendingTokens := state.pendingTokens ++ [token]
  match d.decode pendingTokens with
  | .error exc =>
    { s.update r { state with pendingTokens := pendingTokens } with work := .raised r exc }
  | .ok candidate =>
    if d.incomplete candidate then
      { s.update r { state with pendingTokens := pendingTokens } with work := .idle }
    else
      { s.update r { state with pendingTokens := [] } with
        work := if candidate = [] then .idle else .delta r candidate }

/-- `_on_new_request` with its state. -/
def arrive (r : ι) (payload : P) (state : RequestState P) : State ι P R ε :=
  match s.doneSeen.get r with
  | some _ =>
    { s.update r { state with payload := some payload, done := true } with work := .unlatch r }
  | none =>
    { s.update r { state with payload := some payload } with
      work := if state.done || !d.isStreaming payload then .finalize r else .idle }

/-- The evictions from `_done_seen`: one after the other, or all at once under the lock. -/
def evictDoneSeen (r : ι) (excess : ℕ) : Option (State ι P R ε) :=
  if d.locked then
    if s.aborting.isSome then none
    else
      some { s with
        doneSeen := s.doneSeen.drop (s.doneSeen.length - doneSeenEvictTo)
        work := .idle }
  else
    match excess with
    | 0 => some { s with work := .idle }
    | excess + 1 => some { s with doneSeen := s.doneSeen.drop 1, work := .evictDone r excess }

/-- `_finalize` with what its first `pop` has returned, up to the flush. -/
def finalizeWith (r : ι) (state : Option (RequestState P)) : State ι P R ε :=
  { s with
    doneSeen := s.doneSeen.pop r
    work := match state with
      | none => .idle
      | some state =>
        match state.payload with
        | none => .idle
        | some payload => .flush r payload state.pendingTokens }

/-- The next step of the handler. -/
def handle (nowMs : ℤ) : Work ι P ε → Option (State ι P R ε)
  | .idle => none
  | .start r msg => some (s.begin r nowMs msg)
  | .inserted r use => (s.checkOrphans d nowMs).map fun s => s.use r {} nowMs use
  | .decode r token state => some (s.decodePending d r token state)
  | .delta r text => some (s.put (.stream r text) .idle)
  | .arrived r payload state => some (s.arrive d r payload state)
  | .unlatch r => some { s with doneSeen := s.doneSeen.pop r, work := .finalize r }
  | .latched r =>
    if doneSeenMax < s.doneSeen.length then
      some { s with work := .evictDone r (s.doneSeen.length - doneSeenEvictTo) }
    else some { s with work := .idle }
  | .evictDone r excess => s.evictDoneSeen d r excess
  | .finalize r =>
    some { s with states := s.states.pop r, work := .finalized r (s.states.get r) }
  | .finalized r state => some (s.finalizeWith r state)
  | .flush r payload pendingTokens =>
    if pendingTokens = [] then some { s with work := .build r payload }
    else
      match d.decode pendingTokens with
      | .error exc => some { s with work := .raised r exc }
      | .ok leftover =>
        if leftover = [] then some { s with work := .build r payload }
        else some (s.put (.stream r leftover) (.build r payload))
  | .build r payload =>
    match d.buildResult payload with
    | .error exc => some { s with work := .raised r exc }
    | .ok data => some (s.put (.result r data) .idle)
  | .raised r exc => some { s with states := s.states.pop r, work := .unlatchRaised r exc }
  | .unlatchRaised r exc => some { s with doneSeen := s.doneSeen.pop r, work := .report r exc }
  | .report r exc => some (s.put (.error r exc) .idle)

end State

/-- What happens. -/
inductive Action (ι P ε : Type)
  /-- The stage puts a message into the inbox. -/
  | enqueue (r : ι) (msg : IncomingMessage P ε)
  /-- `inbox.get`. -/
  | take
  /-- The handler goes on. -/
  | work (nowMs : ℤ)
  /-- `abort` is called, and its first `pop`. -/
  | abort (r : ι)
  /-- Its second `pop`. -/
  | abortReturns

/-- The steps of both threads. The stage puts in no message of a request that it has noted as
aborted, and calls `abort` once at a time. -/
def step (d : Detokenizer P R ε) (s : State ι P R ε) : Action ι P ε → Option (State ι P R ε)
  | .enqueue r msg => if r ∈ s.aborted then none else some { s with inbox := s.inbox ++ [(r, msg)] }
  | .take =>
    match s.work, s.inbox with
    | .idle, (r, msg) :: inbox => some { s with inbox := inbox, work := .start r msg }
    | _, _ => none
  | .work nowMs => s.handle d nowMs s.work
  | .abort r =>
    match s.aborting with
    | some _ => none
    | none =>
      some { s with aborted := r :: s.aborted, states := s.states.pop r, aborting := some r }
  | .abortReturns =>
    match s.aborting with
    | none => none
    | some r => some { s with doneSeen := s.doneSeen.pop r, aborting := none }

end Steps

end Omni.Detokenize
