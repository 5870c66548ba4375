import Omni.Library.Transition
import Mathlib.Data.List.Basic

/-!
# Speech endpoints

The handlers of the streamed, the single and the batch speech endpoint, with the tasks that they
create and the body of the streamed response. A step goes from one await to the next; at each await
a handler can be cancelled, the client can disconnect and a task can go on. Waits with a timeout
can end at any time. `client.abort` is taken to return, and closing a chunk generator does not
suspend.
-/

namespace Omni.Serve

open Transition

/-- A task that is done, or not, with `cancelling` once `cancel()` has been called on it. -/
inductive Task
  | pending (cancelling : Bool)
  | done
  deriving DecidableEq

/-- `task.cancel()`. -/
def Task.cancel : Task → Task
  | .pending _ => .pending true
  | .done => .done

/-- The task is done or has been cancelled. -/
def Task.settled (task : Task) : Bool := task != .pending false

/-- Where the chunk generator stands: not started, running in an `anext`, at a `yield`, or closed
or exhausted. -/
inductive Generator
  | unstarted
  | running
  | suspended
  | finished
  deriving DecidableEq

/-- What an `anext` of the chunk generator leads to: a chunk without audio bytes, with audio bytes,
or one whose conversion raises, the end, a raise, or a cancellation. -/
inductive Outcome
  | silent
  | audio
  | unusable
  | stop
  | error
  | cancelled
  deriving DecidableEq

/-- Where `_speech_audio_response` stands. `abort` is the `client.abort` after a disconnect and
`abortExcept` that of the `except` clauses; `ok` says whether the `try` block has succeeded. -/
inductive StreamPoint
  | wait
  | cancelChunk
  | abort
  | abortExcept
  | finallyChunk (ok : Bool)
  | finallyWatch (ok : Bool)
  | returned
  | raised
  deriving DecidableEq

/-- Where `_body` stands. -/
inductive BodyPoint
  | absent
  | unstarted
  | atYield
  | awaiting
  | abort
  | completed
  deriving DecidableEq

/-- The streamed endpoint: the handler, the body, the generator, `next_chunk_task` with its
outcome, `disconnect_task`, and whether the request has been submitted to the pipeline, has ended
there, and has been aborted. -/
structure Streamed where
  handler : StreamPoint
  body : BodyPoint
  generator : Generator
  chunkTask : Task
  chunkResult : Outcome
  disconnectTask : Task
  submitted : Bool
  ended : Bool
  aborted : Bool
  deriving DecidableEq

namespace Streamed

/-- `_speech_audio_response` at its first `asyncio.wait`. -/
def init : Streamed :=
  ⟨.wait, .absent, .unstarted, .pending false, .silent, .pending false, false, false, false⟩

/-- `client.abort` is called from here. -/
def callAbort (s : Streamed) (point : StreamPoint) : Streamed :=
  { s with handler := point, aborted := true }

/-- `chunk_stream.aclose()`, which raises while the generator is running. -/
def close (s : Streamed) : Streamed :=
  { s with generator := if s.generator = .running then .running else .finished }

/-- The end of the handler. -/
def leave (s : Streamed) (ok : Bool) : Streamed :=
  if ok then { s with handler := .returned, body := .unstarted } else { s with handler := .raised }

/-- The `finally` block from its second test. -/
def finallyDisconnect (s : Streamed) (ok : Bool) : Streamed :=
  if s.disconnectTask = .done then s.leave ok
  else { s with disconnectTask := s.disconnectTask.cancel, handler := .finallyWatch ok }

/-- The `finally` block. -/
def enterFinally (s : Streamed) (ok : Bool) : Streamed :=
  if s.chunkTask = .done then s.finallyDisconnect ok
  else { s with chunkTask := s.chunkTask.cancel, handler := .finallyChunk ok }

/-- The `try` block after `next_chunk_task` has ended first. -/
def takeChunk (s : Streamed) : Streamed :=
  match s.chunkResult with
  | .silent => { s with chunkTask := .pending false }
  | .audio => s.enterFinally true
  | .stop => s.close.enterFinally false
  | .unusable | .error | .cancelled => s.callAbort .abortExcept

/-- The handler goes on from its await. -/
def resume (s : Streamed) : Option Streamed :=
  match s.handler with
  | .wait =>
    if s.disconnectTask = .done then
      if s.chunkTask = .done then some (s.callAbort .abort)
      else some { s with chunkTask := s.chunkTask.cancel, handler := .cancelChunk }
    else if s.chunkTask = .done then some s.takeChunk
    else none
  | .cancelChunk => some (s.callAbort .abort)
  | .abort =>
    if s.generator = .running then some (s.callAbort .abortExcept)
    else some (s.close.enterFinally false)
  | .abortExcept => some (s.close.enterFinally false)
  | .finallyChunk ok => some (s.finallyDisconnect ok)
  | .finallyWatch ok => some (s.leave ok)
  | .returned | .raised => none

/-- The handler is cancelled at its await. -/
def cancel (s : Streamed) : Option Streamed :=
  match s.handler with
  | .wait | .cancelChunk => some (s.callAbort .abortExcept)
  | .abort => some (s.close.callAbort .abortExcept)
  | .abortExcept => some (s.close.enterFinally false)
  | .finallyChunk _ | .finallyWatch _ => some { s with handler := .raised }
  | .returned | .raised => none

/-- A step of the generator to its next `yield` or its end. -/
def yieldOutcome (s : Streamed) (outcome : Outcome) : Streamed :=
  match outcome with
  | .silent | .audio | .unusable => { s with generator := .suspended }
  | .stop => { s with generator := .finished, ended := true }
  | .error | .cancelled => { s with generator := .finished }

/-- A step of `next_chunk_task`: it begins its `anext`, or ends. -/
def chunkStep (s : Streamed) (outcome : Outcome) : Option Streamed :=
  match s.chunkTask with
  | .done => none
  | .pending cancelling =>
    match s.generator with
    | .running =>
      let outcome := if cancelling then .cancelled else outcome
      some { s.yieldOutcome outcome with chunkTask := .done, chunkResult := outcome }
    | .finished => some { s with chunkTask := .done, chunkResult := .stop }
    | .unstarted | .suspended =>
      if cancelling then some { s with chunkTask := .done, chunkResult := .cancelled }
      else some { s with generator := .running, submitted := true }

/-- The consumer of the body asks for the next bytes. -/
def bodyNext (s : Streamed) : Option Streamed :=
  match s.body with
  | .unstarted => some { s with body := .atYield }
  | .atYield => some { s with body := .awaiting, generator := .running }
  | _ => none

/-- The chunk generator goes on under the body. -/
def bodyChunk (s : Streamed) (outcome : Outcome) : Option Streamed :=
  match s.body with
  | .awaiting =>
    some (match outcome with
      | .silent => s
      | .audio => { s.yieldOutcome .audio with body := .atYield }
      | .stop => { s.yieldOutcome .stop with body := .completed }
      | .unusable | .error | .cancelled =>
        { s.yieldOutcome outcome with body := .abort, aborted := true })
  | _ => none

/-- The body is closed at a `yield`, or before it has been started. -/
def bodyClose (s : Streamed) : Option Streamed :=
  match s.body with
  | .unstarted => some { s with body := .completed }
  | .atYield => some { s with body := .abort, aborted := true }
  | _ => none

/-- `client.abort` returns to the body or is cancelled there. -/
def bodyResume (s : Streamed) : Option Streamed :=
  match s.body with
  | .abort => some { s.close with body := .completed }
  | _ => none

/-- The handler has ended, and so has the body of a response that it has returned. -/
def isOver (s : Streamed) : Bool :=
  s.handler = .raised ∨ s.handler = .returned ∧ s.body = .completed

/-- The request has ended or has been aborted, the generator is closed or is being closed by the
cancellation of `next_chunk_task`, and no task is left that has not been cancelled. -/
structure Released (s : Streamed) : Prop where
  request : s.submitted = true → s.ended = true ∨ s.aborted = true
  generator : s.generator = .finished ∨ s.generator = .running ∧ s.chunkTask = .pending true
  chunkTask : s.chunkTask.settled = true
  disconnectTask : s.disconnectTask.settled = true

instance (s : Streamed) : Decidable s.Released :=
  decidable_of_iff ((s.submitted = true → s.ended = true ∨ s.aborted = true) ∧
    (s.generator = .finished ∨ s.generator = .running ∧ s.chunkTask = .pending true) ∧
    s.chunkTask.settled = true ∧ s.disconnectTask.settled = true)
    ⟨fun ⟨h, h', h'', h'''⟩ => ⟨h, h', h'', h'''⟩, fun h => ⟨h.1, h.2, h.3, h.4⟩⟩

end Streamed

/-- The steps of the streamed endpoint. -/
inductive StreamedAction
  | resume
  | cancel
  | chunk (outcome : Outcome)
  | disconnectTask
  | finish
  | bodyNext
  | bodyChunk (outcome : Outcome)
  | bodyClose
  | bodyResume
  deriving DecidableEq

/-- The transition function of the streamed endpoint. `disconnect_task` ends when it sees the
disconnect or is cancelled, and `finish` ends the request in the pipeline. -/
def Streamed.step (s : Streamed) : StreamedAction → Option Streamed
  | .resume => s.resume
  | .cancel => s.cancel
  | .chunk outcome => s.chunkStep outcome
  | .disconnectTask =>
    if s.disconnectTask = .done then none else some { s with disconnectTask := .done }
  | .finish => if s.submitted then some { s with ended := true } else none
  | .bodyNext => s.bodyNext
  | .bodyChunk outcome => s.bodyChunk outcome
  | .bodyClose => s.bodyClose
  | .bodyResume => s.bodyResume

/-- The body is not closed before it has been started, and the handler is not cancelled in the
`finally` block after success, nor there before `disconnect_task` has been cancelled. -/
def Streamed.Spared (s : Streamed) : StreamedAction → Prop
  | .cancel => s.handler ≠ .finallyWatch true ∧
      ∀ ok, s.handler = .finallyChunk ok → s.disconnectTask = .done
  | .bodyClose => s.body ≠ .unstarted
  | _ => True

instance (s : Streamed) : DecidablePred s.Spared
  | .cancel => inferInstanceAs (Decidable (s.handler ≠ .finallyWatch true ∧
      ∀ ok, s.handler = .finallyChunk ok → s.disconnectTask = .done))
  | .bodyClose => inferInstanceAs (Decidable (s.body ≠ .unstarted))
  | .resume | .chunk _ | .disconnectTask | .finish | .bodyNext | .bodyChunk _ | .bodyResume =>
    isTrue trivial

/-- Where `client.speech` stands in its task: not begun, waiting for the result of the request, or
encoding it. -/
inductive SpeechPoint
  | unstarted
  | generating
  | encoding
  deriving DecidableEq

/-- Where `_await_speech_response` stands. -/
inductive SinglePoint
  | wait
  | abort
  | abortExcept
  | finallySpeech
  | finallyDisconnect
  | completed
  deriving DecidableEq

/-- The single endpoint: the handler, `speech_task`, `disconnect_task` and the request. -/
structure Single where
  handler : SinglePoint
  speech : SpeechPoint
  speechTask : Task
  disconnectTask : Task
  submitted : Bool
  ended : Bool
  aborted : Bool
  deriving DecidableEq

namespace Single

/-- `_await_speech_response` at its `asyncio.wait`. -/
def init : Single := ⟨.wait, .unstarted, .pending false, .pending false, false, false, false⟩

/-- `client.abort` is called from here. -/
def callAbort (s : Single) (point : SinglePoint) : Single :=
  { s with handler := point, aborted := true }

/-- The `finally` block from its second test. -/
def finallyDisconnect (s : Single) : Single :=
  if s.disconnectTask = .done then { s with handler := .completed }
  else { s with disconnectTask := s.disconnectTask.cancel, handler := .finallyDisconnect }

/-- The `finally` block. -/
def enterFinally (s : Single) : Single :=
  if s.speechTask = .done then s.finallyDisconnect
  else { s with speechTask := s.speechTask.cancel, handler := .finallySpeech }

/-- The handler goes on from its await. -/
def resume (s : Single) : Option Single :=
  match s.handler with
  | .wait =>
    if s.speechTask = .done then some s.enterFinally
    else if s.disconnectTask = .done then some (s.callAbort .abort)
    else none
  | .abort => some { s with speechTask := s.speechTask.cancel }.enterFinally
  | .abortExcept => some s.enterFinally
  | .finallySpeech => some s.finallyDisconnect
  | .finallyDisconnect => some { s with handler := .completed }
  | .completed => none

/-- The handler is cancelled at its await. -/
def cancel (s : Single) : Option Single :=
  match s.handler with
  | .wait | .abort => some (s.callAbort .abortExcept)
  | .abortExcept => some s.enterFinally
  | .finallySpeech | .finallyDisconnect => some { s with handler := .completed }
  | .completed => none

/-- A step of `speech_task`. It raises only when its request has failed or could not be submitted,
or in the encoding. A cancellation goes through the chunk generator, which ends with it. -/
def speechStep (s : Single) (raises : Bool) : Option Single :=
  match s.speechTask with
  | .done => none
  | .pending cancelling =>
    if cancelling then some { s with speechTask := .done }
    else
      match s.speech with
      | .unstarted => some { s with speech := .generating, submitted := true }
      | .generating =>
        if raises then some { s with speechTask := .done, ended := true }
        else some { s with speech := .encoding, ended := true }
      | .encoding => some { s with speechTask := .done }

/-- The request has ended or has been aborted, and no task is left that has not been cancelled.
The chunk generator is part of `speech_task` and ends with it. -/
structure Released (s : Single) : Prop where
  request : s.submitted = true → s.ended = true ∨ s.aborted = true
  speechTask : s.speechTask.settled = true
  disconnectTask : s.disconnectTask.settled = true

end Single

/-- The steps of the single endpoint. -/
inductive SingleAction
  | resume
  | cancel
  | speech (raises : Bool)
  | disconnectTask
  | finish
  deriving DecidableEq

/-- The transition function of the single endpoint. -/
def Single.step (s : Single) : SingleAction → Option Single
  | .resume => s.resume
  | .cancel => s.cancel
  | .speech raises => s.speechStep raises
  | .disconnectTask =>
    if s.disconnectTask = .done then none else some { s with disconnectTask := .done }
  | .finish => if s.submitted then some { s with ended := true } else none

/-- The handler is not cancelled in the `finally` block before `disconnect_task` is cancelled. -/
def Single.Spared (s : Single) : SingleAction → Prop
  | .cancel => s.handler = .finallySpeech → s.disconnectTask = .done
  | _ => True

instance (s : Single) : DecidablePred s.Spared
  | .cancel => inferInstanceAs (Decidable (s.handler = .finallySpeech → s.disconnectTask = .done))
  | .resume | .speech _ | .disconnectTask | .finish => isTrue trivial

/-- An item of a batch: its task, the task that it has created for its reference, and its request.
`speaking` says that the item has its reference and has submitted its request. -/
structure Item where
  task : Task
  reference : Option Task
  speaking : Bool
  ended : Bool
  aborted : Bool
  deriving DecidableEq

namespace Item

/-- `task.cancel()`, which also cancels the reference that the item waits for. -/
def cancel (item : Item) : Item :=
  { item with
    task := item.task.cancel
    reference :=
      if item.task = .done ∨ item.speaking = true then item.reference
      else item.reference.map Task.cancel }

/-- A step of an item's task. It needs its reference to go on; a shared one is created by another
item. It ends by a raise before its request has been submitted, or with its request. -/
def work (item : Item) (raises : Bool) : Option Item :=
  match item.task with
  | .done => none
  | .pending cancelling =>
    if cancelling then some { item with task := .done }
    else if item.speaking then some { item with task := .done, ended := true }
    else if item.reference.any (· ≠ .done) then none
    else if raises then some { item with task := .done }
    else some { item with speaking := true }

/-- A step of an item's reference task to its end. -/
def refer (item : Item) : Option Item :=
  match item.reference with
  | some (.pending _) => some { item with reference := some .done }
  | _ => none

/-- The item creates its reference task. -/
def create (item : Item) : Option Item :=
  if item.task = .pending false ∧ item.reference = none ∧ item.speaking = false then
    some { item with reference := some (.pending false) }
  else none

/-- The request has ended or has been aborted, and no task is left that has not been cancelled. -/
structure Released (item : Item) : Prop where
  request : item.speaking = true → item.ended = true ∨ item.aborted = true
  task : item.task.settled = true
  reference : ∀ task ∈ item.reference, task.settled = true

end Item

/-- Where `create_speech_batch` stands: not begun, waiting for its items, or in
`_cancel_batch_items`, where it waits for them again and aborts their requests. -/
inductive BatchTaskPoint
  | unstarted
  | gathering
  | regathering
  | aborting (item : ℕ)
  | done
  deriving DecidableEq

/-- Where `_create_speech_batch_with_disconnect_watch` stands. -/
inductive BatchPoint
  | wait
  | awaiting
  | finallyDisconnect
  | completed
  deriving DecidableEq

/-- The batch endpoint for as many items. `cancelling` says that `batch_task` has been cancelled
and has not got its `CancelledError` yet. -/
structure Batch where
  size : ℕ
  handler : BatchPoint
  batchTask : BatchTaskPoint
  cancelling : Bool
  disconnectTask : Task
  items : List Item
  deriving DecidableEq

namespace Batch

/-- `_create_speech_batch_with_disconnect_watch` at its `asyncio.wait`. -/
def init (size : ℕ) : Batch := ⟨size, .wait, .unstarted, false, .pending false, []⟩

/-- `batch_task.cancel()`. At its `gather` it cancels the items. -/
def cancelBatchTask (s : Batch) : Batch :=
  match s.batchTask with
  | .done => s
  | .gathering => { s with cancelling := true, items := s.items.map Item.cancel }
  | _ => { s with cancelling := true }

/-- The `finally` block. -/
def enterFinally (s : Batch) : Batch :=
  if s.disconnectTask = .done then { s with handler := .completed }
  else { s with disconnectTask := s.disconnectTask.cancel, handler := .finallyDisconnect }

/-- The handler goes on from its await. -/
def resume (s : Batch) : Option Batch :=
  match s.handler with
  | .wait =>
    if s.batchTask = .done then some s.enterFinally
    else if s.disconnectTask = .done then some { s.cancelBatchTask with handler := .awaiting }
    else none
  | .awaiting => if s.batchTask = .done then some s.enterFinally else none
  | .finallyDisconnect => some { s with handler := .completed }
  | .completed => none

/-- The handler is cancelled at its await. While it waits for `batch_task` alone, this cancels
`batch_task`, and the handler goes on when that is done. -/
def cancel (s : Batch) : Option Batch :=
  match s.handler with
  | .wait => some s.enterFinally
  | .awaiting => if s.batchTask = .done then some s.enterFinally else some s.cancelBatchTask
  | .finallyDisconnect => some { s with handler := .completed }
  | .completed => none

/-- `client.abort` of an item is called, or there are no more items. -/
def abortItem (s : Batch) (item : ℕ) : Batch :=
  if item < s.items.length then
    { s with
      batchTask := .aborting item
      items := s.items.modify item fun item => { item with aborted := true } }
  else { s with batchTask := .done }

/-- A step of `batch_task`. -/
def batchStep (s : Batch) : Option Batch :=
  match s.batchTask with
  | .unstarted =>
    if s.cancelling then some { s with batchTask := .done, cancelling := false }
    else some { s with
      batchTask := if s.size = 0 then .done else .gathering
      items := List.replicate s.size ⟨.pending false, none, false, false, false⟩ }
  | .gathering =>
    if s.items.all fun item => item.task = .done then
      if s.cancelling then some { s with batchTask := .regathering, cancelling := false }
      else some { s with batchTask := .done }
    else none
  | .regathering =>
    if s.cancelling then some { s with batchTask := .done, cancelling := false }
    else some (s.abortItem 0)
  | .aborting item =>
    if s.cancelling then some { s with batchTask := .done, cancelling := false }
    else some (s.abortItem (item + 1))
  | .done => none

/-- An item takes a step. -/
def atItem (s : Batch) (i : ℕ) (step : Item → Option Item) : Option Batch :=
  (s.items[i]?.bind step).map fun item => { s with items := s.items.set i item }

/-- All requests have ended or have been aborted, and no task is left that has not been
cancelled. -/
structure Released (s : Batch) : Prop where
  items : ∀ item ∈ s.items, item.Released
  batchTask : s.batchTask = .done
  disconnectTask : s.disconnectTask.settled = true

end Batch

/-- The steps of the batch endpoint. -/
inductive BatchAction
  | resume
  | cancel
  | batch
  | work (item : ℕ) (raises : Bool)
  | create (item : ℕ)
  | refer (item : ℕ)
  | disconnectTask
  | finish (item : ℕ)
  deriving DecidableEq

/-- The transition function of the batch endpoint. -/
def Batch.step (s : Batch) : BatchAction → Option Batch
  | .resume => s.resume
  | .cancel => s.cancel
  | .batch => s.batchStep
  | .work i raises => s.atItem i fun item => item.work raises
  | .create i => s.atItem i Item.create
  | .refer i => s.atItem i Item.refer
  | .disconnectTask =>
    if s.disconnectTask = .done then none else some { s with disconnectTask := .done }
  | .finish i => s.atItem i fun item =>
      if item.speaking then some { item with ended := true } else none

/-- The handler is not cancelled at its first wait before `batch_task` is done, and not while
`batch_task` has requests left to abort. -/
def Batch.Spared (s : Batch) : BatchAction → Prop
  | .cancel => (s.handler = .wait → s.batchTask = .done) ∧
      (s.handler = .awaiting → s.batchTask ≠ .regathering ∧
        ∀ item, s.batchTask = .aborting item → item + 1 = s.items.length)
  | _ => True

instance (s : Batch) : Decidable (∀ item, s.batchTask = .aborting item →
    item + 1 = s.items.length) :=
  match hpoint : s.batchTask with
  | .aborting k => decidable_of_iff (k + 1 = s.items.length)
      ⟨fun h item hitem => by cases hitem; exact h, fun h => h k rfl⟩
  | .unstarted | .gathering | .regathering | .done => isTrue nofun

instance (s : Batch) : DecidablePred s.Spared
  | .cancel => inferInstanceAs (Decidable ((s.handler = .wait → s.batchTask = .done) ∧
      (s.handler = .awaiting → s.batchTask ≠ .regathering ∧
        ∀ item, s.batchTask = .aborting item → item + 1 = s.items.length)))
  | .resume | .batch | .work _ _ | .create _ | .refer _ | .disconnectTask | .finish _ =>
    isTrue trivial

/-- A handler of one of the endpoints. -/
inductive Endpoint
  | streamed (s : Streamed)
  | single (s : Single)
  | batch (s : Batch)
  deriving DecidableEq

/-- A step of one of the endpoints. -/
inductive Action
  | streamed (a : StreamedAction)
  | single (a : SingleAction)
  | batch (a : BatchAction)

/-- The transition function. -/
def step : Endpoint → Action → Option Endpoint
  | .streamed s, .streamed a => (s.step a).map .streamed
  | .single s, .single a => (s.step a).map .single
  | .batch s, .batch a => (s.step a).map .batch
  | _, _ => none

/-- No cancellation of a handler and no closing of a body falls into a gap. -/
def Spared : Endpoint → Action → Prop
  | .streamed s, .streamed a => s.Spared a
  | .single s, .single a => s.Spared a
  | .batch s, .batch a => s.Spared a
  | _, _ => True

instance : ∀ (e : Endpoint) (a : Action), Decidable (Spared e a)
  | .streamed s, .streamed a => inferInstanceAs (Decidable (s.Spared a))
  | .single s, .single a => inferInstanceAs (Decidable (s.Spared a))
  | .batch s, .batch a => inferInstanceAs (Decidable (s.Spared a))
  | .streamed _, .single _ | .streamed _, .batch _ | .single _, .streamed _ |
    .single _, .batch _ | .batch _, .streamed _ | .batch _, .single _ => isTrue trivial

/-- The endpoint has just been called. -/
inductive Called : Endpoint → Prop
  | streamed : Called (.streamed .init)
  | single : Called (.single .init)
  | batch (size : ℕ) : Called (.batch (.init size))

/-- The handler has ended, and its response is not used any more. -/
def Endpoint.Over : Endpoint → Prop
  | .streamed s => s.isOver = true
  | .single s => s.handler = .completed
  | .batch s => s.handler = .completed

/-- Every request submitted has ended or has been aborted, the chunk generator is closed, and no
task is left that has not been cancelled. -/
def Endpoint.Released : Endpoint → Prop
  | .streamed s => s.Released
  | .single s => s.Released
  | .batch s => s.Released

end Omni.Serve
