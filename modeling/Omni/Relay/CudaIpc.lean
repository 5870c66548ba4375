import Omni.Library.Transition
import Omni.Relay.SlotPool

/-!
# The sending side of `CudaIpcRelay`

Calls of `put_async`, the operations that they return, and the failure state. A put waits
for its slots in a task of its own, next to a task that waits for the failure of the relay.
-/

namespace Omni.Relay

/-- What `put_async` raises. -/
inductive RelayError
  | valueError (message : String)
  | slotError (error : SlotError)
  /-- `RuntimeError("cuda_ipc relay failed")`. -/
  | relayFailed
  /-- The copy into the pool, or its handles, raise. -/
  | copyFailed (message : String)
  deriving DecidableEq

/-- What ends a transfer without success. -/
inductive TransferError
  | timeout
  | receiver (message : String)
  deriving DecidableEq

/-- The task of `acquire_async` that a put has started. -/
inductive AcquireTask
  | created (call : AcquireCall)
  | asleep (call : AcquireCall)
  | awake (call : AcquireCall)
  | done (allocation : SlotAllocation)
  deriving DecidableEq

/-- `transfer_info` of the metadata. -/
structure TransferInfo where
  size : ℕ
  offset : ℕ
  slotIndex : ℕ
  slotSize : ℕ
  numSlots : ℕ
  allocationSize : ℕ
  deriving DecidableEq

/-- The future `_receiver_done`. -/
inductive ReceiverDone
  | pending
  | done
  | failed (message : String)
  | cancelled
  deriving DecidableEq

/-- How far `wait_for_completion` of an operation is. -/
inductive WaitStatus
  | idle
  | waiting
  | completed
  | ended (error : TransferError)
  | cancelled
  deriving DecidableEq

/-- `CudaIpcPutOperation`. -/
structure PutOperation where
  info : TransferInfo
  receiverDone : ReceiverDone
  status : WaitStatus
  deriving DecidableEq

/-- A call of `put_async`. -/
inductive Put
  | notCalled
  /-- In `_acquire_slots`. `failSeen`: the task that waits for the failure has ended. -/
  | acquiring (size numSlots : ℕ) (task : AcquireTask) (failSeen : Bool)
  | raised (error : RelayError)
  | cancelled
  | operation (op : PutOperation)
  deriving DecidableEq

/-- The relay. `_failed_event` is set when there is a `_failed_error`. -/
structure CudaIpcRelay where
  allocator : SlotAllocator
  puts : ℕ → Put
  putCount : ℕ
  failedError : Option TransferError

/-- The relay with a new pool. -/
def CudaIpcRelay.init (allocator : SlotAllocator) : CudaIpcRelay :=
  ⟨allocator, fun _ => .notCalled, 0, none⟩

/-- `_slots_for_size`. -/
def slotsForSize (size slotSize : ℕ) : ℕ := max 1 ((size + slotSize - 1) / slotSize)

/-- A task that waits for `_changed` is woken. -/
def AcquireTask.wake : AcquireTask → AcquireTask
  | .asleep call => .awake call
  | task => task

/-- A put whose task waits for `_changed` is woken. -/
def Put.wake : Put → Put
  | .acquiring size numSlots task failSeen => .acquiring size numSlots task.wake failSeen
  | put => put

/-- Assign to one call. -/
def CudaIpcRelay.setPut (s : CudaIpcRelay) (k : ℕ) (put : Put) : CudaIpcRelay :=
  { s with puts := Function.update s.puts k put }

/-- `allocator.release(offset, num_slots)`. -/
def CudaIpcRelay.release (s : CudaIpcRelay) (offset numSlots : ℕ) : CudaIpcRelay :=
  match s.allocator.release offset numSlots with
  | .error _ => s
  | .ok allocator => { s with
      allocator := allocator
      puts := if s.allocator.changed then s.puts else fun k => (s.puts k).wake }

/-- `_mark_failed`. -/
def CudaIpcRelay.markFailed (s : CudaIpcRelay) (error : TransferError) : CudaIpcRelay :=
  { s with failedError := s.failedError.or (some error) }

/-- What `put_async` reads of its arguments. -/
structure PutRequest where
  size : ℕ
  isCuda : Bool
  device : String
  receiverId : Option String
  /-- `comm_trace.enabled()`. -/
  traceEnabled : Bool

/-- The beginning of `put_async`, up to the tasks of `_acquire_slots`. -/
def CudaIpcRelay.beginPut (s : CudaIpcRelay) (request : PutRequest) : Put :=
  if s.failedError.isSome then .raised .relayFailed
  else if request.receiverId = none then
    .raised (.valueError "cuda_ipc put requires a receiver identity")
  else if request.isCuda = false then
    .raised (.valueError ("cuda_ipc relay can only transfer CUDA tensors; " ++
      s!"got tensor on {request.device}"))
  else
    let numSlots := slotsForSize request.size s.allocator.slotSize
    if s.allocator.slotCount < numSlots then
      .raised (.valueError (s!"Tensor size {request.size} requires {numSlots} cuda_ipc slots, " ++
        s!"but pool has {s.allocator.slotCount}"))
    else
      match s.allocator.beginAcquire numSlots request.traceEnabled with
      | .error error => .raised (.slotError error)
      | .ok call => .acquiring request.size numSlots (.created call) false

/-- A round of the task that acquires slots. -/
def CudaIpcRelay.acquireRound (s : CudaIpcRelay) (k size numSlots : ℕ) (call : AcquireCall)
    (failSeen : Bool) : CudaIpcRelay :=
  let (allocator, result) := s.allocator.acquireRound call
  { s with
    allocator := allocator
    puts := Function.update s.puts k (.acquiring size numSlots (match result with
      | .inl allocation => .done allocation
      | .inr call => .asleep call) failSeen) }

/-- The operation of a put that has its slots. -/
def CudaIpcRelay.newOperation (s : CudaIpcRelay) (size numSlots : ℕ)
    (allocation : SlotAllocation) : PutOperation where
  info := ⟨size, allocation.offset, allocation.offset / s.allocator.slotSize, s.allocator.slotSize,
    numSlots, numSlots * s.allocator.slotSize⟩
  receiverDone := .pending
  status := .idle

/-- `put_async` goes on after `asyncio.wait` in `_acquire_slots`. -/
def CudaIpcRelay.resumePut (s : CudaIpcRelay) (k size numSlots : ℕ) (task : AcquireTask)
    (failSeen : Bool) (copyError : Option String) : Option CudaIpcRelay :=
  match task with
  | .done allocation =>
    some (if failSeen ∨ s.failedError.isSome then
        (s.release allocation.offset numSlots).setPut k (.raised .relayFailed)
      else match copyError with
        | some message =>
          (s.release allocation.offset numSlots).setPut k (.raised (.copyFailed message))
        | none => s.setPut k (.operation (s.newOperation size numSlots allocation)))
  | _ => if failSeen then some (s.setPut k (.raised .relayFailed)) else none

/-- What can happen to the relay. -/
inductive RelayAction
  | put (request : PutRequest)
  /-- The task that acquires slots runs. -/
  | acquire (k : ℕ)
  /-- The task that waits for the failure ends. -/
  | seeFailure (k : ℕ)
  | resumePut (k : ℕ) (copyError : Option String)
  | cancelPut (k : ℕ)
  /-- `mark_receiver_done`. -/
  | receiverDone (k : ℕ)
  /-- `mark_receiver_failed`. -/
  | receiverFailed (k : ℕ) (message : String)
  /-- `wait_for_completion` begins. -/
  | wait (k : ℕ)
  /-- The receiver has been heard of. -/
  | complete (k : ℕ)
  | timeout (k : ℕ)
  | cancelWait (k : ℕ)

/-- `wait_for_completion` after `_receiver_done` is done. -/
def CudaIpcRelay.complete (s : CudaIpcRelay) (k : ℕ) (op : PutOperation) : Option CudaIpcRelay :=
  match op.receiverDone with
  | .done => some ((s.release op.info.offset op.info.numSlots).setPut k
      (.operation { op with status := .completed }))
  | .failed message => some ((s.setPut k (.operation { op with
      status := .ended (.receiver message) })).markFailed (.receiver message))
  | _ => none

/-- The transition function. -/
def CudaIpcRelay.step (s : CudaIpcRelay) : RelayAction → Option CudaIpcRelay
  | .put request =>
    some { s.setPut s.putCount (s.beginPut request) with putCount := s.putCount + 1 }
  | .acquire k =>
    match s.puts k with
    | .acquiring size numSlots (.created call) failSeen
    | .acquiring size numSlots (.awake call) failSeen =>
      some (s.acquireRound k size numSlots call failSeen)
    | _ => none
  | .seeFailure k =>
    match s.puts k, s.failedError with
    | .acquiring size numSlots task false, some _ =>
      some (s.setPut k (.acquiring size numSlots task true))
    | _, _ => none
  | .resumePut k copyError =>
    match s.puts k with
    | .acquiring size numSlots task failSeen =>
      s.resumePut k size numSlots task failSeen copyError
    | _ => none
  | .cancelPut k =>
    match s.puts k with
    | .acquiring .. => some (s.setPut k .cancelled)
    | _ => none
  | .receiverDone k =>
    match s.puts k with
    | .operation op => some (if op.receiverDone = .pending then
        s.setPut k (.operation { op with receiverDone := .done }) else s)
    | _ => none
  | .receiverFailed k message =>
    match s.puts k with
    | .operation op => some (if op.receiverDone = .pending then
        s.setPut k (.operation { op with receiverDone := .failed message }) else s)
    | _ => none
  | .wait k =>
    match s.puts k with
    | .operation op => if op.status = .idle then
        some (s.setPut k (.operation { op with status := .waiting })) else none
    | _ => none
  | .complete k =>
    match s.puts k with
    | .operation op => if op.status = .waiting then s.complete k op else none
    | _ => none
  | .timeout k =>
    match s.puts k with
    | .operation op => if op.status = .waiting ∧ op.receiverDone = .pending then
        some ((s.setPut k (.operation { op with
          receiverDone := .cancelled, status := .ended .timeout })).markFailed .timeout) else none
    | _ => none
  | .cancelWait k =>
    match s.puts k with
    | .operation op => if op.status = .waiting ∧ op.receiverDone = .pending then
        some (s.setPut k (.operation { op with
          receiverDone := .cancelled, status := .cancelled })) else none
    | _ => none

end Omni.Relay
