import Omni.Comm.Payload

/-!
# Payloads through shared memory

`write_payload` and `read_payload` of `stage_io.py` over `ShmRelay`. Pickling, base64 and the
copy into and out of the shared block return what was put in.
-/

namespace Omni.Comm

/-- What a tensor is made of: its bytes in the order of `contiguous()`, the size of an
element, and the last stride of `contiguous()`. -/
structure Storage where
  bytes : List UInt8
  elementSize : ℕ
  lastStride : ℕ
  deriving DecidableEq

/-- What writing or reading raises. -/
inductive PayloadError
  /-- `self.dim() cannot be 0 to view` as bytes. -/
  | zeroDim
  /-- `self.stride(-1) must be 1 to view` as bytes. -/
  | stride (lastStride : ℕ)
  /-- A slice of the buffer cannot be viewed with the dtype, or has not the given shape. -/
  | view
  | valueError (message : String)
  | keyError (message : String)
  deriving DecidableEq

/-- `_TORCH_DTYPES`, with the sizes of the elements. -/
def torchDtypes : List (String × ℕ) :=
  [("torch.bool", 1), ("torch.uint8", 1), ("torch.int8", 1), ("torch.int16", 2),
    ("torch.int32", 4), ("torch.int64", 8), ("torch.float16", 2), ("torch.bfloat16", 2),
    ("torch.float32", 4), ("torch.float64", 8), ("torch.complex64", 8), ("torch.complex128", 16)]

/-- `_torch_dtype`, as the size of an element. -/
def torchDtype (dtype : String) : Except PayloadError ℕ :=
  match torchDtypes.lookup dtype with
  | some elementSize => .ok elementSize
  | none => .error (.valueError s!"unsupported tensor dtype metadata: '{dtype}'")

/-- `tensor.contiguous().view(torch.uint8).reshape(-1)`. -/
def byteView (tensor : Tensor Storage) : Except PayloadError (List UInt8) :=
  if tensor.data.elementSize = 1 then .ok tensor.data.bytes
  else if tensor.shape = [] then .error .zeroDim
  else if tensor.data.lastStride ≠ 1 then .error (.stride tensor.data.lastStride)
  else .ok tensor.data.bytes

/-- `_dtype_alignment`. -/
def dtypeAlignment (elementSize : ℕ) : ℕ := max elementSize 1

/-- `_pad_offset`: `(-offset) % alignment`. -/
def padOffset (offset alignment : ℕ) : ℕ := ((-(offset : ℤ)) % (alignment : ℤ)).toNat

/-- `TensorMeta`. -/
structure TensorMeta where
  path : String
  shape : List ℕ
  dtype : String
  device : String
  offset : ℕ
  size : ℕ
  deriving DecidableEq

/-- The variables of `_pack_tensors`. -/
structure Packing where
  entries : List TensorMeta
  chunks : List (List UInt8)
  offset : ℕ

/-- One turn of the loop of `_pack_tensors`. -/
def Packing.add (packing : Packing) (path : String) (tensor : Tensor Storage) :
    Except PayloadError Packing := do
  let flat ← byteView tensor
  let padding := padOffset packing.offset (dtypeAlignment tensor.data.elementSize)
  let chunks := if padding = 0 then packing.chunks
    else packing.chunks ++ [List.replicate padding 0]
  let offset := packing.offset + padding
  .ok ⟨packing.entries ++ [{ tensor with path := path, offset := offset, size := flat.length }],
    chunks ++ [flat], offset + flat.length⟩

/-- The loop of `_pack_tensors`. -/
def packLoop : Packing → List (String × Tensor Storage) → Except PayloadError Packing
  | packing, [] => .ok packing
  | packing, (path, tensor) :: rest => do
    let packing ← packing.add path tensor
    packLoop packing rest

/-- `_pack_tensors`. -/
def packTensors (tensors : List (String × Tensor Storage)) :
    Except PayloadError (List UInt8 × List TensorMeta) := do
  let packing ← packLoop ⟨[], [], 0⟩ tensors
  .ok ((if packing.chunks = [] then [0] else packing.chunks.flatten), packing.entries)

/-- `shm_create_from_tensor`: a shared block with the bytes of the tensor. -/
def shmCreateFromTensor (bytes : List UInt8) : Except PayloadError (List UInt8) :=
  if bytes.length = 0 then
    .error (.valueError "'size' must be a positive number different from zero")
  else .ok bytes

/-- `DataKind`. -/
inductive DataKind
  | stagePayload
  | streamChunk
  | streamMetadataTensor
  | kvPages
  | weightBucket
  | moeExpertPayload
  deriving DecidableEq

/-- The values of `DataKind`. -/
def DataKind.value : DataKind → String
  | .stagePayload => "stage_payload"
  | .streamChunk => "stream_chunk"
  | .streamMetadataTensor => "stream_metadata_tensor"
  | .kvPages => "kv_pages"
  | .weightBucket => "weight_bucket"
  | .moeExpertPayload => "moe_expert_payload"

/-- `StagePayload`. -/
structure StagePayload (R D L : Type) where
  requestId : String
  request : R
  data : Tree D L

/-- `DataRef` with the `BackendRef` of a shared block: its contents stand for its name. -/
structure DataRef (R L : Type) where
  objectId : String
  kind : DataKind
  block : List UInt8
  length : ℕ
  header : Option (StagePayload R Storage L)
  tensors : List TensorMeta

variable {D L R : Type}

mutual

/-- `restore_tensors`. -/
def restoreTensors (tensors : List (String × Tensor D)) :
    Tree D L → Except PayloadError (Tree D L)
  | .dict entries =>
    match entries.lookup "_tensor_placeholder" with
    | some (.str path) =>
      match tensors.lookup path with
      | some tensor => .ok (.tensor tensor)
      | none => .error (.keyError s!"missing tensor payload for placeholder '{path}'")
    | some _ => .error (.keyError "missing tensor payload for placeholder")
    | none => do
      let entries ← restoreEntries tensors entries
      .ok (.dict entries)
  | .list items => do
    let items ← restoreItems tensors items
    .ok (.list items)
  | .tuple items => do
    let items ← restoreItems tensors items
    .ok (.tuple items)
  | .tensor value => .ok (.tensor value)
  | .str value => .ok (.str value)
  | .int value => .ok (.int value)
  | .other value => .ok (.other value)

/-- The values of a dictionary. -/
def restoreEntries (tensors : List (String × Tensor D)) :
    List (String × Tree D L) → Except PayloadError (List (String × Tree D L))
  | [] => .ok []
  | (key, value) :: rest => do
    let value ← restoreTensors tensors value
    let rest ← restoreEntries tensors rest
    .ok ((key, value) :: rest)

/-- The items of a list or a tuple. -/
def restoreItems (tensors : List (String × Tensor D)) :
    List (Tree D L) → Except PayloadError (List (Tree D L))
  | [] => .ok []
  | value :: rest => do
    let value ← restoreTensors tensors value
    let rest ← restoreItems tensors rest
    .ok (value :: rest)

end

/-- `write_payload` over `ShmRelay`. -/
def writePayload (requestId : String) (payload : StagePayload R Storage L)
    (fromStage toStage : Option String) : Except PayloadError (DataRef R L) := do
  let (dataWithoutTensors, tensors) := extractTensors payload.data ""
  let (packed, entries) ← packTensors tensors
  let block ← shmCreateFromTensor packed
  let source := fromStage.getD ""
  let target := toStage.getD ""
  .ok { objectId := s!"{requestId}:payload:{source}:{target}"
        kind := .stagePayload
        block := block
        length := block.length
        header := some ⟨payload.requestId, payload.request, dataWithoutTensors⟩
        tensors := entries }

/-- `_read_transfer_buffer`: a buffer of zeros into which the block is copied. -/
def readTransferBuffer (ref : DataRef R L) : Except PayloadError (List UInt8) :=
  if ref.length < ref.block.length then
    .error (.valueError (s!"SHM destination has {ref.length} bytes, " ++
      s!"but transfer requires {ref.block.length} bytes"))
  else .ok (ref.block ++ List.replicate (ref.length - ref.block.length) 0)

/-- The tensor of one entry: a slice of the buffer with its dtype and shape. It stays on the
CPU, where the buffer is, whatever `_restore_tensor_device` is told. -/
def readEntry (buffer : List UInt8) (entry : TensorMeta) :
    Except PayloadError (Tensor Storage) := do
  let elementSize ← torchDtype entry.dtype
  let slice := (buffer.drop entry.offset).take entry.size
  if elementSize ≠ 1 ∧ (slice.length % elementSize ≠ 0 ∨ entry.offset % elementSize ≠ 0) then
    .error .view
  else if slice.length ≠ entry.shape.prod * elementSize then .error .view
  else .ok ⟨entry.shape, entry.dtype, "cpu", ⟨slice, elementSize, 1⟩⟩

/-- The dictionary of the tensors of all entries. -/
def readEntries (buffer : List UInt8) : List (String × Tensor Storage) → List TensorMeta →
    Except PayloadError (List (String × Tensor Storage))
  | tensors, [] => .ok tensors
  | tensors, entry :: rest => do
    let tensor ← readEntry buffer entry
    readEntries buffer (assign tensors entry.path tensor) rest

/-- `read_payload` over `ShmRelay`. -/
def readPayload (ref : DataRef R L) : Except PayloadError (StagePayload R Storage L) := do
  if ref.kind ≠ .stagePayload then
    .error (.valueError s!"expected stage_payload, got {ref.kind.value}")
  match ref.header with
  | none => .error (.valueError "stage_payload data_ref is missing header")
  | some header =>
    let buffer ← readTransferBuffer ref
    let tensors ← readEntries buffer [] ref.tensors
    let data ← restoreTensors tensors header.data
    .ok ⟨header.requestId, header.request, data⟩

end Omni.Comm
