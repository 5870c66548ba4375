import Mathlib.Data.String.Basic

/-!
# Metadata of direct CUDA-IPC streams

`_serialize_direct_ipc_metadata_value` and `deserialize_direct_ipc_metadata` of `stage_io.py`.
Tensors and tuples become dictionaries with one key. Pickling is a parameter.
-/

namespace Omni.Comm.DirectIpcMetadata

/-- A key of a dictionary. -/
inductive Key (K : Type)
  | str (value : String)
  | other (value : K)
  deriving DecidableEq

/-- A metadata value. A dictionary has each of its keys once. -/
inductive Metadata (K T L : Type)
  | tensor (value : T)
  | bytes (value : List UInt8)
  | leaf (value : L)
  | dict (entries : List (Key K × Metadata K T L))
  | list (items : List (Metadata K T L))
  | tuple (items : List (Metadata K T L))

/-- `_ipc_pickle` of a tensor, and `pickle.loads`. -/
structure Pickle (T ε : Type) where
  ipcPickle : T → List UInt8
  loads : List UInt8 → Except ε T

/-- What `deserialize_direct_ipc_metadata` raises. -/
inductive IpcError (ε : Type)
  | typeError (message : String)
  | pickle (error : ε)
  deriving DecidableEq

variable {K T L ε : Type} [DecidableEq K] (p : Pickle T ε)

/-- The key of tensors. -/
def ipcTensor : Key K := .str "_ipc_tensor"

/-- The key of tuples. -/
def ipcTuple : Key K := .str "_ipc_tuple"

mutual

/-- `_serialize_direct_ipc_metadata_value`. -/
def serializeValue : Metadata K T L → Metadata K T L
  | .tensor value => .dict [(ipcTensor, .bytes (p.ipcPickle value))]
  | .dict entries => .dict (serializeEntries entries)
  | .list items => .list (serializeItems items)
  | .tuple items => .dict [(ipcTuple, .list (serializeItems items))]
  | .bytes value => .bytes value
  | .leaf value => .leaf value

/-- The items of a dictionary. -/
def serializeEntries : List (Key K × Metadata K T L) → List (Key K × Metadata K T L)
  | [] => []
  | (key, item) :: rest => (key, serializeValue item) :: serializeEntries rest

/-- The items of a list or tuple. -/
def serializeItems : List (Metadata K T L) → List (Metadata K T L)
  | [] => []
  | item :: rest => serializeValue item :: serializeItems rest

end

/-- `set(value) == {key}`. -/
def onlyKey (key : Key K) (entries : List (Key K × Metadata K T L)) : Bool :=
  entries.map Prod.fst = [key]

/-- The value under `_ipc_tensor`. -/
def loadTensor : List (Key K × Metadata K T L) → Except (IpcError ε) (Metadata K T L)
  | (_, .bytes value) :: _ => (p.loads value).mapError .pickle |>.map .tensor
  | _ => .error (.typeError "_ipc_tensor metadata must be bytes")

mutual

/-- `deserialize_direct_ipc_metadata`. -/
def deserialize : Metadata K T L → Except (IpcError ε) (Metadata K T L)
  | .dict entries =>
    if onlyKey ipcTensor entries then loadTensor p entries
    else if onlyKey ipcTuple entries then deserializeTuple entries
    else (deserializeEntries entries).map .dict
  | .list items => (deserializeItems items).map .list
  | .tensor value => .ok (.tensor value)
  | .tuple items => .ok (.tuple items)
  | .bytes value => .ok (.bytes value)
  | .leaf value => .ok (.leaf value)

/-- The value under `_ipc_tuple`. -/
def deserializeTuple : List (Key K × Metadata K T L) → Except (IpcError ε) (Metadata K T L)
  | (_, .list items) :: _ => (deserializeItems items).map .tuple
  | _ => .error (.typeError "_ipc_tuple metadata must be list")

/-- The items of a dictionary. -/
def deserializeEntries :
    List (Key K × Metadata K T L) → Except (IpcError ε) (List (Key K × Metadata K T L))
  | [] => .ok []
  | (key, item) :: rest => do
    let item ← deserialize item
    let rest ← deserializeEntries rest
    .ok ((key, item) :: rest)

/-- The items of a list or tuple. -/
def deserializeItems : List (Metadata K T L) → Except (IpcError ε) (List (Metadata K T L))
  | [] => .ok []
  | item :: rest => do
    let item ← deserialize item
    let rest ← deserializeItems rest
    .ok (item :: rest)

end

mutual

/-- No dictionary of the tree has one of the tags as its only key. -/
def Untagged : Metadata K T L → Prop
  | .dict entries =>
    onlyKey ipcTensor entries = false ∧ onlyKey ipcTuple entries = false ∧ UntaggedEntries entries
  | .list items => UntaggedItems items
  | .tuple items => UntaggedItems items
  | _ => True

/-- None in the items of a dictionary. -/
def UntaggedEntries : List (Key K × Metadata K T L) → Prop
  | [] => True
  | (_, item) :: rest => Untagged item ∧ UntaggedEntries rest

/-- None in the items of a list or tuple. -/
def UntaggedItems : List (Metadata K T L) → Prop
  | [] => True
  | item :: rest => Untagged item ∧ UntaggedItems rest

end

omit [DecidableEq K] in
/-- Dictionaries keep their keys. -/
theorem keys_serializeEntries (entries : List (Key K × Metadata K T L)) :
    (serializeEntries p entries).map Prod.fst = entries.map Prod.fst := by
  induction entries with
  | nil => rfl
  | cons entry rest ih => exact congrArg (entry.1 :: ·) ih

mutual

theorem deserialize_serializeValue (hpickle : ∀ value, p.loads (p.ipcPickle value) = .ok value) :
    ∀ tree : Metadata K T L, Untagged tree → deserialize p (serializeValue p tree) = .ok tree
  | .tensor value, _ => by
    rw [serializeValue, deserialize, if_pos (by simp [onlyKey]), loadTensor, hpickle]
    rfl
  | .dict entries, h => by
    obtain ⟨htensor, htuple, hentries⟩ := h
    rw [serializeValue, deserialize, onlyKey, onlyKey, keys_serializeEntries, ← onlyKey, ← onlyKey,
      htensor, htuple, deserializeEntries_serializeEntries hpickle entries hentries]
    rfl
  | .list items, h => by
    rw [serializeValue, deserialize, deserializeItems_serializeItems hpickle items h]
    rfl
  | .tuple items, h => by
    have htensor : onlyKey ipcTensor [((ipcTuple : Key K),
        (.list (serializeItems p items) : Metadata K T L))] = false := by
      simp [onlyKey, ipcTensor, ipcTuple]
    rw [serializeValue, deserialize, htensor, if_neg Bool.false_ne_true, if_pos (by simp [onlyKey]),
      deserializeTuple, deserializeItems_serializeItems hpickle items h]
    rfl
  | .bytes value, _ => rfl
  | .leaf value, _ => rfl

theorem deserializeEntries_serializeEntries
    (hpickle : ∀ value, p.loads (p.ipcPickle value) = .ok value) :
    ∀ entries : List (Key K × Metadata K T L), UntaggedEntries entries →
      deserializeEntries p (serializeEntries p entries) = .ok entries
  | [], _ => rfl
  | (key, item) :: rest, h => by
    rw [serializeEntries, deserializeEntries, deserialize_serializeValue hpickle item h.1,
      deserializeEntries_serializeEntries hpickle rest h.2]
    rfl

theorem deserializeItems_serializeItems
    (hpickle : ∀ value, p.loads (p.ipcPickle value) = .ok value) :
    ∀ items : List (Metadata K T L), UntaggedItems items →
      deserializeItems p (serializeItems p items) = .ok items
  | [], _ => rfl
  | item :: rest, h => by
    rw [serializeItems, deserializeItems, deserialize_serializeValue hpickle item h.1,
      deserializeItems_serializeItems hpickle rest h.2]
    rfl

end

/-- Metadata without such dictionaries comes back as it was, if pickled tensors do. -/
theorem direct_ipc_metadata_comes_back
    (hpickle : ∀ value, p.loads (p.ipcPickle value) = .ok value) (tree : Metadata K T L)
    (huntagged : Untagged tree) : deserialize p (serializeValue p tree) = .ok tree :=
  deserialize_serializeValue p hpickle tree huntagged

/-- A tuple with a tensor and a list with a dictionary, in a dictionary. -/
theorem direct_ipc_metadata_comes_back_nested :
    let p : Pickle UInt8 String :=
      ⟨fun value => [value], fun | [value] => .ok value | _ => .error "truncated"⟩
    let tree : Metadata ℕ UInt8 ℤ :=
      .dict [(.str "rows", .tuple [.tensor 7, .list [.leaf 3, .dict [(.other 4, .bytes [1])]]])]
    deserialize p (serializeValue p tree) = .ok tree := by
  intro p tree
  refine direct_ipc_metadata_comes_back p (fun _ => rfl) tree ?_
  simp [tree, Untagged, UntaggedEntries, UntaggedItems, onlyKey, ipcTensor, ipcTuple]

end Omni.Comm.DirectIpcMetadata
