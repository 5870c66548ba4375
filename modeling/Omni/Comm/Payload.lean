import Mathlib.Data.String.Basic

/-!
# Payload trees and their tensors

`extract_tensors` of `stage_io.py`: the tensors of a nested payload are taken out
under the path that leads to them and replaced by placeholders.
-/

namespace Omni.Comm

/-- A `torch.Tensor` with the attributes that a placeholder describes. -/
structure Tensor (D : Type) where
  shape : List ℕ
  dtype : String
  device : String
  data : D

/-- Nested payload data. `other` is anything that is neither a tensor nor a container. -/
inductive Tree (D L : Type)
  | tensor (value : Tensor D)
  | dict (entries : List (String × Tree D L))
  | list (items : List (Tree D L))
  | tuple (items : List (Tree D L))
  | str (value : String)
  | int (value : ℤ)
  | other (value : L)

variable {D L : Type}

/-- `tensors[path] = tensor`: a path that is already there keeps its place. -/
def assign (tensors : List (String × Tensor D)) (path : String) (tensor : Tensor D) :
    List (String × Tensor D) :=
  if path ∈ tensors.map Prod.fst then
    tensors.map fun entry => if entry.1 = path then (path, tensor) else entry
  else tensors ++ [(path, tensor)]

/-- `tensors.update(child_tensors)`. -/
def updateTensors (tensors childTensors : List (String × Tensor D)) :
    List (String × Tensor D) :=
  childTensors.foldl (fun tensors entry => assign tensors entry.1 entry.2) tensors

/-- The dictionary that stands for a tensor in the header. -/
def placeholder (path : String) (value : Tensor D) : Tree D L :=
  .dict [("_tensor_placeholder", .str path),
    ("shape", .list (value.shape.map fun dim => .int dim)),
    ("dtype", .str value.dtype), ("device", .str value.device)]

mutual

/-- `extract_tensors`. -/
def extractTensors : Tree D L → String → Tree D L × List (String × Tensor D)
  | .tensor value, path => (placeholder path value, [(path, value)])
  | .dict entries, path =>
    let (out, tensors) := extractEntries entries path []
    (.dict out, tensors)
  | .list items, path =>
    let (out, tensors) := extractItems items path 0 []
    (.list out, tensors)
  | .tuple items, path =>
    let (out, tensors) := extractItems items path 0 []
    (.tuple out, tensors)
  | .str value, _ => (.str value, [])
  | .int value, _ => (.int value, [])
  | .other value, _ => (.other value, [])

/-- The loop of `extract_tensors` over the items of a dictionary. -/
def extractEntries : List (String × Tree D L) → String → List (String × Tensor D) →
    List (String × Tree D L) × List (String × Tensor D)
  | [], _, tensors => ([], tensors)
  | (key, value) :: rest, path, tensors =>
    let childPath := if path = "" then key else path ++ "." ++ key
    let (child, childTensors) := extractTensors value childPath
    let (out, tensors) := extractEntries rest path (updateTensors tensors childTensors)
    ((key, child) :: out, tensors)

/-- The loop of `extract_tensors` over a list or a tuple, from index `idx` on. -/
def extractItems : List (Tree D L) → String → ℕ → List (String × Tensor D) →
    List (Tree D L) × List (String × Tensor D)
  | [], _, _, tensors => ([], tensors)
  | value :: rest, path, idx, tensors =>
    let (child, childTensors) := extractTensors value (path ++ "[" ++ toString idx ++ "]")
    let (out, tensors) := extractItems rest path (idx + 1) (updateTensors tensors childTensors)
    (child :: out, tensors)

end

end Omni.Comm
