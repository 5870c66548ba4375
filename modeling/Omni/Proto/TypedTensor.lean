import Mathlib.Algebra.Order.Group.Int
import Mathlib.Data.List.Basic
import Mathlib.Data.Nat.ModEq

/-!
# Typed tensors

`encode_typed_tensor` and `decode_typed_tensor` of `scheduling/typed_tensor.py` for integer tensors,
without a legacy key.
-/

namespace Omni.Proto

open List

/-- An integer tensor, with its values in row-major order. -/
structure IntTensor where
  shape : List ℕ
  values : List ℤ
  size : values.length = shape.prod
  represented : ∀ v ∈ values, -2 ^ 63 ≤ v ∧ v < 2 ^ 63

/-- The dtypes to which integers are narrowed. -/
inductive StorageDtype
  | uint16 | int32

/-- `{key}_bytes`, `{key}_shape` and `{key}_dtype`. -/
structure TypedTensor where
  bytes : List UInt8
  shape : List ℕ
  dtype : StorageDtype

namespace StorageDtype

/-- `itemsize`. -/
def itemsize : StorageDtype → ℕ
  | uint16 => 2
  | int32 => 4

/-- A value of `astype`. -/
def cast : StorageDtype → ℤ → ℤ
  | uint16, v => v % 2 ^ 16
  | int32, v => v.bmod (2 ^ 32)

end StorageDtype

/-- The bytes of a natural number, the least significant one first. -/
def littleEndian : ℕ → ℕ → List UInt8
  | 0, _ => []
  | n + 1, value => UInt8.ofNat value :: littleEndian n (value / 256)

/-- The natural number with these bytes. -/
def ofLittleEndian : List UInt8 → ℕ
  | [] => 0
  | byte :: bytes => byte.toNat + 256 * ofLittleEndian bytes

/-- The bytes of a value. -/
def StorageDtype.toBytes (dtype : StorageDtype) (v : ℤ) : List UInt8 :=
  littleEndian dtype.itemsize (v % 256 ^ dtype.itemsize).toNat

/-- The value with these bytes. -/
def StorageDtype.ofBytes (dtype : StorageDtype) (bytes : List UInt8) : ℤ :=
  dtype.cast (ofLittleEndian bytes)

/-- The dtype to which the values of a tensor are narrowed. -/
def storageDtype (values : List ℤ) : StorageDtype :=
  if values = [] then .uint16
  else if 0 ≤ values.min?.getD 0 ∧ values.max?.getD 0 ≤ 65535 then .uint16
  else .int32

/-- The shape of `np.ascontiguousarray`, which has at least one dimension. -/
def contiguousShape (shape : List ℕ) : List ℕ := if shape = [] then [1] else shape

/-- `encode_typed_tensor`. -/
def encodeTypedTensor (t : IntTensor) : TypedTensor :=
  let dtype := storageDtype t.values
  let array := t.values.map dtype.cast
  ⟨array.flatMap dtype.toBytes, contiguousShape t.shape, dtype⟩

/-- The items of a buffer. -/
def items (itemsize : ℕ) : ℕ → List UInt8 → List (List UInt8)
  | 0, _ => []
  | n + 1, raw => raw.take itemsize :: items itemsize n (raw.drop itemsize)

/-- `np.frombuffer`. -/
def frombuffer (dtype : StorageDtype) (raw : List UInt8) : Option (List ℤ) :=
  if raw.length % dtype.itemsize = 0 then
    some ((items dtype.itemsize (raw.length / dtype.itemsize) raw).map dtype.ofBytes)
  else none

/-- `decode_typed_tensor`: the shape and the values of the tensor. -/
def decodeTypedTensor (data : TypedTensor) : Option (List ℕ × List ℤ) :=
  (frombuffer data.dtype data.bytes).bind fun array =>
    if array.length = data.shape.prod then some (data.shape, array) else none

theorem length_littleEndian (n value : ℕ) : (littleEndian n value).length = n := by
  induction n generalizing value with
  | zero => rfl
  | succ n ih => rw [littleEndian, length_cons, ih]

theorem ofLittleEndian_littleEndian {n value : ℕ} (h : value < 256 ^ n) :
    ofLittleEndian (littleEndian n value) = value := by
  induction n generalizing value with
  | zero => exact (Nat.lt_one_iff.1 h).symm
  | succ n ih =>
    have hbyte : (UInt8.ofNat value).toNat = value % 256 := UInt8.toNat_ofNat'
    have hrest : value / 256 < 256 ^ n := Nat.div_lt_of_lt_mul (by rwa [← Nat.pow_succ'])
    rw [littleEndian, ofLittleEndian, ih hrest, hbyte]
    exact Nat.mod_add_div value 256

theorem cast_cast (dtype : StorageDtype) (v : ℤ) :
    dtype.cast (v % 256 ^ dtype.itemsize) = dtype.cast v := by
  cases dtype with
  | uint16 => exact Int.emod_emod_of_dvd v (dvd_refl _)
  | int32 => exact Int.emod_bmod v (2 ^ 32)

/-- The bytes of a value are its own. -/
theorem ofBytes_toBytes (dtype : StorageDtype) (v : ℤ) :
    dtype.ofBytes (dtype.toBytes v) = dtype.cast v := by
  have hpos : (0 : ℤ) < 256 ^ dtype.itemsize := by cases dtype <;> decide
  have hnonneg := Int.emod_nonneg v hpos.ne'
  have hlt := Int.emod_lt_of_pos v hpos
  rw [StorageDtype.ofBytes, StorageDtype.toBytes, ofLittleEndian_littleEndian,
    Int.toNat_of_nonneg hnonneg, cast_cast]
  exact (Int.toNat_lt hnonneg).2 (by exact_mod_cast hlt)

/-- The buffer of some values has these values. -/
theorem frombuffer_flatMap (dtype : StorageDtype) (array : List ℤ) :
    frombuffer dtype (array.flatMap dtype.toBytes) = some (array.map dtype.cast) := by
  have hlength : (array.flatMap dtype.toBytes).length = array.length * dtype.itemsize := by
    have hsize (v : ℤ) : (dtype.toBytes v).length = dtype.itemsize := length_littleEndian ..
    rw [length_flatMap, map_congr_left fun v _ => hsize v, map_const', sum_replicate_nat]
  have hpos : 0 < dtype.itemsize := by cases dtype <;> decide
  have hitems : items dtype.itemsize array.length (array.flatMap dtype.toBytes) =
      array.map dtype.toBytes := by
    clear hlength
    induction array with
    | nil => rfl
    | cons v array ih =>
      have hv : (dtype.toBytes v).length = dtype.itemsize := length_littleEndian _ _
      rw [flatMap_cons, length_cons, items, take_left' hv, drop_left' hv, ih]
      rfl
  rw [frombuffer, hlength, if_pos (Nat.mul_mod_left ..), Nat.mul_div_cancel _ hpos, hitems, map_map]
  exact congrArg some (map_congr_left fun v _ => ofBytes_toBytes dtype v)

/-- A value survives in its dtype if it is within 32 bits. -/
theorem cast_storageDtype_iff {values : List ℤ} {v : ℤ} (hv : v ∈ values) :
    (storageDtype values).cast v = v ↔ -2 ^ 31 ≤ v ∧ v < 2 ^ 31 := by
  have hne : values ≠ [] := ne_nil_of_mem hv
  obtain ⟨least, hleast⟩ := Option.isSome_iff_exists.1 (isSome_min?_of_ne_nil hne)
  obtain ⟨greatest, hgreatest⟩ := Option.isSome_iff_exists.1 (isSome_max?_of_ne_nil hne)
  have hmin := (min?_eq_some_iff.1 hleast).2 v hv
  have hmax := (max?_eq_some_iff.1 hgreatest).2 v hv
  rw [storageDtype, if_neg hne, hleast, hgreatest, Option.getD_some, Option.getD_some]
  by_cases hsmall : 0 ≤ least ∧ greatest ≤ 65535
  · rw [if_pos hsmall]
    change v % 2 ^ 16 = v ↔ _
    omega
  · rw [if_neg hsmall]
    change v.bmod (2 ^ 32) = v ↔ _
    rw [Int.bmod_eq_iff] <;> omega

/-- An integer tensor comes back if and only if it has a dimension and its values are within
32 bits. -/
theorem typed_tensor_comes_back_iff (t : IntTensor) :
    decodeTypedTensor (encodeTypedTensor t) = some (t.shape, t.values) ↔
      t.shape ≠ [] ∧ ∀ v ∈ t.values, -2 ^ 31 ≤ v ∧ v < 2 ^ 31 := by
  have hcast (dtype : StorageDtype) (v : ℤ) : dtype.cast (dtype.cast v) = dtype.cast v := by
    cases dtype with
    | uint16 => exact Int.emod_emod_of_dvd v (dvd_refl _)
    | int32 => exact Int.bmod_bmod
  have hdecoded : decodeTypedTensor (encodeTypedTensor t) =
      some (contiguousShape t.shape, t.values.map (storageDtype t.values).cast) := by
    have hprod : (contiguousShape t.shape).prod = t.shape.prod := by
      unfold contiguousShape
      split
      next hshape => rw [hshape]; rfl
      · rfl
    rw [decodeTypedTensor, encodeTypedTensor]
    have harray : (t.values.map (storageDtype t.values).cast).map (storageDtype t.values).cast =
        t.values.map (storageDtype t.values).cast := by
      rw [map_map]
      exact map_congr_left fun v _ => hcast _ v
    rw [frombuffer_flatMap, harray, Option.bind_some, length_map, hprod, if_pos t.size]
  rw [hdecoded, Option.some.injEq, Prod.mk.injEq]
  refine and_congr ?_ ?_
  · unfold contiguousShape
    split
    next hshape => simp [hshape]
    next hshape => simp [hshape]
  · refine (Eq.congr_right (map_id _).symm).trans ?_
    rw [map_inj_left]
    exact forall₂_congr fun v hv => cast_storageDtype_iff hv

/-- A tensor without dimensions, and a value that does not fit in 32 bits. -/
theorem typed_tensor_changed :
    decodeTypedTensor (encodeTypedTensor ⟨[], [7], by decide, by decide⟩) = some ([1], [7]) ∧
      decodeTypedTensor (encodeTypedTensor ⟨[1], [2 ^ 31], by decide, by decide⟩) =
        some ([1], [-2 ^ 31]) := by
  decide +kernel

end Omni.Proto
