import Mathlib.Data.Int.ModEq
import Mathlib.Data.List.Induction
import Mathlib.RingTheory.Coprime.Lemmas
import Mathlib.Tactic.Common

/-!
# Radix keys of generated frames

`poly_row_hash` folds the channels of a frame in 64-bit integers. No step wraps, the key of a
continuing frame is below the control tokens, and a change of one channel changes the hash: a step
loses neither the accumulator nor the channel, since the base is a unit of the modulus.
-/

namespace Omni.Tts

open List

variable {acc acc' value value' : ℤ} {row : List ℤ}

/-- `_MOD`. -/
def radixMod : ℤ := 2147483647

/-- `_BASE`. -/
def radixBase : ℤ := 1000000007

/-- `RADIX_HASH_SPACE`. -/
def radixHashSpace : ℤ := 151643

/-- The result of an operation on `torch.int64`. -/
def int64 (x : ℤ) : ℤ := x.bmod (2 ^ 64)

/-- `torch.remainder(acc * _BASE + value, _MOD)`. -/
def hashStep (acc value : ℤ) : ℤ := int64 (int64 (acc * radixBase) + value) % radixMod

/-- `value` for a channel. -/
def hashValue (channel : ℤ) : ℤ := int64 channel % radixMod

/-- `poly_row_hash` of a row. -/
def polyRowHash (row : List ℤ) : ℤ :=
  row.foldl (fun acc channel => hashStep acc (hashValue channel)) 0

/-- `gpu_radix_row_hash` of a row. -/
def gpuRadixRowHash (row : List ℤ) (nextText endId hashSpace : ℤ) : ℤ :=
  if nextText = endId then int64 nextText else polyRowHash row % hashSpace

/-- A number that `torch.int64` can hold. -/
def InInt64 (x : ℤ) : Prop := -2 ^ 63 ≤ x ∧ x < 2 ^ 63

theorem int64_of_inInt64 {x : ℤ} (h : InInt64 x) : int64 x = x := by
  unfold InInt64 at h
  unfold int64
  rw [Int.bmod_eq_iff] <;> omega

/-- A residue of the modulus. -/
def Reduced (x : ℤ) : Prop := 0 ≤ x ∧ x < radixMod

theorem reduced_mod (x : ℤ) : Reduced (x % radixMod) :=
  ⟨Int.emod_nonneg _ (by decide), Int.emod_lt_of_pos _ (by decide)⟩

theorem polyRowHash_concat (row : List ℤ) (channel : ℤ) :
    polyRowHash (row ++ [channel]) = hashStep (polyRowHash row) (hashValue channel) := by
  rw [polyRowHash, foldl_append]
  rfl

theorem reduced_polyRowHash (row : List ℤ) : Reduced (polyRowHash row) := by
  induction row using reverseRecOn with
  | nil => exact ⟨le_rfl, by decide⟩
  | append_singleton row channel _ =>
    rw [polyRowHash_concat]
    exact reduced_mod _

/-- A step stays below `2 ^ 62`. -/
theorem step_inInt64 (hacc : Reduced acc) (hvalue : Reduced value) :
    InInt64 (acc * radixBase) ∧ InInt64 (acc * radixBase + value) := by
  unfold Reduced radixMod at hacc hvalue
  unfold InInt64 radixBase
  omega

theorem hashStep_eq (hacc : Reduced acc) (hvalue : Reduced value) :
    hashStep acc value = (acc * radixBase + value) % radixMod := by
  obtain ⟨hproduct, hsum⟩ := step_inInt64 hacc hvalue
  rw [hashStep, int64_of_inInt64 hproduct, int64_of_inInt64 hsum]

theorem hashValue_of_reduced (hvalue : Reduced value) : hashValue value = value := by
  have hvalue' := hvalue
  unfold Reduced radixMod at hvalue'
  rw [hashValue, int64_of_inInt64 ⟨by omega, by omega⟩, Int.emod_eq_of_lt hvalue.1 hvalue.2]

theorem isCoprime_radixMod_radixBase : IsCoprime radixMod radixBase :=
  Int.isCoprime_iff_gcd_eq_one.2 rfl

/-- Residues with a difference that the modulus divides are equal. -/
theorem Reduced.eq_of_dvd (hacc : Reduced acc) (hacc' : Reduced acc')
    (hdvd : radixMod ∣ acc' - acc) : acc = acc' := by
  have hmod : acc % radixMod = acc' % radixMod := Int.modEq_iff_dvd.2 hdvd
  rwa [Int.emod_eq_of_lt hacc.1 hacc.2, Int.emod_eq_of_lt hacc'.1 hacc'.2] at hmod

/-- Another accumulator with the same channel, or another channel, gives another accumulator. -/
theorem hashStep_ne (hacc : Reduced acc) (hacc' : Reduced acc') (hvalue : Reduced value)
    (hvalue' : Reduced value') (hne : acc ≠ acc' ∧ value = value' ∨ acc = acc' ∧ value ≠ value') :
    hashStep acc value ≠ hashStep acc' value' := by
  rw [hashStep_eq hacc hvalue, hashStep_eq hacc' hvalue']
  intro heq
  have hdvd := Int.modEq_iff_dvd.1 heq
  rcases hne with ⟨hne, rfl⟩ | ⟨rfl, hne⟩
  · rw [add_sub_add_right_eq_sub, ← sub_mul] at hdvd
    exact hne (hacc.eq_of_dvd hacc' (isCoprime_radixMod_radixBase.dvd_of_dvd_mul_right hdvd))
  · rw [add_sub_add_left_eq_sub] at hdvd
    exact hne (hvalue.eq_of_dvd hvalue' hdvd)

/-- The accumulators of rows that differ stay different over the channels that follow. -/
theorem polyRowHash_append_ne {left left' rest : List ℤ} (hne : polyRowHash left ≠ polyRowHash
    left') :
    polyRowHash (left ++ rest) ≠ polyRowHash (left' ++ rest) := by
  induction rest using reverseRecOn with
  | nil => simpa using hne
  | append_singleton rest channel ih =>
    rw [← append_assoc, ← append_assoc, polyRowHash_concat, polyRowHash_concat]
    exact hashStep_ne (reduced_polyRowHash _) (reduced_polyRowHash _) (reduced_mod _)
      (reduced_mod _)
      (Or.inl ⟨ih, rfl⟩)

/-- A row that differs in the channel `i` alone has another hash. -/
theorem polyRowHash_ne {other : List ℤ} {i : ℕ} (hrow : ∀ value ∈ row, Reduced value)
    (hother : ∀ value ∈ other, Reduced value) (hlength : row.length = other.length)
    (hne : row[i]? ≠ other[i]?) (hsame : ∀ j, j ≠ i → row[j]? = other[j]?) :
    polyRowHash row ≠ polyRowHash other := by
  have hi : i < row.length := by
    by_contra hout
    rw [getElem?_eq_none (by omega), getElem?_eq_none (by omega)] at hne
    exact hne rfl
  have hi' : i < other.length := hlength ▸ hi
  have hleft : row.take i = other.take i := by
    refine ext_getElem? fun j => ?_
    rw [getElem?_take, getElem?_take]
    split
    · exact hsame j (by omega)
    · rfl
  have hright : row.drop (i + 1) = other.drop (i + 1) := by
    refine ext_getElem? fun j => ?_
    rw [getElem?_drop, getElem?_drop]
    exact hsame _ (by omega)
  rw [← take_append_drop (i + 1) row, ← take_append_drop (i + 1) other, hright]
  refine polyRowHash_append_ne ?_
  rw [take_add_one, take_add_one, hleft, getElem?_eq_getElem hi, getElem?_eq_getElem hi',
    Option.toList_some, Option.toList_some, polyRowHash_concat, polyRowHash_concat]
  rw [getElem?_eq_getElem hi, getElem?_eq_getElem hi'] at hne
  have hvalue := hrow _ (getElem_mem hi)
  have hvalue' := hother _ (getElem_mem hi')
  refine hashStep_ne (reduced_polyRowHash _) (reduced_polyRowHash _) (reduced_mod _) (reduced_mod _)
    (Or.inr ⟨rfl, ?_⟩)
  rw [hashValue_of_reduced hvalue, hashValue_of_reduced hvalue']
  exact fun heq => hne (congrArg some heq)

/-- No operation leaves the range, the key of a continuing frame is in its space, and a change of
one channel changes the hash. -/
theorem radix_keys (row : List ℤ) :
    (∀ i channel, row[i]? = some channel →
      InInt64 (polyRowHash (row.take i) * radixBase) ∧
        InInt64 (polyRowHash (row.take i) * radixBase + hashValue channel)) ∧
    (∀ nextText endId hashSpace, nextText ≠ endId → 0 < hashSpace →
      0 ≤ gpuRadixRowHash row nextText endId hashSpace ∧
        gpuRadixRowHash row nextText endId hashSpace < hashSpace) ∧
    ∀ (other : List ℤ) (i : ℕ), (∀ value ∈ row, Reduced value) → (∀ value ∈ other, Reduced value) →
      row.length = other.length → row[i]? ≠ other[i]? → (∀ j, j ≠ i → row[j]? = other[j]?) →
        polyRowHash row ≠ polyRowHash other := by
  refine ⟨fun i channel _ => step_inInt64 (reduced_polyRowHash _) (reduced_mod _),
    fun nextText endId hashSpace hnext hspace => ?_, fun other i => polyRowHash_ne⟩
  rw [gpuRadixRowHash, if_neg hnext]
  exact ⟨Int.emod_nonneg _ hspace.ne', Int.emod_lt_of_pos _ hspace⟩

end Omni.Tts
