import Mathlib.Algebra.Order.Round
import Mathlib.Analysis.SpecialFunctions.Sqrt
import Mathlib.Tactic.FieldSimp
import Mathlib.Tactic.Linarith

/-!
# Resized images of LLaDA2-Uni

`_compute_target_dims` and `_resize_and_center_crop` in exact arithmetic. The target is within the
pixel budget unless a side has been raised to the factor. The image covers the target, so one of its
sides is the target's and the other can be longer: it is cropped to the factor only, and the budget
is kept exactly if it rounds to less than the first multiple of the factor that is too long.
-/

namespace Omni.Media

variable {height width minPixels maxPixels factor targetH targetW n side : ℤ} {x y : ℝ}

/-- `round`: to the nearest integer, and to the even one if there are two. -/
noncomputable def roundEven (x : ℝ) : ℤ :=
  if Int.fract x < 1 / 2 then ⌊x⌋
  else if 1 / 2 < Int.fract x then ⌊x⌋ + 1
  else if Even ⌊x⌋ then ⌊x⌋
  else ⌊x⌋ + 1

/-- `_compute_target_dims`: the height and the width. -/
noncomputable def computeTargetDims (height width minPixels maxPixels factor : ℤ) : ℤ × ℤ :=
  let newH := max (roundEven (height / factor) * factor) factor
  let newW := max (roundEven (width / factor) * factor) factor
  if maxPixels < newH * newW then
    let scale := √(maxPixels / (height * width))
    (max (⌊height * scale / factor⌋ * factor) factor, max (⌊width * scale / factor⌋ * factor)
        factor)
  else if newH * newW < minPixels then
    let scale := √(minPixels / (height * width))
    (⌈height * scale / factor⌉ * factor, ⌈width * scale / factor⌉ * factor)
  else (newH, newW)

/-- The sizes of `_resize_and_center_crop`. -/
structure ResizedImage where
  resizeH : ℤ
  resizeW : ℤ
  cropH : ℤ
  cropW : ℤ
  top : ℤ
  left : ℤ

/-- `_resize_and_center_crop`. -/
noncomputable def resizeAndCenterCrop (height width targetH targetW factor : ℤ) : ResizedImage :=
  let scale : ℝ := max (targetH / height) (targetW / width)
  let resizeH := roundEven (height * scale)
  let resizeW := roundEven (width * scale)
  let cropH := max (resizeH / factor * factor) targetH
  let cropW := max (resizeW / factor * factor) targetW
  ⟨resizeH, resizeW, cropH, cropW, (resizeH - cropH) / 2, (resizeW - cropW) / 2⟩

theorem le_roundEven (h : (n : ℝ) ≤ x) : n ≤ roundEven x := by
  have hfloor : n ≤ ⌊x⌋ := Int.le_floor.2 h
  unfold roundEven
  split_ifs <;> omega

theorem roundEven_intCast (n : ℤ) : roundEven (n : ℝ) = n := by
  rw [roundEven, Int.fract_intCast, if_pos (by norm_num), Int.floor_intCast]

theorem roundEven_lt_iff : roundEven x < n ↔ x < n - 1 / 2 ∨ x = n - 1 / 2 ∧ Odd n := by
  have hx := Int.floor_add_fract x
  have hnonneg := Int.fract_nonneg x
  have hlt := Int.fract_lt_one x
  have hle (h : x < n - 1 / 2 ∨ x = n - 1 / 2 ∧ Odd n) : x ≤ n - 1 / 2 :=
    h.elim le_of_lt fun h => h.1.le
  -- The border is only reached from halfway, where the parity of the floor decides.
  unfold roundEven
  split_ifs with hdown hup heven
  · refine ⟨fun h => .inl ?_, fun h => ?_⟩
    · have : (⌊x⌋ : ℝ) ≤ n - 1 := by exact_mod_cast Int.le_sub_one_of_lt h
      linarith
    · rw [← Int.cast_lt (R := ℝ)]
      linarith [hle h]
  · refine ⟨fun h => .inl ?_, fun h => ?_⟩
    · have : (⌊x⌋ + 1 : ℝ) ≤ n - 1 := by exact_mod_cast Int.le_sub_one_of_lt h
      linarith
    · have : ⌊x⌋ < n - 1 := by
        rw [← Int.cast_lt (R := ℝ)]
        push_cast
        linarith [hle h]
      omega
  · refine ⟨fun h => ?_, fun h => ?_⟩
    · rcases (Int.le_sub_one_of_lt h).lt_or_eq with hlt' | heq
      · have : (⌊x⌋ : ℝ) < n - 1 := by exact_mod_cast hlt'
        left
        linarith
      · have : (⌊x⌋ : ℝ) = n - 1 := by exact_mod_cast heq
        exact .inr ⟨by linarith, by simpa [heq] using heven.add_one⟩
    · rw [← Int.cast_lt (R := ℝ)]
      linarith [hle h]
  · refine ⟨fun h => .inl ?_, fun h => ?_⟩
    · have : (⌊x⌋ + 1 : ℝ) ≤ n - 1 := by exact_mod_cast Int.le_sub_one_of_lt h
      linarith
    · have hne : ⌊x⌋ ≠ n - 1 := by
        rintro heq
        rcases h with h | ⟨-, hodd⟩
        · have : (⌊x⌋ : ℝ) = n - 1 := by exact_mod_cast heq
          linarith
        · exact heven (heq ▸ hodd.sub_odd odd_one)
      have : ⌊x⌋ < n := by
        rw [← Int.cast_lt (R := ℝ)]
        linarith [hle h]
      omega

/-- A positive multiple of the factor. -/
def Aligned (factor side : ℤ) : Prop := 0 < side ∧ factor ∣ side

theorem aligned_max (hfactor : 0 < factor) (n : ℤ) : Aligned factor (max (n * factor) factor) := by
  refine ⟨hfactor.trans_le (le_max_right ..), ?_⟩
  rcases max_choice (n * factor) factor with h | h
  · rw [h]
    exact dvd_mul_left factor n
  · rw [h]

theorem aligned_ceil (hfactor : 0 < factor) (hx : 0 < x) : Aligned factor (⌈x⌉ * factor) :=
  ⟨mul_pos (Int.ceil_pos.2 hx) hfactor, dvd_mul_left ..⟩

theorem scale_pos (hheight : 0 < height) (hwidth : 0 < width) (hpixels : 0 < n) :
    (0 : ℝ) < √(n / (height * width)) := by
  have hheight' : (0 : ℝ) < height := Int.cast_pos.2 hheight
  have hwidth' : (0 : ℝ) < width := Int.cast_pos.2 hwidth
  have hpixels' : (0 : ℝ) < n := Int.cast_pos.2 hpixels
  exact Real.sqrt_pos.2 (by positivity)

theorem aligned_targetDims (hheight : 0 < height) (hwidth : 0 < width) (hfactor : 0 < factor)
    (hmin : 0 < minPixels) :
    Aligned factor (computeTargetDims height width minPixels maxPixels factor).1 ∧
      Aligned factor (computeTargetDims height width minPixels maxPixels factor).2 := by
  have hheight' : (0 : ℝ) < height := Int.cast_pos.2 hheight
  have hwidth' : (0 : ℝ) < width := Int.cast_pos.2 hwidth
  have hfactor' : (0 : ℝ) < factor := Int.cast_pos.2 hfactor
  have hscale := scale_pos hheight hwidth hmin
  unfold computeTargetDims
  dsimp only
  split
  · exact ⟨aligned_max hfactor _, aligned_max hfactor _⟩
  · split
    · exact ⟨aligned_ceil hfactor (by positivity), aligned_ceil hfactor (by positivity)⟩
    · exact ⟨aligned_max hfactor _, aligned_max hfactor _⟩

/-- What is asked of the image: sides that are multiples of the factor, a crop box inside the
resized image, and an area in the budget if neither side of the target is the least one. -/
structure ResizedImage.Fits (image : ResizedImage) (maxPixels factor targetH targetW : ℤ) :
    Prop where
  alignedH : Aligned factor image.cropH
  alignedW : Aligned factor image.cropW
  insideH : 0 ≤ image.top ∧ image.top + image.cropH ≤ image.resizeH
  insideW : 0 ≤ image.left ∧ image.left + image.cropW ≤ image.resizeW
  area : factor < targetH → factor < targetW → image.cropH * image.cropW ≤ maxPixels

/-- A side of the image, when the other one is scaled to `target`, rounds to less than the first
multiple of the factor that is too long beside `target`. -/
def StaysBelow (side other target maxPixels factor : ℤ) : Prop :=
  let bound := (maxPixels / (target * factor) + 1) * factor
  2 * (side * target) < (2 * bound - 1) * other ∨
    2 * (side * target) = (2 * bound - 1) * other ∧ Odd bound

/-- `StaysBelow` of the side that can be longer than the target's. -/
def OverhangFits (height width maxPixels factor targetH targetW : ℤ) : Prop :=
  if targetW * height ≤ targetH * width then
    StaysBelow width height targetH maxPixels factor
  else StaysBelow height width targetW maxPixels factor

theorem max_ediv_mul (htarget : Aligned factor targetH) (hle : targetH ≤ n) (hfactor : 0 < factor) :
    max (n / factor * factor) targetH = n / factor * factor := by
  refine max_eq_left ?_
  rw [← Int.ediv_mul_cancel htarget.2]
  exact mul_le_mul_of_nonneg_right (Int.ediv_le_ediv hfactor hle) hfactor.le

/-- The crop of a side that covers the target is a multiple of the factor inside it. -/
theorem crop_inside (htarget : Aligned factor targetH) (hle : targetH ≤ n) (hfactor : 0 < factor) :
    Aligned factor (max (n / factor * factor) targetH) ∧
      0 ≤ (n - max (n / factor * factor) targetH) / 2 ∧
      (n - max (n / factor * factor) targetH) / 2 + max (n / factor * factor) targetH ≤ n := by
  have hpos : 0 < max (n / factor * factor) targetH := htarget.1.trans_le (le_max_right ..)
  rw [max_ediv_mul htarget hle hfactor] at hpos ⊢
  have hn := Int.ediv_mul_le n hfactor.ne'
  exact ⟨⟨hpos, dvd_mul_left ..⟩, by omega, by omega⟩

theorem le_roundEven_scale (hside : 0 < side) (hy : (n / side : ℝ) ≤ y) :
    n ≤ roundEven (side * y) :=
  le_roundEven ((div_le_iff₀' (Int.cast_pos.2 hside)).1 hy)

/-- The side that is scaled to the target's is cropped to it, and the other one keeps the budget
exactly if it stays below the first multiple that does not. -/
theorem crop_area_iff {other : ℤ} (hother : 0 < other) (hfactor : 0 < factor)
    (htarget : Aligned factor targetH) (haligned : Aligned factor targetW)
    (hle : (targetW / side : ℝ) ≤ targetH / other) (hside : 0 < side) :
    max (roundEven (other * (targetH / other)) / factor * factor) targetH *
        max (roundEven (side * (targetH / other)) / factor * factor) targetW ≤ maxPixels ↔
      StaysBelow side other targetH maxPixels factor := by
  have hother' : (0 : ℝ) < other := Int.cast_pos.2 hother
  have hmul : (other * (targetH / other) : ℝ) = targetH := mul_div_cancel₀ _ hother'.ne'
  rw [hmul, roundEven_intCast, Int.ediv_mul_cancel htarget.2, max_self,
    max_ediv_mul haligned (le_roundEven_scale hside hle) hfactor, ← mul_assoc, mul_right_comm,
    mul_comm (targetH * _), ← Int.le_ediv_iff_mul_le (mul_pos htarget.1 hfactor),
      ← Int.lt_add_one_iff,
    Int.ediv_lt_iff_lt_mul hfactor, roundEven_lt_iff]
  have hscaled : (side * (targetH / other) : ℝ) = side * targetH / other := by ring
  rw [hscaled, div_lt_iff₀ hother', div_eq_iff hother'.ne']
  refine or_congr ?_ (and_congr_left' ?_)
  · rw [← Int.cast_lt (R := ℝ)]
    push_cast
    constructor <;> intro h <;> linarith
  · rw [← Int.cast_inj (α := ℝ)]
    push_cast
    constructor <;> intro h <;> linarith

/-- The crop is aligned and inside the resized image, and its area is in the budget if neither side
of the target is the least one, exactly if the longer side stays below what the budget leaves. -/
theorem fits_iff (hheight : 0 < height) (hwidth : 0 < width) (hfactor : 0 < factor)
    (hH : Aligned factor targetH) (hW : Aligned factor targetW) :
    (resizeAndCenterCrop height width targetH targetW factor).Fits maxPixels factor
        targetH targetW ↔
      (factor < targetH → factor < targetW →
        OverhangFits height width maxPixels factor targetH targetW) := by
  have hheight' : (0 : ℝ) < height := Int.cast_pos.2 hheight
  have hwidth' : (0 : ℝ) < width := Int.cast_pos.2 hwidth
  have hcompare : (targetW / width : ℝ) ≤ targetH / height ↔
      targetW * height ≤ targetH * width := by
    rw [div_le_div_iff₀ hwidth' hheight']
    exact_mod_cast Iff.rfl
  have harea : (resizeAndCenterCrop height width targetH targetW factor).cropH *
      (resizeAndCenterCrop height width targetH targetW factor).cropW ≤ maxPixels ↔
      OverhangFits height width maxPixels factor targetH targetW := by
    unfold OverhangFits resizeAndCenterCrop
    dsimp only
    split
    next h =>
      rw [max_eq_left (hcompare.2 h)]
      exact crop_area_iff hheight hfactor hH hW (hcompare.2 h) hwidth
    next h =>
      have hle := (not_le.1 (h ∘ hcompare.1)).le
      rw [max_eq_right hle, mul_comm]
      exact crop_area_iff hwidth hfactor hW hH hle hheight
  have hinsideH := crop_inside hH
    (le_roundEven_scale hheight (le_max_left _ (targetW / width : ℝ))) hfactor
  have hinsideW := crop_inside hW
    (le_roundEven_scale hwidth (le_max_right (targetH / height : ℝ) _)) hfactor
  exact ⟨fun h hlt hlt' => harea.1 (h.area hlt hlt'), fun h =>
    ⟨hinsideH.1, hinsideW.1, hinsideH.2, hinsideW.2, fun hlt hlt' => harea.2 (h hlt hlt')⟩⟩

/-- `fits_iff` for the target of `_compute_target_dims`. -/
theorem resizeAndCenterCrop_fits_iff (hheight : 0 < height) (hwidth : 0 < width)
    (hfactor : 0 < factor) (hmin : factor * factor ≤ minPixels)
    (htarget : computeTargetDims height width minPixels maxPixels factor = (targetH, targetW)) :
    (resizeAndCenterCrop height width targetH targetW factor).Fits maxPixels factor targetH
        targetW ↔
      (factor < targetH → factor < targetW →
        OverhangFits height width maxPixels factor targetH targetW) := by
  have haligned := @aligned_targetDims _ _ _ maxPixels _ hheight hwidth hfactor
    ((mul_pos hfactor hfactor).trans_le hmin)
  rw [htarget] at haligned
  exact fits_iff hheight hwidth hfactor haligned.1 haligned.2

theorem computeTargetDims_three_five : computeTargetDims 3 5 4 16 2 = (4, 4) := by
  norm_num [computeTargetDims, roundEven]

theorem fits_three_five :
    (resizeAndCenterCrop 3 5 4 4 2).Fits 16 2 4 4 ↔
      ((2 : ℤ) < 4 → (2 : ℤ) < 4 → OverhangFits 3 5 16 2 4 4) :=
  resizeAndCenterCrop_fits_iff (by decide) (by decide) (by decide) (by decide)
    computeTargetDims_three_five

/-- The image of height 3 and width 5 with the factor 2 and a budget from 4 to 16 pixels: resized to
4 × 7 for the target 4 × 4, it is cropped to 4 × 6. -/
theorem overhang_exceeds : ¬ ∀ height width minPixels maxPixels factor targetH targetW : ℤ,
    1 ≤ height → 1 ≤ width → 1 ≤ factor → factor * factor ≤ minPixels → minPixels ≤ maxPixels →
      minPixels * 4 ≤ maxPixels →
      computeTargetDims height width minPixels maxPixels factor = (targetH, targetW) →
      (resizeAndCenterCrop height width targetH targetW factor).Fits maxPixels factor targetH
        targetW := by
  intro h
  have hfits := h 3 5 4 16 2 4 4 (by decide) (by decide) (by decide) (by decide) (by decide)
    (by decide) computeTargetDims_three_five
  have haligned : Aligned 2 4 := ⟨by decide, by decide⟩
  have hbelow := (fits_iff (by decide) (by decide) (by decide) haligned haligned).1 hfits
    (by decide) (by decide)
  simp [OverhangFits, StaysBelow] at hbelow

end Omni.Media
