import Mathlib.Algebra.Order.Field.Basic
import Mathlib.Algebra.Order.Ring.Rat
import Mathlib.Tactic.NormNum

/-! Resizing an image into a target.

The code scales both sides by the smaller of two ratios. The size it computes is the
only one that keeps the proportions, fits the target and touches it, and everything
about repeated resizing follows from that.
-/

set_option autoImplicit false

namespace ProjectF02

variable {CGFloat : Type}

@[ext] structure CGSize (CGFloat : Type) where
  width : CGFloat
  height : CGFloat
  deriving DecidableEq, Repr

/-- An image, of which only the size matters here; the context it is redrawn in has that size. -/
@[ext] structure UIImage (CGFloat : Type) where
  size : CGSize CGFloat
  deriving DecidableEq, Repr

variable [Field CGFloat] [LinearOrder CGFloat]

def UIImage.resizeImage (image : UIImage CGFloat) (targetSize : CGSize CGFloat) : UIImage CGFloat :=
  let size := image.size
  let widthRatio := targetSize.width / size.width
  let heightRatio := targetSize.height / size.height
  let newSize : CGSize CGFloat :=
    if widthRatio > heightRatio then ⟨size.width * heightRatio, size.height * heightRatio⟩
    else ⟨size.width * widthRatio, size.height * widthRatio⟩
  ⟨newSize⟩

namespace CGSize

structure Positive (size : CGSize CGFloat) : Prop where
  width : 0 < size.width
  height : 0 < size.height

def scale (size : CGSize CGFloat) (ratio : CGFloat) : CGSize CGFloat :=
  ⟨size.width * ratio, size.height * ratio⟩

/-- The second size has the proportions of the first, lies within the target and touches it. -/
structure Fitted (size target fitted : CGSize CGFloat) : Prop where
  proportional : ∃ ratio, 0 < ratio ∧ fitted = size.scale ratio
  width_le : fitted.width ≤ target.width
  height_le : fitted.height ≤ target.height
  touches : fitted.width = target.width ∨ fitted.height = target.height

omit [LinearOrder CGFloat] in
theorem scale_scale (size : CGSize CGFloat) (first second : CGFloat) :
    (size.scale first).scale second = size.scale (first * second) := by
  simp only [scale, mul_assoc]

variable [IsStrictOrderedRing CGFloat] {size target fitted other : CGSize CGFloat}

theorem Positive.scale (positive : size.Positive) {ratio : CGFloat} (pos : 0 < ratio) :
    (size.scale ratio).Positive :=
  ⟨mul_pos positive.width pos, mul_pos positive.height pos⟩

theorem Fitted.positive (fits : Fitted size target fitted) (positive : size.Positive) : fitted.Positive := by
  obtain ⟨ratio, pos, rfl⟩ := fits.proportional
  exact positive.scale pos

theorem Fitted.ratio_le {first second : CGFloat} (positive : size.Positive)
    (fits : Fitted size target (size.scale first)) (within : Fitted size target (size.scale second)) :
    second ≤ first := by
  rcases fits.touches with touches | touches
  · exact le_of_mul_le_mul_left (within.width_le.trans_eq touches.symm) positive.width
  · exact le_of_mul_le_mul_left (within.height_le.trans_eq touches.symm) positive.height

theorem Fitted.unique (positive : size.Positive) (first : Fitted size target fitted)
    (second : Fitted size target other) : fitted = other := by
  obtain ⟨ratio, -, rfl⟩ := first.proportional
  obtain ⟨ratio', -, rfl⟩ := second.proportional
  rw [le_antisymm (second.ratio_le positive first) (first.ratio_le positive second)]

theorem Fitted.trans {target' : CGSize CGFloat} (first : Fitted size target fitted)
    (second : Fitted fitted target' other) : Fitted size target' other := by
  obtain ⟨ratio, pos, rfl⟩ := first.proportional
  obtain ⟨ratio', pos', scaled⟩ := second.proportional
  exact { second with proportional := ⟨ratio * ratio', mul_pos pos pos', scaled.trans (scale_scale ..)⟩ }

end CGSize

namespace UIImage
open CGSize
variable [IsStrictOrderedRing CGFloat]

theorem resizeImage_fitted {image : UIImage CGFloat} {targetSize : CGSize CGFloat}
    (positive : image.size.Positive) (target : targetSize.Positive) :
    Fitted image.size targetSize (image.resizeImage targetSize).size := by
  obtain ⟨width, height⟩ := positive
  have widthRatio : image.size.width * (targetSize.width / image.size.width) = targetSize.width :=
    mul_div_cancel₀ _ width.ne'
  have heightRatio : image.size.height * (targetSize.height / image.size.height) = targetSize.height :=
    mul_div_cancel₀ _ height.ne'
  rw [resizeImage]
  split
  next less =>
    exact {
      proportional := ⟨_, div_pos target.height height, rfl⟩
      width_le := (mul_le_mul_of_nonneg_left less.le width.le).trans_eq widthRatio
      height_le := heightRatio.le
      touches := .inr heightRatio }
  next most =>
    exact {
      proportional := ⟨_, div_pos target.width width, rfl⟩
      width_le := widthRatio.le
      height_le := (mul_le_mul_of_nonneg_left (not_lt.mp most) height.le).trans_eq heightRatio
      touches := .inl widthRatio }

theorem resizeImage_resizeImage {image : UIImage CGFloat} {first second : CGSize CGFloat}
    (positive : image.size.Positive) (target : first.Positive) (target' : second.Positive) :
    (image.resizeImage first).resizeImage second = image.resizeImage second := by
  have once := resizeImage_fitted positive target
  have twice := resizeImage_fitted (once.positive positive) target'
  exact UIImage.ext (Fitted.unique positive (once.trans twice) (resizeImage_fitted positive target'))

/-- Resizing fits, touches and keeps the proportions, and only the last of two targets counts. -/
theorem resizeImage_spec {image : UIImage CGFloat} (positive : image.size.Positive) :
    (∀ targetSize : CGSize CGFloat, targetSize.Positive →
      (image.resizeImage targetSize).size.width ≤ targetSize.width ∧
      (image.resizeImage targetSize).size.height ≤ targetSize.height ∧
      ((image.resizeImage targetSize).size.width = targetSize.width ∨
        (image.resizeImage targetSize).size.height = targetSize.height) ∧
      (image.resizeImage targetSize).size.width / (image.resizeImage targetSize).size.height =
        image.size.width / image.size.height) ∧
    ∀ first second : CGSize CGFloat, first.Positive → second.Positive →
      (image.resizeImage first).resizeImage second = image.resizeImage second := by
  refine ⟨fun targetSize target => ?_, fun first second => resizeImage_resizeImage positive⟩
  have fits := resizeImage_fitted positive target
  refine ⟨fits.width_le, fits.height_le, fits.touches, ?_⟩
  obtain ⟨ratio, pos, scaled⟩ := fits.proportional
  rw [scaled]
  exact mul_div_mul_right _ _ pos.ne'

def photo : UIImage ℚ := ⟨⟨4000, 3000⟩⟩

theorem resizeImage_photo :
    ((photo.resizeImage ⟨414, 250⟩).size.width ≤ 414 ∧ (photo.resizeImage ⟨414, 250⟩).size.height ≤ 250 ∧
      ((photo.resizeImage ⟨414, 250⟩).size.width = 414 ∨ (photo.resizeImage ⟨414, 250⟩).size.height = 250) ∧
      (photo.resizeImage ⟨414, 250⟩).size.width / (photo.resizeImage ⟨414, 250⟩).size.height = 4000 / 3000) ∧
    (photo.resizeImage ⟨414, 200⟩).resizeImage ⟨414, 250⟩ = photo.resizeImage ⟨414, 250⟩ := by
  have positive : photo.size.Positive := ⟨by decide, by decide⟩
  obtain ⟨fits, composes⟩ := resizeImage_spec positive
  exact ⟨fits ⟨414, 250⟩ ⟨by decide, by decide⟩,
    composes ⟨414, 200⟩ ⟨414, 250⟩ ⟨by decide, by decide⟩ ⟨by decide, by decide⟩⟩

end UIImage

end ProjectF02
