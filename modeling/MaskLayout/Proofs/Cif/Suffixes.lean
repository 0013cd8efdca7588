import MaskLayout.Cif.Command
import MaskLayout.Proofs.Binary64.Direction
import MaskLayout.Proofs.Binary64.Rigid
import MaskLayout.Proofs.Saved.Geometry

/-!
What is lost where a call is written down. A shift that is not seen is left out, and a direction is cut
off to whole numbers. Whether anything is lost by that depends on the multiplier alone: a shift within
the tolerance comes to nothing under every multiplier that does not reach the inverse of the tolerance,
and some component of a direction is left under every multiplier that reaches the root of two.
-/
namespace MaskLayout.Binary64

private theorem size_mul_notANumber {x y : Float} (undefined : infiniteSize < size y) :
    infiniteSize < size (x * y) := by
  have operands (a : Float.Model.UnpackedFloat) :
      Float.Model.UnpackedFloat.mul .binary64 a .notANumber = .notANumber := by
    cases a <;> rfl
  rw [mul_eq, parts_eq_notANumber_iff.mpr undefined]
  exact not_le.mp fun number => size_packed_le_iff.mp number (operands _)

/-- The least multiplier that makes one of a factor, and the number next below it. -/
structure Limit (factor limit below : Float) : Prop where
  nonzero : size factor ≠ 0
  finite : factor.isFinite
  positive : isNegative limit = false
  bounded : limit.isFinite
  next : size limit = size below + 1
  reached : size 1 ≤ magnitude (modulus factor * modulus limit)
  missed : magnitude (modulus factor * modulus below) < size 1

namespace Limit

variable {factor limit below x y : Float}

/-- From the limit on, nothing as far from zero as the factor is lost. -/
theorem truncate_mul_ne_zero (exact : Limit factor limit below) (finite : x.isFinite)
    (large : size factor ≤ size x) (reached : limit ≤ y.abs) : truncate (x * y) ≠ 0 := by
  obtain ⟨same, above⟩ := size_abs y
  obtain ⟨far, number⟩ := (le_iff exact.positive above).mp reached
  rw [same] at far number
  rw [ne_eq, truncate_eq_zero_iff, not_or, not_lt, not_lt]
  rcases number.eq_or_lt with endless | less
  · have some : size x ≠ 0 := (Nat.pos_of_ne_zero exact.nonzero |>.trans_le large).ne'
    rw [size_mul_infinite some (size_lt_of_finite finite).le endless]
    exact ⟨(size_lt_of_finite isFinite_one).le, le_rfl⟩
  · have finite' := isFinite_iff_size.mpr less
    rw [size_mul finite finite']
    refine ⟨exact.reached.trans (magnitude_mono (mul_nonneg (modulus_nonneg _) (modulus_nonneg _)) ?_),
      magnitude_le _⟩
    exact mul_le_mul ((modulus_le_iff exact.finite finite).mpr large)
      ((modulus_le_iff exact.bounded finite').mpr far) (modulus_nonneg _) (modulus_nonneg _)

/-- Below the limit, all that is no further from zero than the factor is lost. -/
theorem truncate_mul_eq_zero (exact : Limit factor limit below) (small : size x ≤ size factor)
    (short : ¬ limit ≤ y.abs) : truncate (x * y) = 0 := by
  obtain ⟨same, above⟩ := size_abs y
  have bounded : below.isFinite := by
    have less := size_lt_of_finite exact.bounded
    rw [exact.next] at less
    exact isFinite_iff_size.mpr (Nat.lt_of_succ_lt less)
  rw [le_iff exact.positive above, same, exact.next, not_and_or, not_le, not_le, Nat.lt_succ_iff] at short
  rw [truncate_eq_zero_iff]
  rcases short with close | undefined
  · have finite := isFinite_iff_size.mpr (small.trans_lt (size_lt_of_finite exact.finite))
    have finite' := isFinite_iff_size.mpr (close.trans_lt (size_lt_of_finite bounded))
    rw [size_mul finite finite']
    refine .inl ((magnitude_mono (mul_nonneg (modulus_nonneg _) (modulus_nonneg _)) ?_).trans_lt exact.missed)
    exact mul_le_mul ((modulus_le_iff finite exact.finite).mpr small)
      ((modulus_le_iff finite' bounded).mpr close) (modulus_nonneg _) (modulus_nonneg _)
  · exact .inr (size_mul_notANumber undefined)

end Limit

end MaskLayout.Binary64

namespace MaskLayout.Cif

open Binary64

/-- The least multiplier that shows a shift within the tolerance. -/
def shiftLimit : Float := 1e9

private theorem limit_tolerance : Limit Scalar.tolerance shiftLimit 999999999.9999999 := by
  constructor <;> decide +kernel

private theorem quantize_unseen {multiplier value : Float} (short : ¬ shiftLimit ≤ multiplier.abs)
    (finite : value.isFinite) (unseen : Scalar.visible value = false) : quantize value multiplier = 0 :=
  Limit.truncate_mul_eq_zero limit_tolerance
    (le_tolerance_iff.mp (le_tolerance_of_number (size_lt_of_finite finite).le unseen)) short

/-- A shift is left out if neither component is seen, and otherwise written as a corner would be. -/
theorem shift_cases (settings : Settings Float) (transform : Transform Float) :
    ((settings.place (placing transform)).shift = none ∧
      Scalar.visible transform.dx = false ∧ Scalar.visible transform.dy = false) ∨
    (settings.place (placing transform)).shift =
      some (quantizePair settings.multiplier (transform.dx, transform.dy)) := by
  unfold Settings.place placing
  dsimp only
  cases moved : transform.doesTranslate with
  | false => exact .inl ⟨rfl, Bool.or_eq_false_iff.mp moved⟩
  | true => exact .inr rfl

private theorem quantize_of_shift_eq_none {settings : Settings Float} {transform : Transform Float}
    (short : ¬ shiftLimit ≤ settings.multiplier.abs) (finite : transform.IsFinite)
    (omitted : (settings.place (placing transform)).shift = none) :
    quantize transform.dx settings.multiplier = 0 ∧ quantize transform.dy settings.multiplier = 0 := by
  rcases shift_cases settings transform with ⟨_, unseen, unseen'⟩ | written
  · exact ⟨quantize_unseen short finite.2.2.1 unseen, quantize_unseen short finite.2.2.2 unseen'⟩
  · rw [written] at omitted
    cases omitted

/-- A shift by the tolerance is left out. -/
theorem tolerance_unseen : (Transform.translate Scalar.tolerance 0 : Transform Float).isRigid ∧
    (Transform.translate Scalar.tolerance 0 : Transform Float).IsFinite ∧
    (placing (Transform.translate Scalar.tolerance 0 : Transform Float)).shift = none := by decide +kernel

/-- Whether leaving out a shift loses something depends on the multiplier alone. Below the limit what is
left out would be drawn nowhere else, so that a call shifts to where a polygon at the same offset is
drawn. From the limit on a shift within the tolerance is lost. -/
theorem shift_kept_iff (settings : Settings Float) (routine : Nat) :
    ((∀ transform : Transform Float, transform.isRigid → transform.IsFinite → ∀ placed,
      settings.call routine transform = .call routine placed → placed.shift = none →
        quantize transform.dx settings.multiplier = 0 ∧ quantize transform.dy settings.multiplier = 0) ↔
      ¬ shiftLimit ≤ settings.multiplier.abs) ∧
    (¬ shiftLimit ≤ settings.multiplier.abs → ∀ transform : Transform Float, transform.IsFinite →
      ∀ placed, settings.call routine transform = .call routine placed →
        settings.command (.polygon ⟨[transform.shift]⟩) = .polygon [placed.shift.getD (0, 0)]) := by
  refine ⟨⟨fun kept reached => ?_, fun short transform _ finite placed called omitted => ?_⟩,
    fun short transform finite placed called => ?_⟩
  · obtain ⟨rigid, finite, unseen⟩ := tolerance_unseen
    have lost := kept (.translate Scalar.tolerance 0) rigid finite _ rfl
      (congrArg (Option.map (quantizePair settings.multiplier)) unseen)
    exact Limit.truncate_mul_ne_zero limit_tolerance (Limit.finite limit_tolerance) le_rfl reached lost.1
  · cases called
    exact quantize_of_shift_eq_none short finite omitted
  · cases called
    rcases shift_cases settings transform with ⟨omitted, _⟩ | written
    · have nothing := quantize_of_shift_eq_none short finite omitted
      rw [omitted]
      exact congrArg (fun pair => Command.polygon [pair]) (Prod.ext nothing.1 nothing.2)
    · rw [written]
      rfl

theorem shift_kept_fails : (Transform.translate (5e-10 : Float) 0).isRigid ∧
    (Transform.translate (5e-10 : Float) 0).IsFinite ∧
    (Settings.call ⟨1e10, 1000, false⟩ 1 (Transform.translate (5e-10 : Float) 0)).text = "C 1;" ∧
    quantize (Transform.translate (5e-10 : Float) 0).dx 1e10 ≠ 0 ∧
    (Settings.command ⟨1e10, 1000, false⟩ (.polygon ⟨[(Transform.translate (5e-10 : Float) 0).shift]⟩)).text =
      "P 5 0;" := by
  decide +kernel

/-- The least multiplier under which no direction vanishes: the number next below the root of two. -/
def directionLimit : Float := 1.414213562373095

private theorem limit_diagonal : Limit diagonal directionLimit 1.4142135623730947 := by
  constructor <;> decide +kernel

private theorem quantize_direction {multiplier angle : Float} (reached : directionLimit ≤ multiplier.abs)
    (finite : angle.isFinite) : quantizePair multiplier (cos angle, sin angle) ≠ (0, 0) := by
  have one := size_lt_of_finite isFinite_one
  intro nothing
  rcases size_diagonal_le finite with long | long
  · exact Limit.truncate_mul_ne_zero limit_diagonal (isFinite_iff_size.mpr ((size_cos_le finite).trans_lt one))
      long reached (congrArg Prod.fst nothing)
  · exact Limit.truncate_mul_ne_zero limit_diagonal (isFinite_iff_size.mpr ((size_sin_le finite).trans_lt one))
      long reached (congrArg Prod.snd nothing)

/-- Below the limit a direction is lost if neither component is longer than half the root of two. -/
theorem quantize_short {multiplier cosine sine : Float} (small : size cosine ≤ size diagonal)
    (small' : size sine ≤ size diagonal) (short : ¬ directionLimit ≤ multiplier.abs) :
    quantizePair multiplier (cosine, sine) = (0, 0) :=
  Prod.ext (Limit.truncate_mul_eq_zero limit_diagonal small short)
    (Limit.truncate_mul_eq_zero limit_diagonal small' short)

/-- Half a quarter turn has no component longer than half the root of two. -/
theorem diagonal_turned : (Transform.rotate (45 : Float)).isRigid ∧
    (Transform.rotate (45 : Float)).IsFinite ∧ (Transform.rotate (45 : Float)).doesRotate ∧
    size (cos (Transform.rotate (45 : Float)).rotation) ≤ size diagonal ∧
    size (sin (Transform.rotate (45 : Float)).rotation) ≤ size diagonal := by decide +kernel

private theorem direction_of_doesRotate (settings : Settings Float) {transform : Transform Float}
    (turned : transform.doesRotate) : (settings.place (placing transform)).direction =
      some (quantizePair settings.rotationMultiplier (cos transform.rotation, sin transform.rotation)) := by
  unfold Settings.place placing
  dsimp only
  rw [if_pos turned]
  rfl

/-- Below the limit half a quarter turn is written without a direction. -/
theorem text_rotate_diagonal {settings : Settings Float} (routine : Nat)
    (short : ¬ directionLimit ≤ settings.rotationMultiplier.abs) :
    (settings.call routine (.rotate 45)).text = s!"C {routine} R 0 0;" := by
  obtain ⟨_, _, turned, cosine, sine⟩ := diagonal_turned
  have direction := direction_of_doesRotate settings turned
  rw [quantize_short cosine sine short] at direction
  have upright : (placing (.rotate 45 : Transform Float)).mirrored = false ∧
      (placing (.rotate 45 : Transform Float)).shift = none := by decide +kernel
  unfold Settings.call
  generalize placing (.rotate 45 : Transform Float) = placed at direction upright ⊢
  obtain ⟨mirrored, shift⟩ := upright
  have zeros : Command.partText "R" (some (0, 0)) ++ ";" = toString " R 0 0;" := by decide +kernel
  have unmarked : (if (settings.place placed).mirrored then " MY" else "") = "" := by
    simp [Settings.place, mirrored]
  have unmoved : Command.partText "T" (settings.place placed).shift = "" := by
    simp [Settings.place, shift, Command.partText]
  rw [Command.text, direction, unmarked, unmoved, String.append_empty, String.append_empty,
    String.append_assoc, zeros]

/-- Whether a call that is turned says where to depends on the multiplier of directions alone: from the
root of two on no direction is cut off to nothing, and below it half a quarter turn is. -/
theorem direction_kept_iff (settings : Settings Float) (routine : Nat) :
    ((∀ transform : Transform Float, transform.isRigid → transform.IsFinite → transform.doesRotate →
      ∀ placed, settings.call routine transform = .call routine placed →
        ∃ direction, placed.direction = some direction ∧ direction ≠ (0, 0)) ↔
      directionLimit ≤ settings.rotationMultiplier.abs) ∧
    (¬ directionLimit ≤ settings.rotationMultiplier.abs →
      (settings.call routine (.rotate 45)).text = s!"C {routine} R 0 0;") := by
  refine ⟨⟨fun kept => ?_, fun reached transform _ finite turned placed called => ?_⟩,
    text_rotate_diagonal routine⟩
  · by_contra short
    obtain ⟨rigid, finite, turned, cosine, sine⟩ := diagonal_turned
    obtain ⟨direction, same, some⟩ := kept (.rotate 45) rigid finite turned _ rfl
    rw [direction_of_doesRotate settings turned, quantize_short cosine sine short] at same
    exact some (Option.some.inj same).symm
  · cases called
    exact ⟨_, direction_of_doesRotate settings turned, quantize_direction reached
      (Transform.isFinite_rotation finite.1.1 finite.2.1.1)⟩

theorem direction_kept_fails : (Transform.rotate (45 : Float)).isRigid ∧
    (Transform.rotate (45 : Float)).IsFinite ∧ (Transform.rotate (45 : Float)).doesRotate ∧
    (Settings.call ⟨1, 1, false⟩ 1 (Transform.rotate (45 : Float))).text = "C 1 R 0 0;" := by
  decide +kernel

end MaskLayout.Cif
