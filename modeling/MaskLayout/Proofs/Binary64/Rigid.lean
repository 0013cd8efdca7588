import MaskLayout.Proofs.Binary64.Angle
import MaskLayout.Proofs.Binary64.Arithmetic
import MaskLayout.Proofs.Binary64.Order
import MaskLayout.Proofs.Geometry.Decomposition

namespace MaskLayout.Binary64

private theorem tolerance_proper : isNegative (Scalar.tolerance : Float) = false ∧
    0 < size (Scalar.tolerance : Float) ∧ size (Scalar.tolerance : Float) < infiniteSize := by
  decide

private theorem visible_iff {value : Float} : Scalar.visible value ↔
    size (Scalar.tolerance : Float) < size value ∧ size value ≤ infiniteSize := by
  obtain ⟨same, above⟩ := size_abs value
  rw [Scalar.visible, decide_eq_true_iff, ← same]
  exact lt_iff tolerance_proper.1 above

theorem le_tolerance_iff {value : Float} : Scalar.abs value ≤ Scalar.tolerance ↔
    size value ≤ size (Scalar.tolerance : Float) := by
  obtain ⟨same, above⟩ := size_abs value
  rw [← same]
  exact (le_iff above tolerance_proper.1).trans (and_iff_left tolerance_proper.2.2.le)

private theorem lt_tolerance_of_zero {value : Float} (nothing : size value = 0) :
    Scalar.abs value < Scalar.tolerance := by
  obtain ⟨same, above⟩ := size_abs value
  obtain ⟨positive, some, finite⟩ := tolerance_proper
  refine (lt_iff above positive).mpr ⟨?_, finite.le⟩
  rw [same, nothing]
  exact some

/-- Of a number, what is not seen is within the tolerance. -/
theorem le_tolerance_of_number {value : Float} (number : size value ≤ infiniteSize)
    (unseen : Scalar.visible value = false) : Scalar.abs value ≤ Scalar.tolerance := by
  rw [le_tolerance_iff]
  by_contra far
  exact Bool.false_ne_true (unseen.symm.trans (visible_iff.mpr ⟨not_le.mp far, number⟩))

private theorem isFinite_of_le_tolerance {value : Float} (close : Scalar.abs value ≤ Scalar.tolerance) :
    value.isFinite :=
  isFinite_iff_size.mpr ((le_tolerance_iff.mp close).trans_lt tolerance_proper.2.2)

private theorem isFinite_abs_iff {value : Float} : value.abs.isFinite ↔ value.isFinite := by
  rw [isFinite_iff_size, isFinite_iff_size, (size_abs value).1]

private theorem size_hypot_le {x y : Float} (finite : x.isFinite) (finite' : y.isFinite) :
    size (hypot x y) ≤ infiniteSize := by
  obtain ⟨m, p, found⟩ := exists_parts finite
  obtain ⟨n, q, found'⟩ := exists_parts finite'
  unfold hypot
  rw [found, found']
  dsimp only
  unfold ofSquare
  dsimp only
  rw [size_ofRatio _ _ (scaled_pos _ Nat.one_pos _)]
  exact magnitude_le _

private theorem not_isFinite_special : ¬ (infinite false).isFinite ∧ ¬ notANumber.isFinite := by decide

/-- A length is finite only between finite components. -/
theorem isFinite_of_hypot {x y : Float} (finite : (hypot x y).isFinite) : x.isFinite ∧ y.isFinite := by
  obtain ⟨endless, undefined⟩ := not_isFinite_special
  unfold hypot at finite
  split at finite
  · exact absurd finite endless
  · exact absurd finite endless
  · exact absurd finite undefined
  · exact absurd finite undefined
  · rename_i found found'
    exact ⟨isFinite_of_parts found, isFinite_of_parts found'⟩

end MaskLayout.Binary64

namespace MaskLayout.Transform

open Binary64

/-- Finite up to the shift. -/
def LinearFinite (transform : Transform Float) : Prop :=
  (transform.xx.isFinite ∧ transform.xy.isFinite) ∧ (transform.yx.isFinite ∧ transform.yy.isFinite)

instance (transform : Transform Float) : Decidable transform.LinearFinite :=
  inferInstanceAs (Decidable ((_ ∧ _) ∧ (_ ∧ _)))

theorem isFinite_rotation {transform : Transform Float} (xx : transform.xx.isFinite)
    (yx : transform.yx.isFinite) : transform.rotation.isFinite := by
  have zero : (0 : Float).isFinite := by decide
  unfold rotation decompose
  dsimp only
  split
  · exact zero
  · exact isFinite_atan2 xx yx

private theorem linearFinite_of_carried {transform : Transform Float} (carried : transform.Carried) :
    transform.LinearFinite := by
  obtain ⟨first, second, third⟩ := carried
  rw [scaleX_eq_hypot] at first
  obtain ⟨xx, yx⟩ := isFinite_of_hypot (isFinite_of_sub (isFinite_of_le_tolerance first)).1
  have height : transform.decompose.scaleY.isFinite :=
    isFinite_abs_iff.mp (isFinite_of_sub (isFinite_of_le_tolerance second)).1
  suffices transform.xy.isFinite ∧ transform.yy.isFinite from ⟨⟨xx, this.1⟩, yx, this.2⟩
  unfold decompose at height third
  dsimp only at height third
  split at height
  · rename_i degenerate
    rw [if_pos degenerate] at third
    exact ⟨isFinite_of_le_tolerance third, height⟩
  · obtain ⟨along, across⟩ := isFinite_of_sub height
    exact ⟨(isFinite_of_mul across).1, (isFinite_of_mul along).1⟩

/-- The tests of a rigid transform are sound where the linear part is finite: all that they compare is
a number then. -/
theorem carried_of_linearFinite {transform : Transform Float} (rigid : transform.isRigid)
    (finite : transform.LinearFinite) : transform.Carried := by
  obtain ⟨⟨xx, xy⟩, yx, yy⟩ := finite
  obtain ⟨⟨width, height⟩, slant⟩ := isRigid_iff.mp rigid
  have first : size (transform.decompose.scaleX - 1) ≤ infiniteSize := by
    rw [scaleX_eq_hypot]
    exact size_sub_le (size_hypot_le xx yx) isFinite_one
  have angle := isFinite_atan2 xx yx
  have turned (x y : Float) (finite : x.isFinite) (finite' : y.isFinite) :
      (x * cos (atan2 transform.yx transform.xx)).isFinite ∧
        (y * sin (atan2 transform.yx transform.xx)).isFinite :=
    ⟨isFinite_mul finite (size_cos_le angle), isFinite_mul finite' (size_sin_le angle)⟩
  have across : size transform.decompose.scaleY ≤ infiniteSize := by
    unfold decompose
    dsimp only
    split
    · exact (size_lt_of_finite yy).le
    · obtain ⟨left, right⟩ := turned _ _ yy xy
      exact size_sub_le (size_lt_of_finite left).le right
  have second : size (Scalar.abs transform.decompose.scaleY - 1) ≤ infiniteSize :=
    size_sub_le ((size_abs _).1.trans_le across) isFinite_one
  have within := le_tolerance_of_number second height
  have third : size transform.decompose.shear ≤ infiniteSize := by
    have finite : transform.decompose.scaleY.isFinite :=
      isFinite_abs_iff.mp (isFinite_of_sub (isFinite_of_le_tolerance within)).1
    unfold decompose at finite ⊢
    dsimp only at finite ⊢
    split
    · exact (size_lt_of_finite xy).le
    · rename_i proper
      rw [if_neg proper] at finite
      obtain ⟨left, right⟩ := turned _ _ xy yy
      have along := size_add_le left right
      split
      · exact along
      · rename_i steep
        exact size_div_le along finite fun nothing => steep (lt_tolerance_of_zero nothing)
  exact ⟨le_tolerance_of_number first width, within, le_tolerance_of_number third slant⟩

theorem carried_iff_linearFinite {transform : Transform Float} (rigid : transform.isRigid) :
    transform.Carried ↔ transform.LinearFinite :=
  ⟨linearFinite_of_carried, carried_of_linearFinite rigid⟩

end MaskLayout.Transform
