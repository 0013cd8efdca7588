import MaskLayout.Geometry.Decomposition

namespace MaskLayout.Transform

variable {K : Type} [Scalar K]

theorem scaleX_eq_hypot (transform : Transform K) :
    transform.decompose.scaleX = Scalar.hypot transform.xx transform.yx := by
  unfold decompose
  dsimp only
  split <;> rfl

theorem isRigid_iff {transform : Transform K} : transform.isRigid ↔
    (Scalar.visible (transform.decompose.scaleX - 1) = false ∧
      Scalar.visible (Scalar.abs transform.decompose.scaleY - 1) = false) ∧
        Scalar.visible transform.decompose.shear = false := by
  simp only [isRigid, doesScale, doesShear, shearFactor, Bool.and_eq_true, Bool.not_eq_true',
    Bool.or_eq_false_iff]

/-- The factors are within the tolerance of those of a rigid transform, and so they are numbers. -/
structure Carried (transform : Transform K) : Prop where
  scaleX : Scalar.abs (transform.decompose.scaleX - 1) ≤ Scalar.tolerance
  scaleY : Scalar.abs (Scalar.abs transform.decompose.scaleY - 1) ≤ Scalar.tolerance
  shear : Scalar.abs transform.decompose.shear ≤ Scalar.tolerance

instance (transform : Transform K) : Decidable transform.Carried :=
  decidable_of_iff (_ ∧ _ ∧ _) ⟨fun parts => ⟨parts.1, parts.2.1, parts.2.2⟩,
    fun carried => ⟨carried.scaleX, carried.scaleY, carried.shear⟩⟩

end MaskLayout.Transform
