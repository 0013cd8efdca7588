import MaskLayout.Proofs.Binary64.Size

namespace MaskLayout.Binary64

open Float.Model
open Float.Model.UnpackedFloat

def signed (negative : Bool) (size : Nat) : Int := if negative then -size else size

/-- The size of a number with its sign. -/
def rank (x : Float) : Int := signed (isNegative x) (size x)

private theorem isNaN_iff_size {x : Float} : x.isNaN ↔ infiniteSize < size x := by
  rw [← unpack_eq_notANumber_iff, ← isNaN_iff]
  rfl

theorem number_iff {x : Float} : ¬ x.isNaN ↔ size x ≤ infiniteSize := by
  rw [isNaN_iff_size, not_lt]

private theorem signed_true (size : Nat) : signed true size = -size := rfl

private theorem signed_false (size : Nat) : signed false size = size := rfl

private theorem signed_zero (negative : Bool) : signed negative 0 = 0 := by
  cases negative <;> rfl

private theorem signed_between {size bound : Nat} (small : size < bound) (negative : Bool) :
    -(bound : Int) < signed negative size ∧ signed negative size < bound := by
  cases negative <;> simp only [signed] <;> constructor <;> simp <;> omega

private theorem signed_apart {size : Nat} (positive : 0 < size) :
    signed true size < 0 ∧ 0 < signed false size :=
  ⟨Int.neg_neg_of_pos (Int.natCast_pos.mpr positive), Int.natCast_pos.mpr positive⟩

/-- The sign and the size of what is a number. -/
inductive Measured : UnpackedFloat → Bool → Nat → Prop where
  | infinite {negative : Bool} {size : Nat} (large : size = infiniteSize) :
      Measured (.infinity (signOf negative)) negative size
  | zero {negative : Bool} {size : Nat} (nothing : size = 0) :
      Measured (.zero (signOf negative)) negative size
  | finite {negative : Bool} {mantissa : Nat} {exponent : Int} {size : Nat}
      (proper : Proper mantissa exponent)
      (word : size = (exponent + 1074).toNat * exponentWeight + mantissa) :
      Measured (.finite (signOf negative) mantissa exponent proper.positive) negative size

private theorem measured {x : Float} (number : size x ≤ infiniteSize) :
    Measured x.toModel.unpack (isNegative x) (size x) := by
  rw [unpack_eq]
  cases found : parts x with
  | notANumber => exact absurd (parts_eq_notANumber_iff.mp found) number.not_gt
  | infinite negative =>
    obtain ⟨rfl, large⟩ := size_of_infinite found
    exact .infinite large
  | finite negative mantissa exponent =>
    obtain ⟨rfl, shape, _⟩ := toBits_of_parts found
    have word := size_of_finite found
    rcases shape with ⟨rfl, rfl⟩ | proper
    · exact .zero word
    · rw [Parts.unpacked, dif_pos proper.positive]
      exact .finite proper word

/-- Exponents are compared before mantissas, and so are words. -/
theorem Proper.compare_size {mantissa mantissa' : Nat} {exponent exponent' : Int}
    (proper : Proper mantissa exponent) (proper' : Proper mantissa' exponent') :
    (compare exponent exponent').then (compare mantissa mantissa') =
      compare (((exponent + 1074).toNat * exponentWeight + mantissa : Nat) : Int)
        ((exponent' + 1074).toNat * exponentWeight + mantissa' : Nat) := by
  have low := proper.low
  have low' := proper'.low
  have short := proper.short
  have short' := proper'.short
  have long := proper.long
  have long' := proper'.long
  unfold exponentWeight at *
  rcases lt_trichotomy exponent exponent' with less | rfl | greater
  · rw [compare_lt_iff_lt.mpr less]
    exact (compare_lt_iff_lt.mpr (by omega)).symm
  · rw [compare_eq_iff_eq.mpr rfl]
    rcases lt_trichotomy mantissa mantissa' with less | rfl | greater
    · exact (compare_lt_iff_lt.mpr less).trans (compare_lt_iff_lt.mpr (by omega)).symm
    · exact (compare_eq_iff_eq.mpr rfl).trans (compare_eq_iff_eq.mpr rfl).symm
    · exact (compare_gt_iff_gt.mpr greater).trans (compare_gt_iff_gt.mpr (by omega)).symm
  · rw [compare_gt_iff_gt.mpr greater]
    exact (compare_gt_iff_gt.mpr (by omega)).symm

private theorem Proper.size_pos {mantissa : Nat} {exponent : Int} (proper : Proper mantissa exponent) :
    0 < (exponent + 1074).toNat * exponentWeight + mantissa :=
  Nat.add_pos_right _ proper.positive

private theorem some_lt {a b : Int} (less : a < b) : some Ordering.lt = some (compare a b) :=
  congrArg some (compare_lt_iff_lt.mpr less).symm

private theorem some_gt {a b : Int} (greater : b < a) : some Ordering.gt = some (compare a b) :=
  congrArg some (compare_gt_iff_gt.mpr greater).symm

private theorem some_eq (a : Int) : some Ordering.eq = some (compare a a) :=
  congrArg some (compare_eq_iff_eq.mpr rfl).symm

private theorem compare_neg_neg (a b : Int) : compare (-a) (-b) = (compare a b).swap := by
  rcases Int.lt_trichotomy a b with less | rfl | greater
  · rw [compare_lt_iff_lt.mpr less]
    exact compare_gt_iff_gt.mpr (Int.neg_lt_neg less)
  · rw [compare_eq_iff_eq.mpr (rfl : a = a)]
    exact compare_eq_iff_eq.mpr rfl
  · rw [compare_gt_iff_gt.mpr greater]
    exact compare_lt_iff_lt.mpr (Int.neg_lt_neg greater)

/-- Numbers compare as their sizes with their signs do. -/
theorem Measured.compare_eq {a b : UnpackedFloat} {negative negative' : Bool} {size size' : Nat}
    (first : Measured a negative size) (second : Measured b negative' size') :
    a.compare b = some (compare (signed negative size) (signed negative' size')) := by
  have far : 0 < infiniteSize := by decide
  cases first with
  | infinite large =>
    have apart := signed_apart (large ▸ far)
    cases second with
    | infinite large' =>
      obtain rfl : size = size' := large.trans large'.symm
      cases negative <;> cases negative'
      · exact some_eq _
      · exact some_gt (apart.1.trans apart.2)
      · exact some_lt (apart.1.trans apart.2)
      · exact some_eq _
    | zero nothing =>
      rw [nothing, signed_zero]
      cases negative
      · exact some_gt apart.2
      · exact some_lt apart.1
    | finite proper word =>
      have between := signed_between (large ▸ word ▸ proper.size_lt) negative'
      cases negative
      · exact some_gt between.2
      · exact some_lt between.1
  | zero nothing =>
    rw [nothing, signed_zero]
    cases second with
    | infinite large =>
      have apart := signed_apart (large ▸ far)
      cases negative'
      · exact some_lt apart.2
      · exact some_gt apart.1
    | zero nothing' =>
      rw [nothing', signed_zero]
      exact some_eq 0
    | finite proper word =>
      have apart := signed_apart (word ▸ proper.size_pos)
      cases negative'
      · exact some_lt apart.2
      · exact some_gt apart.1
  | finite proper word =>
    have apart := signed_apart (word ▸ proper.size_pos)
    cases second with
    | infinite large =>
      have between := signed_between (large ▸ word ▸ proper.size_lt) negative
      cases negative'
      · exact some_lt between.2
      · exact some_gt between.1
    | zero nothing =>
      rw [nothing, signed_zero]
      cases negative
      · exact some_gt apart.2
      · exact some_lt apart.1
    | finite proper' word' =>
      have apart' := signed_apart (word' ▸ proper'.size_pos)
      have sizes := proper.compare_size proper'
      rw [← word, ← word'] at sizes
      cases negative <;> cases negative'
      · rw [signed_false, signed_false, ← sizes]
        rfl
      · exact some_gt (apart'.1.trans apart.2)
      · exact some_lt (apart.1.trans apart'.2)
      · rw [signed_true, signed_true, compare_neg_neg, ← sizes]
        rfl

private theorem compare_eq_none {x y : Float} (none : infiniteSize < size x ∨ infiniteSize < size y) :
    x.toModel.unpack.compare y.toModel.unpack = Option.none := by
  rcases none with first | second
  · rw [unpack_eq_notANumber_iff.mpr first]
    rfl
  · rw [unpack_eq_notANumber_iff.mpr second]
    cases x.toModel.unpack with
    | infinity sign => cases sign <;> rfl
    | notANumber => rfl
    | zero sign => rfl
    | finite sign mantissa exponent positive => cases sign <;> rfl

section Numbers

variable {x y : Float} (number : size x ≤ infiniteSize) (number' : size y ≤ infiniteSize)

include number number'

private theorem lt_iff_rank : x < y ↔ rank x < rank y := by
  change decide (x.toModel.unpack.lt y.toModel.unpack = true) = true ↔ _
  rw [decide_eq_true_iff, UnpackedFloat.lt, (measured number).compare_eq (measured number')]
  simp only [Option.some_beq_some, beq_iff_eq, compare_lt_iff_lt]
  rfl

private theorem le_iff_rank : x ≤ y ↔ rank x ≤ rank y := by
  change decide (x.toModel.unpack.le y.toModel.unpack = true) = true ↔ _
  rw [decide_eq_true_iff, UnpackedFloat.le, (measured number).compare_eq (measured number')]
  simp only [Option.any_some, Int.isLE_compare]
  rfl

/-- Numbers are equal as numbers exactly if they have the same rank. -/
theorem beq_iff_rank : x == y ↔ rank x = rank y := by
  change x.toModel.unpack.beq y.toModel.unpack = true ↔ _
  rw [UnpackedFloat.beq, (measured number).compare_eq (measured number')]
  simp only [Option.some_beq_some, beq_iff_eq, compare_eq_iff_eq]
  rfl

end Numbers

/-- What is not a number is not less than any, and none is less than it. -/
theorem number_of_lt {x y : Float} (less : x < y) : size x ≤ infiniteSize ∧ size y ≤ infiniteSize := by
  by_contra none
  rw [not_and_or, not_le, not_le] at none
  change decide (x.toModel.unpack.lt y.toModel.unpack = true) = true at less
  rw [decide_eq_true_iff, UnpackedFloat.lt, compare_eq_none none] at less
  cases less

theorem number_of_le {x y : Float} (le : x ≤ y) : size x ≤ infiniteSize ∧ size y ≤ infiniteSize := by
  by_contra none
  rw [not_and_or, not_le, not_le] at none
  change decide (x.toModel.unpack.le y.toModel.unpack = true) = true at le
  rw [decide_eq_true_iff, UnpackedFloat.le, compare_eq_none none] at le
  cases le

private theorem rank_of_nonneg {x : Float} (above : isNegative x = false) : rank x = size x := by
  rw [rank, above]
  rfl

/-- Which of two numbers that are not negative is less. -/
theorem lt_iff {x y : Float} (above : isNegative x = false) (above' : isNegative y = false) :
    x < y ↔ size x < size y ∧ size y ≤ infiniteSize := by
  constructor
  · intro less
    obtain ⟨number, number'⟩ := number_of_lt less
    have ranks := (lt_iff_rank number number').mp less
    rw [rank_of_nonneg above, rank_of_nonneg above'] at ranks
    exact ⟨by omega, number'⟩
  · intro less
    rw [lt_iff_rank (less.1.le.trans less.2) less.2, rank_of_nonneg above, rank_of_nonneg above']
    exact Int.ofNat_lt.mpr less.1

theorem le_iff {x y : Float} (above : isNegative x = false) (above' : isNegative y = false) :
    x ≤ y ↔ size x ≤ size y ∧ size y ≤ infiniteSize := by
  constructor
  · intro le
    obtain ⟨number, number'⟩ := number_of_le le
    have ranks := (le_iff_rank number number').mp le
    rw [rank_of_nonneg above, rank_of_nonneg above'] at ranks
    exact ⟨by omega, number'⟩
  · intro le
    rw [le_iff_rank (le.1.trans le.2) le.2, rank_of_nonneg above, rank_of_nonneg above']
    exact Int.ofNat_le.mpr le.1

theorem le_self {x : Float} (number : size x ≤ infiniteSize) : x ≤ x :=
  (le_iff_rank number number).mpr le_rfl

theorem le_through {x y z : Float} (first : x ≤ y) (second : y ≤ z) : x ≤ z := by
  obtain ⟨number, number'⟩ := number_of_le first
  obtain ⟨_, number''⟩ := number_of_le second
  rw [le_iff_rank number number'']
  exact ((le_iff_rank number number').mp first).trans ((le_iff_rank number' number'').mp second)

theorem beq_of_le {x y : Float} (below : x ≤ y) (above : y ≤ x) : x == y := by
  obtain ⟨number, number'⟩ := number_of_le below
  rw [beq_iff_rank number number']
  exact ((le_iff_rank number number').mp below).antisymm ((le_iff_rank number' number).mp above)

theorem least_eq_or (x y : Float) : least x y = x ∨ least x y = y := by
  unfold least
  split_ifs <;> simp only [or_true, true_or]

theorem greatest_eq_or (x y : Float) : greatest x y = x ∨ greatest x y = y := by
  unfold greatest
  split_ifs <;> simp only [or_true, true_or]

theorem least_le {x y : Float} (number : size x ≤ infiniteSize) (number' : size y ≤ infiniteSize) :
    least x y ≤ x ∧ least x y ≤ y := by
  rw [least, if_neg (number_iff.mpr number)]
  split
  · rename_i less
    rw [lt_iff_rank number' number] at less
    exact ⟨(le_iff_rank number' number).mpr less.le, le_self number'⟩
  · rename_i least
    rw [lt_iff_rank number' number, not_lt] at least
    exact ⟨le_self number, (le_iff_rank number number').mpr least⟩

theorem le_greatest {x y : Float} (number : size x ≤ infiniteSize) (number' : size y ≤ infiniteSize) :
    x ≤ greatest x y ∧ y ≤ greatest x y := by
  rw [greatest, if_neg (number_iff.mpr number)]
  split
  · rename_i less
    rw [lt_iff_rank number number'] at less
    exact ⟨(le_iff_rank number number').mpr less.le, le_self number'⟩
  · rename_i greatest
    rw [lt_iff_rank number number', not_lt] at greatest
    exact ⟨le_self number, (le_iff_rank number' number).mpr greatest⟩

end MaskLayout.Binary64
