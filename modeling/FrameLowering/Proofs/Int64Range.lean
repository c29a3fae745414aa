import FrameLowering.Lowering.Target
import Mathlib.Algebra.Group.Int.Defs
import Mathlib.Algebra.Group.Nat.Defs
import Mathlib.Data.Int.Basic
import Mathlib.Tactic.Common

/-!
# Integers that stay in range

Sizes and offsets are 64-bit integers. Where a sum, difference or multiple is in range it
has the expected value, and rounding up to an alignment gives the next multiple.
-/

namespace FrameLowering

theorem bmod_of_range {x : Int} (hlo : -2 ^ 63 ≤ x) (hhi : x < 2 ^ 63) : x.bmod (2 ^ 64) = x :=
  Int.bmod_eq_of_le (by omega) (by omega)

theorem toInt_add_of_range {a b : Int64} (hlo : -2 ^ 63 ≤ a.toInt + b.toInt)
    (hhi : a.toInt + b.toInt < 2 ^ 63) : (a + b).toInt = a.toInt + b.toInt := by
  rw [Int64.toInt_add, bmod_of_range hlo hhi]

theorem toInt_sub_of_range {a b : Int64} (hlo : -2 ^ 63 ≤ a.toInt - b.toInt)
    (hhi : a.toInt - b.toInt < 2 ^ 63) : (a - b).toInt = a.toInt - b.toInt := by
  rw [Int64.toInt_sub, bmod_of_range hlo hhi]

theorem toInt_mul_of_range {a b : Int64} (hlo : -2 ^ 63 ≤ a.toInt * b.toInt)
    (hhi : a.toInt * b.toInt < 2 ^ 63) : (a * b).toInt = a.toInt * b.toInt := by
  rw [Int64.toInt_mul, bmod_of_range hlo hhi]

theorem toInt_neg_of_range {a : Int64} (h : -2 ^ 63 < a.toInt) : (-a).toInt = -a.toInt := by
  have := a.toInt_lt
  rw [Int64.toInt_neg, bmod_of_range (by omega) (by omega)]

/-- Rounding up gives the least multiple that is not below. -/
theorem toInt_alignTo {n a : Int64} (hn : 0 ≤ n.toInt) (ha : 0 < a.toInt)
    (h : n.toInt + a.toInt ≤ 2 ^ 63) :
    n.toInt ≤ (alignTo n a).toInt ∧ (alignTo n a).toInt < n.toInt + a.toInt ∧
      a.toInt ∣ (alignTo n a).toInt := by
  -- the sum may wrap around by one, and comes back
  have hadd : (n + a - 1).toInt = n.toInt + a.toInt - 1 := by
    have hone : (1 : Int64).toInt = 1 := rfl
    rw [Int64.toInt_sub, Int64.toInt_add, Int.bmod_sub_bmod, hone]
    exact bmod_of_range (by omega) (by omega)
  have hdiv : ((n + a - 1) / a).toInt = (n.toInt + a.toInt - 1) / a.toInt := by
    have hne : a ≠ -1 := by
      rintro rfl
      exact absurd ha (by decide)
    rw [Int64.toInt_div_of_ne_right _ _ hne, hadd, Int.tdiv_eq_ediv_of_nonneg (by omega)]
  have hle : (n.toInt + a.toInt - 1) / a.toInt * a.toInt ≤ n.toInt + a.toInt - 1 :=
    Int.ediv_mul_le _ (by omega)
  have hge : n.toInt + a.toInt - 1 < (n.toInt + a.toInt - 1) / a.toInt * a.toInt + a.toInt :=
    lt_of_lt_of_eq (Int.lt_ediv_add_one_mul_self _ ha) (by rw [Int.add_mul, Int.one_mul])
  have hval : (alignTo n a).toInt = (n.toInt + a.toInt - 1) / a.toInt * a.toInt := by
    rw [alignTo, toInt_mul_of_range (by rw [hdiv]; omega) (by rw [hdiv]; omega), hdiv]
  rw [hval]
  exact ⟨by omega, by omega, Int.dvd_mul_left _ _⟩

/-- Also where sums wrap around, rounding adds little. From below zero it can go up by an alignment
too much, since quotients are rounded toward zero. -/
theorem toInt_alignTo_sub {n a : Int64} (ha : 0 < a.toInt) (hmax : a.toInt ≤ 2 ^ 62) :
    0 ≤ (alignTo n a - n).toInt ∧ (alignTo n a - n).toInt ≤ 2 * a.toInt - 2 := by
  have hone : (1 : Int64).toInt = 1 := rfl
  have hne : a ≠ -1 := by
    rintro rfl
    exact absurd ha (by decide)
  generalize hx : n + a - 1 = x
  -- the quotient times the divisor is not further from zero than the dividend
  have hle : (x.toInt.tdiv a.toInt * a.toInt).natAbs ≤ x.toInt.natAbs := by
    rw [Int.natAbs_mul, Int.natAbs_tdiv]
    exact Nat.div_mul_le_self _ _
  have hlo := x.le_toInt
  have hhi := x.toInt_lt
  have hrest : x.toInt.tdiv a.toInt * a.toInt = x.toInt - x.toInt.tmod a.toInt := by
    have := Int.tdiv_mul_add_tmod x.toInt a.toInt
    omega
  have hlt := Int.tmod_lt_of_pos x.toInt ha
  have hgt := Int.lt_tmod_of_pos x.toInt ha
  rw [hrest] at hle
  have hround : (alignTo n a).toInt = x.toInt - x.toInt.tmod a.toInt := by
    rw [alignTo, hx, Int64.toInt_mul, Int64.toInt_div_of_ne_right _ _ hne, hrest]
    exact bmod_of_range (by omega) (by omega)
  have hwrap : ∃ k : Int, x.toInt = n.toInt + a.toInt - 1 + ((2 ^ 64 : Nat) : Int) * k := by
    refine ⟨-(n.toInt + a.toInt - 1).bdiv (2 ^ 64), ?_⟩
    have hsum := Int.bmod_add_bdiv (n.toInt + a.toInt - 1) (2 ^ 64)
    rw [← hx, Int64.toInt_sub, Int64.toInt_add, Int.bmod_sub_bmod, hone]
    rw [Int.mul_neg]
    omega
  obtain ⟨k, hk⟩ := hwrap
  have hdiff : (alignTo n a - n).toInt = a.toInt - 1 - x.toInt.tmod a.toInt := by
    rw [Int64.toInt_sub, hround]
    have hover : x.toInt - x.toInt.tmod a.toInt - n.toInt =
        a.toInt - 1 - x.toInt.tmod a.toInt + ((2 ^ 64 : Nat) : Int) * k := by
      omega
    rw [hover, Int.add_mul_bmod_self_left]
    exact bmod_of_range (by omega) (by omega)
  omega

/-! ## Magnitudes -/

/-- An integer is below a bound in magnitude. -/
def IsBelow (bound : Nat) (v : Int64) : Prop :=
  v.toInt.natAbs < bound

instance (bound : Nat) (v : Int64) : Decidable (IsBelow bound v) :=
  inferInstanceAs (Decidable (_ < _))

section
variable {m n : Nat} {a b : Int64}

theorem IsBelow.mono (h : IsBelow m a) (hmn : m ≤ n) : IsBelow n a :=
  Nat.lt_of_lt_of_le h hmn

theorem IsBelow.add (ha : IsBelow m a) (hb : IsBelow n b) (h : m + n ≤ 2 ^ 63) :
    IsBelow (m + n) (a + b) := by
  rw [IsBelow] at *
  rw [toInt_add_of_range (by omega) (by omega)]
  omega

theorem IsBelow.sub (ha : IsBelow m a) (hb : IsBelow n b) (h : m + n ≤ 2 ^ 63) :
    IsBelow (m + n) (a - b) := by
  rw [IsBelow] at *
  rw [toInt_sub_of_range (by omega) (by omega)]
  omega

theorem IsBelow.neg (ha : IsBelow m a) (h : m ≤ 2 ^ 63) : IsBelow m (-a) := by
  rw [IsBelow] at *
  rw [toInt_neg_of_range (by omega)]
  omega

theorem IsBelow.ne_minValue (ha : IsBelow m a) (h : m ≤ 2 ^ 63) : a ≠ Int64.minValue := by
  rintro rfl
  have hmin : Int64.minValue.toInt.natAbs = 2 ^ 63 := by decide
  rw [IsBelow] at ha
  omega

/-- Rounding to an alignment moves by less than the alignment, whatever the signs. -/
theorem IsBelow.alignTo (ha : IsBelow m a) (hb : IsBelow n b) (h : m + n ≤ 2 ^ 63) :
    IsBelow (m + n) (alignTo a b) := by
  have hone : (1 : Int64).toInt = 1 := rfl
  rw [IsBelow] at *
  have hsum : (a + b).toInt = a.toInt + b.toInt := toInt_add_of_range (by omega) (by omega)
  have hx : (a + b - 1).toInt = a.toInt + b.toInt - 1 := by
    rw [toInt_sub_of_range (by omega) (by omega), hsum, hone]
  have hne : a + b - 1 ≠ Int64.minValue := by
    intro hmin
    rw [hmin] at hx
    have : Int64.minValue.toInt = -2 ^ 63 := by decide
    omega
  -- the quotient times the divisor is not further from zero than the dividend
  have hle : ((a + b - 1).toInt.tdiv b.toInt * b.toInt).natAbs ≤ (a + b - 1).toInt.natAbs := by
    rw [Int.natAbs_mul, Int.natAbs_tdiv]
    exact Nat.div_mul_le_self _ _
  have hdiv : ((a + b - 1) / b).toInt = (a + b - 1).toInt.tdiv b.toInt :=
    Int64.toInt_div_of_ne_left _ _ hne
  rw [FrameLowering.alignTo, toInt_mul_of_range (by rw [hdiv]; omega) (by rw [hdiv]; omega), hdiv]
  omega

end

end FrameLowering
