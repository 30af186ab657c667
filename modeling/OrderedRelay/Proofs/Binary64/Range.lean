import OrderedRelay.Json.Numeral
import OrderedRelay.Proofs.Binary64.Equality
import Mathlib.Tactic.Positivity
import Mathlib.Tactic.Ring

/-!
# The range of a rounded ratio

A ratio that is not too large rounds to a finite number, and how large it is shows in the exponent
field. So nothing that a numeral is computed from overflows where only divisions are left to do: a
significand of 64 bits is small, and dividing it by powers of ten keeps it small.
-/

namespace OrderedRelay.Binary64

variable {num den k : Nat} {x y : Binary64}

/-! ### Rounding a ratio -/

theorem divEven_le (num den : Nat) : divEven num den ≤ num / den + 1 := by
  unfold divEven
  dsimp only
  split_ifs <;> omega

theorem floorLog2_near (num den : Nat) :
    (Nat.log2 num : Int) - Nat.log2 den - 1 ≤ floorLog2 num den ∧
      floorLog2 num den ≤ (Nat.log2 num : Int) - Nat.log2 den := by
  unfold floorLog2
  dsimp only
  split_ifs <;> omega

theorem log2_le_of_lt (hnum : num ≠ 0) (h : num < den * 2 ^ k) :
    Nat.log2 num ≤ Nat.log2 den + k := by
  have hden : den < 2 ^ (Nat.log2 den + 1) := Nat.lt_log2_self
  have hlt : num < 2 ^ (Nat.log2 den + 1 + k) := by
    rw [Nat.pow_add]
    exact lt_trans h (Nat.mul_lt_mul_of_pos_right hden (by positivity))
  have hlog := (Nat.log2_lt hnum).mpr hlt
  omega

/-- The rounded significand, on any grid that is coarse enough. -/
theorem divEven_scaled_le (num : Nat) {q : Int} (hden : 0 < den)
    (hq : (Nat.log2 num : Int) - Nat.log2 den - 53 ≤ q) :
    divEven (num * Nat.pow 2 (-q).toNat) (den * Nat.pow 2 q.toNat) ≤ 2 ^ 54 := by
  have hlow : 2 ^ (Nat.log2 den + q.toNat) ≤ den * 2 ^ q.toNat := by
    rw [Nat.pow_add]
    exact Nat.mul_le_mul_right _ (Nat.log2_self_le hden.ne')
  have hhigh : num * 2 ^ (-q).toNat < 2 ^ (Nat.log2 num + 1 + (-q).toNat) := by
    rw [Nat.pow_add]
    exact Nat.mul_lt_mul_of_pos_right Nat.lt_log2_self (by positivity)
  have hexponents : 2 ^ (Nat.log2 num + 1 + (-q).toNat) ≤ 2 ^ (Nat.log2 den + q.toNat + 54) :=
    Nat.pow_le_pow_right (by decide) (by omega)
  have hquotient : num * 2 ^ (-q).toNat / (den * 2 ^ q.toNat) < 2 ^ 54 := by
    refine Nat.div_lt_of_lt_mul ?_
    calc num * 2 ^ (-q).toNat < 2 ^ (Nat.log2 den + q.toNat + 54) := lt_of_lt_of_le hhigh hexponents
      _ = 2 ^ (Nat.log2 den + q.toNat) * 2 ^ 54 := Nat.pow_add ..
      _ ≤ den * 2 ^ q.toNat * 2 ^ 54 := Nat.mul_le_mul_right _ hlow
  exact (divEven_le _ _).trans hquotient

theorem exponentField_ofFields (negative : Bool) {magnitude : Nat} (h : magnitude < signUnit) :
    (ofFields negative magnitude).exponentField = magnitude / exponentUnit := by
  rw [exponentField, magnitudeBits_ofFields negative h]

/-- A ratio below `2 ^ k` has an exponent field that is not much larger than that of `2 ^ k`. -/
theorem exponentField_ofRatio (negative : Bool) (hden : 0 < den) (h : num < den * 2 ^ k)
    (hlow : 52 ≤ k) (hhigh : k ≤ 900) :
    (ofRatio negative num den).exponentField ≤ k + 1026 := by
  unfold ofRatio
  dsimp only
  obtain ⟨hnear, hfloor⟩ := floorLog2_near num den
  -- The grid is never finer than 53 bits of the quotient ask for.
  have hm := divEven_scaled_le num (q := max (floorLog2 num den - 52) (-1074)) hden (by omega)
  split_ifs with hzero hfits
  · rw [exponentField_ofFields negative (by decide)]
    exact Nat.zero_le _
  · have hlog := log2_le_of_lt hzero h
    rw [exponentField_ofFields negative (lt_trans hfits (by decide))]
    refine Nat.div_le_of_le_mul ?_
    unfold exponentUnit
    omega
  · have hlog := log2_le_of_lt hzero h
    unfold exponentUnit at hfits
    omega

theorem isFinite_of_exponentField (h : x.exponentField ≤ 1926) : x.isFinite = true := by
  have hlt : x.exponentField < 2047 := by omega
  exact decide_eq_true hlt

theorem isFinite_neg (x : Binary64) : x.neg.isFinite = x.isFinite := by
  have hmagnitude : x.magnitudeBits < signUnit := Nat.mod_lt _ (by decide)
  rw [isFinite, isFinite, neg, exponentField_ofFields _ hmagnitude, exponentField]

/-! ### The magnitude of a number -/

theorem significand_lt (x : Binary64) : x.significand < 2 ^ 53 := by
  have hfraction : x.fractionField < exponentUnit := Nat.mod_lt _ (by decide)
  unfold significand
  unfold exponentUnit at *
  split_ifs <;> omega

theorem numerator_lt (h : x.exponentField ≤ k + 1075) :
    x.numerator < x.denominator * 2 ^ (k + 53) := by
  have hscale : x.scale.toNat ≤ k := by
    unfold scale
    omega
  have hone : 1 ≤ x.denominator := Nat.one_le_two_pow
  calc x.numerator
      < 2 ^ 53 * 2 ^ x.scale.toNat := Nat.mul_lt_mul_of_pos_right x.significand_lt (Nat.two_pow_pos _)
    _ ≤ 2 ^ 53 * 2 ^ k := Nat.mul_le_mul_left _ (Nat.pow_le_pow_right (by decide) hscale)
    _ = 2 ^ (k + 53) := by rw [← Nat.pow_add, Nat.add_comm]
    _ ≤ x.denominator * 2 ^ (k + 53) := Nat.le_mul_of_pos_left _ hone

theorem exponentField_div {j : Nat} (hx : x.exponentField ≤ k + 1075)
    (hy : y.denominator * 2 ^ j ≤ y.numerator) (hlow : j ≤ k + 1) (hhigh : k ≤ 800) :
    (x.div y).exponentField ≤ k + 53 - j + 1026 := by
  have hpos : 0 < y.numerator := lt_of_lt_of_le (Nat.mul_pos Nat.one_le_two_pow (by positivity)) hy
  refine exponentField_ofRatio _ (Nat.mul_pos Nat.one_le_two_pow hpos) ?_ (by omega) (by omega)
  calc x.numerator * y.denominator
      < x.denominator * 2 ^ (k + 53) * y.denominator :=
        Nat.mul_lt_mul_of_pos_right (numerator_lt hx) Nat.one_le_two_pow
    _ = x.denominator * (y.denominator * 2 ^ j) * 2 ^ (k + 53 - j) := by
        have hsplit : 2 ^ (k + 53) = 2 ^ j * 2 ^ (k + 53 - j) := by
          rw [← Nat.pow_add]
          congr 1
          omega
        rw [hsplit]
        ring
    _ ≤ x.denominator * y.numerator * 2 ^ (k + 53 - j) :=
        Nat.mul_le_mul_right _ (Nat.mul_le_mul_left _ hy)

end OrderedRelay.Binary64
