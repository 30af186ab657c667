import OrderedRelay.Binary64.Basic
import Mathlib.Tactic.Basic
import Mathlib.Tactic.SplitIfs

/-!
# Equality of values

Equality of floating-point values is symmetric and transitive. It is reflexive but for the
non-numbers, and a non-number equals nothing. Rounding a ratio never gives a non-number.
-/

namespace OrderedRelay.Binary64

theorem equals_iff (x y : Binary64) :
    x.equals y = true ↔ x.isNaN = false ∧ y.isNaN = false ∧ x.position = y.position := by
  simp [equals, and_assoc]

theorem equals_symm {x y : Binary64} (h : x.equals y = true) : y.equals x = true := by
  rw [equals_iff] at h ⊢
  exact ⟨h.2.1, h.1, h.2.2.symm⟩

theorem equals_trans {x y z : Binary64} (h₁ : x.equals y = true) (h₂ : y.equals z = true) :
    x.equals z = true := by
  rw [equals_iff] at h₁ h₂ ⊢
  exact ⟨h₁.1, h₂.2.1, h₁.2.2.trans h₂.2.2⟩

theorem equals_self_left {x y : Binary64} (h : x.equals y = true) : x.equals x = true :=
  equals_trans h (equals_symm h)

theorem equals_self_right {x y : Binary64} (h : x.equals y = true) : y.equals y = true :=
  equals_trans (equals_symm h) h

theorem equals_congr_right (x : Binary64) {y y' : Binary64} (h : y.equals y' = true) :
    x.equals y = x.equals y' := by
  rw [Bool.eq_iff_iff]
  exact ⟨fun hx => equals_trans hx h, fun hx => equals_trans hx (equals_symm h)⟩

theorem equals_congr {x x' y y' : Binary64} (hx : x.equals x' = true) (hy : y.equals y' = true) :
    x.equals y = x'.equals y' := by
  rw [equals_congr_right x hy, Bool.eq_iff_iff]
  exact ⟨fun h => equals_trans (equals_symm hx) h, fun h => equals_trans hx h⟩

theorem equals_self_of_isFinite {x : Binary64} (h : x.isFinite = true) : x.equals x = true := by
  rw [equals_iff]
  have hn : x.isNaN = false := by
    simp only [isFinite, decide_eq_true_eq] at h
    have hne : x.exponentField ≠ 2047 := by omega
    simp [isNaN, hne]
  exact ⟨hn, hn, rfl⟩

theorem equals_self_iff (x : Binary64) : x.equals x = true ↔ x.isNaN = false := by
  simp [equals_iff]

theorem equals_zero : zero.equals zero = true := by decide +kernel

/-! ### Results that are numbers -/

theorem magnitudeBits_ofFields (negative : Bool) {magnitude : Nat} (h : magnitude < signUnit) :
    (ofFields negative magnitude).magnitudeBits = magnitude := by
  unfold signUnit at h
  cases negative <;> simp [magnitudeBits, ofFields, signUnit] <;> omega

theorem isNaN_ofFields (negative : Bool) {magnitude : Nat} (h : magnitude ≤ 2047 * exponentUnit) :
    (ofFields negative magnitude).isNaN = false := by
  have hlt : magnitude < signUnit := Nat.lt_of_le_of_lt h (by decide)
  unfold exponentUnit at h
  simp only [isNaN, exponentField, fractionField, magnitudeBits_ofFields negative hlt,
    Bool.and_eq_false_iff, beq_eq_false_iff_ne, bne_eq_false_iff_eq]
  unfold exponentUnit
  omega

theorem isNaN_ofRatio (negative : Bool) (num den : Nat) :
    (ofRatio negative num den).isNaN = false := by
  unfold ofRatio infinity
  dsimp only
  split_ifs with hzero hfits
  · exact isNaN_ofFields negative (Nat.zero_le _)
  · exact isNaN_ofFields negative (Nat.le_of_lt hfits)
  · exact isNaN_ofFields negative (Nat.le_refl _)

end OrderedRelay.Binary64
