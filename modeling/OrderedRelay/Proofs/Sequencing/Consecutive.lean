import Mathlib.Data.Nat.Find
import Mathlib.Order.Interval.Finset.Nat

/-!
# Consecutive numbers

How far a set of numbers goes on from a number without a gap, and what it holds past its first gap.
-/

namespace OrderedRelay

/-- How many consecutive numbers from `start` on belong to a set. -/
def consecutive (start : Nat) (A : Finset Nat) : Nat :=
  Nat.findGreatest (fun k => ∀ i < k, start + i ∈ A) A.card

theorem add_mem_of_lt_consecutive {start i : Nat} {A : Finset Nat} (h : i < consecutive start A) :
    start + i ∈ A := by
  have hspec : ∀ i < consecutive start A, start + i ∈ A := by
    unfold consecutive
    exact Nat.findGreatest_spec (P := fun k => ∀ i < k, start + i ∈ A) (Nat.zero_le _) (by simp)
  exact hspec i h

theorem mem_of_lt_add_consecutive {start n : Nat} {A : Finset Nat} (hle : start ≤ n)
    (hlt : n < start + consecutive start A) : n ∈ A := by
  obtain ⟨i, rfl⟩ := Nat.exists_eq_add_of_le hle
  exact add_mem_of_lt_consecutive (by omega)

theorem add_consecutive_not_mem (start : Nat) (A : Finset Nat) :
    start + consecutive start A ∉ A := by
  intro hmem
  have hall : ∀ i < consecutive start A + 1, start + i ∈ A := by
    intro i hi
    rcases Nat.lt_succ_iff_lt_or_eq.mp hi with hlt | rfl
    · exact add_mem_of_lt_consecutive hlt
    · exact hmem
  have hcard : consecutive start A + 1 ≤ A.card := by
    have hsub : (Finset.range (consecutive start A + 1)).image (start + ·) ⊆ A := by
      intro x hx
      obtain ⟨i, hi, rfl⟩ := Finset.mem_image.mp hx
      exact hall i (Finset.mem_range.mp hi)
    have hle := Finset.card_le_card hsub
    rwa [Finset.card_image_of_injective _ (add_right_injective start), Finset.card_range] at hle
  have hge : consecutive start A + 1 ≤ consecutive start A :=
    Nat.le_findGreatest (P := fun k => ∀ i < k, start + i ∈ A) hcard hall
  omega

theorem consecutive_eq {start k : Nat} {A : Finset Nat} (hall : ∀ i < k, start + i ∈ A)
    (hnot : start + k ∉ A) : consecutive start A = k := by
  rcases lt_trichotomy (consecutive start A) k with hlt | heq | hgt
  · exact absurd (hall _ hlt) (add_consecutive_not_mem start A)
  · exact heq
  · exact absurd (add_mem_of_lt_consecutive hgt) hnot

theorem consecutive_pos {start : Nat} {A : Finset Nat} (h : start ∈ A) : 0 < consecutive start A := by
  refine Nat.pos_of_ne_zero fun hzero => add_consecutive_not_mem start A ?_
  rwa [hzero, Nat.add_zero]

/-- The last number up to which all numbers from 1 on belong to a set. -/
def completeUpTo (A : Finset Nat) : Nat := consecutive 1 A

/-- The numbers of a set past its first gap. -/
def ahead (A : Finset Nat) : Finset Nat := A.filter (completeUpTo A < ·)

theorem mem_of_le_completeUpTo {A : Finset Nat} {n : Nat} (hpos : 0 < n)
    (hle : n ≤ completeUpTo A) : n ∈ A := by
  unfold completeUpTo at hle
  exact mem_of_lt_add_consecutive hpos (show n < 1 + consecutive 1 A by omega)

theorem succ_completeUpTo_not_mem (A : Finset Nat) : completeUpTo A + 1 ∉ A := by
  rw [Nat.add_comm]
  exact add_consecutive_not_mem 1 A

theorem completeUpTo_eq {A : Finset Nat} {m : Nat} (hall : ∀ n, 0 < n → n ≤ m → n ∈ A)
    (hnot : m + 1 ∉ A) : completeUpTo A = m :=
  consecutive_eq (fun i hi => hall (1 + i) (by omega) (by omega)) (by rwa [Nat.add_comm])

theorem completeUpTo_mono {A B : Finset Nat} (h : A ⊆ B) : completeUpTo A ≤ completeUpTo B := by
  by_contra hlt
  have hmem : completeUpTo B + 1 ∈ A := mem_of_le_completeUpTo (Nat.succ_pos _) (by omega)
  exact succ_completeUpTo_not_mem B (h hmem)

theorem mem_ahead {A : Finset Nat} {n : Nat} : n ∈ ahead A ↔ n ∈ A ∧ completeUpTo A < n :=
  Finset.mem_filter

@[simp] theorem completeUpTo_empty : completeUpTo ∅ = 0 := rfl

@[simp] theorem completeUpTo_Icc (n : Nat) : completeUpTo (Finset.Icc 1 n) = n :=
  completeUpTo_eq (fun k hpos hle => Finset.mem_Icc.mpr ⟨hpos, hle⟩) (by simp)

/-- Within the numbers up to `n`, fewer lie past the first gap than are still missing before `n`. -/
theorem card_ahead_le {A : Finset Nat} {n : Nat} (hsub : ∀ x ∈ A, x ≤ n) :
    (ahead A).card ≤ n - (completeUpTo A + 1) := by
  have hsub' : ahead A ⊆ Finset.Ioc (completeUpTo A + 1) n := by
    intro x hx
    obtain ⟨hmem, hlt⟩ := mem_ahead.mp hx
    have hne : x ≠ completeUpTo A + 1 := fun heq => succ_completeUpTo_not_mem A (heq ▸ hmem)
    exact Finset.mem_Ioc.mpr ⟨by omega, hsub x hmem⟩
  have hle := Finset.card_le_card hsub'
  rwa [Nat.card_Ioc] at hle

end OrderedRelay
