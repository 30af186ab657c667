import OrderedRelay.Base64
import Mathlib.Tactic.Basic

/-!
# Base64 read back

What is written for any bytes reads as the same bytes, and consists of digits and padding.
-/

namespace OrderedRelay.Base64

theorem value?_digit {n : Nat} (h : n < 64) : value? (digit n) = some n := by
  have hall : ∀ m < 64, value? (digit m) = some m := by decide +kernel
  exact hall n h

@[simp] theorem value?_digit_mod (n : Nat) : value? (digit (n % 64)) = some (n % 64) :=
  value?_digit (Nat.mod_lt n (by decide))

@[simp] theorem value?_padding : value? '=' = none := by decide

theorem byte_eq {n : Nat} {b : UInt8} (h : n = b.toNat) : byte n = b := by
  rw [byte, h, UInt8.ofNat_toNat]

/-! ### Groups -/

theorem decodeGroup_digits (a b c : UInt8) (rest : List Char) :
    decode (digits (a.toNat * 0x10000 + b.toNat * 0x100 + c.toNat) ++ rest) =
      (decode rest).map (a :: b :: c :: ·) := by
  have ha := a.toNat_lt
  have hb := b.toNat_lt
  have hc := c.toNat_lt
  generalize hn : a.toNat * 0x10000 + b.toNat * 0x100 + c.toNat = n
  have h₁ : n / 0x40000 % 64 * 4 + n / 0x1000 % 64 / 16 = a.toNat := by omega
  have h₂ : n / 0x1000 % 64 % 16 * 16 + n / 0x40 % 64 / 4 = b.toNat := by omega
  have h₃ : n / 0x40 % 64 % 4 * 64 + n % 64 = c.toNat := by omega
  simp only [digits, List.cons_append, List.nil_append, decode, decodeGroup, value?_digit_mod,
    byte_eq h₁, byte_eq h₂, byte_eq h₃]

theorem decodeLast_one (a : UInt8) :
    decode ((digits (a.toNat * 0x10000)).take 2 ++ ['=', '=']) = some [a] := by
  have ha := a.toNat_lt
  generalize hn : a.toNat * 0x10000 = n
  have h₁ : n / 0x40000 % 64 * 4 + n / 0x1000 % 64 / 16 = a.toNat := by omega
  have h₂ : n / 0x1000 % 64 % 16 = 0 := by omega
  simp [digits, decode, decodeGroup, decodeLast, byte_eq h₁, h₂]

theorem decodeLast_two (a b : UInt8) :
    decode ((digits (a.toNat * 0x10000 + b.toNat * 0x100)).take 3 ++ ['=']) = some [a, b] := by
  have ha := a.toNat_lt
  have hb := b.toNat_lt
  generalize hn : a.toNat * 0x10000 + b.toNat * 0x100 = n
  have h₁ : n / 0x40000 % 64 * 4 + n / 0x1000 % 64 / 16 = a.toNat := by omega
  have h₂ : n / 0x1000 % 16 * 16 + n / 0x40 % 64 / 4 = b.toNat := by omega
  have h₃ : n / 0x40 % 64 % 4 = 0 := by omega
  simp [digits, decode, decodeGroup, decodeLast, byte_eq h₁, byte_eq h₂, h₃]

theorem decode_encode (bs : List UInt8) : decode (encode bs) = some bs := by
  induction bs using encode.induct with
  | case1 => rfl
  | case2 a => exact decodeLast_one a
  | case3 a b => exact decodeLast_two a b
  | case4 a b c rest ih => rw [encode, decodeGroup_digits, ih, Option.map_some]

/-! ### Characters -/

theorem mem_digits {n : Nat} {c : Char} (h : c ∈ digits n) : ∃ m < 64, c = digit m := by
  simp only [digits, List.mem_cons, List.not_mem_nil, or_false] at h
  rcases h with rfl | rfl | rfl | rfl <;> exact ⟨_, Nat.mod_lt _ (by decide), rfl⟩

theorem mem_encode {bs : List UInt8} {c : Char} (h : c ∈ encode bs) :
    c = '=' ∨ ∃ n < 64, c = digit n := by
  induction bs using encode.induct with
  | case1 => cases h
  | case2 a =>
    rcases List.mem_append.mp h with h | h
    · exact Or.inr (mem_digits (List.mem_of_mem_take h))
    · exact Or.inl (by simpa using h)
  | case3 a b =>
    rcases List.mem_append.mp h with h | h
    · exact Or.inr (mem_digits (List.mem_of_mem_take h))
    · exact Or.inl (by simpa using h)
  | case4 a b d rest ih =>
    rw [encode] at h
    rcases List.mem_append.mp h with h | h
    · exact Or.inr (mem_digits h)
    · exact ih h

end OrderedRelay.Base64
