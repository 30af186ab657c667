import OrderedRelay.Text.Signed
import OrderedRelay.Proofs.Json.Numeral

/-!
# Signed integers as they are written

Of all the texts that read as one integer exactly one is how it is written: the one without a plus sign
and without leading zeros.
-/

namespace OrderedRelay

/-! ### Digits and their value -/

theorem Decimal.ofDigits?_eq_some_iff {cs : List Char} {n : Nat} :
    ofDigits? cs = some n ↔ cs ≠ [] ∧ (∀ c ∈ cs, c.isDigit = true) ∧ Nat.ofDigitChars 10 cs 0 = n := by
  rw [ofDigits?, ← List.all_eq_true]
  split_ifs with h
  · rw [Option.some_inj, and_iff_right h.1, and_iff_right h.2]
  · constructor
    · intro hn
      cases hn
    · intro hn
      exact absurd ⟨hn.1, hn.2.1⟩ h

namespace Text

variable {c : Char} {cs ds : List Char} {n : Nat}

theorem digit_of_isDigit (h : c.isDigit = true) :
    c.toNat - '0'.toNat < 10 ∧ Nat.digitChar (c.toNat - '0'.toNat) = c := by
  have hall : ∀ m < 58, 48 ≤ m → Nat.digitChar (m - '0'.toNat) = Char.ofNat m := by decide
  simp only [Char.isDigit, Bool.and_eq_true, decide_eq_true_eq] at h
  have hlow : 48 ≤ c.toNat := h.1
  have hhigh : c.toNat ≤ 57 := h.2
  have hzero : '0'.toNat = 48 := rfl
  refine ⟨by omega, ?_⟩
  rw [hall c.toNat (by omega) hlow, Char.ofNat_toNat]

theorem digitIn?_ten (c : Char) :
    digitIn? 10 c = if c.isDigit = true then some (c.toNat - '0'.toNat) else none := by
  rw [digitIn?, digitValue?]
  split_ifs with hdigit
  · exact Option.filter_eq_some_iff.mpr ⟨rfl, decide_eq_true (digit_of_isDigit hdigit).1⟩
  all_goals simp [Option.filter]

theorem appendDigits?_ten_eq_some_iff {m : Nat} :
    appendDigits? 10 m cs = some n ↔
      (∀ c ∈ cs, c.isDigit = true) ∧ Nat.ofDigitChars 10 cs m = n := by
  induction cs generalizing m with
  | nil => simp [appendDigits?]
  | cons c cs ih =>
    rw [appendDigits?, digitIn?_ten, Nat.ofDigitChars_cons, Nat.mul_comm 10 m, List.forall_mem_cons]
    by_cases hc : c.isDigit = true
    · rw [if_pos hc, Option.bind_some, ih, and_assoc, and_iff_right hc]
    · rw [if_neg hc, Option.bind_none]
      exact ⟨nofun, fun h => absurd h.1.1 hc⟩

/-- The two readers of decimal digits agree. -/
theorem ofDigits?_ten (cs : List Char) : ofDigits? 10 cs = Decimal.ofDigits? cs := by
  ext n
  rw [Decimal.ofDigits?_eq_some_iff, ofDigits?]
  split_ifs with hnil
  · simp [hnil]
  · rw [appendDigits?_ten_eq_some_iff, and_iff_right hnil]

/-- Digits after a positive number continue it. -/
theorem toDigits_append (hn : 0 < n) (hall : ∀ c ∈ cs, c.isDigit = true) :
    Nat.toDigits 10 n ++ cs = Nat.toDigits 10 (Nat.ofDigitChars 10 cs n) := by
  induction cs generalizing n with
  | nil => simp
  | cons c cs ih =>
    obtain ⟨hc, hcs⟩ := List.forall_mem_cons.mp hall
    obtain ⟨hlt, hchar⟩ := digit_of_isDigit hc
    have hdigit := Nat.toDigits_append_toDigits (by decide : 1 < 10) hn hlt
    rw [Nat.toDigits_of_lt_base hlt, hchar] at hdigit
    rw [Nat.ofDigitChars_cons, ← ih (by omega) hcs, ← hdigit, List.append_assoc, List.singleton_append]

theorem toDigits_ofDigitChars (hall : ∀ c ∈ ds, c.isDigit = true) (hds : Json.Canonical ds) :
    Nat.toDigits 10 (Nat.ofDigitChars 10 ds 0) = ds := by
  obtain ⟨d, rest, rfl⟩ := List.exists_cons_of_ne_nil hds.1
  obtain ⟨hd, hrest⟩ := List.forall_mem_cons.mp hall
  obtain ⟨hlt, hchar⟩ := digit_of_isDigit hd
  by_cases hzero : d = '0'
  · rw [hds.2 (by rw [hzero]; rfl)]
    decide
  · have hpos : 0 < d.toNat - '0'.toNat := by
      refine Nat.pos_of_ne_zero fun heq => hzero ?_
      rw [← hchar, heq]
      rfl
    rw [Nat.ofDigitChars_cons, Nat.mul_zero, Nat.zero_add, ← toDigits_append hpos hrest,
      Nat.toDigits_of_lt_base hlt, hchar, List.singleton_append]

theorem toDigits_eq_iff (hall : ∀ c ∈ ds, c.isDigit = true) :
    Nat.toDigits 10 (Nat.ofDigitChars 10 ds 0) = ds ↔ Json.Canonical ds := by
  constructor
  · intro h
    rw [← h]
    exact Json.canonical_toDigits _
  · exact toDigits_ofDigitChars hall

end Text

namespace Signed

variable {s : String} {i : Int} {n : Nat} {negative : Bool} {cs : List Char}

/-- Digits without leading zeros, but for zero itself, and a minus sign before them if they are not
zero. -/
def Canonical (cs : List Char) : Prop :=
  ∃ digits, (∀ c ∈ digits, c.isDigit = true) ∧ Json.Canonical digits ∧
    (cs = digits ∨ cs = '-' :: digits ∧ digits ≠ ['0'])

theorem canonical_digits_iff (hall : ∀ c ∈ cs, c.isDigit = true) :
    Canonical cs ↔ Json.Canonical cs := by
  constructor
  · rintro ⟨digits, -, hdigits, rfl | ⟨rfl, -⟩⟩
    · exact hdigits
    · exact absurd (hall '-' (List.mem_cons_self ..)) (by decide)
  · exact fun h => ⟨cs, hall, h, Or.inl rfl⟩

theorem canonical_minus_iff (hall : ∀ c ∈ cs, c.isDigit = true) :
    Canonical ('-' :: cs) ↔ Json.Canonical cs ∧ cs ≠ ['0'] := by
  constructor
  · rintro ⟨digits, hdigits, hcanonical, rfl | ⟨heq, hne⟩⟩
    · exact absurd (hdigits '-' (List.mem_cons_self ..)) (by decide)
    · obtain ⟨-, rfl⟩ := List.cons.inj heq
      exact ⟨hcanonical, hne⟩
  · rintro ⟨hcanonical, hne⟩
    exact ⟨cs, hall, hcanonical, Or.inr ⟨rfl, hne⟩⟩

theorem not_canonical_plus (cs : List Char) : ¬ Canonical ('+' :: cs) := by
  rintro ⟨digits, hdigits, -, rfl | ⟨heq, -⟩⟩
  · exact absurd (hdigits '+' (List.mem_cons_self ..)) (by decide)
  · cases heq

/-! ### Reading and writing -/

theorem toList_render_natCast (n : Nat) : (render n).toList = Nat.toDigits 10 n := by
  rw [render, if_neg (by omega), Int.natAbs_natCast, Decimal.render, String.toList_ofList]

theorem toList_render_neg (hn : 0 < n) : (render (-(n : Int))).toList = '-' :: Nat.toDigits 10 n := by
  simp [render, Decimal.render, hn]

theorem ofMagnitude?_eq_some (h : ofMagnitude? negative n = some i) :
    i = if negative = true then -(n : Int) else n := by
  unfold ofMagnitude? at h
  grind

theorem magnitude_of_bind (h : (Text.ofDigits? 10 cs).bind (ofMagnitude? negative) = some i) :
    cs ≠ [] ∧ (∀ c ∈ cs, c.isDigit = true) ∧
      i = if negative = true then -(Nat.ofDigitChars 10 cs 0 : Int) else Nat.ofDigitChars 10 cs 0 := by
  obtain ⟨n, hn, hi⟩ := Option.bind_eq_some_iff.mp h
  rw [Text.ofDigits?_ten] at hn
  obtain ⟨hne, hall, rfl⟩ := Decimal.ofDigits?_eq_some_iff.mp hn
  exact ⟨hne, hall, ofMagnitude?_eq_some hi⟩

/-- What reads as an integer is how it is written exactly in its canonical form. -/
theorem render_eq_iff (h : parse? s = some i) : render i = s ↔ Canonical s.toList := by
  rw [← String.toList_inj]
  rw [parse?] at h
  generalize s.toList = cs at h
  unfold parseChars? at h
  split at h
  · rename_i ds
    obtain ⟨hne, hall, rfl⟩ := magnitude_of_bind h
    rw [canonical_minus_iff hall, ← Text.toDigits_eq_iff hall, if_pos rfl]
    -- Zero is written without a sign.
    by_cases hzero : Nat.ofDigitChars 10 ds 0 = 0
    · have hrender : (render (-((0 : Nat) : Int))).toList = ['0'] := toList_render_natCast 0
      rw [hzero, hrender, Nat.toDigits_zero]
      simp [eq_comm]
    · have hds : ds ≠ ['0'] := by
        rintro rfl
        exact hzero rfl
      rw [toList_render_neg (Nat.pos_of_ne_zero hzero)]
      simp [hds]
  · rename_i ds
    obtain ⟨hne, hall, rfl⟩ := magnitude_of_bind h
    rw [if_neg Bool.false_ne_true, toList_render_natCast]
    refine ⟨fun heq => ?_, fun hcanonical => absurd hcanonical (not_canonical_plus ds)⟩
    have hplus : '+' ∈ Nat.toDigits 10 (Nat.ofDigitChars 10 ds 0) := heq ▸ List.mem_cons_self ..
    exact absurd (Json.isDigit_of_mem_digits hplus) (by decide)
  · obtain ⟨hne, hall, rfl⟩ := magnitude_of_bind h
    rw [canonical_digits_iff hall, ← Text.toDigits_eq_iff hall, if_neg Bool.false_ne_true,
      toList_render_natCast]

end Signed

end OrderedRelay
