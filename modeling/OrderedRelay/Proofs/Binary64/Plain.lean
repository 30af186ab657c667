import OrderedRelay.Binary64.Numeral
import OrderedRelay.Proofs.Text.Signed
import Mathlib.Algebra.Order.Ring.Nat
import Mathlib.Data.List.DropRight

/-!
# Numbers in text

A numeral is read from few characters. What is written has no character that could be left out: no
plus sign, no exponent, and no zero but where a digit has to stand.
-/

namespace OrderedRelay.Binary64

variable {x : Binary64} {n : Neighbourhood} {cs ds : List Char} {c : Char} {g e : Int} {k : Nat}
  {negative : Bool} {s : String}

/-! ### Reading -/

/-- The characters of numerals that are no words. -/
def isNumeralChar (c : Char) : Bool := c.isDigit || c ∈ ['.', 'e', 'E', '+', '-']

theorem isNumeralChar_of_isDigit (h : c.isDigit = true) : isNumeralChar c = true := by
  simp [isNumeralChar, h]

/-- What a sign is split off from has no other character than the sign and what is left. -/
theorem mem_splitSign (h : c ∈ cs) : c = '-' ∨ c = '+' ∨ c ∈ (splitSign cs).2 := by
  unfold splitSign
  grind

theorem isNumeralChar_of_exponent? (h : exponent? cs = some e) (hc : c ∈ cs) :
    isNumeralChar c = true := by
  cases cs with
  | nil => cases hc
  | cons first rest =>
    by_cases hform : (first = 'e' ∨ first = 'E') ∧ (splitSign rest).2 ≠ [] ∧
        (splitSign rest).2.all Char.isDigit = true
    · obtain ⟨hfirst, -, hdigits⟩ := hform
      rcases List.mem_cons.mp hc with rfl | hc
      · rcases hfirst with rfl | rfl <;> decide
      · rcases mem_splitSign hc with rfl | rfl | hc
        · decide
        · decide
        · exact isNumeralChar_of_isDigit (List.all_eq_true.mp hdigits c hc)
    · simp only [exponent?, if_neg hform] at h
      cases h

theorem isNumeralChar_of_ofDecimalChars? (h : ofDecimalChars? negative cs = some x) (hc : c ∈ cs) :
    isNumeralChar c = true := by
  have hdigit : ∀ {ds : List Char}, c ∈ ds.takeWhile Char.isDigit → isNumeralChar c = true :=
    fun hc => isNumeralChar_of_isDigit (List.mem_takeWhile_imp hc)
  rw [← List.takeWhile_append_dropWhile (p := Char.isDigit) (l := cs)] at hc
  rcases List.mem_append.mp hc with hc | hc
  · exact hdigit hc
  · simp only [ofDecimalChars?] at h
    split_ifs at h
    obtain ⟨e, he, -⟩ := Option.map_eq_some_iff.mp h
    split at he
    · rename_i r heq
      rw [heq] at hc
      rcases List.mem_cons.mp hc with rfl | hc
      · decide
      · rw [← List.takeWhile_append_dropWhile (p := Char.isDigit) (l := r)] at hc
        rcases List.mem_append.mp hc with hc | hc
        · exact hdigit hc
        · exact isNumeralChar_of_exponent? he hc
    · exact isNumeralChar_of_exponent? he hc

/-- What stands behind an optional sign, in lower case. -/
def unsignedWord (s : String) : String := String.ofList ((splitSign s.toList).2.map Char.toLower)

/-- The words that are read as a number. -/
def words : List String := ["inf", "infinity", "nan"]

theorem isNumeralChar_of_parse? (h : parse? s = some x) (hword : unsignedWord s ∉ words)
    (hc : c ∈ s.toList) : isNumeralChar c = true := by
  simp only [unsignedWord, words, List.mem_cons, List.not_mem_nil, or_false, not_or] at hword
  simp only [parse?, hword, or_self, if_false] at h
  rcases mem_splitSign hc with rfl | rfl | hc
  · decide
  · decide
  · exact isNumeralChar_of_ofDecimalChars? h hc

theorem parseChars?_eq_splitSign (base : Nat) (cs : List Char) :
    Signed.parseChars? base cs =
      (Text.ofDigits? base (splitSign cs).2).bind (Signed.ofMagnitude? (splitSign cs).1) := by
  unfold Signed.parseChars? splitSign
  grind

/-- What reads as an integer also reads as a number. -/
theorem isSome_parse?_of_signed {i : Int} (h : Signed.parse? s = some i) : (parse? s).isSome = true := by
  rw [Signed.parse?, parseChars?_eq_splitSign] at h
  obtain ⟨hne, hall, -⟩ := Signed.magnitude_of_bind h
  have hwhole : (splitSign s.toList).2.takeWhile Char.isDigit = (splitSign s.toList).2 :=
    List.takeWhile_eq_self_iff.mpr hall
  have hrest : (splitSign s.toList).2.dropWhile Char.isDigit = [] := List.dropWhile_eq_nil_iff.mpr hall
  simp only [parse?, ofDecimalChars?, hwhole, hrest]
  split_ifs <;> simp_all [exponent?]

/-! ### Writing -/

/-- Digits that have no zero at either end. -/
structure Trimmed (ds : List Char) : Prop where
  ne_nil : ds ≠ []
  isDigit : ∀ c ∈ ds, c.isDigit = true
  head_ne_zero : ds.head? ≠ some '0'
  last_ne_zero : ds.getLast? ≠ some '0'

theorem trimmed_of_pos (hk : 0 < k) :
    Trimmed ((Nat.toDigits 10 k).reverse.dropWhile (· == '0')).reverse := by
  have hne : (Nat.toDigits 10 k).rdropWhile (· == '0') ≠ [] := by
    intro hnil
    rw [List.rdropWhile_eq_nil_iff] at hnil
    obtain ⟨d, rest, hcons⟩ := List.exists_cons_of_ne_nil (Nat.toDigits_ne_nil (b := 10) (n := k))
    have hd : d = '0' := by simpa using hnil d (hcons ▸ List.mem_cons_self ..)
    exact Json.head?_toDigits_ne_zero hk (by rw [hcons, hd, List.head?_cons])
  obtain ⟨zeros, hzeros⟩ := List.rdropWhile_prefix (· == '0') (Nat.toDigits 10 k)
  refine ⟨hne, fun c hc => ?_, fun hhead => ?_, fun hlast => ?_⟩
  · exact Json.isDigit_of_mem_digits (hzeros ▸ List.mem_append_left zeros hc)
  · apply Json.head?_toDigits_ne_zero hk
    rw [← hzeros, List.head?_append_of_ne_nil _ hne]
    exact hhead
  · have hlast' := List.rdropWhile_last_not (· == '0') (Nat.toDigits 10 k) hne
    rw [← List.rdropWhile, List.getLast?_eq_some_getLast hne, Option.some_inj] at hlast
    exact hlast' (beq_iff_eq.mpr hlast)

theorem pow_length_toDigits_le (hk : 0 < k) : 10 ^ ((Nat.toDigits 10 k).length - 1) ≤ k := by
  by_contra hlt
  rw [not_le] at hlt
  have hpos : 0 < (Nat.toDigits 10 k).length - 1 := by
    refine Nat.pos_of_ne_zero fun hzero => ?_
    rw [hzero, Nat.pow_zero] at hlt
    omega
  have hle := (Nat.length_toDigits_le_iff (by decide) hpos).mpr hlt
  omega

theorem lt_pow_length_toDigits (k : Nat) : k < 10 ^ (Nat.toDigits 10 k).length :=
  (Nat.length_toDigits_le_iff (by decide) Nat.length_toDigits_pos).mp le_rfl

/-- The quotient is at least `10 ^ g`. -/
def Reaches (num den : Nat) (g : Int) : Prop := den * 10 ^ g.toNat ≤ num * 10 ^ (-g).toNat

theorem Reaches.pred {num den : Nat} (h : Reaches num den g) : Reaches num den (g - 1) := by
  unfold Reaches at h ⊢
  by_cases hg : 1 ≤ g
  · have hup : g.toNat = (g - 1).toNat + 1 := by omega
    have hdown : (-g).toNat = 0 := by omega
    have hdown' : (-(g - 1)).toNat = 0 := by omega
    rw [hup, hdown, Nat.pow_succ, ← Nat.mul_assoc] at h
    rw [hdown']
    omega
  · have hup : g.toNat = 0 := by omega
    have hup' : (g - 1).toNat = 0 := by omega
    have hdown : (-(g - 1)).toNat = (-g).toNat + 1 := by omega
    rw [hup] at h
    rw [hup', hdown, Nat.pow_succ, ← Nat.mul_assoc]
    omega

theorem reaches_firstDigitExponent {num den : Nat} (hnum : 0 < num) (hden : 0 < den) :
    Reaches num den (firstDigitExponent num den) := by
  unfold Reaches firstDigitExponent
  split_ifs with hle
  · have hquotient := pow_length_toDigits_le (Nat.div_pos hle hden)
    have hlength := Nat.length_toDigits_pos (b := 10) (n := num / den)
    have hup : ((Nat.toDigits 10 (num / den)).length - 1 : Int).toNat =
        (Nat.toDigits 10 (num / den)).length - 1 := by omega
    have hdown : (-((Nat.toDigits 10 (num / den)).length - 1 : Int)).toNat = 0 := by omega
    rw [hup, hdown, Nat.pow_zero, Nat.mul_one, Nat.mul_comm]
    exact (Nat.le_div_iff_mul_le hden).mp hquotient
  · -- One below the ceiling of the inverse stays below its power of ten.
    have hlt := lt_pow_length_toDigits ((den + num - 1) / num - 1)
    have hceiling : den ≤ num * ((den + num - 1) / num) := by
      have hdivision := Nat.div_add_mod (den + num - 1) num
      have hmod := Nat.mod_lt (den + num - 1) hnum
      omega
    generalize (Nat.toDigits 10 ((den + num - 1) / num - 1)).length = size at hlt
    have hup : (-(size : Int)).toNat = 0 := by omega
    have hdown : (- -(size : Int)).toNat = size := by omega
    rw [hup, hdown, Nat.pow_zero, Nat.mul_one]
    exact hceiling.trans (Nat.mul_le_mul_left num (by omega))

theorem div_le_divEven (num den : Nat) : num / den ≤ divEven num den := by
  unfold divEven
  grind

theorem search_pos (fuel : Nat) (hunit : 0 < n.unit) (h : Reaches n.centre n.unit g) :
    0 < (n.search fuel g).1 := by
  -- What is tried on a grid is the quotient or one more, and the quotient is never zero.
  have hquotient : ∀ {g : Int}, Reaches n.centre n.unit g →
      0 < n.centre * Nat.pow 10 (-g).toNat / (n.unit * Nat.pow 10 g.toNat) := fun h =>
    Nat.div_pos h (Nat.mul_pos hunit (Nat.pow_pos (by decide)))
  have heven : ∀ {g : Int}, Reaches n.centre n.unit g →
      0 < divEven (n.centre * Nat.pow 10 (-g).toNat) (n.unit * Nat.pow 10 g.toNat) := fun h =>
    (hquotient h).trans_le (div_le_divEven ..)
  induction fuel generalizing g with
  | zero => exact heven h
  | succ fuel ih =>
    rw [Neighbourhood.search]
    split
    · rename_i k hk
      have hquotient := hquotient h
      have heven := heven h
      simp only [Neighbourhood.onGrid] at hk
      grind
    · exact ih h.pred

theorem significand_pos (h : x.isZero = false) : 0 < x.significand := by
  have hsplit := Nat.div_add_mod x.magnitudeBits exponentUnit
  have hbits : x.magnitudeBits ≠ 0 := by simpa [isZero] using h
  unfold significand exponentField fractionField
  unfold exponentUnit at *
  split_ifs <;> omega

theorem denominator_pos (x : Binary64) : 0 < x.denominator := Nat.pow_pos (by decide)

theorem trimmed_shortest (h : x.isZero = false) : Trimmed x.shortest.digits := by
  have hnum : 0 < x.numerator := Nat.mul_pos (significand_pos h) (Nat.pow_pos (by decide))
  have hden := x.denominator_pos
  have hcentre : x.neighbourhood.centre = 4 * x.numerator := Nat.mul_assoc ..
  have hunit : x.neighbourhood.unit = 4 * x.denominator := rfl
  refine trimmed_of_pos (search_pos 16 (by omega) ?_)
  have hreaches := reaches_firstDigitExponent hnum hden
  unfold Reaches at hreaches ⊢
  rw [hcentre, hunit, Nat.mul_assoc, Nat.mul_assoc]
  exact Nat.mul_le_mul_left 4 hreaches

/-- Digits without a needless zero: a whole part, and perhaps a point with a fraction after it. -/
def PlainDecimal (cs : List Char) : Prop :=
  ∃ whole fraction, (∀ c ∈ whole ++ fraction, c.isDigit = true) ∧ Json.Canonical whole ∧
    fraction.getLast? ≠ some '0' ∧ cs = whole ++ if fraction = [] then [] else '.' :: fraction

/-- A number without a plus sign, an exponent or a needless zero. -/
def Plain (cs : List Char) : Prop :=
  cs = "NaN".toList ∨
    ∃ body, (cs = body ∨ cs = '-' :: body) ∧ (body = "inf".toList ∨ PlainDecimal body)

theorem plainDecimal_of_canonical (hall : ∀ c ∈ ds, c.isDigit = true) (h : Json.Canonical ds) :
    PlainDecimal ds :=
  ⟨ds, [], by simpa using hall, h, by simp, by simp⟩

theorem plain_of_canonical (h : Signed.Canonical cs) : Plain cs := by
  obtain ⟨digits, hall, hcanonical, hcs⟩ := h
  exact Or.inr ⟨digits, hcs.imp_right And.left, Or.inr (plainDecimal_of_canonical hall hcanonical)⟩

theorem isDigit_of_mem_zero : ∀ c ∈ ['0'], c.isDigit = true := List.forall_mem_singleton.mpr rfl

theorem canonical_of_head (hne : ds ≠ []) (hhead : ds.head? ≠ some '0') : Json.Canonical ds :=
  ⟨hne, fun hzero => absurd hzero hhead⟩

/-- The digits of a number need no zero but those that the point asks for. -/
theorem plainDecimal_positional {d : Digits} (h : Trimmed d.digits) : PlainDecimal d.positional := by
  have hzeros : ∀ (j : Nat), ∀ c ∈ List.replicate j '0', c.isDigit = true := by
    intro j c hc
    rw [List.eq_of_mem_replicate hc]
    decide
  simp only [Digits.positional]
  split_ifs with hsmall hwhole
  -- The point stands before all digits, behind all of them or between two of them.
  · refine ⟨['0'], List.replicate (-d.exponent - 1).toNat '0' ++ d.digits, ?_,
      Json.canonical_toDigits 0, ?_, by simp [h.ne_nil]⟩
    · exact List.forall_mem_append.mpr ⟨isDigit_of_mem_zero,
        List.forall_mem_append.mpr ⟨hzeros _, h.isDigit⟩⟩
    · rw [List.getLast?_append_of_ne_nil _ h.ne_nil]
      exact h.last_ne_zero
  · refine plainDecimal_of_canonical (List.forall_mem_append.mpr ⟨h.isDigit, hzeros _⟩)
      (canonical_of_head (List.append_ne_nil_of_left_ne_nil h.ne_nil _) ?_)
    rw [List.head?_append_of_ne_nil _ h.ne_nil]
    exact h.head_ne_zero
  · have hdrop : d.digits.drop (d.exponent.toNat + 1) ≠ [] := by
      rw [Ne, List.drop_eq_nil_iff]
      exact hwhole
    refine ⟨d.digits.take (d.exponent.toNat + 1), d.digits.drop (d.exponent.toNat + 1), ?_, ?_, ?_,
      by rw [if_neg hdrop]⟩
    · rw [List.take_append_drop]
      exact h.isDigit
    · refine canonical_of_head (by simp [h.ne_nil]) ?_
      rw [List.head?_take, if_neg (Nat.succ_ne_zero _)]
      exact h.head_ne_zero
    · rw [List.getLast?_drop, if_neg hwhole]
      exact h.last_ne_zero

theorem plain_signed (negative : Bool) {body : String}
    (h : body.toList = "inf".toList ∨ PlainDecimal body.toList) :
    Plain ((if negative = true then "-" else "") ++ body).toList := by
  refine Or.inr ⟨body.toList, ?_, h⟩
  cases negative
  · exact Or.inl (by simp)
  · exact Or.inr (by simp)

/-- What is written is plain. -/
theorem plain_form (x : Binary64) : Plain x.plain.toList := by
  rw [Binary64.plain]
  by_cases hnan : x.isNaN = true
  · rw [if_pos hnan]
    exact Or.inl rfl
  rw [if_neg hnan]
  by_cases hinfinite : x.isInfinite = true
  · rw [if_pos hinfinite]
    exact plain_signed _ (Or.inl rfl)
  rw [if_neg hinfinite]
  by_cases hzero : x.isZero = true
  · rw [if_pos hzero]
    exact plain_signed _
      (Or.inr (plainDecimal_of_canonical isDigit_of_mem_zero (Json.canonical_toDigits 0)))
  · rw [if_neg hzero]
    refine plain_signed _ (Or.inr ?_)
    rw [String.toList_ofList]
    exact plainDecimal_positional (trimmed_shortest (Bool.eq_false_iff.mpr hzero))

end OrderedRelay.Binary64
