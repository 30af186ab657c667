import OrderedRelay.Json.Printer
import OrderedRelay.Json.Raw
import Mathlib.Tactic.SplitIfs

/-!
# Numerals read back

A numeral ends where no digit, point or exponent can follow, so it is read the same whatever comes
after such an end. The digits of a 64-bit integer read as that integer.
-/

namespace OrderedRelay.Json

/-- What follows cannot continue a numeral. -/
def Ends (rest : List Char) : Prop :=
  ∀ c ∈ rest.head?, c.isDigit = false ∧ c ≠ '.' ∧ c ≠ 'e' ∧ c ≠ 'E'

theorem ends_nil : Ends [] := nofun

theorem ends_cons {c : Char} (rest : List Char)
    (h : c.isDigit = false ∧ c ≠ '.' ∧ c ≠ 'e' ∧ c ≠ 'E') : Ends (c :: rest) := by
  intro d hd
  obtain rfl : c = d := by simpa using hd
  exact h

variable {cs ds rest after whole fraction : List Char} {negative : Bool}

/-! ### Whatever follows -/

theorem spanDigits_ends (hends : Ends cs) : spanDigits cs = ([], cs) := by
  cases cs with
  | nil => rfl
  | cons c cs =>
    have hc := (hends c rfl).1
    simp [spanDigits, hc]

theorem spanDigits_append (cs : List Char) (hends : Ends rest) :
    spanDigits (cs ++ rest) = ((spanDigits cs).1, (spanDigits cs).2 ++ rest) := by
  induction cs with
  | nil => exact spanDigits_ends hends
  | cons c cs ih =>
    simp only [spanDigits, Prod.mk.injEq] at ih ⊢
    by_cases hc : c.isDigit = true
    · simp [hc, ih]
    · simp [hc]

/-- The digits of an exponent, after its sign. -/
theorem exponent_append {e : Bool × List Char} (hends : Ends rest)
    (h : (match spanDigits cs with
      | ([], _) => none
      | (ds, after) => some ((negative, ds), after)) = some (e, after)) :
    (match spanDigits (cs ++ rest) with
      | ([], _) => none
      | (ds, after) => some ((negative, ds), after)) = some (e, after ++ rest) := by
  rw [spanDigits_append cs hends]
  cases hdigits : spanDigits cs with
  | mk ds tail =>
    rw [hdigits] at h
    cases ds with
    | nil => cases h
    | cons d ds =>
      obtain ⟨rfl, rfl⟩ := Prod.mk.inj (Option.some.inj h)
      rfl

theorem scanExponent_unsigned {c : Char} (cs : List Char) (hplus : c ≠ '+') (hminus : c ≠ '-') :
    scanExponent (c :: cs) = match spanDigits (c :: cs) with
      | ([], _) => none
      | (ds, after) => some ((false, ds), after) := by
  unfold scanExponent
  split
  rename_i negative after hsign
  split at hsign
  · rename_i hc
    exact absurd (List.cons.inj hc).1 hplus
  · rename_i hc
    exact absurd (List.cons.inj hc).1 hminus
  · cases hsign
    rfl

theorem scanExponent_append {e : Bool × List Char} (hends : Ends rest)
    (h : scanExponent cs = some (e, after)) :
    scanExponent (cs ++ rest) = some (e, after ++ rest) := by
  cases cs with
  | nil => cases h
  | cons c cs =>
    by_cases hplus : c = '+'
    · subst hplus
      exact exponent_append hends h
    · by_cases hminus : c = '-'
      · subst hminus
        exact exponent_append hends h
      · rw [scanExponent_unsigned cs hplus hminus] at h
        rw [List.cons_append, scanExponent_unsigned (cs ++ rest) hplus hminus]
        exact exponent_append hends h

theorem scanPower_other {c : Char} (cs : List Char) (he : c ≠ 'e') (hE : c ≠ 'E') :
    scanPower negative whole fraction (c :: cs) =
      some (⟨negative, whole, fraction, none⟩, c :: cs) := by
  simp [scanPower, he, hE]

theorem scanPower_ends (hends : Ends cs) :
    scanPower negative whole fraction cs = some (⟨negative, whole, fraction, none⟩, cs) := by
  cases cs with
  | nil => rfl
  | cons c cs =>
    obtain ⟨-, -, he, hE⟩ := hends c rfl
    exact scanPower_other cs he hE

theorem scanPower_append {n : Numeral} (hends : Ends rest)
    (h : scanPower negative whole fraction cs = some (n, after)) :
    scanPower negative whole fraction (cs ++ rest) = some (n, after ++ rest) := by
  cases cs with
  | nil =>
    obtain ⟨rfl, rfl⟩ := Prod.mk.inj (Option.some.inj h)
    exact scanPower_ends hends
  | cons c cs =>
    by_cases hpower : c = 'e' ∨ c = 'E'
    · rcases hpower with rfl | rfl
      all_goals
        obtain ⟨⟨e, tail⟩, he, heq⟩ := Option.map_eq_some_iff.mp h
        obtain ⟨rfl, rfl⟩ := Prod.mk.inj heq
        exact Option.map_eq_some_iff.mpr ⟨_, scanExponent_append hends he, rfl⟩
    · rw [not_or] at hpower
      rw [scanPower_other cs hpower.1 hpower.2] at h
      obtain ⟨rfl, rfl⟩ := Prod.mk.inj (Option.some.inj h)
      exact scanPower_other (cs ++ rest) hpower.1 hpower.2

theorem scanTail_other {c : Char} (cs : List Char) (hpoint : c ≠ '.') :
    scanTail negative whole (c :: cs) = scanPower negative whole [] (c :: cs) := by
  rw [scanTail]
  intro r heq
  exact hpoint (List.cons.inj heq).1

theorem scanTail_ends (hends : Ends cs) :
    scanTail negative whole cs = scanPower negative whole [] cs := by
  cases cs with
  | nil => rfl
  | cons c cs => exact scanTail_other cs (hends c rfl).2.1

theorem scanTail_append {n : Numeral} (hends : Ends rest)
    (h : scanTail negative whole cs = some (n, after)) :
    scanTail negative whole (cs ++ rest) = some (n, after ++ rest) := by
  cases cs with
  | nil =>
    rw [scanTail_ends ends_nil] at h
    rw [List.nil_append, scanTail_ends hends]
    exact scanPower_append hends h
  | cons c cs =>
    by_cases hpoint : c = '.'
    · subst hpoint
      simp only [scanTail, List.cons_append, spanDigits_append cs hends] at h ⊢
      cases hdigits : spanDigits cs with
      | mk ds tail =>
        rw [hdigits] at h
        cases ds with
        | nil => cases h
        | cons d ds => exact scanPower_append hends h
    · rw [scanTail_other cs hpoint] at h
      rw [List.cons_append, scanTail_other (cs ++ rest) hpoint]
      exact scanPower_append hends h

/-- The digits before the point: a zero alone, or digits that do not start with one. -/
def Canonical (ds : List Char) : Prop := ds ≠ [] ∧ (ds.head? = some '0' → ds = ['0'])

theorem scanUnsigned_of_canonical (hspan : spanDigits cs = (ds, after)) (hds : Canonical ds) :
    scanUnsigned negative cs = scanTail negative ds after := by
  rw [scanUnsigned, hspan]
  split
  · rename_i hnil
    obtain ⟨rfl, rfl⟩ := Prod.mk.inj hnil
    exact absurd rfl hds.1
  · rename_i hzero
    obtain ⟨rfl, rfl⟩ := Prod.mk.inj hzero
    rfl
  · rename_i hnot hzero
    obtain ⟨rfl, rfl⟩ := Prod.mk.inj hzero
    exact absurd (List.cons.inj (hds.2 rfl)).2 hnot
  · rename_i hother
    obtain ⟨rfl, rfl⟩ := Prod.mk.inj hother
    rfl

theorem canonical_of_scanUnsigned {result : Numeral × List Char}
    (h : scanUnsigned negative cs = some result) : Canonical (spanDigits cs).1 := by
  unfold scanUnsigned at h
  split at h
  · cases h
  · rename_i hzero
    rw [hzero]
    exact ⟨nofun, fun _ => rfl⟩
  · cases h
  · rename_i hnil hone hlong hother
    rw [hother]
    refine ⟨hnil, ?_⟩
    intro hhead
    obtain ⟨tail, htail⟩ := List.head?_eq_some_iff.mp hhead
    exact (hlong tail htail).elim

theorem scanUnsigned_append {n : Numeral} (hends : Ends rest)
    (h : scanUnsigned negative cs = some (n, after)) :
    scanUnsigned negative (cs ++ rest) = some (n, after ++ rest) := by
  have hcanonical := canonical_of_scanUnsigned h
  rw [scanUnsigned_of_canonical rfl hcanonical] at h
  rw [scanUnsigned_of_canonical (spanDigits_append cs hends) hcanonical]
  exact scanTail_append hends h

theorem scanNumeral_unsigned {c : Char} (cs : List Char) (hminus : c ≠ '-') :
    scanNumeral (c :: cs) = scanUnsigned false (c :: cs) := by
  rw [scanNumeral]
  intro r heq
  exact hminus (List.cons.inj heq).1

theorem scanNumeral_append {n : Numeral} (hends : Ends rest)
    (h : scanNumeral cs = some (n, after)) :
    scanNumeral (cs ++ rest) = some (n, after ++ rest) := by
  cases cs with
  | nil => cases h
  | cons c cs =>
    by_cases hminus : c = '-'
    · subst hminus
      exact scanUnsigned_append hends h
    · rw [scanNumeral_unsigned cs hminus] at h
      rw [List.cons_append, scanNumeral_unsigned (cs ++ rest) hminus]
      exact scanUnsigned_append hends h

/-! ### Integers -/

theorem isDigit_of_mem_digits {n : Nat} {c : Char} (h : c ∈ Nat.toDigits 10 n) :
    c.isDigit = true :=
  Nat.isDigit_of_mem_toDigits (by decide) (by decide) h

theorem head?_toDigits_ne_zero {n : Nat} (hn : 0 < n) : (Nat.toDigits 10 n).head? ≠ some '0' := by
  induction n using Nat.strongRecOn with
  | ind n ih =>
    by_cases hsmall : n < 10
    · have hall : ∀ m < 10, 0 < m → m.digitChar ≠ '0' := by decide
      rw [Nat.toDigits_of_lt_base hsmall]
      simpa using hall n hsmall hn
    · have hhead := ih (n / 10) (by omega) (by omega)
      rw [Nat.toDigits_of_base_le (by decide) (by omega), List.head?_append]
      cases hdigits : Nat.toDigits 10 (n / 10) with
      | nil => exact absurd hdigits Nat.toDigits_ne_nil
      | cons d ds =>
        rw [hdigits] at hhead
        exact hhead

theorem spanDigits_digits (hds : ∀ c ∈ ds, c.isDigit = true) (hends : Ends rest) :
    spanDigits (ds ++ rest) = (ds, rest) := by
  obtain ⟨hnone, hall⟩ := Prod.mk.inj (spanDigits_ends hends)
  rw [spanDigits, List.takeWhile_append_of_pos hds, List.dropWhile_append_of_pos hds, hnone, hall,
    List.append_nil]

theorem canonical_toDigits (n : Nat) : Canonical (Nat.toDigits 10 n) := by
  refine ⟨Nat.toDigits_ne_nil, fun hhead => ?_⟩
  have hzero : n = 0 := Nat.eq_zero_of_not_pos fun hpos => head?_toDigits_ne_zero hpos hhead
  rw [hzero]
  rfl

theorem scanUnsigned_toDigits (negative : Bool) (n : Nat) (hends : Ends rest) :
    scanUnsigned negative (Nat.toDigits 10 n ++ rest) =
      some (⟨negative, Nat.toDigits 10 n, [], none⟩, rest) := by
  have hspan := spanDigits_digits (fun c => isDigit_of_mem_digits (n := n)) hends
  rw [scanUnsigned_of_canonical hspan (canonical_toDigits n), scanTail_ends hends,
    scanPower_ends hends]

theorem scanNumeral_renderInteger (i : Int) (hends : Ends rest) :
    scanNumeral (renderInteger i ++ rest) =
      some (⟨decide (i < 0), Nat.toDigits 10 i.natAbs, [], none⟩, rest) := by
  unfold renderInteger
  by_cases hneg : i < 0
  · rw [if_pos hneg, decide_eq_true hneg]
    exact scanUnsigned_toDigits true i.natAbs hends
  · have hscan := scanUnsigned_toDigits false i.natAbs hends
    rw [if_neg hneg, decide_eq_false hneg]
    cases hdigits : Nat.toDigits 10 i.natAbs with
    | nil => exact absurd hdigits Nat.toDigits_ne_nil
    | cons d ds =>
      have hd : d.isDigit = true := isDigit_of_mem_digits (hdigits ▸ List.mem_cons_self ..)
      have hminus : d ≠ '-' := by
        rintro rfl
        revert hd
        decide
      rw [hdigits] at hscan
      rw [List.cons_append, scanNumeral_unsigned _ hminus]
      exact hscan

theorem value?_integer {i : Int} (h : (Json.integer i).WellFormed) :
    (⟨decide (i < 0), Nat.toDigits 10 i.natAbs, [], none⟩ : Numeral).value? = some (.integer i) := by
  obtain ⟨hlow, hhigh⟩ := h
  have hread : Nat.ofDigitChars 10 (Nat.toDigits 10 i.natAbs) 0 = i.natAbs := by simp
  have hplain : ¬(([] : List Char) ≠ [] ∨ (none : Option (Bool × List Char)).isSome = true) := by simp
  simp only [Numeral.value?]
  rw [hread, if_neg hplain]
  by_cases hneg : i < 0
  · have hrange : i.natAbs ≠ 0 ∧ i.natAbs ≤ 0x8000000000000000 := by omega
    have habs : -(i.natAbs : Int) = i := by omega
    rw [if_pos (decide_eq_true hneg), if_pos hrange, habs]
  · have hrange : i.natAbs < 0x10000000000000000 := by omega
    have habs : (i.natAbs : Int) = i := by omega
    rw [decide_eq_false hneg, if_neg Bool.false_ne_true, if_pos hrange, habs]

end OrderedRelay.Json
