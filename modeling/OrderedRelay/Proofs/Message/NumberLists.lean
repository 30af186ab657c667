import OrderedRelay.Proofs.Message.OrderNumbers
import OrderedRelay.Proofs.Text.Signed
import OrderedRelay.Proofs.Text.Trim
import Mathlib.Data.List.Forall2

/-!
# The grammar of order numbers

A text is a list of order numbers if it is blank, or if each of its pieces between commas is a numeral
with any white space around it. Reading gives the values of the numerals in order, and otherwise names
the first piece that is no numeral.
-/

namespace OrderedRelay

namespace Decimal

variable {bound n : Nat} {token : String}

/-- The token is a numeral of `n`: an optional plus sign and at least one digit, with a value below the
bound. -/
def Numeral (bound : Nat) (token : String) (n : Nat) : Prop :=
  ∃ digits : List Char, digits ≠ [] ∧ (∀ c ∈ digits, c.isDigit = true) ∧
    (token.toList = digits ∨ token.toList = '+' :: digits) ∧
    Nat.ofDigitChars 10 digits 0 = n ∧ n < bound

theorem eq_unsigned_or (cs : List Char) : cs = unsigned cs ∨ cs = '+' :: unsigned cs := by
  fun_cases unsigned cs with
  | case1 cs => exact Or.inr rfl
  | case2 => exact Or.inl rfl

theorem parse?_eq_some_iff : parse? bound token = some n ↔ Numeral bound token n := by
  rw [parse?, Option.filter_eq_some_iff, ofDigits?_eq_some_iff, decide_eq_true_iff]
  constructor
  · rintro ⟨⟨hne, hdigits, hvalue⟩, hlt⟩
    exact ⟨unsigned token.toList, hne, hdigits, eq_unsigned_or _, hvalue, hlt⟩
  · rintro ⟨digits, hne, hdigits, htoken, hvalue, hlt⟩
    have hunsigned : unsigned token.toList = digits := by
      rcases htoken with heq | heq
      · rw [heq, unsigned_of_isDigit hdigits]
      · rw [heq]
        rfl
    rw [hunsigned]
    exact ⟨⟨hne, hdigits, hvalue⟩, hlt⟩

theorem parse?_eq_none_iff : parse? bound token = none ↔ ∀ n, ¬ Numeral bound token n := by
  simp only [Option.eq_none_iff_forall_ne_some, ne_eq, parse?_eq_some_iff]

theorem not_numeral_empty : ¬ Numeral bound "" n := by
  rintro ⟨digits, hne, -, heq | heq, -⟩
  · exact hne (by simpa using heq.symm)
  · cases heq

end Decimal

namespace OrderNumbers

open Decimal

variable {raw piece : String} {pieces : List String} {n : Nat} {ns : List Nat} {e : BadToken}

/-! ### Tokens -/

/-- The pieces between commas, without the white space around them. -/
def tokens (raw : String) : List String := (Text.split ',' raw).map Text.trim

theorem readToken_eq_ok_iff : readToken piece = .ok n ↔ Numeral bound64 (Text.trim piece) n := by
  rw [← parse?_eq_some_iff, readToken]
  cases parse? bound64 (Text.trim piece) <;> simp

theorem readToken_eq_error_iff :
    readToken piece = .error e ↔
      e.token = Text.trim piece ∧ ∀ n, ¬ Numeral bound64 (Text.trim piece) n := by
  rw [← parse?_eq_none_iff, readToken]
  cases parse? bound64 (Text.trim piece) with
  | some n => simp
  | none =>
    simp only [Except.error.injEq, and_true]
    exact ⟨fun h => h ▸ rfl, fun h => by rw [← h]⟩

theorem readTokens_eq_ok_iff :
    readTokens pieces = .ok ns ↔ List.Forall₂ (Numeral bound64) (pieces.map Text.trim) ns := by
  induction pieces generalizing ns with
  | nil => simp [readTokens, eq_comm]
  | cons piece rest ih =>
    rw [List.map_cons, List.forall₂_cons_left_iff, readTokens]
    simp only [← readToken_eq_ok_iff, ← ih]
    cases readToken piece <;> cases readTokens rest <;> simp [bind, Except.bind, pure, Except.pure, eq_comm]

/-- The token is the first of several that is no numeral. -/
def FirstBad (token : String) (tokens : List String) : Prop :=
  ∃ before after, tokens = before ++ token :: after ∧
    (∀ t ∈ before, ∃ n, Numeral bound64 t n) ∧ ∀ n, ¬ Numeral bound64 token n

theorem firstBad_cons {token t : String} {ts : List String} :
    FirstBad token (t :: ts) ↔
      (token = t ∧ ∀ n, ¬ Numeral bound64 t n) ∨ (∃ n, Numeral bound64 t n) ∧ FirstBad token ts := by
  constructor
  · rintro ⟨before, after, hcut, hgood, hbad⟩
    cases before with
    | nil =>
      obtain ⟨rfl, -⟩ := List.cons.inj hcut
      exact Or.inl ⟨rfl, hbad⟩
    | cons b before =>
      obtain ⟨rfl, hrest⟩ := List.cons.inj hcut
      obtain ⟨hb, hbefore⟩ := List.forall_mem_cons.mp hgood
      exact Or.inr ⟨hb, before, after, hrest, hbefore, hbad⟩
  · rintro (⟨rfl, hbad⟩ | ⟨hgood, before, after, rfl, hbefore, hbad⟩)
    · exact ⟨[], ts, rfl, nofun, hbad⟩
    · exact ⟨t :: before, after, rfl, List.forall_mem_cons.mpr ⟨hgood, hbefore⟩, hbad⟩

theorem readTokens_eq_error_iff :
    readTokens pieces = .error e ↔ FirstBad e.token (pieces.map Text.trim) := by
  induction pieces with
  | nil =>
    constructor
    · nofun
    · rintro ⟨before, after, hcut, -⟩
      simp at hcut
  | cons piece rest ih =>
    rw [List.map_cons, firstBad_cons, ← readToken_eq_error_iff, ← ih, readTokens]
    simp only [← readToken_eq_ok_iff]
    cases readToken piece with
    | error bad => simp [bind, Except.bind]
    | ok n => cases readTokens rest <;> simp [bind, Except.bind, pure, Except.pure]

/-! ### Lists -/

theorem map_trim_pieces (raw : String) :
    (Text.split ',' (Text.trim raw)).map Text.trim = tokens raw :=
  Text.map_trim_split (by decide) raw

theorem decode_of_blank (h : Text.trim raw = "") : decode raw = .ok [] := by
  rw [decode, if_pos h]

theorem decode_of_not_blank (h : Text.trim raw ≠ "") :
    decode raw = readTokens (Text.split ',' (Text.trim raw)) := by
  rw [decode, if_neg h]

theorem tokens_of_blank (h : Text.trim raw = "") : tokens raw = [""] := by
  rw [← map_trim_pieces, h]
  decide

theorem decode_eq_ok_iff :
    decode raw = .ok ns ↔
      Text.trim raw = "" ∧ ns = [] ∨ List.Forall₂ (Numeral bound64) (tokens raw) ns := by
  by_cases hblank : Text.trim raw = ""
  · have hnone : ¬ List.Forall₂ (Numeral bound64) (tokens raw) ns := by
      rw [tokens_of_blank hblank, List.forall₂_cons_left_iff]
      rintro ⟨n, -, hn, -⟩
      exact not_numeral_empty hn
    rw [decode_of_blank hblank, Except.ok.injEq]
    simp [hblank, hnone, eq_comm]
  · rw [decode_of_not_blank hblank, readTokens_eq_ok_iff, map_trim_pieces]
    simp [hblank]

theorem decode_eq_error_iff :
    decode raw = .error e ↔ Text.trim raw ≠ "" ∧ FirstBad e.token (tokens raw) := by
  by_cases hblank : Text.trim raw = ""
  · simp [decode_of_blank hblank, hblank]
  · rw [decode_of_not_blank hblank, readTokens_eq_error_iff, map_trim_pieces]
    simp [hblank]

/-- Reading undoes writing, and reads exactly the lists of numerals, in order; the first token that is
no numeral is named. -/
theorem numerals_and_only_they :
    (∀ ns : List UInt64, decode (encode (ns.map UInt64.toNat)) = .ok (ns.map UInt64.toNat)) ∧
      ∀ raw : String,
        (∀ ns, decode raw = .ok ns ↔
          Text.trim raw = "" ∧ ns = [] ∨ List.Forall₂ (Numeral bound64) (tokens raw) ns) ∧
        ∀ e, decode raw = .error e ↔ Text.trim raw ≠ "" ∧ FirstBad e.token (tokens raw) := by
  refine ⟨fun ns => decode_encode fun n hn => ?_, fun raw => ⟨fun ns => decode_eq_ok_iff,
    fun e => decode_eq_error_iff⟩⟩
  obtain ⟨m, -, rfl⟩ := List.mem_map.mp hn
  exact m.toNat_lt

/-- A plus sign, leading zeros and white space are read over; a blank piece is no numeral. -/
example : decode " +007 ,\u00A018446744073709551615" = .ok [7, 18446744073709551615] ∧
    decode "1, ,x" = .error ⟨""⟩ := by
  decide +kernel

end OrderNumbers

end OrderedRelay
