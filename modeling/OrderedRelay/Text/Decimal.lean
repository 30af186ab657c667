/-!
# Unsigned decimals

Reading an unsigned decimal: an optional plus sign and at least one ASCII digit, with a value below
a given bound. Leading zeros are allowed. Writing is the digits of the number without leading zeros.
-/

namespace OrderedRelay.Decimal

def bound64 : Nat := 0x10000000000000000

def ofDigits? (cs : List Char) : Option Nat :=
  if cs ≠ [] ∧ cs.all Char.isDigit then some (Nat.ofDigitChars 10 cs 0) else none

/-- The characters after one optional plus sign. -/
def unsigned : List Char → List Char
  | '+' :: cs => cs
  | cs => cs

def parse? (bound : Nat) (s : String) : Option Nat :=
  (ofDigits? (unsigned s.toList)).filter (· < bound)

def render (n : Nat) : String := String.ofList (Nat.toDigits 10 n)

theorem ofDigits?_toDigits (n : Nat) : ofDigits? (Nat.toDigits 10 n) = some n := by
  have hne : Nat.toDigits 10 n ≠ [] := Nat.toDigits_ne_nil
  have hall : (Nat.toDigits 10 n).all Char.isDigit = true := by
    rw [List.all_eq_true]
    exact fun c hc => Nat.isDigit_of_mem_toDigits (by omega) (by omega) hc
  simp [ofDigits?, hne, hall, Nat.ofDigitChars_toDigits]

end OrderedRelay.Decimal
