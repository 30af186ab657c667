/-!
# Digits

Digits in bases up to sixteen, either case, and the numbers that they write.
-/

namespace OrderedRelay.Text

def digitValue? (c : Char) : Option Nat :=
  if c.isDigit then some (c.toNat - '0'.toNat)
  else if 'a' ≤ c ∧ c ≤ 'f' then some (c.toNat - 'a'.toNat + 10)
  else if 'A' ≤ c ∧ c ≤ 'F' then some (c.toNat - 'A'.toNat + 10)
  else none

/-- The value of a digit in a base of at most sixteen. -/
def digitIn? (base : Nat) (c : Char) : Option Nat := (digitValue? c).filter (· < base)

def appendDigits? (base : Nat) (n : Nat) : List Char → Option Nat
  | [] => some n
  | c :: cs => (digitIn? base c).bind fun d => appendDigits? base (n * base + d) cs

def ofDigits? (base : Nat) (cs : List Char) : Option Nat :=
  if cs = [] then none else appendDigits? base 0 cs

end OrderedRelay.Text
