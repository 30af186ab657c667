import OrderedRelay.Text.Decimal
import OrderedRelay.Text.Digits

/-!
# Signed integers

Reading a signed integer of 64 bits: an optional sign of either kind and at least one digit. Leading
zeros are allowed. Writing is in decimal, without a plus sign and without leading zeros.
-/

namespace OrderedRelay.Signed

/-- The integer with the given sign and magnitude, if it fits 64 bits. -/
def ofMagnitude? (negative : Bool) (n : Nat) : Option Int :=
  if negative then if n ≤ 0x8000000000000000 then some (-(n : Int)) else none
  else if n < 0x8000000000000000 then some n
  else none

def parseChars? (base : Nat) : List Char → Option Int
  | '-' :: cs => (Text.ofDigits? base cs).bind (ofMagnitude? true)
  | '+' :: cs => (Text.ofDigits? base cs).bind (ofMagnitude? false)
  | cs => (Text.ofDigits? base cs).bind (ofMagnitude? false)

def parse? (s : String) : Option Int := parseChars? 10 s.toList

def render (i : Int) : String :=
  if i < 0 then "-" ++ Decimal.render i.natAbs else Decimal.render i.natAbs

end OrderedRelay.Signed
