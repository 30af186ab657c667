/-!
# Binary floating point of 64 bits

A number is its sixty-four bits: a sign, an exponent field of eleven bits and a fraction of fifty-two.
The magnitude of a finite number is a ratio of natural numbers, and every operation rounds its exact
result once, to the nearest number, a tie going to the even fraction. Nothing here uses the machine's
floating point, so each operation can be computed inside a proof.
-/

namespace OrderedRelay

structure Binary64 where
  bits : UInt64
deriving DecidableEq, Repr

namespace Binary64

/-! ### Fields -/

abbrev signUnit : Nat := 0x8000000000000000

abbrev exponentUnit : Nat := 0x10000000000000

def magnitudeBits (x : Binary64) : Nat := x.bits.toNat % signUnit

def isNegative (x : Binary64) : Bool := signUnit ≤ x.bits.toNat

def exponentField (x : Binary64) : Nat := x.magnitudeBits / exponentUnit

def fractionField (x : Binary64) : Nat := x.magnitudeBits % exponentUnit

def isFinite (x : Binary64) : Bool := x.exponentField < 2047

def isInfinite (x : Binary64) : Bool := x.exponentField == 2047 && x.fractionField == 0

def isNaN (x : Binary64) : Bool := x.exponentField == 2047 && x.fractionField != 0

def isZero (x : Binary64) : Bool := x.magnitudeBits == 0

/-- The integer `m` of a finite magnitude `m * 2 ^ scale`. -/
def significand (x : Binary64) : Nat :=
  if x.exponentField = 0 then x.fractionField else exponentUnit + x.fractionField

def scale (x : Binary64) : Int := max x.exponentField 1 - 1075

def numerator (x : Binary64) : Nat := x.significand * Nat.pow 2 x.scale.toNat

def denominator (x : Binary64) : Nat := Nat.pow 2 (-x.scale).toNat

def ofFields (negative : Bool) (magnitude : Nat) : Binary64 :=
  ⟨UInt64.ofNat (if negative then signUnit + magnitude else magnitude)⟩

def zero : Binary64 := ofFields false 0
def one : Binary64 := ofFields false (1023 * exponentUnit)
def infinity (negative : Bool) : Binary64 := ofFields negative (2047 * exponentUnit)
def nan : Binary64 := ofFields false (2047 * exponentUnit + exponentUnit / 2)

/-! ### Rounding -/

/-- The quotient to the nearest integer, a tie going to the even one. -/
def divEven (num den : Nat) : Nat :=
  let q := num / den
  let r := num % den
  if 2 * r < den ∨ (2 * r = den ∧ q % 2 = 0) then q else q + 1

/-- The largest `e` with `2 ^ e ≤ num / den`, for positive `num` and `den`. -/
def floorLog2 (num den : Nat) : Int :=
  let e : Int := (Nat.log2 num : Int) - Nat.log2 den
  if den * Nat.pow 2 e.toNat ≤ num * Nat.pow 2 (-e).toNat then e else e - 1

/-- The number nearest to `num / den`; past the largest number it is infinite. -/
def ofRatio (negative : Bool) (num den : Nat) : Binary64 :=
  if num = 0 then ofFields negative 0
  else
    let q : Int := max (floorLog2 num den - 52) (-1074)
    let m := divEven (num * Nat.pow 2 (-q).toNat) (den * Nat.pow 2 q.toNat)
    let magnitude := (q + 1074).toNat * exponentUnit + m
    if magnitude < 2047 * exponentUnit then ofFields negative magnitude else infinity negative

def ofNat (n : Nat) : Binary64 := ofRatio false n 1

def ofInt (i : Int) : Binary64 := ofRatio (decide (i < 0)) i.natAbs 1

/-- The number nearest to `m * 10 ^ e`. A magnitude far outside the range of the format is decided by
its count of digits alone. -/
def ofDecimal (negative : Bool) (m : Nat) (e : Int) : Binary64 :=
  let size : Int := (Nat.toDigits 10 m).length + e
  if m = 0 ∨ size < -400 then ofFields negative 0
  else if 400 < size then infinity negative
  else ofRatio negative (m * Nat.pow 10 e.toNat) (Nat.pow 10 (-e).toNat)

def mul (x y : Binary64) : Binary64 :=
  ofRatio (x.isNegative != y.isNegative) (x.numerator * y.numerator)
    (x.denominator * y.denominator)

def div (x y : Binary64) : Binary64 :=
  ofRatio (x.isNegative != y.isNegative) (x.numerator * y.denominator)
    (x.denominator * y.numerator)

def neg (x : Binary64) : Binary64 := ofFields (!x.isNegative) x.magnitudeBits

/-! ### Order -/

/-- A position that orders all numbers but the non-numbers; both zeros are at 0. -/
def position (x : Binary64) : Int :=
  if x.isNegative then -(x.magnitudeBits : Int) else x.magnitudeBits

/-- Equality of values: the two zeros are equal and a non-number equals nothing. -/
def equals (x y : Binary64) : Bool := !x.isNaN && !y.isNaN && x.position == y.position

def below (x y : Binary64) : Bool := !x.isNaN && !y.isNaN && decide (x.position < y.position)

def atMost (x y : Binary64) : Bool := !x.isNaN && !y.isNaN && decide (x.position ≤ y.position)

def clamp (low high x : Binary64) : Binary64 :=
  if x.below low then low else if high.below x then high else x

/-! ### Integers near a number -/

/-- The magnitude to the nearest integer, a half going away from zero; for a finite number. -/
def roundedMagnitude (x : Binary64) : Nat :=
  (2 * x.numerator + x.denominator) / (2 * x.denominator)

end Binary64

end OrderedRelay
