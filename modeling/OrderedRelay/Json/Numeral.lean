import OrderedRelay.Json.Basic

/-!
# JSON numerals

A numeral as written, and the number it stands for. A numeral without point and exponent is an integer
when it fits 64 bits, except for the negative zero. Any other one is a floating-point number, computed
in two roundings: the digits that fit an unsigned 64-bit number are rounded, and then multiplied or
divided by a rounded power of ten. A numeral whose number would be infinite has none.
-/

namespace OrderedRelay.Json

/-- A numeral: the digits before the point, those after it, of which there are none without a point,
and the exponent with its sign. -/
structure Numeral where
  negative : Bool
  whole : List Char
  fraction : List Char
  exponent : Option (Bool × List Char)
deriving DecidableEq, Repr

def spanDigits (cs : List Char) : List Char × List Char :=
  (cs.takeWhile Char.isDigit, cs.dropWhile Char.isDigit)

def scanExponent (cs : List Char) : Option ((Bool × List Char) × List Char) :=
  let (negative, rest) := match cs with
    | '+' :: r => (false, r)
    | '-' :: r => (true, r)
    | r => (false, r)
  match spanDigits rest with
  | ([], _) => none
  | (ds, after) => some ((negative, ds), after)

def scanPower (negative : Bool) (whole fraction : List Char) : List Char → Option (Numeral × List Char)
  | 'e' :: cs | 'E' :: cs =>
    (scanExponent cs).map fun (e, rest) => (⟨negative, whole, fraction, some e⟩, rest)
  | cs => some (⟨negative, whole, fraction, none⟩, cs)

def scanTail (negative : Bool) (whole cs : List Char) : Option (Numeral × List Char) :=
  match cs with
  | '.' :: r =>
    match spanDigits r with
    | ([], _) => none
    | (fraction, after) => scanPower negative whole fraction after
  | _ => scanPower negative whole [] cs

/-- The whole part without sign: a zero alone, or digits that do not start with one. -/
def scanUnsigned (negative : Bool) (cs : List Char) : Option (Numeral × List Char) :=
  match spanDigits cs with
  | ([], _) => none
  | (['0'], after) => scanTail negative ['0'] after
  | ('0' :: _, _) => none
  | (ds, after) => scanTail negative ds after

def scanNumeral : List Char → Option (Numeral × List Char)
  | '-' :: cs => scanUnsigned true cs
  | cs => scanUnsigned false cs

/-- Appends digits to a significand as long as it stays below the bound of 64 bits, and gives the digits left. -/
def absorb (significand : Nat) : List Char → Nat × List Char
  | [] => (significand, [])
  | d :: ds =>
    let next := significand * 10 + (d.toNat - '0'.toNat)
    if next < 0x10000000000000000 then absorb next ds else (significand, d :: ds)

def divPower (f : Binary64) (k : Nat) : Binary64 :=
  if k ≤ 308 then f.div (.ofNat (Nat.pow 10 k))
  else if f.isZero then f
  else divPower (f.div (.ofNat (Nat.pow 10 308))) (k - 308)
termination_by k

def scaled? (significand : Nat) (e : Int) : Option Binary64 :=
  let f := Binary64.ofNat significand
  if e < 0 then some (divPower f e.natAbs)
  else if e ≤ 308 then
    let x := f.mul (.ofNat (Nat.pow 10 e.toNat))
    if x.isFinite then some x else none
  else if f.isZero then some f
  else none

def Numeral.power (n : Numeral) : Int :=
  match n.exponent with
  | none => 0
  | some (negative, ds) =>
    let e : Int := Nat.ofDigitChars 10 ds 0
    if negative then -e else e

def Numeral.real? (n : Numeral) : Option Json :=
  let (high, skipped) := absorb 0 n.whole
  let (significand, ignored) := absorb high n.fraction
  let taken : Int := (n.fraction.length : Int) - ignored.length
  (scaled? significand (skipped.length - taken + n.power)).map fun x =>
    .real (if n.negative then x.neg else x)

def Numeral.value? (n : Numeral) : Option Json :=
  let whole := Nat.ofDigitChars 10 n.whole 0
  if n.fraction ≠ [] ∨ n.exponent.isSome then n.real?
  else if n.negative then
    if whole ≠ 0 ∧ whole ≤ 0x8000000000000000 then some (.integer (-(whole : Int))) else n.real?
  else if whole < 0x10000000000000000 then some (.integer whole) else n.real?

end OrderedRelay.Json
