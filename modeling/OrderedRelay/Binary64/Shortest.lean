import OrderedRelay.Binary64.Basic

/-!
# Shortest decimals

The fewest decimal digits that read back as a given finite number: among the decimals with that many
digits, the one nearest to the number, a tie going to the even last digit. A decimal reads back when
it lies in the interval of reals that round to the number, whose ends belong to it exactly when the
significand is even.
-/

namespace OrderedRelay.Binary64

/-- A positive decimal `d.ddd * 10 ^ exponent`, by its digits without trailing zeros. -/
structure Digits where
  digits : List Char
  exponent : Int
deriving DecidableEq, Repr

/-- The reals that round to a positive number: `low / unit` to `high / unit`, with the number itself
at `centre / unit`. -/
structure Neighbourhood where
  low : Nat
  centre : Nat
  high : Nat
  unit : Nat
  closed : Bool

/-- The neighbourhood of a positive finite number. Below a power of two the neighbours are half as far
apart. -/
def neighbourhood (x : Binary64) : Neighbourhood :=
  let m := 4 * x.significand
  let gap := if x.fractionField = 0 ∧ 1 < x.exponentField then 1 else 2
  let shift := Nat.pow 2 x.scale.toNat
  { low := (m - gap) * shift
    centre := m * shift
    high := (m + 2) * shift
    unit := 4 * x.denominator
    closed := x.significand % 2 = 0 }

def Neighbourhood.holds (n : Neighbourhood) (g : Int) (c : Nat) : Bool :=
  let point := c * Nat.pow 10 g.toNat * n.unit
  let stretch := Nat.pow 10 (-g).toNat
  if n.closed then n.low * stretch ≤ point && point ≤ n.high * stretch
  else n.low * stretch < point && point < n.high * stretch

/-- The multiple of `10 ^ g` that lies in the neighbourhood, the nearer one if both neighbours of the
number do. -/
def Neighbourhood.onGrid (n : Neighbourhood) (g : Int) : Option Nat :=
  let num := n.centre * Nat.pow 10 (-g).toNat
  let den := n.unit * Nat.pow 10 g.toNat
  let c := num / den
  let nearest := divEven num den
  if n.holds g nearest then some nearest
  else if n.holds g c then some c
  else if n.holds g (c + 1) then some (c + 1)
  else none

def firstDigitExponent (num den : Nat) : Int :=
  if den ≤ num then (Nat.toDigits 10 (num / den)).length - 1
  else -((Nat.toDigits 10 ((den + num - 1) / num - 1)).length : Int)

/-- Tries grids of one more digit each, from the grid `10 ^ g` on, `fuel` times; the last resort is the
number's own neighbour on the last grid. -/
def Neighbourhood.search (n : Neighbourhood) : Nat → Int → Nat × Int
  | 0, g => (divEven (n.centre * Nat.pow 10 (-g).toNat) (n.unit * Nat.pow 10 g.toNat), g)
  | fuel + 1, g =>
    match n.onGrid g with
    | some c => (c, g)
    | none => n.search fuel (g - 1)

/-- The shortest digits of a positive finite number; seventeen always suffice. -/
def shortest (x : Binary64) : Digits :=
  let n := x.neighbourhood
  let (c, g) := n.search 16 (firstDigitExponent x.numerator x.denominator)
  let ds := Nat.toDigits 10 c
  { digits := (ds.reverse.dropWhile (· == '0')).reverse
    exponent := ds.length - 1 + g }

def Digits.positional (d : Digits) : List Char :=
  let n := d.digits.length
  if d.exponent < 0 then
    ['0', '.'] ++ List.replicate (-d.exponent - 1).toNat '0' ++ d.digits
  else
    let whole := d.exponent.toNat + 1
    if n ≤ whole then d.digits ++ List.replicate (whole - n) '0'
    else d.digits.take whole ++ '.' :: d.digits.drop whole

def Digits.scientific (d : Digits) : List Char :=
  let mantissa := match d.digits with
    | first :: (second :: rest) => first :: '.' :: second :: rest
    | ds => ds
  let sign := if d.exponent < 0 then '-' else '+'
  mantissa ++ 'e' :: sign :: Nat.toDigits 10 d.exponent.natAbs

end OrderedRelay.Binary64
