/-!
# Base64

The standard alphabet with padding. Reading accepts exactly what writing produces: padding is required
and the bits that no byte uses are zero. Three bytes are one number of 24 bits, written as four digits
of six bits each.
-/

namespace OrderedRelay.Base64

def digit (n : Nat) : Char :=
  if n < 26 then Char.ofNat ('A'.toNat + n)
  else if n < 52 then Char.ofNat ('a'.toNat + (n - 26))
  else if n < 62 then Char.ofNat ('0'.toNat + (n - 52))
  else if n = 62 then '+'
  else '/'

def value? (c : Char) : Option Nat :=
  if 'A' ≤ c ∧ c ≤ 'Z' then some (c.toNat - 'A'.toNat)
  else if 'a' ≤ c ∧ c ≤ 'z' then some (c.toNat - 'a'.toNat + 26)
  else if '0' ≤ c ∧ c ≤ '9' then some (c.toNat - '0'.toNat + 52)
  else if c = '+' then some 62
  else if c = '/' then some 63
  else none

def digits (n : Nat) : List Char :=
  [digit (n / 0x40000 % 64), digit (n / 0x1000 % 64), digit (n / 0x40 % 64), digit (n % 64)]

/-- Groups of three bytes as four digits, a shorter last group padded. -/
def encode : List UInt8 → List Char
  | [] => []
  | [a] => (digits (a.toNat * 0x10000)).take 2 ++ ['=', '=']
  | [a, b] => (digits (a.toNat * 0x10000 + b.toNat * 0x100)).take 3 ++ ['=']
  | a :: b :: c :: rest => digits (a.toNat * 0x10000 + b.toNat * 0x100 + c.toNat) ++ encode rest

def byte (n : Nat) : UInt8 := UInt8.ofNat n

def decodeLast (a b c d : Char) : Option (List UInt8) :=
  match value? a, value? b, value? c, d with
  | some a, some b, none, '=' =>
    if c = '=' ∧ b % 16 = 0 then some [byte (a * 4 + b / 16)] else none
  | some a, some b, some c, '=' =>
    if c % 4 = 0 then some [byte (a * 4 + b / 16), byte (b % 16 * 16 + c / 4)] else none
  | _, _, _, _ => none

def decodeGroup (a b c d : Char) : Option (List UInt8) :=
  match value? a, value? b, value? c, value? d with
  | some a, some b, some c, some d =>
    some [byte (a * 4 + b / 16), byte (b % 16 * 16 + c / 4), byte (c % 4 * 64 + d)]
  | _, _, _, _ => none

/-- Reads whole groups of four; only the last one may be padded. -/
def decode : List Char → Option (List UInt8)
  | [] => some []
  | a :: b :: c :: d :: rest =>
    match decodeGroup a b c d with
    | some group => (decode rest).map (group ++ ·)
    | none => if rest = [] then decodeLast a b c d else none
  | _ => none

end OrderedRelay.Base64
