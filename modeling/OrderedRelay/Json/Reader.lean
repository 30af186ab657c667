import OrderedRelay.Json.Raw

/-!
# Reading JSON

From the written form to the value: escapes become characters, two escapes of a surrogate pair one
character, numerals numbers and fields a table in which the last of equal keys stays. A surrogate
without its partner, a numeral without a number and nesting past a given limit have no value.
-/

namespace OrderedRelay.Json

/-- The characters of the pieces; a surrogate needs its partner. -/
def assemble : List Piece → Option (List Char)
  | [] => some []
  | .char c :: ps => (assemble ps).map (c :: ·)
  | .unit n :: ps =>
    if 0xD800 ≤ n ∧ n < 0xDC00 then
      match ps with
      | .unit m :: rest =>
        if 0xDC00 ≤ m ∧ m < 0xE000 then
          (assemble rest).map (Char.ofNat (0x10000 + (n - 0xD800) * 0x400 + (m - 0xDC00)) :: ·)
        else none
      | _ => none
    else if 0xDC00 ≤ n ∧ n < 0xE000 then none
    else (assemble ps).map (Char.ofNat n :: ·)

def assembleText (ps : List Piece) : Option String := (assemble ps).map String.ofList

mutual

/-- The value of a written form that nests at most `levels` deep. -/
def Raw.value? (levels : Nat) : Raw → Option Json
  | .null => some .null
  | .bool b => some (.bool b)
  | .number n => n.value?
  | .text ps => (assembleText ps).map .text
  | .array items => if levels = 0 then none else (valueItems? (levels - 1) items).map .array
  | .object fields =>
    if levels = 0 then none
    else (valueFields? (levels - 1) fields).map fun pairs => .object (Table.ofList pairs)

def valueItems? (levels : Nat) : List Raw → Option (List Json)
  | [] => some []
  | r :: rs =>
    match Raw.value? levels r, valueItems? levels rs with
    | some j, some js => some (j :: js)
    | _, _ => none

def valueFields? (levels : Nat) : List (List Piece × Raw) → Option (List (String × Json))
  | [] => some []
  | (k, r) :: rest =>
    match assembleText k, Raw.value? levels r, valueFields? levels rest with
    | some key, some j, some pairs => some ((key, j) :: pairs)
    | _, _, _ => none

end

def parse? (levels : Nat) (s : String) : Option Json :=
  (Raw.parse? s.toList).bind (Raw.value? levels)

end OrderedRelay.Json
