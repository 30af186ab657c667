import OrderedRelay.Binary64.Numeral
import OrderedRelay.Table
import OrderedRelay.Text.Lowercase
import OrderedRelay.Text.Signed

/-!
# Values of settings

What a source of settings gives for a name. The kind that a source gives need not be the one that is
wanted: each conversion says which kinds serve, and how. `nil` serves for nothing.
-/

namespace OrderedRelay

inductive SettingValue where
  | nil
  | bool (b : Bool)
  | integer (i : Int)
  | real (x : Binary64)
  | text (s : String)
  | list (items : List SettingValue)
  | table (entries : List (String × SettingValue))
deriving Inhabited

namespace SettingValue

def entries : SettingValue → Table SettingValue
  | .table entries => entries
  | _ => []

def items : SettingValue → List SettingValue
  | .list items => items
  | _ => []

def toText? : SettingValue → Option String
  | .text s => some s
  | .bool b => some (if b then "true" else "false")
  | .integer i => some (Signed.render i)
  | .real x => some x.plain
  | _ => none

def boolOfWord? (s : String) : Option Bool :=
  let word := Text.lower s
  if word ∈ ["1", "true", "on", "yes"] then some true
  else if word ∈ ["0", "false", "off", "no"] then some false
  else none

def toBool? : SettingValue → Option Bool
  | .bool b => some b
  | .integer i => some (i ≠ 0)
  | .real x => some !x.isZero
  | .text s => boolOfWord? s
  | _ => none

/-- The unsigned 64-bit number nearest to `x`, a half going up; a non-number counts as zero. -/
def natOfReal (x : Binary64) : Nat :=
  if x.isNaN ∨ x.isNegative then 0
  else if x.isInfinite then Decimal.bound64 - 1
  else min x.roundedMagnitude (Decimal.bound64 - 1)

/-- The unsigned 64-bit number of a word, which is 1 for truth and 0 for its contrary, or its digits. -/
def natOfWord? (s : String) : Option Nat :=
  let word := Text.lower s
  if word ∈ ["true", "on", "yes"] then some 1
  else if word ∈ ["false", "off", "no"] then some 0
  else Decimal.parse? Decimal.bound64 s

def toNat? : SettingValue → Option Nat
  | .integer i => if 0 ≤ i then some i.toNat else none
  | .bool b => some b.toNat
  | .real x => some (natOfReal x)
  | .text s => natOfWord? s
  | _ => none

def toTexts? : SettingValue → Option (List String)
  | .list items => items.mapM toText?
  | _ => none

/-- The name that is chosen: a text, or the key of a table with one entry. -/
def choice? : SettingValue → Option String
  | .text s => some s
  | .table [(key, _)] => some key
  | _ => none

def toOption? {α : Type} (options : List (String × α)) (v : SettingValue) : Option α :=
  v.choice?.bind fun name => options.lookup (Text.lower name)

/-- The fields of a group: a table has them by name, a list in the order of `names`. Items of the list
past the last name belong to no field. -/
def fields? (names : List String) : SettingValue → Option (Table SettingValue)
  | .table entries => some entries
  | .list items => some (Table.ofList (names.zip items))
  | _ => none

end SettingValue

/-- The value of a field, or a default for one that is absent. A field that is there must convert. -/
def Table.fieldOr {α : Type} (convert : SettingValue → Option α) (default : α) (key : String)
    (fields : Table SettingValue) : Option α :=
  match fields.get? key with
  | none => some default
  | some v => convert v

end OrderedRelay
