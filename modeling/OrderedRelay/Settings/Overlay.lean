import OrderedRelay.Settings.Value

/-!
# Overlaying settings

A source of settings is laid over those before it. Tables are merged entry by entry, all else is
replaced. Keys are kept in lower case. A top-level key of a source may be a path to an entry further
down: keys with points between them, and places of lists in square brackets, a negative one counted
from the end. A key that cannot be read as a path stands for itself.
-/

namespace OrderedRelay

inductive SettingStep where
  | key (name : String)
  | place (i : Int)
deriving DecidableEq, Repr

namespace SettingStep

def isKeyChar (c : Char) : Bool := c.isAlphanum || c == ' ' || c == '_' || c == '-'

def isSpace (c : Char) : Bool := c == ' ' || c == '\t' || c == '\n' || c == '\r'

def scanKey? (cs : List Char) : Option (SettingStep × List Char) :=
  match cs.takeWhile isKeyChar with
  | [] => none
  | name => some (.key (String.ofList name), cs.dropWhile isKeyChar)

def scanPlace? (cs : List Char) : Option (SettingStep × List Char) :=
  let (negative, ds) := match cs.dropWhile isSpace with
    | '-' :: r => (true, r)
    | r => (false, r)
  match Decimal.ofDigits? (ds.takeWhile Char.isDigit), (ds.dropWhile Char.isDigit).dropWhile isSpace with
  | some n, ']' :: rest => (Signed.ofMagnitude? negative n).map fun i => (.place i, rest)
  | _, _ => none

/-- The steps after the first key; `fuel` bounds their number. -/
def scanSteps? : Nat → List Char → Option (List SettingStep)
  | _, [] => some []
  | 0, _ => none
  | fuel + 1, '.' :: cs =>
    (scanKey? cs).bind fun (step, rest) => (scanSteps? fuel rest).map (step :: ·)
  | fuel + 1, '[' :: cs =>
    (scanPlace? cs).bind fun (step, rest) => (scanSteps? fuel rest).map (step :: ·)
  | _, _ => none

def pathOf (name : String) : List SettingStep :=
  ((scanKey? name.toList).bind fun (step, rest) =>
    (scanSteps? rest.length rest).map (step :: ·)).getD [.key name]

end SettingStep

namespace SettingValue

mutual

/-- The target, as a table, with a value at a key. A table is merged into what is there. -/
def assign (target : SettingValue) (key : String) : SettingValue → SettingValue
  | .table entries =>
    let name := Text.lower key
    .table (Table.insert name
      (assignAll ((target.entries.get? name).getD (.table [])) entries) target.entries)
  | value => .table (Table.insert (Text.lower key) value target.entries)

def assignAll (target : SettingValue) : List (String × SettingValue) → SettingValue
  | [] => target
  | (key, value) :: rest => assignAll (assign target key value) rest

end

/-- The index of a place in a list of `length` items; one before the first has none. -/
def index? (length : Nat) (i : Int) : Option Nat :=
  if 0 ≤ i then some i.toNat
  else if i.natAbs ≤ length then some (length - i.natAbs)
  else none

def updateItem? (i : Int) (f : SettingValue → Option SettingValue) (items : List SettingValue) :
    Option SettingValue := do
  let k ← index? items.length i
  let padded := items ++ List.replicate (k + 1 - items.length) .nil
  let item ← f (padded.getD k .nil)
  return .list (padded.set k item)

/-- The target with a value at the end of a path. What is on the way and is no table, or no list where
a place is wanted, gives way to an empty one. -/
def assignAt? (value : SettingValue) : List SettingStep → SettingValue → Option SettingValue
  | [], _ => some value
  | [.key key], target => some (assign target key value)
  | .key key :: rest, target =>
    let name := Text.lower key
    (assignAt? value rest ((target.entries.get? name).getD .nil)).map fun inner =>
      .table (Table.insert name inner target.entries)
  | .place i :: rest, target => updateItem? i (assignAt? value rest) target.items

def overlay? (base : SettingValue) (source : Table SettingValue) : Option SettingValue :=
  source.foldlM (fun target entry => assignAt? entry.2 (SettingStep.pathOf entry.1) target) base

end SettingValue

end OrderedRelay
