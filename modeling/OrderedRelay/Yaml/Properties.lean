import OrderedRelay.Yaml.Plain
import OrderedRelay.Yaml.Quoted

/-!
# Names, kinds and keys of nodes

In front of a node may stand a name, by which it can be used again, and its kind. A key of a table is a
text or an integer, and a table has each key once.
-/

namespace OrderedRelay.Yaml

/-! ### Names and kinds -/

/-- What stands in front of a node: its name and its kind. -/
structure Properties where
  anchor : Option String := none
  kind : Option String := none
deriving DecidableEq, Repr

def isNameChar (c : Char) : Bool := !(isBlank c || c == '\n' || isFlowMark c)

def endsName (cs : List Char) : Bool :=
  endsWord cs || cs.head? == some ',' || cs.head? == some ']' || cs.head? == some '\x7d'

/-- The kind that a tag states: what follows two exclamation marks, or else a kind of its own. -/
def kindOfTag : List Char → String
  | '!' :: '!' :: kind => String.ofList kind
  | _ => ""

def propertyNext (cs : List Char) : Bool := cs.head? == some '&' || cs.head? == some '!'

def Cursor.property? (c : Cursor) (p : Properties) : Option (Properties × Cursor) :=
  let word := c.rest.takeWhile isNameChar
  let after := c.behind word.length (c.rest.dropWhile isNameChar)
  if !endsName after.rest then none
  else match word with
    | '&' :: name =>
      if name = [] ∨ p.anchor.isSome then none
      else some ({ p with anchor := some (String.ofList name) }, after)
    | '!' :: _ => if p.kind.isSome then none else some ({ p with kind := some (kindOfTag word) }, after)
    | _ => none

def Cursor.alias? (c : Cursor) : Option (SettingValue × Cursor) :=
  let word := c.rest.takeWhile isNameChar
  let after := c.behind word.length (c.rest.dropWhile isNameChar)
  match word with
  | '*' :: name =>
    if endsName after.rest then
      (c.anchors.lookup (String.ofList name)).map fun v => (v, after)
    else none
  | _ => none

def Properties.plainValue? (p : Properties) (s : String) : Option SettingValue :=
  match p.kind with
  | none => Yaml.plainValue? s
  | some kind => taggedValue? kind s

def Cursor.named (c : Cursor) (p : Properties) (v : SettingValue) : Cursor :=
  match p.anchor with
  | none => c
  | some name => { c with anchors := (name, v) :: c.anchors }

/-! ### Keys -/

/-- A key as written; a text of digits is not the integer. -/
inductive Key where
  | text (s : String)
  | integer (i : Int)
deriving DecidableEq, Repr

def Key.name : Key → String
  | text s => s
  | integer i => Signed.render i

def Key.ofValue? : SettingValue → Option Key
  | .text s => some (text s)
  | .integer i => some (integer i)
  | _ => none

def tableOf? (entries : List (Key × SettingValue)) : Option SettingValue :=
  if (entries.map Prod.fst).Nodup then
    some (.table (Table.ofList (entries.map fun entry => (entry.1.name, entry.2))))
  else none

def Cursor.overBlanks (c : Cursor) : Cursor :=
  { c with
    rest := c.rest.dropWhile isBlank
    column := c.column + (c.rest.takeWhile isBlank).length }

/-- Reads names and kinds, as many as `count`, with the blanks after each. -/
def Cursor.properties? (p : Properties) : Nat → Cursor → Option (Properties × Cursor)
  | 0, c => some (p, c)
  | count + 1, c =>
    if propertyNext c.rest then do
      let (p, after) ← c.property? p
      after.overBlanks.properties? p count
    else some (p, c)

def Cursor.quotedLine? (c : Cursor) : Option (String × Cursor) :=
  let line : Cursor := { c with rest := c.rest.takeWhile (· != '\n') }
  (line.quoted? 0).map fun (s, after) =>
    (s, { after with rest := after.rest ++ c.rest.dropWhile (· != '\n') })

def Cursor.keyNode? (c : Cursor) (p : Properties) : Option (SettingValue × Cursor) :=
  if c.rest.head? = some '"' ∨ c.rest.head? = some '\'' then
    c.quotedLine?.map fun (s, after) => (.text s, after)
  else if c.rest.head? = some '*' then c.alias?
  else if startsPlain false c.rest then
    let (line, rest) := plainLine false false c.rest
    (p.plainValue? (String.ofList line)).map fun v => (v, c.behind line.length rest)
  else none

def Cursor.key? (c : Cursor) : Option (Key × Cursor) := do
  let (p, start) ← c.properties? {} 2
  let (v, after) ← start.keyNode? p
  let key ← Key.ofValue? v
  let colon := after.overBlanks
  if markNext ':' colon.rest then return (key, colon.next.named p v) else none

end OrderedRelay.Yaml
