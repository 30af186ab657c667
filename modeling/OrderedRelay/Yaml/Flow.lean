import OrderedRelay.Yaml.Properties

/-!
# Nodes between brackets

Lists in brackets and tables in braces, in which line ends count as blanks. A node between them must be
as far right as the content of the block around them; after the first plain scalar, other nodes may be
one column further left. Commas and closing marks may stand anywhere. In a list a key with its value is
a table of its own.
-/

namespace OrderedRelay.Yaml

/-- A node ends before it has begun. -/
def flowEmpty (cs : List Char) : Bool :=
  cs.head? == some ',' || cs.head? == some ']' || cs.head? == some '\x7d'

def Cursor.flowLayout (c : Cursor) (margin : Nat) : Option Cursor := do
  let least := if c.strict then margin else margin - 1
  let next ← c.layout least
  if next.ended ∨ (next.column < least ∧ !flowEmpty next.rest) then none else return next

def Cursor.at (c : Cursor) (d : Char) : Bool := c.rest.head? == some d

mutual

/-- Reads a node; `fuel` bounds the calls. -/
def flowNode (margin : Nat) : Nat → Properties → Cursor → Option (SettingValue × Cursor)
  | 0, _, _ => none
  | fuel + 1, p, c =>
    if c.at '[' then do
      let (items, after) ← flowItems margin fuel c.next
      return (.list items, after.named p (.list items))
    else if c.at '\x7b' then do
      let (entries, after) ← flowEntries margin fuel c.next
      let v ← tableOf? entries
      return (v, after.named p v)
    else if c.at '"' ∨ c.at '\'' then do
      let (s, after) ← c.quoted? (if c.strict then margin else margin - 1)
      return (.text s, after.named p (.text s))
    else if c.at '*' then
      if p = {} then c.alias? else none
    else if propertyNext c.rest then do
      let (p, after) ← c.property? p
      let after ← after.flowLayout margin
      if flowEmpty after.rest ∨ after.at ':' then do
        let v ← p.plainValue? ""
        return (v, after.named p v)
      else flowNode margin fuel p after
    else if c.column < margin then none
    else do
      let (s, after) ← c.plain? true margin
      let v ← p.plainValue? s
      return (v, { after.named p v with strict := false })

def flowValue (margin : Nat) : Nat → Cursor → Option (SettingValue × Cursor)
  | 0, _ => none
  | fuel + 1, c => do
    let c ← c.flowLayout margin
    if flowEmpty c.rest then return (.nil, c)
    else
      let (v, after) ← flowNode margin fuel {} c
      return (v, ← after.flowLayout margin)

def flowItems (margin : Nat) : Nat → Cursor → Option (List SettingValue × Cursor)
  | 0, _ => none
  | fuel + 1, c => do
    let c ← c.flowLayout margin
    if c.at ']' then return ([], c.next)
    else
      let (node, after) ← flowNode margin fuel {} c
      let after ← after.flowLayout margin
      let (item, after) ←
        if after.at ':' then do
          let key ← Key.ofValue? node
          let (value, after) ← flowValue margin fuel after.next
          some (SettingValue.table [(key.name, value)], after)
        else some (node, after)
      if after.at ']' then return ([item], after.next)
      else if after.at ',' then
        let (items, after) ← flowItems margin fuel after.next
        return (item :: items, after)
      else none

def flowEntries (margin : Nat) : Nat → Cursor → Option (List (Key × SettingValue) × Cursor)
  | 0, _ => none
  | fuel + 1, c => do
    let c ← c.flowLayout margin
    if c.at '\x7d' then return ([], c.next)
    else
      let c ← if markNext '?' c.rest then c.next.flowLayout margin else some c
      let (node, after) ← flowNode margin fuel {} c
      let key ← Key.ofValue? node
      let after ← after.flowLayout margin
      let (value, after) ←
        if after.at ':' then flowValue margin fuel after.next else some (SettingValue.nil, after)
      if after.at '\x7d' then return ([(key, value)], after.next)
      else if after.at ',' then
        let (entries, after) ← flowEntries margin fuel after.next
        return ((key, value) :: entries, after)
      else none

end

end OrderedRelay.Yaml
