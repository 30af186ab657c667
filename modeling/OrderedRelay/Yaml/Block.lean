import OrderedRelay.Yaml.Flow
import OrderedRelay.Yaml.Verbatim

/-!
# Nodes told apart by columns

The entries of a table stand below one another, and so do the items of a list, each after a dash. The
value of an entry starts further right than its key; only a list may start right below it. A table or a
list starts on a line of its own or behind the dash of a list.
-/

namespace OrderedRelay.Yaml

mutual

/-- Reads what follows a mark. The node is indented to `margin`, a list one column less where `hanging`
holds, and it may be a table or a list on the same line if `opened` holds. If no node follows it is
empty. -/
def blockValue (margin : Nat) (hanging opened : Bool) :
    Nat → Properties → Cursor → Option (SettingValue × Cursor)
  | 0, _, _ => none
  | fuel + 1, p, c => do
    let c ← c.layout margin
    if c.ended ∨ (c.fresh ∧ c.column < margin) then
      if hanging ∧ !c.ended ∧ c.column + 1 = margin ∧ markNext '-' c.rest then
        let (items, after) ← blockItems c.column fuel c
        return (.list items, after.named p (.list items))
      else
        let v ← p.plainValue? ""
        return (v, c.named p v)
    else blockNode margin hanging (opened || c.fresh) fuel p c
termination_by structural fuel _ _ => fuel

def blockNode (margin : Nat) (hanging opened : Bool) :
    Nat → Properties → Cursor → Option (SettingValue × Cursor)
  | 0, _, _ => none
  | fuel + 1, p, c =>
    if markNext '-' c.rest then
      if opened then do
        let (items, after) ← blockItems c.column fuel c
        return (.list items, after.named p (.list items))
      else none
    else if markNext '?' c.rest ∨ c.key?.isSome then
      if opened then do
        let (entries, after) ← blockEntries c.column fuel c
        let v ← tableOf? entries
        return (v, after.named p v)
      else none
    else if propertyNext c.rest then do
      let (p, after) ← c.property? p
      blockValue margin hanging false fuel p after
    else if c.at '|' ∨ c.at '>' then do
      let (s, after) ← c.verbatim? margin
      return (.text s, after.named p (.text s))
    else if c.at '[' ∨ c.at '\x7b' then
      flowNode margin fuel p { c with strict := true }
    else if c.at '"' ∨ c.at '\'' then do
      let (s, after) ← c.quoted? margin
      return (.text s, after.named p (.text s))
    else if c.at '*' then
      if p = {} then c.alias? else none
    else do
      let (s, after) ← c.plain? false margin
      let v ← p.plainValue? s
      return (v, after.named p v)
termination_by structural fuel _ _ => fuel

def blockItems (column : Nat) : Nat → Cursor → Option (List SettingValue × Cursor)
  | 0, _ => none
  | fuel + 1, c => do
    let (item, after) ← blockValue (column + 1) false true fuel {} c.next
    let after ← after.layout (column + 1)
    if after.ended ∨ (after.fresh ∧ after.column < column) then return ([item], after)
    else if after.fresh ∧ after.column = column then
      if markNext '-' after.rest then
        let (items, after) ← blockItems column fuel after
        return (item :: items, after)
      else return ([item], after)
    else none
termination_by structural fuel _ => fuel

def blockEntries (column : Nat) : Nat → Cursor → Option (List (Key × SettingValue) × Cursor)
  | 0, _ => none
  | fuel + 1, c => do
    let (key, value, after) ← blockEntry column fuel c
    let after ← after.layout (column + 1)
    if after.ended ∨ (after.fresh ∧ after.column < column) then return ([(key, value)], after)
    else if after.fresh ∧ after.column = column then
      let (entries, after) ← blockEntries column fuel after
      return ((key, value) :: entries, after)
    else none
termination_by structural fuel _ => fuel

/-- Reads one entry: a key on one line, or any node after a question mark, and a value after a colon. -/
def blockEntry (column : Nat) : Nat → Cursor → Option (Key × SettingValue × Cursor)
  | 0, _ => none
  | fuel + 1, c =>
    if markNext '?' c.rest then do
      let (node, after) ← blockValue (column + 1) true true fuel {} c.next
      let key ← Key.ofValue? node
      let after ← after.layout (column + 1)
      if after.fresh ∧ !after.ended ∧ after.column = column ∧ markNext ':' after.rest then
        let (value, after) ← blockValue (column + 1) true true fuel {} after.next
        return (key, value, after)
      else return (key, .nil, after)
    else do
      let (key, after) ← c.key?
      let (value, after) ← blockValue (column + 1) true false fuel {} after
      return (key, value, after)
termination_by structural fuel _ => fuel

end

end OrderedRelay.Yaml
