import OrderedRelay.Yaml.Block

/-!
# YAML documents

A text holds one document at most, which is a table. A document may start with directives and a mark, and
end with a mark. A text without a document stands for an empty table.
-/

namespace OrderedRelay.Yaml

def lineFeeds : List Char → List Char
  | '\r' :: '\n' :: cs => '\n' :: lineFeeds cs
  | '\r' :: cs => '\n' :: lineFeeds cs
  | c :: cs => c :: lineFeeds cs
  | [] => []

def textChars (s : String) : List Char :=
  let cs := match s.toList with
    | '\ufeff' :: cs => cs
    | cs => cs
  lineFeeds (cs.takeWhile (· != '\x00'))

/-- The cursor behind marks of ends, each on a line of its own; `fuel` bounds their number. -/
def Cursor.overEnds? : Nat → Cursor → Option Cursor
  | 0, _ => none
  | fuel + 1, c => do
    let c ← c.layout 0
    if c.column = 0 ∧ c.rest.take 3 = ['.', '.', '.'] ∧ endsWord (c.rest.drop 3) then
      let after ← (c.behind 3 (c.rest.drop 3)).layout 0
      if after.fresh then after.overEnds? fuel else none
    else return c

def Cursor.overDirectives? : Nat → Cursor → Option Cursor
  | 0, _ => none
  | fuel + 1, c => do
    let c ← c.layout 0
    if c.column = 0 ∧ c.at '%' then
      let after : Cursor := { c with rest := c.rest.dropWhile (· != '\n'), fresh := true }
      after.overDirectives? fuel
    else return c

/-- Reads the only document of a text that does not end at `c`, and what must be nothing after it. -/
def document? (fuel : Nat) (c : Cursor) : Option SettingValue := do
  let start ← c.overDirectives? fuel
  let marked := start.column = 0 ∧ start.rest.take 3 = ['-', '-', '-'] ∧ endsWord (start.rest.drop 3)
  let (v, after) ←
    if marked then blockValue 0 false false fuel {} (start.behind 3 (start.rest.drop 3))
    else if start.rest = c.rest then blockValue 0 false true fuel {} start
    else none
  let after ← after.layout 0
  if after.ended then
    let after ← after.overEnds? fuel
    if after.rest = [] then return v else none
  else none

def parse? (s : String) : Option (Table SettingValue) := do
  let cs := textChars s
  let fuel := 8 * cs.length + 16
  let c ← Cursor.overEnds? fuel { rest := cs }
  if c.rest = [] then return []
  else match ← document? fuel c with
    | .table entries => return entries
    | _ => none

end OrderedRelay.Yaml
