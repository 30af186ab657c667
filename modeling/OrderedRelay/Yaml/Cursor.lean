import OrderedRelay.Settings.Value

/-!
# Places in a YAML text

A cursor is a place in a text of lines that end in line feeds. `layout` passes over what may stand
between two tokens: blanks, comments and line ends. Blocks are told apart by columns alone, so a tab may
not stand before the column where the content of a block begins.
-/

namespace OrderedRelay.Yaml

structure Cursor where
  rest : List Char
  column : Nat := 0
  /-- Whether there are only blanks before it on its line. -/
  fresh : Bool := true
  /-- Whether every node between brackets must keep to the column of the content around them; after a
  plain scalar one may be one column further left. -/
  strict : Bool := true
  anchors : List (String × SettingValue) := []

def isBlank (c : Char) : Bool := c == ' ' || c == '\t'

def isFlowMark (c : Char) : Bool :=
  c == ',' || c == '[' || c == ']' || c == '\x7b' || c == '\x7d'

def endsWord : List Char → Bool
  | [] => true
  | c :: _ => isBlank c || c == '\n'

def isBoundary : List Char → Bool
  | '-' :: '-' :: '-' :: rest => endsWord rest
  | '.' :: '.' :: '.' :: rest => endsWord rest
  | _ => false

def flowMarkNext : List Char → Bool
  | [] => false
  | c :: _ => isFlowMark c

def markNext (c : Char) : List Char → Bool
  | d :: rest => d == c && endsWord rest
  | [] => false

def hasContent (cs : List Char) : Bool :=
  match cs.dropWhile isBlank with
  | [] => false
  | c :: _ => c != '\n' && c != '#'

namespace Cursor

def ended (c : Cursor) : Bool := c.rest.isEmpty || (c.column == 0 && isBoundary c.rest)

def behind (c : Cursor) (length : Nat) (rest : List Char) : Cursor :=
  { c with rest, column := c.column + length, fresh := false }

def next (c : Cursor) : Cursor := c.behind 1 c.rest.tail

end Cursor

/-- The place of the next token, its column and whether it is the first on its line. A comment starts
where `spaced` holds, that is after a blank or at the start of a line. -/
def skipLayout (margin : Nat) : List Char → Nat → (fresh spaced comment : Bool) →
    Option (List Char × Nat × Bool)
  | [], column, _, _, _ => some ([], column, true)
  | c :: cs, column, fresh, spaced, comment =>
    if c = '\n' then skipLayout margin cs 0 true true false
    else if comment then skipLayout margin cs (column + 1) fresh spaced true
    else if c = ' ' then skipLayout margin cs (column + 1) fresh true false
    else if c = '\t' then
      if fresh ∧ column < margin ∧ hasContent cs then none
      else skipLayout margin cs (column + 1) fresh true false
    else if c = '#' ∧ spaced then skipLayout margin cs (column + 1) fresh spaced true
    else some (c :: cs, column, fresh)

/-- The cursor at the next token; `margin` is the column where the content of the block begins. -/
def Cursor.layout (c : Cursor) (margin : Nat) : Option Cursor :=
  (skipLayout margin c.rest c.column c.fresh c.fresh false).map fun (rest, column, fresh) =>
    { c with rest, column, fresh }

/-- A run of blanks and line ends: its blanks, which count only if no line ends in it, how many lines do,
and what follows at which column. -/
structure Gap where
  blanks : List Char
  breaks : Nat
  rest : List Char
  column : Nat

def Gap.scan (margin : Nat) : List Char → Nat → Nat → Option Gap
  | [], column, breaks => some ⟨[], breaks, [], column⟩
  | c :: cs, column, breaks =>
    if c = '\n' then Gap.scan margin cs 0 (breaks + 1)
    else if isBlank c then
      if c = '\t' ∧ breaks ≠ 0 ∧ column < margin ∧ hasContent cs then none
      else (Gap.scan margin cs (column + 1) breaks).map fun g => { g with blanks := c :: g.blanks }
    else some ⟨[], breaks, c :: cs, column⟩

/-- What a gap with line ends is within a scalar: one end of a line is a space, and each further one
is kept. -/
def Gap.folded (g : Gap) : List Char :=
  if g.breaks = 1 then [' '] else List.replicate (g.breaks - 1) '\n'

end OrderedRelay.Yaml
