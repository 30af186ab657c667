import OrderedRelay.Yaml.Cursor

/-!
# Plain scalars

A scalar without quotes ends before a colon that ends a word, before a comment, and between brackets
before a mark of theirs. It may go on over lines that are indented far enough. Its text decides what kind
of value it is.
-/

namespace OrderedRelay.Yaml

/-! ### Kinds -/

def unboundedWords : List String :=
  [".inf", ".Inf", ".INF", "+.inf", "+.Inf", "+.INF", "-.inf", "-.Inf", "-.INF",
    ".nan", ".NaN", ".NAN"]

/-- The integer that a text in one of the notations with a mark in front writes. -/
def markedInteger? : List Char → Option Int
  | '0' :: 'x' :: cs => Signed.parseChars? 16 cs
  | '0' :: 'o' :: cs => Signed.parseChars? 8 cs
  | '+' :: cs => Signed.parseChars? 10 cs
  | _ => none

def plainValue? (s : String) : Option SettingValue :=
  match markedInteger? s.toList with
  | some i => some (.integer i)
  | none =>
    if s ∈ ["", "~", "null"] then some .nil
    else if s ∈ ["true", "True", "TRUE"] then some (.bool true)
    else if s ∈ ["false", "False", "FALSE"] then some (.bool false)
    else if s ∈ unboundedWords then none
    else match Signed.parse? s with
      | some i => some (.integer i)
      | none =>
        if s.toList.any Char.isDigit ∨ s = "NaN" then
          match Binary64.parse? s with
          | some x => some (.real x)
          | none => some (.text s)
        else some (.text s)

/-- The value of a plain scalar of a stated kind; what does not fit it is `nil`. Other kinds than the
four are text. -/
def taggedValue? (kind s : String) : Option SettingValue :=
  if kind = "bool" then
    some (if s = "true" then .bool true else if s = "false" then .bool false else .nil)
  else if kind = "int" then
    some (((Signed.parse? s).map .integer).getD .nil)
  else if kind = "float" then
    if s ∈ unboundedWords then none
    else some (((Binary64.parse? s).map .real).getD .nil)
  else if kind = "null" then some .nil
  else some (.text s)

/-! ### Extent -/

def startsPlain (flow : Bool) : List Char → Bool
  | [] => false
  | c :: cs =>
    if c = '-' then !endsWord cs && !(flow && flowMarkNext cs)
    else if c = '?' then !endsWord cs
    else if c = ':' then !endsWord cs && !(flow && flowMarkNext cs)
    else if c = '|' ∨ c = '>' then flow
    else !(isFlowMark c || isBlank c || c == '\n' || c == '#' || c == '&' || c == '*' || c == '!' ||
      c == '\'' || c == '"' || c == '%' || c == '@' || c == '\x60')

/-- The part of a plain scalar on one line and what follows it. Blanks at its end follow it. -/
def plainLine (flow : Bool) : (spaced : Bool) → List Char → List Char × List Char
  | _, [] => ([], [])
  | spaced, c :: cs =>
    if c = '\n' ∨ (c = '#' ∧ spaced) then ([], c :: cs)
    else if c = ':' ∧ (endsWord cs ∨ (flow ∧ flowMarkNext cs)) then ([], c :: cs)
    else if flow ∧ isFlowMark c then ([], c :: cs)
    else
      let (line, rest) := plainLine flow (isBlank c) cs
      if isBlank c ∧ line = [] then ([], c :: cs) else (c :: line, rest)

/-- The text of a plain scalar, and what follows it at which column. Outside of brackets it goes on only
where lines are indented to `margin`. -/
def plainLines (flow : Bool) (margin : Nat) : Nat → List Char → Nat →
    Option (List Char × List Char × Nat)
  | 0, _, _ => none
  | fuel + 1, cs, column => do
    let (line, rest) := plainLine flow false cs
    let stop := (line, rest, column + line.length)
    let gap ← Gap.scan margin rest stop.2.2 0
    if gap.breaks = 0 ∨ (gap.column = 0 ∧ isBoundary gap.rest) ∨ (!flow ∧ gap.column < margin) ∨
        gap.rest.head? = some '#' ∨ (plainLine flow false gap.rest).1 = [] then
      return stop
    else
      let (more, rest, column) ← plainLines flow margin fuel gap.rest gap.column
      return (line ++ gap.folded ++ more, rest, column)

def Cursor.plain? (c : Cursor) (flow : Bool) (margin : Nat) : Option (String × Cursor) :=
  if startsPlain flow c.rest then
    (plainLines flow margin (c.rest.length + 1) c.rest c.column).map fun (text, rest, column) =>
      (String.ofList text, { c with rest, column, fresh := false })
  else none

end OrderedRelay.Yaml
