import OrderedRelay.Yaml.Cursor

/-!
# Quoted scalars

Between single quotes only the quote itself is escaped, by being doubled. Between double quotes a
backslash starts an escape. A quoted scalar may go on over lines that are indented far enough; the ends
of its lines are folded as in a plain one.
-/

namespace OrderedRelay.Yaml

def escape? : Char → Option Char
  | '0' => some '\x00'
  | 'a' => some '\x07'
  | 'b' => some '\x08'
  | 't' => some '\t'
  | '\t' => some '\t'
  | 'n' => some '\n'
  | 'v' => some '\x0b'
  | 'f' => some '\x0c'
  | 'r' => some '\r'
  | 'e' => some '\x1b'
  | ' ' => some ' '
  | '"' => some '"'
  | '/' => some '/'
  | '\\' => some '\\'
  | 'N' => some '\u0085'
  | '_' => some '\u00a0'
  | 'L' => some '\u2028'
  | 'P' => some '\u2029'
  | _ => none

def numberedEscape? : Char → Option Nat
  | 'x' => some 2
  | 'u' => some 4
  | 'U' => some 8
  | _ => none

def charOf? (n : Nat) : Option Char := if n.isValidChar then some (Char.ofNat n) else none

/-- An escape after its backslash: the character, how many characters it took and what follows. -/
def scanEscape? : List Char → Option (Char × Nat × List Char)
  | [] => none
  | e :: cs =>
    match numberedEscape? e with
    | some length =>
      if length ≤ cs.length then
        ((Text.ofDigits? 16 (cs.take length)).bind charOf?).map fun c =>
          (c, length + 1, cs.drop length)
      else none
    | none => (escape? e).map fun c => (c, 1, cs)

/-- Goes on behind a gap: with its blanks on one line, or folded where the next line is indented. -/
def afterGap? (margin : Nat) (g : Gap) (fold : List Char) : Option (List Char × List Char × Nat) :=
  if g.breaks = 0 then some (g.blanks, g.rest, g.column)
  else if g.column < margin ∨ (g.column = 0 ∧ isBoundary g.rest) then none
  else some (fold, g.rest, g.column)

/-- The text up to the closing quote `q`, and what follows it at which column. -/
def quotedChars (q : Char) (margin : Nat) : Nat → List Char → Nat →
    Option (List Char × List Char × Nat)
  | 0, _, _ => none
  | _, [], _ => none
  | fuel + 1, c :: cs, column =>
    if c = q then
      match q, cs with
      | '\'', '\'' :: rest =>
        (quotedChars q margin fuel rest (column + 2)).map fun (text, after) => ('\'' :: text, after)
      | _, _ => some ([], cs, column + 1)
    else if c = '\\' ∧ q = '"' then
      match cs with
      | '\n' :: _ => do
        let gap ← Gap.scan margin cs (column + 1) 0
        let (fold, rest, column) ← afterGap? margin gap (List.replicate (gap.breaks - 1) '\n')
        let (text, after) ← quotedChars q margin fuel rest column
        return (fold ++ text, after)
      | _ => do
        let (e, length, rest) ← scanEscape? cs
        let (text, after) ← quotedChars q margin fuel rest (column + 1 + length)
        return (e :: text, after)
    else if isBlank c ∨ c = '\n' then do
      let gap ← Gap.scan margin (c :: cs) column 0
      let (fold, rest, column) ← afterGap? margin gap gap.folded
      let (text, after) ← quotedChars q margin fuel rest column
      return (fold ++ text, after)
    else do
      let (text, after) ← quotedChars q margin fuel cs (column + 1)
      return (c :: text, after)

def Cursor.quoted? (c : Cursor) (margin : Nat) : Option (String × Cursor) :=
  match c.rest with
  | q :: cs =>
    if q = '"' ∨ q = '\'' then
      (quotedChars q margin (cs.length + 1) cs (c.column + 1)).map fun (text, rest, column) =>
        (String.ofList text, { c with rest, column, fresh := false })
    else none
  | [] => none

end OrderedRelay.Yaml
