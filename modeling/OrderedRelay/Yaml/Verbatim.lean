import OrderedRelay.Yaml.Cursor

/-!
# Scalars in a block of their own

After a bar the lines of the block are kept, after an angle they are folded: a single line end between
two lines that do not start with a blank becomes a space. A sign says what becomes of the line ends after
the last line, and a digit how far the block is indented, which else its first line with content shows.
-/

namespace OrderedRelay.Yaml

/-- What becomes of the line ends after the last line with content. -/
inductive Chomping where
  | strip
  | clip
  | keep
deriving DecidableEq, Repr

structure VerbatimHeader where
  chomping : Chomping := .clip
  indentation : Option Nat := none
deriving DecidableEq, Repr

def VerbatimHeader.sign (h : VerbatimHeader) : List Char → VerbatimHeader × List Char
  | '+' :: cs => ({ h with chomping := .keep }, cs)
  | '-' :: cs => ({ h with chomping := .strip }, cs)
  | cs => (h, cs)

def VerbatimHeader.digit (h : VerbatimHeader) : List Char → VerbatimHeader × List Char
  | c :: cs =>
    if c.isDigit then ({ h with indentation := some (c.toNat - '0'.toNat) }, cs) else (h, c :: cs)
  | [] => (h, [])

/-- Reads a sign and a digit in either order, and the rest of the line, which has no content. -/
def VerbatimHeader.scan? (cs : List Char) : Option (VerbatimHeader × List Char) :=
  let (signed, afterSign) := ({} : VerbatimHeader).sign cs
  let (h, rest) := signed.digit afterSign
  let (h, rest) := if afterSign = cs then h.sign rest else (h, rest)
  if h.indentation = some 0 ∨ hasContent rest ∨ rest.head? = some '#' then none
  else some (h, (rest.dropWhile (· != '\n')).tail)

def firstIndentation : Nat → List Char → Nat
  | 0, _ => 0
  | fuel + 1, cs =>
    match cs.dropWhile (· == ' ') with
    | '\n' :: rest => firstIndentation fuel rest
    | _ => (cs.takeWhile (· == ' ')).length

/-- The lines of a block, blank ones as `none`, and what follows the block. -/
def blockLines (indentation : Nat) : Nat → List Char → List (Option (List Char)) × List Char
  | 0, cs => ([], cs)
  | _, [] => ([], [])
  | fuel + 1, cs =>
    let line := cs.takeWhile (· != '\n')
    let after := (cs.dropWhile (· != '\n')).tail
    if indentation < line.length ∧ (line.take indentation).all (· == ' ') then
      let (lines, rest) := blockLines indentation fuel after
      (some (line.drop indentation) :: lines, rest)
    else if line.all (· == ' ') then
      let (lines, rest) := blockLines indentation fuel after
      (none :: lines, rest)
    else ([], cs)

/-- The number of blank lines at the start, and each line with content with the number of blank ones
after it. -/
def groupLines : List (Option (List Char)) → Nat × List (List Char × Nat)
  | [] => (0, [])
  | none :: lines =>
    let (n, groups) := groupLines lines
    (n + 1, groups)
  | some line :: lines =>
    let (n, groups) := groupLines lines
    (0, (line, n) :: groups)

def startsBlank (line : List Char) : Bool := line.head?.any isBlank

def lineJoint (folded : Bool) (before : List Char) (n : Nat) (after : List Char) : List Char :=
  if folded ∧ !startsBlank before ∧ !startsBlank after then
    if n = 0 then [' '] else List.replicate n '\n'
  else List.replicate (n + 1) '\n'

def joinLines (folded : Bool) (chomping : Chomping) : List (List Char × Nat) → List Char
  | [] => []
  | [(line, n)] =>
    match chomping with
    | .strip => line
    | .clip => line ++ ['\n']
    | .keep => line ++ List.replicate (n + 1) '\n'
  | (line, n) :: (next, m) :: groups =>
    line ++ lineJoint folded line n next ++ joinLines folded chomping ((next, m) :: groups)

/-- The text of a block. Without any content only blank lines that are to be kept are left. -/
def blockText (folded : Bool) (chomping : Chomping) (lines : List (Option (List Char))) : List Char :=
  match groupLines lines with
  | (n, []) => if chomping = .keep then List.replicate n '\n' else []
  | (n, groups) => List.replicate n '\n' ++ joinLines folded chomping groups

def Cursor.verbatim? (c : Cursor) (margin : Nat) : Option (String × Cursor) :=
  match c.rest with
  | mark :: cs =>
    if mark = '|' ∨ mark = '>' then
      (VerbatimHeader.scan? cs).map fun (h, body) =>
        let indentation := match h.indentation with
          | some n => margin - 1 + n
          | none => max (firstIndentation body.length body) (max margin 1)
        let (lines, rest) := blockLines indentation (body.length + 1) body
        (String.ofList (blockText (mark == '>') h.chomping lines),
          { c with rest, column := 0, fresh := true })
    else none
  | [] => none

end OrderedRelay.Yaml
