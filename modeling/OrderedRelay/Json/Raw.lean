import OrderedRelay.Json.Numeral
import OrderedRelay.Text.Digits

/-!
# JSON as written

A JSON text read for its form alone: numerals and escapes are recognised but not yet given values, and
nesting is not limited. A value that is to be passed over needs no more than this.
-/

namespace OrderedRelay.Json

/-- One element of a text: a character, or the number of a four-digit escape. -/
inductive Piece where
  | char (c : Char)
  | unit (n : Nat)
deriving DecidableEq, Repr

inductive Raw where
  | null
  | bool (b : Bool)
  | number (n : Numeral)
  | text (pieces : List Piece)
  | array (items : List Raw)
  | object (fields : List (List Piece × Raw))
deriving Inhabited

def hexUnit? (a b c d : Char) : Option Nat := do
  let a ← Text.digitValue? a
  let b ← Text.digitValue? b
  let c ← Text.digitValue? c
  let d ← Text.digitValue? d
  return ((a * 16 + b) * 16 + c) * 16 + d

def escaped? : Char → Option Char
  | '"' => some '"'
  | '\\' => some '\\'
  | '/' => some '/'
  | 'b' => some '\x08'
  | 'f' => some '\x0c'
  | 'n' => some '\n'
  | 'r' => some '\r'
  | 't' => some '\t'
  | _ => none

def scanText : List Char → Option (List Piece × List Char)
  | [] => none
  | '"' :: rest => some ([], rest)
  | '\\' :: 'u' :: a :: b :: c :: d :: rest =>
    match hexUnit? a b c d, scanText rest with
    | some n, some (ps, after) => some (.unit n :: ps, after)
    | _, _ => none
  | '\\' :: e :: rest =>
    match escaped? e, scanText rest with
    | some c, some (ps, after) => some (.char c :: ps, after)
    | _, _ => none
  | c :: rest =>
    if c.toNat < 0x20 then none
    else (scanText rest).map fun (ps, after) => (.char c :: ps, after)

def isSpace (c : Char) : Bool := c == ' ' || c == '\t' || c == '\n' || c == '\r'

def skipSpace (cs : List Char) : List Char := cs.dropWhile isSpace

def afterWord (word cs : List Char) : Option (List Char) :=
  if word.isPrefixOf cs then some (cs.drop word.length) else none

mutual

/-- Reads a value from the front; `fuel` bounds the calls, one for each character suffices. -/
def scanRaw : Nat → List Char → Option (Raw × List Char)
  | 0, _ => none
  | fuel + 1, cs =>
    match skipSpace cs with
    | '"' :: rest => (scanText rest).map fun (ps, after) => (.text ps, after)
    | '[' :: rest =>
      match skipSpace rest with
      | ']' :: after => some (.array [], after)
      | _ => (scanItems fuel rest).map fun (items, after) => (.array items, after)
    | '\x7b' :: rest =>
      match skipSpace rest with
      | '\x7d' :: after => some (.object [], after)
      | _ => (scanFields fuel rest).map fun (fields, after) => (.object fields, after)
    | 'n' :: rest => (afterWord ['u', 'l', 'l'] rest).map fun after => (.null, after)
    | 't' :: rest => (afterWord ['r', 'u', 'e'] rest).map fun after => (.bool true, after)
    | 'f' :: rest => (afterWord ['a', 'l', 's', 'e'] rest).map fun after => (.bool false, after)
    | other => (scanNumeral other).map fun (n, after) => (.number n, after)

def scanItems : Nat → List Char → Option (List Raw × List Char)
  | 0, _ => none
  | fuel + 1, cs =>
    match scanRaw fuel cs with
    | none => none
    | some (item, after) =>
      match skipSpace after with
      | ',' :: rest => (scanItems fuel rest).map fun (items, r) => (item :: items, r)
      | ']' :: rest => some ([item], rest)
      | _ => none

def scanFields : Nat → List Char → Option (List (List Piece × Raw) × List Char)
  | 0, _ => none
  | fuel + 1, cs =>
    match skipSpace cs with
    | '"' :: rest =>
      match scanText rest with
      | none => none
      | some (key, after) =>
        match skipSpace after with
        | ':' :: valueText =>
          match scanRaw fuel valueText with
          | none => none
          | some (value, after) =>
            match skipSpace after with
            | ',' :: rest =>
              (scanFields fuel rest).map fun (fields, r) => ((key, value) :: fields, r)
            | '\x7d' :: rest => some ([(key, value)], rest)
            | _ => none
        | _ => none
    | _ => none

end

def Raw.parse? (cs : List Char) : Option Raw :=
  match scanRaw (cs.length + 1) cs with
  | some (raw, rest) => if skipSpace rest = [] then some raw else none
  | none => none

end OrderedRelay.Json
