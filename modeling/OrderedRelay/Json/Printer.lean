import OrderedRelay.Binary64.Shortest
import OrderedRelay.Json.Basic

/-!
# Writing JSON

Values are written without spaces. A text escapes the quote, the backslash and the characters below
U+0020 and nothing else. A floating-point number has the shortest digits that read back, and always a
point or an exponent, so that it never reads as an integer.
-/

namespace OrderedRelay.Json

def hexDigit (n : Nat) : Char := (Nat.toDigits 16 n).headD '0'

def escapeChar (c : Char) : List Char :=
  if c = '"' then ['\\', '"']
  else if c = '\\' then ['\\', '\\']
  else if c = '\x08' then ['\\', 'b']
  else if c = '\x0c' then ['\\', 'f']
  else if c = '\n' then ['\\', 'n']
  else if c = '\r' then ['\\', 'r']
  else if c = '\t' then ['\\', 't']
  else if c.toNat < 0x20 then
    ['\\', 'u', '0', '0', hexDigit (c.toNat / 16), hexDigit (c.toNat % 16)]
  else [c]

def renderText (s : String) : List Char := '"' :: (s.toList.flatMap escapeChar ++ ['"'])

def renderInteger (i : Int) : List Char :=
  if i < 0 then '-' :: Nat.toDigits 10 i.natAbs else Nat.toDigits 10 i.natAbs

/-- A positive finite number: plainly while the exponent of its first digit is between -5 and 15, with
an exponent otherwise. -/
def renderDigits (d : Binary64.Digits) : List Char :=
  if -5 ≤ d.exponent ∧ d.exponent ≤ 15 then
    if (d.digits.length : Int) ≤ d.exponent + 1 then d.positional ++ ['.', '0']
    else d.positional
  else d.scientific

def renderReal (x : Binary64) : List Char :=
  if x.isFinite then
    let magnitude := if x.isZero then ['0', '.', '0'] else renderDigits x.shortest
    if x.isNegative then '-' :: magnitude else magnitude
  else "null".toList

mutual

def renderChars : Json → List Char
  | .null => "null".toList
  | .bool b => if b then "true".toList else "false".toList
  | .integer i => renderInteger i
  | .real x => renderReal x
  | .text s => renderText s
  | .array items => '[' :: (renderItems items ++ [']'])
  | .object fields => '\x7b' :: (renderFields fields ++ ['\x7d'])

def renderItems : List Json → List Char
  | [] => []
  | [j] => renderChars j
  | j :: js => renderChars j ++ ',' :: renderItems js

def renderFields : List (String × Json) → List Char
  | [] => []
  | [(k, j)] => renderText k ++ ':' :: renderChars j
  | (k, j) :: rest => renderText k ++ ':' :: (renderChars j ++ ',' :: renderFields rest)

end

def render (j : Json) : String := String.ofList (renderChars j)

end OrderedRelay.Json
