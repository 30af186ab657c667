import OrderedRelay.Text.Hidden
import OrderedRelay.Text.Split

/-!
# Quoted text in diagnostics

Text between double quotes as diagnostics show it: the quote and the backslash are escaped, four
control characters have escapes of one letter, and every other character without a picture is shown
by its number in lower-case hexadecimal.
-/

namespace OrderedRelay.Text

/-- The number of `c` as `\u`, the hexadecimal digits between braces. -/
def numbered (c : Char) : List Char :=
  ['\\', 'u', '\x7b'] ++ Nat.toDigits 16 c.toNat ++ ['\x7d']

def quotedChar (c : Char) : List Char :=
  if c = '"' then ['\\', '"']
  else if c = '\\' then ['\\', '\\']
  else if c = '\x00' then ['\\', '0']
  else if c = '\t' then ['\\', 't']
  else if c = '\n' then ['\\', 'n']
  else if c = '\r' then ['\\', 'r']
  else if isHidden c then numbered c
  else [c]

def quoted (s : String) : String :=
  String.ofList ('"' :: s.toList.flatMap quotedChar ++ ['"'])

def quotedList (texts : List String) : String :=
  "[" ++ join ", " (texts.map quoted) ++ "]"

end OrderedRelay.Text
