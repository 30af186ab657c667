import OrderedRelay.Text.Blank
import OrderedRelay.Text.Decimal
import OrderedRelay.Text.Split

/-!
# Order numbers as text

Order numbers are written in decimal with commas between them. Reading allows white space around the
list and around each number, a plus sign and leading zeros; blank text is the empty list. A token that
is no unsigned 64-bit number is reported as it stands, without the white space around it.
-/

namespace OrderedRelay.OrderNumbers

structure BadToken where
  token : String
deriving DecidableEq, Repr

def BadToken.message (e : BadToken) : String := "Invalid order number '" ++ e.token ++ "'"

def encode (numbers : List Nat) : String := Text.join "," (numbers.map Decimal.render)

def readToken (piece : String) : Except BadToken Nat :=
  let token := Text.trim piece
  match Decimal.parse? Decimal.bound64 token with
  | some n => .ok n
  | none => .error ⟨token⟩

/-- The tokens in order; the first bad one decides. -/
def readTokens : List String → Except BadToken (List Nat)
  | [] => .ok []
  | piece :: rest => do
    let n ← readToken piece
    let ns ← readTokens rest
    return n :: ns

def decode (raw : String) : Except BadToken (List Nat) :=
  let list := Text.trim raw
  if list = "" then .ok [] else readTokens (Text.split ',' list)

end OrderedRelay.OrderNumbers
