/-!
# Counting in 64 bits

Order numbers have 64 bits. A producer counts on with `successor`. A consumer counts on numbers that come
from elsewhere, and its program stops where a number, or a place in a list, does not exist. What it
computes is written once for any `Counting`.
-/

namespace OrderedRelay

/-- The highest order number, which has no successor. -/
def topNumber : Nat := 0xFFFFFFFFFFFFFFFF

def successor (n : Nat) : Nat := (n + 1) % 0x10000000000000000

inductive Trap where
  | overflow
  | underflow
  | outOfRange
deriving DecidableEq, Repr

namespace Trap

def message : Trap → String
  | overflow => "attempt to add with overflow"
  | underflow => "attempt to subtract with overflow"
  | outOfRange => "index out of bounds"

def plusOne (n : Nat) : Except Trap Nat :=
  if n < topNumber then .ok (n + 1) else .error .overflow

def minusOne : Nat → Except Trap Nat
  | 0 => .error .underflow
  | n + 1 => .ok n

def elementAt (ns : List Nat) (i : Nat) : Except Trap Nat :=
  match ns[i]? with
  | some n => .ok n
  | none => .error .outOfRange

end Trap

/-- How a program counts up and down. -/
structure Counting (m : Type → Type) where
  plusOne : Nat → m Nat
  minusOne : Nat → m Nat

def Counting.checked : Counting (Except Trap) := ⟨Trap.plusOne, Trap.minusOne⟩

end OrderedRelay
