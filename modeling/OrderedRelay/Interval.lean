import OrderedRelay.Text.Blank
import OrderedRelay.Text.Decimal

/-!
# Intervals from the environment

A variable may set an interval in whole seconds. A missing, unreadable or zero value leaves the default.
-/

namespace OrderedRelay

/-- The interval in milliseconds that a variable sets. -/
def intervalMillis (value : Option String) (default : Nat) : Nat :=
  match value.bind fun raw => Decimal.parse? Decimal.bound64 (Text.trim raw) with
  | some seconds => if seconds = 0 then default else seconds * 1000
  | none => default

end OrderedRelay
