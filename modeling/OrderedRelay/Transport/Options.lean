/-!
# Publish options

A write states a priority and a time to live in milliseconds. Priority 4 and above asks for delivery at
least once; a positive time to live becomes an expiry.
-/

namespace OrderedRelay

inductive Quality where
  | atMostOnce
  | atLeastOnce
deriving DecidableEq, Repr

/-- What a publish asks of its broker. -/
structure PublishOptions where
  quality : Quality := .atMostOnce
  expiry : Option Nat := none
deriving DecidableEq, Repr

def PublishOptions.ofPriority (priority ttl : Int) : PublishOptions where
  quality := if 4 ≤ priority then .atLeastOnce else .atMostOnce
  expiry := if 0 < ttl then some ttl.toNat else none

end OrderedRelay
