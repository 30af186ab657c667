import OrderedRelay.Message.Basic
import OrderedRelay.Sequencing.Counting

/-!
# Numbers for consumers

A producer counts separately for each consumer. Stamping a header writes the next number of every
consumer in the order they are listed, together with the producer's incarnation.
-/

namespace OrderedRelay

/-- The last number given to each consumer. -/
structure Counters where
  assigned : Table Nat := []
deriving DecidableEq, Inhabited

namespace Counters

def last? (c : Counters) (consumer : String) : Option Nat := c.assigned.get? consumer

/-- The number that a consumer is given next; the first one is 1. -/
def upcoming (c : Counters) (consumer : String) : Nat := successor ((c.last? consumer).getD 0)

def next (c : Counters) (consumer : String) : Counters × Nat :=
  let n := c.upcoming consumer
  (⟨c.assigned.insert consumer n⟩, n)

def nextAll (c : Counters) : List String → Counters × List Nat
  | [] => (c, [])
  | consumer :: rest =>
    let (c, n) := c.next consumer
    let (c, ns) := c.nextAll rest
    (c, n :: ns)

def stamp (c : Counters) (consumers : List String) (incarnation : Binary64) (h : Header) :
    Counters × Header :=
  let (c, ns) := c.nextAll consumers
  (c, (h.set Header.orderNumbersField (.text (OrderNumbers.encode ns))).set
    Header.timestampField (.ofBinary64 incarnation))

end Counters

end OrderedRelay
