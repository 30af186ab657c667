import OrderedRelay.Sequencing.Counters

/-!
# Tracking one producer

What a consumer knows about the order of one producer's messages: the last number released or passed,
the incarnation it belongs to, and the messages that arrived early, in ascending order. An arrival is
first placed and then the buffer is drained from its front. Under the strict policy a gap is given up
when more messages wait than the bound in force; under the legacy policy the first arrival of an
incarnation is a baseline, and a gap is given up when the newest arrival is the highest of several
that wait.
-/

namespace OrderedRelay

structure Early (α : Type) where
  number : Nat
  timestamp : Binary64
  item : α
deriving DecidableEq

inductive Policy where
  /-- Gaps are waited for. While nothing has been released the lower of both bounds is in force,
  afterwards `maxPending`. -/
  | strict (maxPending resyncAfter : Nat)
  | legacy
deriving DecidableEq, Repr

def Policy.bound (maxPending resyncAfter last : Nat) : Nat :=
  if last = 0 then min resyncAfter maxPending else maxPending

structure Tracking (α : Type) where
  last : Nat := 0
  incarnation : Binary64 := .zero
  buffer : List (Early α) := []
deriving DecidableEq

structure Drained (α : Type) where
  released : List α
  last : Nat
  buffer : List (Early α)
deriving DecidableEq

def Drained.cons {α : Type} (item : α) (d : Drained α) : Drained α :=
  { d with released := item :: d.released }

namespace Tracking

variable {α : Type}

def pending (t : Tracking α) : List Nat := t.buffer.map Early.number

/-- Puts a message into its place among those that wait; a copy of the same number gives way. -/
def insertEarly (e : Early α) : List (Early α) → List (Early α)
  | [] => [e]
  | b :: bs =>
    if e.number < b.number then e :: b :: bs
    else if e.number = b.number then e :: bs
    else b :: insertEarly e bs

/-- Starts over for another incarnation; what waits from any other one is dropped. -/
def reset (t : Tracking α) (timestamp : Binary64) : Tracking α where
  last := 0
  incarnation := timestamp
  buffer := t.buffer.filter fun e => e.timestamp.equals timestamp

def enter (t : Tracking α) (timestamp : Binary64) : Tracking α :=
  if t.incarnation.equals timestamp then t else t.reset timestamp

def highest (e : Early α) (es : List (Early α)) : Nat := (es.getLastD e).number

def afterDrain (t : Tracking α) (d : Drained α) : Tracking α :=
  { t with last := d.last, buffer := d.buffer }

section Counting

variable {m : Type → Type} [Monad m]

/-- Gives up the numbers missing before the front: the last number becomes the one below it, after
which the front is next in turn. -/
def passGap (c : Counting m) (e : Early α) : m Unit := do
  let below ← c.minusOne e.number
  let _ ← c.plusOne below

/-- Drains strictly: the front leaves if it is next in turn, or if more messages wait than the bound
allows. What has been passed, or belongs to another incarnation, is dropped. -/
def drainStrictBy (c : Counting m) (maxPending resyncAfter : Nat) (incarnation : Binary64)
    (last : Nat) : List (Early α) → m (Drained α)
  | [] => return ⟨[], last, []⟩
  | e :: es =>
    if !e.timestamp.equals incarnation || e.number ≤ last then
      drainStrictBy c maxPending resyncAfter incarnation last es
    else do
      let next ← c.plusOne last
      if e.number = next then
        return (← drainStrictBy c maxPending resyncAfter incarnation e.number es).cons e.item
      else if Policy.bound maxPending resyncAfter last < es.length + 1 then
        passGap c e
        return (← drainStrictBy c maxPending resyncAfter incarnation e.number es).cons e.item
      else return ⟨[], last, e :: es⟩

/-- Drains by the legacy rule: the front leaves if it is next in turn, or if several wait and the
newest arrival is the highest of them. -/
def drainLegacyBy (c : Counting m) (received : Nat) (incarnation : Binary64) (last : Nat) :
    List (Early α) → m (Drained α)
  | [] => return ⟨[], last, []⟩
  | e :: es =>
    if !e.timestamp.equals incarnation then drainLegacyBy c received incarnation last es
    else do
      let next ← c.plusOne last
      if e.number < next then drainLegacyBy c received incarnation last es
      else if e.number = next then
        return (← drainLegacyBy c received incarnation e.number es).cons e.item
      else if highest e es = received ∧ es ≠ [] then
        passGap c e
        return (← drainLegacyBy c received incarnation e.number es).cons e.item
      else return ⟨[], last, e :: es⟩

/-- Accepts an arrival of the incarnation that is tracked, strictly. An earlier copy of a number that
waits is kept. -/
def acceptStrictBy (c : Counting m) (maxPending resyncAfter : Nat) (t : Tracking α) (number : Nat)
    (item : α) : m (Tracking α × List α) := do
  let drain := drainStrictBy c maxPending resyncAfter t.incarnation
  let next ← c.plusOne t.last
  if number < next ∨ number ∈ t.pending then
    let d ← drain t.last t.buffer
    return (t.afterDrain d, d.released)
  else if number = next then
    let d ← drain number t.buffer
    return (t.afterDrain d, item :: d.released)
  else
    let d ← drain t.last (insertEarly ⟨number, t.incarnation, item⟩ t.buffer)
    return (t.afterDrain d, d.released)

/-- Accepts an arrival of the incarnation that is tracked, by the legacy rule. A baseline drains
nothing. -/
def acceptLegacyBy (c : Counting m) (t : Tracking α) (number : Nat) (item : α) :
    m (Tracking α × List α) := do
  let drain := drainLegacyBy c number t.incarnation
  let next ← c.plusOne t.last
  if number < next then
    let d ← drain t.last t.buffer
    return (t.afterDrain d, d.released)
  else if number = next then
    let d ← drain number t.buffer
    return (t.afterDrain d, item :: d.released)
  else if t.last = 0 then return ({ t with last := number }, [item])
  else
    let d ← drain t.last (insertEarly ⟨number, t.incarnation, item⟩ t.buffer)
    return (t.afterDrain d, d.released)

def acceptBy (c : Counting m) (policy : Policy) (t : Tracking α) (timestamp : Binary64)
    (number : Nat) (item : α) : m (Tracking α × List α) :=
  match policy with
  | .strict maxPending resyncAfter =>
    acceptStrictBy c maxPending resyncAfter (t.enter timestamp) number item
  | .legacy => acceptLegacyBy c (t.enter timestamp) number item

end Counting

def nextExpected? (t : Tracking α) : Except Trap Nat := Trap.plusOne t.last

def accept? (policy : Policy) (t : Tracking α) (timestamp : Binary64) (number : Nat) (item : α) :
    Except Trap (Tracking α × List α) :=
  acceptBy .checked policy t timestamp number item

structure Report where
  next : Nat
  incarnation : Binary64
  pending : List Nat
deriving DecidableEq

def report? (t : Tracking α) : Except Trap Report := do
  return ⟨← t.nextExpected?, t.incarnation, t.pending⟩

end Tracking

end OrderedRelay
