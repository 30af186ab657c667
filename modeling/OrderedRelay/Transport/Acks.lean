/-!
# Acknowledgements in order

Requests of one kind are acknowledged in the order they were sent, without naming the request. So each
call that sends one waits in a queue, and an acknowledgement goes to the call at the front, also when
that call no longer listens.
-/

namespace OrderedRelay

inductive Mqtt.Kind where
  | subscribe
  | unsubscribe
deriving DecidableEq

/-- The calls that wait for acknowledgements, by number and in the order sent, and the number of the
next call. -/
structure Acks where
  subscribes : List Nat := []
  unsubscribes : List Nat := []
  next : Nat := 0
deriving DecidableEq

namespace Acks

open Mqtt (Kind)

def queue (a : Acks) : Kind → List Nat
  | .subscribe => a.subscribes
  | .unsubscribe => a.unsubscribes

def withQueue (a : Acks) (waiting : List Nat) : Kind → Acks
  | .subscribe => { a with subscribes := waiting }
  | .unsubscribe => { a with unsubscribes := waiting }

def send (a : Acks) (kind : Kind) : Acks :=
  { a.withQueue (a.queue kind ++ [a.next]) kind with next := a.next + 1 }

/-- The last request of a kind could not be sent: its call no longer waits. -/
def unsend (a : Acks) (kind : Kind) : Acks := a.withQueue (a.queue kind).dropLast kind

def ack (a : Acks) (kind : Kind) : Acks × Option Nat :=
  (a.withQueue (a.queue kind).tail kind, (a.queue kind).head?)

/-- The connection is gone: nothing more is acknowledged, and every call that waits fails. -/
def fail (a : Acks) : Acks := { a with subscribes := [], unsubscribes := [] }

end Acks

end OrderedRelay
