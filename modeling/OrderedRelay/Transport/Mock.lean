import OrderedRelay.Topic.Pattern
import OrderedRelay.Transport.Publication

/-!
# A transport for rehearsals

It keeps what is published, and deliveries are made by hand. It can be told to fail, and to take its
time over subscribing and unsubscribing.
-/

namespace OrderedRelay

/-- A transport for rehearsals; `delay` is in milliseconds. -/
structure Mock (κ : Type) where
  connected : Bool := false
  published : List Publication := []
  subscriptions : Table κ := []
  failsPublish : Bool := false
  failsSubscribe : Bool := false
  delay : Option Nat := none
deriving DecidableEq

namespace Mock

variable {κ : Type}

def connect (m : Mock κ) : Mock κ := { m with connected := true }

def disconnect (m : Mock κ) : Mock κ := { m with connected := false, subscriptions := [] }

def wait (m : Mock κ) : Nat := if m.connected then m.delay.getD 0 else 0

def subscribe (m : Mock κ) (topic : String) (subscriber : κ) : Mock κ × Except TransportError Unit :=
  if !m.connected then (m, .error .notConnected)
  else if m.failsSubscribe then (m, .error (.subscribe topic "Mock subscribe failure"))
  else ({ m with subscriptions := m.subscriptions.insert topic subscriber }, .ok ())

def unsubscribe (m : Mock κ) (topic : String) : Mock κ × Except TransportError Unit :=
  if m.connected then ({ m with subscriptions := m.subscriptions.erase topic }, .ok ())
  else (m, .error .notConnected)

def unsubscribeAll (m : Mock κ) : Mock κ := { m with subscriptions := [] }

def publish (m : Mock κ) (p : Publication) : Mock κ × Except TransportError Unit :=
  if !m.connected then (m, .error .notConnected)
  else if m.failsPublish then (m, .error (.publish p.topic "Mock publish failure"))
  else ({ m with published := m.published ++ [p] }, .ok ())

def deliver (m : Mock κ) (topic : String) (content : Except TransportError Message) :
    List (Delivery κ) :=
  (m.subscriptions.filter fun entry => Topic.isMatch entry.1 topic).map fun entry =>
    ⟨entry.2, topic, content⟩

end Mock

end OrderedRelay
