import OrderedRelay.Network.Carrier
import OrderedRelay.Transport.Lossy

/-!
# Transports with a lossy layer

A link is a carrier, behind a lossy layer or not. The layer spoils what is published; everything else
goes to the carrier, except that disconnecting makes the layer forget what it holds.
-/

namespace OrderedRelay

structure Link (κ : Type) where
  carrier : Carrier κ
  layer : Option Lossy := none

namespace Link

variable {κ α : Type}

abbrev Outcome (κ α : Type) := Effect (Link κ) (Medium κ) κ α

def onCarrier (l : Link κ) (e : Carrier.Outcome κ α) : Outcome κ α :=
  e.mapClient fun carrier => { l with carrier }

def isConnected (l : Link κ) (m : Medium κ) : Bool := l.carrier.isConnected m

def connect (l : Link κ) (m : Medium κ) : Outcome κ Unit := l.onCarrier (l.carrier.connect m)

def disconnect (l : Link κ) (m : Medium κ) : Outcome κ Unit :=
  { l with layer := l.layer.map Lossy.discard }.onCarrier (l.carrier.disconnect m)

def subscribe (l : Link κ) (m : Medium κ) (topic : String) (subscriber : κ) : Outcome κ Unit :=
  l.onCarrier (l.carrier.subscribe m topic subscriber)

def unsubscribe (l : Link κ) (m : Medium κ) (topic : String) : Outcome κ Unit :=
  l.onCarrier (l.carrier.unsubscribe m topic)

def unsubscribeAll (l : Link κ) (m : Medium κ) : Outcome κ Unit :=
  l.onCarrier (l.carrier.unsubscribeAll m)

def isSubscribed (l : Link κ) (m : Medium κ) (topic : String) : Bool :=
  l.carrier.isSubscribed m topic

/-- Publishes through the layer; the draws decide what it does. -/
def publish (l : Link κ) (m : Medium κ) (chance : Chance) (p : Publication) : Outcome κ Unit :=
  match l.layer with
  | none => l.onCarrier (l.carrier.publish m p)
  | some layer =>
    let (layer, leaving) := layer.offer chance p
    { l with layer := some layer }.onCarrier (Carrier.publishEach leaving m l.carrier)

def flush (l : Link κ) (m : Medium κ) (order : List Nat) : Outcome κ Unit :=
  match l.layer with
  | none => { client := l, line := m, result := .ok () }
  | some layer =>
    let (layer, leaving) := layer.flush order
    { l with layer := some layer }.onCarrier (Carrier.publishEach leaving m l.carrier)

end Link

end OrderedRelay
