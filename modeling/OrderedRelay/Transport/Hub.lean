import OrderedRelay.Topic.Pattern
import OrderedRelay.Transport.Publication

/-!
# A broker inside the process

A hub joins any number of members. Each member subscribes to patterns, and what a connected member
publishes goes to every subscription that matches, its own included, in the order in which the
subscriptions were last made. A member has at most one subscription for a pattern; leaving takes all
of them away.
-/

namespace OrderedRelay

structure HubSubscription (κ : Type) where
  owner : Nat
  pattern : String
  subscriber : κ
deriving DecidableEq

/-- The members so far, those connected, and the subscriptions in the order they were last made. -/
structure Hub (κ : Type) where
  members : Nat := 0
  connected : List Nat := []
  subscriptions : List (HubSubscription κ) := []
deriving DecidableEq

namespace Hub

variable {κ : Type}

def join (h : Hub κ) : Hub κ × Nat := ({ h with members := h.members + 1 }, h.members)

def isConnected (h : Hub κ) (owner : Nat) : Bool := h.connected.contains owner

def connect (h : Hub κ) (owner : Nat) : Hub κ :=
  if h.isConnected owner then h else { h with connected := owner :: h.connected }

def isFor (owner : Nat) (pattern : String) (s : HubSubscription κ) : Bool :=
  s.owner == owner && s.pattern == pattern

def leave (h : Hub κ) (owner : Nat) : Hub κ :=
  { h with subscriptions := h.subscriptions.filter fun s => s.owner ≠ owner }

/-- Disconnects a member; one that is not connected keeps what it has, which is nothing. -/
def disconnect (h : Hub κ) (owner : Nat) : Hub κ :=
  if h.isConnected owner then
    { h.leave owner with connected := h.connected.filter (· ≠ owner) }
  else h

/-- Subscribes a connected member to a pattern, in place of its subscription for that pattern. -/
def subscribe (h : Hub κ) (owner : Nat) (pattern : String) (subscriber : κ) :
    Hub κ × Except TransportError Unit :=
  if h.isConnected owner then
    let others := h.subscriptions.filter fun s => !isFor owner pattern s
    ({ h with subscriptions := others ++ [⟨owner, pattern, subscriber⟩] }, .ok ())
  else (h, .error .notConnected)

def unsubscribe (h : Hub κ) (owner : Nat) (pattern : String) : Hub κ × Except TransportError Unit :=
  if h.isConnected owner then
    ({ h with subscriptions := h.subscriptions.filter fun s => !isFor owner pattern s }, .ok ())
  else (h, .error .notConnected)

def isSubscribed (h : Hub κ) (owner : Nat) (pattern : String) : Bool :=
  h.subscriptions.any (isFor owner pattern)

def deliveries (h : Hub κ) (topic : String) (m : Message) : List (Delivery κ) :=
  (h.subscriptions.filter fun s => Topic.isMatch s.pattern topic).map fun s =>
    ⟨s.subscriber, topic, .ok m⟩

def publish (h : Hub κ) (owner : Nat) (p : Publication) :
    List (Delivery κ) × Except TransportError Unit :=
  if h.isConnected owner then (h.deliveries p.topic p.message, .ok ())
  else ([], .error .notConnected)

end Hub

end OrderedRelay
