import OrderedRelay.Relay.Inbound
import OrderedRelay.Settings.Basic
import OrderedRelay.Topic.Route

/-!
# Relays

A relay is an instance on a bus with its own numbers for consumers, its own incarnation and its own
receiving side; nothing is shared between relays. Writing gives a message its route and, if the route
is numbered, fresh numbers in place of any that the header had.
-/

namespace OrderedRelay

/-- A relay; the incarnation is the time at which it was made. -/
structure Relay where
  settings : RelaySettings
  incarnation : Binary64
  counters : Counters := {}
  inbound : Inbound

namespace Relay

def create (settings : RelaySettings) (incarnation : Binary64) : Relay where
  settings
  incarnation
  inbound := {
    engine := { consumer := settings.instanceId, policy := settings.ordering.toPolicy }
    dispatcher := { name := settings.instanceId } }

def identity (r : Relay) : Identity := ⟨r.settings.domain, r.settings.instanceId⟩

def stamp (r : Relay) (route : Route) (h : Header) : Relay × Header :=
  match route.sequenceFor with
  | none => (r, h)
  | some consumers =>
    let (counters, h) := r.counters.stamp consumers r.incarnation h
    ({ r with counters }, h)

/-- The route of a write: numbers that the header already has do not count. -/
def route (r : Relay) (target : String) (h : Header) : Except RelayError (Route × Header) :=
  let fresh := h.remove Header.orderNumbersField
  match r.identity.route target fresh with
  | .ok route => .ok (route, fresh)
  | .error fault => .error (.logic (.route fault))

/-- Makes a write ready for the transport. The numbers it takes are used up from here on. -/
def prepare (r : Relay) (target : String) (m : Message) (priority ttl : Int) :
    Relay × Except RelayError Publication :=
  match r.route target m.header with
  | .error e => (r, .error e)
  | .ok (route, h) =>
    let (r, h) := r.stamp route h
    (r, .ok ⟨route.topic, ⟨h, m.body⟩, .ofPriority priority ttl⟩)

def topics (r : Relay) : Stream → List String
  | .messages =>
    r.identity.ownSlotTopic ::
      if r.settings.consumeBroadcasts then [r.identity.globalSlotsTopic] else []
  | .heartbeats => [r.identity.heartbeatPattern]
  | .logs => [r.identity.logTopic]

def tracking? (r : Relay) (producer : String) : Option (Tracking Message) :=
  r.inbound.engine.tracking? producer

def report? (r : Relay) (producer : String) : Except Trap (Option Tracking.Report) :=
  r.inbound.engine.report? producer

def describe (r : Relay) (incarnation : String) : String :=
  "BrokerRelay \x7b domain: " ++ Text.quoted r.settings.domain ++ ", instance_id: " ++
    Text.quoted r.settings.instanceId ++ ", incarnation: " ++ incarnation ++ " \x7d"

end Relay

end OrderedRelay
