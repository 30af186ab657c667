import OrderedRelay.Interval
import OrderedRelay.Network.Basic

/-!
# Transports from settings

The transport that settings describe. It is not connected. Brokers without a configured URL are looked
for on this host, at the port usual for their kind.
-/

namespace OrderedRelay

def TransportKind.localUrl : TransportKind → String
  | channel => "channel://local"
  | redis => "redis://localhost:6379"
  | amqp => "amqp://localhost:5672"
  | mqtt => "mqtt://localhost:1883"

/-- The carrier for a kind of broker outside the process, with the name that the client goes by; within
the process it is the first member of a hub. -/
def Carrier.create? {κ : Type} (s : TransportSettings) (client : String) :
    Except TransportError (Carrier κ) :=
  match s.kind with
  | .channel => .ok (.channel 0)
  | .redis => .ok (.redis { urls := s.urls })
  | .amqp => .ok (.amqp { urls := s.urls, exchange := s.exchange, tag := client })
  | .mqtt =>
    match Mqtt.create s.urls client s.keepAlive with
    | .ok c => .ok (.mqtt c)
    | .error e => .error e

def Carrier.ofSettings? {κ : Type} (s : TransportSettings) (client : String) :
    Except TransportError (Carrier κ) :=
  Carrier.create? { s with urls := s.urlsOr s.kind.localUrl } client

def Network.ofSettings? (s : TransportSettings) (client : String) :
    Except TransportError Network :=
  match Carrier.ofSettings? s client with
  | .ok carrier => .ok (({ medium := { hub := (({} : Hub Subscriber).join).1 } } : Network).addLink
      { carrier }).1
  | .error e => .error e

end OrderedRelay
