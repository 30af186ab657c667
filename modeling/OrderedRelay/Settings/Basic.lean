import OrderedRelay.Sequencing.Engine
import OrderedRelay.Topic.Identity

/-!
# Settings

What a relay and its transport are set up with, and the values that hold unless others are given.
-/

namespace OrderedRelay

inductive PolicyName where
  | strict
  | legacy
deriving DecidableEq, Repr

/-- How arrivals are ordered; the bounds count for the strict policy only. -/
structure OrderingSettings where
  policy : PolicyName := .strict
  maxPending : Nat := 256
  resyncAfter : Nat := 16
deriving DecidableEq, Repr

def OrderingSettings.toPolicy (o : OrderingSettings) : Policy :=
  match o.policy with
  | .strict => .strict o.maxPending o.resyncAfter
  | .legacy => .legacy

/-- Who a relay is and how it behaves; the timeout is in seconds. -/
structure RelaySettings where
  domain : String
  instanceId : String
  consumeBroadcasts : Bool := true
  subscribeTimeout : Nat := 5
  ordering : OrderingSettings := {}
deriving DecidableEq, Repr

inductive TransportKind where
  | channel
  | redis
  | amqp
  | mqtt
deriving DecidableEq, Repr

/-- How brokers are reached; keep-alive is in seconds. -/
structure TransportSettings where
  kind : TransportKind := .channel
  urls : List String := []
  exchange : String := "brokerlink"
  keepAlive : Nat := 30
deriving DecidableEq, Repr

def TransportSettings.urlsOr (t : TransportSettings) (default : String) : List String :=
  if t.urls.isEmpty then [default] else t.urls

structure Settings where
  relay : RelaySettings
  transport : TransportSettings := {}
deriving DecidableEq, Repr

def Settings.ofIdentity (i : Identity) : Settings where
  relay := { domain := i.domain, instanceId := i.instanceId }

end OrderedRelay
