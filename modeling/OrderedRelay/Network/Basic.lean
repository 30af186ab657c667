import OrderedRelay.Network.Link
import OrderedRelay.Relay.Basic

/-!
# Relays over transports

A network is any number of links over one medium, and relays that each use one of the links. Its
operations are those of relays and links. Whatever a subscriber is told on the way reaches it at once:
a relay takes it in on the stream it subscribed for, and what a bare subscription is told is kept. What
relays post waits on their dispatchers until these are run.
-/

namespace OrderedRelay

/-- Who a subscription reports to: itself alone, under a name, or a stream of a relay. -/
inductive Subscriber where
  | bare (name : String)
  | relay (number : Nat) (stream : Stream)
deriving DecidableEq

structure Node where
  link : Nat
  relay : Relay

/-- Links and relays, by number; a relay that is gone leaves its number free. `heard` is what bare
subscriptions have been told. -/
structure Network where
  medium : Medium Subscriber := {}
  links : List (Link Subscriber) := []
  nodes : List (Option Node) := []
  heard : List (Delivery String) := []

namespace Network

/-! ### Parts -/

def link? (n : Network) (i : Nat) : Option (Link Subscriber) := n.links[i]?

def node? (n : Network) (i : Nat) : Option Node := (n.nodes[i]?).getD none

def relay? (n : Network) (i : Nat) : Option Relay := (n.node? i).map Node.relay

def addLink (n : Network) (l : Link Subscriber) : Network × Nat :=
  ({ n with links := n.links ++ [l] }, n.links.length)

def addMember (n : Network) (layer : Option Lossy) : Network × Nat :=
  let (hub, owner) := n.medium.hub.join
  { n with medium := { n.medium with hub } }.addLink { carrier := .channel owner, layer }

def addBroker (n : Network) (b : Broker) : Network :=
  { n with medium := { n.medium with brokers := n.medium.brokers ++ [b] } }

def addRelay (n : Network) (link : Nat) (r : Relay) : Network × Nat :=
  ({ n with nodes := n.nodes ++ [some ⟨link, r⟩] }, n.nodes.length)

/-- Takes a relay away. Its subscriptions stay with the link and reach nobody. -/
def dropRelay (n : Network) (i : Nat) : Network := { n with nodes := n.nodes.set i none }

def updateRelay (n : Network) (i : Nat) (f : Relay → Relay) : Network :=
  { n with nodes := n.nodes.modify i (Option.map fun node => { node with relay := f node.relay }) }

def updateInbound (n : Network) (i : Nat) (f : Inbound → Inbound) : Network :=
  n.updateRelay i fun r => { r with inbound := f r.inbound }

def updateLink (n : Network) (i : Nat) (f : Link Subscriber → Link Subscriber) : Network :=
  { n with links := n.links.modify i f }

/-! ### Deliveries -/

def deliver (n : Network) (d : Delivery Subscriber) : Network :=
  match d.subscriber with
  | .bare name => { n with heard := n.heard ++ [⟨name, d.topic, d.content⟩] }
  | .relay i stream => n.updateInbound i fun inbound => inbound.receive stream d.topic d.content

def deliverAll (n : Network) (ds : List (Delivery Subscriber)) : Network := ds.foldl deliver n

def onLink {α : Type} (n : Network) (i : Nat)
    (op : Link Subscriber → Medium Subscriber → Link.Outcome Subscriber α) :
    Network × Except TransportError α :=
  match n.link? i with
  | none => (n, .error .notConnected)
  | some l =>
    let e := op l n.medium
    ({ n with medium := e.line, links := n.links.set i e.client }.deliverAll e.told, e.result)

/-- Changes every carrier, and brings subscribers what that tells them; gives how many were told. -/
def onCarriers (n : Network)
    (f : Carrier Subscriber → Carrier Subscriber × List (Delivery Subscriber)) : Network × Nat :=
  let changed := n.links.map fun l =>
    let (carrier, told) := f l.carrier
    ({ l with carrier }, told)
  let told := changed.flatMap Prod.snd
  ({ n with links := changed.map Prod.fst }.deliverAll told, told.length)

/-! ### Relay operations -/

def reported {α : Type} : Except TransportError α → Except RelayError α
  | .ok a => .ok a
  | .error e => .error (.transport e)

def onRelayLink {α : Type} (n : Network) (i : Nat)
    (op : Link Subscriber → Medium Subscriber → Link.Outcome Subscriber α) :
    Network × Except RelayError α :=
  match n.node? i with
  | none => (n, .error .notConnected)
  | some node =>
    let (n, result) := n.onLink node.link op
    (n, reported result)

def isConnected (n : Network) (i : Nat) : Bool :=
  match (n.node? i).bind fun node => n.link? node.link with
  | some l => l.isConnected n.medium
  | none => false

def brokerUrl (n : Network) (i : Nat) : String :=
  match (n.node? i).bind fun node => n.link? node.link with
  | some l => l.carrier.brokerUrl
  | none => ""

def connect (n : Network) (i : Nat) : Network × Except RelayError Unit :=
  n.onRelayLink i Link.connect

def disconnect (n : Network) (i : Nat) : Network × Except RelayError Unit :=
  n.onRelayLink i Link.disconnect

/-- Writes: the relay prepares the message and its link publishes it. Nothing is prepared without a
connection. -/
def write (n : Network) (i : Nat) (chance : Chance) (target : String) (m : Message)
    (priority ttl : Int) : Network × Except RelayError Unit :=
  match n.relay? i, n.isConnected i with
  | some r, true =>
    let (r, prepared) := r.prepare target m priority ttl
    let n := n.updateRelay i fun _ => r
    match prepared with
    | .error e => (n, .error e)
    | .ok p => n.onRelayLink i fun l medium => l.publish medium chance p
  | _, _ => (n, .error .notConnected)

/-- Whether a subscribe or unsubscribe outlasts the patience of a relay, which is in seconds. -/
def outlasts (l : Link Subscriber) (seconds : Nat) : Bool := 1000 * seconds < l.carrier.wait

/-- Runs a subscribe or unsubscribe of the link that a relay uses. One that takes too long is given up
before it has any effect. -/
def withTimeout (n : Network) (i : Nat)
    (op : Link Subscriber → Medium Subscriber → Link.Outcome Subscriber Unit) :
    Network × Except RelayError Unit :=
  match n.node? i with
  | none => (n, .error .notConnected)
  | some node =>
    let seconds := node.relay.settings.subscribeTimeout
    match n.link? node.link with
    | none => (n, .error .notConnected)
    | some l => if outlasts l seconds then (n, .error (.timeout seconds)) else n.onRelayLink i op

def subscribeEach (stream : Stream) (i : Nat) :
    List String → Network → Network × Except RelayError Unit
  | [], n => (n, .ok ())
  | topic :: rest, n =>
    match n.withTimeout i fun l m => l.subscribe m topic (.relay i stream) with
    | (n, .ok ()) => subscribeEach stream i rest n
    | failed => failed

/-- Gives a stream a reader and subscribes to what it needs; after a failure the stream has none. -/
def startReading (n : Network) (i : Nat) (stream : Stream) (reader : Reader) :
    Network × Except RelayError Unit :=
  match n.relay? i with
  | none => (n, .error .notConnected)
  | some r =>
    let started := n.updateInbound i fun inbound => inbound.setReader stream (some reader)
    match subscribeEach stream i (r.topics stream) started with
    | (n, .ok ()) => (n, .ok ())
    | (n, .error e) => (n.updateInbound i fun inbound => inbound.setReader stream none, .error e)

/-- Whether a transport ends all subscriptions before the relay loses patience; if it is given up, what it
has done by then. -/
inductive Pace where
  | inTime
  | givenUp (part : Link Subscriber → Medium Subscriber → Link.Outcome Subscriber Unit)

def stopReading (n : Network) (i : Nat) (pace : Pace) : Network × Except RelayError Unit :=
  let stopped := n.updateInbound i Inbound.stop
  match n.relay? i, pace with
  | some r, .givenUp part =>
    ((stopped.onRelayLink i part).1, .error (.timeout r.settings.subscribeTimeout))
  | _, _ => stopped.onRelayLink i Link.unsubscribeAll

def subscribeSignal (n : Network) (i : Nat) (producer signal : String) :
    Network × Except RelayError Unit :=
  match n.relay? i with
  | none => (n, .error .notConnected)
  | some r =>
    if r.inbound.messages.isNone then
      (n, .error (.logic (.signalBeforeReading signal producer)))
    else subscribeEach .messages i [r.identity.signalTopic producer signal] n

def unsubscribeSignal (n : Network) (i : Nat) (producer signal : String) :
    Network × Except RelayError Unit :=
  match n.node? i with
  | none => (n, .error .notConnected)
  | some node =>
    let topic := node.relay.identity.signalTopic producer signal
    match n.link? node.link with
    | none => (n, .error .notConnected)
    | some l =>
      if l.isSubscribed n.medium topic then n.withTimeout i fun l m => l.unsubscribe m topic
      else (n, .ok ())

def check (n : Network) (i : Nat) (topic : String) (m : Message) :
    Network × Except RelayError Unit :=
  match n.relay? i with
  | none => (n, .error .notConnected)
  | some r =>
    let (inbound, result) := r.inbound.check topic m
    (n.updateInbound i fun _ => inbound, result)

def calls (n : Network) : List (Nat × Call) :=
  (n.nodes.zipIdx).flatMap fun (node, i) =>
    match node with
    | some node => node.relay.inbound.dispatcher.waiting.map fun c => (i, c)
    | none => []

def runAll (n : Network) : Network :=
  { n with nodes := n.nodes.map <| Option.map fun node =>
      { node with relay := { node.relay with inbound :=
          { node.relay.inbound with dispatcher := node.relay.inbound.dispatcher.flush } } } }

/-! ### Rehearsals and brokers -/

def rehearse (n : Network) (i : Nat) (topic : String)
    (content : Except TransportError Message) : Network × Nat :=
  match (n.link? i).bind fun l => l.carrier.mock? with
  | none => (n, 0)
  | some mock =>
    let told := mock.deliver topic content
    (n.deliverAll told, told.length)

def broker? (n : Network) (address : String) : Option Broker :=
  n.medium.brokers.find? fun b => b.address == address

def updateBroker (n : Network) (address : String) (f : Broker → Broker) : Network :=
  { n with medium := { n.medium with
      brokers := n.medium.brokers.map fun b => if b.address == address then f b else b } }

def loseBroker (n : Network) (b : Broker) : Network × Nat := n.onCarriers (Carrier.lose b)

def endConsumers (n : Network) (b : Broker) (key reason : String) (channelWorks : Bool) :
    Network × Nat :=
  n.onCarriers (Carrier.endConsumers b key reason channelWorks)

/-- A broker sends a payload; gives how many subscriptions or connections it went to. -/
def inject (n : Network) (b : Broker) (name topic : String) (payload : List UInt8) :
    Network × Nat :=
  let sent := n.links.map fun l => l.carrier.inject b name topic payload
  (n.deliverAll (sent.flatMap Prod.snd), sent.foldl (fun count reached => count + reached.1) 0)

end Network

end OrderedRelay
