import OrderedRelay.Retry
import OrderedRelay.Text.Decimal
import OrderedRelay.Topic.RoutingKey
import OrderedRelay.Transport.Effect

/-!
# AMQP

Messages go through a topic exchange. One connection, opened again whenever it is needed and gone,
carries a channel for each subscription and for each attempt to publish. A subscription has a queue of
its own that the broker names, bound to the exchange by the routing key of its topic. A subscription
that is lost is told so and stays in the table until it is ended.
-/

namespace OrderedRelay

inductive AmqpRequest where
  | connect
  | openChannel
  | declareExchange (name kind : String)
  | declareQueue (name : String) (exclusive autoDelete : Bool)
  | bind (queue exchange key : String)
  | consume (queue tag : String) (noAck : Bool)
  | publish (exchange key contentType : String) (quality : Quality) (expiry : Option Nat)
      (payload : String)
  | closeChannel (code : Nat) (text : String)
deriving DecidableEq, Repr

/-- A subscription: its binding key, whether its consumer is live, and whether its channel works. -/
structure AmqpConsumer (κ : Type) where
  subscriber : κ
  key : String
  live : Bool := true
  working : Bool := true
deriving DecidableEq

/-- An AMQP client; `linked` says whether it holds an open connection. -/
structure Amqp (κ : Type) where
  urls : List String
  exchange : String
  tag : String
  session : Option String := none
  linked : Bool := false
  subscriptions : Table (AmqpConsumer κ) := []
deriving DecidableEq

namespace Amqp

variable {β κ : Type}

def isConnected (c : Amqp κ) : Bool := c.session.isSome

def brokerUrl (c : Amqp κ) : String := c.session.getD (c.urls.headD "")

def lossReport (reason topic : String) (subscriber : κ) : Delivery κ :=
  ⟨subscriber, topic, .error (.delivery ("AMQP subscription to '" ++ topic ++ "' lost: " ++ reason))⟩

/-- Ends the live subscriptions that are chosen: each is told the reason, and its channel works on or
not. -/
def endConsumers (c : Amqp κ) (chosen : AmqpConsumer κ → Bool) (reason : String)
    (channelWorks : Bool) : Amqp κ × List (Delivery κ) :=
  ({ c with subscriptions := c.subscriptions.mapValues fun s =>
      if s.live && chosen s then { s with live := false, working := channelWorks }
      else s },
    (c.subscriptions.filter fun entry => entry.2.live && chosen entry.2).map fun entry =>
      lossReport reason entry.1 entry.2.subscriber)

def lose (c : Amqp κ) : Amqp κ × List (Delivery κ) :=
  let (ended, told) := c.endConsumers (fun _ => true) undisclosed false
  ({ ended with
      linked := false
      subscriptions := ended.subscriptions.mapValues fun s => { s with working := false } }, told)

/-- Asks once over the open connection; a cut-off loses it. -/
def request (ask : Ask β AmqpRequest) (c : Amqp κ) (b : β) (url : String) (r : AmqpRequest)
    (failure : TransportError) : Effect (Amqp κ) β κ String :=
  match ask b url r with
  | (b, .accepted given) => { client := c, line := b, result := .ok given }
  | (b, .dropped) =>
    let (lost, told) := c.lose
    { client := lost, line := b, told, result := .error failure }
  | (b, _) => { client := c, line := b, result := .error failure }

def link (ask : Ask β AmqpRequest) (c : Amqp κ) (b : β) (url : String) : Effect (Amqp κ) β κ Unit :=
  if c.linked then { client := c, line := b, result := .ok () }
  else
    match ask b url .connect with
    | (b, .accepted _) => { client := { c with linked := true }, line := b, result := .ok () }
    | (b, _) =>
      { client := c, line := b
        result := .error (.connection ("Failed to get connection from pool: " ++ undisclosed)) }

def channel (ask : Ask β AmqpRequest) (c : Amqp κ) (b : β) (url : String) :
    Effect (Amqp κ) β κ String :=
  (link ask c b url).andThen fun c b () =>
    request ask c b url .openChannel (.connection ("Failed to create channel: " ++ undisclosed))

/-- Opens a connection to one broker and declares the exchange; if this fails nothing stays open. -/
def dial (ask : Ask β AmqpRequest) (c : Amqp κ) (b : β) (url : String) : Effect (Amqp κ) β κ Unit :=
  let e := (channel ask c b url).andThen fun c b _ =>
    request ask c b url (.declareExchange c.exchange "topic")
      (.connection ("Failed to declare exchange: " ++ undisclosed))
  match e.result with
  | .ok _ => { e with result := .ok () }
  | .error failure => { e with client := { e.client with linked := false }, result := .error failure }

def connect (ask : Ask β AmqpRequest) (c : Amqp κ) (b : β) : Effect (Amqp κ) β κ Unit :=
  if c.isConnected then { client := c, line := b, result := .ok () }
  else
    (openFirst (dial ask) c.urls (.connection "No AMQP URLs configured") c b).andThen
      fun c b url => { client := { c with session := some url }, line := b, result := .ok () }

/-- Closes the channel of a subscription that has ended; nothing is sent on one that does not work. -/
def close (ask : Ask β AmqpRequest) (b : β) (url : String) (s : AmqpConsumer κ) : β :=
  if s.working then (ask b url (.closeChannel 200 "unsubscribe")).1 else b

def closeEach (ask : Ask β AmqpRequest) (b : β) (url : String) (ss : List (AmqpConsumer κ)) : β :=
  ss.foldl (fun b s => close ask b url s) b

def consumer (ask : Ask β AmqpRequest) (c : Amqp κ) (b : β) (url key : String) :
    Effect (Amqp κ) β κ String :=
  let failure := TransportError.subscribe key undisclosed
  (channel ask c b url).andThen fun c b _ =>
  (request ask c b url (.declareQueue "" true true) failure).andThen fun c b queue =>
  (request ask c b url (.bind queue c.exchange key) failure).andThen fun c b _ =>
    request ask c b url (.consume queue (c.tag ++ "-" ++ queue) true) failure

/-- Subscribes; the subscription that the topic had is closed once the new one stands. -/
def subscribe (ask : Ask β AmqpRequest) (c : Amqp κ) (b : β) (topic : String) (subscriber : κ) :
    Effect (Amqp κ) β κ Unit :=
  match c.session with
  | none => { client := c, line := b, result := .error .notConnected }
  | some url =>
    let key := RoutingKey.ofTopic topic
    (consumer ask c b url key).andThen fun c b _ =>
      let previous := (c.subscriptions.get? topic).toList
      { client := { c with subscriptions := c.subscriptions.insert topic { subscriber, key } }
        line := closeEach ask b url previous
        result := .ok () }

def unsubscribe (ask : Ask β AmqpRequest) (c : Amqp κ) (b : β) (topic : String) : Amqp κ × β :=
  ({ c with subscriptions := c.subscriptions.erase topic },
    closeEach ask b (c.session.getD "") (c.subscriptions.get? topic).toList)

def unsubscribeAll (ask : Ask β AmqpRequest) (c : Amqp κ) (b : β) : Amqp κ × β :=
  ({ c with subscriptions := [] }, closeEach ask b (c.session.getD "") c.subscriptions.values)

def disconnect (ask : Ask β AmqpRequest) (c : Amqp κ) (b : β) : Amqp κ × β :=
  let (c, b) := c.unsubscribeAll ask b
  ({ c with session := none, linked := false }, b)

def send (ask : Ask β AmqpRequest) (c : Amqp κ) (b : β) (url key payload : String)
    (options : PublishOptions) : Effect (Amqp κ) β κ Unit :=
  let unconfirmed := TransportError.publish key ("Publish confirmation failed: " ++ undisclosed)
  match ask b url (.publish c.exchange key "application/json" options.quality options.expiry payload) with
  | (b, .accepted _) => { client := c, line := b, result := .ok () }
  | (b, .unsent) => { client := c, line := b, result := .error (.publish key undisclosed) }
  | (b, .refused) => { client := c, line := b, result := .error unconfirmed }
  | (b, .dropped) =>
    let (lost, told) := c.lose
    { client := lost, line := b, told, result := .error unconfirmed }

def publishOnce (ask : Ask β AmqpRequest) (c : Amqp κ) (b : β) (key payload : String)
    (options : PublishOptions) : Effect (Amqp κ) β κ Unit :=
  match c.session with
  | none => { client := c, line := b, result := .error .notConnected }
  | some url => (channel ask c b url).andThen fun c b _ => send ask c b url key payload options

/-- A kind of attempt to publish: what a client and the brokers make of a routing key, a payload and
options. -/
abbrev Attempt (β κ : Type) :=
  Amqp κ → β → String → String → PublishOptions → Effect (Amqp κ) β κ Unit

def attempt (once : Attempt β κ) (key payload : String) (options : PublishOptions)
    (s : Amqp κ × β × List (Delivery κ)) :
    (Amqp κ × β × List (Delivery κ)) × Except TransportError Unit :=
  let e := once s.1 s.2.1 key payload options
  ((e.client, e.line, s.2.2 ++ e.told), e.result)

/-- Publishes the envelope of a message by its routing key, in attempts of the given kind, with retries
while the failure may pass. -/
def publishBy (once : Attempt β κ) (c : Amqp κ) (b : β) (p : Publication) :
    Effect (Amqp κ) β κ Unit :=
  let key := RoutingKey.ofTopic p.topic
  let payload := Envelope.encode p.message
  let ((client, line, told), result) :=
    Retry.run TransportError.isRetryable (attempt once key payload p.options) Retry.publishDelays
      (c, b, [])
  { client, line, told, result }

def publish (ask : Ask β AmqpRequest) (c : Amqp κ) (b : β) (p : Publication) :
    Effect (Amqp κ) β κ Unit :=
  publishBy (publishOnce ask) c b p

def bound (c : Amqp κ) (key : String) : Table (AmqpConsumer κ) :=
  c.subscriptions.filter fun entry => entry.2.live && entry.2.key == key

def arrive (c : Amqp κ) (binding key : String) (payload : List UInt8) : List (Delivery κ) :=
  (c.bound binding).map fun entry =>
    ⟨entry.2.subscriber, RoutingKey.toTopic key, arrival (RoutingKey.toTopic key) payload⟩

end Amqp

end OrderedRelay
