import OrderedRelay.Network.Broker
import OrderedRelay.Transport.Hub
import OrderedRelay.Transport.Mock

/-!
# Transports of every kind

A carrier is a transport of some kind, over what all transports share: one hub inside the process and
the brokers outside. Each operation is that of the kind.
-/

namespace OrderedRelay

structure Medium (κ : Type) where
  hub : Hub κ := {}
  brokers : List Broker := []

inductive Carrier (κ : Type) where
  | channel (owner : Nat)
  | mock (m : Mock κ)
  | redis (c : Redis κ)
  | mqtt (c : Mqtt κ)
  | amqp (c : Amqp κ)

namespace Carrier

variable {κ α β γ : Type}

abbrev Outcome (κ α : Type) := Effect (Carrier κ) (Medium κ) κ α

def done (c : Carrier κ) (m : Medium κ) (result : Except TransportError α) : Outcome κ α :=
  { client := c, line := m, result }

def atBrokers (wrap : γ → Carrier κ) (m : Medium κ) (e : Effect γ (List Broker) κ α) : Outcome κ α :=
  { client := wrap e.client, line := { m with brokers := e.line }, told := e.told
    result := e.result }

def askRedis : Ask (List Broker) RedisRequest := fun bs url r => Broker.ask bs url (.redis r)
def askMqtt : Ask (List Broker) MqttRequest := fun bs url r => Broker.ask bs url (.mqtt r)
def askAmqp : Ask (List Broker) AmqpRequest := fun bs url r => Broker.ask bs url (.amqp r)

def isConnected (m : Medium κ) : Carrier κ → Bool
  | channel owner => m.hub.isConnected owner
  | mock mk => mk.connected
  | redis c => c.isConnected
  | mqtt c => c.connected
  | amqp c => c.isConnected

def brokerUrl : Carrier κ → String
  | channel _ => "channel://local"
  | mock _ => "mock://"
  | redis c => c.brokerUrl
  | mqtt c => c.brokerUrl
  | amqp c => c.brokerUrl

def connect (m : Medium κ) : Carrier κ → Outcome κ Unit
  | channel owner => done (channel owner) { m with hub := m.hub.connect owner } (.ok ())
  | mock mk => done (mock mk.connect) m (.ok ())
  | redis c => atBrokers redis m (c.connect askRedis m.brokers)
  | mqtt c => atBrokers mqtt m (c.connect askMqtt m.brokers)
  | amqp c => atBrokers amqp m (c.connect askAmqp m.brokers)

def disconnect (m : Medium κ) : Carrier κ → Outcome κ Unit
  | channel owner => done (channel owner) { m with hub := m.hub.disconnect owner } (.ok ())
  | mock mk => done (mock mk.disconnect) m (.ok ())
  | redis c => done (redis c.disconnect) m (.ok ())
  | mqtt c => done (mqtt c.disconnect) m (.ok ())
  | amqp c =>
    let (c, brokers) := c.disconnect askAmqp m.brokers
    done (amqp c) { m with brokers } (.ok ())

/-- How long a subscribe or unsubscribe takes, in milliseconds. -/
def wait : Carrier κ → Nat
  | mock mk => mk.wait
  | _ => 0

def subscribe (m : Medium κ) (topic : String) (subscriber : κ) : Carrier κ → Outcome κ Unit
  | channel owner =>
    let (hub, result) := m.hub.subscribe owner topic subscriber
    done (channel owner) { m with hub } result
  | mock mk =>
    let (mk, result) := mk.subscribe topic subscriber
    done (mock mk) m result
  | redis c => atBrokers redis m (c.subscribe askRedis m.brokers topic subscriber)
  | mqtt c => atBrokers mqtt m (c.subscribe askMqtt m.brokers topic subscriber)
  | amqp c => atBrokers amqp m (c.subscribe askAmqp m.brokers topic subscriber)

def unsubscribe (m : Medium κ) (topic : String) : Carrier κ → Outcome κ Unit
  | channel owner =>
    let (hub, result) := m.hub.unsubscribe owner topic
    done (channel owner) { m with hub } result
  | mock mk =>
    let (mk, result) := mk.unsubscribe topic
    done (mock mk) m result
  | redis c => done (redis (c.unsubscribe topic)) m (.ok ())
  | mqtt c => atBrokers mqtt m (c.unsubscribe askMqtt m.brokers topic)
  | amqp c =>
    let (c, brokers) := c.unsubscribe askAmqp m.brokers topic
    done (amqp c) { m with brokers } (.ok ())

def unsubscribeAll (m : Medium κ) : Carrier κ → Outcome κ Unit
  | channel owner => done (channel owner) { m with hub := m.hub.leave owner } (.ok ())
  | mock mk => done (mock mk.unsubscribeAll) m (.ok ())
  | redis c => done (redis c.unsubscribeAll) m (.ok ())
  | mqtt c => atBrokers mqtt m (c.unsubscribeAll askMqtt m.brokers)
  | amqp c =>
    let (c, brokers) := c.unsubscribeAll askAmqp m.brokers
    done (amqp c) { m with brokers } (.ok ())

def isSubscribed (m : Medium κ) (topic : String) : Carrier κ → Bool
  | channel owner => m.hub.isSubscribed owner topic
  | mock mk => mk.subscriptions.has topic
  | redis c => c.subscriptions.has topic
  | mqtt c => c.subscriptions.has topic
  | amqp c => c.subscriptions.has topic

/-- The broker may close the connection on the message that it has been sent. -/
def hangUp (e : Effect (Amqp κ) (List Broker) κ Unit) : Effect (Amqp κ) (List Broker) κ Unit :=
  if e.line.any Broker.hangsUp then
    let (lost, told) := e.client.lose
    { e with
      client := lost
      line := e.line.map fun b => { b with hangsUp := false }
      told := e.told ++ told }
  else e

def publish (m : Medium κ) (p : Publication) : Carrier κ → Outcome κ Unit
  | channel owner =>
    let (told, result) := m.hub.publish owner p
    { client := channel owner, line := m, told, result }
  | mock mk =>
    let (mk, result) := mk.publish p
    done (mock mk) m result
  | redis c => atBrokers redis m (c.publish askRedis m.brokers p)
  | mqtt c => atBrokers mqtt m (c.publish askMqtt m.brokers p)
  | amqp c => atBrokers amqp m (hangUp (c.publish askAmqp m.brokers p))

/-- Publishes one after another, up to the first failure. -/
def publishEach : List Publication → Medium κ → Carrier κ → Outcome κ Unit
  | [], m, c => done c m (.ok ())
  | p :: rest, m, c => (c.publish m p).andThen fun c m () => publishEach rest m c

def mock? : Carrier κ → Option (Mock κ)
  | mock mk => some mk
  | _ => none

def updateMock (f : Mock κ → Mock κ) : Carrier κ → Carrier κ
  | mock mk => mock (f mk)
  | c => c

def reaches (b : Broker) (url : Option String) : Bool :=
  match url with
  | some u => b.up && b.serves u
  | none => false

def lose (b : Broker) : Carrier κ → Carrier κ × List (Delivery κ)
  | redis c =>
    if reaches b (c.session.map RedisSession.url) then
      let (c, told) := c.lose
      (redis c, told)
    else (redis c, [])
  | mqtt c =>
    if reaches b c.live? then
      let (c, told) := c.lose
      (mqtt c, told)
    else (mqtt c, [])
  | amqp c =>
    if c.linked && reaches b c.session then
      let (c, told) := c.lose
      (amqp c, told)
    else (amqp c, [])
  | c => (c, [])

def endConsumers (b : Broker) (key reason : String) (channelWorks : Bool) :
    Carrier κ → Carrier κ × List (Delivery κ)
  | amqp c =>
    if reaches b c.session then
      let (c, told) := c.endConsumers (fun s => s.key == key) reason channelWorks
      (amqp c, told)
    else (amqp c, [])
  | c => (c, [])

/-- A broker sends a payload on a topic, over MQTT to the connection, otherwise to the subscriptions by
one name. Gives how many it went to, and what subscribers are told. -/
def inject (b : Broker) (name topic : String) (payload : List UInt8) :
    Carrier κ → Nat × List (Delivery κ)
  | redis c =>
    if reaches b (c.session.map RedisSession.url) then
      ((c.reached name).length, c.arrive name topic payload)
    else (0, [])
  | mqtt c => if reaches b c.live? then (1, c.arrive topic payload) else (0, [])
  | amqp c =>
    if reaches b c.session then ((c.bound name).length, c.arrive name topic payload) else (0, [])
  | _ => (0, [])

end Carrier

end OrderedRelay
