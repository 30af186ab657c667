import OrderedRelay.Transport.Amqp
import OrderedRelay.Transport.Mqtt
import OrderedRelay.Transport.Redis

/-!
# Scripted brokers

A broker that records what it is asked and answers by a script: requests named there are refused or cut
off together with the connection. It passes nothing on by itself. A broker that is down answers
nothing.
-/

namespace OrderedRelay

inductive BrokerRequest where
  | redis (r : RedisRequest)
  | mqtt (r : MqttRequest)
  | amqp (r : AmqpRequest)
deriving DecidableEq, Repr

/-- How requests are answered, by their names: refused, cut off each time, or cut off once. An MQTT
session is granted if `connectCode` is 0. -/
structure Script where
  refused : List String := []
  dropped : List String := []
  droppedOnce : List String := []
  connectCode : Nat := 0
deriving DecidableEq, Repr

/-- A broker at an address, with what it has recorded, the number of queues it has named, and whether it
closes the connection that a message has just come over. -/
structure Broker where
  address : String
  up : Bool := true
  script : Script := {}
  recorded : List BrokerRequest := []
  queues : Nat := 0
  hangsUp : Bool := false
deriving DecidableEq

namespace BrokerRequest

def name : BrokerRequest → String
  | redis .connect => ""
  | redis (.subscribe _) => "SUBSCRIBE"
  | redis (.subscribeGlob _) => "PSUBSCRIBE"
  | redis (.publish _ _) => "PUBLISH"
  | mqtt (.connect _ _ _) => "CONNECT"
  | mqtt (.subscribe _ _) => "SUBSCRIBE"
  | mqtt (.unsubscribe _) => "UNSUBSCRIBE"
  | mqtt (.publish _ _ _ _) => "PUBLISH"
  | amqp .connect => "CONNECT"
  | amqp .openChannel => "CHANNEL"
  | amqp (.declareExchange _ _) => "EXCHANGE"
  | amqp (.declareQueue _ _ _) => "QUEUE"
  | amqp (.bind _ _ _) => "BIND"
  | amqp (.consume _ _ _) => "CONSUME"
  | amqp (.publish _ _ _ _ _ _) => "PUBLISH"
  | amqp (.closeChannel _ _) => "CHANNEL_CLOSE"

/-- Whether a request with this reply is recorded: over AMQP always, else unless it was cut off. What
only opens a connection or channel is not. -/
def isRecorded : BrokerRequest → Reply → Bool
  | redis .connect, _ => false
  | amqp .connect, _ => false
  | amqp .openChannel, _ => false
  | amqp _, _ => true
  | _, reply => reply ≠ .dropped

def isQueue : BrokerRequest → Bool
  | amqp (.declareQueue _ _ _) => true
  | _ => false

def isSession : BrokerRequest → Bool
  | mqtt (.connect _ _ _) => true
  | _ => false

/-- The reply that a client gets. A message over AMQP is confirmed before the broker has seen it, and a
Redis client takes for granted what is not cut off. -/
def seen : BrokerRequest → Reply → Reply
  | amqp (.publish _ _ _ _ _ _), _ => .accepted ""
  | redis (.subscribe _), .refused => .accepted ""
  | redis (.subscribeGlob _), .refused => .accepted ""
  | _, reply => reply

end BrokerRequest

def Script.reply (s : Script) (name given : String) : Script × Reply :=
  if s.droppedOnce.contains name then
    ({ s with droppedOnce := s.droppedOnce.filter (· ≠ name) }, .dropped)
  else if s.dropped.contains name then (s, .dropped)
  else if s.refused.contains name then (s, .refused)
  else (s, .accepted given)

namespace Broker

def answer (b : Broker) (r : BrokerRequest) : Broker × Reply :=
  if !b.up then (b, .dropped)
  else
    let queues := if r.isQueue then b.queues + 1 else b.queues
    let given := if r.isQueue then "q" ++ Decimal.render queues else ""
    let (script, reply) := b.script.reply r.name given
    let reply := if r.isSession && b.script.connectCode ≠ 0 && reply ≠ .dropped then .refused else reply
    let recorded := if r.isRecorded reply then b.recorded ++ [r] else b.recorded
    let hangsUp := reply = .dropped && r.seen reply ≠ .dropped
    ({ b with script, recorded, queues, hangsUp }, r.seen reply)

def authority (url : String) : String :=
  let scheme := (Text.split ':' url).headD ""
  let rest := (Text.after? (scheme ++ "://") url).getD url
  (Text.split '/' rest).headD ""

def serves (b : Broker) (url : String) : Bool := authority url == b.address

/-- Asks the broker that a URL leads to; elsewhere nobody answers. -/
def ask (bs : List Broker) (url : String) (r : BrokerRequest) : List Broker × Reply :=
  match bs with
  | [] => ([], .dropped)
  | b :: rest =>
    if b.serves url then
      let (b, reply) := b.answer r
      (b :: rest, reply)
    else
      let (rest, reply) := ask rest url r
      (b :: rest, reply)

def take (b : Broker) : Broker × List BrokerRequest := ({ b with recorded := [] }, b.recorded)

end Broker

end OrderedRelay
