import OrderedRelay.Text.Decimal
import OrderedRelay.Topic.Pattern
import OrderedRelay.Transport.Acks
import OrderedRelay.Transport.Effect

/-!
# MQTT

One connection serves for everything, and topics and patterns go to the broker as they are. What
arrives is matched against the client's own table. When the connection is lost, every subscription in
the table is told and stays there: a later connect starts a new session at the broker and subscribes
to nothing.
-/

namespace OrderedRelay

inductive MqttRequest where
  | connect (clientId : String) (keepAlive : Nat) (cleanSession : Bool)
  | subscribe (filter : String) (quality : Quality)
  | unsubscribe (filter : String)
  | publish (topic : String) (quality : Quality) (retain : Bool) (payload : String)
deriving DecidableEq, Repr

structure MqttEndpoint where
  host : String
  port : Nat
deriving DecidableEq, Repr

namespace MqttEndpoint

def splitLast (c : Char) (cs : List Char) : Option (List Char × List Char) :=
  if cs.contains c then
    let after := (cs.reverse.takeWhile (· ≠ c)).reverse
    some (cs.take (cs.length - after.length - 1), after)
  else none

def afterScheme? (url : String) : Option String :=
  (Text.after? "mqtt://" url).or (Text.after? "tcp://" url)

/-- The address in a URL: a scheme, a host, and a port unless it is the usual one. Slashes at the end do
not count. -/
def parse (url : String) : Except TransportError MqttEndpoint :=
  match afterScheme? url with
  | none => .error (.connection ("Unsupported MQTT URL scheme: " ++ url))
  | some rest =>
    let cs := (rest.toList.reverse.dropWhile (· == '/')).reverse
    let address : Option MqttEndpoint := match splitLast ':' cs with
      | none => some ⟨String.ofList cs, 1883⟩
      | some (host, port) =>
        (Decimal.parse? 0x10000 (String.ofList port)).map fun n => ⟨String.ofList host, n⟩
    match address with
    | none => .error (.connection ("Invalid port in MQTT URL: " ++ url))
    | some e => if e.host = "" then .error (.connection ("Missing host in MQTT URL: " ++ url)) else .ok e

end MqttEndpoint

/-- An MQTT client; `session` is the address of the session it began, if any, and `lastUrl` that of the
last one that was granted. -/
structure Mqtt (κ : Type) where
  urls : List String
  clientId : String
  keepAlive : Nat
  session : Option String := none
  connected : Bool := false
  lastUrl : Option String := none
  subscriptions : Table κ := []
  acks : Acks := {}
deriving DecidableEq

namespace Mqtt

variable {β κ : Type}

def checkUrls : List String → Except TransportError Unit
  | [] => .ok ()
  | url :: rest =>
    match MqttEndpoint.parse url with
    | .ok _ => checkUrls rest
    | .error e => .error e

def create (urls : List String) (clientId : String) (keepAlive : Nat) :
    Except TransportError (Mqtt κ) :=
  match checkUrls urls with
  | .ok () => .ok { urls, clientId, keepAlive }
  | .error e => .error e

def brokerUrl (c : Mqtt κ) : String := c.lastUrl.getD (c.urls.headD "")

def dial (ask : Ask β MqttRequest) (c : Mqtt κ) (b : β) (url : String) : Effect (Mqtt κ) β κ Unit :=
  match ask b url (.connect c.clientId c.keepAlive true) with
  | (b, .accepted _) => { client := c, line := b, result := .ok () }
  | (b, _) =>
    { client := { c with acks := c.acks.fail }, line := b
      result := .error (.connection ("Failed to connect to " ++ url ++ ": " ++ undisclosed)) }

def connect (ask : Ask β MqttRequest) (c : Mqtt κ) (b : β) : Effect (Mqtt κ) β κ Unit :=
  if c.connected then { client := c, line := b, result := .ok () }
  else
    (openFirst (dial ask) c.urls (.connection "No MQTT URLs configured")
        { c with session := none } b).andThen
      fun c b url =>
        { client := { c with session := some url, connected := true, lastUrl := some url }
          line := b, result := .ok () }

def disconnect (c : Mqtt κ) : Mqtt κ :=
  { c with session := none, connected := false, subscriptions := [], acks := c.acks.fail }

def lossReport (topic : String) (subscriber : κ) : Delivery κ :=
  ⟨subscriber, topic, .error (.delivery ("MQTT connection lost: " ++ undisclosed))⟩

/-- Loses the connection: the subscriptions stay in the table and are told. -/
def lose (c : Mqtt κ) : Mqtt κ × List (Delivery κ) :=
  ({ c with connected := false, acks := c.acks.fail },
    c.subscriptions.map fun entry => lossReport entry.1 entry.2)

/-- Why a request is not acknowledged when the connection is lost first. -/
def closedEarly : String := "Connection closed before acknowledgement"

def live? (c : Mqtt κ) : Option String := if c.connected then c.session else none

def forget (c : Mqtt κ) (topic : String) : Mqtt κ :=
  { c with subscriptions := c.subscriptions.erase topic }

/-- Subscribes and waits for the acknowledgement. The subscription is in the table before the request
goes out, and is taken out again if the request fails. -/
def subscribe (ask : Ask β MqttRequest) (c : Mqtt κ) (b : β) (topic : String) (subscriber : κ) :
    Effect (Mqtt κ) β κ Unit :=
  match c.live? with
  | none => { client := c, line := b, result := .error .notConnected }
  | some url =>
    let waiting : Mqtt κ :=
      { c with subscriptions := c.subscriptions.insert topic subscriber
               acks := c.acks.send .subscribe }
    let acked : Mqtt κ := { waiting with acks := (waiting.acks.ack .subscribe).1 }
    match ask b url (.subscribe topic .atLeastOnce) with
    | (b, .accepted _) => { client := acked, line := b, result := .ok () }
    | (b, .refused) =>
      { client := acked.forget topic, line := b
        result := .error (.subscribe topic "Broker rejected subscription") }
    | (b, .dropped) =>
      let (lost, told) := waiting.lose
      { client := lost.forget topic, line := b, told
        result := .error (.subscribe topic closedEarly) }
    | (b, .unsent) =>
      let idle : Mqtt κ := { waiting with acks := waiting.acks.unsend .subscribe }
      { client := idle.forget topic, line := b, result := .error (.subscribe topic undisclosed) }

def unsubscribe (ask : Ask β MqttRequest) (c : Mqtt κ) (b : β) (topic : String) :
    Effect (Mqtt κ) β κ Unit :=
  match c.live? with
  | none => { client := c, line := b, result := .error .notConnected }
  | some url =>
    if !c.subscriptions.has topic then { client := c, line := b, result := .ok () }
    else
      let waiting : Mqtt κ := { c.forget topic with acks := c.acks.send .unsubscribe }
      match ask b url (.unsubscribe topic) with
      | (b, .dropped) =>
        let (lost, told) := waiting.lose
        { client := lost, line := b, told, result := .error (.unsubscribe topic closedEarly) }
      | (b, .unsent) =>
        { client := { waiting with acks := waiting.acks.unsend .unsubscribe }, line := b
          result := .error (.unsubscribe topic undisclosed) }
      | (b, _) =>
        { client := { waiting with acks := (waiting.acks.ack .unsubscribe).1 }, line := b
          result := .ok () }

def unsubscribeEach (ask : Ask β MqttRequest) :
    List String → Mqtt κ → β → Effect (Mqtt κ) β κ Unit
  | [], c, b => { client := c, line := b, result := .ok () }
  | topic :: rest, c, b =>
    (unsubscribe ask c b topic).andThen fun c b () => unsubscribeEach ask rest c b

def unsubscribeAll (ask : Ask β MqttRequest) (c : Mqtt κ) (b : β) : Effect (Mqtt κ) β κ Unit :=
  unsubscribeEach ask c.subscriptions.keys c b

def isPublishable (topic : String) : Bool := topic.toList.all fun c => c ≠ '+' && c ≠ '#'

/-- Hands the envelope of a message over to the connection. It is not known whether it arrives. -/
def publish (ask : Ask β MqttRequest) (c : Mqtt κ) (b : β) (p : Publication) :
    Effect (Mqtt κ) β κ Unit :=
  match c.live? with
  | none => { client := c, line := b, result := .error .notConnected }
  | some url =>
    if !isPublishable p.topic then
      { client := c, line := b, result := .error (.publish p.topic undisclosed) }
    else
      match ask b url (.publish p.topic p.options.quality false (Envelope.encode p.message)) with
      | (b, .dropped) =>
        let (lost, told) := c.lose
        { client := lost, line := b, told, result := .ok () }
      | (b, .unsent) =>
        { client := c, line := b, result := .error (.publish p.topic undisclosed) }
      | (b, _) => { client := c, line := b, result := .ok () }

def arrive (c : Mqtt κ) (topic : String) (payload : List UInt8) : List (Delivery κ) :=
  (c.subscriptions.filter fun entry => Topic.isMatch entry.1 topic).map fun entry =>
    ⟨entry.2, topic, arrival topic payload⟩

end Mqtt

end OrderedRelay
