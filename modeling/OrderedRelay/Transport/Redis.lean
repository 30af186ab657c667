import OrderedRelay.Topic.Glob
import OrderedRelay.Transport.Effect

/-!
# Redis

One connection serves for publishing, and each subscription has its own. A pattern is subscribed to by
its glob, which may match more, so what arrives is matched again. A lost connection is noticed by its
subscriber alone: the client stays connected and keeps the subscription in its table until it is told
to end it, and it cannot publish any more.
-/

namespace OrderedRelay

inductive RedisRequest where
  | connect
  | subscribe (channel : String)
  | subscribeGlob (glob : String)
  | publish (channel : String) (payload : String)
deriving DecidableEq, Repr

/-- A subscription and whether its connection is alive. -/
structure RedisSubscription (κ : Type) where
  subscriber : κ
  alive : Bool := true
deriving DecidableEq

/-- The server in use and whether the connection for publishing is alive. -/
structure RedisSession where
  url : String
  alive : Bool := true
deriving DecidableEq

structure Redis (κ : Type) where
  urls : List String
  session : Option RedisSession := none
  subscriptions : Table (RedisSubscription κ) := []
deriving DecidableEq

namespace Redis

variable {β κ : Type}

def isConnected (c : Redis κ) : Bool := c.session.isSome

def brokerUrl (c : Redis κ) : String :=
  match c.session with
  | some s => s.url
  | none => c.urls.headD ""

def dial (ask : Ask β RedisRequest) (c : Redis κ) (b : β) (url : String) :
    Effect (Redis κ) β κ Unit :=
  if (Text.after? "redis://" url).isNone then
    { client := c, line := b
      result := .error (.connection ("Invalid Redis URL '" ++ url ++ "': " ++ undisclosed)) }
  else
    match ask b url .connect with
    | (b, .accepted _) => { client := c, line := b, result := .ok () }
    | (b, _) =>
      { client := c, line := b
        result := .error (.connection ("Failed to connect to " ++ url ++ ": " ++ undisclosed)) }

def connect (ask : Ask β RedisRequest) (c : Redis κ) (b : β) : Effect (Redis κ) β κ Unit :=
  if c.isConnected then { client := c, line := b, result := .ok () }
  else
    (openFirst (dial ask) c.urls (.connection "No Redis URLs configured") c b).andThen
      fun c b url => { client := { c with session := some ⟨url, true⟩ }, line := b, result := .ok () }

def disconnect (c : Redis κ) : Redis κ := { c with session := none, subscriptions := [] }

def subscription (topic : String) : RedisRequest :=
  if Topic.isPattern topic then .subscribeGlob (Glob.ofPattern topic) else .subscribe topic

/-- Subscribes over a new connection, which takes the place of the one the topic had. -/
def subscribe (ask : Ask β RedisRequest) (c : Redis κ) (b : β) (topic : String) (subscriber : κ) :
    Effect (Redis κ) β κ Unit :=
  let failed (b : β) : Effect (Redis κ) β κ Unit :=
    { client := c, line := b, result := .error (.subscribe topic undisclosed) }
  match c.session with
  | none => { client := c, line := b, result := .error .notConnected }
  | some s =>
    match ask b s.url .connect with
    | (b, .accepted _) =>
      match ask b s.url (subscription topic) with
      | (b, .accepted _) =>
        { client := { c with subscriptions := c.subscriptions.insert topic ⟨subscriber, true⟩ }
          line := b, result := .ok () }
      | (b, _) => failed b
    | (b, _) => failed b

def unsubscribe (c : Redis κ) (topic : String) : Redis κ :=
  { c with subscriptions := c.subscriptions.erase topic }

def unsubscribeAll (c : Redis κ) : Redis κ := { c with subscriptions := [] }

def publish (ask : Ask β RedisRequest) (c : Redis κ) (b : β) (p : Publication) :
    Effect (Redis κ) β κ Unit :=
  let failure := TransportError.publish p.topic undisclosed
  match c.session with
  | none => { client := c, line := b, result := .error .notConnected }
  | some ⟨_, false⟩ => { client := c, line := b, result := .error failure }
  | some ⟨url, true⟩ =>
    match ask b url (.publish p.topic (Envelope.encode p.message)) with
    | (b, .accepted _) => { client := c, line := b, result := .ok () }
    | (b, .dropped) =>
      { client := { c with session := some ⟨url, false⟩ }, line := b, result := .error failure }
    | (b, _) => { client := c, line := b, result := .error failure }

def lossReport (topic : String) (subscriber : κ) : Delivery κ :=
  ⟨subscriber, topic,
    .error (.delivery ("Redis subscription to '" ++ topic ++ "' lost its connection"))⟩

/-- Loses every connection; the live subscriptions are told. -/
def lose (c : Redis κ) : Redis κ × List (Delivery κ) :=
  ({ c with
      session := c.session.map fun s => { s with alive := false }
      subscriptions := c.subscriptions.mapValues fun s => { s with alive := false } },
    (c.subscriptions.filter fun entry => entry.2.alive).map fun entry =>
      lossReport entry.1 entry.2.subscriber)

def reached (c : Redis κ) (name : String) : Table (RedisSubscription κ) :=
  c.subscriptions.filter fun entry =>
    entry.2.alive && (subscription entry.1 == .subscribe name ||
      subscription entry.1 == .subscribeGlob name)

def arrive (c : Redis κ) (name topic : String) (payload : List UInt8) : List (Delivery κ) :=
  ((c.reached name).filter fun entry => Topic.isMatch entry.1 topic).map fun entry =>
    ⟨entry.2.subscriber, topic, arrival topic payload⟩

end Redis

end OrderedRelay
