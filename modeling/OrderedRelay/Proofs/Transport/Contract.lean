import OrderedRelay.Proofs.Transport.Membership
import OrderedRelay.Transport.Amqp
import OrderedRelay.Transport.Mock
import OrderedRelay.Transport.Mqtt
import OrderedRelay.Transport.Redis

/-!
# Transports of every kind as their callers see them

Five kinds of transport take the same calls: a member of a hub, the one for rehearsals, and the clients
of Redis, AMQP and MQTT brokers. Beside calls there are events: other members act, brokers change, and
connections are lost. Brokers answer requests in any way. A transport keeps entries, each a topic with
its subscriber; what arrives goes to subscribers with an entry, and a new entry is made only by a
subscribe that succeeds.
-/

namespace OrderedRelay

inductive Transport.Call (κ : Type) where
  | connect
  | disconnect
  | subscribe (topic : String) (subscriber : κ)
  | unsubscribe (topic : String)
  | unsubscribeAll

/-- A transport: its calls and what else happens to it (`ο`), and what can be seen of it. Its state is the
client (`γ`) and what that is connected to (`β`). An arrival (`ι`) is a message, or a payload from a
broker. -/
structure Transport (γ β κ ο ι : Type) where
  call : Transport.Call κ → γ × β → Effect γ β κ Unit
  event : ο → γ × β → γ × β
  isConnected : γ × β → Bool
  isSubscribed : γ × β → String → Bool
  entries : γ × β → List (String × κ)
  arrive : ι → γ × β → List (Delivery κ)

def Effect.state {γ β κ α : Type} (e : Effect γ β κ α) : γ × β := (e.client, e.line)

namespace Transport

variable {γ β κ ο ι : Type}

/-! ### The five kinds -/

/-- A call that is only a change of the client. -/
def settle (b : β) (c : γ) : Effect γ β κ Unit := { client := c, line := b, result := .ok () }

def Call.ofMember : Call κ → Hub.Call κ
  | connect => .connect
  | disconnect => .disconnect
  | subscribe topic subscriber => .subscribe topic subscriber
  | unsubscribe topic => .unsubscribe topic
  | unsubscribeAll => .unsubscribeAll

/-- A member of a hub. The events are the steps of others. -/
def member (owner : Nat) : Transport Unit (Medium κ) κ
    {step : Hub.Step κ // ∀ c, step ≠ .call owner c} (String × Message) where
  call c s := (c.ofMember.run s.2 owner).mapClient fun _ => ()
  event step s := ((), step.1.after s.2)
  isConnected s := s.2.hub.isConnected owner
  isSubscribed s := s.2.hub.isSubscribed owner
  entries s := (s.2.hub.ownedBy owner).map fun x => (x.pattern, x.subscriber)
  arrive i s := { s.2.hub with subscriptions := s.2.hub.ownedBy owner }.deliveries i.1 i.2

/-- The transport for rehearsals. The events set whether it fails to publish or subscribe, and its
delay. -/
def mock : Transport (Mock κ) β κ (Bool × Bool × Option Nat)
    (String × Except TransportError Message) where
  call
    | .connect, (c, b) => settle b c.connect
    | .disconnect, (c, b) => settle b c.disconnect
    | .subscribe topic k, (c, b) =>
      { client := (c.subscribe topic k).1, line := b, result := (c.subscribe topic k).2 }
    | .unsubscribe topic, (c, b) =>
      { client := (c.unsubscribe topic).1, line := b, result := (c.unsubscribe topic).2 }
    | .unsubscribeAll, (c, b) => settle b c.unsubscribeAll
  event o s := ({ s.1 with failsPublish := o.1, failsSubscribe := o.2.1, delay := o.2.2 }, s.2)
  isConnected s := s.1.connected
  isSubscribed s t := s.1.subscriptions.has t
  entries s := s.1.subscriptions
  arrive i s := s.1.deliver i.1 i.2

/-- What happens to a client of brokers. -/
inductive Event (β : Type) where
  /-- The brokers change. -/
  | change (b : β)
  /-- The connection is lost. -/
  | loss

def redis (ask : Ask β RedisRequest) : Transport (Redis κ) β κ (Event β)
    (String × String × List UInt8) where
  call
    | .connect, (c, b) => c.connect ask b
    | .disconnect, (c, b) => settle b c.disconnect
    | .subscribe topic k, (c, b) => c.subscribe ask b topic k
    | .unsubscribe topic, (c, b) => settle b (c.unsubscribe topic)
    | .unsubscribeAll, (c, b) => settle b c.unsubscribeAll
  event
    | .change b, (c, _) => (c, b)
    | .loss, (c, b) => (c.lose.1, b)
  isConnected s := s.1.isConnected
  isSubscribed s t := s.1.subscriptions.has t
  entries s := s.1.subscriptions.mapValues RedisSubscription.subscriber
  arrive i s := s.1.arrive i.1 i.2.1 i.2.2

/-- What happens to a client of AMQP brokers. -/
inductive AmqpEvent (β κ : Type) where
  | any (e : Event β)
  /-- The broker ends some consumers. -/
  | ended (chosen : AmqpConsumer κ → Bool) (reason : String) (channelWorks : Bool)

def amqp (ask : Ask β AmqpRequest) : Transport (Amqp κ) β κ (AmqpEvent β κ)
    (String × String × List UInt8) where
  call
    | .connect, (c, b) => c.connect ask b
    | .disconnect, (c, b) => settle (c.disconnect ask b).2 (c.disconnect ask b).1
    | .subscribe topic k, (c, b) => c.subscribe ask b topic k
    | .unsubscribe topic, (c, b) => settle (c.unsubscribe ask b topic).2 (c.unsubscribe ask b topic).1
    | .unsubscribeAll, (c, b) => settle (c.unsubscribeAll ask b).2 (c.unsubscribeAll ask b).1
  event
    | .any (.change b), (c, _) => (c, b)
    | .any .loss, (c, b) => (c.lose.1, b)
    | .ended chosen reason works, (c, b) => ((c.endConsumers chosen reason works).1, b)
  isConnected s := s.1.isConnected
  isSubscribed s t := s.1.subscriptions.has t
  entries s := s.1.subscriptions.mapValues AmqpConsumer.subscriber
  arrive i s := s.1.arrive i.1 i.2.1 i.2.2

def mqtt (ask : Ask β MqttRequest) : Transport (Mqtt κ) β κ (Event β) (String × List UInt8) where
  call
    | .connect, (c, b) => c.connect ask b
    | .disconnect, (c, b) => settle b c.disconnect
    | .subscribe topic k, (c, b) => c.subscribe ask b topic k
    | .unsubscribe topic, (c, b) => c.unsubscribe ask b topic
    | .unsubscribeAll, (c, b) => c.unsubscribeAll ask b
  event
    | .change b, (c, _) => (c, b)
    | .loss, (c, b) => (c.lose.1, b)
  isConnected s := s.1.connected
  isSubscribed s t := s.1.subscriptions.has t
  entries s := s.1.subscriptions
  arrive i s := s.1.arrive i.1 i.2

/-! ### Runs -/

inductive Step (κ ο : Type) where
  | call (c : Call κ)
  | event (o : ο)

def step (T : Transport γ β κ ο ι) (s : γ × β) : Step κ ο → γ × β
  | .call c => (T.call c s).state
  | .event o => T.event o s

/-- The entry that a step makes: that of a subscribe that succeeds. -/
def made (T : Transport γ β κ ο ι) (s : γ × β) : Step κ ο → List (String × κ)
  | .call (.subscribe topic k) =>
    match (T.call (.subscribe topic k) s).result with
    | .ok () => [(topic, k)]
    | .error _ => []
  | _ => []

def after (T : Transport γ β κ ο ι) (s : γ × β) (steps : List (Step κ ο)) : γ × β :=
  steps.foldl T.step s

def madeIn (T : Transport γ β κ ο ι) : γ × β → List (Step κ ο) → List (String × κ)
  | _, [] => []
  | s, st :: later => T.made s st ++ madeIn T (T.step s st) later

/-- The steps keep `valid` states valid. The entries tell what callers can see, and what each call and
each event may make of them. -/
structure Lawful (T : Transport γ β κ ο ι) (valid : γ × β → Prop) : Prop where
  valid_step : ∀ s st, valid s → valid (T.step s st)
  subscribed : ∀ s t, T.isSubscribed s t = true ↔ ∃ k, (t, k) ∈ T.entries s
  told : ∀ s i, ∀ d ∈ T.arrive i s, ∃ t, (t, d.subscriber) ∈ T.entries s
  connect : ∀ s, T.entries (T.call .connect s).state = T.entries s
  disconnect : ∀ s, valid s → T.entries (T.call .disconnect s).state = []
  subscribe : ∀ s topic k, ∀ x ∈ T.entries (T.call (.subscribe topic k) s).state,
    x ∈ T.entries s ∨ (x = (topic, k) ∧ (T.call (.subscribe topic k) s).result = .ok ())
  unsubscribe : ∀ s topic, T.entries (T.call (.unsubscribe topic) s).state ⊆ T.entries s
  unsubscribeAll : ∀ s, T.entries (T.call .unsubscribeAll s).state ⊆ T.entries s
  event : ∀ s o, valid s → T.entries (T.event o s) ⊆ T.entries s
  refused : ∀ s topic k, T.isConnected s = false →
    (T.call (.subscribe topic k) s).result ≠ .ok ()

section

variable {T : Transport γ β κ ο ι} {valid : γ × β → Prop} {s : γ × β}

theorem Lawful.valid_after (hT : T.Lawful valid) (hs : valid s) (steps : List (Step κ ο)) :
    valid (T.after s steps) := by
  induction steps generalizing s with
  | nil => exact hs
  | cons st later ih => exact ih (hT.valid_step s st hs)

theorem Lawful.entries_step (hT : T.Lawful valid) (hs : valid s) (st : Step κ ο) :
    T.entries (T.step s st) ⊆ T.entries s ++ T.made s st := by
  intro x hx
  cases st with
  | call c =>
    cases c with
    | connect => exact List.mem_append_left _ (hT.connect s ▸ hx)
    | disconnect =>
      have hnone : T.entries (T.step s (.call .disconnect)) = [] := hT.disconnect s hs
      rw [hnone] at hx
      cases hx
    | subscribe topic k =>
      rcases hT.subscribe s topic k x hx with hold | ⟨rfl, hok⟩
      · exact List.mem_append_left _ hold
      · exact List.mem_append_right _ (by simp [made, hok])
    | unsubscribe topic => exact List.mem_append_left _ (hT.unsubscribe s topic hx)
    | unsubscribeAll => exact List.mem_append_left _ (hT.unsubscribeAll s hx)
  | event o => exact List.mem_append_left _ (hT.event s o hs hx)

theorem Lawful.entries_after (hT : T.Lawful valid) (hs : valid s) (steps : List (Step κ ο)) :
    T.entries (T.after s steps) ⊆ T.entries s ++ T.madeIn s steps := by
  induction steps generalizing s with
  | nil => exact List.subset_append_left _ _
  | cons st later ih =>
    intro x hx
    rcases List.mem_append.mp (ih (hT.valid_step s st hs) hx) with hstep | hlater
    · rcases List.mem_append.mp (hT.entries_step hs st hstep) with hold | hmade
      · exact List.mem_append_left _ hold
      · exact List.mem_append_right _ (List.mem_append_left _ hmade)
    · exact List.mem_append_right _ (List.mem_append_right _ hlater)

end

end Transport

end OrderedRelay
