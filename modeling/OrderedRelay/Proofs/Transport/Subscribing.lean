import OrderedRelay.Network.Link
import OrderedRelay.Proofs.Table
import OrderedRelay.Proofs.Transport.Hub

/-!
# What subscribing changes

A subscribe that succeeds adds its topic to those that a transport is subscribed to, and one that fails
leaves all others as they were; except over MQTT it leaves its own as it was as well. On the way
subscribers are told of losses at most.
-/

namespace OrderedRelay

/-! ### Losses that are told -/

/-- Only losses are told. -/
def AllLosses {κ : Type} (ds : List (Delivery κ)) : Prop :=
  ∀ d ∈ ds, ∃ reason, d.content = .error (.delivery reason)

theorem AllLosses.nil {κ : Type} : AllLosses ([] : List (Delivery κ)) := nofun

theorem AllLosses.append {κ : Type} {xs ys : List (Delivery κ)} (hxs : AllLosses xs)
    (hys : AllLosses ys) : AllLosses (xs ++ ys) :=
  fun d hd => (List.mem_append.mp hd).elim (hxs d) (hys d)

theorem Effect.losses_andThen {γ β κ α ε : Type} {e : Effect γ β κ α}
    {next : γ → β → α → Effect γ β κ ε} (h : AllLosses e.told)
    (hnext : ∀ c b a, AllLosses (next c b a).told) : AllLosses (e.andThen next).told := by
  unfold Effect.andThen
  split
  · exact h.append (hnext _ _ _)
  · exact h

/-! ### AMQP -/

namespace Amqp

variable {β κ α ε : Type} {c : Amqp κ} {b : β}

/-- The table has the topics it had, whatever became of their consumers. -/
structure KeepsTopics (c : Amqp κ) (e : Effect (Amqp κ) β κ α) : Prop where
  topics : ∀ t, e.client.subscriptions.has t = c.subscriptions.has t
  losses : AllLosses e.told

theorem KeepsTopics.andThen {e : Effect (Amqp κ) β κ α}
    {next : Amqp κ → β → α → Effect (Amqp κ) β κ ε} (h : KeepsTopics c e)
    (hnext : ∀ c b a, KeepsTopics c (next c b a)) : KeepsTopics c (e.andThen next) where
  topics := by
    unfold Effect.andThen
    split
    · exact fun t => ((hnext _ _ _).topics t).trans (h.topics t)
    · exact h.topics
  losses := Effect.losses_andThen h.losses fun c b a => (hnext c b a).losses

theorem has_lose (c : Amqp κ) (t : String) :
    c.lose.1.subscriptions.has t = c.subscriptions.has t := by
  unfold lose endConsumers
  rw [Table.has_mapValues, Table.has_mapValues]

theorem keepsTopics_request (ask : Ask β AmqpRequest) (c : Amqp κ) (b : β) (url : String)
    (r : AmqpRequest) (failure : TransportError) : KeepsTopics c (request ask c b url r failure) := by
  unfold request
  split
  · exact ⟨fun _ => rfl, .nil⟩
  · refine ⟨c.has_lose, fun d hd => ?_⟩
    obtain ⟨entry, -, rfl⟩ := List.mem_map.mp hd
    exact ⟨_, rfl⟩
  · exact ⟨fun _ => rfl, .nil⟩

theorem keepsTopics_link (ask : Ask β AmqpRequest) (c : Amqp κ) (b : β) (url : String) :
    KeepsTopics c (link ask c b url) := by
  unfold link
  split_ifs
  · exact ⟨fun _ => rfl, .nil⟩
  · split <;> exact ⟨fun _ => rfl, .nil⟩

theorem keepsTopics_channel (ask : Ask β AmqpRequest) (c : Amqp κ) (b : β) (url : String) :
    KeepsTopics c (channel ask c b url) :=
  (keepsTopics_link ask c b url).andThen fun c b _ => keepsTopics_request ask c b url _ _

theorem keepsTopics_consumer (ask : Ask β AmqpRequest) (c : Amqp κ) (b : β) (url key : String) :
    KeepsTopics c (consumer ask c b url key) := by
  unfold consumer
  dsimp only
  refine (keepsTopics_channel ask c b url).andThen fun c b _ => ?_
  refine (keepsTopics_request ask c b url _ _).andThen fun c b queue => ?_
  refine (keepsTopics_request ask c b url _ _).andThen fun c b _ => ?_
  exact keepsTopics_request ask c b url _ _

end Amqp

/-! ### Every kind of transport -/

/-- A subscribe adds its topic or fails, and one that fails may forget what it had for its own topic. The
topics are told by `has`. -/
structure Subscribes {γ β κ : Type} (has : γ → β → String → Bool) (c : γ) (b : β) (topic : String)
    (forgets : Bool) (e : Effect γ β κ Unit) : Prop where
  added : e.result = .ok () → ∀ t, has e.client e.line t = (decide (t = topic) || has c b t)
  kept : e.result ≠ .ok () → ∀ t, (t = topic → forgets = false) → has e.client e.line t = has c b t
  losses : AllLosses e.told

section

variable {γ β κ : Type} {has : γ → β → String → Bool} {c : γ} {b : β} {topic : String}
  {forgets : Bool} {e : Effect γ β κ Unit}

theorem subscribes_of_error {failure : TransportError} (hresult : e.result = .error failure)
    (hkept : ∀ t, (t = topic → forgets = false) → has e.client e.line t = has c b t)
    (hlosses : AllLosses e.told) : Subscribes has c b topic forgets e where
  added := fun hok => by
    rw [hresult] at hok
    cases hok
  kept := fun _ => hkept
  losses := hlosses

theorem subscribes_of_ok (hresult : e.result = .ok ())
    (hadded : ∀ t, has e.client e.line t = (decide (t = topic) || has c b t))
    (hlosses : AllLosses e.told) : Subscribes has c b topic forgets e where
  added := fun _ => hadded
  kept := fun hnot => absurd hresult hnot
  losses := hlosses

end

section

variable {β κ : Type}

theorem Redis.subscribes_subscribe (ask : Ask β RedisRequest) (c : Redis κ) (b : β) (topic : String)
    (subscriber : κ) : Subscribes (fun c _ t => c.subscriptions.has t) c b topic false
      (c.subscribe ask b topic subscriber) := by
  unfold subscribe
  split
  · exact subscribes_of_error rfl (fun _ _ => rfl) .nil
  · split
    · split
      · exact subscribes_of_ok rfl (fun t => Table.has_insert ..) .nil
      · exact subscribes_of_error rfl (fun _ _ => rfl) .nil
    · exact subscribes_of_error rfl (fun _ _ => rfl) .nil

theorem Mqtt.subscribes_subscribe (ask : Ask β MqttRequest) (c : Mqtt κ) (b : β) (topic : String)
    (subscriber : κ) : Subscribes (fun c _ t => c.subscriptions.has t) c b topic true
      (c.subscribe ask b topic subscriber) := by
  -- A failed subscribe takes out what it has put in, and with it what was there before.
  have hforgotten : ∀ t, (t = topic → true = false) →
      ((c.subscriptions.insert topic subscriber).erase topic).has t = c.subscriptions.has t := by
    intro t ht
    have hne : t ≠ topic := fun h => Bool.noConfusion (ht h)
    rw [Table.has_erase_of_ne hne, Table.has_insert, decide_eq_false hne, Bool.false_or]
  unfold subscribe
  split
  · exact subscribes_of_error rfl (fun _ _ => rfl) .nil
  · dsimp only
    split
    · exact subscribes_of_ok rfl (fun t => Table.has_insert ..) .nil
    · exact subscribes_of_error rfl hforgotten .nil
    · refine subscribes_of_error rfl hforgotten fun d hd => ?_
      obtain ⟨entry, -, rfl⟩ := List.mem_map.mp hd
      exact ⟨_, rfl⟩
    · exact subscribes_of_error rfl hforgotten .nil

theorem Amqp.subscribes_subscribe (ask : Ask β AmqpRequest) (c : Amqp κ) (b : β) (topic : String)
    (subscriber : κ) : Subscribes (fun c _ t => c.subscriptions.has t) c b topic false
      (c.subscribe ask b topic subscriber) := by
  unfold subscribe
  split
  · exact subscribes_of_error rfl (fun _ _ => rfl) .nil
  · rename_i url _
    have hkept := keepsTopics_consumer ask c b url (RoutingKey.ofTopic topic)
    dsimp only
    unfold Effect.andThen
    split
    · refine subscribes_of_ok rfl (fun t => ?_) ?_
      · rw [← hkept.topics]
        exact Table.has_insert ..
      · exact hkept.losses.append .nil
    · exact subscribes_of_error rfl (fun t _ => hkept.topics t) hkept.losses

end

namespace Carrier

variable {κ γ : Type}

/-- Of the kind whose failed subscribe forgets its topic. -/
def isMqtt : Carrier κ → Bool
  | mqtt _ => true
  | _ => false

theorem subscribes_atBrokers {has : γ → List Broker → String → Bool} {wrap : γ → Carrier κ} {c : γ}
    {m : Medium κ} {topic : String} {forgets : Bool} {e : Effect γ (List Broker) κ Unit}
    (h : Subscribes has c m.brokers topic forgets e)
    (hwrap : ∀ c (m : Medium κ) t, (wrap c).isSubscribed m t = has c m.brokers t) :
    Subscribes (fun c m t => c.isSubscribed m t) (wrap c) m topic forgets (atBrokers wrap m e) where
  added := fun hok t => by
    rw [hwrap]
    exact (hwrap ..).trans (h.added hok t)
  kept := fun hnot t ht => by
    rw [hwrap]
    exact (hwrap ..).trans (h.kept hnot t ht)
  losses := h.losses

theorem subscribes_subscribe (c : Carrier κ) (m : Medium κ) (topic : String) (subscriber : κ) :
    Subscribes (fun c m t => c.isSubscribed m t) c m topic c.isMqtt
      (c.subscribe m topic subscriber) := by
  cases c with
  | channel owner =>
    by_cases hconnected : m.hub.isConnected owner = true
    · have hresult : (m.hub.subscribe owner topic subscriber).2 = .ok () := by
        rw [Hub.subscribe, if_pos hconnected]
      exact subscribes_of_ok hresult
        (fun t => Hub.isSubscribed_subscribe hconnected topic t subscriber) .nil
    · have hrefused : m.hub.subscribe owner topic subscriber = (m.hub, .error .notConnected) := by
        rw [Hub.subscribe, if_neg hconnected]
      simp only [subscribe, hrefused]
      exact subscribes_of_error rfl (fun _ _ => rfl) .nil
  | mock mk =>
    simp only [subscribe, Mock.subscribe]
    split_ifs
    · exact subscribes_of_error rfl (fun _ _ => rfl) .nil
    · exact subscribes_of_error rfl (fun _ _ => rfl) .nil
    · exact subscribes_of_ok rfl (fun t => Table.has_insert ..) .nil
  | redis c => exact subscribes_atBrokers (c.subscribes_subscribe ..) fun _ _ _ => rfl
  | mqtt c => exact subscribes_atBrokers (c.subscribes_subscribe ..) fun _ _ _ => rfl
  | amqp c => exact subscribes_atBrokers (c.subscribes_subscribe ..) fun _ _ _ => rfl

theorem isMqtt_subscribe (c : Carrier κ) (m : Medium κ) (topic : String) (subscriber : κ) :
    (c.subscribe m topic subscriber).client.isMqtt = c.isMqtt := by
  cases c <;> rfl

end Carrier

end OrderedRelay
