import OrderedRelay.Proofs.Network.Deliveries
import OrderedRelay.Proofs.Transport.Hub

/-!
# The subscriptions of a relay

A relay makes its subscriptions on the hub by reading a stream and by subscribing to signals. So each of
them is for a pattern of the stream that it feeds. A relay that has started to read messages over a link
of the hub is subscribed to its own slot.
-/

namespace OrderedRelay

/-- The patterns to which an instance subscribes for a stream. -/
def Identity.Feeds (i : Identity) (pattern : String) : Stream → Prop
  | .messages => pattern = i.ownSlotTopic ∨ pattern = i.globalSlotsTopic ∨
      ∃ producer name, pattern = i.signalTopic producer name
  | .heartbeats => pattern = i.heartbeatPattern
  | .logs => pattern = i.logTopic

theorem Relay.feeds_of_mem_topics {r : Relay} {topic : String} {stream : Stream}
    (h : topic ∈ r.topics stream) : r.identity.Feeds topic stream := by
  cases stream with
  | messages =>
    rcases List.mem_cons.mp h with rfl | h
    · exact Or.inl rfl
    · split_ifs at h with hbroadcasts
      · exact Or.inr (Or.inl (List.mem_singleton.mp h))
      · cases h
  | heartbeats => exact List.mem_singleton.mp h
  | logs => exact List.mem_singleton.mp h

/-! ### Subscribing -/

/-- Some subscription for a pattern reports to a subscriber. -/
def Hub.Has (h : Hub Subscriber) (pattern : String) (subscriber : Subscriber) : Prop :=
  ∃ x ∈ h.subscriptions, x.pattern = pattern ∧ x.subscriber = subscriber

theorem Hub.has_subscribe {h h' : Hub Subscriber} {owner : Nat} {pattern : String}
    {subscriber : Subscriber} (hsubscribe : h.subscribe owner pattern subscriber = (h', .ok ())) :
    h'.Has pattern subscriber := by
  unfold subscribe at hsubscribe
  split_ifs at hsubscribe
  · obtain ⟨rfl, -⟩ := Prod.mk.inj hsubscribe
    exact ⟨⟨owner, pattern, subscriber⟩, List.mem_append_right _ (List.mem_singleton_self _),
      rfl, rfl⟩
  · cases hsubscribe

theorem Hub.Has.subscribe {h h' : Hub Subscriber} {owner : Nat} {pattern topic : String}
    {subscriber : Subscriber} {result : Except TransportError Unit} (hhas : h.Has pattern subscriber)
    (hsubscribe : h.subscribe owner topic subscriber = (h', result)) :
    h'.Has pattern subscriber := by
  obtain ⟨x, hx, hpattern, hsubscriber⟩ := hhas
  unfold Hub.subscribe at hsubscribe
  split_ifs at hsubscribe
  · obtain ⟨rfl, -⟩ := Prod.mk.inj hsubscribe
    -- A subscription that is replaced is for the same pattern, and so is the one in its place.
    by_cases hfor : Hub.isFor owner topic x = true
    · have htopic : topic = pattern := by
        simp only [Hub.isFor, Bool.and_eq_true, beq_iff_eq] at hfor
        rw [← hpattern, hfor.2]
      exact ⟨⟨owner, topic, subscriber⟩, List.mem_append_right _ (List.mem_singleton_self _),
        htopic, rfl⟩
    · refine ⟨x, List.mem_append_left _ (List.mem_filter.mpr ⟨hx, ?_⟩), hpattern, hsubscriber⟩
      simpa using hfor
  · obtain ⟨rfl, -⟩ := Prod.mk.inj hsubscribe
    exact ⟨x, hx, hpattern, hsubscriber⟩

theorem Carrier.mem_subscribe {c : Carrier Subscriber} {m : Medium Subscriber} {topic : String}
    {subscriber : Subscriber} {x : HubSubscription Subscriber}
    (hx : x ∈ (c.subscribe m topic subscriber).line.hub.subscriptions) :
    x ∈ m.hub.subscriptions ∨ (x.pattern = topic ∧ x.subscriber = subscriber) := by
  cases c with
  | channel owner => exact Hub.mem_subscribe hx
  | mock mk => exact Or.inl hx
  | redis c => exact Or.inl hx
  | mqtt c => exact Or.inl hx
  | amqp c => exact Or.inl hx

namespace Network

variable {n n' : Network} {r j link owner : Nat} {i : Identity} {relay : Relay} {stream : Stream}
  {reader : Reader} {layer : Option Lossy}

/-- The subscriptions of a relay on the hub are of the kinds that it makes. -/
def Wired (n : Network) (r : Nat) (i : Identity) : Prop :=
  ∀ x ∈ n.medium.hub.subscriptions, ∀ stream, x.subscriber = .relay r stream →
    i.Feeds x.pattern stream

/-! ### Reading over the hub -/

theorem withTimeout_channel (hnode : n.node? j = some ⟨link, relay⟩)
    (hlink : n.link? link = some ⟨.channel owner, layer⟩) (topic : String)
    (subscriber : Subscriber) :
    (n.withTimeout j fun l m => l.subscribe m topic subscriber) =
      ({ n with medium := { n.medium with hub :=
          (n.medium.hub.subscribe owner topic subscriber).1 } },
        reported (n.medium.hub.subscribe owner topic subscriber).2) := by
  have hpatience : outlasts (⟨.channel owner, layer⟩ : Link Subscriber)
      relay.settings.subscribeTimeout = false := by
    simp [outlasts, Carrier.wait]
  have hset : n.links.set link ⟨.channel owner, layer⟩ = n.links := by
    obtain ⟨hlt, hget⟩ := List.getElem?_eq_some_iff.mp hlink
    rw [← hget]
    exact List.set_getElem_self hlt
  simp only [withTimeout, hnode, hlink, hpatience, Bool.false_eq_true, if_false, onRelayLink, onLink]
  simp only [Link.subscribe, Link.onCarrier, Carrier.subscribe, Carrier.done, Effect.mapClient,
    deliverAll, List.foldl_nil, hset]

theorem subscribeEach_channel {topics : List String} (hnode : n.node? j = some ⟨link, relay⟩)
    (hlink : n.link? link = some ⟨.channel owner, layer⟩)
    (h : subscribeEach stream j topics n = (n', .ok ())) :
    n'.links = n.links ∧ n'.nodes = n.nodes ∧
      (∀ pattern, n.medium.hub.Has pattern (.relay j stream) →
        n'.medium.hub.Has pattern (.relay j stream)) ∧
      ∀ topic ∈ topics, n'.medium.hub.Has topic (.relay j stream) := by
  induction topics generalizing n with
  | nil =>
    obtain ⟨rfl, -⟩ := Prod.mk.inj h
    exact ⟨rfl, rfl, fun _ hhas => hhas, nofun⟩
  | cons topic rest ih =>
    rw [subscribeEach, withTimeout_channel hnode hlink] at h
    rcases hsubscribe : n.medium.hub.subscribe owner topic (.relay j stream) with ⟨hub, e | ⟨⟨⟩⟩⟩
    · rw [hsubscribe] at h
      cases h
    · rw [hsubscribe] at h
      obtain ⟨hlinks, hnodes, hkept, hall⟩ :=
        ih (n := { n with medium := { n.medium with hub } }) hnode hlink h
      refine ⟨hlinks, hnodes, fun pattern hhas => hkept pattern (hhas.subscribe hsubscribe), ?_⟩
      intro t ht
      rcases List.mem_cons.mp ht with rfl | ht
      · exact hkept t (Hub.has_subscribe hsubscribe)
      · exact hall t ht

/-- A relay that starts to read messages over the hub has a reader and is subscribed to its slot. -/
theorem startReading_channel (hnode : n.node? j = some ⟨link, relay⟩)
    (hlink : n.link? link = some ⟨.channel owner, layer⟩)
    (h : n.startReading j stream reader = (n', .ok ())) :
    n'.links = n.links ∧
      n'.nodes = (n.updateInbound j fun i => i.setReader stream (some reader)).nodes ∧
      ∀ topic ∈ relay.topics stream, n'.medium.hub.Has topic (.relay j stream) := by
  have hrelay : n.relay? j = some relay := by
    rw [relay?, hnode]
    rfl
  have hnode' : (n.updateInbound j fun i => i.setReader stream (some reader)).node? j =
      some ⟨link, { relay with inbound := relay.inbound.setReader stream (some reader) }⟩ := by
    rw [node?_updateInbound, if_pos rfl, hnode]
    rfl
  unfold startReading at h
  rw [hrelay] at h
  dsimp only at h
  split at h
  · rename_i n₁ hok
    obtain ⟨rfl, -⟩ := Prod.mk.inj h
    obtain ⟨hlinks, hnodes, -, hall⟩ := subscribeEach_channel hnode' hlink hok
    exact ⟨hlinks, hnodes, hall⟩
  · cases h

end Network

end OrderedRelay
