import OrderedRelay.Proofs.Network.Subscriptions
import OrderedRelay.Proofs.Relay.Writes

/-!
# Reachable networks

Whatever is done to a network, in any order, a subscription on the hub that reports to a relay is for a
pattern that the relay needs for the stream it feeds, and a relay's engine serves the relay itself by
the policy in its settings.
-/

namespace OrderedRelay

/-! ### Links -/

/-- What can be done with a link by itself. A subscription made so reports to no relay. -/
inductive Link.Operation where
  | connect
  | disconnect
  | subscribe (topic name : String)
  | unsubscribe (topic : String)
  | unsubscribeAll
  | publish (chance : Chance) (p : Publication)
  | flush (order : List Nat)

def Link.Operation.run (l : Link Subscriber) (m : Medium Subscriber) :
    Link.Operation → Link.Outcome Subscriber Unit
  | connect => l.connect m
  | disconnect => l.disconnect m
  | subscribe topic name => l.subscribe m topic (.bare name)
  | unsubscribe topic => l.unsubscribe m topic
  | unsubscribeAll => l.unsubscribeAll m
  | publish chance p => l.publish m chance p
  | flush order => l.flush m order

namespace Carrier

variable {c : Carrier Subscriber} {m : Medium Subscriber}

theorem subscriptions_connect :
    (c.connect m).line.hub.subscriptions ⊆ m.hub.subscriptions := by
  cases c with
  | channel owner =>
    show (m.hub.connect owner).subscriptions ⊆ _
    rw [Hub.subscriptions_connect]
    exact List.Subset.refl _
  | mock | redis | mqtt | amqp => exact List.Subset.refl _

theorem subscriptions_disconnect :
    (c.disconnect m).line.hub.subscriptions ⊆ m.hub.subscriptions := by
  cases c with
  | channel owner =>
    show (m.hub.disconnect owner).subscriptions ⊆ _
    rw [Hub.subscriptions_disconnect]
    exact List.filter_subset_self _
  | mock | redis | mqtt | amqp => exact List.Subset.refl _

theorem subscriptions_unsubscribe (topic : String) :
    (c.unsubscribe m topic).line.hub.subscriptions ⊆ m.hub.subscriptions := by
  cases c with
  | channel owner =>
    show (m.hub.unsubscribe owner topic).1.subscriptions ⊆ _
    rw [Hub.subscriptions_unsubscribe]
    exact List.filter_subset_self _
  | mock | redis | mqtt | amqp => exact List.Subset.refl _

theorem subscriptions_unsubscribeAll :
    (c.unsubscribeAll m).line.hub.subscriptions ⊆ m.hub.subscriptions := by
  cases c with
  | channel owner => exact List.filter_subset_self _
  | mock | redis | mqtt | amqp => exact List.Subset.refl _

theorem hub_publish (p : Publication) : (c.publish m p).line.hub = m.hub := by
  cases c <;> rfl

theorem hub_publishEach (ps : List Publication) : (publishEach ps m c).line.hub = m.hub := by
  induction ps generalizing m c with
  | nil => rfl
  | cons p rest ih =>
    unfold publishEach Effect.andThen
    have hone := hub_publish (c := c) (m := m) p
    split
    · exact ih.trans hone
    · exact hone

end Carrier

/-- A link that is used by itself makes no subscription that reports to a relay. -/
theorem Link.Operation.mem_run {l : Link Subscriber} {m : Medium Subscriber} {op : Link.Operation}
    {x : HubSubscription Subscriber} (hx : x ∈ (op.run l m).line.hub.subscriptions) :
    x ∈ m.hub.subscriptions ∨ ∃ name, x.subscriber = .bare name := by
  have hreleased : ∀ (c : Carrier Subscriber) (ps : List Publication),
      x ∈ (Carrier.publishEach ps m c).line.hub.subscriptions → x ∈ m.hub.subscriptions := by
    intro c ps h
    rwa [Carrier.hub_publishEach] at h
  cases op with
  | connect => exact Or.inl (Carrier.subscriptions_connect hx)
  | disconnect => exact Or.inl (Carrier.subscriptions_disconnect hx)
  | subscribe topic name => exact (Carrier.mem_subscribe hx).imp_right fun h => ⟨name, h.2⟩
  | unsubscribe topic => exact Or.inl (Carrier.subscriptions_unsubscribe topic hx)
  | unsubscribeAll => exact Or.inl (Carrier.subscriptions_unsubscribeAll hx)
  | publish chance p =>
    obtain ⟨carrier, _ | layer⟩ := l
    · have hx' : x ∈ (carrier.publish m p).line.hub.subscriptions := hx
      rw [Carrier.hub_publish] at hx'
      exact Or.inl hx'
    · exact Or.inl (hreleased _ _ hx)
  | flush order =>
    obtain ⟨carrier, _ | layer⟩ := l
    · exact Or.inl hx
    · exact Or.inl (hreleased _ _ hx)

/-! ### Growth -/

structure Relay.Same (a b : Relay) : Prop where
  settings : b.settings = a.settings
  consumer : b.inbound.engine.consumer = a.inbound.engine.consumer
  policy : b.inbound.engine.policy = a.inbound.engine.policy

theorem Relay.Same.refl (a : Relay) : a.Same a := ⟨rfl, rfl, rfl⟩

theorem Relay.Same.trans {a b c : Relay} (hab : a.Same b) (hbc : b.Same c) : a.Same c :=
  ⟨hbc.settings.trans hab.settings, hbc.consumer.trans hab.consumer, hbc.policy.trans hab.policy⟩

namespace Network

variable {n n' n'' : Network} {i j r link : Nat}

/-- A subscription that, if it reports to a relay, is one that the relay makes. -/
def Fits (n : Network) (x : HubSubscription Subscriber) : Prop :=
  ∀ r stream, x.subscriber = .relay r stream →
    ∃ node, n.node? r = some node ∧ node.relay.identity.Feeds x.pattern stream

/-- No relay is new or another than before, and new subscriptions fit. -/
structure Grows (n n' : Network) : Prop where
  length : n'.nodes.length = n.nodes.length
  nodes : ∀ r node', n'.node? r = some node' →
    ∃ node, n.node? r = some node ∧ node.relay.Same node'.relay
  subscriptions : ∀ x ∈ n'.medium.hub.subscriptions, x ∈ n.medium.hub.subscriptions ∨ n.Fits x

theorem Grows.refl (n : Network) : n.Grows n :=
  ⟨rfl, fun _ node h => ⟨node, h, .refl _⟩, fun _ h => Or.inl h⟩

theorem Grows.fits (h : n.Grows n') {x : HubSubscription Subscriber} (hx : n'.Fits x) :
    n.Fits x := by
  intro r stream hsubscriber
  obtain ⟨node', hnode', hfeeds⟩ := hx r stream hsubscriber
  obtain ⟨node, hnode, hsame⟩ := h.nodes r node' hnode'
  refine ⟨node, hnode, ?_⟩
  rwa [Relay.identity, hsame.settings] at hfeeds

theorem Grows.trans (h : n.Grows n') (h' : n'.Grows n'') : n.Grows n'' where
  length := h'.length.trans h.length
  nodes := by
    intro r node'' hnode''
    obtain ⟨node', hnode', hsame'⟩ := h'.nodes r node'' hnode''
    obtain ⟨node, hnode, hsame⟩ := h.nodes r node' hnode'
    exact ⟨node, hnode, hsame.trans hsame'⟩
  subscriptions := by
    intro x hx
    rcases h'.subscriptions x hx with hold | hfits
    · exact h.subscriptions x hold
    · exact Or.inr (h.fits hfits)

theorem grows_of_nodes (hnodes : n'.nodes = n.nodes)
    (hsubscriptions : ∀ x ∈ n'.medium.hub.subscriptions,
      x ∈ n.medium.hub.subscriptions ∨ n.Fits x) : n.Grows n' where
  length := by rw [hnodes]
  nodes := by
    intro r node' hnode'
    rw [node?, hnodes] at hnode'
    exact ⟨node', hnode', .refl _⟩
  subscriptions := hsubscriptions

theorem grows_updateRelay {f : Relay → Relay}
    (hf : ∀ node, n.node? i = some node → node.relay.Same (f node.relay)) :
    n.Grows (n.updateRelay i f) where
  length := List.length_modify _ _ _
  nodes := by
    intro r node' hnode'
    rw [node?_updateRelay] at hnode'
    split_ifs at hnode' with hi
    · obtain ⟨node, hnode, rfl⟩ := Option.map_eq_some_iff.mp hnode'
      exact ⟨node, hnode, hf node (hi ▸ hnode)⟩
    · exact ⟨node', hnode', .refl _⟩
  subscriptions := fun _ hx => Or.inl hx

theorem grows_updateInbound {f : Inbound → Inbound}
    (hf : ∀ inbound, (f inbound).engine.consumer = inbound.engine.consumer ∧
      (f inbound).engine.policy = inbound.engine.policy) : n.Grows (n.updateInbound i f) :=
  grows_updateRelay fun node _ => ⟨rfl, (hf node.relay.inbound).1, (hf node.relay.inbound).2⟩

theorem grows_deliverAll (n : Network) (ds : List (Delivery Subscriber)) :
    n.Grows (n.deliverAll ds) := by
  induction ds generalizing n with
  | nil => exact .refl n
  | cons d rest ih =>
    refine Grows.trans ?_ (ih (n.deliver d))
    obtain ⟨subscriber, topic, content⟩ := d
    cases subscriber with
    | bare name => exact grows_of_nodes rfl fun _ hx => Or.inl hx
    | relay i stream => exact grows_updateInbound fun inbound => inbound.receive_engine _ _ _

theorem grows_onLink {op : Link Subscriber → Medium Subscriber → Link.Outcome Subscriber Unit}
    (hop : ∀ l m x, x ∈ (op l m).line.hub.subscriptions →
      x ∈ m.hub.subscriptions ∨ n.Fits x) : n.Grows (n.onLink link op).1 := by
  unfold onLink
  split
  · exact .refl n
  · refine Grows.trans ?_ (grows_deliverAll _ _)
    exact grows_of_nodes rfl fun x hx => hop _ _ x hx

theorem grows_onRelayLink {op : Link Subscriber → Medium Subscriber → Link.Outcome Subscriber Unit}
    (hop : ∀ l m x, x ∈ (op l m).line.hub.subscriptions →
      x ∈ m.hub.subscriptions ∨ n.Fits x) : n.Grows (n.onRelayLink i op).1 := by
  unfold onRelayLink
  split
  · exact .refl n
  · exact grows_onLink hop

theorem grows_withTimeout {op : Link Subscriber → Medium Subscriber → Link.Outcome Subscriber Unit}
    (hop : ∀ node, n.node? i = some node → ∀ l m x, x ∈ (op l m).line.hub.subscriptions →
      x ∈ m.hub.subscriptions ∨ n.Fits x) : n.Grows (n.withTimeout i op).1 := by
  unfold withTimeout
  split
  · exact .refl n
  · rename_i node hnode
    dsimp only
    split
    · exact .refl n
    · split_ifs
      · exact .refl n
      · exact grows_onRelayLink (hop node hnode)

theorem fits_run (n : Network) (op : Link.Operation) (l : Link Subscriber) (m : Medium Subscriber)
    (x : HubSubscription Subscriber) (hx : x ∈ (op.run l m).line.hub.subscriptions) :
    x ∈ m.hub.subscriptions ∨ n.Fits x := by
  refine op.mem_run hx |>.imp_right ?_
  rintro ⟨name, hbare⟩ r stream hsubscriber
  rw [hbare] at hsubscriber
  cases hsubscriber

theorem grows_subscribeEach {stream : Stream} {topics : List String}
    (htopics : ∀ node, n.node? i = some node →
      ∀ topic ∈ topics, node.relay.identity.Feeds topic stream) :
    n.Grows (subscribeEach stream i topics n).1 := by
  induction topics generalizing n with
  | nil => exact .refl n
  | cons topic rest ih =>
    have hone : n.Grows (n.withTimeout i fun l m => l.subscribe m topic (.relay i stream)).1 := by
      refine grows_withTimeout fun node hnode l m x hx => (Carrier.mem_subscribe hx).imp_right ?_
      rintro ⟨hpattern, hnew⟩ r stream' hsubscriber
      rw [hnew] at hsubscriber
      obtain ⟨rfl, rfl⟩ := Subscriber.relay.inj hsubscriber
      exact ⟨node, hnode, hpattern ▸ htopics node hnode topic (List.mem_cons_self ..)⟩
    unfold subscribeEach
    split
    · rename_i n₁ hok
      rw [hok] at hone
      refine hone.trans (ih fun node₁ hnode₁ t ht => ?_)
      obtain ⟨node, hnode, hsame⟩ := hone.nodes i node₁ hnode₁
      rw [Relay.identity, hsame.settings]
      exact htopics node hnode t (List.mem_cons_of_mem topic ht)
    · exact hone

/-! ### Operations of relays -/

/-- Ending subscriptions on the hub makes none there, also when it is given up. -/
def Pace.AddsNone : Pace → Prop
  | .inTime => True
  | .givenUp part => ∀ l m, (part l m).line.hub.subscriptions ⊆ m.hub.subscriptions

theorem node?_of_relay? {relay : Relay} (h : n.relay? i = some relay) :
    ∃ link, n.node? i = some ⟨link, relay⟩ := by
  obtain ⟨node, hnode, rfl⟩ := Option.map_eq_some_iff.mp h
  exact ⟨node.link, hnode⟩

theorem grows_write (n : Network) (i : Nat) (w : Write) :
    n.Grows (n.write i w.chance w.target w.message w.priority w.ttl).1 := by
  unfold write
  split
  · rename_i relay hrelay hconn
    obtain ⟨link, hnode⟩ := node?_of_relay? hrelay
    rcases hprepared : relay.prepare w.target w.message w.priority w.ttl with ⟨relay', result⟩
    obtain ⟨hsettings, -, hinbound⟩ := Relay.prepare_keeps hprepared
    have hsame : relay.Same relay' := ⟨hsettings, by rw [hinbound], by rw [hinbound]⟩
    have hupdate : n.Grows (n.updateRelay i fun _ => relay') := by
      refine grows_updateRelay fun node hnode' => ?_
      obtain rfl := Option.some.inj (hnode.symm.trans hnode')
      exact hsame
    cases result with
    | error e => exact hupdate
    | ok p => exact hupdate.trans (grows_onRelayLink (fits_run _ (.publish w.chance p)))
  · exact .refl n

theorem grows_startReading (n : Network) (i : Nat) (stream : Stream) (reader : Reader) :
    n.Grows (n.startReading i stream reader).1 := by
  have hset : ∀ (m : Network) (reader : Option Reader),
      m.Grows (m.updateInbound i fun inbound => inbound.setReader stream reader) :=
    fun m reader => grows_updateInbound fun inbound => by cases stream <;> exact ⟨rfl, rfl⟩
  unfold startReading
  split
  · exact .refl n
  · rename_i relay hrelay
    obtain ⟨link, hnode⟩ := node?_of_relay? hrelay
    have hset₁ := hset n (some reader)
    have hfeeds : ∀ node₁,
        (n.updateInbound i fun inbound => inbound.setReader stream (some reader)).node? i = some node₁ →
        ∀ topic ∈ relay.topics stream, node₁.relay.identity.Feeds topic stream := by
      intro node₁ hnode₁ topic htopic
      obtain ⟨node, hnode', hsame⟩ := hset₁.nodes i node₁ hnode₁
      obtain rfl := Option.some.inj (hnode.symm.trans hnode')
      rw [Relay.identity, hsame.settings]
      exact Relay.feeds_of_mem_topics htopic
    have hsubscribed := hset₁.trans (grows_subscribeEach hfeeds)
    dsimp only
    split
    · rename_i n₁ hok
      rw [hok] at hsubscribed
      exact hsubscribed
    · rename_i n₁ e herror
      rw [herror] at hsubscribed
      exact hsubscribed.trans (hset n₁ none)

theorem grows_stopReading {pace : Pace} (n : Network) (i : Nat) (hpace : pace.AddsNone) :
    n.Grows (n.stopReading i pace).1 := by
  have hstop : n.Grows (n.updateInbound i Inbound.stop) := grows_updateInbound fun _ => ⟨rfl, rfl⟩
  unfold stopReading
  dsimp only
  split
  · exact hstop.trans (grows_onRelayLink fun l m x hx => Or.inl (hpace l m hx))
  · exact hstop.trans (grows_onRelayLink (fits_run _ .unsubscribeAll))

theorem grows_subscribeSignal (n : Network) (i : Nat) (producer signal : String) :
    n.Grows (n.subscribeSignal i producer signal).1 := by
  unfold subscribeSignal
  split
  · exact .refl n
  · rename_i relay hrelay
    obtain ⟨link, hnode⟩ := node?_of_relay? hrelay
    split_ifs
    · exact .refl n
    · refine grows_subscribeEach fun node hnode' topic htopic => ?_
      obtain rfl := Option.some.inj (hnode.symm.trans hnode')
      rw [List.mem_singleton.mp htopic]
      exact Or.inr (Or.inr ⟨producer, signal, rfl⟩)

theorem grows_unsubscribeSignal (n : Network) (i : Nat) (producer signal : String) :
    n.Grows (n.unsubscribeSignal i producer signal).1 := by
  unfold unsubscribeSignal
  split
  · exact .refl n
  · dsimp only
    split
    · exact .refl n
    · split_ifs
      · exact grows_withTimeout fun _ _ => fits_run n (.unsubscribe _)
      · exact .refl n

theorem grows_check (n : Network) (i : Nat) (topic : String) (m : Message) :
    n.Grows (n.check i topic m).1 := by
  unfold check
  split
  · exact .refl n
  · rename_i relay hrelay
    obtain ⟨link, hnode⟩ := node?_of_relay? hrelay
    show n.Grows (n.updateInbound i fun _ => (relay.inbound.check topic m).1)
    refine grows_updateRelay fun node hnode' => ?_
    obtain rfl := Option.some.inj (hnode.symm.trans hnode')
    have hengine := relay.inbound.check_engine topic m
    exact ⟨rfl, hengine.1, hengine.2⟩

theorem grows_runAll (n : Network) : n.Grows n.runAll where
  length := List.length_map _
  nodes := by
    intro r node' hnode'
    rw [node?_runAll] at hnode'
    obtain ⟨node, hnode, rfl⟩ := Option.map_eq_some_iff.mp hnode'
    exact ⟨node, hnode, rfl, rfl, rfl⟩
  subscriptions := fun _ hx => Or.inl hx

theorem grows_dropRelay (n : Network) (i : Nat) : n.Grows (n.dropRelay i) where
  length := List.length_set
  nodes := by
    intro r node' hnode'
    unfold node? dropRelay at hnode'
    rw [List.getElem?_set] at hnode'
    split_ifs at hnode' with hi hlt
    · cases hnode'
    · cases hnode'
    · exact ⟨node', hnode', .refl _⟩
  subscriptions := fun _ hx => Or.inl hx

/-! ### Runs -/

theorem grows_onCarriers
    (f : Carrier Subscriber → Carrier Subscriber × List (Delivery Subscriber)) (n : Network) :
    n.Grows (n.onCarriers f).1 := by
  unfold onCarriers
  refine Grows.trans ?_ (grows_deliverAll _ _)
  exact grows_of_nodes rfl fun _ hx => Or.inl hx

/-- What can be done to a network. -/
inductive Operation where
  | addLink (l : Link Subscriber)
  | addMember (layer : Option Lossy)
  | addBroker (b : Broker)
  | addRelay (link : Nat) (settings : RelaySettings) (incarnation : Binary64)
  | dropRelay (i : Nat)
  | useLink (link : Nat) (op : Link.Operation)
  | connect (i : Nat)
  | disconnect (i : Nat)
  | write (i : Nat) (w : Write)
  | startReading (i : Nat) (stream : Stream) (reader : Reader)
  | stopReading (i : Nat) (pace : Pace) (hpace : pace.AddsNone)
  | subscribeSignal (i : Nat) (producer signal : String)
  | unsubscribeSignal (i : Nat) (producer signal : String)
  | check (i : Nat) (topic : String) (m : Message)
  | runAll
  | rehearse (i : Nat) (topic : String) (content : Except TransportError Message)
  | updateBroker (address : String) (f : Broker → Broker)
  | loseBroker (b : Broker)
  | endConsumers (b : Broker) (key reason : String) (channelWorks : Bool)
  | inject (b : Broker) (name topic : String) (payload : List UInt8)

def perform (n : Network) : Operation → Network
  | .addLink l => (n.addLink l).1
  | .addMember layer => (n.addMember layer).1
  | .addBroker b => n.addBroker b
  | .addRelay link settings incarnation => (n.addRelay link (Relay.create settings incarnation)).1
  | .dropRelay i => n.dropRelay i
  | .useLink link op => (n.onLink link fun l m => op.run l m).1
  | .connect i => (n.connect i).1
  | .disconnect i => (n.disconnect i).1
  | .write i w => (n.write i w.chance w.target w.message w.priority w.ttl).1
  | .startReading i stream reader => (n.startReading i stream reader).1
  | .stopReading i pace _ => (n.stopReading i pace).1
  | .subscribeSignal i producer signal => (n.subscribeSignal i producer signal).1
  | .unsubscribeSignal i producer signal => (n.unsubscribeSignal i producer signal).1
  | .check i topic m => (n.check i topic m).1
  | .runAll => n.runAll
  | .rehearse i topic content => (n.rehearse i topic content).1
  | .updateBroker address f => n.updateBroker address f
  | .loseBroker b => (n.loseBroker b).1
  | .endConsumers b key reason channelWorks => (n.endConsumers b key reason channelWorks).1
  | .inject b name topic payload => (n.inject b name topic payload).1

theorem grows_perform (n : Network) {op : Operation}
    (hop : ∀ link settings incarnation, op ≠ .addRelay link settings incarnation) :
    n.Grows (n.perform op) := by
  have hkept : ∀ {n' : Network}, n'.nodes = n.nodes →
      n'.medium.hub.subscriptions = n.medium.hub.subscriptions → n.Grows n' :=
    fun hnodes hsubscriptions => grows_of_nodes hnodes fun _ hx => Or.inl (hsubscriptions ▸ hx)
  cases op with
  | addLink | addMember | addBroker | updateBroker => exact hkept rfl rfl
  | addRelay link settings incarnation => exact absurd rfl (hop link settings incarnation)
  | dropRelay i => exact n.grows_dropRelay i
  | useLink link op => exact grows_onLink (fits_run n op)
  | connect i => exact grows_onRelayLink (fits_run n .connect)
  | disconnect i => exact grows_onRelayLink (fits_run n .disconnect)
  | write i w => exact n.grows_write i w
  | startReading i stream reader => exact n.grows_startReading i stream reader
  | stopReading i pace hpace => exact n.grows_stopReading i hpace
  | subscribeSignal i producer signal => exact n.grows_subscribeSignal i producer signal
  | unsubscribeSignal i producer signal => exact n.grows_unsubscribeSignal i producer signal
  | check i topic m => exact n.grows_check i topic m
  | runAll => exact n.grows_runAll
  | rehearse i topic content =>
    show n.Grows (n.rehearse i topic content).1
    unfold rehearse
    split
    · exact .refl n
    · exact grows_deliverAll n _
  | loseBroker b => exact grows_onCarriers _ n
  | endConsumers b key reason channelWorks => exact grows_onCarriers _ n
  | inject b name topic payload => exact grows_deliverAll n _

/-- Subscriptions that report to relays are such as these make, and engines serve their relays. -/
structure Coherent (n : Network) : Prop where
  wired : ∀ x ∈ n.medium.hub.subscriptions, ∀ r stream, x.subscriber = .relay r stream →
    r < n.nodes.length ∧
      ∀ node, n.node? r = some node → node.relay.identity.Feeds x.pattern stream
  serving : ∀ r node, n.node? r = some node →
    node.relay.inbound.engine.consumer = node.relay.settings.instanceId ∧
      node.relay.inbound.engine.policy = node.relay.settings.ordering.toPolicy

theorem lt_of_node? {node : Node} (h : n.node? r = some node) : r < n.nodes.length := by
  by_contra hge
  rw [node?, List.getElem?_eq_none (by omega)] at h
  cases h

theorem Coherent.grows (h : n.Coherent) (hgrows : n.Grows n') : n'.Coherent where
  wired := by
    intro x hx r stream hsubscriber
    rw [hgrows.length]
    rcases hgrows.subscriptions x hx with hold | hfits
    · obtain ⟨hlt, hfeeds⟩ := h.wired x hold r stream hsubscriber
      refine ⟨hlt, fun node' hnode' => ?_⟩
      obtain ⟨node, hnode, hsame⟩ := hgrows.nodes r node' hnode'
      rw [Relay.identity, hsame.settings]
      exact hfeeds node hnode
    · obtain ⟨node, hnode, hfeeds⟩ := hfits r stream hsubscriber
      refine ⟨lt_of_node? hnode, fun node' hnode' => ?_⟩
      obtain ⟨node₀, hnode₀, hsame⟩ := hgrows.nodes r node' hnode'
      obtain rfl := Option.some.inj (hnode.symm.trans hnode₀)
      rw [Relay.identity, hsame.settings]
      exact hfeeds
  serving := by
    intro r node' hnode'
    obtain ⟨node, hnode, hsame⟩ := hgrows.nodes r node' hnode'
    obtain ⟨hconsumer, hpolicy⟩ := h.serving r node hnode
    rw [hsame.settings, hsame.consumer, hsame.policy]
    exact ⟨hconsumer, hpolicy⟩

theorem Coherent.addRelay (h : n.Coherent) (link : Nat) (settings : RelaySettings)
    (incarnation : Binary64) : (n.addRelay link (Relay.create settings incarnation)).1.Coherent := by
  have hold : ∀ {r node}, r < n.nodes.length →
      (n.addRelay link (Relay.create settings incarnation)).1.node? r = some node →
      n.node? r = some node := by
    intro r node hlt hnode
    rwa [node?, Network.addRelay, List.getElem?_append_left hlt] at hnode
  constructor
  · intro x hx r stream hsubscriber
    obtain ⟨hlt, hfeeds⟩ := h.wired x hx r stream hsubscriber
    refine ⟨?_, fun node hnode => hfeeds node (hold hlt hnode)⟩
    show r < (n.nodes ++ _).length
    rw [List.length_append]
    omega
  · intro r node hnode
    by_cases hlt : r < n.nodes.length
    · exact h.serving r node (hold hlt hnode)
    -- The new relay has the next number, which no subscription names.
    · have hlast := lt_of_node? hnode
      obtain rfl : r = n.nodes.length := by
        have hlength : (n.addRelay link (Relay.create settings incarnation)).1.nodes.length =
            n.nodes.length + 1 := List.length_append
        omega
      rw [node?, Network.addRelay, List.getElem?_concat_length] at hnode
      obtain rfl := Option.some.inj hnode
      exact ⟨rfl, rfl⟩

theorem Coherent.perform (h : n.Coherent) (op : Operation) : (n.perform op).Coherent := by
  by_cases hadd : ∃ link settings incarnation, op = .addRelay link settings incarnation
  · obtain ⟨link, settings, incarnation, rfl⟩ := hadd
    exact h.addRelay link settings incarnation
  · exact h.grows (grows_perform n fun link settings incarnation heq =>
      hadd ⟨link, settings, incarnation, heq⟩)

theorem coherent_empty : ({} : Network).Coherent := by
  constructor
  · intro x hx
    cases hx
  · intro r node hnode
    have hnone : ({} : Network).node? r = none := rfl
    rw [hnone] at hnode
    cases hnode

/-- Every network that operations make of an empty one is coherent. -/
theorem coherent_run (ops : List Operation) : (ops.foldl perform {}).Coherent := by
  induction ops using List.reverseRecOn with
  | nil => exact coherent_empty
  | append_singleton past op ih =>
    rw [List.foldl_append]
    exact ih.perform op

theorem Coherent.wired_relay (h : n.Coherent) {relay : Relay} (hrelay : n.relay? r = some relay) :
    n.Wired r relay.identity := by
  obtain ⟨link, hnode⟩ := node?_of_relay? hrelay
  intro x hx stream hsubscriber
  obtain ⟨-, hfeeds⟩ := h.wired x hx r stream hsubscriber
  exact hfeeds ⟨link, relay⟩ hnode

end Network

end OrderedRelay
