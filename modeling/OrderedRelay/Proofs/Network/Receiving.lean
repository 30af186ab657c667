import OrderedRelay.Proofs.Network.Reachable
import OrderedRelay.Proofs.Relay.Readers

/-!
# What happens to a receiving side

Whatever is done to a network, the receiving side of one of its relays only takes in deliveries and
messages checked by hand, gets readers and loses them, and runs what it has posted. So what each of
these keeps, every operation of the network keeps, and it is enough to look at receiving sides by
themselves. Only starting to read gives a stream a reader.
-/

namespace OrderedRelay

namespace Network

/-- The relay with a number, which may be gone, has a receiving side with a property. -/
structure Holds (n : Network) (r : Nat) (P : Inbound → Prop) : Prop where
  known : r < n.nodes.length
  inbound : ∀ node, n.node? r = some node → P node.relay.inbound

variable {n n' : Network} {i r link : Nat} {P : Inbound → Prop} {may : Stream → Reader → Prop}

theorem Holds.of_nodes (h : n.Holds r P) (hnodes : n'.nodes = n.nodes) : n'.Holds r P where
  known := by
    rw [hnodes]
    exact h.known
  inbound := by
    intro node hnode
    rw [node?, hnodes] at hnode
    exact h.inbound node hnode

/-! ### Relays -/

theorem Holds.updateRelay (h : n.Holds r P) {f : Relay → Relay}
    (hf : ∀ node, n.node? i = some node → i = r → P node.relay.inbound →
      P (f node.relay).inbound) : (n.updateRelay i f).Holds r P where
  known := (List.length_modify ..).symm ▸ h.known
  inbound := by
    intro node' hnode'
    rw [node?_updateRelay] at hnode'
    split_ifs at hnode' with hi
    · obtain ⟨node, hnode, rfl⟩ := Option.map_eq_some_iff.mp hnode'
      exact hf node (hi ▸ hnode) hi (h.inbound node hnode)
    · exact h.inbound node' hnode'

theorem Holds.updateInbound (h : n.Holds r P) {f : Inbound → Inbound}
    (hf : ∀ inbound, i = r → P inbound → P (f inbound)) : (n.updateInbound i f).Holds r P :=
  h.updateRelay fun node _ hi => hf node.relay.inbound hi

theorem Holds.runAll (h : n.Holds r P) (hP : Inbound.Stable may P) : n.runAll.Holds r P where
  known := (List.length_map _).symm ▸ h.known
  inbound := by
    intro node' hnode'
    rw [node?_runAll] at hnode'
    obtain ⟨node, hnode, rfl⟩ := Option.map_eq_some_iff.mp hnode'
    exact hP.flush node.relay.inbound (h.inbound node hnode)

theorem Holds.dropRelay (h : n.Holds r P) (i : Nat) : (n.dropRelay i).Holds r P where
  known := List.length_set.symm ▸ h.known
  inbound := by
    intro node' hnode'
    unfold node? Network.dropRelay at hnode'
    rw [List.getElem?_set] at hnode'
    split_ifs at hnode'
    · cases hnode'
    · cases hnode'
    · exact h.inbound node' hnode'

/-- A new relay gets a number that no relay has had. -/
theorem Holds.addRelay (h : n.Holds r P) (link : Nat) (relay : Relay) :
    (n.addRelay link relay).1.Holds r P where
  known := by
    show r < (n.nodes ++ _).length
    rw [List.length_append]
    exact Nat.lt_add_right _ h.known
  inbound := by
    intro node hnode
    rw [node?, Network.addRelay, List.getElem?_append_left h.known] at hnode
    exact h.inbound node hnode

theorem Holds.check (h : n.Holds r P) (hP : Inbound.Stable may P) (i : Nat) (topic : String)
    (m : Message) : (n.check i topic m).1.Holds r P := by
  unfold Network.check
  split
  · exact h
  · rename_i relay hrelay
    obtain ⟨link, hnode⟩ := node?_of_relay? hrelay
    show (n.updateInbound i fun _ => (relay.inbound.check topic m).1).Holds r P
    refine h.updateRelay fun node hnode' _ hold => ?_
    obtain rfl := Option.some.inj (hnode.symm.trans hnode')
    exact hP.check relay.inbound topic m hold

/-! ### Links -/

theorem Holds.deliverAll (h : n.Holds r P) (hP : Inbound.Stable may P)
    (ds : List (Delivery Subscriber)) : (n.deliverAll ds).Holds r P := by
  induction ds generalizing n with
  | nil => exact h
  | cons d rest ih =>
    refine ih (n := n.deliver d) ?_
    obtain ⟨subscriber, topic, content⟩ := d
    cases subscriber with
    | bare name => exact h.of_nodes rfl
    | relay i stream =>
      exact h.updateInbound fun inbound _ => hP.receive inbound ⟨stream, topic, content⟩

theorem Holds.onLink {α : Type} (h : n.Holds r P) (hP : Inbound.Stable may P) (link : Nat)
    (op : Link Subscriber → Medium Subscriber → Link.Outcome Subscriber α) :
    (n.onLink link op).1.Holds r P := by
  unfold Network.onLink
  split
  · exact h
  · refine Holds.deliverAll ?_ hP _
    exact h.of_nodes rfl

theorem Holds.onRelayLink {α : Type} (h : n.Holds r P) (hP : Inbound.Stable may P) (i : Nat)
    (op : Link Subscriber → Medium Subscriber → Link.Outcome Subscriber α) :
    (n.onRelayLink i op).1.Holds r P := by
  unfold Network.onRelayLink
  split
  · exact h
  · exact h.onLink hP _ op

theorem Holds.withTimeout (h : n.Holds r P) (hP : Inbound.Stable may P) (i : Nat)
    (op : Link Subscriber → Medium Subscriber → Link.Outcome Subscriber Unit) :
    (n.withTimeout i op).1.Holds r P := by
  unfold Network.withTimeout
  split
  · exact h
  · dsimp only
    split
    · exact h
    · split_ifs
      · exact h
      · exact h.onRelayLink hP i op

theorem Holds.onCarriers (h : n.Holds r P) (hP : Inbound.Stable may P)
    (f : Carrier Subscriber → Carrier Subscriber × List (Delivery Subscriber)) :
    (n.onCarriers f).1.Holds r P := by
  unfold Network.onCarriers
  refine Holds.deliverAll ?_ hP _
  exact h.of_nodes rfl

/-! ### Operations of relays -/

theorem Holds.write (h : n.Holds r P) (hP : Inbound.Stable may P) (i : Nat) (w : Write) :
    (n.write i w.chance w.target w.message w.priority w.ttl).1.Holds r P := by
  unfold Network.write
  split
  · rename_i relay hrelay hconn
    obtain ⟨link, hnode⟩ := node?_of_relay? hrelay
    rcases hprepared : relay.prepare w.target w.message w.priority w.ttl with ⟨relay', result⟩
    obtain ⟨-, -, hinbound⟩ := Relay.prepare_keeps hprepared
    have hupdate : (n.updateRelay i fun _ => relay').Holds r P := by
      refine h.updateRelay fun node hnode' _ hold => ?_
      obtain rfl := Option.some.inj (hnode.symm.trans hnode')
      rw [hinbound]
      exact hold
    cases result with
    | error e => exact hupdate
    | ok p => exact hupdate.onRelayLink hP i _
  · exact h

theorem Holds.subscribeEach (h : n.Holds r P) (hP : Inbound.Stable may P) (stream : Stream) (i : Nat)
    (topics : List String) : (subscribeEach stream i topics n).1.Holds r P := by
  induction topics generalizing n with
  | nil => exact h
  | cons topic rest ih =>
    have hone := h.withTimeout hP i fun l m => l.subscribe m topic (.relay i stream)
    unfold Network.subscribeEach
    split
    · rename_i n₁ hok
      rw [hok] at hone
      exact ih hone
    · exact hone

theorem Holds.startReading {stream : Stream} {reader : Reader} (h : n.Holds r P)
    (hP : Inbound.Stable may P) (hmay : i = r → may stream reader) :
    (n.startReading i stream reader).1.Holds r P := by
  unfold Network.startReading
  split
  · exact h
  · rename_i relay _
    -- Whatever the subscriptions do, they do it after the reader was given, which `may` allows.
    have hgiven := h.updateInbound (i := i) fun inbound hi =>
      hP.give inbound stream reader (hmay hi)
    have hsubscribed := hgiven.subscribeEach hP stream i (relay.topics stream)
    dsimp only
    split
    · rename_i n₁ hok
      rw [hok] at hsubscribed
      exact hsubscribed
    · rename_i n₁ e herror
      rw [herror] at hsubscribed
      exact hsubscribed.updateInbound fun inbound _ => hP.clear inbound stream

theorem Holds.subscribeSignal (h : n.Holds r P) (hP : Inbound.Stable may P) (i : Nat)
    (producer signal : String) : (n.subscribeSignal i producer signal).1.Holds r P := by
  unfold Network.subscribeSignal
  split
  · exact h
  · split_ifs
    · exact h
    · exact h.subscribeEach hP _ _ _

theorem Holds.unsubscribeSignal (h : n.Holds r P) (hP : Inbound.Stable may P) (i : Nat)
    (producer signal : String) : (n.unsubscribeSignal i producer signal).1.Holds r P := by
  unfold Network.unsubscribeSignal
  split
  · exact h
  · dsimp only
    split
    · exact h
    · split_ifs
      · exact h.withTimeout hP i _
      · exact h

theorem Holds.stopReading (h : (n.updateInbound i Inbound.stop).Holds r P)
    (hP : Inbound.Stable may P) (pace : Pace) : (n.stopReading i pace).1.Holds r P := by
  unfold Network.stopReading
  dsimp only
  split
  · exact h.onRelayLink hP i _
  · exact h.onRelayLink hP i _

/-! ### Runs -/

/-- What a receiving side keeps whatever happens to it, a network keeps whatever is done to it. -/
theorem Holds.perform {op : Operation} (h : n.Holds r P) (hP : Inbound.Stable may P)
    (hmay : ∀ stream reader, op = .startReading r stream reader → may stream reader) :
    (n.perform op).Holds r P := by
  cases op with
  | addLink | addMember | addBroker | updateBroker => exact h.of_nodes rfl
  | addRelay link settings incarnation => exact h.addRelay link _
  | dropRelay i => exact h.dropRelay i
  | useLink link op => exact h.onLink hP link _
  | connect i | disconnect i => exact h.onRelayLink hP i _
  | write i w => exact h.write hP i w
  | startReading i stream reader =>
    exact h.startReading hP fun hi => hmay stream reader (hi ▸ rfl)
  | stopReading i pace =>
    have hstopped := h.updateInbound (i := i) fun inbound _ => hP.stop inbound
    exact hstopped.stopReading hP pace
  | subscribeSignal i producer signal => exact h.subscribeSignal hP i producer signal
  | unsubscribeSignal i producer signal => exact h.unsubscribeSignal hP i producer signal
  | check i topic m => exact h.check hP i topic m
  | runAll => exact h.runAll hP
  | rehearse i topic content =>
    show (n.rehearse i topic content).1.Holds r P
    unfold rehearse
    split
    · exact h
    · exact h.deliverAll hP _
  | loseBroker | endConsumers => exact h.onCarriers hP _
  | inject => exact h.deliverAll hP _

theorem Holds.performAll {ops : List Operation} (h : n.Holds r P) (hP : Inbound.Stable may P)
    (hmay : ∀ stream reader, .startReading r stream reader ∈ ops → may stream reader) :
    (ops.foldl Network.perform n).Holds r P := by
  induction ops generalizing n with
  | nil => exact h
  | cons op rest ih =>
    refine ih (h.perform hP fun stream reader hop => ?_) fun stream reader hmem =>
      hmay stream reader (List.mem_cons_of_mem _ hmem)
    exact hmay stream reader (hop ▸ List.mem_cons_self ..)

end Network

end OrderedRelay
