import OrderedRelay.Proofs.Network.Stopping
import OrderedRelay.Proofs.Transport.Subscribing

/-!
# Failed starts

To read a stream, a relay gives it a reader and subscribes to its topics one after another. If one of
the subscriptions fails, the stream is left without a reader, also if it had one before, and the topics
before the one that failed stay subscribed. Everything else about the relay is as it was.
-/

namespace OrderedRelay

theorem AllLosses.to? {ds : List (Delivery Subscriber)} (h : AllLosses ds) (r : Nat) :
    AllLosses (ds.filterMap (Delivery.to? r)) := by
  intro d hd
  obtain ⟨told, htold, hto⟩ := List.mem_filterMap.mp hd
  obtain ⟨reason, hcontent⟩ := h told htold
  unfold Delivery.to? at hto
  split at hto
  · cases hto
  · split_ifs at hto
    obtain ⟨rfl⟩ := hto
    exact ⟨reason, hcontent⟩

/-- The call tells a notifier of a lost connection. -/
def Call.ReportsLoss (c : Call) : Prop :=
  ∃ handler topic reason, c = .notify handler ⟨.drop, topic, (TransportError.delivery reason).message⟩

namespace Inbound

variable {i : Inbound}

theorem reader?_posted (engine : Engine Message) (new : List Call) (stream : Stream) :
    (i.posted engine new).reader? stream = i.reader? stream := by
  cases stream <;> rfl

/-- Losses are at most notified. -/
theorem takeAll_losses {ds : List (Delivery Stream)} (hlosses : AllLosses ds) :
    ∃ new, i.takeAll ds = i.posted i.engine new ∧ ∀ c ∈ new, c.ReportsLoss := by
  induction ds generalizing i with
  | nil => exact ⟨[], (posted_nil i).symm, nofun⟩
  | cons d rest ih =>
    obtain ⟨reason, hcontent⟩ := hlosses d (List.mem_cons_self ..)
    have hengine : (answer i.engine (i.reader? d.subscriber) d).1 = i.engine :=
      answer_engine fun topic m hd => by
        rw [hd] at hcontent
        cases hcontent
    obtain ⟨more, hrest, hmore⟩ := ih
      (i := i.posted i.engine (answer i.engine (i.reader? d.subscriber) d).2)
      fun e he => hlosses e (List.mem_cons_of_mem d he)
    refine ⟨(answer i.engine (i.reader? d.subscriber) d).2 ++ more, ?_, fun c hc => ?_⟩
    · show (i.receive d.subscriber d.topic d.content).takeAll rest = _
      rw [receive_posted, hengine, hrest, posted_posted]
      rfl
    · rcases List.mem_append.mp hc with hnow | hlater
      · obtain ⟨handler, hcall⟩ := notify_of_mem_answer hcontent hnow
        exact ⟨handler, d.topic, reason, hcall⟩
      · exact hmore c hlater

/-- A stream gets a reader, deliveries are taken in, and the stream loses its reader. -/
def unread (i : Inbound) (stream : Stream) (reader : Reader) (ds : List (Delivery Stream)) :
    Inbound := ((i.setReader stream (some reader)).takeAll ds).setReader stream none

theorem unread_losses {ds : List (Delivery Stream)} (hlosses : AllLosses ds) (i : Inbound)
    (stream : Stream) (reader : Reader) :
    (∀ other, (i.unread stream reader ds).reader? other =
        if other = stream then none else i.reader? other) ∧
      (i.unread stream reader ds).engine = i.engine ∧
      ∃ new, (i.unread stream reader ds).dispatcher.posted = i.dispatcher.posted ++ new ∧
        ∀ c ∈ new, c.ReportsLoss := by
  obtain ⟨new, htake, hnotify⟩ :=
    takeAll_losses (i := i.setReader stream (some reader)) hlosses
  unfold unread
  rw [htake]
  refine ⟨fun other => ?_, ?_, new, ?_, hnotify⟩
  · simp only [reader?_setReader, Function.update_apply, reader?_posted]
    split_ifs <;> rfl
  · rw [engine_setReader]
    exact i.engine_setReader stream (some reader)
  · simp only [dispatcher_setReader, posted, Dispatcher.posted, List.append_assoc]

end Inbound

namespace Network

variable {n n' n'' : Network} {i j : Nat} {relay : Relay} {stream : Stream} {reader : Reader}

/-! ### The topics of a relay's link -/

def linkOf? (n : Network) (i : Nat) : Option (Link Subscriber) :=
  (n.node? i).bind fun node => n.link? node.link

def isSubscribed (n : Network) (i : Nat) (topic : String) : Bool :=
  ((n.linkOf? i).map fun l => l.isSubscribed n.medium topic).getD false

def overMqtt (n : Network) (i : Nat) : Bool :=
  ((n.linkOf? i).map fun l => l.carrier.isMqtt).getD false

theorem linkOf?_updateInbound (n : Network) (j : Nat) (f : Inbound → Inbound) (i : Nat) :
    (n.updateInbound j f).linkOf? i = n.linkOf? i := by
  unfold linkOf?
  rw [node?_updateInbound]
  split_ifs
  · cases n.node? i <;> rfl
  · rfl

/-! ### One subscription -/

/-- Relays have been told of losses, and nothing else has happened to them. -/
def ToldLosses (n n' : Network) : Prop :=
  ∀ j, ∃ ds, AllLosses ds ∧ n'.node? j = (n.node? j).map fun node => node.hear ds

theorem ToldLosses.refl (n : Network) : n.ToldLosses n :=
  fun _ => ⟨[], nofun, (Node.map_hear_nil _).symm⟩

theorem ToldLosses.trans (h : n.ToldLosses n') (h' : n'.ToldLosses n'') :
    n.ToldLosses n'' := by
  intro j
  obtain ⟨ds, hds, hnode⟩ := h j
  obtain ⟨ds', hds', hnode'⟩ := h' j
  refine ⟨ds ++ ds', hds.append hds', ?_⟩
  rw [hnode', hnode, Option.map_map]
  congr 1
  funext node
  exact node.hear_append ds ds'

/-- The link of a relay has been asked to subscribe to a topic. -/
structure Asked (n n' : Network) (i : Nat) (topic : String) (result : Except RelayError Unit) :
    Prop where
  added : result = .ok () → ∀ t, n'.isSubscribed i t = (decide (t = topic) || n.isSubscribed i t)
  kept : result ≠ .ok () → ∀ t, (t = topic → n.overMqtt i = false) →
    n'.isSubscribed i t = n.isSubscribed i t
  kind : n'.overMqtt i = n.overMqtt i
  told : n.ToldLosses n'

theorem asked_of_error (n : Network) (i : Nat) (topic : String) (e : RelayError) :
    n.Asked n i topic (.error e) where
  added := nofun
  kept := fun _ _ _ => rfl
  kind := rfl
  told := .refl n

theorem isSubscribed_of_linkOf? {l : Link Subscriber} (h : n.linkOf? i = some l) (topic : String) :
    n.isSubscribed i topic = l.carrier.isSubscribed n.medium topic := by
  rw [isSubscribed, h]
  rfl

theorem overMqtt_of_linkOf? {l : Link Subscriber} (h : n.linkOf? i = some l) :
    n.overMqtt i = l.carrier.isMqtt := by
  rw [overMqtt, h]
  rfl

theorem asked_of_subscribes {node : Node} {l : Link Subscriber} {topic : String}
    {e : Carrier.Outcome Subscriber Unit} (hnode : n.node? i = some node)
    (hlink : n.link? node.link = some l)
    (he : Subscribes (fun c m t => c.isSubscribed m t) l.carrier n.medium topic l.carrier.isMqtt e)
    (hkind : e.client.isMqtt = l.carrier.isMqtt) :
    n.Asked ({ n with
      medium := e.line
      links := n.links.set node.link { l with carrier := e.client } }.deliverAll e.told)
      i topic (reported e.result) := by
  -- What is told on the way changes neither the links nor the medium.
  obtain ⟨hmedium, hlinks⟩ := deliverAll_medium { n with
    medium := e.line
    links := n.links.set node.link { l with carrier := e.client } } e.told
  have htold := node?_deliverAll { n with
    medium := e.line
    links := n.links.set node.link { l with carrier := e.client } } e.told
  generalize deliverAll _ e.told = after at hmedium hlinks htold ⊢
  have hbefore : n.linkOf? i = some l := by rw [linkOf?, hnode, Option.bind_some, hlink]
  have hafter : after.linkOf? i = some { l with carrier := e.client } := by
    have hnode' : after.node? i = some (node.hear (e.told.filterMap (Delivery.to? i))) := by
      rw [htold]
      exact congrArg (Option.map _) hnode
    rw [linkOf?, hnode', Option.bind_some, link?, hlinks]
    exact List.getElem?_set_self (List.getElem?_eq_some_iff.mp hlink).1
  have hok : ∀ {result : Except TransportError Unit}, reported result = .ok () ↔ result = .ok () := by
    rintro (failure | ⟨⟩) <;> simp [reported]
  exact {
    added := fun hresult t => by
      rw [isSubscribed_of_linkOf? hafter, isSubscribed_of_linkOf? hbefore, hmedium]
      exact he.added (hok.mp hresult) t
    kept := fun hresult t ht => by
      rw [isSubscribed_of_linkOf? hafter, isSubscribed_of_linkOf? hbefore, hmedium]
      rw [overMqtt_of_linkOf? hbefore] at ht
      exact he.kept (fun h => hresult (hok.mpr h)) t ht
    kind := by
      rw [overMqtt_of_linkOf? hafter, overMqtt_of_linkOf? hbefore]
      exact hkind
    told := fun j => ⟨_, he.losses.to? j, htold j⟩ }

theorem asked_withTimeout (n : Network) (i : Nat) (topic : String) (subscriber : Subscriber) :
    n.Asked (n.withTimeout i fun l m => l.subscribe m topic subscriber).1 i topic
      (n.withTimeout i fun l m => l.subscribe m topic subscriber).2 := by
  unfold withTimeout
  split
  · exact asked_of_error ..
  · rename_i node hnode
    dsimp only
    split
    · exact asked_of_error ..
    · rename_i l hlink
      split_ifs
      · exact asked_of_error ..
      · simp only [onRelayLink, onLink, hnode, hlink]
        exact asked_of_subscribes hnode hlink (l.carrier.subscribes_subscribe ..)
          (l.carrier.isMqtt_subscribe ..)

/-! ### One after another -/

/-- Subscribes a stream to topics one after another, up to the first failure. `faults` tells which
subscriptions fail before the transport does anything, as those do that are given up. -/
def subscribeUnless (faults : String → Option RelayError) (stream : Stream) (i : Nat) :
    List String → Network → Network × Except RelayError Unit
  | [], n => (n, .ok ())
  | topic :: rest, n =>
    match faults topic with
    | some e => (n, .error e)
    | none =>
      match n.withTimeout i fun l m => l.subscribe m topic (.relay i stream) with
      | (n, .ok ()) => subscribeUnless faults stream i rest n
      | failed => failed

theorem subscribeEach_eq (stream : Stream) (i : Nat) (topics : List String) (n : Network) :
    subscribeEach stream i topics n = subscribeUnless (fun _ => none) stream i topics n := by
  induction topics generalizing n with
  | nil => rfl
  | cons topic rest ih =>
    unfold subscribeEach subscribeUnless
    rcases n.withTimeout i _ with ⟨n₁, e | ⟨⟩⟩
    · rfl
    · exact ih n₁

/-- The topics up to one that failed have been subscribed to. -/
structure AskedUpTo (n n' : Network) (i : Nat) (done : List String) (failed : String) : Prop where
  topics : ∀ t, (t = failed → n.overMqtt i = false) →
    n'.isSubscribed i t = (decide (t ∈ done) || n.isSubscribed i t)
  told : n.ToldLosses n'

theorem askedUpTo_of_error {faults : String → Option RelayError} {topics : List String}
    {e : RelayError} (h : subscribeUnless faults stream i topics n = (n', .error e)) :
    ∃ done failed rest, topics = done ++ failed :: rest ∧ n.AskedUpTo n' i done failed := by
  -- A topic that is subscribed to joins `done`; the first one that is not ends the induction.
  induction topics generalizing n with
  | nil => cases h
  | cons topic rest ih =>
    unfold subscribeUnless at h
    split at h
    · obtain ⟨rfl, -⟩ := Prod.mk.inj h
      exact ⟨[], topic, rest, rfl, fun _ _ => rfl, .refl n⟩
    · have hasked := n.asked_withTimeout i topic (.relay i stream)
      split at h
      · rename_i n₁ hok
        rw [hok] at hasked
        obtain ⟨done, failed, later, rfl, hrest⟩ := ih h
        refine ⟨topic :: done, failed, later, rfl, fun t ht => ?_, hasked.told.trans hrest.told⟩
        rw [hrest.topics t (hasked.kind.symm ▸ ht), hasked.added rfl]
        simp only [List.mem_cons, Bool.decide_or, Bool.or_assoc, Bool.or_left_comm]
      · rw [h] at hasked
        exact ⟨[], topic, rest, rfl, fun t ht => hasked.kept nofun t ht, hasked.told⟩

/-! ### A start that fails -/

/-- Starts to read, while some subscriptions fail as in `subscribeUnless`. -/
def startUnless (faults : String → Option RelayError) (n : Network) (i : Nat) (stream : Stream)
    (reader : Reader) : Network × Except RelayError Unit :=
  match n.relay? i with
  | none => (n, .error .notConnected)
  | some r =>
    let started := n.updateInbound i fun inbound => inbound.setReader stream (some reader)
    match subscribeUnless faults stream i (r.topics stream) started with
    | (n, .ok ()) => (n, .ok ())
    | (n, .error e) => (n.updateInbound i fun inbound => inbound.setReader stream none, .error e)

theorem startReading_eq (n : Network) (i : Nat) (stream : Stream) (reader : Reader) :
    n.startReading i stream reader = startUnless (fun _ => none) n i stream reader := by
  cases hrelay : n.relay? i with
  | none => simp only [startReading, startUnless, hrelay]
  | some r =>
    have hsame := subscribeEach_eq stream i (r.topics stream)
      (n.updateInbound i fun inbound => inbound.setReader stream (some reader))
    rcases hresult : subscribeUnless (fun _ => none) stream i (r.topics stream)
      (n.updateInbound i fun inbound => inbound.setReader stream (some reader)) with ⟨n₁, e | ⟨⟩⟩ <;>
    · rw [hresult] at hsame
      simp only [startReading, startUnless, hrelay, hsame, hresult]

/-- A relay has failed to start to read a stream. -/
structure LeftUnread (n n' : Network) (i : Nat) (stream : Stream) (old new : Relay) : Prop where
  now : n'.relay? i = some new
  /-- The stream has no reader, whether it had one before or not, and stays closed until it gets one. -/
  reader : new.inbound.reader? stream = none
  closed : ∀ ops : List Operation, (∀ reader, .startReading i stream reader ∉ ops) →
    (ops.foldl perform n').Closed i stream new fun other reader =>
      new.inbound.reader? other = some reader ∨ .startReading i other reader ∈ ops
  others : ∀ other, other ≠ stream → new.inbound.reader? other = old.inbound.reader? other
  tracking : new.inbound.engine = old.inbound.engine
  counters : new.counters = old.counters
  -- Lost connections may have been notified.
  posted : ∃ calls, new.inbound.dispatcher.posted = old.inbound.dispatcher.posted ++ calls ∧
    ∀ c ∈ calls, c.ReportsLoss
  /-- The topics before the one that failed have been added to those subscribed to. -/
  topics : ∃ done failed rest, old.topics stream = done ++ failed :: rest ∧
    ∀ t, (t = failed → n.overMqtt i = false) →
      n'.isSubscribed i t = (decide (t ∈ done) || n.isSubscribed i t)

theorem isSubscribed_updateInbound (n : Network) (j : Nat) (f : Inbound → Inbound) (i : Nat)
    (topic : String) : (n.updateInbound j f).isSubscribed i topic = n.isSubscribed i topic := by
  rw [isSubscribed, linkOf?_updateInbound]
  rfl

theorem overMqtt_updateInbound (n : Network) (j : Nat) (f : Inbound → Inbound) (i : Nat) :
    (n.updateInbound j f).overMqtt i = n.overMqtt i := by
  rw [overMqtt, linkOf?_updateInbound]
  rfl

theorem closed_of_no_reader {node : Node} {ops : List Operation} (hnode : n.node? i = some node)
    (hnone : node.relay.inbound.reader? stream = none)
    (hops : ∀ reader, .startReading i stream reader ∉ ops) :
    (ops.foldl perform n).Closed i stream node.relay fun other reader =>
      node.relay.inbound.reader? other = some reader ∨ .startReading i other reader ∈ ops := by
  have hnow : n.Holds i (node.relay.inbound.Follows fun other reader =>
      node.relay.inbound.reader? other = some reader ∨ .startReading i other reader ∈ ops) :=
    holds_follows hnode fun _ _ hreader => Or.inl hreader
  have hafter := hnow.performAll (Inbound.follows_stable _ _) fun _ _ hstart => Or.inr hstart
  refine closed_of_follows hafter rfl rfl fun reader hreader => ?_
  rcases hreader with hold | hstart
  · rw [hnone] at hold
    cases hold
  · exact hops reader hstart

/-- A start that fails leaves the stream unread, and otherwise the relay as it was. -/
theorem failed_start_leaves_unread {faults : String → Option RelayError} {e : RelayError}
    (hrelay : n.relay? i = some relay)
    (hfailed : startUnless faults n i stream reader = (n', .error e)) :
    n.startReading i stream reader = startUnless (fun _ => none) n i stream reader ∧
      ∃ relay', n.LeftUnread n' i stream relay relay' := by
  refine ⟨startReading_eq .., ?_⟩
  obtain ⟨link, hnode⟩ := node?_of_relay? hrelay
  simp only [startUnless, hrelay] at hfailed
  split at hfailed
  · cases hfailed
  rename_i n₁ e₁ hsubscribe
  obtain ⟨rfl, -⟩ := Prod.mk.inj hfailed
  obtain ⟨done, failed, rest, htopics, hasked⟩ := askedUpTo_of_error hsubscribe
  obtain ⟨ds, hds, hnode₁⟩ := hasked.told i
  -- From before the call to after it, all that has happened to the relay is one `unread`.
  obtain ⟨hreader, hengine, hposted⟩ := relay.inbound.unread_losses hds stream reader
  have hnode' : (n₁.updateInbound i fun inbound => inbound.setReader stream none).node? i =
      some ⟨link, { relay with inbound := relay.inbound.unread stream reader ds }⟩ := by
    rw [node?_updateInbound, if_pos rfl, hnode₁, node?_updateInbound, if_pos rfl, hnode]
    rfl
  refine ⟨{ relay with inbound := relay.inbound.unread stream reader ds }, {
    now := by
      rw [relay?, hnode']
      rfl
    reader := (hreader stream).trans (if_pos rfl)
    closed := fun ops hops => ?_
    others := fun other hother => (hreader other).trans (if_neg hother)
    tracking := hengine
    counters := rfl
    posted := hposted
    topics := ⟨done, failed, rest, htopics, fun t ht => ?_⟩ }⟩
  · refine closed_of_no_reader hnode' ?_ hops
    exact (hreader stream).trans (if_pos rfl)
  · rw [isSubscribed_updateInbound, hasked.topics t (overMqtt_updateInbound n .. ▸ ht),
      isSubscribed_updateInbound]

/-- A relay that reads messages, at a broker that has come to cut off plain subscriptions. The transport
has ended the subscriptions that the relay had; its own slot is a pattern. -/
def sampleOutage : Network :=
  [.addBroker { address := "k" }, .addLink { carrier := .redis { urls := ["redis://k"] } },
    .addRelay 0 { domain := "bus", instanceId := "+", consumeBroadcasts := true } (.ofInt 7),
    .connect 0, .startReading 0 .messages ⟨"a", true⟩, .useLink 0 .unsubscribeAll,
    .updateBroker "k" fun b => { b with script := { dropped := ["SUBSCRIBE"] } }].foldl perform {}

theorem failed_start_leaves_unread_sample :
    ∃ n' relay relay', startUnless (fun _ => none) sampleOutage 0 .messages ⟨"b", true⟩ =
        (n', .error (.transport (.subscribe "bus/global_slots" undisclosed))) ∧
      sampleOutage.relay? 0 = some relay ∧ sampleOutage.LeftUnread n' 0 .messages relay relay' := by
  have hresult : (startUnless (fun _ => none) sampleOutage 0 .messages ⟨"b", true⟩).2 =
      .error (.transport (.subscribe "bus/global_slots" undisclosed)) := by decide +kernel
  obtain ⟨relay, hrelay⟩ : ∃ relay, sampleOutage.relay? 0 = some relay :=
    Option.isSome_iff_exists.mp (by decide +kernel)
  obtain ⟨-, relay', hleft⟩ := failed_start_leaves_unread hrelay (Prod.ext rfl hresult)
  exact ⟨_, relay, relay', Prod.ext rfl hresult, hrelay, hleft⟩

/-- A failed start is not without effect: the reader that the stream had is gone, and a topic is new. -/
theorem failed_start_not_atomic :
    let after := sampleOutage.startReading 0 .messages ⟨"b", true⟩
    after.2 = .error (.transport (.subscribe "bus/global_slots" undisclosed)) ∧
      (sampleOutage.relay? 0).map (fun r => r.inbound.messages) = some (some ⟨"a", true⟩) ∧
      (after.1.relay? 0).map (fun r => r.inbound.messages) = some none ∧
      sampleOutage.isSubscribed 0 "bus/slots/+" = false ∧
      after.1.isSubscribed 0 "bus/slots/+" = true := by
  decide +kernel

end Network

end OrderedRelay
