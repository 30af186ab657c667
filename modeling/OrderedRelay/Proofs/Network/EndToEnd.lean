import OrderedRelay.Proofs.Network.Reachable
import OrderedRelay.Proofs.Network.Reception
import OrderedRelay.Proofs.Network.Writes

/-!
# From write to handler

A new relay writes over a lossy layer that repeats and reorders publications but drops none. If the
window of the layer is no wider than the strict bounds of a relay that reads, the handler of the latter
gets each message that was written to it once, in the order of the writes.
-/

namespace OrderedRelay

variable {maxPending resyncAfter : Nat} {incarnation : Binary64}

/-! ### Reassembly of what leaves the layer -/

theorem map_range'_of_keys {β : Type} {keyed : List (Nat × β)} {f : Nat → Option β}
    (hkeys : keyed.map Prod.fst = List.range' 1 keyed.length)
    (hvalues : ∀ k ∈ keyed, f k.1 = some k.2) :
    (List.range' 1 keyed.length).map f = (keyed.map Prod.snd).map some := by
  rw [← hkeys, List.map_map, List.map_map]
  exact List.map_congr_left hvalues

/-- If every arrival carries the item of its number, so does the first copy of each number. -/
theorem firstCopy_of_keys {β : Type} {keyed : List (Nat × β)} {arrivals : List (Arrival β)}
    (hkeys : keyed.map Prod.fst = List.range' 1 keyed.length)
    (hnumbers : numbersOf arrivals = Finset.Icc 1 keyed.length)
    (hitems : ∀ a ∈ arrivals, (a.number, a.item) ∈ keyed) :
    ∀ k ∈ keyed, firstCopy arrivals k.1 = some k.2 := by
  intro k hk
  have hkey : k.1 ∈ numbersOf arrivals := by
    have hfst : k.1 ∈ List.range' 1 keyed.length := hkeys ▸ List.mem_map_of_mem hk
    rw [List.mem_range'_1] at hfst
    rw [hnumbers, Finset.mem_Icc]
    omega
  obtain ⟨a, ha, hnumber, hfirst⟩ := firstCopy_of_mem hkey
  have hnodup : (keyed.map Prod.fst).Nodup := hkeys ▸ List.nodup_range'
  have hsame := List.inj_on_of_nodup_map hnodup (hitems a ha) hk hnumber
  rw [hfirst, ← hsame]

/-- Publications with the messages that they number for a consumer: 1, 2 and so on. -/
structure NumberedFor (producer : Identity) (incarnation : Binary64) (id : String)
    (ps : List Publication) (keyed : List (Nat × Message)) : Prop where
  published : ∀ p ∈ ps, Published producer incarnation id p
  numbered : ps.filterMap (numberedMessage id) = keyed
  keys : keyed.map Prod.fst = List.range' 1 keyed.length

theorem NumberedFor.ascending {producer : Identity} {id : String} {ps : List Publication}
    {keyed : List (Nat × Message)} (hp : NumberedFor producer incarnation id ps keyed) :
    Lossy.Ascending (numberOf id) ps ∧ (ps.filterMap (numberOf id)).length = keyed.length := by
  have hnumbers : ps.filterMap (numberOf id) = keyed.map Prod.fst := by
    rw [← hp.numbered, List.map_filterMap]
    rfl
  rw [Lossy.Ascending, hnumbers, hp.keys, List.length_range']
  exact ⟨rfl, rfl⟩

theorem NumberedFor.numberedBy {producer : Identity} {id : String} {ps : List Publication}
    {keyed : List (Nat × Message)} (hp : NumberedFor producer incarnation id ps keyed)
    {k : Nat × Message} (hk : k ∈ keyed) : numberedBy producer.instanceId k.2 = true := by
  rw [← hp.numbered] at hk
  obtain ⟨p, hmem, hnumbered⟩ := List.mem_filterMap.mp hk
  obtain ⟨s, hseat, rfl⟩ := Option.map_eq_some_iff.mp hnumbered
  obtain ⟨-, -, -, -, hproducer, hsequenced⟩ := (hp.published p hmem).of_seat hseat
  simp [OrderedRelay.numberedBy, hproducer, hsequenced]

/-- A layer that holds nothing yet and drops nothing. -/
structure Lossy.Fresh (layer : Lossy) : Prop where
  held : layer.held = []
  keeps : layer.config.dropRate.atMost .zero = true

/-- What leaves a layer of what is offered to it, once it has been flushed. -/
def Lossy.leaving (layer : Lossy) (offers : List (Chance × Publication)) (order : List Nat) :
    List Publication :=
  (layer.offerAll offers).2 ++ ((layer.offerAll offers).1.flush order).2

/-- All numbers leave the layer, at no point as many of them ahead of the first gap as its window is
wide, and nothing leaves that was not offered. -/
theorem NumberedFor.leaving {producer : Identity} {id : String} {layer : Lossy}
    {offers : List (Chance × Publication)} {keyed : List (Nat × Message)}
    (hp : NumberedFor producer incarnation id (offers.map Prod.snd) keyed) (hlayer : layer.Fresh)
    (order : List Nat) :
    labels (numberOf id) (layer.leaving offers order) = Finset.Icc 1 keyed.length ∧
      (∀ part, part <+: layer.leaving offers order →
        (ahead (labels (numberOf id) part)).card ≤ layer.config.window - 1) ∧
      (∀ p ∈ layer.leaving offers order, Published producer incarnation id p) ∧
      ∀ p ∈ layer.leaving offers order, ∀ k, numberedMessage id p = some k → k ∈ keyed := by
  obtain ⟨hascending, hlength⟩ := hp.ascending
  obtain ⟨hall, hnear, hmem⟩ := Lossy.offerAll_flush hlayer.keeps hlayer.held hascending order
  rw [hlength] at hall
  refine ⟨hall, hnear, fun p hleft => hp.published p (hmem p hleft), fun p hleft k hk => ?_⟩
  rw [← hp.numbered]
  exact List.mem_filterMap.mpr ⟨p, hmem p hleft, hk⟩

namespace Hub

variable {h : Hub Subscriber} {r : Nat} {i producer : Identity} {layer : Lossy}
  {offers : List (Chance × Publication)} {keyed : List (Nat × Message)}

/-- The strict tracking of a sender releases what was published for a relay in the order of its numbers,
if the window of the layer is within its lower bound. -/
theorem Serves.reassembled (hs : h.Serves r i) (hdomain : producer.domain = i.domain)
    (hfinite : incarnation.isFinite = true) (hlayer : layer.Fresh)
    (hwindow : layer.config.window ≤ min resyncAfter maxPending + 1)
    (hoffers : NumberedFor producer incarnation i.instanceId (offers.map Prod.snd) keyed)
    (order : List Nat) :
    let arrivals := h.arrivals r i producer (layer.leaving offers order)
    let accepted := Tracking.acceptAll (.strict maxPending resyncAfter) {} arrivals
    accepted.2 = keyed.map Prod.snd ∧ accepted.1.pending = [] := by
  intro arrivals accepted
  obtain ⟨hall, hnear, hout, hkeyed⟩ := hoffers.leaving hlayer order
  have hnumbers : numbersOf arrivals = Finset.Icc 1 keyed.length :=
    (hs.numbersOf_arrivals hdomain hout).trans hall
  have harrival : ∀ a ∈ arrivals, a.timestamp = incarnation ∧ (a.number, a.item) ∈ keyed ∧
      a.number < topNumber := by
    intro a ha
    obtain ⟨hts, p, hp, hp'⟩ := (hs.mem_arrivals hdomain hout).mp ha
    obtain ⟨s, hseat, heq⟩ := Option.map_eq_some_iff.mp hp'
    obtain ⟨-, -, -, hbelow, -⟩ := (hout p hp).of_seat hseat
    have hnumber : s.number = a.number := congrArg Prod.fst heq
    rw [hnumber] at hbelow
    exact ⟨hts, hkeyed p hp _ hp', hbelow⟩
  have hts : ∀ a ∈ arrivals, a.timestamp.equals incarnation = true := by
    intro a ha
    rw [(harrival a ha).1]
    exact Binary64.equals_self_of_isFinite hfinite
  -- At any point the numbers that have arrived are those that had left at some point.
  have hbound : WithinBounds maxPending resyncAfter arrivals := by
    intro past hpast
    obtain ⟨qs, hqs, hsame⟩ := hs.arrivals_part hdomain hout hpast
    have hcard := hnear qs hqs
    rw [hsame]
    unfold Policy.bound
    split_ifs <;> omega
  have hr := Tracking.reassembled_acceptAll hts (fun a ha => (harrival a ha).2.2) hbound
  have hreleased := hr.released_eq
  rw [hnumbers, completeUpTo_Icc] at hreleased
  have hcopies := firstCopy_of_keys hoffers.keys hnumbers fun a ha => (harrival a ha).2.1
  rw [map_range'_of_keys hoffers.keys hcopies] at hreleased
  refine ⟨List.map_injective_iff.mpr (Option.some_injective _) hreleased, ?_⟩
  refine List.eq_nil_iff_forall_not_mem.mpr fun n hn => ?_
  have hahead := (hr.knows.pending_iff n).mp hn
  rw [hnumbers, mem_ahead, completeUpTo_Icc, Finset.mem_Icc] at hahead
  omega

/-! ### The receiving side -/

theorem Serves.plainAside (hs : h.Serves r i) (hdomain : producer.domain = i.domain)
    {ps : List Publication} (hps : ∀ p ∈ ps, Published producer incarnation i.instanceId p) :
    ∀ d ∈ h.tellRelay r ps, Inbound.PlainAside d := by
  intro d hd hstream m hm
  obtain ⟨p, -, hcontent, hplain | ⟨hmessages, -⟩⟩ := hs.told hdomain hps hd
  · rwa [Except.ok.inj (hm.symm.trans hcontent)]
  · exact absurd hmessages hstream

/-- What a relay is told is numbered only if it has a seat in the order of the sender. -/
theorem Serves.messageCalls (hs : h.Serves r i) (hdomain : producer.domain = i.domain)
    {ps : List Publication} (hps : ∀ p ∈ ps, Published producer incarnation i.instanceId p) :
    ∀ c ∈ Inbound.messageCalls (h.tellRelay r ps), c.1.isSequenced = false ∧ c.2.header = c.1 ∨
      ∃ s, c.1.seat? i.instanceId = some s ∧ s.producer = producer.instanceId := by
  intro c hc
  obtain ⟨d, hd, -, m, hm, rfl⟩ := Inbound.mem_messageCalls.mp hc
  obtain ⟨p, hp, hcontent, hkind⟩ := hs.told hdomain hps hd
  obtain rfl : m = p.message := Except.ok.inj (hm.symm.trans hcontent)
  rcases hkind with hplain | ⟨-, n, -, hseat⟩
  · exact Or.inl ⟨hplain, rfl⟩
  · exact Or.inr ⟨_, hseat, rfl⟩

theorem Serves.arrivalsOf_other (hs : h.Serves r i) (hdomain : producer.domain = i.domain)
    {ps : List Publication} (hps : ∀ p ∈ ps, Published producer incarnation i.instanceId p)
    {other : String} (hother : other ≠ producer.instanceId) :
    arrivalsOf i.instanceId other (Inbound.messageCalls (h.tellRelay r ps)) = [] := by
  refine List.eq_nil_iff_forall_not_mem.mpr fun a ha => ?_
  obtain ⟨c, hc, s, hseat, hproducer, -⟩ := mem_arrivalsOf.mp ha
  rcases hs.messageCalls hdomain hps c hc with ⟨hplain, -⟩ | ⟨s', hseat', hproducer'⟩
  · rw [Header.seat?_of_not_isSequenced hplain] at hseat
    cases hseat
  · obtain rfl := Option.some.inj (hseat.symm.trans hseat')
    exact hother (hproducer.symm.trans hproducer')

/-- A strict reader that has not met the sender calls its handler with what was published for it, in the
order of its numbers, and nothing of the sender waits. -/
theorem Serves.handled (hs : h.Serves r i) (hdomain : producer.domain = i.domain)
    (hfinite : incarnation.isFinite = true) (hlayer : layer.Fresh)
    (hwindow : layer.config.window ≤ min resyncAfter maxPending + 1)
    (hoffers : NumberedFor producer incarnation i.instanceId (offers.map Prod.snd) keyed)
    {inbound : Inbound} {reader : Reader} (hreader : inbound.messages = some reader)
    (hconsumer : inbound.engine.consumer = i.instanceId)
    (hpolicy : inbound.engine.policy = .strict maxPending resyncAfter)
    (hnew : inbound.engine.tracking? producer.instanceId = none) (order : List Nat) :
    ∃ engine new, inbound.takeAll (h.tellRelay r (layer.leaving offers order)) =
        inbound.posted engine new ∧
      numberedCalls producer.instanceId reader.handler new = keyed.map Prod.snd ∧
      (engine.tracking producer.instanceId).pending = [] ∧
      ∀ other, other ≠ producer.instanceId →
        engine.tracking other = inbound.engine.tracking other := by
  obtain ⟨-, -, hout, -⟩ := hoffers.leaving hlayer order
  obtain ⟨hreleased, hpending⟩ := hs.reassembled hdomain hfinite hlayer hwindow hoffers order
  have htracking := Engine.tracking_of_unseen hnew
  obtain ⟨new, htake, hnumbered⟩ :=
    Inbound.takeAll_eq hreader (hs.plainAside hdomain hout) producer.instanceId
  have hrun := Engine.tracking_run inbound.engine
    (Inbound.messageCalls (h.tellRelay r (layer.leaving offers order)))
  rw [hconsumer, hpolicy] at hrun
  have hcalls : ∀ c ∈ Inbound.messageCalls (h.tellRelay r (layer.leaving offers order)),
      (c.1.placement = .none ∧ numberedBy producer.instanceId c.2 = false) ∨
        ∃ s, c.1.seat? inbound.engine.consumer = some s ∧ s.producer = producer.instanceId := by
    intro c hc
    rw [hconsumer]
    refine (hs.messageCalls hdomain hout c hc).imp_left fun ⟨hplain, hheader⟩ => ⟨?_, ?_⟩
    · simp [Header.placement, hplain]
    · simp [numberedBy, hheader, hplain]
  have hfiltered := Engine.filter_releases (numberedBy producer.instanceId) hcalls
  rw [htracking, hpolicy, hconsumer] at hfiltered
  refine ⟨_, new, htake, ?_, ?_, ?_⟩
  · rw [hnumbered, hfiltered]
    show (Tracking.acceptAll _ _ (h.arrivals r i producer (layer.leaving offers order))).2.filter _ = _
    rw [hreleased, List.filter_eq_self]
    intro m hm
    obtain ⟨k, hk, rfl⟩ := List.mem_map.mp hm
    exact hoffers.numberedBy hk
  · rw [hrun, htracking]
    exact hpending
  · intro other hother
    rw [hrun, hs.arrivalsOf_other hdomain hout hother]
    rfl

end Hub

/-! ### Writes to a reader -/

namespace Network

variable {n n' : Network} {s r link : Nat} {sender relay : Relay} {layer : Lossy} {reader : Reader}
  {writes : List Write}

/-- A relay that has numbered nothing yet, over a link of the hub behind a layer that is new and drops
nothing. -/
structure NewSender (n : Network) (s link : Nat) (sender : Relay) (layer : Lossy) : Prop where
  node : n.node? s = some ⟨link, sender⟩
  member : ∃ owner, n.link? link = some ⟨.channel owner, some layer⟩
  counters : sender.counters = {}
  finite : sender.incarnation.isFinite = true
  fresh : layer.Fresh

/-- At some time a relay has started to read messages over a link of the hub, and it has kept its
subscriptions since. -/
def HasStartedReading (n : Network) (r : Nat) (settings : RelaySettings) (reader : Reader) : Prop :=
  ∃ (before after : Network) (node : Node) (owner : Nat) (layer : Option Lossy),
    node.relay.settings = settings ∧
    before.node? r = some node ∧ before.link? node.link = some ⟨.channel owner, layer⟩ ∧
    before.startReading r .messages reader = (after, .ok ()) ∧
    ∀ x ∈ after.medium.hub.subscriptions, x.subscriber = .relay r .messages →
      x ∈ n.medium.hub.subscriptions

/-- A relay that reads messages over the hub and puts them in order strictly. Its id has a slot topic
of its own, which no other id and no wildcard shares. -/
structure StrictReader (n : Network) (r : Nat) (relay : Relay) (reader : Reader)
    (maxPending resyncAfter : Nat) : Prop where
  relay? : n.relay? r = some relay
  started : n.HasStartedReading r relay.settings reader
  reader : relay.inbound.messages = some reader
  ordering : relay.settings.ordering.toPolicy = .strict maxPending resyncAfter
  plain : Topic.Plain relay.settings.domain
  bare : '|' ∉ relay.settings.instanceId.toList
  level : relay.settings.instanceId ≠ Topic.anyLevel ∧ relay.settings.instanceId ≠ Topic.anyRest
  notEveryone : relay.settings.instanceId ≠ Header.everyone

theorem StrictReader.serves (hr : n.StrictReader r relay reader maxPending resyncAfter)
    (hn : n.Coherent) : n.medium.hub.Serves r relay.identity := by
  obtain ⟨before, after, node, owner, layer, hsettings, hnode, hlink, hstart, hkept⟩ := hr.started
  obtain ⟨-, -, hhas⟩ := startReading_channel hnode hlink hstart
  obtain ⟨x, hx, hpattern, hsubscriber⟩ := hhas _ (List.mem_cons_self ..)
  have hown : node.relay.identity.ownSlotTopic = relay.identity.ownSlotTopic := by
    rw [Relay.identity, Relay.identity, hsettings]
  exact ⟨hn.wired_relay hr.relay?, ⟨x, hkept x hx hsubscriber, hpattern.trans hown, hsubscriber⟩,
    hr.plain, hr.bare, hr.level⟩

theorem inbound?_runAll (n : Network) (r : Nat) :
    n.runAll.inbound? r =
      (n.inbound? r).map fun i => { i with dispatcher := i.dispatcher.flush } := by
  simp only [inbound?, Network.relay?, node?_runAll, Option.map_map]
  rfl

theorem NewSender.numberedFor {id : String} {offers : List (Chance × Publication)}
    (hs : n.NewSender s link sender layer)
    (h : (sender.prepareAll writes).map Prod.snd = some offers)
    (hdirect : ∀ w ∈ writes, w.Direct sender.identity) (hid : id ≠ Header.everyone)
    (hcount : (writes.filter fun w => w.addressee? sender.identity = some id).length < topNumber) :
    NumberedFor sender.identity sender.incarnation id (offers.map Prod.snd)
      (((writes.filter fun w => w.addressee? sender.identity = some id).zipIdx 1).map fun w =>
        (w.2, w.1.stamped w.2 sender.incarnation)) := by
  obtain ⟨⟨sender', _⟩, hprepared, rfl⟩ := Option.map_eq_some_iff.mp h
  have hgiven : sender.counters.given id = 0 := by
    rw [hs.counters]
    rfl
  obtain ⟨hpublished, hnumbered⟩ := Relay.prepareAll_numbered hprepared hdirect hs.finite hid (by
    rw [hgiven, Nat.zero_add]
    exact hcount)
  rw [hgiven] at hnumbered
  refine ⟨hpublished, hnumbered, ?_⟩
  rw [List.map_map, List.length_map, List.length_zipIdx]
  exact List.zipIdx_map_snd 1 _

/-- In any network that operations make, a new sender writes directly, or without numbers, over a layer
that drops nothing to a strict reader that it is new to. If the window of the layer is at most one wider
than the lower bound of the reader, then once the layer and the dispatcher are flushed the handler has
been called with the messages written to the reader, each once and in the order of the writes, and none
of the sender's messages waits. Nothing that is tracked of other producers has changed. Numbers have 64
bits, so the writes to the reader are fewer than 2^64 - 1. -/
theorem lossy_writes_handled_in_order (hn : n.Coherent)
    (hsender : n.NewSender s link sender layer)
    (hreader : n.StrictReader r relay reader maxPending resyncAfter)
    (hdomain : sender.settings.domain = relay.settings.domain)
    (hnew : relay.tracking? sender.settings.instanceId = none)
    (hwindow : layer.config.window ≤ min resyncAfter maxPending + 1)
    (hdirect : ∀ w ∈ writes, w.Direct sender.identity)
    (hcount : (writes.filter fun w =>
      w.addressee? sender.identity = some relay.settings.instanceId).length < topNumber)
    (hwrites : n.writeAll s writes = (n', .ok ())) (order : List Nat) :
    ∃ flushed, n'.onLink link (fun l m => l.flush m order) = (flushed, .ok ()) ∧
      ∃ inbound, flushed.runAll.inbound? r = some inbound ∧ inbound.dispatcher.waiting = [] ∧
        (∃ new, inbound.dispatcher.ran = relay.inbound.dispatcher.ran ++
            relay.inbound.dispatcher.waiting ++ new ∧
          numberedCalls sender.settings.instanceId reader.handler new =
            ((writes.filter fun w => w.addressee? sender.identity =
              some relay.settings.instanceId).zipIdx 1).map fun w =>
                w.1.stamped w.2 sender.incarnation) ∧
        (inbound.engine.tracking sender.settings.instanceId).pending = [] ∧
        ∀ producer, producer ≠ sender.settings.instanceId →
          inbound.engine.tracking producer = relay.inbound.engine.tracking producer := by
  obtain ⟨owner, hlink⟩ := hsender.member
  obtain ⟨rlink, hrnode⟩ := node?_of_relay? hreader.relay?
  obtain ⟨hconsumer, hpolicy⟩ := hn.serving r ⟨rlink, relay⟩ hrnode
  obtain ⟨hconn, offers, hprepared, hmedium, hlink', hheard⟩ :=
    writeAll_spread hsender.node hlink hwrites
  have hoffers := hsender.numberedFor hprepared hdirect hreader.notEveryone hcount
  -- Without writes nothing is left in the layer, and the link need not be connected.
  have hconn' : ((layer.offerAll offers).1.flush order).2 ≠ [] →
      n'.medium.hub.isConnected owner = true := by
    intro hne
    rw [hmedium]
    refine hconn fun hnone => hne ?_
    subst hnone
    obtain rfl : [] = offers := Option.some.inj hprepared
    exact Lossy.flush_of_empty hsender.fresh.held order
  obtain ⟨hflush, hspread⟩ := flush_spread hlink' hconn'
  obtain ⟨engine, new, htake, hnumbered, hpending, hothers⟩ :=
    (hreader.serves hn).handled hdomain hsender.finite hsender.fresh hwindow hoffers hreader.reader
      hconsumer (hpolicy.trans hreader.ordering) hnew order
  have hinbound : n.inbound? r = some relay.inbound := congrArg _ hreader.relay?
  have hend : (n'.onLink link fun l m => l.flush m order).1.inbound? r =
      some (relay.inbound.posted engine new) := by
    rw [hspread.inbound? r, hheard r, hinbound, hmedium, Option.map_some, Option.map_some, ← htake,
      Lossy.leaving, Hub.tellRelay_append, Inbound.takeAll_append]
  refine ⟨_, Prod.ext rfl hflush, { relay.inbound.posted engine new with
    dispatcher := (relay.inbound.posted engine new).dispatcher.flush }, ?_, rfl, ⟨new, ?_, ?_⟩,
    hpending, hothers⟩
  · rw [inbound?_runAll, hend]
    rfl
  · exact (List.append_assoc _ _ _).symm
  · refine hnumbered.trans ?_
    rw [List.map_map]
    rfl

/-! ### Two relays -/

/-- Everything leaves twice, in batches of three or more. -/
def sampleLayer : Lossy := { config := { duplicateRate := .one, window := 3 } }

def sampleSender : Relay := Relay.create { domain := "bus", instanceId := "S" } (.ofInt 7)

def sampleReceiver : Relay :=
  Relay.create { domain := "bus", instanceId := "R", consumeBroadcasts := false } (.ofInt 9)

/-- The two relays, of which only the receiver is connected. -/
def samplePair : Network :=
  [.addMember (some sampleLayer), .addMember none,
    .addRelay 0 sampleSender.settings sampleSender.incarnation,
    .addRelay 1 sampleReceiver.settings sampleReceiver.incarnation,
    .connect 1].foldl perform {}

/-- The sender connects after the receiver has started to read. -/
def sampleNetwork : Network :=
  [.startReading 1 .messages ⟨"H", true⟩, .connect 0].foldl perform samplePair

/-- The receiver once it reads. -/
def sampleReader : Relay :=
  { sampleReceiver with inbound := sampleReceiver.inbound.setReader .messages (some ⟨"H", true⟩) }

def sampleWrite (target consumer : String) (body : UInt8) : Write where
  target
  message := ⟨.ofList [(Header.producerField, .text "S"), (Header.verbField, .text "__call__"),
    (Header.consumersField, .text consumer)], [body]⟩
  chance := ⟨.zero, .zero, [3, 1]⟩

def sampleWrites : List Write :=
  [sampleWrite "bus" "R" 1, sampleWrite "bus" "X" 8, sampleWrite "bus" "R" 2,
    sampleWrite "bus_beats" "R" 9, sampleWrite "bus" "R" 3]

/-- Three of five writes are for the receiver. -/
theorem lossy_writes_handled_sample :
    ∃ flushed, (sampleNetwork.writeAll 0 sampleWrites).1.onLink 0 (fun l m => l.flush m [1]) =
        (flushed, .ok ()) ∧
      ∃ inbound, flushed.runAll.inbound? 1 = some inbound ∧
        (numberedCalls "S" "H" inbound.dispatcher.ran).map Message.body = [[1], [2], [3]] ∧
        (inbound.engine.tracking "S").pending = [] := by
  have hsender : sampleNetwork.NewSender 0 0 sampleSender sampleLayer :=
    ⟨rfl, ⟨0, rfl⟩, rfl, by decide +kernel, ⟨rfl, by decide +kernel⟩⟩
  have hcoherent : sampleNetwork.Coherent :=
    ((coherent_run _).perform (.startReading 1 .messages ⟨"H", true⟩)).perform (.connect 0)
  have hstarted : sampleNetwork.HasStartedReading 1 sampleReceiver.settings ⟨"H", true⟩ :=
    ⟨samplePair, samplePair.perform (.startReading 1 .messages ⟨"H", true⟩), ⟨1, sampleReceiver⟩, 1,
      none, rfl, rfl, rfl, rfl, fun x hx _ => hx⟩
  have hreader : sampleNetwork.StrictReader 1 sampleReader ⟨"H", true⟩ 256 16 :=
    ⟨rfl, hstarted, rfl, rfl, by decide +kernel, by decide +kernel, by decide +kernel,
      by decide +kernel⟩
  have hwrites : sampleNetwork.writeAll 0 sampleWrites =
      ((sampleNetwork.writeAll 0 sampleWrites).1, .ok ()) := Prod.ext rfl (by decide +kernel)
  obtain ⟨flushed, hflushed, inbound, hinbound, -, ⟨new, hran, hnew⟩, hpending, -⟩ :=
    lossy_writes_handled_in_order hcoherent hsender hreader rfl rfl (by decide) (by decide +kernel)
      (by decide +kernel) hwrites [1]
  refine ⟨flushed, hflushed, inbound, hinbound, ?_, hpending⟩
  rw [hran]
  exact (congrArg (List.map Message.body) hnew).trans (by decide +kernel)

end Network

end OrderedRelay
