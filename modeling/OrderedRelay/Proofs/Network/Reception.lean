import OrderedRelay.Proofs.Network.Subscriptions
import OrderedRelay.Proofs.Relay.Writes
import OrderedRelay.Proofs.Sequencing.Reassembly
import OrderedRelay.Proofs.Topic.Addressing
import OrderedRelay.Proofs.Transport.Batches

/-!
# What reaches a relay

A hub that serves a relay tells it of the numbered publications of a sender only if they go to its own
slot, and then on the stream of messages. So the arrivals that its engine counts for the sender have the
numbers and the messages of what was published for it, and at any point just those of what had left by
then.
-/

namespace OrderedRelay

def numberOf (id : String) (p : Publication) : Option Nat := (numberedMessage id p).map Prod.fst

namespace Hub

variable {h : Hub Subscriber} {r : Nat} {i : Identity} {producer : Identity}
  {incarnation : Binary64} {p : Publication} {ps : List Publication}

/-- A hub tells a relay of what goes to its own slot, and of what it reads besides. -/
structure Serves (h : Hub Subscriber) (r : Nat) (i : Identity) : Prop where
  wired : ∀ x ∈ h.subscriptions, ∀ stream, x.subscriber = .relay r stream → i.Feeds x.pattern stream
  slot : h.Has i.ownSlotTopic (.relay r .messages)
  plain : Topic.Plain i.domain
  bare : '|' ∉ i.instanceId.toList
  level : i.instanceId ≠ Topic.anyLevel ∧ i.instanceId ≠ Topic.anyRest

theorem Serves.own_matches_iff (hs : h.Serves r i) {consumer : String}
    (hbare : '|' ∉ consumer.toList) :
    Topic.isMatch i.ownSlotTopic (i.slotTopic consumer) = true ↔ i.instanceId = consumer :=
  Identity.isMatch_slotTopic_bare hs.plain.anyRest_not_mem hs.level hs.bare hbare

/-- Of the patterns of an instance only its own slot's matches a slot. -/
theorem Serves.own_of_isMatch (hs : h.Serves r i) {pattern consumer : String} {stream : Stream}
    (hfeeds : i.Feeds pattern stream) (hbare : '|' ∉ consumer.toList)
    (hmatch : Topic.isMatch pattern (i.slotTopic consumer) = true) :
    stream = .messages ∧ consumer = i.instanceId := by
  have hother : ∀ {level : String} {rest : List String},
      Topic.levels pattern = Topic.levels i.domain ++ level :: rest →
      level ≠ Topic.anyLevel ∧ level ≠ Topic.anyRest → level ≠ Topic.slotsLevel → False := by
    intro level rest hlevels hlevel hne
    rw [Identity.not_isMatch_slotTopic hs.plain hlevels hlevel hne] at hmatch
    cases hmatch
  cases stream with
  | messages =>
    rcases hfeeds with rfl | rfl | ⟨emitter, name, rfl⟩
    · exact ⟨rfl, ((hs.own_matches_iff hbare).mp hmatch).symm⟩
    · exact (hother i.levels_globalSlotsTopic (by decide) (by decide)).elim
    · exact (hother (i.levels_signalTopic emitter name) (by decide) (by decide)).elim
  | heartbeats =>
    obtain rfl : pattern = i.heartbeatPattern := hfeeds
    exact (hother i.levels_heartbeatPattern (by decide) (by decide)).elim
  | logs =>
    obtain rfl : pattern = i.logTopic := hfeeds
    exact (hother i.levels_logTopic (by decide) (by decide)).elim

theorem Serves.own_matches (hs : h.Serves r i) :
    Topic.isMatch i.ownSlotTopic (i.slotTopic i.instanceId) = true :=
  (hs.own_matches_iff hs.bare).mpr rfl

/-- What the relay is told is not numbered, or it is for the relay and comes on the stream of
messages. -/
theorem Serves.told (hs : h.Serves r i) (hdomain : producer.domain = i.domain)
    (hps : ∀ p ∈ ps, Published producer incarnation i.instanceId p) {d : Delivery Stream}
    (hd : d ∈ h.tellRelay r ps) :
    ∃ p ∈ ps, d.content = .ok p.message ∧ (p.message.header.isSequenced = false ∨
      (d.subscriber = .messages ∧ ∃ n, n < topNumber ∧
        p.message.header.seat? i.instanceId = some ⟨producer.instanceId, incarnation, n⟩)) := by
  obtain ⟨p, hp, x, hx, hsubscriber, hmatch, -, hcontent⟩ := mem_tellRelay.mp hd
  have hslot : ∀ consumer, producer.slotTopic consumer = i.slotTopic consumer := by
    intro consumer
    rw [Identity.slotTopic, Identity.slotTopic, hdomain]
  have hfeeds := hs.wired x hx d.subscriber hsubscriber
  refine ⟨p, hp, hcontent, ?_⟩
  cases hps p hp with
  | unnumbered hplain => exact Or.inl hplain
  | elsewhere consumer hbare hother htopic hseat =>
    rw [htopic, hslot] at hmatch
    exact absurd (hs.own_of_isMatch hfeeds hbare hmatch).2 hother
  | here n hbelow htopic hseat hproducer hsequenced =>
    rw [htopic, hslot] at hmatch
    exact Or.inr ⟨(hs.own_of_isMatch hfeeds hs.bare hmatch).1, n, hbelow, hseat⟩

theorem Serves.reached (hs : h.Serves r i) (hp : p ∈ ps)
    (htopic : p.topic = i.slotTopic i.instanceId) :
    ∃ d ∈ h.tellRelay r ps, d.subscriber = .messages ∧ d.content = .ok p.message := by
  obtain ⟨x, hx, hpattern, hsubscriber⟩ := hs.slot
  have hmatch : Topic.isMatch x.pattern p.topic = true := by
    rw [hpattern, htopic]
    exact hs.own_matches
  exact ⟨⟨.messages, p.topic, .ok p.message⟩,
    mem_tellRelay.mpr ⟨p, hp, x, hx, hsubscriber, hmatch, rfl, rfl⟩, rfl, rfl⟩

/-- The arrivals that a relay counts for a producer when publications arrive one after another. -/
def arrivals (h : Hub Subscriber) (r : Nat) (i producer : Identity) (ps : List Publication) :
    List (Arrival Message) :=
  arrivalsOf i.instanceId producer.instanceId (Inbound.messageCalls (h.tellRelay r ps))

theorem arrivals_append (h : Hub Subscriber) (r : Nat) (i producer : Identity)
    (ps qs : List Publication) :
    h.arrivals r i producer (ps ++ qs) = h.arrivals r i producer ps ++ h.arrivals r i producer qs := by
  simp [arrivals, tellRelay_append, arrivalsOf, Inbound.messageCalls]

/-- The arrivals are what was published for the relay, with the same numbers. -/
theorem Serves.mem_arrivals (hs : h.Serves r i) (hdomain : producer.domain = i.domain)
    (hps : ∀ p ∈ ps, Published producer incarnation i.instanceId p) {a : Arrival Message} :
    a ∈ h.arrivals r i producer ps ↔ a.timestamp = incarnation ∧
      ∃ p ∈ ps, numberedMessage i.instanceId p = some (a.number, a.item) := by
  rw [arrivals, mem_arrivalsOf]
  constructor
  · rintro ⟨c, hc, s, hseat, -, rfl⟩
    obtain ⟨d, hd, -, m, hm, rfl⟩ := Inbound.mem_messageCalls.mp hc
    obtain ⟨p, hp, hcontent, -⟩ := hs.told hdomain hps hd
    obtain rfl : m = p.message := Except.ok.inj (hm.symm.trans hcontent)
    obtain ⟨-, -, hts, -⟩ := (hps p hp).of_seat hseat
    refine ⟨hts, p, hp, ?_⟩
    rw [numberedMessage, hseat]
    rfl
  · rintro ⟨hts, p, hp, hnumbered⟩
    obtain ⟨s, hseat, heq⟩ := Option.map_eq_some_iff.mp hnumbered
    obtain ⟨htopic, hproducer, htimestamp, -⟩ := (hps p hp).of_seat hseat
    rw [Identity.slotTopic, hdomain] at htopic
    obtain ⟨d, hd, hstream, hcontent⟩ := hs.reached hp htopic
    refine ⟨(p.message.header, p.message), ?_, s, hseat, hproducer, ?_⟩
    · exact Inbound.mem_messageCalls.mpr ⟨d, hd, hstream, p.message, hcontent, rfl⟩
    · obtain ⟨number, timestamp, item⟩ := a
      obtain ⟨hnumber, hitem⟩ := Prod.mk.inj heq
      dsimp only at hts hnumber hitem ⊢
      rw [hnumber, hitem, htimestamp, hts]

theorem mem_labels_numberOf {id : String} {k : Nat} :
    k ∈ labels (numberOf id) ps ↔ ∃ p ∈ ps, ∃ m, numberedMessage id p = some (k, m) := by
  rw [labels, List.mem_toFinset, List.mem_filterMap]
  constructor
  · rintro ⟨p, hp, hnumber⟩
    obtain ⟨⟨_, m⟩, hnumbered, rfl⟩ := Option.map_eq_some_iff.mp hnumber
    exact ⟨p, hp, m, hnumbered⟩
  · rintro ⟨p, hp, m, hnumbered⟩
    exact ⟨p, hp, by rw [numberOf, hnumbered]; rfl⟩

theorem Serves.numbersOf_arrivals (hs : h.Serves r i) (hdomain : producer.domain = i.domain)
    (hps : ∀ p ∈ ps, Published producer incarnation i.instanceId p) :
    numbersOf (h.arrivals r i producer ps) = labels (numberOf i.instanceId) ps := by
  ext k
  rw [mem_numbersOf, List.mem_map, mem_labels_numberOf]
  constructor
  · rintro ⟨a, ha, rfl⟩
    obtain ⟨-, p, hp, hnumbered⟩ := (hs.mem_arrivals hdomain hps).mp ha
    exact ⟨p, hp, a.item, hnumbered⟩
  · rintro ⟨p, hp, m, hnumbered⟩
    exact ⟨⟨k, incarnation, m⟩, (hs.mem_arrivals hdomain hps).mpr ⟨rfl, p, hp, hnumbered⟩, rfl⟩

/-- The arrivals up to any point have the numbers of what had left by some point: those of one
publication all have its number. -/
theorem Serves.arrivals_part (hs : h.Serves r i) (hdomain : producer.domain = i.domain)
    (hps : ∀ p ∈ ps, Published producer incarnation i.instanceId p) {part : List (Arrival Message)}
    (hpart : part <+: h.arrivals r i producer ps) :
    ∃ qs, qs <+: ps ∧ numbersOf part = labels (numberOf i.instanceId) qs := by
  induction ps using List.reverseRecOn with
  | nil =>
    obtain rfl : part = [] := List.prefix_nil.mp hpart
    exact ⟨[], List.prefix_rfl, rfl⟩
  | append_singleton past p ih =>
    have hpast : ∀ q ∈ past, Published producer incarnation i.instanceId q :=
      fun q hq => hps q (List.mem_append_left _ hq)
    have hwhole := hs.numbersOf_arrivals hdomain hps
    rw [arrivals_append] at hpart hwhole
    -- Either the last publication has not been reached, or some of its copies have arrived.
    rcases List.prefix_or_prefix_of_prefix hpart (List.prefix_append _ _) with hold | ⟨b, rfl⟩
    · obtain ⟨qs, hqs, hnumbers⟩ := ih hpast hold
      exact ⟨qs, hqs.trans (List.prefix_append _ _), hnumbers⟩
    · rw [List.prefix_append_right_inj] at hpart
      cases b with
      | nil =>
        refine ⟨past, List.prefix_append _ _, ?_⟩
        rw [List.append_nil, hs.numbersOf_arrivals hdomain hpast]
      | cons a rest =>
        have hsingle : ∀ q ∈ [p], Published producer incarnation i.instanceId q :=
          fun q hq => hps q (List.mem_append_right _ hq)
        have hnumber : ∀ c ∈ h.arrivals r i producer [p],
            numberOf i.instanceId p = some c.number := by
          intro c hc
          obtain ⟨-, q, hq, hnumbered⟩ := (hs.mem_arrivals hdomain hsingle).mp hc
          rw [List.mem_singleton.mp hq] at hnumbered
          rw [numberOf, hnumbered]
          rfl
        have hone := numbersOf_of_prefix (fun c hc d hd =>
          Option.some.inj ((hnumber c hc).symm.trans (hnumber d hd))) hpart
        refine ⟨past ++ [p], List.prefix_rfl, hwhole ▸ ?_⟩
        rw [numbersOf_append, numbersOf_append, hone]

end Hub

end OrderedRelay
