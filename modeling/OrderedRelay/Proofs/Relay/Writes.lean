import OrderedRelay.Proofs.Message.Consumers
import OrderedRelay.Proofs.Sequencing.Counters
import OrderedRelay.Proofs.Sequencing.Stamp
import OrderedRelay.Proofs.Topic.Routes
import OrderedRelay.Proofs.Topic.Slots
import OrderedRelay.Relay.Basic
import OrderedRelay.Transport.Lossy

/-!
# What a relay's writes become

A direct write is either not numbered or goes to the slot of one consumer with that consumer's next
number. So of the publications of a new relay those for one consumer carry 1, 2 and so on in the order
of the writes.
-/

namespace OrderedRelay

/-! ### Writes -/

/-- A write, with the draws that its transport makes for it. -/
structure Write where
  target : String
  message : Message
  priority : Int := 0
  ttl : Int := 0
  chance : Chance

namespace Write

variable {i : Identity} {w : Write} {route : Route} {consumer : String}

/-- The header by which a write is routed: without any order numbers. -/
def header (w : Write) : Header := w.message.header.remove Header.orderNumbersField

/-- The write is not numbered, or its verb addresses one slot instance. -/
def Direct (i : Identity) (w : Write) : Prop :=
  ∀ route, i.route w.target w.header = .ok route →
    route.sequenceFor = none ∨ ∃ verb, w.header.verb? = some verb ∧ verb.isPointToPoint = true

instance (i : Identity) (w : Write) : Decidable (w.Direct i) := by
  unfold Direct
  cases i.route w.target w.header with
  | error fault => exact isTrue nofun
  | ok route =>
    exact decidable_of_iff (route.sequenceFor = none ∨
      ∃ verb ∈ w.header.verb?, verb.isPointToPoint = true) (by simp)

/-- The one consumer for whom a write is numbered. -/
def addressee? (i : Identity) (w : Write) : Option String :=
  match i.route w.target w.header with
  | .ok ⟨_, some [consumer]⟩ => some consumer
  | _ => none

/-- The message of a write as it goes out with a number. -/
def stamped (w : Write) (n : Nat) (incarnation : Binary64) : Message :=
  ⟨w.header.numbered [n] incarnation, w.message.body⟩

/-- The write goes to the slot of one consumer. -/
structure Addressed (i : Identity) (w : Write) (consumer raw : String) : Prop where
  routed : i.route w.target w.header = .ok ⟨i.slotTopic consumer, some [consumer]⟩
  producer : w.header.producer? = some i.instanceId
  text : w.header.consumersText? = some raw
  decoded : Consumers.decode raw = [consumer]

theorem Direct.cases (hdirect : w.Direct i) (h : i.route w.target w.header = .ok route) :
    (route.sequenceFor = none ∧ w.addressee? i = none) ∨
      ∃ consumer raw, w.Addressed i consumer raw ∧ w.addressee? i = some consumer ∧
        route = ⟨i.slotTopic consumer, some [consumer]⟩ := by
  have hnone : route.sequenceFor = none → w.addressee? i = none := by
    intro hseq
    obtain ⟨topic, sequenceFor⟩ := route
    dsimp only at hseq
    rw [addressee?, h, hseq]
  rcases hdirect route h with hseq | ⟨verb, hverb, hdirect⟩
  · exact Or.inl ⟨hseq, hnone hseq⟩
  · -- Heartbeats, debug messages, log entries and calls to everyone are not numbered.
    cases Identity.accepted_of_route h with
    | heartbeat | debug | log => exact Or.inl ⟨rfl, hnone rfl⟩
    | ordinary _ hordinary htaken =>
      obtain rfl := Option.some.inj (hverb.symm.trans hordinary.verb)
      cases htaken with
      | broadcast => exact Or.inl ⟨rfl, hnone rfl⟩
      | direct _ _ hdecode =>
        refine Or.inr ⟨_, _, ⟨h, hordinary.producer, hordinary.consumers, hdecode⟩, ?_, rfl⟩
        rw [addressee?, h]
      | signal => cases hdirect

theorem Addressed.seat? {raw id : String} {n : Nat} {incarnation : Binary64}
    (h : w.Addressed i consumer raw) (hfinite : incarnation.isFinite = true)
    (hn : n < Decimal.bound64) (hid : id ≠ Header.everyone) :
    (w.stamped n incarnation).header.seat? id =
      if consumer = id ∧ n ≠ 0 then some ⟨i.instanceId, incarnation, n⟩ else none := by
  by_cases hall : consumer = Header.everyone
  · have hlist : (w.stamped n incarnation).header.consumers = [Header.everyone] := by
      rw [stamped, Header.consumers, Header.consumersText?_numbered, h.text]
      show Consumers.decode raw = _
      rw [h.decoded, hall]
    have hnone : (w.stamped n incarnation).header.placement = .none := by
      simp [Header.placement, hlist]
    have hne : ¬ (consumer = id ∧ n ≠ 0) := fun hc => hid (hc.1 ▸ hall)
    rw [Header.seat?, hnone, if_neg hne]
  · have hnobody : Header.everyone ∉ Consumers.decode raw := by
      rw [h.decoded, List.mem_singleton]
      exact fun heq => hall heq.symm
    have hlength : [n].length = (Consumers.decode raw).length := by
      rw [h.decoded]
      rfl
    rw [stamped, Header.seat?_numbered h.producer h.text hnobody hlength (by simpa using hn) hfinite,
      h.decoded]
    by_cases hc : consumer = id <;> simp [Engine.numberFor, hc]

end Write

/-! ### Publications -/

/-- What a publication of a sender means for the consumer `id`: it is not numbered, it goes to the slot
of another instance, or it goes to its own slot with a number. -/
inductive Published (i : Identity) (incarnation : Binary64) (id : String) (p : Publication) : Prop
  | unnumbered (plain : p.message.header.isSequenced = false)
  | elsewhere (consumer : String) (bare : '|' ∉ consumer.toList) (other : consumer ≠ id)
      (topic : p.topic = i.slotTopic consumer) (seat : p.message.header.seat? id = none)
  | here (n : Nat) (below : n < topNumber) (topic : p.topic = i.slotTopic id)
      (seat : p.message.header.seat? id = some ⟨i.instanceId, incarnation, n⟩)
      (producer : p.message.header.producer? = some i.instanceId)
      (sequenced : p.message.header.isSequenced = true)

theorem Published.of_seat {i : Identity} {incarnation : Binary64} {id : String} {p : Publication}
    {s : Seat} (h : Published i incarnation id p) (hseat : p.message.header.seat? id = some s) :
    p.topic = i.slotTopic id ∧ s.producer = i.instanceId ∧ s.timestamp = incarnation ∧
      s.number < topNumber ∧ p.message.header.producer? = some i.instanceId ∧
      p.message.header.isSequenced = true := by
  cases h with
  | unnumbered hplain =>
    rw [Header.seat?_of_not_isSequenced hplain] at hseat
    cases hseat
  | elsewhere consumer hbare hother htopic hnone =>
    rw [hnone] at hseat
    cases hseat
  | here n hbelow htopic hhere hproducer hsequenced =>
    rw [hhere] at hseat
    obtain rfl := Option.some.inj hseat
    exact ⟨htopic, rfl, rfl, hbelow, hproducer, hsequenced⟩

/-- The number that a publication has for a consumer, with its message. -/
def numberedMessage (id : String) (p : Publication) : Option (Nat × Message) :=
  (p.message.header.seat? id).map fun s => (s.number, p.message)

namespace Relay

variable {r r' : Relay} {w : Write} {p : Publication} {id : String}

/-- Prepares writes one after another, if none is refused. -/
def prepareAll (r : Relay) : List Write → Option (Relay × List (Chance × Publication))
  | [] => some (r, [])
  | w :: rest =>
    match r.prepare w.target w.message w.priority w.ttl with
    | (_, .error _) => none
    | (r, .ok p) => (r.prepareAll rest).map fun (r, offers) => (r, (w.chance, p) :: offers)

theorem not_isSequenced_header (w : Write) : w.header.isSequenced = false := by
  have hgone : w.header.has Header.orderNumbersField = false := by
    have hget := Header.get?_remove w.message.header Header.orderNumbersField
      Header.orderNumbersField
    rw [if_pos rfl] at hget
    show (w.header.get? Header.orderNumbersField).isSome = false
    rw [Write.header, hget]
    rfl
  simp [Header.isSequenced, hgone]

theorem route_write (r : Relay) (w : Write) : r.route w.target w.message.header =
    match r.identity.route w.target w.header with
    | .ok route => .ok (route, w.header)
    | .error fault => .error (.logic (.route fault)) := rfl

theorem prepare_cases (h : r.prepare w.target w.message w.priority w.ttl = (r', .ok p))
    (hdirect : w.Direct r.identity) :
    (r' = r ∧ p.message.header.isSequenced = false ∧ w.addressee? r.identity = none) ∨
      ∃ consumer raw, w.Addressed r.identity consumer raw ∧
        w.addressee? r.identity = some consumer ∧ p.topic = r.identity.slotTopic consumer ∧
        p.message = w.stamped (r.counters.upcoming consumer) r.incarnation ∧
        r' = { r with counters := (r.counters.next consumer).1 } := by
  unfold prepare at h
  rw [route_write] at h
  cases hroute : r.identity.route w.target w.header with
  | error fault =>
    rw [hroute] at h
    cases h
  | ok route =>
    rw [hroute] at h
    dsimp only at h
    rcases hdirect.cases hroute with ⟨hnone, hnobody⟩ | ⟨consumer, raw, haddressed, hsome, rfl⟩
    · rw [stamp, hnone] at h
      obtain ⟨rfl, rfl⟩ := h
      exact Or.inl ⟨rfl, not_isSequenced_header w, hnobody⟩
    · rw [stamp] at h
      obtain ⟨rfl, rfl⟩ := h
      exact Or.inr ⟨consumer, raw, haddressed, hsome, rfl, rfl, rfl⟩

/-- A consumer is seated by its own writes alone, under its next number. -/
theorem seat?_upcoming {consumer raw : String} (h : w.Addressed r.identity consumer raw)
    (hfinite : r.incarnation.isFinite = true) (hid : id ≠ Header.everyone)
    (hcount : consumer = id → r.counters.given id + 1 < topNumber) :
    (w.stamped (r.counters.upcoming consumer) r.incarnation).header.seat? id =
      if consumer = id then
        some ⟨r.identity.instanceId, r.incarnation, r.counters.given id + 1⟩
      else none := by
  rw [h.seat? hfinite (r.counters.upcoming_lt consumer) hid]
  by_cases hc : consumer = id
  · have htop := hcount hc
    subst hc
    have hnext := Counters.upcoming_of_lt (c := r.counters) (x := consumer) (by omega)
    rw [if_pos ⟨rfl, by omega⟩, if_pos rfl, hnext]
  · rw [if_neg fun hboth => hc hboth.1, if_neg hc]

theorem published_of_prepare (h : r.prepare w.target w.message w.priority w.ttl = (r', .ok p))
    (hdirect : w.Direct r.identity) (hfinite : r.incarnation.isFinite = true)
    (hid : id ≠ Header.everyone)
    (hcount : w.addressee? r.identity = some id → r.counters.given id + 1 < topNumber) :
    Published r.identity r.incarnation id p := by
  rcases prepare_cases h hdirect with ⟨-, hplain, -⟩ |
    ⟨consumer, raw, haddressed, hsome, htopic, hp, -⟩
  · exact .unnumbered hplain
  · have hseat := seat?_upcoming haddressed hfinite hid fun hc => hcount (hc ▸ hsome)
    rw [← hp] at hseat
    by_cases hc : consumer = id
    · subst hc
      rw [if_pos rfl] at hseat
      refine .here _ (hcount hsome) htopic hseat ?_ ?_
      · rw [hp, Write.stamped, Header.producer?_numbered, haddressed.producer]
      · rw [hp]
        exact Header.isSequenced_numbered haddressed.producer haddressed.text
    · have hbare : '|' ∉ consumer.toList := Consumers.bar_not_mem_of_mem_decode (by
        rw [haddressed.decoded]
        exact List.mem_singleton_self consumer)
      rw [if_neg hc] at hseat
      exact .elsewhere consumer hbare hc htopic hseat

/-- What one prepared direct write adds to the numbers of the consumer `id`. -/
theorem numberedMessage_of_prepare
    (h : r.prepare w.target w.message w.priority w.ttl = (r', .ok p))
    (hdirect : w.Direct r.identity) (hfinite : r.incarnation.isFinite = true)
    (hid : id ≠ Header.everyone)
    (hcount : w.addressee? r.identity = some id → r.counters.given id + 1 < topNumber) :
    r'.identity = r.identity ∧ r'.incarnation = r.incarnation ∧
      ((w.addressee? r.identity = some id ∧ r'.counters.given id = r.counters.given id + 1 ∧
        numberedMessage id p = some (r.counters.given id + 1,
          w.stamped (r.counters.given id + 1) r.incarnation)) ∨
      (w.addressee? r.identity ≠ some id ∧ r'.counters.given id = r.counters.given id ∧
        numberedMessage id p = none)) := by
  rcases prepare_cases h hdirect with ⟨rfl, hplain, hnobody⟩ |
    ⟨consumer, raw, haddressed, hsome, htopic, hp, rfl⟩
  · refine ⟨rfl, rfl, Or.inr ⟨by simp [hnobody], rfl, ?_⟩⟩
    rw [numberedMessage, Header.seat?_of_not_isSequenced hplain]
    rfl
  · have hseat := seat?_upcoming haddressed hfinite hid fun hc => hcount (hc ▸ hsome)
    have hgiven := r.counters.given_next consumer id
    rw [← hp] at hseat
    refine ⟨rfl, rfl, ?_⟩
    by_cases hc : consumer = id
    · subst hc
      have htop := hcount hsome
      have hnext := Counters.upcoming_of_lt (c := r.counters) (x := consumer) (by omega)
      rw [if_pos rfl] at hseat
      rw [if_pos rfl, hnext] at hgiven
      refine Or.inl ⟨hsome, hgiven, ?_⟩
      rw [numberedMessage, hseat, hp, hnext]
      rfl
    · rw [if_neg hc] at hseat
      rw [if_neg fun heq => hc heq.symm] at hgiven
      refine Or.inr ⟨by simp [hsome, hc], hgiven, ?_⟩
      rw [numberedMessage, hseat]
      rfl

/-- What writes go out as: each is published for somebody, and those for the consumer `id` carry its
numbers one after another. -/
theorem prepareAll_numbered {writes : List Write} {offers : List (Chance × Publication)}
    (h : r.prepareAll writes = some (r', offers)) (hdirect : ∀ w ∈ writes, w.Direct r.identity)
    (hfinite : r.incarnation.isFinite = true) (hid : id ≠ Header.everyone)
    (hcount : r.counters.given id +
      (writes.filter fun w => w.addressee? r.identity = some id).length < topNumber) :
    (∀ p ∈ offers.map Prod.snd, Published r.identity r.incarnation id p) ∧
      (offers.map Prod.snd).filterMap (numberedMessage id) =
        ((writes.filter fun w => w.addressee? r.identity = some id).zipIdx
          (r.counters.given id + 1)).map fun w => (w.2, w.1.stamped w.2 r.incarnation) := by
  induction writes generalizing r offers with
  | nil =>
    obtain ⟨rfl, rfl⟩ := Option.some.inj h
    exact ⟨nofun, rfl⟩
  | cons w rest ih =>
    rw [prepareAll] at h
    rcases hprepared : r.prepare w.target w.message w.priority w.ttl with ⟨r₁, e | p⟩
    · rw [hprepared] at h
      cases h
    · rw [hprepared] at h
      obtain ⟨⟨r₂, later⟩, hlater, heq⟩ := Option.map_eq_some_iff.mp h
      obtain ⟨rfl, rfl⟩ := heq
      have hw := hdirect w (List.mem_cons_self ..)
      have hone : w.addressee? r.identity = some id → r.counters.given id + 1 < topNumber := by
        intro hto
        rw [List.filter_cons_of_pos (by simpa using hto), List.length_cons] at hcount
        omega
      obtain ⟨hidentity, hincarnation, hnumber⟩ :=
        numberedMessage_of_prepare hprepared hw hfinite hid hone
      have hpublished := published_of_prepare hprepared hw hfinite hid hone
      have hrest : ∀ v ∈ rest, v.Direct r₁.identity := by
        intro v hv
        rw [hidentity]
        exact hdirect v (List.mem_cons_of_mem w hv)
      have htail := ih hlater hrest (hincarnation ▸ hfinite) (by
        rw [hidentity]
        rcases hnumber with ⟨hto, hgiven, -⟩ | ⟨hto, hgiven, -⟩
        · rw [List.filter_cons_of_pos (by simpa using hto), List.length_cons] at hcount
          omega
        · rw [List.filter_cons_of_neg (by simpa using hto)] at hcount
          omega)
      rw [hidentity, hincarnation] at htail
      refine ⟨List.forall_mem_cons.mpr ⟨hpublished, htail.1⟩, ?_⟩
      -- A write to the consumer takes the next number, any other one leaves the counter as it is.
      rw [List.map_cons, List.filterMap_cons]
      rcases hnumber with ⟨hto, hgiven, hp⟩ | ⟨hto, hgiven, hp⟩
      · rw [hp, htail.2, hgiven]
        simp [hto]
      · rw [hp, htail.2, hgiven]
        simp [hto]

theorem prepare_inbound (r : Relay) (i : Inbound) (target : String) (m : Message)
    (priority ttl : Int) :
    { r with inbound := i }.prepare target m priority ttl =
      ({ (r.prepare target m priority ttl).1 with inbound := i },
        (r.prepare target m priority ttl).2) := by
  have hroute : { r with inbound := i }.route target m.header = r.route target m.header := rfl
  unfold prepare
  rw [hroute]
  rcases r.route target m.header with e | ⟨⟨topic, none | consumers⟩, h⟩ <;> rfl

theorem prepareAll_inbound (r : Relay) (i : Inbound) (writes : List Write) :
    { r with inbound := i }.prepareAll writes =
      (r.prepareAll writes).map fun (r, offers) => ({ r with inbound := i }, offers) := by
  induction writes generalizing r with
  | nil => rfl
  | cons w rest ih =>
    rw [prepareAll, prepareAll, prepare_inbound]
    rcases r.prepare w.target w.message w.priority w.ttl with ⟨r₁, e | p⟩
    · rfl
    · dsimp only
      rw [ih r₁, Option.map_map, Option.map_map]
      rfl

theorem prepare_keeps {target : String} {m : Message} {priority ttl : Int}
    {result : Except RelayError Publication} (h : r.prepare target m priority ttl = (r', result)) :
    r'.settings = r.settings ∧ r'.incarnation = r.incarnation ∧ r'.inbound = r.inbound := by
  obtain rfl : r' = (r.prepare target m priority ttl).1 := by rw [h]
  unfold prepare
  rcases r.route target m.header with e | ⟨⟨topic, none | consumers⟩, hd⟩ <;> exact ⟨rfl, rfl, rfl⟩

end Relay

end OrderedRelay
