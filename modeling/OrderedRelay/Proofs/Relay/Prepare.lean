import OrderedRelay.Proofs.Relay.Writes

/-!
# What a prepared write consists of

A numbered route has a producer and a list of consumers in the header, and the numbers go to that list
as it stands there. So a prepared write is its header and body, with numbers only where its route asks
for them, and the counters have moved on by exactly these.
-/

namespace OrderedRelay

/-! ### Numbered routes -/

/-- The consumers for whom a route takes numbers. -/
def Route.takers (route : Route) : List String := route.sequenceFor.getD []

namespace Identity

variable {i : Identity} {target : String} {h : Header} {route : Route} {cs : List String}

/-- A numbered route reads its consumers and the instance itself off the header. -/
theorem fields_of_route (hroute : i.route target h = .ok route)
    (hcs : route.sequenceFor = some cs) :
    h.producer? = some i.instanceId ∧
      ∃ raw, h.consumersText? = some raw ∧ cs = Consumers.decode raw := by
  -- Heartbeats, debug messages, log entries and calls to everyone are not numbered.
  cases accepted_of_route hroute with
  | heartbeat | debug | log => cases hcs
  | ordinary _ hordinary htaken =>
    refine ⟨hordinary.producer, _, hordinary.consumers, ?_⟩
    cases htaken with
    | broadcast => cases hcs
    | direct _ _ hdecode =>
      rw [hdecode]
      exact (Option.some.inj hcs).symm
    | signal => exact (Option.some.inj hcs).symm

end Identity

/-! ### Prepared writes -/

/-- A write as it goes out on a route, with the given numbers if the route asks for any. -/
def Write.published (w : Write) (route : Route) (ns : List Nat) (incarnation : Binary64) :
    Publication where
  topic := route.topic
  message := {
    header := if route.sequenceFor.isSome then w.header.numbered ns incarnation else w.header
    body := w.message.body }
  options := .ofPriority w.priority w.ttl

namespace Relay

variable {r r' : Relay} {w : Write} {route : Route} {fault : RouteFault} {p : Publication}

theorem prepare_ok (hroute : r.identity.route w.target w.header = .ok route) :
    r.prepare w.target w.message w.priority w.ttl =
      ({ r with counters := (r.counters.nextAll route.takers).1 },
        .ok (w.published route (r.counters.nextAll route.takers).2 r.incarnation)) := by
  unfold prepare
  rw [route_write, hroute]
  obtain ⟨topic, none | cs⟩ := route <;> rfl

theorem prepare_error (hroute : r.identity.route w.target w.header = .error fault) :
    r.prepare w.target w.message w.priority w.ttl = (r, .error (.logic (.route fault))) := by
  unfold prepare
  rw [route_write, hroute]

theorem route_of_prepare (h : r.prepare w.target w.message w.priority w.ttl = (r', .ok p)) :
    ∃ route, r.identity.route w.target w.header = .ok route ∧
      r' = { r with counters := (r.counters.nextAll route.takers).1 } ∧
      p = w.published route (r.counters.nextAll route.takers).2 r.incarnation := by
  cases hroute : r.identity.route w.target w.header with
  | error fault =>
    rw [prepare_error hroute] at h
    cases h
  | ok route =>
    rw [prepare_ok hroute] at h
    obtain ⟨rfl, hp⟩ := Prod.mk.inj h
    exact ⟨route, rfl, rfl, (Except.ok.inj hp).symm⟩

end Relay

/-! ### Numbers on the wire -/

/-- The numbers that a header states at the places of a consumer. -/
def Header.numbersFor (consumer : String) (h : Header) : List Nat :=
  match OrderNumbers.decode (h.orderNumbersText?.getD "") with
  | .ok ns => numbersAt consumer h.consumers ns
  | .error _ => []

theorem numbersAt_nil (x : String) (cs : List String) : numbersAt x cs [] = [] := by
  cases cs <;> rfl

theorem Write.orderNumbersText?_header (w : Write) : w.header.orderNumbersText? = none := by
  rw [Header.orderNumbersText?, Header.text?, Write.header, Header.get?_remove, if_pos rfl]
  rfl

theorem Write.has_published_unnumbered {w : Write} {route : Route}
    (hnone : route.sequenceFor = none) (ns : List Nat) (incarnation : Binary64) :
    (w.published route ns incarnation).message.header.has Header.orderNumbersField = false := by
  unfold published
  rw [hnone]
  show (w.header.get? Header.orderNumbersField).isSome = false
  rw [header, Header.get?_remove, if_pos rfl]
  rfl

/-- What a consumer finds at its places is what the route gave it. -/
theorem Write.numbersFor_published {i : Identity} {w : Write} {route : Route} {ns : List Nat}
    (hroute : i.route w.target w.header = .ok route) (hbound : ∀ n ∈ ns, n < Decimal.bound64)
    (incarnation : Binary64) (x : String) :
    (w.published route ns incarnation).message.header.numbersFor x =
      numbersAt x route.takers ns := by
  cases hcs : route.sequenceFor with
  | none =>
    have hplain : (w.published route ns incarnation).message.header = w.header := by
      simp [Write.published, hcs]
    have hdecode : OrderNumbers.decode "" = .ok [] := by decide
    rw [hplain, Header.numbersFor, w.orderNumbersText?_header, Option.getD_none, hdecode,
      Route.takers, hcs]
    exact numbersAt_nil x _
  | some cs =>
    obtain ⟨-, raw, htext, hlist⟩ := Identity.fields_of_route hroute hcs
    have hnumbered : (w.published route ns incarnation).message.header =
        w.header.numbered ns incarnation := by
      simp [Write.published, hcs]
    have hconsumers : (w.header.numbered ns incarnation).consumers = cs := by
      simp only [Header.consumers, Header.consumersText?_numbered, htext, hlist]
    rw [hnumbered, Header.numbersFor, Header.orderNumbersText?_numbered, Option.getD_some,
      OrderNumbers.decode_encode hbound, hconsumers, Route.takers, hcs, Option.getD_some]

/-! ### Writes one after another -/

/-- The consumers for whom a write takes numbers, none if it is refused. -/
def Write.takers (i : Identity) (w : Write) : List String :=
  match i.route w.target w.header with
  | .ok route => route.takers
  | .error _ => []

/-- The numbers that a prepared write has at the places of a consumer. -/
def preparedNumbers (consumer : String) : Except RelayError Publication → List Nat
  | .ok p => p.message.header.numbersFor consumer
  | .error _ => []

namespace Relay

/-- Prepares writes one after another, refused ones among them. -/
def prepareEach (r : Relay) : List Write → Relay × List (Except RelayError Publication)
  | [] => (r, [])
  | w :: rest =>
    let (r, result) := r.prepare w.target w.message w.priority w.ttl
    let (r, results) := r.prepareEach rest
    (r, result :: results)

theorem prepareEach_cons (r : Relay) (w : Write) (rest : List Write) :
    r.prepareEach (w :: rest) =
      (((r.prepare w.target w.message w.priority w.ttl).1.prepareEach rest).1,
        (r.prepare w.target w.message w.priority w.ttl).2 ::
          ((r.prepare w.target w.message w.priority w.ttl).1.prepareEach rest).2) := rfl

theorem prepare_fst (r : Relay) (w : Write) :
    (r.prepare w.target w.message w.priority w.ttl).1 =
      { r with counters := (r.counters.nextAll (w.takers r.identity)).1 } := by
  unfold Write.takers
  cases hroute : r.identity.route w.target w.header with
  | error fault => rw [prepare_error hroute, Counters.nextAll_nil]
  | ok route => rw [prepare_ok hroute]

theorem prepareEach_fst (r : Relay) (writes : List Write) :
    (r.prepareEach writes).1 = { r with counters :=
      (r.counters.nextAll (writes.flatMap (Write.takers r.identity))).1 } := by
  induction writes generalizing r with
  | nil => rfl
  | cons w rest ih =>
    rw [prepareEach_cons, prepare_fst, ih, List.flatMap_cons, Counters.nextAll_append]
    rfl

theorem prepareEach_append (r : Relay) (xs ys : List Write) :
    r.prepareEach (xs ++ ys) = (((r.prepareEach xs).1.prepareEach ys).1,
      (r.prepareEach xs).2 ++ ((r.prepareEach xs).1.prepareEach ys).2) := by
  induction xs generalizing r with
  | nil => rfl
  | cons w rest ih =>
    rw [List.cons_append, prepareEach_cons, prepareEach_cons, ih, List.cons_append]

/-- Writes that all go out do so on their routes. -/
theorem published_of_prepareEach {r : Relay} {writes : List Write} {ps : List Publication}
    (h : (r.prepareEach writes).2 = ps.map .ok) :
    List.Forall₂ (fun w p => ∃ route ns, r.identity.route w.target w.header = .ok route ∧
      p = w.published route ns r.incarnation) writes ps := by
  induction writes generalizing r ps with
  | nil =>
    obtain rfl : ps = [] := List.map_eq_nil_iff.mp h.symm
    exact .nil
  | cons w rest ih =>
    cases ps with
    | nil => cases h
    | cons p ps =>
      rw [prepareEach_cons, List.map_cons, List.cons.injEq] at h
      obtain ⟨hprepared, hrest⟩ := h
      rw [prepare_fst] at hrest
      obtain ⟨route, hroute, -, hp⟩ := route_of_prepare (Prod.ext rfl hprepared)
      have htail := ih hrest
      exact .cons ⟨route, _, hroute, hp⟩ htail

theorem preparedNumbers_prepare (r : Relay) (w : Write) (x : String) :
    preparedNumbers x (r.prepare w.target w.message w.priority w.ttl).2 =
      (List.range' (r.counters.given x + 1) ((w.takers r.identity).count x)).map
        (· % Decimal.bound64) := by
  unfold Write.takers
  cases hroute : r.identity.route w.target w.header with
  | error fault =>
    rw [prepare_error hroute]
    rfl
  | ok route =>
    rw [prepare_ok hroute]
    simp only [preparedNumbers]
    rw [Write.numbersFor_published hroute (fun n => Counters.lt_of_mem_nextAll),
      Counters.numbersAt_nextAll]

/-- The numbers of a consumer on the wire, in the order of the writes, follow the last one it was
given. -/
theorem preparedNumbers_prepareEach (r : Relay) (writes : List Write) (x : String) :
    (r.prepareEach writes).2.flatMap (preparedNumbers x) =
      (List.range' (r.counters.given x + 1)
        ((writes.flatMap (Write.takers r.identity)).count x)).map (· % Decimal.bound64) := by
  induction writes generalizing r with
  | nil => rfl
  | cons w rest ih =>
    have hrest := ih (r.prepare w.target w.message w.priority w.ttl).1
    have hidentity : (r.prepare w.target w.message w.priority w.ttl).1.identity = r.identity := by
      rw [prepare_fst]
      rfl
    have hgiven : ((r.prepare w.target w.message w.priority w.ttl).1.counters.given x + 1) %
        Decimal.bound64 = (r.counters.given x + 1 + (w.takers r.identity).count x) %
          Decimal.bound64 := by
      rw [prepare_fst, Nat.add_mod, Counters.given_nextAll_mod, ← Nat.add_mod]
      congr 1
      omega
    rw [prepareEach_cons, List.flatMap_cons, hrest, preparedNumbers_prepare, hidentity,
      Counters.map_mod_range' _ _ hgiven, ← List.map_append, List.range'_append_1,
      List.flatMap_cons, List.count_append]

end Relay

end OrderedRelay
