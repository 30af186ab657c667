import OrderedRelay.Proofs.Network.Deliveries
import OrderedRelay.Proofs.Network.Protocol
import OrderedRelay.Proofs.Sequencing.Waiting

/-!
# What a failed write leaves behind

A write that is refused before its publish leaves everything as it was. One whose publish fails leaves
the counters of its relay advanced by the numbers that it was given, and nothing else: later writes go
out to the same topics with the same headers but for their numbers, which are higher by just as many.
So every number that a receiver may wait for was handed to a transport at some time.
-/

namespace OrderedRelay

/-! ### Transports whose failures are quiet -/

namespace Link

variable {κ : Type} {m : Medium κ}

/-- A publish that fails tells nobody anything. -/
def FailsQuietly (l : Link κ) (m : Medium κ) : Prop :=
  ∀ chance p e, (l.publish m chance p).result = .error e → (l.publish m chance p).told = []

/-- A publish that fails leaves the link and the medium as they were. -/
def FailsInPlace (l : Link κ) (m : Medium κ) : Prop :=
  ∀ chance p e, (l.publish m chance p).result = .error e →
    (l.publish m chance p).client = l ∧ (l.publish m chance p).line = m

theorem failsQuietly_channel (owner : Nat) (m : Medium κ) :
    Link.FailsQuietly ⟨.channel owner, none⟩ m := by
  intro chance p e he
  show (m.hub.publish owner p).1 = []
  have hresult : (m.hub.publish owner p).2 = .error e := he
  unfold Hub.publish at hresult ⊢
  split_ifs at hresult ⊢
  rfl

theorem failsInPlace_channel (owner : Nat) (m : Medium κ) :
    Link.FailsInPlace ⟨.channel owner, none⟩ m := fun _ _ _ _ => ⟨rfl, rfl⟩

theorem failsQuietly_mock (mock : Mock κ) (m : Medium κ) :
    Link.FailsQuietly ⟨.mock mock, none⟩ m := fun _ _ _ _ => rfl

theorem failsInPlace_mock (mock : Mock κ) (m : Medium κ) :
    Link.FailsInPlace ⟨.mock mock, none⟩ m := by
  intro chance p e he
  have hresult : (mock.publish p).2 = .error e := he
  have hsame : (mock.publish p).1 = mock := by
    unfold Mock.publish at hresult ⊢
    split_ifs at hresult ⊢
    · rfl
    · rfl
  refine ⟨?_, rfl⟩
  show (⟨.mock (mock.publish p).1, none⟩ : Link κ) = _
  rw [hsame]

end Link

/-! ### Publications that differ in their numbers -/

/-- Two publications agree but for the numbers of each consumer, which are higher in the second one by
the count of the consumer's places in a list. -/
structure Publication.Renumbered (used : List String) (p q : Publication) : Prop where
  topic : q.topic = p.topic
  body : q.message.body = p.message.body
  options : q.options = p.options
  fields : ∀ key, key ≠ Header.orderNumbersField →
    q.message.header.get? key = p.message.header.get? key
  numbered : q.message.header.has Header.orderNumbersField =
    p.message.header.has Header.orderNumbersField
  numbers : ∀ x, q.message.header.numbersFor x =
    (p.message.header.numbersFor x).map fun n => (n + used.count x) % Decimal.bound64

/-- Two writes are refused for the same reason, or go out alike but for their numbers. -/
inductive SameButNumbers (used : List String) :
    Except RelayError Publication → Except RelayError Publication → Prop where
  | refused (e : RelayError) : SameButNumbers used (.error e) (.error e)
  | published {p q : Publication} (h : p.Renumbered used q) : SameButNumbers used (.ok p) (.ok q)

namespace Counters

/-- The second counters are ahead of the first ones by the places of each consumer in a list. -/
def Ahead (used : List String) (c d : Counters) : Prop :=
  ∀ x, d.given x % Decimal.bound64 = (c.given x + used.count x) % Decimal.bound64

theorem ahead_nextAll (c : Counters) (used : List String) : c.Ahead used (c.nextAll used).1 :=
  fun x => c.given_nextAll_mod x used

theorem Ahead.nextAll {used : List String} {c d : Counters} (h : c.Ahead used d)
    (cs : List String) : (c.nextAll cs).1.Ahead used (d.nextAll cs).1 := by
  intro x
  calc (d.nextAll cs).1.given x % Decimal.bound64
      = (d.given x + cs.count x) % Decimal.bound64 := d.given_nextAll_mod x cs
    _ = (c.given x + used.count x + cs.count x) % Decimal.bound64 := by
        rw [Nat.add_mod, h x, ← Nat.add_mod]
    _ = (c.given x + cs.count x + used.count x) % Decimal.bound64 := by
        rw [Nat.add_right_comm]
    _ = ((c.nextAll cs).1.given x + used.count x) % Decimal.bound64 := by
        rw [Nat.add_mod, ← c.given_nextAll_mod x cs, ← Nat.add_mod]

theorem Ahead.numbersAt {used : List String} {c d : Counters} (h : c.Ahead used d)
    (cs : List String) (x : String) :
    OrderedRelay.numbersAt x cs (d.nextAll cs).2 =
      (OrderedRelay.numbersAt x cs (c.nextAll cs).2).map
        fun n => (n + used.count x) % Decimal.bound64 := by
  have hstart : (d.given x + 1) % Decimal.bound64 =
      (c.given x + 1 + used.count x) % Decimal.bound64 := by
    rw [Nat.add_mod, h x, ← Nat.add_mod, Nat.add_right_comm]
  rw [numbersAt_nextAll, numbersAt_nextAll, map_mod_range' _ _ hstart, List.map_map,
    List.range'_eq_map_range, List.range'_eq_map_range, List.map_map, List.map_map]
  refine List.map_congr_left fun k _ => ?_
  show (c.given x + 1 + used.count x + k) % _ = ((c.given x + 1 + k) % _ + used.count x) % _
  rw [Nat.mod_add_mod, Nat.add_right_comm]

end Counters

theorem Write.renumbered_published {i : Identity} {w : Write} {route : Route} {ns ms : List Nat}
    {used : List String} (hroute : i.route w.target w.header = .ok route)
    (hns : ∀ n ∈ ns, n < Decimal.bound64) (hms : ∀ n ∈ ms, n < Decimal.bound64)
    (hnumbers : ∀ x, numbersAt x route.takers ms =
      (numbersAt x route.takers ns).map fun n => (n + used.count x) % Decimal.bound64)
    (incarnation : Binary64) :
    (w.published route ns incarnation).Renumbered used (w.published route ms incarnation) where
  topic := rfl
  body := rfl
  options := rfl
  fields key hkey := by
    unfold published
    dsimp only
    split_ifs
    · rw [Header.get?_numbered, Header.get?_numbered, if_neg hkey, if_neg hkey]
    · rfl
  numbered := by
    unfold published
    dsimp only
    split_ifs
    · show (Header.get? _ _).isSome = (Header.get? _ _).isSome
      rw [Header.get?_numbered, Header.get?_numbered]
      rfl
    · rfl
  numbers x := by
    rw [numbersFor_published hroute hns, numbersFor_published hroute hms, hnumbers]

namespace Relay

/-- Two relays that differ in their counters prepare the same writes alike but for the numbers. -/
theorem prepareEach_ahead {used : List String} {r : Relay} {counters : Counters}
    (h : r.counters.Ahead used counters) (writes : List Write) :
    List.Forall₂ (SameButNumbers used) (r.prepareEach writes).2
      ({ r with counters }.prepareEach writes).2 := by
  induction writes generalizing r counters with
  | nil => exact .nil
  | cons w rest ih =>
    cases hroute : r.identity.route w.target w.header with
    | error fault =>
      have hother := prepare_error (r := { r with counters }) (w := w) hroute
      simp only [prepareEach, prepare_error hroute, hother]
      exact .cons (.refused _) (ih h)
    | ok route =>
      have hother := prepare_ok (r := { r with counters }) (w := w) hroute
      simp only [prepareEach, prepare_ok hroute, hother]
      refine .cons (.published ?_) (ih (h.nextAll route.takers))
      exact Write.renumbered_published hroute (fun n => Counters.lt_of_mem_nextAll)
        (fun n => Counters.lt_of_mem_nextAll) (h.numbersAt route.takers) r.incarnation

end Relay

/-! ### What receivers wait for -/

theorem Header.of_placement_numbered {h : Header} {producer raw : String} {timestamp : Binary64}
    {cs : List String} (hplace : h.placement = .numbered producer timestamp cs raw) :
    cs = h.consumers ∧ raw = h.orderNumbersText?.getD "" := by
  unfold placement at hplace
  split_ifs at hplace
  cases htime : h.timestamp? with
  | none =>
    rw [htime] at hplace
    cases hplace
  | some t =>
    rw [htime] at hplace
    obtain ⟨-, -, hcs, hraw⟩ := Placement.numbered.inj hplace
    exact ⟨hcs.symm, hraw.symm⟩

theorem Header.mem_numbersFor_of_seat {h : Header} {x : String} {s : Seat}
    (hseat : h.seat? x = some s) : s.number ∈ h.numbersFor x := by
  obtain ⟨cs, raw, ns, hplace, hns, -, hnumber, hpos⟩ := placement_of_seat hseat
  obtain ⟨rfl, rfl⟩ := of_placement_numbered hplace
  rw [numberFor_eq_headD] at hnumber
  rw [numbersFor, hns, ← hnumber]
  dsimp only
  cases hat : numbersAt x h.consumers ns with
  | nil =>
    rw [hat] at hnumber
    exact absurd hnumber.symm hpos
  | cons n rest => exact List.mem_cons_self ..

namespace Relay

variable {α : Type} {r : Relay} {writes : List Write} {x : String} {n : Nat}

theorem mem_preparedNumbers :
    n ∈ (r.prepareEach writes).2.flatMap (preparedNumbers x) ↔
      ∃ p, .ok p ∈ (r.prepareEach writes).2 ∧ n ∈ p.message.header.numbersFor x := by
  rw [List.mem_flatMap]
  constructor
  · rintro ⟨e | p, hp, hn⟩
    · cases hn
    · exact ⟨p, hp, hn⟩
  · rintro ⟨p, hp, hn⟩
    exact ⟨.ok p, hp, hn⟩

/-- The numbers that a new relay hands over for a consumer are all those up to some number. -/
theorem mem_numbersFor_new (hnew : r.counters = {})
    (hbound : (writes.flatMap (Write.takers r.identity)).count x < Decimal.bound64) :
    (∃ p, .ok p ∈ (r.prepareEach writes).2 ∧ n ∈ p.message.header.numbersFor x) ↔
      0 < n ∧ n ≤ (writes.flatMap (Write.takers r.identity)).count x := by
  rw [← mem_preparedNumbers, preparedNumbers_prepareEach, hnew]
  have hgiven : ({} : Counters).given x = 0 := rfl
  rw [hgiven, List.mem_map]
  constructor
  · rintro ⟨k, hk, rfl⟩
    rw [List.mem_range'_1] at hk
    rw [Nat.mod_eq_of_lt (by omega)]
    omega
  · rintro ⟨hpos, hle⟩
    exact ⟨n, List.mem_range'_1.mpr (by omega), Nat.mod_eq_of_lt (by omega)⟩

/-- A number that a receiver waits for, and any below one that waits, has been handed over. -/
theorem handed_of_pending {e : Engine α} {calls : List (Header × α)} (hnew : r.counters = {})
    (hbound : (writes.flatMap (Write.takers r.identity)).count e.consumer < topNumber)
    (hunseen : e.tracking? r.identity.instanceId = none)
    (hcalls : ∀ c ∈ calls, ∃ p, .ok p ∈ (r.prepareEach writes).2 ∧ c.1 = p.message.header)
    (hn : n ∈ ((e.run calls).1.tracking r.identity.instanceId).pending) :
    ((e.run calls).1.tracking r.identity.instanceId).nextExpected < n ∧
      ∀ m, 0 < m → m ≤ n →
        ∃ p, .ok p ∈ (r.prepareEach writes).2 ∧ m ∈ p.message.header.numbersFor e.consumer := by
  have hbelow : (writes.flatMap (Write.takers r.identity)).count e.consumer < Decimal.bound64 :=
    lt_trans hbound (by decide)
  have hseats : ∀ c ∈ calls, ∀ s, c.1.seat? e.consumer = some s →
      s.number ≤ (writes.flatMap (Write.takers r.identity)).count e.consumer := by
    intro c hc s hs
    obtain ⟨p, hp, hheader⟩ := hcalls c hc
    have hmem := Header.mem_numbersFor_of_seat hs
    rw [hheader] at hmem
    exact ((mem_numbersFor_new hnew hbelow).mp ⟨p, hp, hmem⟩).2
  obtain ⟨hwaited, c, hc, s, hs, rfl⟩ := Engine.call_of_pending hunseen
    (fun c hc s hs => lt_of_le_of_lt (hseats c hc s hs) hbound) hn
  have hle := hseats c hc s hs
  refine ⟨hwaited, fun m hpos hm => ?_⟩
  exact (mem_numbersFor_new hnew hbelow).mpr ⟨hpos, by omega⟩

end Relay

/-! ### Failed writes in a network -/

namespace Network

variable {n n' : Network} {i : Nat} {r : Relay} {w : Write} {e : RelayError} {route : Route}

def relayLink? (n : Network) (i : Nat) : Option (Link Subscriber) :=
  (n.node? i).bind fun node => n.link? node.link

def FailsQuietly (n : Network) (i : Nat) : Prop :=
  ∀ l, n.relayLink? i = some l → l.FailsQuietly n.medium

def FailsInPlace (n : Network) (i : Nat) : Prop :=
  ∀ l, n.relayLink? i = some l → l.FailsInPlace n.medium

/-- The network once a relay has given the next numbers to the consumers of a list. -/
def useUp (n : Network) (i : Nat) (used : List String) : Network :=
  n.updateRelay i fun r => { r with counters := (r.counters.nextAll used).1 }

theorem nodes_of_node? {node : Node} (hnode : n.node? i = some node) :
    n.nodes[i]? = some (some node) := by
  unfold node? at hnode
  cases h : n.nodes[i]? with
  | none =>
    rw [h] at hnode
    cases hnode
  | some entry =>
    rw [h] at hnode
    exact congrArg some hnode

theorem updateRelay_congr {f g : Relay → Relay} (hr : n.relay? i = some r) (h : f r = g r) :
    n.updateRelay i f = n.updateRelay i g := by
  obtain ⟨node, hnode, rfl⟩ := Option.map_eq_some_iff.mp hr
  have hnodes : n.nodes.modify i (Option.map fun node => { node with relay := f node.relay }) =
      n.nodes.modify i (Option.map fun node => { node with relay := g node.relay }) := by
    refine List.ext_getElem? fun k => ?_
    rw [List.getElem?_modify, List.getElem?_modify]
    by_cases hk : i = k
    · subst hk
      simp [nodes_of_node? hnode, h]
    · simp [hk]
  rw [updateRelay, updateRelay, hnodes]

theorem useUp_nil (n : Network) (i : Nat) : n.useUp i [] = n := by
  have hnodes : n.nodes.modify i (Option.map fun node => { node with relay := node.relay }) =
      n.nodes := by
    refine List.ext_getElem? fun k => ?_
    rw [List.getElem?_modify]
    simp
  show { n with nodes := _ } = n
  exact congrArg (fun nodes => { n with nodes }) hnodes

theorem relayLink?_useUp (n : Network) (i : Nat) (used : List String) :
    (n.useUp i used).relayLink? i = n.relayLink? i := by
  unfold relayLink?
  rw [useUp, node?_updateRelay, if_pos rfl]
  cases n.node? i <;> rfl

theorem relay?_useUp (hr : n.relay? i = some r) (used : List String) :
    (n.useUp i used).relay? i =
      some { r with counters := (r.counters.nextAll used).1 } := by
  obtain ⟨node, hnode, rfl⟩ := Option.map_eq_some_iff.mp hr
  rw [relay?, useUp, node?_updateRelay, if_pos rfl, hnode]
  rfl

/-- A connected relay hands a routed write to its link, with the numbers of its route used up. -/
theorem write_of_route (hr : n.relay? i = some r) (hconnected : n.isConnected i = true)
    (hroute : r.identity.route w.target w.header = .ok route) :
    n.write i w.chance w.target w.message w.priority w.ttl =
      (n.useUp i route.takers).onRelayLink i fun l m => l.publish m w.chance
        (w.published route (r.counters.nextAll route.takers).2 r.incarnation) := by
  have hprepared := Relay.prepare_ok hroute
  have hused : n.useUp i route.takers =
      n.updateRelay i fun _ => { r with counters := (r.counters.nextAll route.takers).1 } :=
    updateRelay_congr hr rfl
  rw [write, hr, hconnected, hused]
  simp only [hprepared]

/-- A publish that fails quietly changes at most its link and the medium. -/
theorem onRelayLink_failed {chance : Chance} {p : Publication} {l : Link Subscriber}
    (hlink : n.relayLink? i = some l) (hquiet : l.FailsQuietly n.medium)
    (h : n.onRelayLink i (fun l m => l.publish m chance p) = (n', .error e)) :
    (∃ failure, e = .transport failure) ∧ (∃ medium links, n' = { n with medium, links }) ∧
      (l.FailsInPlace n.medium → n' = n) := by
  obtain ⟨node, hnode, hnodeLink⟩ := Option.bind_eq_some_iff.mp hlink
  unfold onRelayLink onLink at h
  simp only [hnode, hnodeLink] at h
  obtain ⟨rfl, hreported⟩ := Prod.mk.inj h
  cases hresult : (l.publish n.medium chance p).result with
  | ok _ =>
    rw [hresult] at hreported
    cases hreported
  | error failure =>
    rw [hresult] at hreported
    rw [hquiet chance p failure hresult]
    refine ⟨⟨failure, (Except.error.inj hreported).symm⟩, ⟨_, _, rfl⟩, fun hinPlace => ?_⟩
    obtain ⟨hclient, hline⟩ := hinPlace chance p failure hresult
    obtain ⟨hlt, hl⟩ := List.getElem?_eq_some_iff.mp hnodeLink
    rw [hclient, hline, ← hl, List.set_getElem_self]
    rfl

/-- What a failed write leaves of a network. If its publish failed, the numbers that it was given are
used up, and the link and the medium may be in another state; otherwise nothing has changed. -/
structure LeavesBehind (n n' : Network) (i : Nat) (w : Write) (e : RelayError)
    (used : List String) : Prop where
  state : ∃ medium links, n' = { n.useUp i used with medium, links }
  inPlace : n.FailsInPlace i → n' = n.useUp i used
  refused : (∀ failure, e ≠ .transport failure) → used = [] ∧ n' = n
  failed : ∀ failure, e = .transport failure → n.isConnected i = true ∧
    ∃ r, n.relay? i = some r ∧ used = w.takers r.identity
  later : ∀ r, n.relay? i = some r → ∃ r', n'.relay? i = some r' ∧ (used = [] → r' = r) ∧
    ∀ writes, List.Forall₂ (SameButNumbers used) (r.prepareEach writes).2 (r'.prepareEach writes).2

theorem later_of_useUp {used : List String}
    (h : ∃ medium links, n' = { n.useUp i used with medium, links }) (hr : n.relay? i = some r) :
    ∃ r', n'.relay? i = some r' ∧ (used = [] → r' = r) ∧
      ∀ writes, List.Forall₂ (SameButNumbers used) (r.prepareEach writes).2
        (r'.prepareEach writes).2 := by
  obtain ⟨medium, links, rfl⟩ := h
  refine ⟨_, relay?_useUp hr used, ?_, Relay.prepareEach_ahead (r.counters.ahead_nextAll used)⟩
  rintro rfl
  rfl

theorem leavesBehind_refused (n : Network) (i : Nat) (w : Write)
    (he : ∀ failure, e ≠ .transport failure) : n.LeavesBehind n i w e [] where
  state := ⟨n.medium, n.links, by rw [useUp_nil]⟩
  inPlace _ := (n.useUp_nil i).symm
  refused _ := ⟨rfl, rfl⟩
  failed failure hfailure := absurd hfailure (he failure)
  later _ hr := later_of_useUp ⟨n.medium, n.links, by rw [useUp_nil]⟩ hr

/-- Without a relay or a connection nothing is prepared. -/
theorem write_unconnected (h : n.relay? i = none ∨ n.isConnected i = false) :
    n.write i w.chance w.target w.message w.priority w.ttl = (n, .error .notConnected) := by
  unfold write
  split
  · rename_i relay hrelay hconnected
    rcases h with hnone | hnone
    · rw [hnone] at hrelay
      cases hrelay
    · rw [hnone] at hconnected
      cases hconnected
  · rfl

theorem write_of_fault {fault : RouteFault} (hr : n.relay? i = some r)
    (hconnected : n.isConnected i = true)
    (hroute : r.identity.route w.target w.header = .error fault) :
    n.write i w.chance w.target w.message w.priority w.ttl =
      (n, .error (.logic (.route fault))) := by
  have hsame : n.updateRelay i (fun _ => r) = n :=
    (updateRelay_congr (f := fun _ => r) (g := fun r => r) hr rfl).trans (n.useUp_nil i)
  rw [write, hr, hconnected]
  simp only [Relay.prepare_error hroute, hsame]

theorem leavesBehind_of_write (hquiet : n.FailsQuietly i)
    (h : n.write i w.chance w.target w.message w.priority w.ttl = (n', .error e)) :
    ∃ used, n.LeavesBehind n' i w e used := by
  by_cases hnobody : n.relay? i = none ∨ n.isConnected i = false
  · rw [write_unconnected hnobody] at h
    obtain ⟨rfl, he⟩ := Prod.mk.inj h
    obtain rfl := Except.error.inj he
    exact ⟨[], leavesBehind_refused n i w nofun⟩
  · rw [not_or, Bool.not_eq_false] at hnobody
    obtain ⟨r, hr⟩ := Option.ne_none_iff_exists'.mp hnobody.1
    have hconnected := hnobody.2
    cases hroute : r.identity.route w.target w.header with
    | error fault =>
      rw [write_of_fault hr hconnected hroute] at h
      obtain ⟨rfl, he⟩ := Prod.mk.inj h
      obtain rfl := Except.error.inj he
      exact ⟨[], leavesBehind_refused n i w nofun⟩
    | ok route =>
      rw [write_of_route hr hconnected hroute] at h
      obtain ⟨l, hlink⟩ : ∃ l, n.relayLink? i = some l := by
        unfold isConnected at hconnected
        split at hconnected
        · exact ⟨_, by assumption⟩
        · cases hconnected
      obtain ⟨⟨failure, rfl⟩, hstate, hinPlace⟩ := onRelayLink_failed
        ((n.relayLink?_useUp i route.takers).trans hlink) (hquiet l hlink) h
      have htakers : route.takers = w.takers r.identity := by rw [Write.takers, hroute]
      exact ⟨route.takers, {
        state := hstate
        inPlace := fun hfails => hinPlace (hfails l hlink)
        refused := fun hnot => absurd rfl (hnot failure)
        failed := fun _ _ => ⟨hconnected, r, hr, htakers⟩
        later := fun r hr => later_of_useUp hstate hr }⟩

/-- A failed write uses up the numbers that it was given if its publish failed, and leaves no other
trace in what its relay writes later; over a hub or a transport for rehearsals it leaves none at all
elsewhere. A receiver to which the relay is new waits only for numbers that the relay has handed over. -/
theorem failed_write_uses_numbers {α : Type} :
    (∀ (m : Medium Subscriber) (owner : Nat) (mock : Mock Subscriber),
      (Link.FailsQuietly ⟨.channel owner, none⟩ m ∧ Link.FailsInPlace ⟨.channel owner, none⟩ m) ∧
        Link.FailsQuietly ⟨.mock mock, none⟩ m ∧ Link.FailsInPlace ⟨.mock mock, none⟩ m) ∧
    (∀ (n n' : Network) (i : Nat) (w : Write) (e : RelayError), n.FailsQuietly i →
      n.write i w.chance w.target w.message w.priority w.ttl = (n', .error e) →
      ∃ used, n.LeavesBehind n' i w e used) ∧
    ∀ (r : Relay) (writes : List Write) (e : Engine α) (calls : List (Header × α)) (waiting : Nat),
      r.counters = {} →
      (writes.flatMap (Write.takers r.identity)).count e.consumer < topNumber →
      e.tracking? r.identity.instanceId = none →
      (∀ c ∈ calls, ∃ p, .ok p ∈ (r.prepareEach writes).2 ∧ c.1 = p.message.header) →
      waiting ∈ ((e.run calls).1.tracking r.identity.instanceId).pending →
      ((e.run calls).1.tracking r.identity.instanceId).nextExpected < waiting ∧
        ∀ m, 0 < m → m ≤ waiting →
          ∃ p, .ok p ∈ (r.prepareEach writes).2 ∧ m ∈ p.message.header.numbersFor e.consumer := by
  refine ⟨fun m owner mock => ?_, ?_, ?_⟩
  · exact ⟨⟨Link.failsQuietly_channel owner m, Link.failsInPlace_channel owner m⟩,
      Link.failsQuietly_mock mock m, Link.failsInPlace_mock mock m⟩
  · intro n n' i w e hquiet h
    exact leavesBehind_of_write hquiet h
  · intro r writes e calls waiting hnew hbound hunseen hcalls hwaiting
    exact Relay.handed_of_pending hnew hbound hunseen hcalls hwaiting

/-- The relay over a transport for rehearsals that is told whether to fail. -/
def sampleFailing (on : Bool) (n : Network) : Network :=
  n.updateLink 0 fun l =>
    { l with carrier := l.carrier.updateMock fun mock => { mock with failsPublish := on } }

def samplePost : Write where
  target := "bus"
  message := ⟨.ofList [(Header.producerField, .text "S"), (Header.verbField, .text "__call__"),
    (Header.consumersField, .text "|R|")], []⟩
  chance := ⟨.zero, .zero, []⟩

/-- A call whose publish fails, and one that arrives while the one before it failed. -/
theorem failed_write_uses_numbers_sample :
    (∃ n' e, (sampleFailing true sampleRehearsal).write 0 samplePost.chance samplePost.target
        samplePost.message samplePost.priority samplePost.ttl = (n', .error e) ∧
      (sampleFailing true sampleRehearsal).LeavesBehind n' 0 samplePost e ["R"]) ∧
    (let r := Relay.create { domain := "bus", instanceId := "S" } (.ofInt 7)
     let second := (samplePost.header.numbered [2] (.ofInt 7), ())
     ((Engine.fresh "R" .default).run [second]).1.tracking? "S" = some ⟨0, .ofInt 7, [⟨2, .ofInt 7, ()⟩]⟩ ∧
      ∃ p, .ok p ∈ (r.prepareEach [samplePost, samplePost]).2 ∧
        1 ∈ p.message.header.numbersFor "R") := by
  obtain ⟨hlinks, hnetwork, hreceiver⟩ := failed_write_uses_numbers (α := Unit)
  constructor
  · have hquiet : (sampleFailing true sampleRehearsal).FailsQuietly 0 := by
      intro l hl
      obtain rfl := Option.some.inj hl
      exact (hlinks _ 0 _).2.1
    have hfails : ((sampleFailing true sampleRehearsal).write 0 samplePost.chance samplePost.target
        samplePost.message samplePost.priority samplePost.ttl).2 =
          .error (.transport (.publish "bus/slots/R" "Mock publish failure")) := by decide +kernel
    have htakers : samplePost.takers (Relay.create { domain := "bus", instanceId := "S" }
        (.ofInt 7)).identity = ["R"] := by decide +kernel
    cases hwrite : (sampleFailing true sampleRehearsal).write 0 samplePost.chance samplePost.target
        samplePost.message samplePost.priority samplePost.ttl with
    | mk n' result =>
      rw [hwrite] at hfails
      obtain rfl : result = _ := hfails
      obtain ⟨used, hleaves⟩ := hnetwork _ n' 0 samplePost _ hquiet hwrite
      obtain ⟨-, r, hr, hused⟩ := hleaves.failed _ rfl
      obtain rfl := Option.some.inj hr
      obtain rfl : used = ["R"] := hused.trans htakers
      exact ⟨n', _, rfl, hleaves⟩
  · intro r second
    have hrun : ((Engine.fresh "R" .default).run [second]).1.tracking? "S" =
        some ⟨0, .ofInt 7, [⟨2, .ofInt 7, ()⟩]⟩ := by decide +kernel
    have hcalls : ∀ c ∈ [second], ∃ p, .ok p ∈ (r.prepareEach [samplePost, samplePost]).2 ∧
        c.1 = p.message.header := by
      intro c hc
      obtain rfl := List.mem_singleton.mp hc
      exact ⟨_, List.mem_cons_of_mem _ (List.mem_singleton.mpr rfl), by decide +kernel⟩
    obtain ⟨-, hhanded⟩ := hreceiver r [samplePost, samplePost] (Engine.fresh "R" .default) [second] 2
      rfl (by decide +kernel) rfl hcalls (by decide +kernel)
    exact ⟨hrun, hhanded 1 (by decide) (by decide)⟩

/-- A call after one whose publish failed has the number 2; without the failed one it would have the
number 1. -/
theorem failed_write_leaves_trace :
    let post := fun n : Network => n.write 0 samplePost.chance samplePost.target samplePost.message
      samplePost.priority samplePost.ttl
    let numbers := fun n : Network => ((n.relayLink? 0).bind fun l => l.carrier.mock?).map fun mock =>
      mock.published.map fun p => p.message.header.numbersFor "R"
    let failing := sampleFailing true sampleRehearsal
    (post failing).2 = .error (.transport (.publish "bus/slots/R" "Mock publish failure")) ∧
      numbers (post (sampleFailing false (post failing).1)).1 = some [[2]] ∧
      numbers (post (sampleFailing false failing)).1 = some [[1]] := by
  decide +kernel

end Network

end OrderedRelay
