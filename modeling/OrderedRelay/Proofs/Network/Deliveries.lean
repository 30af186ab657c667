import OrderedRelay.Network.Basic
import OrderedRelay.Proofs.Relay.Inbound

/-!
# Deliveries in a network

Deliveries change receiving sides and nothing else: the medium and the links stay, and a relay takes in
what it is told itself, in order. So what a member of the hub publishes through a lossy layer reaches
each relay as the deliveries of what leaves the layer.
-/

namespace OrderedRelay

/-- A relay's node after it has been told something. -/
def Node.hear (node : Node) (ds : List (Delivery Stream)) : Node :=
  { node with relay := { node.relay with inbound := node.relay.inbound.takeAll ds } }

theorem Node.map_hear_nil (node : Option Node) : (node.map fun node => node.hear []) = node := by
  cases node <;> rfl

theorem Node.hear_append (node : Node) (xs ys : List (Delivery Stream)) :
    (node.hear xs).hear ys = node.hear (xs ++ ys) := by
  simp [hear, Inbound.takeAll_append]

/-- What a delivery tells a relay, if it is for that relay. -/
def Delivery.to? (r : Nat) (d : Delivery Subscriber) : Option (Delivery Stream) :=
  match d.subscriber with
  | .bare _ => none
  | .relay i stream => if i = r then some ⟨stream, d.topic, d.content⟩ else none

/-- What a hub tells its subscriptions when publications arrive one after another. -/
def Hub.tell (h : Hub Subscriber) (ps : List Publication) : List (Delivery Subscriber) :=
  ps.flatMap fun p => h.deliveries p.topic p.message

/-- What a hub tells one relay. -/
def Hub.tellRelay (h : Hub Subscriber) (r : Nat) (ps : List Publication) : List (Delivery Stream) :=
  (h.tell ps).filterMap (Delivery.to? r)

theorem Hub.tellRelay_append (h : Hub Subscriber) (r : Nat) (ps qs : List Publication) :
    h.tellRelay r (ps ++ qs) = h.tellRelay r ps ++ h.tellRelay r qs := by
  simp [tellRelay, tell]

theorem Hub.mem_tellRelay {h : Hub Subscriber} {r : Nat} {ps : List Publication}
    {d : Delivery Stream} : d ∈ h.tellRelay r ps ↔
      ∃ p ∈ ps, ∃ s ∈ h.subscriptions, s.subscriber = .relay r d.subscriber ∧
        Topic.isMatch s.pattern p.topic = true ∧ d.topic = p.topic ∧ d.content = .ok p.message := by
  constructor
  · intro hd
    obtain ⟨told, htold, hto⟩ := List.mem_filterMap.mp hd
    obtain ⟨p, hp, hmem⟩ := List.mem_flatMap.mp htold
    obtain ⟨s, hs, rfl⟩ := List.mem_map.mp hmem
    obtain ⟨hsub, hmatch⟩ := List.mem_filter.mp hs
    refine ⟨p, hp, s, hsub, ?_⟩
    unfold Delivery.to? at hto
    dsimp only at hto
    split at hto
    · cases hto
    · rename_i i stream hsubscriber
      split_ifs at hto with hi
      obtain ⟨rfl⟩ := hto
      exact ⟨hi ▸ hsubscriber, hmatch, rfl, rfl⟩
  · rintro ⟨p, hp, s, hs, hsubscriber, hmatch, htopic, hcontent⟩
    refine List.mem_filterMap.mpr ⟨⟨s.subscriber, p.topic, .ok p.message⟩, ?_, ?_⟩
    · exact List.mem_flatMap.mpr ⟨p, hp, List.mem_map.mpr ⟨s, List.mem_filter.mpr ⟨hs, hmatch⟩, rfl⟩⟩
    · obtain ⟨stream, topic, content⟩ := d
      simp_all [Delivery.to?]

namespace Network

variable {n : Network} {r : Nat}

/-! ### Relays and links after a change -/

theorem node?_updateRelay (n : Network) (i : Nat) (f : Relay → Relay) (r : Nat) :
    (n.updateRelay i f).node? r =
      if i = r then (n.node? r).map fun node => { node with relay := f node.relay }
      else n.node? r := by
  simp only [node?, updateRelay, List.getElem?_modify]
  by_cases hi : i = r
  · rw [if_pos hi]
    cases n.nodes[r]? with
    | none => rfl
    | some node => simp [hi]
  · rw [if_neg hi]
    simp [hi]

theorem node?_updateInbound (n : Network) (i : Nat) (f : Inbound → Inbound) (r : Nat) :
    (n.updateInbound i f).node? r =
      if i = r then (n.node? r).map fun node =>
        { node with relay := { node.relay with inbound := f node.relay.inbound } }
      else n.node? r := n.node?_updateRelay i _ r

theorem node?_runAll (n : Network) (r : Nat) :
    n.runAll.node? r = (n.node? r).map fun node => { node with relay := { node.relay with
      inbound := { node.relay.inbound with dispatcher := node.relay.inbound.dispatcher.flush } } } := by
  simp only [node?, runAll, List.getElem?_map]
  rcases n.nodes[r]? with _ | _ | node <;> rfl

theorem deliver_medium (n : Network) (d : Delivery Subscriber) :
    (n.deliver d).medium = n.medium ∧ (n.deliver d).links = n.links := by
  unfold deliver
  split <;> exact ⟨rfl, rfl⟩

theorem deliverAll_medium (n : Network) (ds : List (Delivery Subscriber)) :
    (n.deliverAll ds).medium = n.medium ∧ (n.deliverAll ds).links = n.links := by
  induction ds generalizing n with
  | nil => exact ⟨rfl, rfl⟩
  | cons d rest ih =>
    obtain ⟨hmedium, hlinks⟩ := n.deliver_medium d
    obtain ⟨hmedium', hlinks'⟩ := ih (n.deliver d)
    exact ⟨hmedium'.trans hmedium, hlinks'.trans hlinks⟩

theorem node?_deliver (n : Network) (d : Delivery Subscriber) (r : Nat) :
    (n.deliver d).node? r = (n.node? r).map fun node => node.hear (Delivery.to? r d).toList := by
  obtain ⟨subscriber, topic, content⟩ := d
  cases subscriber with
  | bare name => exact (Node.map_hear_nil _).symm
  | relay i stream =>
    show (n.updateInbound i _).node? r = _
    rw [node?_updateInbound]
    by_cases hi : i = r
    · have hto : Delivery.to? r ⟨.relay i stream, topic, content⟩ = some ⟨stream, topic, content⟩ :=
        if_pos hi
      rw [hto, if_pos hi]
      rfl
    · have hto : Delivery.to? r ⟨.relay i stream, topic, content⟩ = none := if_neg hi
      rw [hto, if_neg hi]
      exact (Node.map_hear_nil _).symm

/-- A relay takes in what it is told, and nothing else of it changes. -/
theorem node?_deliverAll (n : Network) (ds : List (Delivery Subscriber)) (r : Nat) :
    (n.deliverAll ds).node? r =
      (n.node? r).map fun node => node.hear (ds.filterMap (Delivery.to? r)) := by
  induction ds generalizing n with
  | nil => exact (Node.map_hear_nil _).symm
  | cons d rest ih =>
    show ((n.deliver d).deliverAll rest).node? r = _
    rw [ih, node?_deliver, Option.map_map]
    congr 1
    funext node
    simp only [Function.comp_apply, Node.hear_append]
    cases hto : Delivery.to? r d <;> simp [hto]

/-! ### Publishing through a lossy layer -/

/-- Publications have left over a link of the hub, whose layer is another now. -/
structure Spread (n n' : Network) (link owner : Nat) (layer : Lossy) (ps : List Publication) :
    Prop where
  medium : n'.medium = n.medium
  link : n'.link? link = some ⟨.channel owner, some layer⟩
  nodes : ∀ r, n'.node? r = (n.node? r).map fun node => node.hear (n.medium.hub.tellRelay r ps)

variable {link owner : Nat} {layer : Lossy}

theorem publishEach_channel {m : Medium Subscriber} {ps : List Publication}
    (hconn : ps ≠ [] → m.hub.isConnected owner = true) :
    Carrier.publishEach ps m (.channel owner) =
      { client := .channel owner, line := m, told := m.hub.tell ps, result := .ok () } := by
  induction ps with
  | nil => rfl
  | cons p rest ih =>
    have hconn' := hconn (List.cons_ne_nil p rest)
    simp only [Carrier.publishEach, Carrier.publish, Hub.publish, hconn', if_true, Effect.andThen]
    rw [ih fun _ => hconn']
    rfl

theorem onLink_spread {l : Link Subscriber} {ps : List Publication}
    {op : Link Subscriber → Medium Subscriber → Link.Outcome Subscriber Unit}
    (hlink : n.link? link = some l) (hconn : ps ≠ [] → n.medium.hub.isConnected owner = true)
    (hop : op l n.medium = Link.onCarrier ⟨l.carrier, some layer⟩
      (Carrier.publishEach ps n.medium (.channel owner))) :
    (n.onLink link op).2 = .ok () ∧ Spread n (n.onLink link op).1 link owner layer ps := by
  rw [publishEach_channel hconn] at hop
  have honLink : n.onLink link op =
      ({ n with links := n.links.set link ⟨.channel owner, some layer⟩ }.deliverAll
        (n.medium.hub.tell ps), .ok ()) := by
    simp only [onLink, hlink, hop]
    rfl
  rw [honLink]
  obtain ⟨hmedium, hlinks⟩ := deliverAll_medium
    { n with links := n.links.set link ⟨.channel owner, some layer⟩ } (n.medium.hub.tell ps)
  refine ⟨rfl, hmedium, ?_, fun r => node?_deliverAll _ _ r⟩
  have hlt : link < n.links.length := (List.getElem?_eq_some_iff.mp hlink).1
  rw [link?, hlinks]
  exact List.getElem?_set_self hlt

theorem publish_spread (hlink : n.link? link = some ⟨.channel owner, some layer⟩)
    (hconn : n.medium.hub.isConnected owner = true) (chance : Chance) (p : Publication) :
    (n.onLink link fun l m => l.publish m chance p).2 = .ok () ∧
      Spread n (n.onLink link fun l m => l.publish m chance p).1 link owner
        (layer.offer chance p).1 (layer.offer chance p).2 :=
  onLink_spread hlink (fun _ => hconn) rfl

theorem flush_spread (hlink : n.link? link = some ⟨.channel owner, some layer⟩)
    {order : List Nat} (hconn : (layer.flush order).2 ≠ [] → n.medium.hub.isConnected owner = true) :
    (n.onLink link fun l m => l.flush m order).2 = .ok () ∧
      Spread n (n.onLink link fun l m => l.flush m order).1 link owner
        (layer.flush order).1 (layer.flush order).2 := onLink_spread hlink hconn rfl

end Network

end OrderedRelay
