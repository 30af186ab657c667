import OrderedRelay.Proofs.Network.Deliveries
import OrderedRelay.Proofs.Relay.Writes
import OrderedRelay.Proofs.Transport.Batches

/-!
# Writing through a lossy layer

The successful writes of a relay over one link: each is prepared with the numbers that its relay has, and
is offered to the layer. What relays take in of it is what the hub tells them of the publications that
leave the layer.
-/

namespace OrderedRelay

namespace Network

variable {n n' : Network} {s link owner : Nat} {relay : Relay} {layer : Lossy} {w : Write}
  {writes : List Write}

def inbound? (n : Network) (r : Nat) : Option Inbound := (n.relay? r).map Relay.inbound

theorem Spread.inbound? {ps : List Publication} (h : Spread n n' link owner layer ps) (r : Nat) :
    n'.inbound? r = (n.inbound? r).map fun i => i.takeAll (n.medium.hub.tellRelay r ps) := by
  simp only [Network.inbound?, relay?, h.nodes r, Option.map_map]
  rfl

/-- Writes one after another, up to the first failure. -/
def writeAll (n : Network) (s : Nat) : List Write → Network × Except RelayError Unit
  | [] => (n, .ok ())
  | w :: rest =>
    match n.write s w.chance w.target w.message w.priority w.ttl with
    | (n, .ok ()) => n.writeAll s rest
    | failed => failed

/-- A successful write: its relay prepares it, and the layer lets out what it does. -/
theorem write_spread (hnode : n.node? s = some ⟨link, relay⟩)
    (hlink : n.link? link = some ⟨.channel owner, some layer⟩)
    (h : n.write s w.chance w.target w.message w.priority w.ttl = (n', .ok ())) :
    n.medium.hub.isConnected owner = true ∧
      ∃ relay' p, relay.prepare w.target w.message w.priority w.ttl = (relay', .ok p) ∧
        Spread (n.updateRelay s fun _ => relay') n' link owner (layer.offer w.chance p).1
          (layer.offer w.chance p).2 := by
  have hrelay : n.relay? s = some relay := by
    rw [relay?, hnode]
    rfl
  have hisConnected : n.isConnected s = n.medium.hub.isConnected owner := by
    simp only [isConnected, hnode, Option.bind_some, hlink]
    rfl
  unfold write at h
  rw [hrelay, hisConnected] at h
  cases hconn : n.medium.hub.isConnected owner with
  | false =>
    rw [hconn] at h
    cases h
  | true =>
    rw [hconn] at h
    dsimp only at h
    refine ⟨rfl, ?_⟩
    rcases hprepared : relay.prepare w.target w.message w.priority w.ttl with ⟨relay', e | p⟩
    · rw [hprepared] at h
      cases h
    · rw [hprepared] at h
      have hnode' : (n.updateRelay s fun _ => relay').node? s = some ⟨link, relay'⟩ := by
        rw [node?_updateRelay, if_pos rfl, hnode]
        rfl
      obtain ⟨hok, hspread⟩ := publish_spread (n := n.updateRelay s fun _ => relay') hlink hconn
        w.chance p
      simp only [onRelayLink, hnode'] at h
      obtain ⟨rfl, -⟩ := Prod.mk.inj h
      exact ⟨relay', p, rfl, hspread⟩

theorem node?_of_write (hnode : n.node? s = some ⟨link, relay⟩)
    {relay' : Relay} {ps : List Publication}
    (h : Spread (n.updateRelay s fun _ => relay') n' link owner layer ps) :
    ∃ i, n'.node? s = some ⟨link, { relay' with inbound := i }⟩ := by
  rw [h.nodes s, node?_updateRelay, if_pos rfl, hnode]
  exact ⟨_, rfl⟩

theorem inbound?_updateRelay {relay' : Relay} (hnode : n.node? s = some ⟨link, relay⟩)
    (h : relay'.inbound = relay.inbound) (r : Nat) :
    (n.updateRelay s fun _ => relay').inbound? r = n.inbound? r := by
  simp only [inbound?, relay?, node?_updateRelay]
  by_cases hr : s = r
  · subst hr
    rw [if_pos rfl, hnode]
    exact congrArg some h
  · rw [if_neg hr]

/-- Successful writes: their relay prepares them all, the layer is offered them in order, and each relay
takes in what the hub tells it of what leaves. -/
theorem writeAll_spread (hnode : n.node? s = some ⟨link, relay⟩)
    (hlink : n.link? link = some ⟨.channel owner, some layer⟩)
    (h : n.writeAll s writes = (n', .ok ())) :
    (writes ≠ [] → n.medium.hub.isConnected owner = true) ∧
    ∃ offers, (relay.prepareAll writes).map Prod.snd = some offers ∧ n'.medium = n.medium ∧
      n'.link? link = some ⟨.channel owner, some (layer.offerAll offers).1⟩ ∧
      ∀ r, n'.inbound? r = (n.inbound? r).map fun i =>
        i.takeAll (n.medium.hub.tellRelay r (layer.offerAll offers).2) := by
  induction writes generalizing n relay layer with
  | nil =>
    obtain ⟨rfl, -⟩ := Prod.mk.inj h
    exact ⟨fun hne => absurd rfl hne, [], rfl, rfl, hlink, fun r => Option.map_id'.symm⟩
  | cons w rest ih =>
    rw [writeAll] at h
    rcases hwrite : n.write s w.chance w.target w.message w.priority w.ttl with ⟨n₁, e | ⟨⟨⟩⟩⟩
    · rw [hwrite] at h
      cases h
    · rw [hwrite] at h
      obtain ⟨hconn, relay', p, hprepared, hspread⟩ := write_spread hnode hlink hwrite
      -- The sender may have been told something itself, which changes nothing of what it prepares.
      obtain ⟨i, hnode'⟩ := node?_of_write hnode hspread
      obtain ⟨-, offers, hprepareAll, hmedium, hlink', hheard⟩ := ih hnode' hspread.link h
      have hmedium₁ : n₁.medium = n.medium := hspread.medium
      rw [Relay.prepareAll_inbound] at hprepareAll
      refine ⟨fun _ => hconn, (w.chance, p) :: offers, ?_, hmedium.trans hmedium₁, hlink', fun r => ?_⟩
      · rw [Option.map_map] at hprepareAll
        obtain ⟨⟨relay₂, _⟩, hall, rfl⟩ := Option.map_eq_some_iff.mp hprepareAll
        simp only [Relay.prepareAll, hprepared, hall]
        rfl
      · rw [hheard r, hspread.inbound? r,
          inbound?_updateRelay hnode (Relay.prepare_keeps hprepared).2.2 r, hmedium₁, Option.map_map]
        show _ = (n.inbound? r).map fun i => i.takeAll (n.medium.hub.tellRelay r
          ((layer.offer w.chance p).2 ++ ((layer.offer w.chance p).1.offerAll offers).2))
        congr 1
        funext i
        rw [Hub.tellRelay_append, Inbound.takeAll_append]
        rfl

end Network

end OrderedRelay
