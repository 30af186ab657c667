import OrderedRelay.Proofs.Table
import OrderedRelay.Proofs.Transport.Contract
import OrderedRelay.Proofs.Transport.Membership

/-!
# The laws of each kind of transport

Each of the five kinds is lawful. A member of a hub and the transport for rehearsals are taken call by
call. The clients of brokers go through several requests in a call; what they keep is kept by each
request, whatever the broker answers.
-/

namespace OrderedRelay

namespace Transport

variable {β κ : Type}

/-! ### Members of a hub, and rehearsals -/

theorem lawful_member (owner : Nat) :
    (member owner : Transport Unit (Medium κ) κ _ _).Lawful fun s => s.2.hub.Owned := by
  have hentry : ∀ {h : Hub κ} {x : HubSubscription κ}, x ∈ h.subscriptions → x.owner = owner →
      (x.pattern, x.subscriber) ∈ (h.ownedBy owner).map fun x => (x.pattern, x.subscriber) :=
    fun hx howner => List.mem_map_of_mem (List.mem_filter.mpr ⟨hx, beq_iff_eq.mpr howner⟩)
  have hmono : ∀ {h h' : Hub κ}, (∀ x ∈ h'.subscriptions, x ∈ h.subscriptions) →
      ((h'.ownedBy owner).map fun x => (x.pattern, x.subscriber)) ⊆
        (h.ownedBy owner).map fun x => (x.pattern, x.subscriber) := by
    intro h h' hsub e he
    obtain ⟨x, hx, rfl⟩ := List.mem_map.mp he
    obtain ⟨hx, howner⟩ := List.mem_filter.mp hx
    exact hentry (hsub x hx) (beq_iff_eq.mp howner)
  exact {
    valid_step := fun s st hs => by
      cases st with
      | call c => exact Hub.Step.owned_after hs (.call owner c.ofMember)
      | event step => exact Hub.Step.owned_after hs step.1
    subscribed := fun s t => by
      simp only [member, Hub.isSubscribed, Hub.ownedBy, List.any_eq_true, Hub.isFor, Bool.and_eq_true,
        beq_iff_eq, List.mem_map, List.mem_filter, Prod.mk.injEq]
      constructor
      · rintro ⟨x, hx, howner, hpattern⟩
        exact ⟨x.subscriber, x, ⟨hx, howner⟩, hpattern, rfl⟩
      · rintro ⟨k, x, ⟨hx, howner⟩, hpattern, -⟩
        exact ⟨x, hx, howner, hpattern⟩
    told := fun s i d hd => by
      obtain ⟨x, hx, rfl⟩ := List.mem_map.mp hd
      exact ⟨x.pattern, List.mem_map.mpr ⟨x, (List.mem_filter.mp hx).1, rfl⟩⟩
    connect := fun s => by
      show ((s.2.hub.connect owner).ownedBy owner).map _ = _
      rw [Hub.ownedBy, Hub.subscriptions_connect]
      rfl
    disconnect := fun s hs => by
      have hgone : (Hub.after s.2 [.call owner .disconnect]).hub.ownedBy owner = [] :=
        Hub.ownedBy_after_disconnect hs fun _ _ => List.not_mem_nil
      exact List.map_eq_nil_iff.mpr hgone
    subscribe := fun s topic k e he => by
      obtain ⟨x, hx, rfl⟩ := List.mem_map.mp he
      obtain ⟨hx, howner⟩ := List.mem_filter.mp hx
      have hx' : x ∈ (s.2.hub.subscribe owner topic k).1.subscriptions := hx
      by_cases hconnected : s.2.hub.isConnected owner = true
      · rcases Hub.mem_subscribe hx' with hold | ⟨rfl, rfl⟩
        · exact Or.inl (hentry hold (beq_iff_eq.mp howner))
        · refine Or.inr ⟨rfl, (Hub.Call.result_run _ _ _).trans ?_⟩
          simp [hconnected]
      · rw [Hub.subscribe, if_neg hconnected] at hx'
        exact Or.inl (hentry hx' (beq_iff_eq.mp howner))
    unsubscribe := fun s topic => hmono fun x hx => by
      have hx' : x ∈ (s.2.hub.unsubscribe owner topic).1.subscriptions := hx
      rw [Hub.subscriptions_unsubscribe] at hx'
      exact (List.mem_filter.mp hx').1
    unsubscribeAll := fun s => hmono fun x hx => (List.mem_filter.mp hx).1
    event := fun s step hs => by
      intro e he
      obtain ⟨x, hx, rfl⟩ := List.mem_map.mp he
      obtain ⟨hx, howner⟩ := List.mem_filter.mp hx
      have hx' : x ∈ (step.1.after s.2).hub.subscriptions := hx
      rw [Hub.Step.subscriptions_after hs, List.mem_append] at hx'
      rcases hx' with hkept | hnew
      · exact hentry (List.mem_filter.mp hkept).1 (beq_iff_eq.mp howner)
      · obtain ⟨hcall, -⟩ := Hub.Step.eq_call_of_mem_made hnew
        rw [beq_iff_eq.mp howner] at hcall
        exact absurd hcall (step.2 _)
    refused := fun s topic k hdown hok => by
      have hoff : s.2.hub.isConnected owner = false := hdown
      have hresult := (Hub.Call.result_run (.subscribe topic k) s.2 owner).symm.trans hok
      simp [hoff, Hub.Call.needsConnection] at hresult }

theorem lawful_mock : (mock : Transport (Mock κ) β κ _ _).Lawful fun _ => True where
  valid_step _ _ _ := trivial
  subscribed _ _ := Table.has_iff
  told s i d hd := by
    obtain ⟨x, hx, rfl⟩ := List.mem_map.mp hd
    exact ⟨x.1, (List.mem_filter.mp hx).1⟩
  connect _ := rfl
  disconnect _ _ := rfl
  subscribe s topic k x hx := by
    simp only [Effect.state, mock, Mock.subscribe] at hx ⊢
    split_ifs at hx ⊢
    · exact Or.inl hx
    · exact Or.inl hx
    · exact (Table.mem_insert hx).symm.imp_right fun heq => ⟨heq, rfl⟩
  unsubscribe s topic := by
    simp only [Effect.state, mock, Mock.unsubscribe]
    split_ifs
    · exact fun x hx => Table.mem_of_mem_erase hx
    · exact List.Subset.refl _
  unsubscribeAll _ := List.nil_subset _
  event _ _ _ := List.Subset.refl _
  refused s topic k hdown := by
    have hoff : s.1.connected = false := hdown
    simp [mock, Mock.subscribe, hoff]

end Transport

/-! ### What clients of brokers keep -/

/-- An operation leaves what `f` sees of a client as it was. -/
def Effect.Keeps {γ β κ α δ : Type} (f : γ → δ) (c : γ) (e : Effect γ β κ α) : Prop := f e.client = f c

section

variable {γ β κ α ε δ : Type} {f : γ → δ} {c : γ}

theorem Effect.Keeps.andThen {e : Effect γ β κ α} {next : γ → β → α → Effect γ β κ ε}
    (h : e.Keeps f c) (hnext : ∀ c b a, (next c b a).Keeps f c) : (e.andThen next).Keeps f c := by
  unfold Effect.andThen
  split
  · exact (hnext _ _ _).trans h
  · exact h

theorem keeps_openFirst {attempt : γ → β → String → Effect γ β κ Unit}
    (hattempt : ∀ c b url, (attempt c b url).Keeps f c) (urls : List String)
    (failure : TransportError) (c : γ) (b : β) :
    (openFirst attempt urls failure c b).Keeps f c := by
  induction urls generalizing failure c b with
  | nil => exact rfl
  | cons url rest ih =>
    unfold openFirst
    dsimp only
    split
    · exact hattempt c b url
    · exact (ih _ _ _).trans (hattempt c b url)

end

/-- The subscribers by topic, and the broker in use: what brokers cannot change. -/
def Amqp.standing {κ : Type} (c : Amqp κ) : Table κ × Option String :=
  (c.subscriptions.mapValues AmqpConsumer.subscriber, c.session)

namespace Amqp

variable {β κ : Type} (ask : Ask β AmqpRequest)

theorem standing_endConsumers (c : Amqp κ) (chosen : AmqpConsumer κ → Bool) (reason : String)
    (works : Bool) : (c.endConsumers chosen reason works).1.standing = c.standing := by
  have hvalue : ∀ s : AmqpConsumer κ,
      (if s.live && chosen s then { s with live := false, working := works } else s).subscriber =
        s.subscriber := by
    intro s
    split_ifs <;> rfl
  simp only [standing, endConsumers, Table.mapValues_mapValues, hvalue]

theorem standing_lose (c : Amqp κ) : c.lose.1.standing = c.standing := by
  rw [← c.standing_endConsumers (fun _ => true) undisclosed false]
  simp only [standing, lose, Table.mapValues_mapValues]

theorem keeps_request (c : Amqp κ) (b : β) (url : String) (r : AmqpRequest)
    (failure : TransportError) : (request ask c b url r failure).Keeps standing c := by
  unfold request
  split
  · exact rfl
  · exact c.standing_lose
  · exact rfl

theorem keeps_link (c : Amqp κ) (b : β) (url : String) : (link ask c b url).Keeps standing c := by
  unfold link
  split_ifs
  · exact rfl
  · split <;> exact rfl

theorem keeps_channel (c : Amqp κ) (b : β) (url : String) :
    (channel ask c b url).Keeps standing c :=
  (keeps_link ask c b url).andThen fun c b _ => keeps_request ask c b url _ _

theorem keeps_dial (c : Amqp κ) (b : β) (url : String) : (dial ask c b url).Keeps standing c := by
  have hopened := (keeps_channel ask c b url).andThen fun c b _ =>
    keeps_request ask c b url (.declareExchange c.exchange "topic")
      (.connection ("Failed to declare exchange: " ++ undisclosed))
  unfold dial
  dsimp only
  split <;> exact hopened

theorem keeps_consumer (c : Amqp κ) (b : β) (url key : String) :
    (consumer ask c b url key).Keeps standing c := by
  unfold consumer
  dsimp only
  refine (keeps_channel ask c b url).andThen fun c b _ => ?_
  refine (keeps_request ask c b url _ _).andThen fun c b queue => ?_
  refine (keeps_request ask c b url _ _).andThen fun c b _ => ?_
  exact keeps_request ask c b url _ _

theorem entries_connect (c : Amqp κ) (b : β) :
    (c.connect ask b).client.standing.1 = c.standing.1 := by
  have hdial : ∀ c b url, (dial ask c b url).Keeps (fun c : Amqp κ => c.standing.1) c :=
    fun c b url => congrArg Prod.fst (keeps_dial ask c b url)
  unfold connect
  split_ifs
  · rfl
  · exact Effect.Keeps.andThen (keeps_openFirst hdial _ _ _ _) fun c b url => rfl

theorem entries_subscribe (c : Amqp κ) (b : β) (topic : String) (subscriber : κ) :
    ∀ x ∈ (c.subscribe ask b topic subscriber).client.standing.1, x ∈ c.standing.1 ∨
      (x = (topic, subscriber) ∧ (c.subscribe ask b topic subscriber).result = .ok ()) := by
  unfold subscribe
  split
  · exact fun x hx => Or.inl hx
  · rename_i url _
    have hkept := congrArg Prod.fst (keeps_consumer ask c b url (RoutingKey.ofTopic topic))
    dsimp only
    unfold Effect.andThen
    split
    · intro x hx
      obtain ⟨v, hv, hvalue⟩ := Table.mem_mapValues.mp hx
      rcases Table.mem_insert hv with heq | hold
      · obtain ⟨hkey, rfl⟩ := Prod.mk.inj heq
        exact Or.inr ⟨Prod.ext hkey hvalue.symm, rfl⟩
      · exact Or.inl (hkept ▸ Table.mem_mapValues.mpr ⟨v, hold, hvalue⟩)
    · exact fun x hx => Or.inl (hkept ▸ hx)

end Amqp

namespace Redis

variable {β κ : Type} (ask : Ask β RedisRequest)

theorem entries_connect (c : Redis κ) (b : β) :
    (c.connect ask b).client.subscriptions = c.subscriptions := by
  have hdial : ∀ c b url, (dial ask c b url : Effect (Redis κ) β κ Unit).Keeps subscriptions c := by
    intro c b url
    unfold dial
    split_ifs
    · exact rfl
    · split <;> exact rfl
  unfold connect
  split_ifs
  · rfl
  · exact Effect.Keeps.andThen (keeps_openFirst hdial _ _ _ _) fun c b url => rfl

theorem entries_subscribe (c : Redis κ) (b : β) (topic : String) (subscriber : κ) :
    ∀ x ∈ (c.subscribe ask b topic subscriber).client.subscriptions.mapValues
        RedisSubscription.subscriber,
      x ∈ c.subscriptions.mapValues RedisSubscription.subscriber ∨
        (x = (topic, subscriber) ∧ (c.subscribe ask b topic subscriber).result = .ok ()) := by
  unfold subscribe
  split
  · exact fun x hx => Or.inl hx
  · split
    · split
      · intro x hx
        obtain ⟨v, hv, hvalue⟩ := Table.mem_mapValues.mp hx
        rcases Table.mem_insert hv with heq | hold
        · obtain ⟨hkey, rfl⟩ := Prod.mk.inj heq
          exact Or.inr ⟨Prod.ext hkey hvalue.symm, rfl⟩
        · exact Or.inl (Table.mem_mapValues.mpr ⟨v, hold, hvalue⟩)
      · exact fun x hx => Or.inl hx
    · exact fun x hx => Or.inl hx

end Redis

namespace Mqtt

variable {β κ : Type} (ask : Ask β MqttRequest)

theorem entries_connect (c : Mqtt κ) (b : β) :
    (c.connect ask b).client.subscriptions = c.subscriptions := by
  have hdial : ∀ c b url, (dial ask c b url : Effect (Mqtt κ) β κ Unit).Keeps subscriptions c := by
    intro c b url
    unfold dial
    split <;> exact rfl
  unfold connect
  split_ifs
  · rfl
  · exact Effect.Keeps.andThen (keeps_openFirst hdial _ _ { c with session := none } b)
      fun c b url => rfl

theorem entries_unsubscribe (c : Mqtt κ) (b : β) (topic : String) :
    (c.unsubscribe ask b topic).client.subscriptions ⊆ c.subscriptions := by
  have herase : c.subscriptions.erase topic ⊆ c.subscriptions :=
    fun x hx => Table.mem_of_mem_erase hx
  unfold unsubscribe
  split
  · exact List.Subset.refl _
  · split_ifs
    · exact List.Subset.refl _
    · dsimp only
      split <;> exact herase

theorem entries_unsubscribeEach (topics : List String) (c : Mqtt κ) (b : β) :
    (unsubscribeEach ask topics c b).client.subscriptions ⊆ c.subscriptions := by
  induction topics generalizing c b with
  | nil => exact List.Subset.refl _
  | cons topic rest ih =>
    have hfirst := entries_unsubscribe ask c b topic
    unfold unsubscribeEach Effect.andThen
    split
    · exact List.Subset.trans (ih _ _) hfirst
    · exact hfirst

theorem entries_subscribe (c : Mqtt κ) (b : β) (topic : String) (subscriber : κ) :
    ∀ x ∈ (c.subscribe ask b topic subscriber).client.subscriptions,
      x ∈ c.subscriptions ∨
        (x = (topic, subscriber) ∧ (c.subscribe ask b topic subscriber).result = .ok ()) := by
  -- What a failed subscribe has put in is taken out again.
  have hforgotten : ∀ x ∈ (c.subscriptions.insert topic subscriber).erase topic,
      x ∈ c.subscriptions := by
    intro x hx
    obtain ⟨hx, hne⟩ := List.mem_filter.mp hx
    refine (Table.mem_insert hx).resolve_left fun heq => ?_
    simp [heq] at hne
  unfold subscribe
  split
  · exact fun x hx => Or.inl hx
  · dsimp only
    split
    · exact fun x hx => (Table.mem_insert hx).symm.imp_right fun heq => ⟨heq, rfl⟩
    · exact fun x hx => Or.inl (hforgotten x hx)
    · exact fun x hx => Or.inl (hforgotten x hx)
    · exact fun x hx => Or.inl (hforgotten x hx)

end Mqtt

namespace Transport

variable {β κ : Type}

theorem lawful_redis (ask : Ask β RedisRequest) :
    (redis ask : Transport (Redis κ) β κ _ _).Lawful fun _ => True where
  valid_step _ _ _ := trivial
  subscribed s t := by
    rw [← Table.has_iff]
    exact Bool.eq_iff_iff.mp (Table.has_mapValues ..).symm
  told s i d hd := by
    obtain ⟨x, hx, rfl⟩ := List.mem_map.mp hd
    have hentry := (List.mem_filter.mp (List.mem_filter.mp hx).1).1
    exact ⟨x.1, Table.mem_mapValues.mpr ⟨x.2, hentry, rfl⟩⟩
  connect s := congrArg (Table.mapValues RedisSubscription.subscriber)
    (Redis.entries_connect ask s.1 s.2)
  disconnect _ _ := rfl
  subscribe s topic k := Redis.entries_subscribe ask s.1 s.2 topic k
  unsubscribe s topic := fun x hx => by
    obtain ⟨v, hv, hx⟩ := Table.mem_mapValues.mp hx
    exact Table.mem_mapValues.mpr ⟨v, Table.mem_of_mem_erase hv, hx⟩
  unsubscribeAll _ := List.nil_subset _
  event s o _ := by
    cases o with
    | change b => exact List.Subset.refl _
    | loss =>
      show (s.1.lose.1.subscriptions.mapValues RedisSubscription.subscriber) ⊆ _
      rw [Redis.lose, Table.mapValues_mapValues]
      exact List.Subset.refl _
  refused s topic k hdown := by
    have hnone : s.1.session = none := by simpa [redis, Redis.isConnected] using hdown
    simp [redis, Redis.subscribe, hnone]

theorem lawful_amqp (ask : Ask β AmqpRequest) :
    (amqp ask : Transport (Amqp κ) β κ _ _).Lawful fun _ => True where
  valid_step _ _ _ := trivial
  subscribed s t := by
    rw [← Table.has_iff]
    exact Bool.eq_iff_iff.mp (Table.has_mapValues ..).symm
  told s i d hd := by
    obtain ⟨x, hx, rfl⟩ := List.mem_map.mp hd
    exact ⟨x.1, Table.mem_mapValues.mpr ⟨x.2, (List.mem_filter.mp hx).1, rfl⟩⟩
  connect s := Amqp.entries_connect ask s.1 s.2
  disconnect _ _ := rfl
  subscribe s topic k := Amqp.entries_subscribe ask s.1 s.2 topic k
  unsubscribe s topic := fun x hx => by
    obtain ⟨v, hv, hx⟩ := Table.mem_mapValues.mp hx
    exact Table.mem_mapValues.mpr ⟨v, Table.mem_of_mem_erase hv, hx⟩
  unsubscribeAll _ := List.nil_subset _
  event s o _ := by
    cases o with
    | any e =>
      cases e with
      | change b => exact List.Subset.refl _
      | loss => exact fun x hx => (congrArg (x ∈ ·.1) s.1.standing_lose).mp hx
    | ended chosen reason works =>
      exact fun x hx => (congrArg (x ∈ ·.1) (s.1.standing_endConsumers chosen reason works)).mp hx
  refused s topic k hdown := by
    have hnone : s.1.session = none := by simpa [amqp, Amqp.isConnected] using hdown
    simp [amqp, Amqp.subscribe, hnone]

theorem lawful_mqtt (ask : Ask β MqttRequest) :
    (mqtt ask : Transport (Mqtt κ) β κ _ _).Lawful fun _ => True where
  valid_step _ _ _ := trivial
  subscribed _ _ := Table.has_iff
  told s i d hd := by
    obtain ⟨x, hx, rfl⟩ := List.mem_map.mp hd
    exact ⟨x.1, (List.mem_filter.mp hx).1⟩
  connect s := Mqtt.entries_connect ask s.1 s.2
  disconnect _ _ := rfl
  subscribe s topic k := Mqtt.entries_subscribe ask s.1 s.2 topic k
  unsubscribe s topic := Mqtt.entries_unsubscribe ask s.1 s.2 topic
  unsubscribeAll s := Mqtt.entries_unsubscribeEach ask _ s.1 s.2
  event s o _ := by cases o <;> exact List.Subset.refl _
  refused s topic k hdown := by
    have hoff : s.1.connected = false := hdown
    simp [mqtt, Mqtt.subscribe, Mqtt.live?, hoff]

end Transport

end OrderedRelay
