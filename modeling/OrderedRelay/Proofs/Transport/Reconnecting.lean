import OrderedRelay.Proofs.Transport.Lawful

/-!
# What a reconnect forgets

A reconnect is to forget every subscription. Each kind of transport does so after a disconnect, which
ends all entries, and the first connect finds none. Being told of a lost connection, all but an MQTT
client stay connected, so that there is nothing to reconnect. An MQTT client is disconnected then, and
nothing but a disconnect ends an entry while it is down: what it had outlives the loss, stays
subscribed after the next connect, and is told what arrives, although the new session of the broker
knows none of it.
-/

namespace OrderedRelay

namespace Transport

variable {γ β κ ο ι : Type}

/-! ### The promise -/

/-- A connect that succeeds here leaves nothing subscribed, and only entries made after it are told what
arrives later. -/
def ForgetsAt (T : Transport γ β κ ο ι) (s : γ × β) : Prop :=
  (T.call .connect s).result = .ok () →
    (∀ t, T.isSubscribed (T.call .connect s).state t = false) ∧
      ∀ later i, ∀ d ∈ T.arrive i (T.after (T.call .connect s).state later),
        ∃ t, (t, d.subscriber) ∈ T.madeIn (T.call .connect s).state later

structure New (T : Transport γ β κ ο ι) (valid : γ × β → Prop) (s : γ × β) : Prop where
  valid : valid s
  down : T.isConnected s = false
  empty : T.entries s = []

def Forgets (T : Transport γ β κ ο ι) (valid : γ × β → Prop) : Prop :=
  ∀ s steps, T.New valid s → T.isConnected (T.after s steps) = false → T.ForgetsAt (T.after s steps)

/-- Whether the connection has been lost since the last disconnect: it went away in another step. -/
def lost (T : Transport γ β κ ο ι) : Bool → γ × β → List (Step κ ο) → Bool
  | before, _, [] => before
  | _, s, .call .disconnect :: later => lost T false (T.step s (.call .disconnect)) later
  | before, s, st :: later =>
    lost T (before || (T.isConnected s && !T.isConnected (T.step s st))) (T.step s st) later

/-- Whenever it is not connected and has not lost its connection, a connect forgets. -/
def ForgetsUnlessLost (T : Transport γ β κ ο ι) (valid : γ × β → Prop) : Prop :=
  ∀ s steps, T.New valid s → T.isConnected (T.after s steps) = false →
    T.lost false s steps = false → T.ForgetsAt (T.after s steps)

/-- While it is not connected, nothing but a disconnect changes what is subscribed and who is told. -/
def Remembers (T : Transport γ β κ ο ι) : Prop :=
  ∀ s st, T.isConnected s = false → st ≠ .call .disconnect →
    (∀ t, T.isSubscribed (T.step s st) t = T.isSubscribed s t) ∧
      ∀ i, T.arrive i (T.step s st) = T.arrive i s

/-! ### What a lawful transport forgets -/

section

variable {T : Transport γ β κ ο ι} {valid : γ × β → Prop} {s : γ × β}

theorem Lawful.forgetsAt (hT : T.Lawful valid) (hs : valid s) (hempty : T.entries s = []) :
    T.ForgetsAt s := by
  intro _
  have hnone : T.entries (T.call .connect s).state = [] := (hT.connect s).trans hempty
  have hvalid : valid (T.call .connect s).state := hT.valid_step s (.call .connect) hs
  refine ⟨fun t => ?_, fun later i d hd => ?_⟩
  · rw [← Bool.not_eq_true, hT.subscribed, hnone]
    rintro ⟨k, hk⟩
    cases hk
  · obtain ⟨t, ht⟩ := hT.told _ i d hd
    have hmem := hT.entries_after hvalid later ht
    rw [hnone] at hmem
    exact ⟨t, hmem⟩

/-- While it is not connected no step makes an entry. -/
theorem Lawful.entries_step_down (hT : T.Lawful valid) (hs : valid s)
    (hdown : T.isConnected s = false) (st : Step κ ο) : T.entries (T.step s st) ⊆ T.entries s := by
  have hmade : T.made s st = [] := by
    unfold made
    split
    · rename_i topic k
      split
      · rename_i hok
        exact absurd hok (hT.refused s topic k hdown)
      · rfl
    · rfl
  have hstep := hT.entries_step hs st
  rwa [hmade, List.append_nil] at hstep

/-- A transport that is down, and has not lost its connection, has no entries. -/
theorem Lawful.entries_eq_nil (hT : T.Lawful valid) {before : Bool} {steps : List (Step κ ο)}
    (hs : valid s) (hstart : T.isConnected s = false → before = false → T.entries s = [])
    (hdown : T.isConnected (T.after s steps) = false) (hnot : T.lost before s steps = false) :
    T.entries (T.after s steps) = [] := by
  induction steps generalizing s before with
  | nil => exact hstart hdown hnot
  | cons st later ih =>
    have hvalid := hT.valid_step s st hs
    by_cases hst : st = .call .disconnect
    · subst hst
      exact ih hvalid (fun _ _ => hT.disconnect s hs) hdown hnot
    · rw [lost] at hnot
      · refine ih hvalid (fun hafter hkept => ?_) hdown hnot
        obtain ⟨hbefore, hwent⟩ := Bool.or_eq_false_iff.mp hkept
        have hoff : T.isConnected s = false := by
          rw [hafter, Bool.not_false, Bool.and_true] at hwent
          exact hwent
        have hsub := hT.entries_step_down hs hoff st
        rw [hstart hoff hbefore] at hsub
        exact List.subset_nil.mp hsub
      · exact hst

theorem Lawful.forgetsUnlessLost (hT : T.Lawful valid) : T.ForgetsUnlessLost valid := by
  intro s steps hnew hdown hnot
  exact hT.forgetsAt (hT.valid_after hnew.valid steps)
    (hT.entries_eq_nil hnew.valid (fun _ _ => hnew.empty) hdown hnot)

/-- Only a disconnect takes a connection away. -/
def HoldsOn (T : Transport γ β κ ο ι) : Prop :=
  ∀ s st, st ≠ .call .disconnect → T.isConnected s = true → T.isConnected (T.step s st) = true

theorem HoldsOn.lost_eq_false (hT : T.HoldsOn) (s : γ × β) (steps : List (Step κ ο)) :
    T.lost false s steps = false := by
  induction steps generalizing s with
  | nil => rfl
  | cons st later ih =>
    by_cases hst : st = .call .disconnect
    · subst hst
      exact ih _
    · rw [lost]
      · have hstays : (T.isConnected s && !T.isConnected (T.step s st)) = false := by
          cases hon : T.isConnected s with
          | false => rfl
          | true => simp [hT s st hst hon]
        rw [hstays, Bool.or_false]
        exact ih _
      · exact hst

theorem Lawful.forgets (hT : T.Lawful valid) (hholds : T.HoldsOn) : T.Forgets valid :=
  fun s steps hnew hdown => hT.forgetsUnlessLost s steps hnew hdown (hholds.lost_eq_false s steps)

end

/-! ### Who holds on -/

theorem holdsOn_member (owner : Nat) : (member owner : Transport Unit (Medium κ) κ _ _).HoldsOn := by
  intro s st hst hon
  have hkeep : ∀ step : Hub.Step κ, step ≠ .call owner .disconnect →
      (step.after s.2).hub.isConnected owner = true := by
    intro step hne
    rw [Hub.Step.isConnected_after]
    cases hturns : step.turns owner with
    | none => exact hon
    | some connected =>
      cases connected with
      | true => rfl
      | false => exact absurd (Hub.Step.eq_disconnect_of_turns hturns) hne
  cases st with
  | call c =>
    refine hkeep (.call owner c.ofMember) fun heq => hst ?_
    cases c with
    | disconnect => rfl
    | connect | subscribe topic k | unsubscribe topic | unsubscribeAll => cases heq
  | event step => exact hkeep step.1 (step.2 _)

theorem holdsOn_mock : (mock : Transport (Mock κ) β κ _ _).HoldsOn := by
  intro s st hst hon
  have hon' : s.1.connected = true := hon
  cases st with
  | call c =>
    cases c with
    | connect => rfl
    | disconnect => exact absurd rfl hst
    | subscribe topic k =>
      show (s.1.subscribe topic k).1.connected = true
      unfold Mock.subscribe
      split_ifs <;> exact hon'
    | unsubscribe topic =>
      show (s.1.unsubscribe topic).1.connected = true
      unfold Mock.unsubscribe
      split_ifs
      exact hon'
    | unsubscribeAll => exact hon'
  | event o => exact hon'

theorem holdsOn_redis (ask : Ask β RedisRequest) :
    (redis ask : Transport (Redis κ) β κ _ _).HoldsOn := by
  intro s st hst hon
  have hon' : s.1.isConnected = true := hon
  cases st with
  | call c =>
    cases c with
    | connect =>
      show (s.1.connect ask s.2).client.isConnected = true
      rw [Redis.connect, if_pos hon']
      exact hon'
    | disconnect => exact absurd rfl hst
    | subscribe topic k =>
      show (s.1.subscribe ask s.2 topic k).client.isConnected = true
      unfold Redis.subscribe
      split
      · exact hon'
      · split
        · split <;> exact hon'
        · exact hon'
    | unsubscribe topic | unsubscribeAll => exact hon'
  | event o =>
    cases o with
    | change b => exact hon'
    | loss =>
      show (s.1.session.map _).isSome = true
      rw [Option.isSome_map]
      exact hon'

theorem holdsOn_amqp (ask : Ask β AmqpRequest) :
    (amqp ask : Transport (Amqp κ) β κ _ _).HoldsOn := by
  intro s st hst hon
  have hon' : s.1.isConnected = true := hon
  have hstays : ∀ c : Amqp κ, c.standing.2 = s.1.standing.2 → c.isConnected = true := by
    intro c hc
    have hsession : c.session = s.1.session := hc
    rwa [Amqp.isConnected, hsession]
  cases st with
  | call c =>
    cases c with
    | connect =>
      show (s.1.connect ask s.2).client.isConnected = true
      rw [Amqp.connect, if_pos hon']
      exact hon'
    | disconnect => exact absurd rfl hst
    | subscribe topic k =>
      show (s.1.subscribe ask s.2 topic k).client.isConnected = true
      unfold Amqp.subscribe
      split
      · exact hon'
      · rename_i url _
        have hkept : (Amqp.consumer ask s.1 s.2 url (RoutingKey.ofTopic topic)).Keeps
            (fun c : Amqp κ => c.standing.2) s.1 :=
          congrArg Prod.snd (Amqp.keeps_consumer ask s.1 s.2 url (RoutingKey.ofTopic topic))
        exact hstays _ (hkept.andThen fun c b _ => rfl)
    | unsubscribe topic | unsubscribeAll => exact hon'
  | event o =>
    cases o with
    | any e =>
      cases e with
      | change b => exact hon'
      | loss => exact hstays _ (congrArg Prod.snd s.1.standing_lose)
    | ended chosen reason works => exact hon'

/-! ### An MQTT client that is down -/

theorem remembers_mqtt (ask : Ask β MqttRequest) :
    (mqtt ask : Transport (Mqtt κ) β κ _ _).Remembers := by
  intro s st hdown hst
  have hoff : s.1.live? = none := by
    have hconnected : s.1.connected = false := hdown
    simp [Mqtt.live?, hconnected]
  have hkept : ((mqtt ask).step s st).1.subscriptions = s.1.subscriptions := by
    cases st with
    | call c =>
      cases c with
      | connect => exact Mqtt.entries_connect ask s.1 s.2
      | disconnect => exact absurd rfl hst
      | subscribe topic k => simp [step, Effect.state, mqtt, Mqtt.subscribe, hoff]
      | unsubscribe topic => simp [step, Effect.state, mqtt, Mqtt.unsubscribe, hoff]
      | unsubscribeAll =>
        -- The first of its unsubscribes is refused, if there is one.
        simp only [step, Effect.state, mqtt, Mqtt.unsubscribeAll]
        cases s.1.subscriptions.keys with
        | nil => rfl
        | cons topic rest =>
          simp [Mqtt.unsubscribeEach, Mqtt.unsubscribe, hoff, Effect.andThen]
    | event o => cases o <;> rfl
  refine ⟨fun t => ?_, fun i => ?_⟩
  · exact congrArg (Table.has t) hkept
  · show Mqtt.arrive _ i.1 i.2 = Mqtt.arrive _ i.1 i.2
    rw [Mqtt.arrive, Mqtt.arrive, hkept]

/-- In every run of a transport that is new at first, a connect forgets whenever there is no connection,
except over MQTT after a loss: then what was subscribed when the connection was lost remains so. -/
theorem reconnect_forgets_unless_lost (β κ : Type) :
    (∀ owner, (member owner : Transport Unit (Medium κ) κ _ _).Forgets fun s => s.2.hub.Owned) ∧
      (mock : Transport (Mock κ) β κ _ _).Forgets (fun _ => True) ∧
      (∀ ask, (redis ask : Transport (Redis κ) β κ _ _).Forgets fun _ => True) ∧
      (∀ ask, (amqp ask : Transport (Amqp κ) β κ _ _).Forgets fun _ => True) ∧
      ∀ ask, (mqtt ask : Transport (Mqtt κ) β κ _ _).ForgetsUnlessLost (fun _ => True) ∧
        (mqtt ask : Transport (Mqtt κ) β κ _ _).Remembers :=
  ⟨fun owner => (lawful_member owner).forgets (holdsOn_member owner),
    lawful_mock.forgets holdsOn_mock,
    fun ask => (lawful_redis ask).forgets (holdsOn_redis ask),
    fun ask => (lawful_amqp ask).forgets (holdsOn_amqp ask),
    fun ask => ⟨(lawful_mqtt ask).forgetsUnlessLost, remembers_mqtt ask⟩⟩

theorem reconnect_forgets_sample :
    let T : Transport (Redis String) Unit String _ _ := redis fun b _ _ => (b, .accepted "")
    let s := T.after ({ urls := ["redis://h"] }, ())
      [.call .connect, .call (.subscribe "a" "old"), .event .loss, .call .disconnect]
    T.isConnected s = false ∧ (T.call .connect s).result = .ok () ∧
      T.isSubscribed (T.call .connect s).state "a" = false := by
  intro T s
  have hforgets := (reconnect_forgets_unless_lost Unit String).2.2.1
    (fun b _ _ => (b, .accepted "")) ({ urls := ["redis://h"] }, ())
    [.call .connect, .call (.subscribe "a" "old"), .event .loss, .call .disconnect]
    ⟨trivial, rfl, rfl⟩ rfl
  have hopened : (T.call .connect s).result = .ok () := by decide +kernel
  exact ⟨rfl, hopened, (hforgets hopened).1 "a"⟩

/-- An MQTT client that reconnects after a loss is subscribed as before, and a message that another
subscription brings in goes to the old subscriber as well. -/
theorem lost_subscription_survives_reconnect :
    let T : Transport (Mqtt String) Unit String _ _ := mqtt fun b _ _ => (b, .accepted "")
    let s := T.after ({ urls := ["mqtt://h"], clientId := "c", keepAlive := 30 }, ())
      [.call .connect, .call (.subscribe "a/b" "old"), .event .loss]
    let again := T.call .connect s
    T.isConnected s = false ∧ again.result = .ok () ∧ T.isSubscribed again.state "a/b" = true ∧
      (T.arrive ("a/b", []) (T.after again.state [.call (.subscribe "a/+" "new")])).map
        Delivery.subscriber = ["new", "old"] ∧ ¬ T.Forgets fun _ => True := by
  intro T s again
  have hdown : T.isConnected s = false := rfl
  have hopened : again.result = .ok () := by decide +kernel
  have hstill : T.isSubscribed again.state "a/b" = true := by decide +kernel
  refine ⟨hdown, hopened, hstill, by decide +kernel, fun hforgets => ?_⟩
  have hgone := (hforgets ({ urls := ["mqtt://h"], clientId := "c", keepAlive := 30 }, ())
    [.call .connect, .call (.subscribe "a/b" "old"), .event .loss] ⟨trivial, rfl, rfl⟩ hdown
    hopened).1 "a/b"
  exact Bool.noConfusion (hstill.symm.trans hgone)

end Transport

end OrderedRelay
