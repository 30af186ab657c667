import OrderedRelay.Proofs.Transport.Lawful
import OrderedRelay.Proofs.Transport.Subscribing

/-!
# What a failed subscribe leaves behind

A subscribe that fails while the connection stays up is to change nothing: each topic is subscribed or
not as before, and what arrives is told to those it was told to. So it is for four of the five kinds,
which enter the new subscriber only once it is certain to stay. An MQTT client enters it before it asks
the broker, in place of the one there was, and takes the topic out again when the broker refuses: the
topic is then no longer subscribed, even if it was before.
-/

namespace OrderedRelay

/-! ### An AMQP client while nothing is lost -/

namespace Amqp

variable {β κ α ε : Type} {c : Amqp κ}

/-- Unless subscribers are told of a loss, the operation leaves the live consumers as they were. -/
def Quiet (c : Amqp κ) (e : Effect (Amqp κ) β κ α) : Prop :=
  e.told = [] → ∀ name, e.client.bound name = c.bound name

theorem Quiet.andThen {e : Effect (Amqp κ) β κ α} {next : Amqp κ → β → α → Effect (Amqp κ) β κ ε}
    (h : Quiet c e) (hnext : ∀ c b a, Quiet c (next c b a)) : Quiet c (e.andThen next) := by
  unfold Effect.andThen
  split
  · intro htold name
    obtain ⟨hfirst, hsecond⟩ := List.append_eq_nil_iff.mp htold
    exact (hnext _ _ _ hsecond name).trans (h hfirst name)
  · exact h

/-- A loss of which nobody is told found no live consumer. -/
theorem bound_lose (htold : c.lose.2 = []) (name : String) :
    c.lose.1.bound name = c.bound name := by
  have hdead : ∀ entry ∈ c.subscriptions, entry.2.live = false := by
    have hnone := List.map_eq_nil_iff.mp htold
    rw [List.filter_eq_nil_iff] at hnone
    exact fun entry hentry => by simpa using hnone entry hentry
  have hbefore : c.bound name = [] :=
    List.filter_eq_nil_iff.mpr fun entry hentry => by simp [hdead entry hentry]
  rw [hbefore]
  refine List.filter_eq_nil_iff.mpr fun entry hentry => ?_
  simp only [lose, endConsumers, Table.mapValues_mapValues] at hentry
  obtain ⟨v, hv, hvalue⟩ := Table.mem_mapValues.mp hentry
  have hoff : v.live = false := hdead _ hv
  simp [← hvalue, hoff]

theorem quiet_request (ask : Ask β AmqpRequest) (c : Amqp κ) (b : β) (url : String)
    (r : AmqpRequest) (failure : TransportError) : Quiet c (request ask c b url r failure) := by
  unfold request
  split
  · exact fun _ _ => rfl
  · exact bound_lose
  · exact fun _ _ => rfl

theorem quiet_link (ask : Ask β AmqpRequest) (c : Amqp κ) (b : β) (url : String) :
    Quiet c (link ask c b url) := by
  unfold link
  split_ifs
  · exact fun _ _ => rfl
  · split <;> exact fun _ _ => rfl

theorem quiet_channel (ask : Ask β AmqpRequest) (c : Amqp κ) (b : β) (url : String) :
    Quiet c (channel ask c b url) :=
  (quiet_link ask c b url).andThen fun c b _ => quiet_request ask c b url _ _

theorem quiet_consumer (ask : Ask β AmqpRequest) (c : Amqp κ) (b : β) (url key : String) :
    Quiet c (consumer ask c b url key) := by
  unfold consumer
  dsimp only
  refine (quiet_channel ask c b url).andThen fun c b _ => ?_
  refine (quiet_request ask c b url _ _).andThen fun c b queue => ?_
  refine (quiet_request ask c b url _ _).andThen fun c b _ => ?_
  exact quiet_request ask c b url _ _

theorem subscribe_failed (ask : Ask β AmqpRequest) (c : Amqp κ) (b : β) (topic : String)
    (subscriber : κ) {failure : TransportError}
    (hfailed : (c.subscribe ask b topic subscriber).result = .error failure)
    (htold : (c.subscribe ask b topic subscriber).told = []) :
    (∀ t, (c.subscribe ask b topic subscriber).client.subscriptions.has t =
        c.subscriptions.has t) ∧
      ∀ name, (c.subscribe ask b topic subscriber).client.bound name = c.bound name := by
  unfold subscribe at hfailed htold ⊢
  cases hsession : c.session with
  | none => exact ⟨fun _ => rfl, fun _ => rfl⟩
  | some url =>
    have htopics := keepsTopics_consumer ask c b url (RoutingKey.ofTopic topic)
    have hquiet := quiet_consumer ask c b url (RoutingKey.ofTopic topic)
    simp only [hsession, Effect.andThen] at hfailed htold ⊢
    cases hset : (consumer ask c b url (RoutingKey.ofTopic topic)).result with
    | ok queue =>
      simp only [hset] at hfailed
      cases hfailed
    | error failure =>
      simp only [hset] at htold ⊢
      exact ⟨htopics.topics, hquiet htold⟩

end Amqp

/-! ### An MQTT client whose broker refuses -/

namespace Mqtt

variable {β κ : Type}

/-- A subscribe fails while the connection stays up because there is no connection, or because its request
is refused or cannot be handed over: then its topic is taken out. -/
theorem subscribe_failed (ask : Ask β MqttRequest) (c : Mqtt κ) (b : β) (topic : String)
    (subscriber : κ) {failure : TransportError}
    (hfailed : (c.subscribe ask b topic subscriber).result = .error failure)
    (htold : (c.subscribe ask b topic subscriber).told = []) :
    (failure = .notConnected ∧
      (c.subscribe ask b topic subscriber).client.subscriptions = c.subscriptions) ∨
    ((∃ message, failure = .subscribe topic message) ∧
      (c.subscribe ask b topic subscriber).client.subscriptions = c.subscriptions.erase topic) := by
  unfold subscribe at hfailed htold ⊢
  cases hlive : c.live? with
  | none =>
    simp only [hlive] at hfailed ⊢
    cases hfailed
    exact Or.inl ⟨rfl, trivial⟩
  | some url =>
    obtain ⟨⟨b', reply⟩, hreply⟩ : ∃ r, ask b url (.subscribe topic .atLeastOnce) = r := ⟨_, rfl⟩
    cases reply with
    | accepted given =>
      simp only [hlive, hreply] at hfailed
      cases hfailed
    | refused =>
      simp only [hlive, hreply] at hfailed ⊢
      cases hfailed
      exact Or.inr ⟨⟨_, rfl⟩, Table.erase_insert ..⟩
    | unsent =>
      simp only [hlive, hreply] at hfailed ⊢
      cases hfailed
      exact Or.inr ⟨⟨_, rfl⟩, Table.erase_insert ..⟩
    | dropped =>
      -- The new subscriber at least would have been told of the loss.
      simp only [hlive, hreply] at htold
      have hempty : c.subscriptions.insert topic subscriber = [] := List.map_eq_nil_iff.mp htold
      have hhas := Table.has_insert topic topic subscriber c.subscriptions
      rw [hempty] at hhas
      simp [Table.has, Table.get?] at hhas

end Mqtt

namespace Transport

variable {γ β κ ο ι : Type}

/-! ### The promise -/

/-- The same topics are subscribed, and what arrives is told to the same subscribers. -/
def LooksAlike (T : Transport γ β κ ο ι) (s s' : γ × β) : Prop :=
  (∀ t, T.isSubscribed s' t = T.isSubscribed s t) ∧ ∀ i, T.arrive i s' = T.arrive i s

/-- A subscribe that fails, with nobody told of a loss, changes nothing that can be seen. -/
def FailedSubscribeKeeps (T : Transport γ β κ ο ι) : Prop :=
  ∀ s topic k failure, (T.call (.subscribe topic k) s).result = .error failure →
    (T.call (.subscribe topic k) s).told = [] →
      T.LooksAlike s (T.call (.subscribe topic k) s).state

theorem failedSubscribeKeeps_member (owner : Nat) :
    (member owner : Transport Unit (Medium κ) κ _ _).FailedSubscribeKeeps := by
  intro s topic k failure hfailed _
  have hresult : ((Hub.Call.subscribe topic k).run s.2 owner).result = .error failure := hfailed
  have hrefused : ((Hub.Call.subscribe topic k).run s.2 owner).result = .error .notConnected := by
    rw [Hub.Call.result_run] at hresult ⊢
    split_ifs at hresult with hdown
    rw [if_pos hdown]
  have hsame : ((member owner).call (.subscribe topic k) s).state = s :=
    Prod.ext rfl (Hub.Call.run_of_refused hrefused).1
  rw [hsame]
  exact ⟨fun _ => rfl, fun _ => rfl⟩

theorem failedSubscribeKeeps_mock : (mock : Transport (Mock κ) β κ _ _).FailedSubscribeKeeps := by
  intro s topic k failure hfailed _
  have hsame : (s.1.subscribe topic k).1 = s.1 := by
    have hresult : (s.1.subscribe topic k).2 = .error failure := hfailed
    unfold Mock.subscribe at hresult ⊢
    split_ifs at hresult ⊢
    · rfl
    · rfl
  have hstate : (mock.call (.subscribe topic k) s).state = s := Prod.ext hsame rfl
  rw [hstate]
  exact ⟨fun _ => rfl, fun _ => rfl⟩

theorem failedSubscribeKeeps_redis (ask : Ask β RedisRequest) :
    (redis ask : Transport (Redis κ) β κ _ _).FailedSubscribeKeeps := by
  intro s topic k failure hfailed _
  have hsame : (s.1.subscribe ask s.2 topic k).client = s.1 := by
    have hresult : (s.1.subscribe ask s.2 topic k).result = .error failure := hfailed
    unfold Redis.subscribe at hresult ⊢
    split at hresult
    · rfl
    · split at hresult
      · split at hresult
        · cases hresult
        · rfl
      · rfl
  refine ⟨fun t => ?_, fun i => ?_⟩
  · exact congrArg (fun c : Redis κ => c.subscriptions.has t) hsame
  · exact congrArg (fun c : Redis κ => c.arrive i.1 i.2.1 i.2.2) hsame

theorem failedSubscribeKeeps_amqp (ask : Ask β AmqpRequest) :
    (amqp ask : Transport (Amqp κ) β κ _ _).FailedSubscribeKeeps := by
  intro s topic k failure hfailed htold
  obtain ⟨htopics, hbound⟩ := Amqp.subscribe_failed ask s.1 s.2 topic k hfailed htold
  exact ⟨htopics, fun i => congrArg (List.map _) (hbound i.1)⟩

/-- Over MQTT the promise is kept if the client was not connected or the topic was not subscribed. When
the request fails, everything looks as if the topic had been unsubscribed. -/
def FailedSubscribeForgets (ask : Ask β MqttRequest) : Prop :=
  ∀ (s : Mqtt κ × β) topic k failure,
    ((mqtt ask).call (.subscribe topic k) s).result = .error failure →
      ((mqtt ask).call (.subscribe topic k) s).told = [] →
        (failure = .notConnected ∨ (mqtt ask).isSubscribed s topic = false →
          (mqtt ask).LooksAlike s ((mqtt ask).call (.subscribe topic k) s).state) ∧
        (failure ≠ .notConnected →
          (mqtt ask).LooksAlike (s.1.forget topic, s.2)
            ((mqtt ask).call (.subscribe topic k) s).state)

theorem looksAlike_mqtt {ask : Ask β MqttRequest} {s s' : Mqtt κ × β}
    (h : s'.1.subscriptions = s.1.subscriptions) : (mqtt ask).LooksAlike s s' := by
  refine ⟨fun t => congrArg (Table.has t) h, fun i => ?_⟩
  show Mqtt.arrive _ i.1 i.2 = Mqtt.arrive _ i.1 i.2
  rw [Mqtt.arrive, Mqtt.arrive, h]

theorem failedSubscribeForgets_mqtt (ask : Ask β MqttRequest) :
    FailedSubscribeForgets (κ := κ) ask := by
  intro s topic k failure hfailed htold
  rcases Mqtt.subscribe_failed ask s.1 s.2 topic k hfailed htold with
    ⟨hoff, hsame⟩ | ⟨⟨message, rfl⟩, herased⟩
  · exact ⟨fun _ => looksAlike_mqtt hsame, fun hne => absurd hoff hne⟩
  · refine ⟨?_, fun _ => looksAlike_mqtt herased⟩
    rintro (hoff | habsent)
    · cases hoff
    · exact looksAlike_mqtt (herased.trans (Table.erase_eq_self habsent))

/-- A subscribe that fails while the connection stays up changes nothing that can be seen, except that
an MQTT client forgets the topic when its request fails. -/
theorem failed_subscribe_keeps_but_mqtt (β κ : Type) :
    (∀ owner, (member owner : Transport Unit (Medium κ) κ _ _).FailedSubscribeKeeps) ∧
      (mock : Transport (Mock κ) β κ _ _).FailedSubscribeKeeps ∧
      (∀ ask, (redis ask : Transport (Redis κ) β κ _ _).FailedSubscribeKeeps) ∧
      (∀ ask, (amqp ask : Transport (Amqp κ) β κ _ _).FailedSubscribeKeeps) ∧
      ∀ ask : Ask β MqttRequest, FailedSubscribeForgets (κ := κ) ask :=
  ⟨failedSubscribeKeeps_member, failedSubscribeKeeps_mock, failedSubscribeKeeps_redis,
    failedSubscribeKeeps_amqp, failedSubscribeForgets_mqtt⟩

theorem failed_subscribe_keeps_sample :
    let T : Transport (Redis String) Bool String _ _ :=
      redis fun cut _ _ => (cut, if cut then .dropped else .accepted "")
    let s := T.after ({ urls := ["redis://h"] }, false)
      [.call .connect, .call (.subscribe "a" "old"), .event (.change true)]
    (T.call (.subscribe "a" "new") s).result = .error (.subscribe "a" undisclosed) ∧
      T.isSubscribed s "a" = true ∧ T.LooksAlike s (T.call (.subscribe "a" "new") s).state := by
  intro T s
  have hfailed : (T.call (.subscribe "a" "new") s).result = .error (.subscribe "a" undisclosed) := by
    decide +kernel
  exact ⟨hfailed, by decide +kernel, (failed_subscribe_keeps_but_mqtt Bool String).2.2.1
    (fun cut _ _ => (cut, if cut then .dropped else .accepted "")) s "a" "new" _ hfailed rfl⟩

/-- A broker that refuses to renew a subscription over MQTT ends it: the old subscriber, told before, is
no longer told. -/
theorem refused_renewal_unsubscribes :
    let T : Transport (Mqtt String) Bool String _ _ :=
      mqtt fun strict _ _ => (strict, if strict then .refused else .accepted "")
    let s := T.after ({ urls := ["mqtt://h"], clientId := "c", keepAlive := 30 }, false)
      [.call .connect, .call (.subscribe "a" "old"), .event (.change true)]
    let e := T.call (.subscribe "a" "new") s
    e.result = .error (.subscribe "a" "Broker rejected subscription") ∧ e.told = [] ∧
      T.isConnected e.state = true ∧ T.isSubscribed s "a" = true ∧ T.isSubscribed e.state "a" = false ∧
      (T.arrive ("a", []) s).map Delivery.subscriber = ["old"] ∧ T.arrive ("a", []) e.state = [] ∧
      ¬ T.FailedSubscribeKeeps := by
  intro T s e
  have hfailed : e.result = .error (.subscribe "a" "Broker rejected subscription") := by
    decide +kernel
  have hbefore : T.isSubscribed s "a" = true := by decide +kernel
  have hafter : T.isSubscribed e.state "a" = false := by decide +kernel
  refine ⟨hfailed, rfl, by decide +kernel, hbefore, hafter, by decide +kernel, rfl, fun hkeeps => ?_⟩
  have hsame := (hkeeps s "a" "new" _ hfailed rfl).1 "a"
  rw [hbefore] at hsame
  exact Bool.noConfusion (hafter.symm.trans hsame)

end Transport

end OrderedRelay
