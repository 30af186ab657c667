import Mathlib.Order.Bounds.Basic
import Mathlib.Tactic.SplitIfs
import OrderedRelay.Transport.Amqp

/-!
# Where retries stop

What is repeated stops with the first attempt that succeeds or fails for good, or else with the one that
no delay is left for; it ends as that attempt ends, in the state that it leaves. So attempts to connect
stop at the first success or the 31st failure, and attempts to publish at the first success, the first
failure for good or the sixth failure. Every attempt to publish whose channel opens asks the broker once
to publish the same payload by the same routing key, and nothing else is published on the way.
-/

namespace OrderedRelay

namespace Retry

variable {σ ε α : Type} {mayPass : ε → Bool} {outcome : Nat → Except ε α} {delays n : Nat}
  {attempt : σ → σ × Except ε α} {s : σ}

/-- After this outcome nothing is tried again, whatever delays are left: it is a success, or a failure
that will not pass. -/
def Final (mayPass : ε → Bool) : Except ε α → Prop
  | .ok _ => True
  | .error e => mayPass e = false

/-- The numbers, counted from 0, of the attempts that may be the last of those with these outcomes. -/
def stops (mayPass : ε → Bool) (delays : Nat) (outcome : Nat → Except ε α) : Set Nat :=
  {i | i = delays ∨ Final mayPass (outcome i)}

theorem final_iff_ok {r : Except ε α} : Final (fun _ => true) r ↔ ∃ a, r = .ok a := by
  cases r <;> simp [Final]

theorem isLeast_stops_zero (h : delays = 0 ∨ Final mayPass (outcome 0)) :
    IsLeast (stops mayPass delays outcome) 0 :=
  ⟨h.imp_left Eq.symm, fun i _ => Nat.zero_le i⟩

theorem isLeast_stops_succ (h : ¬ Final mayPass (outcome 0))
    (hn : IsLeast (stops mayPass delays fun i => outcome (i + 1)) n) :
    IsLeast (stops mayPass (delays + 1) outcome) (n + 1) := by
  constructor
  · exact hn.1.imp_left (congrArg (· + 1))
  · intro i hi
    cases i with
    | zero => exact absurd (hi.resolve_left (Nat.succ_ne_zero delays).symm) h
    | succ i =>
      apply Nat.succ_le_succ
      exact hn.2 (hi.imp_left Nat.succ.inj)

/-! ### One attempt after another -/

/-- Attempt `n`, counted from 0, if each is made in the state that the one before it has left. -/
def attemptAt (attempt : σ → σ × Except ε α) (s : σ) : Nat → σ × Except ε α
  | 0 => attempt s
  | n + 1 => attempt (attemptAt attempt s n).1

theorem attemptAt_succ : attemptAt attempt s (n + 1) = attemptAt attempt (attempt s).1 n := by
  induction n with
  | zero => rfl
  | succ n ih => exact congrArg (fun r => attempt r.1) ih

theorem run_of_final (h : Final mayPass (attempt s).2) :
    run mayPass attempt delays s = attempt s := by
  cases delays with
  | zero => rfl
  | succ delays =>
    cases hr : attempt s with
    | mk s' r =>
      cases r with
      | ok a => simp [run, hr]
      | error e =>
        have hlasting : mayPass e = false := by simpa [hr, Final] using h
        simp [run, hr, hlasting]

theorem run_of_not_final (h : ¬ Final mayPass (attempt s).2) :
    run mayPass attempt (delays + 1) s = run mayPass attempt delays (attempt s).1 := by
  cases hr : attempt s with
  | mk s' r =>
    cases r with
    | ok a => simp [hr, Final] at h
    | error e =>
      have hpassing : mayPass e = true := by simpa [hr, Final] using h
      simp [run, hr, hpassing]

/-- A run is the first of its attempts that may be the last. -/
theorem run_stops (mayPass : ε → Bool) (attempt : σ → σ × Except ε α) (delays : Nat) (s : σ) :
    ∃ n, IsLeast (stops mayPass delays fun i => (attemptAt attempt s i).2) n ∧
      run mayPass attempt delays s = attemptAt attempt s n := by
  induction delays generalizing s with
  | zero => exact ⟨0, isLeast_stops_zero (Or.inl rfl), rfl⟩
  | succ delays ih =>
    by_cases hfinal : Final mayPass (attempt s).2
    · exact ⟨0, isLeast_stops_zero (Or.inr hfinal), run_of_final hfinal⟩
    · -- The failure has taken a delay; what is left is a run from the state behind it.
      obtain ⟨n, hn, hrun⟩ := ih (attempt s).1
      simp only [← attemptAt_succ] at hn hrun
      exact ⟨n + 1, isLeast_stops_succ hfinal hn, (run_of_not_final hfinal).trans hrun⟩

theorem attemptAt_counted (attempt : Nat → Except ε α) (n : Nat) :
    attemptAt (fun k => (k + 1, attempt (k + 1))) 0 n = (n + 1, attempt (n + 1)) := by
  induction n with
  | zero => rfl
  | succ n ih => rw [attemptAt, ih]

theorem connect_stops (attempt : Nat → Except ε α) :
    ∃ n, IsLeast {i | i = connectionDelays ∨ ∃ a, attempt (i + 1) = .ok a} n ∧
      connect attempt = (n + 1, attempt (n + 1)) := by
  obtain ⟨n, hn, hrun⟩ := run_stops (fun _ => true) (fun k => (k + 1, attempt (k + 1)))
    connectionDelays 0
  simp only [attemptAt_counted, stops, final_iff_ok] at hn hrun
  exact ⟨n, hn, hrun⟩

end Retry

/-! ### Attempts to publish -/

namespace Amqp

open Retry (Final stops)

variable {β κ α ε : Type} {once : Attempt β κ} {c : Amqp κ} {b : β} {p : Publication} {n : Nat}

/-- Attempt `n` to publish, counted from 0, if each is made where the one before it left off. All are to
send the same. -/
def attemptAt (once : Attempt β κ) (c : Amqp κ) (b : β) (p : Publication) :
    Nat → Effect (Amqp κ) β κ Unit
  | 0 => once c b (RoutingKey.ofTopic p.topic) (Envelope.encode p.message) p.options
  | n + 1 =>
    let e := attemptAt once c b p n
    once e.client e.line (RoutingKey.ofTopic p.topic) (Envelope.encode p.message) p.options

/-- Where attempt `n` sets out. -/
def before (once : Attempt β κ) (c : Amqp κ) (b : β) (p : Publication) : Nat → Amqp κ × β
  | 0 => (c, b)
  | n + 1 => ((attemptAt once c b p n).client, (attemptAt once c b p n).line)

def toldUpTo (once : Attempt β κ) (c : Amqp κ) (b : β) (p : Publication) (n : Nat) :
    List (Delivery κ) :=
  (List.range (n + 1)).flatMap fun i => (attemptAt once c b p i).told

theorem toldUpTo_succ :
    toldUpTo once c b p (n + 1) = toldUpTo once c b p n ++ (attemptAt once c b p (n + 1)).told := by
  rw [toldUpTo, List.range_succ, List.flatMap_append, List.flatMap_singleton, toldUpTo]

theorem attemptAt_attempt (once : Attempt β κ) (c : Amqp κ) (b : β) (p : Publication) (n : Nat) :
    Retry.attemptAt
        (attempt once (RoutingKey.ofTopic p.topic) (Envelope.encode p.message) p.options)
        (c, b, []) n =
      (((attemptAt once c b p n).client, (attemptAt once c b p n).line, toldUpTo once c b p n),
        (attemptAt once c b p n).result) := by
  induction n with
  | zero => simp [Retry.attemptAt, attempt, attemptAt, toldUpTo]
  | succ n ih => rw [Retry.attemptAt, ih, toldUpTo_succ, attempt, attemptAt]

theorem publishBy_stops (once : Attempt β κ) (c : Amqp κ) (b : β) (p : Publication) :
    ∃ n, IsLeast (stops TransportError.isRetryable Retry.publishDelays fun i =>
        (attemptAt once c b p i).result) n ∧
      publishBy once c b p = { attemptAt once c b p n with told := toldUpTo once c b p n } := by
  obtain ⟨n, hn, hrun⟩ := Retry.run_stops TransportError.isRetryable
    (attempt once (RoutingKey.ofTopic p.topic) (Envelope.encode p.message) p.options)
    Retry.publishDelays (c, b, [])
  simp only [attemptAt_attempt] at hn hrun
  refine ⟨n, hn, ?_⟩
  simp only [publishBy, hrun]

/-! ### Outcomes that are given beforehand -/

/-- Attempts whose outcomes are given. All they change is a record of what each is to send. -/
def scripted (outcome : Nat → Except TransportError Unit) :
    Attempt (List (String × String × PublishOptions)) κ := fun c sent key payload options =>
  { client := c, line := sent ++ [(key, payload, options)], result := outcome sent.length }

theorem attemptAt_scripted (outcome : Nat → Except TransportError Unit) (c : Amqp κ)
    (p : Publication) (n : Nat) :
    attemptAt (scripted outcome) c [] p n =
      { client := c
        line := List.replicate (n + 1)
          (RoutingKey.ofTopic p.topic, Envelope.encode p.message, p.options)
        result := outcome n } := by
  induction n with
  | zero => rfl
  | succ n ih => simp [attemptAt, ih, scripted, List.replicate_succ']

theorem toldUpTo_scripted (outcome : Nat → Except TransportError Unit) (c : Amqp κ)
    (p : Publication) (n : Nat) : toldUpTo (scripted outcome) c [] p n = [] := by
  simp [toldUpTo, attemptAt_scripted]

/-! ### What brokers are asked -/

/-- The one message, as a broker is asked to publish it. -/
def message (exchange : String) (p : Publication) : AmqpRequest :=
  .publish exchange (RoutingKey.ofTopic p.topic) "application/json" p.options.quality
    p.options.expiry (Envelope.encode p.message)

def isPublish : AmqpRequest → Bool
  | .publish _ _ _ _ _ _ => true
  | _ => false

/-- Whether an attempt from here gets a channel. -/
def opens (ask : Ask β AmqpRequest) (c : Amqp κ) (b : β) : Bool :=
  match c.session with
  | none => false
  | some url => (channel ask c b url).result.isOk

/-- What an attempt from here asks for to get a channel: a connection if none is open, and if that is
there the channel. -/
def opening (ask : Ask β AmqpRequest) (c : Amqp κ) (b : β) : List AmqpRequest :=
  match c.session with
  | none => []
  | some url =>
    (if c.linked then [] else [.connect]) ++
      if (link ask c b url).result.isOk then [.openChannel] else []

/-- All that an attempt from here asks for. -/
def asked (ask : Ask β AmqpRequest) (p : Publication) (s : Amqp κ × β) : List AmqpRequest :=
  opening ask s.1 s.2 ++ if opens ask s.1 s.2 then [message s.1.exchange p] else []

theorem mem_opening {ask : Ask β AmqpRequest} {q : AmqpRequest} (hq : q ∈ opening ask c b) :
    q = .connect ∨ q = .openChannel := by
  unfold opening at hq
  split at hq
  · cases hq
  · split_ifs at hq <;> simp_all

theorem filter_asked (ask : Ask β AmqpRequest) (p : Publication) (s : Amqp κ × β) :
    (asked ask p s).filter isPublish =
      if opens ask s.1 s.2 then [message s.1.exchange p] else [] := by
  have hopening : (opening ask s.1 s.2).filter isPublish = [] := by
    rw [List.filter_eq_nil_iff]
    intro q hq
    obtain rfl | rfl := mem_opening hq <;> decide
  rw [asked, List.filter_append, hopening, List.nil_append]
  split_ifs <;> rfl

/-- An attempt from here gets a channel, and over it the broker takes the message. -/
def Taken (ask : Ask β AmqpRequest) (p : Publication) (s : Amqp κ × β) : Prop :=
  ∃ url, s.1.session = some url ∧ (channel ask s.1 s.2 url).result.isOk = true ∧
    ∃ given, (ask (channel ask s.1 s.2 url).line url (message s.1.exchange p)).2 = .accepted given

/-- Brokers with a record beside them of everything they are asked. -/
def withRecord (ask : Ask β AmqpRequest) : Ask (β × List AmqpRequest) AmqpRequest := fun b url q =>
  (((ask b.1 url q).1, b.2 ++ [q]), (ask b.1 url q).2)

def withoutRecord (e : Effect (Amqp κ) (β × List AmqpRequest) κ α) : Effect (Amqp κ) β κ α :=
  { e with line := e.line.1 }

/-- From a client and brokers with a record, an effect is the given one but for the record, to which it
has added these requests. The exchange is still the same. -/
structure Recorded (c : Amqp κ) (r : β × List AmqpRequest) (new : List AmqpRequest)
    (e : Effect (Amqp κ) (β × List AmqpRequest) κ α) (plain : Effect (Amqp κ) β κ α) : Prop where
  withoutRecord_eq : withoutRecord e = plain
  exchange_eq : e.client.exchange = c.exchange
  record_eq : e.line.2 = r.2 ++ new

section

variable {r : β × List AmqpRequest} {new more : List AmqpRequest}
  {e : Effect (Amqp κ) (β × List AmqpRequest) κ α} {plain : Effect (Amqp κ) β κ α}
  (ask : Ask β AmqpRequest)

theorem Recorded.trans {e' : Effect (Amqp κ) (β × List AmqpRequest) κ ε}
    {plain' : Effect (Amqp κ) β κ ε} (h : Recorded c r new e plain)
    (h' : Recorded e.client e.line more e' plain') : Recorded c r (new ++ more) e' plain' where
  withoutRecord_eq := h'.withoutRecord_eq
  exchange_eq := h'.exchange_eq.trans h.exchange_eq
  record_eq := by rw [h'.record_eq, h.record_eq, List.append_assoc]

theorem Recorded.andThen
    {next : Amqp κ → β × List AmqpRequest → α → Effect (Amqp κ) (β × List AmqpRequest) κ ε}
    {plainNext : Amqp κ → β → α → Effect (Amqp κ) β κ ε} (h : Recorded c r new e plain)
    (hnext : ∀ c' r' a, c'.exchange = c.exchange →
      Recorded c' r' more (next c' r' a) (plainNext c' r'.1 a)) :
    Recorded c r (new ++ if plain.result.isOk then more else []) (e.andThen next)
      (plain.andThen plainNext) := by
  obtain rfl := h.withoutRecord_eq
  cases hresult : e.result with
  | ok a =>
    obtain ⟨hplain, hexchange, hrecord⟩ := h.trans (hnext e.client e.line a h.exchange_eq)
    simp only [Effect.andThen, withoutRecord, hresult, ← hplain]
    exact ⟨rfl, hexchange, hrecord⟩
  | error failure =>
    simp only [Effect.andThen, withoutRecord, hresult]
    exact ⟨rfl, h.exchange_eq, h.record_eq.trans (congrArg _ (List.append_nil new).symm)⟩

theorem recorded_request (c : Amqp κ) (r : β × List AmqpRequest) (url : String) (q : AmqpRequest)
    (failure : TransportError) :
    Recorded c r [q] (request (withRecord ask) c r url q failure)
      (request ask c r.1 url q failure) := by
  unfold request withRecord
  cases ask r.1 url q with
  | mk b reply => cases reply <;> exact ⟨rfl, rfl, rfl⟩

theorem recorded_link (c : Amqp κ) (r : β × List AmqpRequest) (url : String) :
    Recorded c r (if c.linked then [] else [.connect]) (link (withRecord ask) c r url)
      (link ask c r.1 url) := by
  unfold link withRecord
  split_ifs
  · exact ⟨rfl, rfl, (List.append_nil r.2).symm⟩
  · cases ask r.1 url .connect with
    | mk b reply => cases reply <;> exact ⟨rfl, rfl, rfl⟩

theorem recorded_channel (c : Amqp κ) (r : β × List AmqpRequest) (url : String) :
    Recorded c r
      ((if c.linked then [] else [.connect]) ++
        if (link ask c r.1 url).result.isOk then [.openChannel] else [])
      (channel (withRecord ask) c r url) (channel ask c r.1 url) :=
  (recorded_link ask c r url).andThen fun c' r' _ _ => recorded_request ask c' r' url .openChannel _

theorem recorded_send (c : Amqp κ) (r : β × List AmqpRequest) (url : String) (p : Publication) :
    Recorded c r [message c.exchange p]
      (send (withRecord ask) c r url (RoutingKey.ofTopic p.topic) (Envelope.encode p.message)
        p.options)
      (send ask c r.1 url (RoutingKey.ofTopic p.topic) (Envelope.encode p.message) p.options) := by
  unfold send withRecord
  cases ask r.1 url _ with
  | mk b reply => cases reply <;> exact ⟨rfl, rfl, rfl⟩

theorem recorded_publishOnce (c : Amqp κ) (r : β × List AmqpRequest) (p : Publication) :
    Recorded c r (asked ask p (c, r.1))
      (publishOnce (withRecord ask) c r (RoutingKey.ofTopic p.topic) (Envelope.encode p.message)
        p.options)
      (publishOnce ask c r.1 (RoutingKey.ofTopic p.topic) (Envelope.encode p.message) p.options) := by
  cases hsession : c.session with
  | none =>
    simp only [publishOnce, asked, opening, opens, hsession]
    exact ⟨rfl, rfl, (List.append_nil r.2).symm⟩
  | some url =>
    simp only [publishOnce, asked, opening, opens, hsession]
    refine (recorded_channel ask c r url).andThen fun c' r' _ hexchange => ?_
    rw [← hexchange]
    exact recorded_send ask c' r' url p

theorem exchange_channel (c : Amqp κ) (b : β) (url : String) :
    (channel ask c b url).client.exchange = c.exchange := by
  have hchannel := recorded_channel ask c (b, []) url
  rw [← hchannel.withoutRecord_eq]
  exact hchannel.exchange_eq

theorem send_ok_iff (c : Amqp κ) (b : β) (url : String) (p : Publication) :
    (send ask c b url (RoutingKey.ofTopic p.topic) (Envelope.encode p.message) p.options).result =
        .ok () ↔
      ∃ given, (ask b url (message c.exchange p)).2 = .accepted given := by
  unfold send message
  cases ask b url _ with
  | mk b' reply => cases reply <;> simp

/-- An attempt succeeds if the broker takes the message, and only then. -/
theorem publishOnce_ok_iff (c : Amqp κ) (b : β) (p : Publication) :
    (publishOnce ask c b (RoutingKey.ofTopic p.topic) (Envelope.encode p.message)
        p.options).result = .ok () ↔ Taken ask p (c, b) := by
  cases hsession : c.session with
  | none => simp [publishOnce, Taken, hsession]
  | some url =>
    cases hresult : (channel ask c b url).result with
    | error failure =>
      simp [publishOnce, Taken, hsession, Effect.andThen, hresult, Except.isOk, Except.toBool]
    | ok id =>
      have hsend := send_ok_iff ask (channel ask c b url).client (channel ask c b url).line url p
      rw [exchange_channel] at hsend
      simpa [publishOnce, Taken, hsession, Effect.andThen, hresult, Except.isOk, Except.toBool]
        using hsend

theorem attemptAt_ok_iff (c : Amqp κ) (b : β) (p : Publication) (n : Nat) :
    (attemptAt (publishOnce ask) c b p n).result = .ok () ↔
      Taken ask p (before (publishOnce ask) c b p n) := by
  cases n with
  | zero => exact publishOnce_ok_iff ask c b p
  | succ n => exact publishOnce_ok_iff ask _ _ p

theorem recorded_attemptAt (c : Amqp κ) (b : β) (p : Publication) (n : Nat) :
    Recorded c (b, [])
      ((List.range (n + 1)).flatMap fun i => asked ask p (before (publishOnce ask) c b p i))
      (attemptAt (publishOnce (withRecord ask)) c (b, []) p n)
      (attemptAt (publishOnce ask) c b p n) := by
  induction n with
  | zero =>
    rw [List.range_one, List.flatMap_singleton]
    exact recorded_publishOnce ask c (b, []) p
  | succ n ih =>
    rw [List.range_succ, List.flatMap_append, List.flatMap_singleton, before]
    have hnext := ih.trans (recorded_publishOnce ask _ _ p)
    rw [attemptAt, attemptAt, ← ih.withoutRecord_eq]
    exact hnext

theorem exchange_before (c : Amqp κ) (b : β) (p : Publication) (n : Nat) :
    (before (publishOnce ask) c b p n).1.exchange = c.exchange := by
  cases n with
  | zero => rfl
  | succ n =>
    have hattempt := recorded_attemptAt ask c b p n
    rw [before, ← hattempt.withoutRecord_eq]
    exact hattempt.exchange_eq

theorem flatMap_single_eq (x : AmqpRequest) (f : Nat → Bool) (is : List Nat) :
    (is.flatMap fun i => if f i then [x] else []) = List.replicate (is.countP f) x := by
  induction is with
  | nil => rfl
  | cons i is ih =>
    rw [List.flatMap_cons, ih, List.countP_cons]
    cases f i with
    | true => exact (List.replicate_succ ..).symm
    | false => rfl

/-- Publishing ends as the attempt at which it stops; each attempt up to that one has asked for what it
asks for, the message once if it got a channel. -/
theorem publish_stops (c : Amqp κ) (b : β) (p : Publication) :
    ∃ n, IsLeast (stops TransportError.isRetryable Retry.publishDelays fun i =>
        (attemptAt (publishOnce ask) c b p i).result) n ∧
      c.publish ask b p =
        { attemptAt (publishOnce ask) c b p n with told := toldUpTo (publishOnce ask) c b p n } ∧
      Recorded c (b, [])
        ((List.range (n + 1)).flatMap fun i => asked ask p (before (publishOnce ask) c b p i))
        (c.publish (withRecord ask) (b, []) p) (c.publish ask b p) := by
  have hattempt := recorded_attemptAt ask c b p
  have hresult : ∀ i, (attemptAt (publishOnce (withRecord ask)) c (b, []) p i).result =
      (attemptAt (publishOnce ask) c b p i).result :=
    fun i => congrArg Effect.result (hattempt i).withoutRecord_eq
  have htold : ∀ i, (attemptAt (publishOnce (withRecord ask)) c (b, []) p i).told =
      (attemptAt (publishOnce ask) c b p i).told :=
    fun i => congrArg Effect.told (hattempt i).withoutRecord_eq
  -- The outcomes are the same, so both stop at the same attempt.
  obtain ⟨n, hn, hrecorded⟩ := publishBy_stops (publishOnce (withRecord ask)) c (b, []) p
  obtain ⟨m, hm, hplain⟩ := publishBy_stops (publishOnce ask) c b p
  simp only [hresult] at hn
  obtain rfl : n = m := hn.unique hm
  refine ⟨n, hm, hplain, ?_⟩
  rw [publish, publish, hrecorded, hplain, ← (hattempt n).withoutRecord_eq]
  refine ⟨?_, (hattempt n).exchange_eq, (hattempt n).record_eq⟩
  simp only [withoutRecord, toldUpTo, htold]

theorem filter_askedUpTo (c : Amqp κ) (b : β) (p : Publication) (n : Nat) :
    ((List.range n).flatMap fun i =>
        asked ask p (before (publishOnce ask) c b p i)).filter isPublish =
      List.replicate ((List.range n).countP fun i =>
          opens ask (before (publishOnce ask) c b p i).1 (before (publishOnce ask) c b p i).2)
        (message c.exchange p) := by
  rw [← flatMap_single_eq, List.filter_flatMap]
  simp only [filter_asked, exchange_before]

end

end Amqp

/-- Attempts to connect stop at the first success or the 31st failure. Attempts to publish stop at the
first success, the first failure for good or the sixth failure, whatever their outcomes are, and each is
to send the same payload by the same routing key. Over any brokers publishing ends as the attempt at which
it stops, and an attempt succeeds if and only if it gets a channel and over it the broker takes the
message. Up to the last one, each attempt whose channel opens asks to publish the message, once, and any
other asks for no message; publishing asks for nothing else. -/
theorem attempts_stop_when_due {ε α β κ : Type} (attempt : Nat → Except ε α)
    (outcome : Nat → Except TransportError Unit) (ask : Ask β AmqpRequest) (c : Amqp κ) (b : β)
    (p : Publication) :
    (∃ n, IsLeast {i | i = 30 ∨ ∃ a, attempt (i + 1) = .ok a} n ∧
      Retry.connect attempt = (n + 1, attempt (n + 1))) ∧
    (∃ n, IsLeast {i | i = 5 ∨ Retry.Final TransportError.isRetryable (outcome i)} n ∧
      Amqp.publishBy (Amqp.scripted outcome) c [] p =
        { client := c
          line := List.replicate (n + 1)
            (RoutingKey.ofTopic p.topic, Envelope.encode p.message, p.options)
          result := outcome n }) ∧
    let start := Amqp.before (Amqp.publishOnce ask) c b p
    let recorded := c.publish (Amqp.withRecord ask) (b, []) p
    (∀ i, (Amqp.attemptAt (Amqp.publishOnce ask) c b p i).result = .ok () ↔
      Amqp.Taken ask p (start i)) ∧
    Amqp.withoutRecord recorded = c.publish ask b p ∧
    ∃ n, IsLeast {i | i = 5 ∨ Retry.Final TransportError.isRetryable
          (Amqp.attemptAt (Amqp.publishOnce ask) c b p i).result} n ∧
      c.publish ask b p =
        { Amqp.attemptAt (Amqp.publishOnce ask) c b p n with
          told := Amqp.toldUpTo (Amqp.publishOnce ask) c b p n } ∧
      recorded.line.2 = ((List.range (n + 1)).flatMap fun i =>
        Amqp.opening ask (start i).1 (start i).2 ++
          if Amqp.opens ask (start i).1 (start i).2 then [Amqp.message c.exchange p] else []) ∧
      recorded.line.2.filter Amqp.isPublish =
        List.replicate ((List.range (n + 1)).countP fun i => Amqp.opens ask (start i).1 (start i).2)
          (Amqp.message c.exchange p) := by
  refine ⟨Retry.connect_stops attempt, ?_, ?_⟩
  · obtain ⟨n, hn, hpublish⟩ := Amqp.publishBy_stops (Amqp.scripted outcome) c [] p
    simp only [Amqp.attemptAt_scripted, Amqp.toldUpTo_scripted] at hn hpublish
    exact ⟨n, hn, hpublish⟩
  · obtain ⟨n, hn, hpublish, hrecorded⟩ := Amqp.publish_stops ask c b p
    have hrecord := hrecorded.record_eq
    rw [List.nil_append] at hrecord
    refine ⟨Amqp.attemptAt_ok_iff ask c b p, hrecorded.withoutRecord_eq, n, hn, hpublish, ?_, ?_⟩
    · rw [hrecord]
      simp only [Amqp.asked, Amqp.exchange_before]
    · rw [hrecord]
      exact Amqp.filter_askedUpTo ask c b p (n + 1)

/-- Brokers that give these replies, one after another. -/
def Amqp.replying : Ask (List Reply) AmqpRequest := fun replies _ _ =>
  (replies.tail, replies.headD (.accepted ""))

/-- A broker that at first has no channel, then refuses the message, then goes away in the middle of it,
and in the end takes it. -/
def sampleReplies : List Reply := [.accepted "", .refused, .accepted "", .refused, .accepted "", .dropped]

def sampleClient : Amqp Unit :=
  { urls := ["amqp://k"], exchange := "relay", tag := "t", session := some "amqp://k" }

theorem attempts_stop_when_due_sample :
    let p : Publication := { topic := "bus/logs", message := default }
    (sampleClient.publish Amqp.replying sampleReplies p).result = .ok () ∧
      (sampleClient.publish (Amqp.withRecord Amqp.replying) (sampleReplies, []) p).line.2.filter
        Amqp.isPublish = List.replicate 3 (Amqp.message "relay" p) := by
  intro p
  obtain ⟨-, -, -, -, n, hn, hpublish, -, hpublished⟩ := attempts_stop_when_due
    (fun _ => (.ok () : Except Unit Unit)) (fun _ => .ok ()) Amqp.replying sampleClient sampleReplies p
  have hfailed : ∀ i < 3, ∃ e, e.isRetryable = true ∧
      (Amqp.attemptAt (Amqp.publishOnce Amqp.replying) sampleClient sampleReplies p i).result =
        .error e
    | 0, _ => ⟨_, rfl, rfl⟩
    | 1, _ => ⟨_, rfl, rfl⟩
    | 2, _ => ⟨_, rfl, rfl⟩
  have hleast : IsLeast {i | i = 5 ∨ Retry.Final TransportError.isRetryable (Amqp.attemptAt
      (Amqp.publishOnce Amqp.replying) sampleClient sampleReplies p i).result} 3 := by
    refine ⟨Or.inr trivial, fun i hi => ?_⟩
    by_contra hlt
    obtain ⟨e, hpasses, hresult⟩ := hfailed i (Nat.lt_of_not_le hlt)
    rcases hi with rfl | hfinal
    · exact hlt (by decide)
    · rw [hresult, Retry.Final, hpasses] at hfinal
      cases hfinal
  obtain rfl := hn.unique hleast
  refine ⟨?_, hpublished⟩
  rw [hpublish]
  rfl

-- A connection at the last moment.
example : (Retry.connect fun n => if n ≤ 30 then .error n else .ok "late") = (31, .ok "late") := rfl

-- A lost connection and a refusal may pass; that the client was disconnected in a delay will not.
example {κ : Type} (c : Amqp κ) (p : Publication) :
    (Amqp.publishBy (Amqp.scripted fun
      | 0 => .error (.connection "reset")
      | 1 => .error (.publish "a" "refused")
      | _ => .error .notConnected) c [] p).result = .error .notConnected := rfl

end OrderedRelay
