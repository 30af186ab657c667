import OrderedRelay.Proofs.Transport.Ledger

/-!
# Requests of an MQTT client side by side

Any number of subscribe and unsubscribe calls run on one connection, step by step and in any order. A
call looks whether the client is connected, changes the table, waits for the lock of the requests,
takes a place in the queue, hands its packet over, gives the lock back and waits to be told. Its caller
may lose patience wherever it waits, except in the middle of handing a packet over. The broker
acknowledges the packets of one kind in the order in which they were sent, granting or rejecting each,
and the connection may be lost, or be ended by the client, at any time.
-/

namespace OrderedRelay

namespace Mqtt

variable {κ : Type}

/-! ### One call -/

def Request.failure (message : String) : Request κ → TransportError
  | .subscribe topic _ => .subscribe topic message
  | .unsubscribe topic => .unsubscribe topic message

/-- How a call ends; `idle` if there was no subscription to end, `unsent` if its packet could not be
handed over. -/
inductive Ending where
  | unconnected
  | idle
  | unsent
  | heard (v : Verdict)
deriving DecidableEq

def Ending.outcome (r : Request κ) : Ending → Except TransportError Unit
  | unconnected => .error .notConnected
  | idle | heard .granted => .ok ()
  | unsent => .error (r.failure undisclosed)
  | heard .rejected => .error (r.failure "Broker rejected subscription")
  | heard .closed => .error (r.failure closedEarly)

/-- How far a call has come; with the ticket it waits with, once it has one. -/
inductive Stage where
  | called
  | admitted
  | entered
  | locked
  | queued (ticket : Nat)
  | sent (ticket : Nat)
  | waiting (ticket : Nat)
  | returned (ending : Ending)
  | abandoned
deriving DecidableEq

/-- A step of a call; `fail` if its packet cannot be handed over. -/
inductive Move where
  | look
  | enter
  | lock
  | queue
  | send
  | fail
  | unlock
  | hear
  | abandon

/-- What the calls share: the client, and the lock of the requests with the call that holds it. -/
structure Desk (κ : Type) where
  client : Mqtt κ
  holder : Option Nat := none
  ledger : Ledger κ := {}

/-- The client with a new subscription in its table, or without an old one if there is one. -/
def enter? (c : Mqtt κ) : Request κ → Option (Mqtt κ)
  | .subscribe topic subscriber =>
    some { c with subscriptions := c.subscriptions.insert topic subscriber }
  | .unsubscribe topic => if c.subscriptions.has topic then some (c.forget topic) else none

/-- A subscription that was not granted is taken out of the table again. -/
def settle (c : Mqtt κ) : Request κ → Verdict → Mqtt κ
  | .subscribe topic _, .rejected | .subscribe topic _, .closed => c.forget topic
  | _, _ => c

namespace Desk

def withTable (d : Desk κ) (table : Table κ) : Desk κ :=
  { d with client := { d.client with subscriptions := table } }

def queue (d : Desk κ) (k : Nat) (r : Request κ) : Desk κ :=
  { d with
    client := { d.client with acks := d.client.acks.send r.kind }
    ledger := d.ledger.issue ⟨k, d.client.acks.next, r⟩ }

def send (d : Desk κ) : Desk κ := { d with ledger := d.ledger.send }

/-- The call that was handing its packet over leaves the queue, from its end, and gives the lock back. -/
def unsend (d : Desk κ) (r : Request κ) : Desk κ where
  client := { d.client with acks := d.client.acks.unsend r.kind }
  ledger := d.ledger.unsend

end Desk

namespace Stage

def advance (k : Nat) (r : Request κ) (d : Desk κ) : Stage → Move → Option (Stage × Desk κ)
  | called, .look =>
    some (if d.client.live?.isSome then (admitted, d) else (returned .unconnected, d))
  | admitted, .enter =>
    match d.client.enter? r with
    | some client => some (entered, { d with client })
    | none => some (returned .idle, d)
  | entered, .lock =>
    match d.holder with
    | none => some (locked, { d with holder := some k })
    | some _ => none
  | locked, .queue => some (queued d.client.acks.next, d.queue k r)
  | queued t, .send => some (sent t, d.send)
  | queued _, .fail =>
    some (returned .unsent, { d.unsend r with client := (d.unsend r).client.settle r .closed })
  | sent t, .unlock => some (waiting t, { d with holder := none })
  | waiting t, .hear =>
    match d.ledger.mail t with
    | some v => some (returned (.heard v), { d with client := d.client.settle r v })
    | none => none
  | called, .abandon => some (abandoned, d)
  | entered, .abandon => some (abandoned, d)
  | sent _, .abandon => some (abandoned, { d with holder := none })
  | waiting _, .abandon => some (abandoned, d)
  | _, _ => none

def holds : Stage → Bool
  | locked | queued _ | sent _ => true
  | _ => false

def isQueued : Stage → Bool
  | queued _ => true
  | _ => false

/-- The call has no place in a queue yet. -/
def isEarly : Stage → Bool
  | called | admitted | entered | locked => true
  | _ => false

def ticket? : Stage → Option Nat
  | queued t | sent t | waiting t => some t
  | _ => none

end Stage

/-! ### All calls -/

structure Asking (κ : Type) where
  request : Request κ
  stage : Stage

/-- Someone calls, a call takes a step, the broker acknowledges the oldest packet of a kind, or the
connection is lost; `clear` and `close` are the two steps of a disconnect. -/
inductive Event (κ : Type) where
  | call (r : Request κ)
  | move (k : Nat) (m : Move)
  | ack (kind : Kind) (granted : Bool)
  | lose
  | clear
  | close

def Event.isEnd : Event κ → Bool
  | lose | close => true
  | _ => false

def Request.perform {β : Type} (ask : Ask β MqttRequest) (c : Mqtt κ) (b : β) :
    Request κ → Effect (Mqtt κ) β κ Unit
  | .subscribe topic subscriber => c.subscribe ask b topic subscriber
  | .unsubscribe topic => c.unsubscribe ask b topic

/-- What the acknowledgement of a packet says: an unsubscribe cannot be rejected. -/
def Verdict.ofAck : Kind → Bool → Verdict
  | .subscribe, false => .rejected
  | _, _ => .granted

theorem Verdict.ofAck_ne_closed (kind : Kind) (granted : Bool) :
    Verdict.ofAck kind granted ≠ .closed := by
  cases kind <;> cases granted <;> nofun

def Ending.ofReply (kind : Kind) : Reply → Ending
  | .accepted _ => .heard (.ofAck kind true)
  | .refused => .heard (.ofAck kind false)
  | .dropped => .heard .closed
  | .unsent => .unsent

/-- What the reply to the only packet makes of a client. -/
def answered (c : Mqtt κ) (kind : Kind) : Reply → Mqtt κ
  | .accepted _ | .refused => { c with acks := ((c.acks.send kind).ack kind).1 }
  | .dropped => { c with acks := c.acks.send kind }.lose.1
  | .unsent => { c with acks := (c.acks.send kind).unsend kind }

/-- The table when a call has ended: what was not granted is taken out again. -/
def settled (c : Mqtt κ) (r : Request κ) : Ending → Mqtt κ
  | .heard v => c.settle r v
  | .unsent => c.settle r .closed
  | _ => c

namespace Desk

/-- The broker acknowledges a packet, and the client tells whoever is at the front of the queue. -/
def ack (d : Desk κ) (kind : Kind) (p : Packet κ) (rest : List (Packet κ)) (v : Verdict) : Desk κ :=
  { d with
    client := { d.client with acks := (d.client.acks.ack kind).1 }
    ledger := d.ledger.ack kind p rest (d.client.acks.ack kind).2.toList v }

def cut (d : Desk κ) (client : Mqtt κ) : Desk κ :=
  { d with client, ledger := d.ledger.cut d.client.acks.tickets }

def close (d : Desk κ) : Desk κ :=
  d.cut { d.client with session := none, connected := false, acks := d.client.acks.fail }

/-- The two steps of a disconnect are a disconnect. -/
theorem client_close_clear (d : Desk κ) : (d.withTable []).close.client = d.client.disconnect := rfl

end Desk

structure Requests (κ : Type) where
  desk : Desk κ
  calls : List (Asking κ) := []

namespace Requests

def start (c : Mqtt κ) : Requests κ where
  desk := { client := c }

def call? (s : Requests κ) (k : Nat) : Option (Asking κ) := s.calls[k]?

def step (s : Requests κ) : Event κ → Option (Requests κ)
  | .call r => some { s with calls := s.calls ++ [⟨r, .called⟩] }
  | .move k m =>
    match s.call? k with
    | none => none
    | some ⟨r, stage⟩ =>
      (stage.advance k r s.desk m).map fun (stage, desk) => ⟨desk, s.calls.set k ⟨r, stage⟩⟩
  | .ack kind granted =>
    match s.desk.client.connected, s.desk.ledger.unacked kind with
    | true, p :: rest =>
      some { s with desk := s.desk.ack kind p rest (.ofAck kind granted) }
    | _, _ => none
  | .lose => some { s with desk := s.desk.cut s.desk.client.lose.1 }
  | .clear => some { s with desk := s.desk.withTable [] }
  | .close => some { s with desk := s.desk.close }

def run (s : Requests κ) (events : List (Event κ)) : Option (Requests κ) := events.foldlM step s

theorem run_cons (s : Requests κ) (e : Event κ) (rest : List (Event κ)) :
    s.run (e :: rest) = (s.step e).bind fun s => s.run rest := rfl

/-! ### What a step can do -/

/-- A call, which may be a new one, goes from one stage to the next and changes what is shared. -/
inductive Advances (k : Nat) (r : Request κ) (d : Desk κ) :
    Option Stage → Stage → Desk κ → Prop where
  | call : Advances k r d none .called d
  | look : Advances k r d (some .called) .admitted d
  | unconnected : Advances k r d (some .called) (.returned .unconnected) d
  | enter (table : Table κ) : Advances k r d (some .admitted) .entered (d.withTable table)
  | idle (h : r.kind = .unsubscribe) : Advances k r d (some .admitted) (.returned .idle) d
  | lock (free : d.holder = none) :
    Advances k r d (some .entered) .locked { d with holder := some k }
  | queue : Advances k r d (some .locked) (.queued d.client.acks.next) (d.queue k r)
  | send (t : Nat) : Advances k r d (some (.queued t)) (.sent t) d.send
  | fail (t : Nat) (table : Table κ) :
    Advances k r d (some (.queued t)) (.returned .unsent) ((d.unsend r).withTable table)
  | unlock (t : Nat) : Advances k r d (some (.sent t)) (.waiting t) { d with holder := none }
  | hear (t : Nat) {v : Verdict} (h : d.ledger.mail t = some v) (table : Table κ) :
    Advances k r d (some (.waiting t)) (.returned (.heard v)) (d.withTable table)
  | leave : Advances k r d (some .called) .abandoned d
  | leaveLine : Advances k r d (some .entered) .abandoned d
  | leaveSent (t : Nat) : Advances k r d (some (.sent t)) .abandoned { d with holder := none }
  | leaveWait (t : Nat) : Advances k r d (some (.waiting t)) .abandoned d

theorem settle_eq (c : Mqtt κ) (r : Request κ) (v : Verdict) :
    ∃ table, c.settle r v = { c with subscriptions := table } := by
  cases r <;> cases v <;> exact ⟨_, rfl⟩

theorem enter?_cases (c : Mqtt κ) (r : Request κ) :
    (∃ table, c.enter? r = some { c with subscriptions := table }) ∨
      (c.enter? r = none ∧ r.kind = .unsubscribe) := by
  cases r with
  | subscribe topic subscriber => exact .inl ⟨_, rfl⟩
  | unsubscribe topic =>
    by_cases hhas : c.subscriptions.has topic = true
    · exact .inl ⟨_, if_pos hhas⟩
    · exact .inr ⟨if_neg hhas, rfl⟩

theorem advances_of_advance {k : Nat} {r : Request κ} {d d' : Desk κ} {stage stage' : Stage}
    {m : Move} (h : stage.advance k r d m = some (stage', d')) :
    Advances k r d (some stage) stage' d' := by
  unfold Stage.advance at h
  split at h
  · split_ifs at h
    · cases h
      exact .look
    · cases h
      exact .unconnected
  · rcases enter?_cases d.client r with ⟨table, htable⟩ | ⟨hnone, hkind⟩
    · rw [htable] at h
      cases h
      exact .enter table
    · rw [hnone] at h
      cases h
      exact .idle hkind
  · split at h
    · rename_i hfree
      cases h
      exact .lock hfree
    · cases h
  · cases h
    exact .queue
  · cases h
    exact .send _
  · cases h
    obtain ⟨table, htable⟩ := settle_eq (d.unsend r).client r .closed
    rw [htable]
    exact .fail _ table
  · cases h
    exact .unlock _
  · split at h
    · rename_i v hmail
      cases h
      obtain ⟨table, htable⟩ := settle_eq d.client r v
      rw [htable]
      exact .hear _ hmail table
    · cases h
  · cases h
    exact .leave
  · cases h
    exact .leaveLine
  · cases h
    exact .leaveSent _
  · cases h
    exact .leaveWait _
  · cases h

/-- One call goes on to its next stage, and every other one stays where it is. -/
structure Moves (s s' : Requests κ) (k : Nat) (r : Request κ) (old : Option Stage) (stage : Stage) :
    Prop where
  before : s.call? k = old.map (Asking.mk r)
  advances : Advances k r s.desk old stage s'.desk
  after : s'.call? k = some ⟨r, stage⟩
  others : ∀ j, j ≠ k → s'.call? j = s.call? j

/-- What can happen in a step: a call moves, or only what is shared changes. -/
inductive Steps (s s' : Requests κ) : Prop where
  | move {k : Nat} {r : Request κ} {old : Option Stage} {stage : Stage}
    (h : Moves s s' k r old stage)
  | ack {kind : Kind} {p : Packet κ} {rest : List (Packet κ)}
    (hunacked : s.desk.ledger.unacked kind = p :: rest) (granted : Bool)
    (calls : s'.calls = s.calls) (desk : s'.desk = s.desk.ack kind p rest (.ofAck kind granted))
  | cut {c : Mqtt κ} (hacks : c.acks = s.desk.client.acks.fail) (hdown : c.connected = false)
    (calls : s'.calls = s.calls) (desk : s'.desk = s.desk.cut c)
  | clear (calls : s'.calls = s.calls) (desk : s'.desk = s.desk.withTable [])

theorem moves_of_call {s s' : Requests κ} {r : Request κ} (h : s.step (.call r) = some s') :
    Moves s s' s.calls.length r none .called := by
  obtain rfl := Option.some.inj h
  refine {
    before := List.getElem?_eq_none (Nat.le_refl _)
    advances := .call
    after := List.getElem?_concat_length
    others := fun j hj => ?_ }
  show (s.calls ++ [⟨r, .called⟩])[j]? = s.calls[j]?
  by_cases hlt : j < s.calls.length
  · exact List.getElem?_append_left hlt
  · have hlength : (s.calls ++ [Asking.mk r .called]).length ≤ j := by
      rw [List.length_append, List.length_singleton]
      omega
    rw [List.getElem?_eq_none (Nat.not_lt.mp hlt), List.getElem?_eq_none hlength]

theorem moves_of_move {s s' : Requests κ} {k : Nat} {m : Move} (h : s.step (.move k m) = some s') :
    ∃ r old stage, Moves s s' k r (some old) stage := by
  rw [step] at h
  cases hcall : s.call? k with
  | none =>
    rw [hcall] at h
    cases h
  | some c =>
    rw [hcall] at h
    obtain ⟨next, hadvance, rfl⟩ := Option.map_eq_some_iff.mp h
    obtain ⟨hk, -⟩ := List.getElem?_eq_some_iff.mp hcall
    exact ⟨c.request, c.stage, next.1, {
      before := hcall
      advances := advances_of_advance hadvance
      after := List.getElem?_set_self hk
      others := fun j hj => List.getElem?_set_ne (Ne.symm hj) }⟩

theorem ack_of_step {s s' : Requests κ} {kind : Kind} {granted : Bool}
    (h : s.step (.ack kind granted) = some s') :
    ∃ p rest, s.desk.ledger.unacked kind = p :: rest ∧
      s' = { s with desk := s.desk.ack kind p rest (.ofAck kind granted) } := by
  rw [step] at h
  split at h
  · rename_i p rest _ hunacked
    exact ⟨p, rest, hunacked, (Option.some.inj h).symm⟩
  · cases h

theorem steps_of_step {s s' : Requests κ} {e : Event κ} (h : s.step e = some s') : Steps s s' := by
  cases e with
  | call r => exact .move (moves_of_call h)
  | move k m =>
    obtain ⟨r, old, stage, hmoves⟩ := moves_of_move h
    exact .move hmoves
  | ack kind granted =>
    obtain ⟨p, rest, hunacked, rfl⟩ := ack_of_step h
    exact .ack hunacked _ rfl rfl
  | lose =>
    obtain rfl := Option.some.inj h
    exact .cut rfl rfl rfl rfl
  | clear =>
    obtain rfl := Option.some.inj h
    exact .clear rfl rfl
  | close =>
    obtain rfl := Option.some.inj h
    exact .cut rfl rfl rfl rfl

/-! ### A call by itself -/

/-- What happens to the first call when its place in the queue is taken. -/
def course (kind : Kind) : Reply → List (Event κ)
  | .accepted _ => [.move 0 .send, .ack kind true, .move 0 .unlock, .move 0 .hear]
  | .refused => [.move 0 .send, .ack kind false, .move 0 .unlock, .move 0 .hear]
  | .dropped => [.move 0 .send, .lose, .move 0 .unlock, .move 0 .hear]
  | .unsent => [.move 0 .fail]

/-- The steps of the first call while nothing else happens: it comes to an end early if the client is not
connected or there is nothing to unsubscribe. -/
def alone (c : Mqtt κ) (r : Request κ) (reply : Reply) : List (Event κ) :=
  .call r :: .move 0 .look ::
    if c.live?.isNone then []
    else .move 0 .enter ::
      if (c.enter? r).isNone then []
      else .move 0 .lock :: .move 0 .queue :: course r.kind reply

theorem connected_of_live {c : Mqtt κ} {url : String} (hlive : c.live? = some url) :
    c.connected = true := by
  unfold live? at hlive
  split_ifs at hlive with hconnected
  exact hconnected

section

variable {c c' : Mqtt κ} {r : Request κ}

def Desk.queuedAlone (c : Mqtt κ) (r : Request κ) : Desk κ :=
  Desk.queue { client := c, holder := some 0 } 0 r

def Desk.sentAlone (c : Mqtt κ) (r : Request κ) : Desk κ := (Desk.queuedAlone c r).send

theorem run_queued {url : String} (hlive : c.live? = some url) (hentered : c.enter? r = some c')
    (reply : Reply) : (start c).run (alone c r reply) =
      run ⟨Desk.queuedAlone c' r, [⟨r, .queued c'.acks.next⟩]⟩ (course r.kind reply) := by
  simp [alone, hlive, hentered, run_cons, start, step, call?, Stage.advance, Desk.queuedAlone]

theorem run_send (c : Mqtt κ) (r : Request κ) (rest : List (Event κ)) :
    run ⟨Desk.queuedAlone c r, [⟨r, .queued c.acks.next⟩]⟩ (.move 0 .send :: rest) =
      run ⟨Desk.sentAlone c r, [⟨r, .sent c.acks.next⟩]⟩ rest := rfl

/-- A call whose packet is out is told what happens next. -/
theorem run_told {d d' : Desk κ} {t : Nat} {v : Verdict} {e : Event κ}
    (hstep : step ⟨d, [⟨r, .sent t⟩]⟩ e = some ⟨d', [⟨r, .sent t⟩]⟩)
    (hmail : d'.ledger.mail t = some v) :
    run ⟨d, [⟨r, .sent t⟩]⟩ [e, .move 0 .unlock, .move 0 .hear] = some
      ⟨{ d' with client := d'.client.settle r v, holder := none },
        [⟨r, .returned (.heard v)⟩]⟩ := by
  rw [run_cons, hstep, Option.bind_some]
  simp [run_cons, step, call?, Stage.advance, hmail]
  rfl

theorem run_acked (hconnected : c.connected = true) (hnobody : c.acks.queue r.kind = [])
    (granted : Bool) : ∃ s,
      run ⟨Desk.sentAlone c r, [⟨r, .sent c.acks.next⟩]⟩
        [.ack r.kind granted, .move 0 .unlock, .move 0 .hear] = some s ∧
      s.calls = [⟨r, .returned (.heard (.ofAck r.kind granted))⟩] ∧
      s.desk.client = { c with acks := ((c.acks.send r.kind).ack r.kind).1 }.settle r
        (.ofAck r.kind granted) := by
  have hunacked : (Desk.sentAlone c r).ledger.unacked r.kind = [⟨0, c.acks.next, r⟩] := by
    simp [Desk.sentAlone, Desk.queuedAlone, Desk.queue, Desk.send, Ledger.send, Ledger.issue,
      Ledger.outstanding, Packet.kind]
  have hfront : ((Desk.sentAlone c r).client.acks.ack r.kind).2 = some c.acks.next := by
    show ((c.acks.send r.kind).ack r.kind).2 = _
    rw [Acks.front_ack, Acks.queue_send, if_pos rfl, hnobody]
    rfl
  have hlive : (Desk.sentAlone c r).client.connected = true := hconnected
  have hstep : step ⟨Desk.sentAlone c r, [⟨r, .sent c.acks.next⟩]⟩ (.ack r.kind granted) =
      some ⟨(Desk.sentAlone c r).ack r.kind ⟨0, c.acks.next, r⟩ [] (.ofAck r.kind granted),
        [⟨r, .sent c.acks.next⟩]⟩ := by
    rw [step, hunacked, hlive]
  refine ⟨_, run_told hstep ?_, rfl, rfl⟩
  rw [Desk.ack, hfront]
  exact if_pos List.mem_cons_self

theorem run_lost (c : Mqtt κ) (r : Request κ) : ∃ s,
      run ⟨Desk.sentAlone c r, [⟨r, .sent c.acks.next⟩]⟩
        [.lose, .move 0 .unlock, .move 0 .hear] = some s ∧
      s.calls = [⟨r, .returned (.heard .closed)⟩] ∧
      s.desk.client = { c with acks := c.acks.send r.kind }.lose.1.settle r .closed := by
  have hwaits : c.acks.next ∈ (c.acks.send r.kind).tickets := by
    refine (Acks.mem_tickets _).mpr ⟨r.kind, ?_⟩
    rw [Acks.queue_send, if_pos rfl]
    exact List.mem_append_right _ List.mem_cons_self
  exact ⟨_, run_told rfl (if_pos hwaits), rfl, rfl⟩

theorem run_answered (hconnected : c.connected = true) (hnobody : c.acks.queue r.kind = [])
    (reply : Reply) : ∃ s,
      run ⟨Desk.queuedAlone c r, [⟨r, .queued c.acks.next⟩]⟩ (course r.kind reply) = some s ∧
      s.calls = [⟨r, .returned (.ofReply r.kind reply)⟩] ∧
      s.desk.client = (c.answered r.kind reply).settled r (.ofReply r.kind reply) := by
  cases reply with
  | accepted =>
    rw [course, run_send]
    exact run_acked hconnected hnobody true
  | refused =>
    rw [course, run_send]
    exact run_acked hconnected hnobody false
  | dropped =>
    rw [course, run_send]
    exact run_lost c r
  | unsent => exact ⟨_, rfl, rfl, rfl⟩

theorem perform_of_enter? {β : Type} {url : String} (hlive : c.live? = some url)
    (hentered : c.enter? r = some c') (reply : Reply) (b : β) :
    (r.perform (fun b _ _ => (b, reply)) c b).client =
        (c'.answered r.kind reply).settled r (.ofReply r.kind reply) ∧
      (r.perform (fun b _ _ => (b, reply)) c b).result =
        Ending.outcome r (.ofReply r.kind reply) := by
  cases r with
  | subscribe topic subscriber =>
    obtain rfl := Option.some.inj hentered
    unfold Request.perform subscribe
    rw [hlive]
    cases reply <;> exact ⟨rfl, rfl⟩
  | unsubscribe topic =>
    obtain ⟨hhas, hsome⟩ := Option.ite_none_right_eq_some.mp hentered
    obtain rfl := Option.some.inj hsome
    unfold Request.perform unsubscribe
    rw [hlive]
    simp only [hhas, Bool.not_true, Bool.false_eq_true, if_false]
    cases reply <;> exact ⟨rfl, rfl⟩

/-- A call that nothing gets in the way of does what its operation does. -/
theorem run_alone {β : Type} (hnobody : ∀ kind, c.acks.queue kind = []) (r : Request κ)
    (reply : Reply) (b : β) :
    ∃ s ending, (start c).run (alone c r reply) = some s ∧
      s.calls = [⟨r, .returned ending⟩] ∧
      s.desk.client = (r.perform (fun b _ _ => (b, reply)) c b).client ∧
      (r.perform (fun b _ _ => (b, reply)) c b).result = ending.outcome r := by
  cases hlive : c.live? with
  | none =>
    refine ⟨⟨{ client := c }, [⟨r, .returned .unconnected⟩]⟩, .unconnected, ?_, rfl, ?_⟩
    · simp [alone, hlive, run_cons, start, step, call?, Stage.advance]
      rfl
    · cases r <;> simp [Request.perform, subscribe, unsubscribe, hlive, Ending.outcome]
  | some url =>
    rcases enter?_cases c r with ⟨table, hentered⟩ | ⟨hnone, -⟩
    · obtain ⟨hclient, hresult⟩ := perform_of_enter? hlive hentered reply b
      rw [run_queued hlive hentered, hclient, hresult]
      obtain ⟨s, hrun, hcalls, hs⟩ := run_answered (c := { c with subscriptions := table })
        (connected_of_live hlive) (hnobody r.kind) reply
      exact ⟨s, _, hrun, hcalls, hs, rfl⟩
    · refine ⟨⟨{ client := c }, [⟨r, .returned .idle⟩]⟩, .idle, ?_, rfl, ?_⟩
      · simp [alone, hlive, hnone, run_cons, start, step, call?, Stage.advance]
        rfl
      · cases r with
        | subscribe topic subscriber => cases hnone
        | unsubscribe topic =>
          have hnot : c.subscriptions.has topic = false := by simpa [enter?] using hnone
          simp [Request.perform, unsubscribe, hlive, hnot, Ending.outcome]

end

end Requests

end Mqtt

end OrderedRelay
