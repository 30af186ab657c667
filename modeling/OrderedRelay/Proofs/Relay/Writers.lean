import OrderedRelay.Proofs.Relay.Prepare

/-!
# Write calls side by side

Any number of write calls run on one relay, step by step and in any order. A call looks at the
connection, finds its route, waits for the lock of the counters, stamps its header, hands its message
to the transport and gives the lock back once the transport has answered. Which call moves next is not
the relay's choice, nor is what the transport does: whether it is connected when a call looks, and what
its answer is; it may fail with a message that it has taken or that it has not.
-/

namespace OrderedRelay

def Write.onRoute (w : Write) (route : Route) (h : Header) : Publication :=
  ⟨route.topic, ⟨h, w.message.body⟩, .ofPriority w.priority w.ttl⟩

theorem Relay.prepare_of_route {r : Relay} {w : Write} {route : Route}
    (hroute : r.identity.route w.target w.header = .ok route) :
    r.prepare w.target w.message w.priority w.ttl =
      ((r.stamp route w.header).1, .ok (w.onRoute route (r.stamp route w.header).2)) := by
  rw [prepare, route_write, hroute]
  rfl

/-! ### One call -/

/-- How far a call has come. -/
inductive Stage where
  | called
  | connected
  | routed (route : Route) (h : Header)
  | locked (route : Route) (h : Header)
  | stamped (p : Publication)
  | handed
  | answered (outcome : Except TransportError Unit)
  | returned (outcome : Except RelayError Unit)

/-- A step of a call, with what the transport does in it. -/
inductive Move where
  | look (connected : Bool)
  | route
  | lock
  | stamp
  | hand
  | answer (outcome : Except TransportError Unit)
  | unlock

/-- A stamped message, with the number of the call. -/
structure Stamping where
  call : Nat
  write : Write
  publication : Publication

/-- What the calls share: the relay, and the lock of its counters with the call that holds it. The
messages that have been stamped and those that reached the transport are on record, in order. -/
structure Desk where
  relay : Relay
  holder : Option Nat := none
  stamped : List Stamping := []
  wire : List Publication := []

namespace Stage

/-- A step of a call that is at some stage, if the step is one that can be taken there. -/
def advance (k : Nat) (w : Write) (d : Desk) : Stage → Move → Option (Stage × Desk)
  | called, .look true => some (connected, d)
  | called, .look false => some (returned (.error .notConnected), d)
  | connected, .route =>
    match d.relay.route w.target w.message.header with
    | .ok (route, h) => some (routed route h, d)
    | .error e => some (returned (.error e), d)
  | routed route h, .lock =>
    match d.holder with
    | none => some (locked route h, { d with holder := some k })
    | some _ => none
  | locked route h, .stamp =>
    let (relay, h) := d.relay.stamp route h
    let p := w.onRoute route h
    some (stamped p, { d with relay, stamped := d.stamped ++ [⟨k, w, p⟩] })
  | stamped p, .hand => some (handed, { d with wire := d.wire ++ [p] })
  | stamped _, .answer (.error e) => some (answered (.error e), d)
  | handed, .answer outcome => some (answered outcome, d)
  | answered outcome, .unlock =>
    some (returned (outcome.mapError .transport), { d with holder := none })
  | _, _ => none

def advanceAll (k : Nat) (w : Write) (d : Desk) (stage : Stage) :
    List Move → Option (Stage × Desk)
  | [] => some (stage, d)
  | m :: rest => (stage.advance k w d m).bind fun (stage, d) => stage.advanceAll k w d rest

def holds : Stage → Bool
  | locked .. | stamped _ | handed | answered _ => true
  | _ => false

/-- The call has been through the counters. -/
def hasStamped : Stage → Bool
  | stamped _ | handed | answered _ | returned (.ok _) | returned (.error (.transport _)) => true
  | _ => false

def hasFailed : Stage → Bool
  | answered (.error _) | returned (.error (.transport _)) => true
  | _ => false

/-- A call that waits for the lock, or has just got it, knows the route of its write. -/
def Routed (i : Identity) (w : Write) : Stage → Prop
  | routed route h | locked route h => i.route w.target w.header = .ok route ∧ h = w.header
  | _ => True

end Stage

/-! ### All calls -/

structure Writing where
  write : Write
  stage : Stage

structure Writers where
  desk : Desk
  calls : List Writing := []

/-- Someone calls, or a call that is under way takes a step. -/
inductive Event where
  | call (w : Write)
  | move (k : Nat) (m : Move)

namespace Writers

def start (r : Relay) : Writers where
  desk := { relay := r }

def call? (s : Writers) (k : Nat) : Option Writing := s.calls[k]?

def step (s : Writers) : Event → Option Writers
  | .call w => some { s with calls := s.calls ++ [⟨w, .called⟩] }
  | .move k m =>
    match s.call? k with
    | none => none
    | some ⟨w, stage⟩ =>
      (stage.advance k w s.desk m).map fun (stage, desk) => ⟨desk, s.calls.set k ⟨w, stage⟩⟩

def run (s : Writers) (events : List Event) : Option Writers := events.foldlM step s

/-- No publish has failed so far. -/
def Unfailed (s : Writers) : Prop :=
  ∀ k c, s.call? k = some c → c.stage.hasFailed = false

/-! ### What a step can do -/

/-- A call, which may be a new one, goes from one stage to the next and changes what is shared. -/
inductive Advances (k : Nat) (w : Write) (d : Desk) : Option Stage → Stage → Desk → Prop where
  | call : Advances k w d none .called d
  | look : Advances k w d (some .called) .connected d
  | unconnected : Advances k w d (some .called) (.returned (.error .notConnected)) d
  | route {route : Route} (h : d.relay.identity.route w.target w.header = .ok route) :
    Advances k w d (some .connected) (.routed route w.header) d
  | refused {fault : RouteFault} (h : d.relay.identity.route w.target w.header = .error fault) :
    Advances k w d (some .connected) (.returned (.error (.logic (.route fault)))) d
  | lock {route : Route} {h : Header} (free : d.holder = none) :
    Advances k w d (some (.routed route h)) (.locked route h) { d with holder := some k }
  | stamp (route : Route) (h : Header) :
    Advances k w d (some (.locked route h)) (.stamped (w.onRoute route (d.relay.stamp route h).2))
      { d with
        relay := (d.relay.stamp route h).1
        stamped := d.stamped ++ [⟨k, w, w.onRoute route (d.relay.stamp route h).2⟩] }
  | hand (p : Publication) :
    Advances k w d (some (.stamped p)) .handed { d with wire := d.wire ++ [p] }
  | fail (p : Publication) (e : TransportError) :
    Advances k w d (some (.stamped p)) (.answered (.error e)) d
  | answer (outcome : Except TransportError Unit) :
    Advances k w d (some .handed) (.answered outcome) d
  | unlock (outcome : Except TransportError Unit) :
    Advances k w d (some (.answered outcome)) (.returned (outcome.mapError .transport))
      { d with holder := none }

theorem advances_of_advance {k : Nat} {w : Write} {d d' : Desk} {stage stage' : Stage} {m : Move}
    (h : stage.advance k w d m = some (stage', d')) : Advances k w d (some stage) stage' d' := by
  unfold Stage.advance at h
  split at h
  · cases h
    exact .look
  · cases h
    exact .unconnected
  · rw [Relay.route_write] at h
    cases hroute : d.relay.identity.route w.target w.header with
    | ok route =>
      rw [hroute] at h
      cases h
      exact .route hroute
    | error fault =>
      rw [hroute] at h
      cases h
      exact .refused hroute
  · split at h
    · rename_i hfree
      cases h
      exact .lock hfree
    · cases h
  · cases h
    exact .stamp ..
  · cases h
    exact .hand _
  · cases h
    exact .fail ..
  · cases h
    exact .answer _
  · cases h
    exact .unlock _
  · cases h

/-- One call goes on to its next stage, and every other one stays where it is. -/
structure Moves (s s' : Writers) (k : Nat) (w : Write) (old : Option Stage) (stage : Stage) :
    Prop where
  before : s.call? k = old.map (Writing.mk w)
  advances : Advances k w s.desk old stage s'.desk
  after : s'.call? k = some ⟨w, stage⟩
  others : ∀ j, j ≠ k → s'.call? j = s.call? j

theorem moves_of_step {s s' : Writers} {e : Event} (h : s.step e = some s') :
    ∃ k w old stage, Moves s s' k w old stage := by
  cases e with
  | call w =>
    obtain rfl := Option.some.inj h
    refine ⟨s.calls.length, w, none, .called, {
      before := List.getElem?_eq_none le_rfl
      advances := .call
      after := List.getElem?_concat_length
      others := fun j hj => ?_ }⟩
    show (s.calls ++ [⟨w, .called⟩])[j]? = s.calls[j]?
    by_cases hlt : j < s.calls.length
    · exact List.getElem?_append_left hlt
    · have hlength : (s.calls ++ [Writing.mk w .called]).length ≤ j := by
        rw [List.length_append, List.length_singleton]
        omega
      rw [List.getElem?_eq_none (Nat.not_lt.mp hlt), List.getElem?_eq_none hlength]
  | move k m =>
    rw [step] at h
    cases hcall : s.call? k with
    | none =>
      rw [hcall] at h
      cases h
    | some c =>
      rw [hcall] at h
      obtain ⟨next, hadvance, rfl⟩ := Option.map_eq_some_iff.mp h
      obtain ⟨hk, -⟩ := List.getElem?_eq_some_iff.mp hcall
      exact ⟨k, c.write, some c.stage, next.1, {
        before := hcall
        advances := advances_of_advance hadvance
        after := List.getElem?_set_self hk
        others := fun j hj => List.getElem?_set_ne (Ne.symm hj) }⟩

/-! ### A call by itself -/

theorem run_cons (s : Writers) (e : Event) (rest : List Event) :
    s.run (e :: rest) = (s.step e).bind fun s => s.run rest := rfl

/-- Steps of one call only go on from its own stage. -/
theorem run_moves {s : Writers} {k : Nat} {w : Write} {stage : Stage}
    (hcall : s.call? k = some ⟨w, stage⟩) (moves : List Move) :
    s.run (moves.map (.move k)) = (stage.advanceAll k w s.desk moves).map
      fun (stage, desk) => ⟨desk, s.calls.set k ⟨w, stage⟩⟩ := by
  obtain ⟨hk, hget⟩ := List.getElem?_eq_some_iff.mp hcall
  induction moves generalizing s stage with
  | nil =>
    show some s = some ⟨s.desk, s.calls.set k ⟨w, stage⟩⟩
    rw [← hget, List.set_getElem_self]
  | cons m rest ih =>
    have hstep : s.step (.move k m) = (stage.advance k w s.desk m).map
        fun (stage, desk) => ⟨desk, s.calls.set k ⟨w, stage⟩⟩ := by
      rw [step, hcall]
    rw [List.map_cons, run_cons, hstep, Stage.advanceAll]
    cases stage.advance k w s.desk m with
    | none => rfl
    | some next =>
      have hk' : k < (s.calls.set k ⟨w, next.1⟩).length := by rwa [List.length_set]
      have hnext : run ⟨next.2, s.calls.set k ⟨w, next.1⟩⟩ (rest.map (.move k)) =
          (next.1.advanceAll k w next.2 rest).map fun (stage, desk) =>
            ⟨desk, (s.calls.set k ⟨w, next.1⟩).set k ⟨w, stage⟩⟩ :=
        ih (List.getElem?_set_self hk) hk' (List.getElem_set_self hk')
      rw [Option.map_some, Option.bind_some, Option.bind_some, hnext]
      simp only [List.set_set]

/-- A call that nothing gets in the way of publishes what is prepared for its write, and leaves the
relay prepared. -/
theorem run_alone {s : Writers} {w : Write} {route : Route} (hfree : s.desk.holder = none)
    (hroute : s.desk.relay.identity.route w.target w.header = .ok route)
    (outcome : Except TransportError Unit) :
    ∃ r p, s.desk.relay.prepare w.target w.message w.priority w.ttl = (r, .ok p) ∧
      s.run (.call w :: [.look true, .route, .lock, .stamp, .hand, .answer outcome, .unlock].map
          (.move s.calls.length)) = some {
        desk := {
          relay := r
          stamped := s.desk.stamped ++ [⟨s.calls.length, w, p⟩]
          wire := s.desk.wire ++ [p] }
        calls := s.calls ++ [⟨w, .returned (outcome.mapError .transport)⟩] } := by
  have hadvance : Stage.called.advanceAll s.calls.length w s.desk
      [.look true, .route, .lock, .stamp, .hand, .answer outcome, .unlock] = some
        (.returned (outcome.mapError .transport), {
          relay := (s.desk.relay.stamp route w.header).1
          stamped := s.desk.stamped ++
            [⟨s.calls.length, w, w.onRoute route (s.desk.relay.stamp route w.header).2⟩]
          wire := s.desk.wire ++ [w.onRoute route (s.desk.relay.stamp route w.header).2] }) := by
    simp only [Stage.advanceAll, Stage.advance, Relay.route_write, hroute, hfree, Option.bind_some]
  refine ⟨_, _, Relay.prepare_of_route hroute, ?_⟩
  have hcall : call? ⟨s.desk, s.calls ++ [⟨w, .called⟩]⟩ s.calls.length = some ⟨w, .called⟩ :=
    List.getElem?_concat_length
  rw [run_cons, step, Option.bind_some, run_moves hcall, hadvance, Option.map_some]
  simp

end Writers

end OrderedRelay
