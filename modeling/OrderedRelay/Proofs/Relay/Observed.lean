import OrderedRelay.Proofs.Relay.Session

/-!
# What handlers observe

Deliveries alone determine which calls are made and in which order: each one adds what the engine
releases for it, or one call, or none, behind those of the deliveries before it. The worker only decides
how far along that sequence the calls have come, and how a call ends decides nothing.
-/

namespace OrderedRelay

namespace Session

variable {s s' : Session} {e : Event}

/-! ### The order of release -/

/-- The calls for the deliveries among some events, one delivery after another. -/
def expected (engine : Engine Message) (readers : Stream → Option Reader) : List Event → List Call
  | [] => []
  | .deliver d :: rest =>
    let (engine, calls) := Inbound.answer engine (readers d.subscriber) d
    calls ++ expected engine readers rest
  | .register stream reader :: rest =>
    expected engine (Function.update readers stream reader) rest
  | .post :: rest | .flush :: rest | .take :: rest | .finish _ :: rest =>
    expected engine readers rest

/-- What is posted, what a delivery has still to post and what later ones will add. -/
def outlook (s : Session) (later : List Event) : List Call :=
  s.posted ++ s.due ++ expected s.inbound.engine s.inbound.reader? later

theorem Steps.outlook_eq (h : Steps s e s') (later : List Event) :
    s'.outlook later = s.outlook (e :: later) := by
  -- A step only moves calls on: from what is to come, through what is due and waits, to what is made.
  cases h with
  | deliver d idle =>
    simp only [outlook, expected, idle, List.append_nil, List.append_assoc]
    rfl
  | @post c rest next =>
    have hposted : posted { s with inbound := s.inbound.post c, due := rest } =
        s.posted ++ [c] := (List.append_assoc ..).symm
    rw [outlook, outlook, hposted, next, List.append_assoc s.posted]
    rfl
  | register stream reader idle =>
    simp only [outlook, expected, posted, Inbound.reader?_setReader, Inbound.engine_setReader,
      Inbound.dispatcher_setReader]
  | flush => rfl
  | answerFlush => rfl
  | @invoke c rest free next ahead =>
    show s.made ++ [c] ++ rest ++ s.due ++ expected _ _ later =
      s.posted ++ s.due ++ expected _ _ later
    rw [posted_next next, List.append_assoc s.made]
    rfl
  | finish => rfl

theorem run_outlook {events : List Event} (hrun : s.run events = some s') :
    s'.outlook [] = s.outlook events := by
  induction events generalizing s with
  | nil =>
    obtain rfl := Option.some.inj hrun
    rfl
  | cons e rest ih =>
    obtain ⟨mid, hstep, hrest⟩ := run_cons_some hrun
    rw [ih hrest, (steps_of_step hstep).outlook_eq]

theorem Steps.engine_eq (h : Steps s e s')
    (hother : ∀ topic m, e ≠ .deliver ⟨.messages, topic, .ok m⟩) :
    s'.inbound.engine = s.inbound.engine := by
  cases h with
  | deliver d idle =>
    exact Inbound.answer_engine fun topic m hd => hother topic m (congrArg Event.deliver hd)
  | register stream reader => exact s.inbound.engine_setReader stream reader
  | post | flush | answerFlush | invoke | finish => rfl

/-! ### Deliveries that nothing comes between -/

theorem run_posts {calls : List Call} (hdue : s.due = calls) :
    s.run (List.replicate calls.length .post) = some { s with
      inbound := s.inbound.posted s.inbound.engine calls
      due := [] } := by
  induction calls generalizing s with
  | nil =>
    show some s = _
    rw [Inbound.posted_nil, ← hdue]
  | cons c rest ih =>
    have hpost : s.step .post = some { s with inbound := s.inbound.post c, due := rest } := by
      simp only [step, hdue]
    rw [List.length_cons, List.replicate_succ, run_cons, hpost, Option.bind_some, ih rfl]
    exact congrArg (fun inbound => some { s with inbound, due := [] })
      (s.inbound.posted_posted s.inbound.engine s.inbound.engine [c] rest)

/-- A delivery whose calls are posted at once is taken in as a whole. -/
theorem run_delivery (idle : s.due = []) (d : Delivery Stream) :
    ∃ count, s.run (.deliver d :: List.replicate count .post) =
      some { s with inbound := s.inbound.receive d.subscriber d.topic d.content } := by
  refine ⟨(Inbound.answer s.inbound.engine (s.inbound.reader? d.subscriber) d).2.length, ?_⟩
  rw [run_cons, step_deliver idle, Option.bind_some, run_posts rfl, Inbound.receive_posted, ← idle]
  rfl

/-! ### Endings -/

/-- The same event, but a call that ends returns. -/
def Event.wellEnded : Event → Event
  | .finish _ => .finish .returned
  | e => e

def wellEndedCalls (calls : List (Call × Ending)) : List (Call × Ending) :=
  calls.map fun c => (c.1, .returned)

/-- The same state, but every call that has ended returned. -/
def wellEnded (s : Session) : Session :=
  { s with
    ended := wellEndedCalls s.ended
    flushed := s.flushed.map fun f => { f with ended := wellEndedCalls f.ended } }

theorem wellEnded_invoke (s : Session) : s.wellEnded.invoke = s.invoke.map wellEnded := by
  have hinbound : s.wellEnded.inbound = s.inbound := rfl
  simp only [invoke, hinbound]
  cases s.inbound.dispatcher.waiting <;> rfl

theorem wellEnded_take (s : Session) : s.wellEnded.take = s.take.map wellEnded := by
  have hmade : s.wellEnded.made = s.made := rfl
  have hflushes : s.wellEnded.flushes = s.flushes := rfl
  simp only [take, hmade, hflushes, wellEnded_invoke]
  cases s.flushes with
  | nil => rfl
  | cons posted rest =>
    dsimp only
    split_ifs
    · simp [wellEnded, wellEndedCalls]
    · rfl

theorem wellEnded_step (s : Session) (e : Event) :
    s.wellEnded.step e.wellEnded = (s.step e).map wellEnded := by
  cases e with
  | deliver d | register =>
    by_cases idle : s.due = [] <;> simp [step, Event.wellEnded, wellEnded, idle]
  | post => cases hdue : s.due <;> simp [step, Event.wellEnded, wellEnded, hdue]
  | flush => rfl
  | take =>
    have hrunning : s.wellEnded.running = s.running := rfl
    simp only [step, Event.wellEnded, hrunning, wellEnded_take]
    split_ifs <;> rfl
  | finish ending =>
    cases hrunning : s.running <;> simp [step, Event.wellEnded, wellEnded, wellEndedCalls, hrunning]

theorem wellEnded_run (s : Session) (events : List Event) :
    s.wellEnded.run (events.map Event.wellEnded) = (s.run events).map wellEnded := by
  induction events generalizing s with
  | nil => rfl
  | cons e rest ih =>
    rw [List.map_cons, run_cons, run_cons, wellEnded_step]
    cases s.step e with
    | none => rfl
    | some mid => exact ih mid

/-- A run with other endings is a run, and nothing but the endings is different. -/
theorem run_otherwise {events events' : List Event} (hrun : s.run events = some s')
    (hsame : events'.map Event.wellEnded = events.map Event.wellEnded) :
    ∃ other, s.run events' = some other ∧ other.wellEnded = s'.wellEnded := by
  have hwell : (s.run events').map wellEnded = some s'.wellEnded := by
    rw [← wellEnded_run, hsame, wellEnded_run, hrun]
    rfl
  obtain ⟨other, hother, hends⟩ := Option.map_eq_some_iff.mp hwell
  exact ⟨other, hother, hends⟩

/-! ### The guarantee -/

/-- What handlers and notifiers have been called with, and all that is to come, is settled by the
deliveries alone. -/
structure InReleaseOrder (i : Inbound) (events : List Event) (s : Session) : Prop where
  /-- The calls made so far are a first part of those for the deliveries so far. -/
  observed : s.made <+: i.dispatcher.posted ++ expected i.engine i.reader? events
  /-- None is missing: the others wait or are still to be posted. -/
  complete : s.posted ++ s.due = i.dispatcher.posted ++ expected i.engine i.reader? events
  /-- A call ends before the next one is made. -/
  oneByOne : i.dispatcher.ran ++ s.ended.map Prod.fst ++ s.running.toList = s.made
  /-- When a flush returns, the calls posted before it have been made and have ended, and no others. -/
  flushed : ∀ f ∈ s.flushed,
    i.dispatcher.ran ++ f.ended.map Prod.fst = f.posted ∧ f.posted <+: s.made
  /-- However its calls end, the worker gets through all that waits, and every flush returns. -/
  drains : ∀ endings : List Ending,
    endings.length = (s.running.toList ++ s.inbound.dispatcher.waiting).length →
      ∃ work s', (∀ e ∈ work, e.ofWorker = true) ∧ s.run work = some s' ∧ Drained s endings s'
  /-- How calls have ended makes no difference to anything else. -/
  endings : ∀ events', events'.map Event.wellEnded = events.map Event.wellEnded →
    ∃ other, (start i).run events' = some other ∧ other.wellEnded = s.wellEnded
  /-- The next delivery is answered to the reader that its stream has then. -/
  handlers : ∀ d s', s.step (.deliver d) = some s' →
    ∀ c ∈ s'.due, ∃ r, s.inbound.reader? d.subscriber = some r ∧ c.handler = r.handler
  /-- Only a message on the stream of messages changes what is known about producers. -/
  tracking : ∀ e s', s.step e = some s' → (∀ topic m, e ≠ .deliver ⟨.messages, topic, .ok m⟩) →
    s'.inbound.engine = s.inbound.engine

/-- However the steps of deliveries and of the worker interleave, handlers observe the order of
release. -/
theorem handlers_observe_release_order {i : Inbound} {events : List Event}
    (hrun : (start i).run events = some s) : s.InReleaseOrder i events := by
  have hkept : s.Kept i.dispatcher.ran := (kept_start i).run hrun
  have hcomplete : s.posted ++ s.due =
      i.dispatcher.posted ++ expected i.engine i.reader? events := by
    have houtlook := run_outlook hrun
    simpa only [outlook, expected, start, posted, List.append_nil] using houtlook
  exact {
    observed := by
      rw [← hcomplete]
      exact (List.prefix_append s.made _).trans (List.prefix_append ..)
    complete := hcomplete
    oneByOne := hkept.ended
    flushed := hkept.flushed
    drains := fun endings hlength => drains hkept hlength
    endings := fun events' hsame => run_otherwise hrun hsame
    handlers := fun d s' hstep c hc => by
      cases steps_of_step hstep with
      | deliver d idle => exact Inbound.handler_of_mem_answer hc
    tracking := fun e s' hstep hother => (steps_of_step hstep).engine_eq hother }

/-- A message that producer P numbers for consumer C. -/
def sampleMessage (number : String) : Message := ⟨(sampleCall 5 number 'm').1, []⟩

/-- A reader of messages that is told of errors, and one of heartbeats that is not. -/
def sampleInbound : Inbound where
  engine := .fresh "C" .default
  messages := some ⟨"h", true⟩
  heartbeats := some ⟨"b", false⟩
  dispatcher := { name := "C" }

/-- The second message comes first; its handler panics while a heartbeat, a lost connection, a number
that is none and another reader come in. -/
def sampleEvents : List Event :=
  [.deliver ⟨.messages, "t", .ok (sampleMessage "2")⟩,
    .deliver ⟨.messages, "t", .ok (sampleMessage "1")⟩, .post, .take, .flush, .post,
    .deliver ⟨.heartbeats, "b", .ok (sampleMessage "7")⟩, .post, .finish (.panicked "boom"),
    .deliver ⟨.heartbeats, "b", .error .notConnected⟩, .take,
    .deliver ⟨.messages, "t", .ok (sampleMessage "x")⟩, .take, .post,
    .register .messages (some ⟨"g", true⟩), .finish (.failed "no"),
    .deliver ⟨.messages, "t", .ok (sampleMessage "3")⟩, .post]

theorem handlers_observe_release_order_sample :
    ∃ s, (start sampleInbound).run sampleEvents = some s ∧
      s.made = [.handle "h" (sampleMessage "1"), .handle "h" (sampleMessage "2")] ∧
      s.flushed.map Flushed.posted = [[.handle "h" (sampleMessage "1")]] ∧
      s.inbound.dispatcher.waiting.map Call.handler = ["b", "h", "g"] ∧
      s.InReleaseOrder sampleInbound sampleEvents := by
  have hcalls : ((start sampleInbound).run sampleEvents).map (fun s =>
      (s.made, s.flushed.map Flushed.posted, s.inbound.dispatcher.waiting.map Call.handler)) =
        some ([.handle "h" (sampleMessage "1"), .handle "h" (sampleMessage "2")],
          [[.handle "h" (sampleMessage "1")]], ["b", "h", "g"]) := by decide +kernel
  obtain ⟨s, hrun, hs⟩ := Option.map_eq_some_iff.mp hcalls
  obtain ⟨hmade, hrest⟩ := Prod.mk.inj hs
  obtain ⟨hflushed, hwaiting⟩ := Prod.mk.inj hrest
  exact ⟨s, hrun, hmade, hflushed, hwaiting, handlers_observe_release_order hrun⟩

end Session

end OrderedRelay
