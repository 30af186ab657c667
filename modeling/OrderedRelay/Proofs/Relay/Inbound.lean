import OrderedRelay.Proofs.Relay.Answer

/-!
# What a handler is called with

A receiving side takes deliveries in one after another. The messages that come on the stream of messages
run through the engine, and what they release is posted for the handler in that order. Faults are
reported and the other streams post for themselves, neither of which is a numbered message.
-/

namespace OrderedRelay

/-- A numbered message of a producer. -/
def numberedBy (producer : String) (m : Message) : Bool :=
  m.header.producer? = some producer && m.header.isSequenced

/-- The numbered messages of a producer that a handler is called with. -/
def numberedCalls (producer handler : String) (calls : List Call) : List Message :=
  calls.filterMap fun
    | .handle h m => if h = handler ∧ numberedBy producer m = true then some m else none
    | .notify _ _ => none

namespace Inbound

variable {i : Inbound} {reader : Reader} {producer : String}

/-- Takes in what a relay is told, one delivery after another. -/
def takeAll (i : Inbound) (ds : List (Delivery Stream)) : Inbound :=
  ds.foldl (fun i d => i.receive d.subscriber d.topic d.content) i

theorem takeAll_append (i : Inbound) (xs ys : List (Delivery Stream)) :
    i.takeAll (xs ++ ys) = (i.takeAll xs).takeAll ys := List.foldl_append

def messageCalls (ds : List (Delivery Stream)) : List (Header × Message) :=
  ds.filterMap fun d =>
    match d.subscriber, d.content with
    | .messages, .ok m => some (m.header, m)
    | _, _ => none

theorem mem_messageCalls {ds : List (Delivery Stream)} {c : Header × Message} :
    c ∈ messageCalls ds ↔
      ∃ d ∈ ds, d.subscriber = .messages ∧ ∃ m, d.content = .ok m ∧ c = (m.header, m) := by
  rw [messageCalls, List.mem_filterMap]
  constructor
  · rintro ⟨⟨stream, topic, content⟩, hd, hcall⟩
    cases stream <;> cases content <;> cases hcall
    exact ⟨_, hd, rfl, _, rfl, rfl⟩
  · rintro ⟨⟨stream, topic, content⟩, hd, hstream, m, hcontent, rfl⟩
    obtain rfl : stream = .messages := hstream
    obtain rfl : content = .ok m := hcontent
    exact ⟨_, hd, rfl⟩

/-! ### Numbered calls -/

theorem numberedCalls_append (producer handler : String) (xs ys : List Call) :
    numberedCalls producer handler (xs ++ ys) =
      numberedCalls producer handler xs ++ numberedCalls producer handler ys :=
  List.filterMap_append

theorem numberedCalls_handle (producer handler : String) (ms : List Message) :
    numberedCalls producer handler (ms.map (.handle handler)) = ms.filter (numberedBy producer) := by
  rw [numberedCalls, List.filterMap_map, ← List.filterMap_eq_filter]
  congr 1
  funext m
  simp [Option.guard]

theorem numberedCalls_errorCalls (producer handler : String) (r : Reader) (e : ReadError) :
    numberedCalls producer handler (errorCalls r e) = [] := by
  unfold errorCalls
  split_ifs <;> rfl

theorem numberedCalls_inOrder (engine : Engine Message) (r : Reader) (topic : String) (m : Message)
    (producer : String) : numberedCalls producer r.handler (inOrder engine r topic m).2 =
      (Engine.released (engine.check m.header m).2).filter (numberedBy producer) := by
  unfold inOrder
  rcases engine.check m.header m with ⟨engine, released | fault | trap⟩
  · exact numberedCalls_handle producer r.handler released
  · exact numberedCalls_errorCalls ..
  · rfl

/-- What comes on the other streams is not numbered. -/
def PlainAside (d : Delivery Stream) : Prop :=
  d.subscriber ≠ .messages → ∀ m, d.content = .ok m → m.header.isSequenced = false

theorem numberedCalls_aside {d : Delivery Stream} (hother : ∀ topic m, d ≠ ⟨.messages, topic, .ok m⟩)
    (haside : PlainAside d) (engine : Engine Message) (reader : Option Reader)
    (producer handler : String) :
    numberedCalls producer handler (answer engine reader d).2 = [] := by
  obtain ⟨stream, topic, content⟩ := d
  cases reader with
  | none => rfl
  | some r =>
    cases content with
    | error e => exact numberedCalls_errorCalls ..
    | ok m =>
      have hstream : stream ≠ .messages := fun hmessages => hother topic m (hmessages ▸ rfl)
      have hplain := haside hstream m rfl
      simp [answer, hstream, numberedCalls, numberedBy, hplain]

/-- The engine runs on what comes for a reader of messages, and of what it releases the handler gets
the numbered messages of a producer. -/
theorem answer_eq {d : Delivery Stream} (hreader : i.messages = some reader) (haside : PlainAside d)
    (engine : Engine Message) (producer : String) :
    (answer engine (i.reader? d.subscriber) d).1 = (engine.run (messageCalls [d])).1 ∧
      numberedCalls producer reader.handler (answer engine (i.reader? d.subscriber) d).2 =
        (engine.releases (messageCalls [d])).filter (numberedBy producer) := by
  by_cases hmessage : ∃ topic m, d = ⟨.messages, topic, .ok m⟩
  · obtain ⟨topic, m, rfl⟩ := hmessage
    have hcall : messageCalls [⟨.messages, topic, .ok m⟩] = [(m.header, m)] := rfl
    rw [hcall, Engine.releases_singleton, ← numberedCalls_inOrder engine reader topic]
    simp only [reader?, hreader, answer, if_true]
    exact ⟨inOrder_engine engine reader topic m, trivial⟩
  · have hother : ∀ topic m, d ≠ ⟨.messages, topic, .ok m⟩ :=
      fun topic m hd => hmessage ⟨topic, m, hd⟩
    have hcall : messageCalls [d] = [] := by
      obtain ⟨_ | _ | _, topic, _ | m⟩ := d
      case messages.ok => exact absurd rfl (hother topic m)
      all_goals rfl
    rw [hcall, answer_engine hother, numberedCalls_aside hother haside]
    exact ⟨rfl, rfl⟩

/-- Everything that a reader of messages is told: the engine runs, and of what it releases the handler
gets the numbered messages of a producer in that order. -/
theorem takeAll_eq {ds : List (Delivery Stream)} (hreader : i.messages = some reader)
    (haside : ∀ d ∈ ds, PlainAside d) (producer : String) :
    ∃ new, i.takeAll ds = i.posted (i.engine.run (messageCalls ds)).1 new ∧
      numberedCalls producer reader.handler new =
        (i.engine.releases (messageCalls ds)).filter (numberedBy producer) := by
  induction ds generalizing i with
  | nil => exact ⟨[], (posted_nil i).symm, rfl⟩
  | cons d rest ih =>
    obtain ⟨hengine, hnew⟩ :=
      answer_eq hreader (haside d (List.mem_cons_self ..)) i.engine producer
    obtain ⟨more, hrest, hmore⟩ := ih
      (i := i.posted (i.engine.run (messageCalls [d])).1
        (answer i.engine (i.reader? d.subscriber) d).2) hreader
      fun e he => haside e (List.mem_cons_of_mem d he)
    have hcalls : messageCalls (d :: rest) = messageCalls [d] ++ messageCalls rest :=
      List.filterMap_append (l := [d])
    refine ⟨(answer i.engine (i.reader? d.subscriber) d).2 ++ more, ?_, ?_⟩
    · show (i.receive d.subscriber d.topic d.content).takeAll rest = _
      rw [receive_posted, hengine, hrest, hcalls, posted_posted, Engine.run_append]
      rfl
    · rw [numberedCalls_append, hnew, hmore, hcalls, Engine.releases_append, List.filter_append]
      rfl

end Inbound

end OrderedRelay
