import OrderedRelay.Proofs.Sequencing.Arrivals
import OrderedRelay.Relay.Inbound
import Mathlib.Logic.Function.Basic

/-!
# The calls for a delivery

What a receiving side makes of a delivery is another engine and calls that it posts, all of them for the
reader that the stream has. Without a reader it makes nothing of it, and only a message on the stream of
messages has to do with the engine.
-/

namespace OrderedRelay

/-- The handler of the reader that a call is for. -/
def Call.handler : Call → String
  | handle handler _ => handler
  | notify handler _ => handler

/-- All that has been posted, in order. -/
def Dispatcher.posted {α : Type} (d : Dispatcher α) : List α := d.ran ++ d.waiting

namespace Inbound

variable {engine : Engine Message} {reader : Option Reader} {d : Delivery Stream}

/-! ### Readers -/

theorem reader?_setReader (i : Inbound) (stream : Stream) (reader : Option Reader) :
    (i.setReader stream reader).reader? = Function.update i.reader? stream reader := by
  funext other
  cases stream <;> cases other <;> rfl

theorem engine_setReader (i : Inbound) (stream : Stream) (reader : Option Reader) :
    (i.setReader stream reader).engine = i.engine := by
  cases stream <;> rfl

theorem dispatcher_setReader (i : Inbound) (stream : Stream) (reader : Option Reader) :
    (i.setReader stream reader).dispatcher = i.dispatcher := by
  cases stream <;> rfl

/-! ### Posting -/

/-- The receiving side with another engine and more calls posted. -/
def posted (i : Inbound) (engine : Engine Message) (new : List Call) : Inbound :=
  { i with engine, dispatcher := { i.dispatcher with waiting := i.dispatcher.waiting ++ new } }

theorem posted_posted (i : Inbound) (e f : Engine Message) (xs ys : List Call) :
    (i.posted e xs).posted f ys = i.posted f (xs ++ ys) := by
  simp [posted, List.append_assoc]

theorem posted_nil (i : Inbound) : i.posted i.engine [] = i := by
  simp [posted]

theorem foldl_postMessage (i : Inbound) (r : Reader) (ms : List Message) :
    ms.foldl (postMessage r) i = i.posted i.engine (ms.map (.handle r.handler)) := by
  induction ms generalizing i with
  | nil => exact (posted_nil i).symm
  | cons m rest ih =>
    rw [List.foldl_cons, ih]
    show (i.posted i.engine [.handle r.handler m]).posted i.engine _ = _
    rw [posted_posted]
    rfl

/-! ### The calls for a delivery -/

/-- The calls that tell a reader of an error. -/
def errorCalls (r : Reader) (e : ReadError) : List Call :=
  if r.notifies then [.notify r.handler e] else []

/-- What a message makes of an engine, and the calls that a reader of messages gets for it. -/
def inOrder (engine : Engine Message) (r : Reader) (topic : String) (m : Message) :
    Engine Message × List Call :=
  match engine.check m.header m with
  | (engine, .ok released) => (engine, released.map (.handle r.handler))
  | (engine, .error fault) =>
    (engine, errorCalls r ⟨.protocol, topic, (RelayError.logic (.sequence fault)).message⟩)
  | (engine, .stopped _) => (engine, [])

/-- What a delivery makes of an engine, and the calls that the reader of its stream gets for it. -/
def answer (engine : Engine Message) (reader : Option Reader) (d : Delivery Stream) :
    Engine Message × List Call :=
  match reader, d.content with
  | none, _ => (engine, [])
  | some r, .error e => (engine, errorCalls r ⟨.drop, d.topic, e.message⟩)
  | some r, .ok m =>
    if d.subscriber = .messages then inOrder engine r d.topic m
    else (engine, [.handle r.handler m])

theorem report_posted (i : Inbound) (r : Reader) (e : ReadError) :
    i.report r e = i.posted i.engine (errorCalls r e) := by
  unfold report errorCalls
  split_ifs
  · rfl
  · exact (posted_nil i).symm

theorem sequence_posted (i : Inbound) (r : Reader) (topic : String) (m : Message) :
    (i.sequence r topic m).1 =
      i.posted (inOrder i.engine r topic m).1 (inOrder i.engine r topic m).2 := by
  unfold sequence inOrder
  rcases i.engine.check m.header m with ⟨engine, released | fault | trap⟩
  · exact foldl_postMessage { i with engine } r released
  · exact report_posted { i with engine } r _
  · exact (posted_nil { i with engine }).symm

theorem receive_posted (i : Inbound) (d : Delivery Stream) :
    i.receive d.subscriber d.topic d.content =
      i.posted (answer i.engine (i.reader? d.subscriber) d).1
        (answer i.engine (i.reader? d.subscriber) d).2 := by
  obtain ⟨stream, topic, content⟩ := d
  unfold receive
  cases hreader : i.reader? stream with
  | none => exact (posted_nil i).symm
  | some r =>
    cases content with
    | error e => exact report_posted i r _
    | ok m =>
      cases stream with
      | messages => exact sequence_posted i r topic m
      | heartbeats => rfl
      | logs => rfl

theorem eq_of_mem_errorCalls {r : Reader} {e : ReadError} {c : Call} (hc : c ∈ errorCalls r e) :
    c = .notify r.handler e := by
  unfold errorCalls at hc
  split_ifs at hc
  · exact List.mem_singleton.mp hc
  · cases hc

theorem handler_of_mem_inOrder {r : Reader} {topic : String} {m : Message} {c : Call}
    (hc : c ∈ (inOrder engine r topic m).2) : c.handler = r.handler := by
  unfold inOrder at hc
  split at hc
  · obtain ⟨released, -, rfl⟩ := List.mem_map.mp hc
    rfl
  · exact congrArg Call.handler (eq_of_mem_errorCalls hc)
  · cases hc

/-- The calls for a delivery are for the reader that its stream has then. -/
theorem handler_of_mem_answer {c : Call} (hc : c ∈ (answer engine reader d).2) :
    ∃ r, reader = some r ∧ c.handler = r.handler := by
  unfold answer at hc
  split at hc
  · cases hc
  · rename_i r e _
    exact ⟨r, rfl, congrArg Call.handler (eq_of_mem_errorCalls hc)⟩
  · rename_i r m _
    split_ifs at hc
    · exact ⟨r, rfl, handler_of_mem_inOrder hc⟩
    · rw [List.mem_singleton.mp hc]
      exact ⟨r, rfl, rfl⟩

theorem notify_of_mem_answer {failure : TransportError} (hcontent : d.content = .error failure)
    {c : Call} (hc : c ∈ (answer engine reader d).2) :
    ∃ handler, c = .notify handler ⟨.drop, d.topic, failure.message⟩ := by
  obtain ⟨stream, topic, content⟩ := d
  obtain rfl : content = .error failure := hcontent
  cases reader with
  | none => cases hc
  | some r => exact ⟨_, eq_of_mem_errorCalls hc⟩

/-- Only a message on the stream of messages is put in order. -/
theorem answer_engine (hother : ∀ topic m, d ≠ ⟨.messages, topic, .ok m⟩) :
    (answer engine reader d).1 = engine := by
  obtain ⟨stream, topic, content⟩ := d
  cases reader with
  | none => rfl
  | some r =>
    cases content with
    | error e => rfl
    | ok m =>
      have hstream : stream ≠ .messages := fun hmessages => hother topic m (hmessages ▸ rfl)
      simp only [answer, if_neg hstream]

theorem inOrder_engine (engine : Engine Message) (r : Reader) (topic : String) (m : Message) :
    (inOrder engine r topic m).1 = (engine.check m.header m).1 := by
  unfold inOrder
  split <;> rename_i hcheck <;> rw [hcheck]

theorem check_posted {i : Inbound} {r : Reader} (hreader : i.messages = some r) (topic : String)
    (m : Message) : (i.check topic m).1 =
      i.posted (inOrder i.engine r topic m).1 (inOrder i.engine r topic m).2 := by
  rw [check, hreader]
  exact sequence_posted i r topic m

/-! ### The engine's owner and policy -/

theorem answer_owner (engine : Engine Message) (reader : Option Reader) (d : Delivery Stream) :
    (answer engine reader d).1.consumer = engine.consumer ∧
      (answer engine reader d).1.policy = engine.policy := by
  unfold answer
  split
  · exact ⟨rfl, rfl⟩
  · exact ⟨rfl, rfl⟩
  · split_ifs
    · rw [inOrder_engine]
      exact engine.check_consumer _ _
    · exact ⟨rfl, rfl⟩

theorem receive_engine (i : Inbound) (stream : Stream) (topic : String)
    (content : Except TransportError Message) :
    (i.receive stream topic content).engine.consumer = i.engine.consumer ∧
      (i.receive stream topic content).engine.policy = i.engine.policy := by
  rw [i.receive_posted ⟨stream, topic, content⟩]
  exact answer_owner ..

theorem check_engine (i : Inbound) (topic : String) (m : Message) :
    (i.check topic m).1.engine.consumer = i.engine.consumer ∧
      (i.check topic m).1.engine.policy = i.engine.policy := by
  cases hreader : i.messages with
  | none =>
    rw [check, hreader]
    exact ⟨rfl, rfl⟩
  | some r =>
    simp only [check_posted hreader, posted, inOrder_engine]
    exact i.engine.check_consumer _ _

end Inbound

end OrderedRelay
