import OrderedRelay.Proofs.Relay.Answer

/-!
# What readers have to do with

All that happens to a receiving side is that it takes in deliveries and messages checked by hand, that
its streams get readers and lose them, and that it runs what it has posted. Of these only the readers
that its streams have in the meantime get calls, and what is known about producers changes only if the
stream of messages has one.
-/

namespace OrderedRelay

namespace Inbound

/-- Kept by all that can happen to a receiving side whose streams get only certain readers. -/
structure Stable (may : Stream → Reader → Prop) (P : Inbound → Prop) : Prop where
  receive : ∀ (i : Inbound) (d : Delivery Stream), P i → P (i.receive d.subscriber d.topic d.content)
  check : ∀ (i : Inbound) topic m, P i → P (i.check topic m).1
  give : ∀ (i : Inbound) stream reader,
    may stream reader → P i → P (i.setReader stream (some reader))
  clear : ∀ (i : Inbound) stream, P i → P (i.setReader stream none)
  stop : ∀ i : Inbound, P i → P i.stop
  flush : ∀ i : Inbound, P i → P { i with dispatcher := i.dispatcher.flush }

/-- What a receiving side can have come to when its streams had certain readers only. -/
structure Follows (may : Stream → Reader → Prop) (i j : Inbound) : Prop where
  readers : ∀ stream reader, j.reader? stream = some reader → may stream reader
  posted : ∃ new, j.dispatcher.posted = i.dispatcher.posted ++ new ∧
    ∀ c ∈ new, ∃ stream reader, may stream reader ∧ c.handler = reader.handler
  ran : i.dispatcher.ran <+: j.dispatcher.ran
  engine : (∀ reader, ¬ may .messages reader) → j.engine = i.engine

variable {may : Stream → Reader → Prop} {i j : Inbound}

theorem Follows.refl (hreaders : ∀ stream reader, i.reader? stream = some reader → may stream reader) :
    i.Follows may i where
  readers := hreaders
  posted := ⟨[], (List.append_nil _).symm, nofun⟩
  ran := List.prefix_rfl
  engine := fun _ => rfl

theorem Follows.post (h : i.Follows may j) {engine : Engine Message} {new : List Call}
    (hnew : ∀ c ∈ new, ∃ stream reader, may stream reader ∧ c.handler = reader.handler)
    (hengine : (∀ reader, ¬ may .messages reader) → engine = j.engine) :
    i.Follows may (j.posted engine new) where
  readers := h.readers
  posted := by
    obtain ⟨before, hbefore, hcalls⟩ := h.posted
    refine ⟨before ++ new, ?_, fun c hc => (List.mem_append.mp hc).elim (hcalls c) (hnew c)⟩
    show j.dispatcher.ran ++ (j.dispatcher.waiting ++ new) = _
    rw [← List.append_assoc, ← List.append_assoc, ← hbefore]
    rfl
  ran := h.ran
  engine := fun hnone => (hengine hnone).trans (h.engine hnone)

theorem Follows.receive (h : i.Follows may j) (d : Delivery Stream) :
    i.Follows may (j.receive d.subscriber d.topic d.content) := by
  rw [receive_posted]
  refine h.post (fun c hc => ?_) fun hnone => ?_
  · obtain ⟨reader, hreader, hhandler⟩ := handler_of_mem_answer hc
    exact ⟨d.subscriber, reader, h.readers _ _ hreader, hhandler⟩
  · -- Only a message reaches the engine, and for that its stream has to have a reader.
    by_cases hmessage : ∃ topic m, d = ⟨.messages, topic, .ok m⟩
    · obtain ⟨topic, m, rfl⟩ := hmessage
      cases hreader : j.reader? .messages with
      | none => rfl
      | some reader => exact absurd (h.readers _ _ hreader) (hnone reader)
    · exact answer_engine fun topic m hd => hmessage ⟨topic, m, hd⟩

theorem Follows.check (h : i.Follows may j) (topic : String) (m : Message) :
    i.Follows may (j.check topic m).1 := by
  cases hreader : j.messages with
  | none =>
    rw [Inbound.check, hreader]
    exact h
  | some reader =>
    have hmay : may .messages reader := h.readers .messages reader hreader
    rw [check_posted hreader]
    exact h.post (fun c hc => ⟨.messages, reader, hmay, handler_of_mem_inOrder hc⟩)
      fun hnone => absurd hmay (hnone reader)

theorem Follows.setReader (h : i.Follows may j) {stream : Stream} {reader : Option Reader}
    (hmay : ∀ r ∈ reader, may stream r) : i.Follows may (j.setReader stream reader) where
  readers := by
    intro other r hr
    rw [reader?_setReader] at hr
    by_cases hother : other = stream
    · subst hother
      rw [Function.update_self] at hr
      exact hmay r hr
    · rw [Function.update_of_ne hother] at hr
      exact h.readers other r hr
  posted := by
    rw [dispatcher_setReader]
    exact h.posted
  ran := by
    rw [dispatcher_setReader]
    exact h.ran
  engine := by
    rw [engine_setReader]
    exact h.engine

theorem reader?_stop (i : Inbound) (stream : Stream) : i.stop.reader? stream = none := by
  cases stream <;> rfl

theorem posted_flush {α : Type} (d : Dispatcher α) : d.flush.posted = d.posted :=
  List.append_nil _

theorem follows_stable (may : Stream → Reader → Prop) (i : Inbound) :
    Stable may (i.Follows may) where
  receive := fun _ d h => h.receive d
  check := fun _ topic m h => h.check topic m
  give := fun _ stream reader hmay h => h.setReader fun r hr => Option.some.inj hr ▸ hmay
  clear := fun _ stream h => h.setReader nofun
  stop := fun j h => {
    readers := fun stream reader hreader => by
      rw [reader?_stop] at hreader
      cases hreader
    posted := h.posted
    ran := h.ran
    engine := h.engine }
  flush := fun j h => {
    readers := h.readers
    posted := by
      rw [posted_flush]
      exact h.posted
    ran := h.ran.trans (List.prefix_append ..)
    engine := h.engine }

end Inbound

end OrderedRelay
