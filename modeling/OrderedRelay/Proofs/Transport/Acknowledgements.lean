import OrderedRelay.Proofs.Transport.Waiters

/-!
# Acknowledgements reach their own calls

Each queue lists the packets that are sent and not yet acknowledged, in order, however the steps of any
number of calls interleave with the answers of the broker. So an acknowledgement goes to the call whose
packet it is for, and to no other. A caller that no longer waits leaves its place behind, and the
acknowledgement for it goes to nobody. When the connection ends, everybody who waits is told.
-/

namespace OrderedRelay

namespace Mqtt

variable {κ : Type}

namespace Requests

/-! ### Runs -/

/-- What each step from a sound state preserves, a run preserves. -/
theorem run_induction {P : Requests κ → Prop} (hstep : ∀ s s', s.Sound → Steps s s' → P s → P s')
    {s s' : Requests κ} {events : List (Event κ)} (hs : s.Sound) (h : P s)
    (hrun : s.run events = some s') : s'.Sound ∧ P s' := by
  induction events generalizing s with
  | nil =>
    obtain rfl := Option.some.inj hrun
    exact ⟨hs, h⟩
  | cons e rest ih =>
    rw [run_cons] at hrun
    obtain ⟨mid, hmid, hrest⟩ := Option.bind_eq_some_iff.mp hrun
    have hsteps := steps_of_step hmid
    exact ih (hsteps.sound hs) (hstep s mid hs hsteps h) hrest

/-! ### While the connection is up -/

/-- Only the end of the connection tells a call that it is closed. -/
def Reported (s : Requests κ) : Prop :=
  ∀ t, s.desk.ledger.mail t = some .closed → s.desk.client.connected = false

theorem Advances.connected {k : Nat} {r : Request κ} {d d' : Desk κ} {old : Option Stage}
    {stage : Stage} (h : Advances k r d old stage d') :
    d'.client.connected = d.client.connected := by
  cases h <;> rfl

theorem Advances.mail {k : Nat} {r : Request κ} {d d' : Desk κ} {old : Option Stage}
    {stage : Stage} (h : Advances k r d old stage d') : d'.ledger.mail = d.ledger.mail := by
  cases h <;> rfl

theorem reported_step {s s' : Requests κ} (hs : s.Sound) (h : Steps s s') (hr : s.Reported) :
    s'.Reported := by
  intro t ht
  cases h with
  | move h =>
    rw [h.advances.mail] at ht
    rw [h.advances.connected]
    exact hr t ht
  | @ack kind p rest hunacked granted calls desk =>
    rw [desk, ledger_ack hs hunacked] at ht
    rw [desk]
    by_cases hself : t = p.ticket
    · rw [hself, Ledger.mail_ack_self, Option.some.injEq] at ht
      exact absurd ht (Verdict.ofAck_ne_closed kind granted)
    · rw [Ledger.mail_ack hself] at ht
      exact hr t ht
  | cut hacks hdown calls desk =>
    rw [desk]
    exact hdown
  | clear calls desk =>
    rw [desk] at ht ⊢
    exact hr t ht

/-! ### What a call comes to -/

/-- The ticket of a call was told something. The call has yet to hear it, or it has ended: by hearing just
that, by failing to send its packet, or because its caller gave up. -/
def Told (k : Nat) (r : Request κ) (t : Nat) (v : Verdict) (s : Requests κ) : Prop :=
  s.desk.ledger.mail t = some v ∧ ∃ stage, s.call? k = some ⟨r, stage⟩ ∧
    (stage.ticket? = some t ∨ stage = .abandoned ∨ stage = .returned .unsent ∨
      stage = .returned (.heard v))

theorem Advances.told {k t : Nat} {r : Request κ} {v : Verdict} {d d' : Desk κ}
    {st stage : Stage} (h : Advances k r d (some st) stage d') (hmail : d.ledger.mail t = some v)
    (hst : st.ticket? = some t ∨ st = .abandoned ∨ st = .returned .unsent ∨
      st = .returned (.heard v)) :
    stage.ticket? = some t ∨ stage = .abandoned ∨ stage = .returned .unsent ∨
      stage = .returned (.heard v) := by
  cases h with
  | send | unlock => exact .inl (hst.resolve_right (by simp))
  | leaveSent | leaveWait => exact .inr (.inl rfl)
  | fail => exact .inr (.inr (.inl rfl))
  | hear u hv table =>
    obtain rfl := Option.some.inj (hst.resolve_right (by simp))
    obtain rfl := Option.some.inj (hmail.symm.trans hv)
    exact .inr (.inr (.inr rfl))
  | look | unconnected | enter | idle | lock | queue | leave | leaveLine => simp [Stage.ticket?] at hst

theorem told_step {k t : Nat} {r : Request κ} {v : Verdict} {s s' : Requests κ} (hs : s.Sound)
    (h : Steps s s') (htold : Told k r t v s) : Told k r t v s' := by
  obtain ⟨hmail, stage, hcall, hstage⟩ := htold
  refine ⟨(h.grows hs).mail t v hmail, ?_⟩
  cases h with
  | @move j q old next h =>
    by_cases hk : k = j
    · subst hk
      obtain ⟨rfl, rfl⟩ := h.old_of_call? hcall
      exact ⟨next, h.after, h.advances.told hmail hstage⟩
    · exact ⟨stage, (h.others k hk).trans hcall, hstage⟩
  | ack _ _ calls _ | cut _ _ calls _ | clear calls _ =>
    exact ⟨stage, (call?_congr calls k).trans hcall, hstage⟩

/-- What a ticket was told once is what its call hears, whatever happens in between. -/
theorem told_of_run {k t : Nat} {r : Request κ} {v : Verdict} {s s' : Requests κ}
    {events : List (Event κ)} (hs : s.Sound) (htold : Told k r t v s)
    (hrun : s.run events = some s') : Told k r t v s' :=
  (run_induction (P := Told k r t v) (fun _ _ hs h => told_step hs h) hs htold hrun).2

/-- A call that waits and whose ticket was told something ends with it when it next looks. -/
theorem step_hear {s : Requests κ} {k t : Nat} {r : Request κ} {v : Verdict}
    (hcall : s.call? k = some ⟨r, .waiting t⟩) (hmail : s.desk.ledger.mail t = some v) :
    ∃ s', s.step (.move k .hear) = some s' ∧ s'.call? k = some ⟨r, .returned (.heard v)⟩ := by
  obtain ⟨hk, -⟩ := List.getElem?_eq_some_iff.mp hcall
  refine ⟨⟨{ s.desk with client := s.desk.client.settle r v },
    s.calls.set k ⟨r, .returned (.heard v)⟩⟩, ?_, List.getElem?_set_self hk⟩
  simp only [step, hcall, Stage.advance, hmail, Option.map_some]

/-! ### Each call hears of its own packet -/

/-- What the calls on one connection have come to: the queues are in step with the broker, each call
hears of its own packet only, and when the connection ends nobody is left waiting. -/
structure Paired (s : Requests κ) : Prop where
  waiters : ∀ kind, s.desk.client.acks.queue kind =
    (s.desk.ledger.outstanding kind).map Packet.ticket
  settled : (∀ k r t, s.call? k ≠ some ⟨r, .queued t⟩) →
    ∀ kind, s.desk.client.acks.queue kind = (s.desk.ledger.unacked kind).map Packet.ticket
  waits : ∀ k r t, s.call? k = some ⟨r, .waiting t⟩ → s.desk.ledger.mail t = none →
    ⟨k, t, r⟩ ∈ s.desk.ledger.unacked r.kind
  single : ∀ p ∈ s.desk.ledger.issued, ∀ q ∈ s.desk.ledger.issued,
    p.call = q.call ∨ p.ticket = q.ticket → p = q
  answers : ∀ p v w, (p, v) ∈ s.desk.ledger.answered → (p, w) ∈ s.desk.ledger.answered → v = w
  completes : ∀ k r e, s.call? k = some ⟨r, .returned e⟩ →
    e = .unconnected ∨ (e = .idle ∧ r.kind = .unsubscribe) ∨ e = .unsent ∨
      ∃ p ∈ s.desk.ledger.issued, p.call = k ∧ p.request = r ∧
        ∃ v, e = .heard v ∧ ((v = .closed ∧ s.desk.client.connected = false) ∨
          (p, v) ∈ s.desk.ledger.answered)
  acked : ∀ kind p rest granted, s.desk.client.connected = true →
    s.desk.ledger.unacked kind = p :: rest → ∃ s', s.step (.ack kind granted) = some s' ∧
      s'.calls = s.calls ∧ s'.desk.ledger.unacked kind = rest ∧
      (p, .ofAck kind granted) ∈ s'.desk.ledger.answered ∧
      s'.desk.ledger.mail p.ticket = some (.ofAck kind granted) ∧
      ∀ t, t ≠ p.ticket → s'.desk.ledger.mail t = s.desk.ledger.mail t
  hears : ∀ k r t v, s.call? k = some ⟨r, .waiting t⟩ → s.desk.ledger.mail t = some v →
    ∃ s', s.step (.move k .hear) = some s' ∧ s'.call? k = some ⟨r, .returned (.heard v)⟩
  told : ∀ k r t v, Told k r t v s → ∀ later s', s.run later = some s' → Told k r t v s'
  ended : ∀ e : Event κ, e.isEnd = true → ∃ s', s.step e = some s' ∧
    (∀ kind, s'.desk.client.acks.queue kind = []) ∧
    ∀ k r stage t, s.call? k = some ⟨r, stage⟩ → stage.ticket? = some t →
      s.desk.ledger.mail t = none →
      ∀ later s'', s'.run later = some s'' → Told k r t .closed s''

namespace Sound

variable {s : Requests κ}

theorem mem_unacked (hs : s.Sound) {k t : Nat} {r : Request κ}
    (hcall : s.call? k = some ⟨r, .waiting t⟩) (hmail : s.desk.ledger.mail t = none) :
    ⟨k, t, r⟩ ∈ s.desk.ledger.unacked r.kind := by
  rcases List.mem_append.mp ((hs.ticketed k r _ t hcall rfl).2 hmail) with hsent | hlast
  · exact hsent
  · have hqueued := hs.at_sending (Option.mem_toList.mp (List.mem_filter.mp hlast).1)
    rw [at_of_call? hcall] at hqueued
    cases hqueued

theorem outstanding_eq_unacked (hs : s.Sound) (hnone : ∀ k r t, s.call? k ≠ some ⟨r, .queued t⟩)
    (kind : Kind) : s.desk.ledger.outstanding kind = s.desk.ledger.unacked kind := by
  have hsending : s.desk.ledger.sending = none := by
    cases hsending : s.desk.ledger.sending with
    | none => rfl
    | some p => exact absurd (hs.sending p hsending) (hnone _ _ _)
  rw [Ledger.outstanding, hsending]
  exact List.append_nil _

theorem completes (hs : s.Sound) (hr : s.Reported) {k : Nat} {r : Request κ} {e : Ending}
    (hcall : s.call? k = some ⟨r, .returned e⟩) :
    e = .unconnected ∨ (e = .idle ∧ r.kind = .unsubscribe) ∨ e = .unsent ∨
      ∃ p ∈ s.desk.ledger.issued, p.call = k ∧ p.request = r ∧
        ∃ v, e = .heard v ∧ ((v = .closed ∧ s.desk.client.connected = false) ∨
          (p, v) ∈ s.desk.ledger.answered) := by
  have hended := hs.ended k r e hcall
  cases e with
  | unconnected => exact .inl rfl
  | idle => exact .inr (.inl ⟨rfl, hended.1⟩)
  | unsent => exact .inr (.inr (.inl rfl))
  | heard v =>
    obtain ⟨t, hissued, hmail⟩ := hended
    refine .inr (.inr (.inr ⟨_, hissued, rfl, rfl, v, rfl, ?_⟩))
    refine (hs.ledger.mailed _ hissued v hmail).imp_left fun hclosed => ⟨hclosed, ?_⟩
    exact hr t (hclosed ▸ hmail)

theorem acked (hs : s.Sound) {kind : Kind} {p : Packet κ} {rest : List (Packet κ)}
    (hconnected : s.desk.client.connected = true)
    (hunacked : s.desk.ledger.unacked kind = p :: rest) (granted : Bool) :
    ∃ s', s.step (.ack kind granted) = some s' ∧
      s'.calls = s.calls ∧ s'.desk.ledger.unacked kind = rest ∧
      (p, .ofAck kind granted) ∈ s'.desk.ledger.answered ∧
      s'.desk.ledger.mail p.ticket = some (.ofAck kind granted) ∧
      ∀ t, t ≠ p.ticket → s'.desk.ledger.mail t = s.desk.ledger.mail t := by
  refine ⟨{ s with desk := s.desk.ack kind p rest (.ofAck kind granted) }, ?_, rfl, ?_⟩
  · rw [step, hconnected, hunacked]
  · rw [ledger_ack hs hunacked]
    exact ⟨Function.update_self .., List.mem_append_right _ List.mem_cons_self,
      Ledger.mail_ack_self _, fun t ht => Ledger.mail_ack ht _⟩

/-- A call that waits when the connection ends is told so. -/
theorem told_cut (hs : s.Sound) {k t : Nat} {r : Request κ} {stage : Stage}
    (hcall : s.call? k = some ⟨r, stage⟩) (hticket : stage.ticket? = some t)
    (hmail : s.desk.ledger.mail t = none) (c : Mqtt κ) :
    Told k r t .closed { s with desk := s.desk.cut c } := by
  have hwaits : t ∈ s.desk.client.acks.queue r.kind :=
    hs.ledger.mem_queue.mpr ⟨_, (hs.ticketed k r stage t hcall hticket).2 hmail, rfl⟩
  exact ⟨if_pos ((Acks.mem_tickets _).mpr ⟨r.kind, hwaits⟩), stage, hcall, .inl hticket⟩

theorem ends (hs : s.Sound) {e : Event κ} (hend : e.isEnd = true) : ∃ s', s.step e = some s' ∧
    (∀ kind, s'.desk.client.acks.queue kind = []) ∧
    ∀ k r stage t, s.call? k = some ⟨r, stage⟩ → stage.ticket? = some t →
      s.desk.ledger.mail t = none →
      ∀ later s'', s'.run later = some s'' → Told k r t .closed s'' := by
  have hcut : ∀ c : Mqtt κ, c.acks = s.desk.client.acks.fail →
      (∀ kind, (s.desk.cut c).client.acks.queue kind = []) ∧
      ∀ k r stage t, s.call? k = some ⟨r, stage⟩ → stage.ticket? = some t →
        s.desk.ledger.mail t = none → ∀ later s'',
        run { s with desk := s.desk.cut c } later = some s'' → Told k r t .closed s'' := by
    intro c hacks
    refine ⟨fun kind => ?_, fun k r stage t hcall hticket hmail later s'' hrun => ?_⟩
    · show c.acks.queue kind = []
      rw [hacks, Acks.queue_fail]
    · have hs' : Sound { s with desk := s.desk.cut c } := sound_cut hs hacks rfl rfl
      exact told_of_run hs' (hs.told_cut hcall hticket hmail c) hrun
  cases e with
  | lose => exact ⟨_, rfl, hcut _ rfl⟩
  | close => exact ⟨_, rfl, hcut _ rfl⟩
  | call | move | ack | clear => cases hend

end Sound

/-- However calls, acknowledgements and the end of the connection interleave, each call is paired with
the acknowledgement of its own packet. -/
theorem acks_paired_with_requests {c : Mqtt κ} (hnobody : ∀ kind, c.acks.queue kind = [])
    {events : List (Event κ)} {s : Requests κ} (hrun : (start c).run events = some s) :
    s.Paired := by
  have hnew : (start c).Reported := nofun
  obtain ⟨hs, hr⟩ := run_induction (fun _ _ => reported_step) (sound_start hnobody) hnew hrun
  exact {
    waiters := hs.ledger.line
    settled := fun hnone kind => by rw [hs.ledger.line, hs.outstanding_eq_unacked hnone]
    waits := fun k r t => hs.mem_unacked
    single := fun p hp q hq hsame => hsame.elim (hs.eq_of_call hp hq) (hs.ledger.eq_of_ticket hp hq)
    answers := fun p v w hv hw => Option.some.inj
      ((hs.ledger.answered _ hv).2.symm.trans (hs.ledger.answered _ hw).2)
    completes := fun k r e => hs.completes hr
    acked := fun kind p rest granted hconnected hunacked => hs.acked hconnected hunacked granted
    hears := fun k r t v => step_hear
    told := fun k r t v htold later s' => told_of_run hs htold
    ended := fun e => hs.ends }

def sampleClient : Mqtt Nat where
  urls := ["mqtt://broker"]
  clientId := "S"
  keepAlive := 30
  session := some "mqtt://broker"
  connected := true
  subscriptions := [("x", 0)]

def sampleSend (k : Nat) : List (Event Nat) :=
  [.move k .look, .move k .enter, .move k .lock, .move k .queue, .move k .send, .move k .unlock]

/-- The caller of the second subscribe no longer waits when the broker answers, and the third one is
rejected; an unsubscribe goes on beside them. A fourth subscribe cannot be sent, and a fifth is not
acknowledged before the connection is lost. -/
def sampleEvents : List (Event Nat) :=
  [.call (.subscribe "a" 1), .call (.subscribe "b" 2), .call (.subscribe "c" 3),
    .call (.unsubscribe "x")] ++
  sampleSend 0 ++ sampleSend 1 ++ sampleSend 3 ++ sampleSend 2 ++
  [.move 1 .abandon, .ack .subscribe true, .ack .subscribe true, .ack .subscribe false,
    .ack .unsubscribe true, .move 2 .hear, .move 0 .hear, .move 3 .hear,
    .call (.subscribe "d" 4), .move 4 .look, .move 4 .enter, .move 4 .lock, .move 4 .queue,
    .move 4 .fail, .call (.subscribe "e" 5)] ++
  sampleSend 5 ++ [.lose, .move 5 .hear]

theorem acks_paired_sample :
    (∀ kind, sampleClient.acks.queue kind = []) ∧
    ∃ s, (start sampleClient).run sampleEvents = some s ∧
      s.calls.map Asking.stage = [.returned (.heard .granted), .abandoned,
        .returned (.heard .rejected), .returned (.heard .granted), .returned .unsent,
        .returned (.heard .closed)] ∧
      s.desk.client.subscriptions = [("a", 1), ("b", 2)] ∧ s.Paired := by
  have hnobody : ∀ kind, sampleClient.acks.queue kind = [] := fun kind => by cases kind <;> rfl
  have hends : ((start sampleClient).run sampleEvents).map
      (fun s => (s.calls.map Asking.stage, s.desk.client.subscriptions)) =
        some ([.returned (.heard .granted), .abandoned, .returned (.heard .rejected),
          .returned (.heard .granted), .returned .unsent, .returned (.heard .closed)],
          [("a", 1), ("b", 2)]) := by decide +kernel
  obtain ⟨s, hrun, hs⟩ := Option.map_eq_some_iff.mp hends
  obtain ⟨hstages, htable⟩ := Prod.mk.inj hs
  exact ⟨hnobody, s, hrun, hstages, htable, acks_paired_with_requests hnobody hrun⟩

end Requests

end Mqtt

end OrderedRelay
