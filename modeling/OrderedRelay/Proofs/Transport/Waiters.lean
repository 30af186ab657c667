import OrderedRelay.Proofs.Transport.Requests

/-!
# Who waits, however requests interleave

The lock spans taking a place in the queue and handing the packet over. So only the call that has the
lock can be in the middle of that, and the queues stay as the ledger says, whichever call moves next and
whenever the broker answers or the connection ends.
-/

namespace OrderedRelay

namespace Mqtt

variable {κ : Type}

namespace Requests

/-! ### What a step of a call does -/

section Advances

variable {k : Nat} {r : Request κ} {d d' : Desk κ} {old : Option Stage} {stage : Stage}

theorem Advances.lock_cases (h : Advances k r d old stage d') :
    (d'.holder = d.holder ∧ stage.holds = old.any Stage.holds) ∨
    (d.holder = none ∧ d'.holder = some k ∧ stage.holds = true) ∨
    (old.any Stage.holds = true ∧ d'.holder = none ∧ stage.holds = false) := by
  cases h with
  | lock hfree => exact .inr (.inl ⟨hfree, rfl, rfl⟩)
  | fail | unlock | leaveSent => exact .inr (.inr ⟨rfl, rfl, rfl⟩)
  | call | look | unconnected | enter | idle | queue | send | hear | leave | leaveLine |
    leaveWait => exact .inl ⟨rfl, rfl⟩

/-- A step that is not about handing a packet over leaves the queues and the ledger alone. -/
theorem Advances.queue_cases (h : Advances k r d old stage d') :
    (d'.client.acks = d.client.acks ∧ d'.ledger = d.ledger ∧ old.any Stage.isQueued = false ∧
      stage.isQueued = false ∧ ∀ t, stage.ticket? = some t → old.bind Stage.ticket? = some t) ∨
    (old = some .locked ∧ stage = .queued d.client.acks.next ∧ d' = d.queue k r) ∨
    (∃ t, old = some (.queued t) ∧ stage = .sent t ∧ d' = d.send) ∨
    ∃ t table, old = some (.queued t) ∧ stage = .returned .unsent ∧
      d' = (d.unsend r).withTable table := by
  cases h with
  | queue => exact .inr (.inl ⟨rfl, rfl, rfl⟩)
  | send t => exact .inr (.inr (.inl ⟨t, rfl, rfl, rfl⟩))
  | fail t table => exact .inr (.inr (.inr ⟨t, table, rfl, rfl, rfl⟩))
  | unlock t => exact .inl ⟨rfl, rfl, rfl, rfl, fun _ h => h⟩
  | call | look | unconnected | enter | idle | lock | hear | leave | leaveLine | leaveSent |
    leaveWait => exact .inl ⟨rfl, rfl, rfl, rfl, nofun⟩

theorem Advances.early (h : Advances k r d old stage d') (hearly : stage.isEarly = true) :
    old.all Stage.isEarly = true := by
  cases h with
  | call | look | enter | lock => rfl
  | unconnected | idle | queue | send | fail | unlock | hear | leave | leaveLine | leaveSent |
    leaveWait => cases hearly

theorem Advances.ending {e : Ending} (h : Advances k r d old (.returned e) d') :
    (e = .unconnected ∧ old = some .called) ∨
    (e = .idle ∧ old = some .admitted ∧ r.kind = .unsubscribe) ∨
    e = .unsent ∨
    ∃ t v, e = .heard v ∧ old = some (.waiting t) ∧ d.ledger.mail t = some v ∧
      d'.ledger = d.ledger := by
  cases h with
  | unconnected => exact .inl ⟨rfl, rfl⟩
  | idle hkind => exact .inr (.inl ⟨rfl, rfl, hkind⟩)
  | fail => exact .inr (.inr (.inl rfl))
  | hear t hmail table => exact .inr (.inr (.inr ⟨t, _, rfl, rfl, hmail, rfl⟩))

end Advances

/-! ### Where the calls are -/

def At (s : Requests κ) (k : Nat) (P : Stage → Bool) : Prop :=
  ∃ c, s.call? k = some c ∧ P c.stage = true

theorem at_of_call? {s : Requests κ} {k : Nat} {r : Request κ} {stage : Stage}
    (h : s.call? k = some ⟨r, stage⟩) {P : Stage → Bool} : s.At k P ↔ P stage = true := by
  unfold At
  rw [h]
  simp

theorem holds_of_queued {s : Requests κ} {k : Nat} (h : s.At k Stage.isQueued) : s.At k Stage.holds := by
  obtain ⟨c, hc, hqueued⟩ := h
  refine ⟨c, hc, ?_⟩
  cases hstage : c.stage with
  | queued t => rfl
  | called | admitted | entered | locked | sent | waiting | returned | abandoned =>
    rw [hstage] at hqueued
    cases hqueued

namespace Moves

variable {s s' : Requests κ} {k j : Nat} {r : Request κ} {old : Option Stage} {stage : Stage}
  {P : Stage → Bool}

theorem at_old (h : Moves s s' k r old stage) : s.At k P ↔ old.any P = true := by
  unfold At
  rw [h.before]
  cases old <;> simp

theorem at_self (h : Moves s s' k r old stage) : s'.At k P ↔ P stage = true := at_of_call? h.after

theorem at_other (h : Moves s s' k r old stage) (hj : j ≠ k) : s'.At j P ↔ s.At j P := by
  unfold At
  rw [h.others j hj]

theorem old_of_call? (h : Moves s s' k r old stage) {q : Request κ} {st : Stage}
    (hcall : s.call? k = some ⟨q, st⟩) : old = some st ∧ q = r := by
  rw [h.before] at hcall
  obtain ⟨o, ho, hsame⟩ := Option.map_eq_some_iff.mp hcall
  obtain ⟨rfl, rfl⟩ := Asking.mk.inj hsame
  exact ⟨ho, rfl⟩

theorem call?_cases (h : Moves s s' k r old stage) {q : Request κ} {st : Stage}
    (hcall : s'.call? j = some ⟨q, st⟩) :
    (j = k ∧ q = r ∧ st = stage) ∨ (j ≠ k ∧ s.call? j = some ⟨q, st⟩) := by
  by_cases hj : j = k
  · subst hj
    have hsame := Option.some.inj (h.after.symm.trans hcall)
    exact .inl ⟨rfl, (congrArg Asking.request hsame).symm, (congrArg Asking.stage hsame).symm⟩
  · exact .inr ⟨hj, (h.others j hj).symm.trans hcall⟩

end Moves

/-! ### What holds after any steps -/

/-- What the ledger has to say about a call that has returned. -/
def Ended (l : Ledger κ) (k : Nat) (r : Request κ) : Ending → Prop
  | .unconnected => ∀ p ∈ l.issued, p.call ≠ k
  | .idle => r.kind = .unsubscribe ∧ ∀ p ∈ l.issued, p.call ≠ k
  | .unsent => True
  | .heard v => ∃ t, ⟨k, t, r⟩ ∈ l.issued ∧ l.mail t = some v

structure Sound (s : Requests κ) : Prop where
  ledger : s.desk.ledger.Sound s.desk.client.acks
  locked : ∀ k, s.desk.holder = some k ↔ s.At k Stage.holds
  sending : ∀ p, s.desk.ledger.sending = some p → s.call? p.call = some ⟨p.request, .queued p.ticket⟩
  severed : ∀ k, s.At k Stage.isQueued → s.desk.ledger.sending = none →
    ∀ kind, s.desk.ledger.unacked kind = []
  ticketed : ∀ k r stage t, s.call? k = some ⟨r, stage⟩ → stage.ticket? = some t →
    ⟨k, t, r⟩ ∈ s.desk.ledger.issued ∧
      (s.desk.ledger.mail t = none → ⟨k, t, r⟩ ∈ s.desk.ledger.outstanding r.kind)
  past : ∀ p ∈ s.desk.ledger.issued,
    ∃ stage, s.call? p.call = some ⟨p.request, stage⟩ ∧ stage.isEarly = false
  once : (s.desk.ledger.issued.map Packet.call).Nodup
  ended : ∀ k r e, s.call? k = some ⟨r, .returned e⟩ → Ended s.desk.ledger k r e

theorem call?_start (c : Mqtt κ) (k : Nat) : (start c).call? k = none := List.getElem?_nil

theorem not_at_start (c : Mqtt κ) (k : Nat) (P : Stage → Bool) : ¬ (start c).At k P := by
  rintro ⟨_, hc, -⟩
  rw [call?_start] at hc
  cases hc

theorem sound_start {c : Mqtt κ} (hnobody : ∀ kind, c.acks.queue kind = []) :
    (start c).Sound where
  ledger := .empty hnobody
  locked k := iff_of_false nofun (not_at_start c k _)
  sending _ := nofun
  severed k h := absurd h (not_at_start c k _)
  ticketed k _ _ _ h := absurd ((call?_start c k).symm.trans h) nofun
  past _ hp := absurd hp List.not_mem_nil
  once := List.nodup_nil
  ended k _ _ h := absurd ((call?_start c k).symm.trans h) nofun

namespace Sound

variable {s : Requests κ} (hs : s.Sound)

include hs

theorem eq_of_holds {i j : Nat} (hi : s.At i Stage.holds) (hj : s.At j Stage.holds) : i = j :=
  Option.some.inj (((hs.locked i).mpr hi).symm.trans ((hs.locked j).mpr hj))

theorem at_sending {p : Packet κ} (h : s.desk.ledger.sending = some p) :
    s.At p.call Stage.isQueued := (at_of_call? (hs.sending p h)).mpr rfl

/-- A call that has the lock and is not handing a packet over finds no packet that is being sent. -/
theorem sending_eq_none {k : Nat} (hholds : s.At k Stage.holds)
    (hnot : ¬ s.At k Stage.isQueued) : s.desk.ledger.sending = none := by
  cases hsending : s.desk.ledger.sending with
  | none => rfl
  | some p =>
    have hqueued := hs.at_sending hsending
    exact absurd (hs.eq_of_holds (holds_of_queued hqueued) hholds ▸ hqueued) hnot

theorem not_issued_of_early {k : Nat} (hearly : s.At k Stage.isEarly) :
    ∀ p ∈ s.desk.ledger.issued, p.call ≠ k := by
  rintro p hp rfl
  obtain ⟨stage, hcall, hnot⟩ := hs.past p hp
  rw [at_of_call? hcall, hnot] at hearly
  cases hearly

theorem eq_of_call {p q : Packet κ} (hp : p ∈ s.desk.ledger.issued) (hq : q ∈ s.desk.ledger.issued)
    (hsame : p.call = q.call) : p = q := List.inj_on_of_nodup_map hs.once hp hq hsame

end Sound

/-! ### A call moves -/

namespace Moves

variable {s s' : Requests κ} {k : Nat} {r : Request κ} {old : Option Stage} {stage : Stage}

theorem at_queued (h : Moves s s' k r (some (.queued j)) stage) : s.At k Stage.isQueued :=
  h.at_old.mpr rfl

/-- The packet that is being sent is that of the call that hands one over. -/
theorem sending_cases {t : Nat} (h : Moves s s' k r (some (.queued t)) stage) (hs : s.Sound) :
    s.desk.ledger.sending = some ⟨k, t, r⟩ ∨ s.desk.ledger.sending = none := by
  cases hsending : s.desk.ledger.sending with
  | none => exact .inr rfl
  | some p =>
    have hk : p.call = k := hs.eq_of_holds (holds_of_queued (hs.at_sending hsending))
      (holds_of_queued h.at_queued)
    obtain ⟨hstage, hrequest⟩ := h.old_of_call? (hk ▸ hs.sending p hsending)
    obtain rfl := Stage.queued.inj (Option.some.inj hstage)
    subst hk hrequest
    exact .inl rfl

theorem ledger_step (h : Moves s s' k r old stage) (hs : s.Sound) :
    s'.desk.ledger.Sound s'.desk.client.acks := by
  rcases h.advances.queue_cases with ⟨hacks, hledger, -⟩ | ⟨rfl, -, hdesk⟩ |
    ⟨t, rfl, -, hdesk⟩ | ⟨t, table, rfl, -, hdesk⟩
  · rw [hacks, hledger]
    exact hs.ledger
  · have hnone : s.desk.ledger.sending = none :=
      hs.sending_eq_none (h.at_old.mpr rfl) fun hqueued => nomatch h.at_old.mp hqueued
    rw [hdesk]
    exact hs.ledger.issue hnone (p := ⟨k, s.desk.client.acks.next, r⟩) rfl
  · rw [hdesk]
    exact hs.ledger.send
  · rw [hdesk]
    refine hs.ledger.unsend ?_
    rcases h.sending_cases hs with hsome | hnone
    · exact .inl ⟨_, hsome, rfl⟩
    · exact .inr ⟨hnone, hs.severed k h.at_queued hnone r.kind⟩

theorem grows (h : Moves s s' k r old stage) : s.desk.ledger.Grows s'.desk.ledger := by
  rcases h.advances.queue_cases with ⟨-, hledger, -⟩ | ⟨-, -, hdesk⟩ | ⟨t, -, -, hdesk⟩ |
    ⟨t, table, -, -, hdesk⟩
  · rw [hledger]
    exact .refl _
  · rw [hdesk]
    exact Ledger.grows_issue _ _
  · rw [hdesk]
    exact Ledger.grows_send _
  · rw [hdesk]
    exact Ledger.grows_unsend _

theorem locked_step (h : Moves s s' k r old stage) (hs : s.Sound) (j : Nat) :
    s'.desk.holder = some j ↔ s'.At j Stage.holds := by
  by_cases hj : j = k
  · subst hj
    rw [h.at_self]
    rcases h.advances.lock_cases with ⟨hholder, hstage⟩ | ⟨-, hholder, hstage⟩ |
      ⟨-, hholder, hstage⟩
    · rw [hholder, hstage, hs.locked j, h.at_old]
    · rw [hholder, hstage]
      exact ⟨fun _ => rfl, fun _ => rfl⟩
    · rw [hholder, hstage]
      exact ⟨nofun, nofun⟩
  · rw [h.at_other hj, ← hs.locked j]
    rcases h.advances.lock_cases with ⟨hholder, -⟩ | ⟨hfree, hholder, -⟩ | ⟨hheld, hholder, -⟩
    · rw [hholder]
    · rw [hholder, hfree, Option.some.injEq]
      exact ⟨fun hk => absurd hk.symm hj, nofun⟩
    · rw [hholder, (hs.locked k).mpr (h.at_old.mpr hheld), Option.some.injEq]
      exact ⟨nofun, fun hk => absurd hk.symm hj⟩

theorem sending_step (h : Moves s s' k r old stage) (hs : s.Sound) :
    ∀ p, s'.desk.ledger.sending = some p →
      s'.call? p.call = some ⟨p.request, .queued p.ticket⟩ := by
  intro p hp
  rcases h.advances.queue_cases with ⟨-, hledger, hold, -⟩ | ⟨-, rfl, hdesk⟩ |
    ⟨t, -, -, hdesk⟩ | ⟨t, table, -, -, hdesk⟩
  · rw [hledger] at hp
    have hother : p.call ≠ k := by
      rintro rfl
      rw [h.at_old.mp (hs.at_sending hp)] at hold
      cases hold
    rw [h.others _ hother]
    exact hs.sending p hp
  · rw [hdesk] at hp
    obtain rfl := Option.some.inj hp
    exact h.after
  · rw [hdesk] at hp
    cases hp
  · rw [hdesk] at hp
    cases hp

theorem severed_step (h : Moves s s' k r old stage) (hs : s.Sound) :
    ∀ j, s'.At j Stage.isQueued → s'.desk.ledger.sending = none →
      ∀ kind, s'.desk.ledger.unacked kind = [] := by
  intro j hj hnone
  -- No other call is handing a packet over while this one does.
  have hself : ∀ t, old = some (.queued t) → stage.isQueued = false → ¬ s'.At j Stage.isQueued := by
    rintro t rfl hstage hj
    by_cases hjk : j = k
    · subst hjk
      rw [h.at_self.mp hj] at hstage
      cases hstage
    · exact hjk (hs.eq_of_holds (holds_of_queued ((h.at_other hjk).mp hj))
        (holds_of_queued h.at_queued))
  rcases h.advances.queue_cases with ⟨-, hledger, -, hstage, -⟩ | ⟨-, -, hdesk⟩ |
    ⟨t, hold, hstage, -⟩ | ⟨t, table, hold, hstage, -⟩
  · rw [hledger] at hnone ⊢
    by_cases hjk : j = k
    · subst hjk
      rw [h.at_self.mp hj] at hstage
      cases hstage
    · exact hs.severed j ((h.at_other hjk).mp hj) hnone
  · rw [hdesk] at hnone
    cases hnone
  · exact absurd hj (hself t hold (hstage ▸ rfl))
  · exact absurd hj (hself t hold (hstage ▸ rfl))

theorem ticketed_step (h : Moves s s' k r old stage) (hs : s.Sound) :
    ∀ j q st t, s'.call? j = some ⟨q, st⟩ → st.ticket? = some t →
      ⟨j, t, q⟩ ∈ s'.desk.ledger.issued ∧
        (s'.desk.ledger.mail t = none → ⟨j, t, q⟩ ∈ s'.desk.ledger.outstanding q.kind) := by
  intro j q st t hcall ht
  rcases h.advances.queue_cases with ⟨-, hledger, -, -, hticket⟩ | ⟨rfl, rfl, hdesk⟩ |
    ⟨u, rfl, rfl, hdesk⟩ | ⟨u, table, rfl, rfl, hdesk⟩
  · rw [hledger]
    rcases h.call?_cases hcall with ⟨rfl, rfl, rfl⟩ | ⟨-, hbefore⟩
    · obtain ⟨o, rfl, ho⟩ := Option.bind_eq_some_iff.mp (hticket t ht)
      exact hs.ticketed j q o t h.before ho
    · exact hs.ticketed j q st t hbefore ht
  · have hnone : s.desk.ledger.sending = none :=
      hs.sending_eq_none (h.at_old.mpr rfl) fun hqueued => nomatch h.at_old.mp hqueued
    rw [hdesk]
    show _ ∈ s.desk.ledger.issued ++ _ ∧
      (_ → _ ∈ (s.desk.ledger.issue _).outstanding _)
    rw [Ledger.outstanding_issue hnone]
    rcases h.call?_cases hcall with ⟨rfl, rfl, rfl⟩ | ⟨-, hbefore⟩
    · obtain rfl := Option.some.inj ht
      refine ⟨List.mem_append_right _ List.mem_cons_self, fun _ => List.mem_append_right _ ?_⟩
      show _ ∈ if q.kind = q.kind then _ else _
      rw [if_pos rfl]
      exact List.mem_cons_self
    · obtain ⟨hissued, hwaits⟩ := hs.ticketed j q st t hbefore ht
      exact ⟨List.mem_append_left _ hissued, fun hmail => List.mem_append_left _ (hwaits hmail)⟩
  · have hbefore : ∃ o, s.call? j = some ⟨q, o⟩ ∧ o.ticket? = some t := by
      rcases h.call?_cases hcall with ⟨rfl, rfl, rfl⟩ | ⟨-, hbefore⟩
      · exact ⟨_, h.before, ht⟩
      · exact ⟨st, hbefore, ht⟩
    obtain ⟨o, hold, ho⟩ := hbefore
    rw [hdesk]
    show _ ∧ (_ → _ ∈ s.desk.ledger.send.outstanding _)
    rw [Ledger.outstanding_send]
    exact hs.ticketed j q o t hold ho
  · rcases h.call?_cases hcall with ⟨-, -, rfl⟩ | ⟨hj, hbefore⟩
    · cases ht
    · obtain ⟨hissued, hwaits⟩ := hs.ticketed j q st t hbefore ht
      rw [hdesk]
      show _ ∧ (_ → _ ∈ s.desk.ledger.unsend.outstanding _)
      rw [Ledger.outstanding_unsend]
      refine ⟨hissued, fun hmail => ?_⟩
      rcases List.mem_append.mp (hwaits hmail) with hunacked | hlast
      · exact hunacked
      · -- The packet that could not be sent is the one of the call that moves.
        have hsending := Option.mem_toList.mp (List.mem_filter.mp hlast).1
        exact absurd (hs.eq_of_holds (holds_of_queued (hs.at_sending hsending))
          (holds_of_queued h.at_queued)) hj

/-- A packet that gets a ticket is that of a call that had none. -/
theorem issued_cases (h : Moves s s' k r old stage) :
    s'.desk.ledger.issued = s.desk.ledger.issued ∨
    (old = some .locked ∧ stage.isEarly = false ∧
      s'.desk.ledger.issued = s.desk.ledger.issued ++ [⟨k, s.desk.client.acks.next, r⟩]) := by
  rcases h.advances.queue_cases with ⟨-, hledger, -⟩ | ⟨hold, rfl, hdesk⟩ | ⟨t, -, -, hdesk⟩ |
    ⟨t, table, -, -, hdesk⟩
  · rw [hledger]
    exact .inl rfl
  · rw [hdesk]
    exact .inr ⟨hold, rfl, rfl⟩
  · rw [hdesk]
    exact .inl rfl
  · rw [hdesk]
    exact .inl rfl

theorem past_step (h : Moves s s' k r old stage) (hs : s.Sound) :
    ∀ p ∈ s'.desk.ledger.issued,
      ∃ st, s'.call? p.call = some ⟨p.request, st⟩ ∧ st.isEarly = false := by
  have hkept : ∀ p ∈ s.desk.ledger.issued,
      ∃ st, s'.call? p.call = some ⟨p.request, st⟩ ∧ st.isEarly = false := by
    intro p hp
    obtain ⟨st, hcall, hst⟩ := hs.past p hp
    by_cases hk : p.call = k
    · obtain ⟨rfl, hrequest⟩ := h.old_of_call? (hk ▸ hcall)
      refine ⟨stage, by rw [hk, hrequest]; exact h.after, ?_⟩
      by_contra hearly
      have hall := h.advances.early (by simpa using hearly)
      rw [Option.all_some, hst] at hall
      cases hall
    · exact ⟨st, (h.others _ hk).trans hcall, hst⟩
  rcases h.issued_cases with hsame | ⟨-, hstage, hnew⟩
  · rw [hsame]
    exact hkept
  · rw [hnew]
    intro p hp
    rcases List.mem_append.mp hp with hold | hlast
    · exact hkept p hold
    · obtain rfl := List.mem_singleton.mp hlast
      exact ⟨stage, h.after, hstage⟩

theorem once_step (h : Moves s s' k r old stage) (hs : s.Sound) :
    (s'.desk.ledger.issued.map Packet.call).Nodup := by
  rcases h.issued_cases with hsame | ⟨rfl, -, hnew⟩
  · rw [hsame]
    exact hs.once
  · have hfresh := hs.not_issued_of_early (h.at_old.mpr rfl)
    rw [hnew, List.map_append]
    refine List.nodup_append.mpr ⟨hs.once, List.nodup_singleton _, ?_⟩
    rintro a ha b hb rfl
    obtain ⟨p, hp, rfl⟩ := List.mem_map.mp ha
    exact hfresh p hp (List.mem_singleton.mp hb)

theorem ended_step (h : Moves s s' k r old stage) (hs : s.Sound) :
    ∀ j q e, s'.call? j = some ⟨q, .returned e⟩ → Ended s'.desk.ledger j q e := by
  intro j q e hcall
  -- A packet that is new is not one of a call without a packet.
  have hnew : (∀ p ∈ s.desk.ledger.issued, p.call ≠ j) → (j = k → old ≠ some .locked) →
      ∀ p ∈ s'.desk.ledger.issued, p.call ≠ j := by
    rintro hnone hold p hp rfl
    rcases h.issued_cases with hsame | ⟨hlocked, -, hnew⟩
    · exact hnone p (hsame ▸ hp) rfl
    · rw [hnew] at hp
      rcases List.mem_append.mp hp with hbefore | hlast
      · exact hnone p hbefore rfl
      · obtain rfl := List.mem_singleton.mp hlast
        exact hold rfl hlocked
  rcases h.call?_cases hcall with ⟨rfl, rfl, rfl⟩ | ⟨hj, hbefore⟩
  · rcases h.advances.ending with ⟨rfl, rfl⟩ | ⟨rfl, rfl, hkind⟩ | rfl |
      ⟨t, v, rfl, rfl, hmail, hledger⟩
    · exact hnew (hs.not_issued_of_early (h.at_old.mpr rfl)) nofun
    · exact ⟨hkind, hnew (hs.not_issued_of_early (h.at_old.mpr rfl)) nofun⟩
    · trivial
    · rw [hledger]
      exact ⟨t, (hs.ticketed j q _ t h.before rfl).1, hmail⟩
  · have hended := hs.ended j q e hbefore
    cases e with
    | unconnected => exact hnew hended fun hjk => absurd hjk hj
    | idle => exact ⟨hended.1, hnew hended.2 fun hjk => absurd hjk hj⟩
    | unsent => trivial
    | heard v =>
      obtain ⟨t, hissued, hmail⟩ := hended
      exact ⟨t, h.grows.issued hissued, h.grows.mail t v hmail⟩

theorem sound_step (h : Moves s s' k r old stage) (hs : s.Sound) : s'.Sound where
  ledger := h.ledger_step hs
  locked := h.locked_step hs
  sending := h.sending_step hs
  severed := h.severed_step hs
  ticketed := h.ticketed_step hs
  past := h.past_step hs
  once := h.once_step hs
  ended := h.ended_step hs

end Moves

/-! ### Only what is shared changes -/

section Shared

variable {s s' : Requests κ}

theorem call?_congr (hcalls : s'.calls = s.calls) (k : Nat) : s'.call? k = s.call? k := by
  rw [call?, call?, hcalls]

theorem at_congr (hcalls : s'.calls = s.calls) {k : Nat} {P : Stage → Bool} :
    s'.At k P ↔ s.At k P := by
  rw [At, At, call?_congr hcalls]

/-- What a change of the ledger alone has to respect: tickets and packets stay, and only a packet whose
ticket was told something is no longer outstanding. -/
theorem sound_of_calls_eq (hs : s.Sound) (hcalls : s'.calls = s.calls)
    (hholder : s'.desk.holder = s.desk.holder)
    (hledger : s'.desk.ledger.Sound s'.desk.client.acks)
    (hgrows : s.desk.ledger.Grows s'.desk.ledger)
    (hissued : s'.desk.ledger.issued = s.desk.ledger.issued)
    (hsending : s'.desk.ledger.sending = s.desk.ledger.sending ∨ s'.desk.ledger.sending = none)
    (hsevered : s'.desk.ledger.sending = none →
      (s.desk.ledger.sending = none ∧
        ∀ kind, s'.desk.ledger.unacked kind ⊆ s.desk.ledger.unacked kind) ∨
      ∀ kind, s'.desk.ledger.unacked kind = [])
    (hopen : ∀ kind, ∀ p ∈ s.desk.ledger.outstanding kind, s'.desk.ledger.mail p.ticket = none →
      p ∈ s'.desk.ledger.outstanding kind) : s'.Sound where
  ledger := hledger
  locked k := by rw [hholder, at_congr hcalls, hs.locked]
  sending p hp := by
    rw [call?_congr hcalls]
    rcases hsending with hsame | hnone
    · exact hs.sending p (hsame ▸ hp)
    · rw [hnone] at hp
      cases hp
  severed k hk hnone kind := by
    rcases hsevered hnone with ⟨hbefore, hsub⟩ | hnil
    · rw [at_congr hcalls] at hk
      exact List.subset_nil.mp (hs.severed k hk hbefore kind ▸ hsub kind)
    · exact hnil kind
  ticketed k r stage t hcall ht := by
    rw [call?_congr hcalls] at hcall
    obtain ⟨hmem, hwaits⟩ := hs.ticketed k r stage t hcall ht
    refine ⟨hissued ▸ hmem, fun hmail => hopen r.kind _ (hwaits ?_) hmail⟩
    cases hbefore : s.desk.ledger.mail t with
    | none => rfl
    | some v =>
      rw [hgrows.mail t v hbefore] at hmail
      cases hmail
  past p hp := by
    rw [call?_congr hcalls]
    exact hs.past p (hissued ▸ hp)
  once := by rw [hissued]; exact hs.once
  ended k r e hcall := by
    rw [call?_congr hcalls] at hcall
    have hended := hs.ended k r e hcall
    cases e with
    | unconnected => exact fun p hp => hended p (hissued ▸ hp)
    | idle => exact ⟨hended.1, fun p hp => hended.2 p (hissued ▸ hp)⟩
    | unsent => trivial
    | heard v =>
      obtain ⟨t, hmem, hmail⟩ := hended
      exact ⟨t, hissued ▸ hmem, hgrows.mail t v hmail⟩

variable {kind : Kind} {p : Packet κ} {rest : List (Packet κ)}

/-- The call at the front is the one whose packet is acknowledged. -/
theorem ledger_ack (hs : s.Sound) (hunacked : s.desk.ledger.unacked kind = p :: rest)
    (v : Verdict) : (s.desk.ack kind p rest v).ledger =
      s.desk.ledger.ack kind p rest [p.ticket] v := by
  rw [Desk.ack, hs.ledger.front_eq hunacked]
  rfl

theorem sound_ack (hs : s.Sound) (hunacked : s.desk.ledger.unacked kind = p :: rest) (v : Verdict)
    (hcalls : s'.calls = s.calls) (hdesk : s'.desk = s.desk.ack kind p rest v) : s'.Sound := by
  have hledger : s'.desk.ledger = s.desk.ledger.ack kind p rest [p.ticket] v := by
    rw [hdesk, ledger_ack hs hunacked]
  have hacks : s'.desk.client.acks = (s.desk.client.acks.ack kind).1 := by rw [hdesk]; rfl
  refine sound_of_calls_eq hs hcalls (by rw [hdesk]; rfl) ?_ ?_ ?_ ?_ ?_ ?_
  · rw [hacks, hledger]
    exact hs.ledger.ack hunacked v
  · rw [hledger]
    exact hs.ledger.grows_ack hunacked v
  · rw [hledger]
    rfl
  · rw [hledger]
    exact .inl rfl
  · rw [hledger]
    refine fun hnone => .inl ⟨hnone, fun other => ?_⟩
    show Function.update s.desk.ledger.unacked kind rest other ⊆ _
    by_cases hother : other = kind
    · rw [hother, Function.update_self, hunacked]
      exact List.subset_cons_self _ _
    · rw [Function.update_of_ne hother]
      exact List.Subset.refl _
  · rw [hledger]
    intro other q hq hmail
    rw [Ledger.outstanding_ack hunacked [p.ticket] v] at hq
    rcases List.mem_append.mp hq with hacked | hkept
    · split_ifs at hacked
      · rw [List.mem_singleton.mp hacked, Ledger.mail_ack_self] at hmail
        cases hmail
      · cases hacked
    · exact hkept

theorem sound_cut (hs : s.Sound) {c : Mqtt κ} (hacks : c.acks = s.desk.client.acks.fail)
    (hcalls : s'.calls = s.calls) (hdesk : s'.desk = s.desk.cut c) : s'.Sound := by
  have hledger : s'.desk.ledger = s.desk.ledger.cut s.desk.client.acks.tickets := by
    rw [hdesk]
    rfl
  refine sound_of_calls_eq hs hcalls (by rw [hdesk]; rfl) ?_ ?_ ?_ ?_ ?_ ?_
  · rw [hledger, hdesk]
    show Ledger.Sound c.acks _
    rw [hacks]
    exact hs.ledger.cut
  · rw [hledger]
    exact hs.ledger.grows_cut
  · rw [hledger]
    rfl
  · rw [hledger]
    exact .inr rfl
  · rw [hledger]
    exact fun _ => .inr fun _ => rfl
  · rw [hledger]
    intro kind p hp hmail
    have htold : (s.desk.ledger.cut s.desk.client.acks.tickets).mail p.ticket = some .closed :=
      if_pos ((Acks.mem_tickets _).mpr ⟨kind, hs.ledger.mem_queue.mpr ⟨p, hp, rfl⟩⟩)
    rw [htold] at hmail
    cases hmail

theorem sound_clear (hs : s.Sound) {table : Table κ} (hcalls : s'.calls = s.calls)
    (hdesk : s'.desk = s.desk.withTable table) : s'.Sound := by
  have hledger : s'.desk.ledger = s.desk.ledger := by rw [hdesk]; rfl
  refine sound_of_calls_eq hs hcalls (by rw [hdesk]; rfl) ?_ ?_ ?_ ?_ ?_ ?_
  · rw [hledger, hdesk]
    exact hs.ledger
  · rw [hledger]
    exact .refl _
  · rw [hledger]
  · rw [hledger]
    exact .inl rfl
  · rw [hledger]
    exact fun hnone => .inl ⟨hnone, fun _ => List.Subset.refl _⟩
  · rw [hledger]
    exact fun _ _ hp _ => hp

end Shared

theorem Steps.sound {s s' : Requests κ} (h : Steps s s') (hs : s.Sound) : s'.Sound := by
  cases h with
  | move h => exact h.sound_step hs
  | ack hunacked granted calls desk => exact sound_ack hs hunacked _ calls desk
  | cut hacks hdown calls desk => exact sound_cut hs hacks calls desk
  | clear calls desk => exact sound_clear hs calls desk

theorem Steps.grows {s s' : Requests κ} (h : Steps s s') (hs : s.Sound) :
    s.desk.ledger.Grows s'.desk.ledger := by
  cases h with
  | move h => exact h.grows
  | ack hunacked granted calls desk =>
    rw [desk, ledger_ack hs hunacked]
    exact hs.ledger.grows_ack hunacked _
  | cut hacks hdown calls desk =>
    rw [desk]
    exact hs.ledger.grows_cut
  | clear calls desk =>
    rw [desk]
    exact .refl _

end Requests

end Mqtt

end OrderedRelay
