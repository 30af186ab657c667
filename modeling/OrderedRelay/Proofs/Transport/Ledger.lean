import Mathlib.Data.List.Nodup
import Mathlib.Logic.Function.Basic
import OrderedRelay.Transport.Mqtt

/-!
# Whose acknowledgement is next

A broker acknowledges the requests of one kind in the order in which they were sent, and does not say
which request it means. The client has only the queue of those that wait. A ledger beside it records
what the client does not know: which packet each of them sent, and which packet an acknowledgement is
for. The queues are sound if they list the tickets of the packets that are outstanding, in order.
-/

namespace OrderedRelay

namespace Mqtt

variable {κ : Type}

/-- What a call asks the broker for. -/
inductive Request (κ : Type) where
  | subscribe (topic : String) (subscriber : κ)
  | unsubscribe (topic : String)

def Request.kind : Request κ → Kind
  | subscribe .. => .subscribe
  | unsubscribe .. => .unsubscribe

inductive Verdict where
  | granted
  | rejected
  | closed
deriving DecidableEq

/-- A request with the number of its call and the ticket with which the call waits. -/
structure Packet (κ : Type) where
  call : Nat
  ticket : Nat
  request : Request κ

def Packet.kind (p : Packet κ) : Kind := p.request.kind

end Mqtt

/-! ### The queue of each kind -/

namespace Acks

open Mqtt (Kind)

variable (a : Acks) (kind other : Kind)

theorem queue_send : (a.send kind).queue other =
    if other = kind then a.queue other ++ [a.next] else a.queue other := by
  cases kind <;> cases other <;> rfl

theorem queue_ack : (a.ack kind).1.queue other =
    if other = kind then (a.queue other).tail else a.queue other := by
  cases kind <;> cases other <;> rfl

theorem queue_unsend : (a.unsend kind).queue other =
    if other = kind then (a.queue other).dropLast else a.queue other := by
  cases kind <;> cases other <;> rfl

@[simp] theorem queue_fail : a.fail.queue kind = [] := by cases kind <;> rfl

@[simp] theorem next_send : (a.send kind).next = a.next + 1 := by cases kind <;> rfl

@[simp] theorem next_ack : (a.ack kind).1.next = a.next := by cases kind <;> rfl

@[simp] theorem next_unsend : (a.unsend kind).next = a.next := by cases kind <;> rfl

@[simp] theorem front_ack : (a.ack kind).2 = (a.queue kind).head? := by cases kind <;> rfl

def tickets : List Nat := a.subscribes ++ a.unsubscribes

theorem mem_tickets {t : Nat} : t ∈ a.tickets ↔ ∃ kind, t ∈ a.queue kind := by
  rw [tickets, List.mem_append]
  constructor
  · rintro (h | h)
    · exact ⟨.subscribe, h⟩
    · exact ⟨.unsubscribe, h⟩
  · rintro ⟨_ | _, h⟩
    · exact .inl h
    · exact .inr h

end Acks

/-! ### The ledger -/

namespace Mqtt

/-- What is on record beside the queues: what each ticket was told, the packet that is being sent, those
sent and not yet acknowledged, by kind and in the order sent, every packet that was given a ticket, and
every acknowledgement with the packet it is for. -/
structure Ledger (κ : Type) where
  mail : Nat → Option Verdict := fun _ => none
  sending : Option (Packet κ) := none
  unacked : Kind → List (Packet κ) := fun _ => []
  issued : List (Packet κ) := []
  answered : List (Packet κ × Verdict) := []

namespace Ledger

variable {κ : Type} (l : Ledger κ)

/-- The packets an acknowledgement is to come for: those sent, and behind them the one being sent. -/
def outstanding (kind : Kind) : List (Packet κ) :=
  l.unacked kind ++ l.sending.toList.filter fun p => p.kind = kind

def tell (tickets : List Nat) (v : Verdict) : Ledger κ :=
  { l with mail := fun t => if t ∈ tickets then some v else l.mail t }

def issue (p : Packet κ) : Ledger κ := { l with sending := some p, issued := l.issued ++ [p] }

/-- The packet that is being sent, if the connection still has it, goes out behind the others. -/
def send : Ledger κ := { l with sending := none, unacked := l.outstanding }

def unsend : Ledger κ := { l with sending := none }

/-- The broker acknowledges a packet, and those of its kind that are left follow; what it says goes to
the tickets given. -/
def ack (kind : Kind) (p : Packet κ) (rest : List (Packet κ)) (tickets : List Nat) (v : Verdict) :
    Ledger κ :=
  { l.tell tickets v with
    unacked := Function.update l.unacked kind rest
    answered := l.answered ++ [(p, v)] }

/-- The connection ends, and all that wait with the tickets given are told. -/
def cut (tickets : List Nat) : Ledger κ :=
  { l.tell tickets .closed with sending := none, unacked := fun _ => [] }

/-- What holds of the ledger of a client with the given queues. -/
structure Sound (a : Acks) (l : Ledger κ) : Prop where
  line : ∀ kind, a.queue kind = (l.outstanding kind).map Packet.ticket
  kinds : ∀ kind, ∀ p ∈ l.outstanding kind, p.kind = kind
  listed : ∀ kind, ∀ p ∈ l.outstanding kind, p ∈ l.issued
  untold : ∀ kind, ∀ p ∈ l.outstanding kind, l.mail p.ticket = none
  distinct : ∀ kind, (a.queue kind).Nodup
  tickets : (l.issued.map Packet.ticket).Nodup
  below : ∀ p ∈ l.issued, p.ticket < a.next
  blank : ∀ t, a.next ≤ t → l.mail t = none
  answered : ∀ e ∈ l.answered, e.1 ∈ l.issued ∧ l.mail e.1.ticket = some e.2
  mailed : ∀ p ∈ l.issued, ∀ v, l.mail p.ticket = some v → v = .closed ∨ (p, v) ∈ l.answered

variable {l} {a : Acks} {t : Nat}

theorem outstanding_issue (hnone : l.sending = none) (p : Packet κ) (kind : Kind) :
    (l.issue p).outstanding kind =
      l.outstanding kind ++ if p.kind = kind then [p] else [] := by
  simp only [outstanding, issue, hnone, Option.toList_none, List.filter_nil, List.append_nil,
    Option.toList_some, List.filter_cons, decide_eq_true_eq]

@[simp] theorem outstanding_send (l : Ledger κ) : l.send.outstanding = l.outstanding := by
  funext kind
  exact List.append_nil _

theorem outstanding_unsend (l : Ledger κ) (kind : Kind) : l.unsend.outstanding kind = l.unacked kind :=
  List.append_nil _

theorem unacked_subset (l : Ledger κ) (kind : Kind) : l.unacked kind ⊆ l.outstanding kind :=
  List.subset_append_left _ _

theorem outstanding_ack {kind : Kind} {p : Packet κ} {rest : List (Packet κ)}
    (h : l.unacked kind = p :: rest) (tickets : List Nat) (v : Verdict) (other : Kind) :
    l.outstanding other =
      (if other = kind then [p] else []) ++ (l.ack kind p rest tickets v).outstanding other := by
  by_cases hkind : other = kind
  · subst hkind
    simp [outstanding, ack, tell, h]
  · simp [outstanding, ack, tell, hkind]

@[simp] theorem outstanding_cut (l : Ledger κ) (tickets : List Nat) (kind : Kind) :
    (l.cut tickets).outstanding kind = [] := rfl

section

variable {kind : Kind} {p : Packet κ} {rest : List (Packet κ)}

theorem mem_of_unacked (hunacked : l.unacked kind = p :: rest) : p ∈ l.outstanding kind :=
  l.unacked_subset kind (hunacked ▸ List.mem_cons_self)

theorem mail_ack (hne : t ≠ p.ticket) (v : Verdict) :
    (l.ack kind p rest [p.ticket] v).mail t = l.mail t :=
  if_neg fun hmem => hne (List.mem_singleton.mp hmem)

theorem mail_ack_self (v : Verdict) : (l.ack kind p rest [p.ticket] v).mail p.ticket = some v :=
  if_pos List.mem_cons_self

end

/-! ### What keeps the queues sound -/

namespace Sound

theorem mem_queue (h : l.Sound a) {kind : Kind} {t : Nat} :
    t ∈ a.queue kind ↔ ∃ p ∈ l.outstanding kind, p.ticket = t := by
  rw [h.line, List.mem_map]

theorem eq_of_ticket (h : l.Sound a) {p q : Packet κ} (hp : p ∈ l.issued) (hq : q ∈ l.issued)
    (hsame : p.ticket = q.ticket) : p = q :=
  List.inj_on_of_nodup_map h.tickets hp hq hsame

theorem queue_lt (h : l.Sound a) {kind : Kind} {t : Nat} (ht : t ∈ a.queue kind) : t < a.next := by
  obtain ⟨p, hp, rfl⟩ := h.mem_queue.mp ht
  exact h.below p (h.listed kind p hp)

theorem mail_of_mem_queue (h : l.Sound a) {kind : Kind} {t : Nat} (ht : t ∈ a.queue kind) :
    l.mail t = none := by
  obtain ⟨p, hp, rfl⟩ := h.mem_queue.mp ht
  exact h.untold kind p hp

theorem not_mem_tickets (h : l.Sound a) {t : Nat} {v : Verdict} (hmail : l.mail t = some v) :
    t ∉ a.tickets := by
  intro ht
  obtain ⟨kind, ht⟩ := a.mem_tickets.mp ht
  rw [h.mail_of_mem_queue ht] at hmail
  cases hmail

theorem issue (h : l.Sound a) (hnone : l.sending = none) {p : Packet κ} (hp : p.ticket = a.next) :
    (l.issue p).Sound (a.send p.kind) := by
  have hmem : ∀ kind, ∀ q ∈ (l.issue p).outstanding kind,
      q ∈ l.outstanding kind ∨ (q = p ∧ p.kind = kind) := by
    intro kind q hq
    rw [outstanding_issue hnone] at hq
    rcases List.mem_append.mp hq with hold | hnew
    · exact .inl hold
    · split_ifs at hnew with hkind
      · exact .inr ⟨List.mem_singleton.mp hnew, hkind⟩
      · cases hnew
  -- The ticket is new, so it waits in no queue and nothing has been told to it.
  have hfresh : ∀ q ∈ l.issued, q.ticket ≠ a.next := fun q hq => Nat.ne_of_lt (h.below q hq)
  exact {
    line := fun kind => by
      rw [Acks.queue_send, outstanding_issue hnone, h.line, List.map_append]
      by_cases hkind : kind = p.kind
      · rw [if_pos hkind, if_pos hkind.symm, List.map_singleton, hp]
      · rw [if_neg hkind, if_neg (Ne.symm hkind), List.map_nil, List.append_nil]
    kinds := fun kind q hq => by
      rcases hmem kind q hq with hold | ⟨rfl, hkind⟩
      · exact h.kinds kind q hold
      · exact hkind
    listed := fun kind q hq => by
      rcases hmem kind q hq with hold | ⟨rfl, -⟩
      · exact List.mem_append_left _ (h.listed kind q hold)
      · exact List.mem_append_right _ List.mem_cons_self
    untold := fun kind q hq => by
      rcases hmem kind q hq with hold | ⟨rfl, -⟩
      · exact h.untold kind q hold
      · exact h.blank _ (Nat.le_of_eq hp.symm)
    distinct := fun kind => by
      rw [Acks.queue_send]
      split_ifs
      · refine List.nodup_append.mpr ⟨h.distinct kind, List.nodup_singleton _, ?_⟩
        rintro t ht u hu rfl
        exact Nat.ne_of_lt (h.queue_lt ht) (List.mem_singleton.mp hu)
      · exact h.distinct kind
    tickets := by
      show ((l.issued ++ [p]).map Packet.ticket).Nodup
      rw [List.map_append]
      refine List.nodup_append.mpr ⟨h.tickets, List.nodup_singleton _, ?_⟩
      rintro t ht u hu rfl
      obtain ⟨q, hq, rfl⟩ := List.mem_map.mp ht
      exact hfresh q hq ((List.mem_singleton.mp hu).trans hp)
    below := fun q hq => by
      rw [Acks.next_send]
      rcases List.mem_append.mp hq with hold | hnew
      · exact Nat.lt_succ_of_lt (h.below q hold)
      · rw [List.mem_singleton.mp hnew, hp]
        exact Nat.lt_succ_self _
    blank := fun t ht => h.blank t (by rw [Acks.next_send] at ht; omega)
    answered := fun e he =>
      ⟨List.mem_append_left _ (h.answered e he).1, (h.answered e he).2⟩
    mailed := fun q hq v hv => by
      rcases List.mem_append.mp hq with hold | hnew
      · exact h.mailed q hold v hv
      · rw [List.mem_singleton.mp hnew, hp] at hv
        exact absurd (hv.symm.trans (h.blank _ (Nat.le_refl _))) nofun }

theorem send (h : l.Sound a) : l.send.Sound a where
  line := by rw [outstanding_send]; exact h.line
  kinds := by rw [outstanding_send]; exact h.kinds
  listed := by rw [outstanding_send]; exact h.listed
  untold := by rw [outstanding_send]; exact h.untold
  distinct := h.distinct
  tickets := h.tickets
  below := h.below
  blank := h.blank
  answered := h.answered
  mailed := h.mailed

/-- The packet that could not be sent is the last one of its kind. If a loss has taken it from the
queue, nothing else is there to be taken. -/
theorem unsend (h : l.Sound a) {kind : Kind}
    (hsending : (∃ p, l.sending = some p ∧ p.kind = kind) ∨
      (l.sending = none ∧ l.unacked kind = [])) : l.unsend.Sound (a.unsend kind) where
  line other := by
    rw [Acks.queue_unsend, outstanding_unsend, h.line, outstanding]
    rcases hsending with ⟨p, hp, rfl⟩ | ⟨hnone, hnil⟩
    · by_cases hother : other = p.kind
      · simp [hp, hother]
      · simp [hp, hother, Ne.symm hother]
    · by_cases hother : other = kind
      · simp [hnone, hother, hnil]
      · simp [hnone, hother]
  kinds kind p hp := h.kinds kind p (l.unacked_subset kind (outstanding_unsend l kind ▸ hp))
  listed kind p hp := h.listed kind p (l.unacked_subset kind (outstanding_unsend l kind ▸ hp))
  untold kind p hp := h.untold kind p (l.unacked_subset kind (outstanding_unsend l kind ▸ hp))
  distinct other := by
    rw [Acks.queue_unsend]
    split_ifs
    · exact (h.distinct other).sublist (List.dropLast_sublist _)
    · exact h.distinct other
  tickets := h.tickets
  below p hp := by rw [Acks.next_unsend]; exact h.below p hp
  blank t ht := h.blank t (by rwa [Acks.next_unsend] at ht)
  answered := h.answered
  mailed := h.mailed

section

variable {kind : Kind} {p : Packet κ} {rest : List (Packet κ)}

/-- An acknowledgement is for the oldest packet of its kind, and that is the one whose ticket is at the
front. -/
theorem front_eq (h : l.Sound a) (hunacked : l.unacked kind = p :: rest) :
    (a.ack kind).2 = some p.ticket := by
  rw [Acks.front_ack, h.line, outstanding, hunacked]
  rfl

/-- The packets that are still outstanding after an acknowledgement have other tickets. -/
theorem ticket_ne_of_ack (h : l.Sound a) (hunacked : l.unacked kind = p :: rest)
    {tickets : List Nat} {v : Verdict} {other : Kind} {q : Packet κ}
    (hq : q ∈ (l.ack kind p rest tickets v).outstanding other) : q.ticket ≠ p.ticket := by
  intro hsame
  have hsplit := outstanding_ack hunacked tickets v other
  have hbefore : q ∈ l.outstanding other := hsplit ▸ List.mem_append_right _ hq
  have hp := mem_of_unacked hunacked
  obtain rfl := h.eq_of_ticket (h.listed other q hbefore) (h.listed kind p hp) hsame
  obtain rfl := (h.kinds kind q hp).symm.trans (h.kinds other q hbefore)
  have hnodup := h.distinct kind
  rw [h.line, hsplit, if_pos rfl, List.map_append] at hnodup
  exact (List.nodup_append.mp hnodup).2.2 q.ticket List.mem_cons_self q.ticket
    (List.mem_map_of_mem hq) rfl

theorem ack (h : l.Sound a) (hunacked : l.unacked kind = p :: rest) (v : Verdict) :
    (l.ack kind p rest [p.ticket] v).Sound (a.ack kind).1 := by
  have hsplit := outstanding_ack hunacked [p.ticket] v
  have hsub : ∀ other, (l.ack kind p rest [p.ticket] v).outstanding other ⊆ l.outstanding other :=
    fun other q hq => hsplit other ▸ List.mem_append_right _ hq
  have hp := mem_of_unacked hunacked
  have hissued := h.listed kind p hp
  exact {
    line := fun other => by
      rw [Acks.queue_ack, h.line, hsplit other]
      by_cases hkind : other = kind
      · rw [if_pos hkind, if_pos hkind]
        rfl
      · rw [if_neg hkind, if_neg hkind]
        rfl
    kinds := fun other q hq => h.kinds other q (hsub other hq)
    listed := fun other q hq => h.listed other q (hsub other hq)
    -- Only the ticket at the front is told, and those that stay outstanding have other tickets.
    untold := fun other q hq =>
      (mail_ack (h.ticket_ne_of_ack hunacked hq) v).trans (h.untold other q (hsub other hq))
    distinct := fun other => by
      rw [Acks.queue_ack]
      split_ifs
      · exact (h.distinct other).sublist (List.tail_sublist _)
      · exact h.distinct other
    tickets := h.tickets
    below := fun q hq => by rw [Acks.next_ack]; exact h.below q hq
    blank := fun t ht => by
      rw [Acks.next_ack] at ht
      have hbelow := h.below p hissued
      exact (mail_ack (by omega) v).trans (h.blank t ht)
    answered := fun e he => by
      rcases List.mem_append.mp he with hold | hnew
      · obtain ⟨hmem, htold⟩ := h.answered e hold
        refine ⟨hmem, (mail_ack (fun hsame => ?_) v).trans htold⟩
        rw [hsame, h.untold kind p hp] at htold
        cases htold
      · obtain rfl := List.mem_singleton.mp hnew
        exact ⟨hissued, mail_ack_self v⟩
    mailed := fun q hq w hw => by
      by_cases hsame : q.ticket = p.ticket
      · obtain rfl := h.eq_of_ticket hq hissued hsame
        obtain rfl := Option.some.inj ((mail_ack_self v).symm.trans hw)
        exact .inr (List.mem_append_right _ List.mem_cons_self)
      · rw [mail_ack hsame v] at hw
        exact (h.mailed q hq w hw).imp_right fun hmem => List.mem_append_left _ hmem }

end

theorem cut (h : l.Sound a) : (l.cut a.tickets).Sound a.fail where
  line kind := by rw [Acks.queue_fail, outstanding_cut, List.map_nil]
  kinds _ _ hp := absurd hp List.not_mem_nil
  listed _ _ hp := absurd hp List.not_mem_nil
  untold _ _ hp := absurd hp List.not_mem_nil
  distinct kind := by rw [Acks.queue_fail]; exact List.nodup_nil
  tickets := h.tickets
  below := h.below
  blank t ht := by
    refine (if_neg fun hmem => ?_).trans (h.blank t ht)
    obtain ⟨kind, hmem⟩ := a.mem_tickets.mp hmem
    exact absurd (h.queue_lt hmem) (Nat.not_lt.mpr ht)
  answered e he := by
    obtain ⟨hmem, htold⟩ := h.answered e he
    exact ⟨hmem, (if_neg (h.not_mem_tickets htold)).trans htold⟩
  mailed p hp v hv := by
    by_cases hwaits : p.ticket ∈ a.tickets
    · exact .inl (Option.some.inj (hv.symm.trans (if_pos hwaits)))
    · exact h.mailed p hp v ((if_neg hwaits).symm.trans hv)

theorem empty (hnobody : ∀ kind, a.queue kind = []) : ({} : Ledger κ).Sound a where
  line := hnobody
  kinds _ _ hp := absurd hp List.not_mem_nil
  listed _ _ hp := absurd hp List.not_mem_nil
  untold _ _ hp := absurd hp List.not_mem_nil
  distinct kind := by rw [hnobody]; exact List.nodup_nil
  tickets := List.nodup_nil
  below _ hp := absurd hp List.not_mem_nil
  blank _ _ := rfl
  answered _ he := absurd he List.not_mem_nil
  mailed _ hp := absurd hp List.not_mem_nil

end Sound

/-! ### What stays on record -/

structure Grows (l l' : Ledger κ) : Prop where
  issued : l.issued ⊆ l'.issued
  mail : ∀ t v, l.mail t = some v → l'.mail t = some v

theorem Grows.refl (l : Ledger κ) : l.Grows l := ⟨List.Subset.refl _, fun _ _ h => h⟩

theorem grows_issue (l : Ledger κ) (p : Packet κ) : l.Grows (l.issue p) :=
  ⟨List.subset_append_left _ _, fun _ _ h => h⟩

theorem grows_send (l : Ledger κ) : l.Grows l.send := ⟨List.Subset.refl _, fun _ _ h => h⟩

theorem grows_unsend (l : Ledger κ) : l.Grows l.unsend := ⟨List.Subset.refl _, fun _ _ h => h⟩

theorem Sound.grows_ack (h : l.Sound a) {kind : Kind} {p : Packet κ} {rest : List (Packet κ)}
    (hunacked : l.unacked kind = p :: rest) (v : Verdict) :
    l.Grows (l.ack kind p rest [p.ticket] v) where
  issued := List.Subset.refl _
  mail t w hw := by
    refine (mail_ack (fun hsame => ?_) v).trans hw
    rw [hsame, h.untold kind p (mem_of_unacked hunacked)] at hw
    cases hw

theorem Sound.grows_cut (h : l.Sound a) : l.Grows (l.cut a.tickets) where
  issued := List.Subset.refl _
  mail _ _ hw := (if_neg (h.not_mem_tickets hw)).trans hw

end Ledger

end Mqtt

end OrderedRelay
