import OrderedRelay.Proofs.Sequencing.Accept
import OrderedRelay.Proofs.Sequencing.Arrivals

/-!
# What waits has arrived

Whatever waits in the tracking of a producer came in with one of its messages, and lies above the
number that is waited for.
-/

namespace OrderedRelay

namespace Tracking

variable {α : Type} {policy : Policy} {t : Tracking α} {timestamp : Binary64} {number n : Nat}
  {item : α} {arrivals : List (Arrival α)}

theorem Sound.mem_pending_enter (hs : t.Sound policy) (hn : n ∈ (t.enter timestamp).pending) :
    n ∈ t.pending := by
  by_cases hcur : t.incarnation.equals timestamp = true
  · rwa [enter_of_equals hcur] at hn
  · rw [hs.enter_of_ne (Bool.eq_false_iff.mpr hcur)] at hn
    cases hn

theorem Sound.mem_pending_accept (hs : t.Sound policy) (htop : number < topNumber)
    (hn : n ∈ (Tracking.accept policy t timestamp number item).1.pending) :
    n = number ∨ n ∈ t.pending := by
  by_cases hts : timestamp.equals timestamp = true
  · obtain ⟨out, hlaw⟩ := accept_law hs htop hts item
    obtain ⟨x, hx, rfl⟩ := List.mem_map.mp hn
    have hstock : x ∈ (t.enter timestamp).stock policy
        ⟨number, (t.enter timestamp).incarnation, item⟩ := by
      rw [← hlaw.split]
      exact List.mem_append_right out hx
    rcases mem_stock (hs.enter timestamp) hstock with rfl | hwaiting
    · exact Or.inl rfl
    · exact Or.inr (hs.mem_pending_enter (List.mem_map_of_mem hwaiting))
  · rcases hs.accept_of_not_equals htop (Bool.eq_false_iff.mpr hts) item with h | h
    · rw [h] at hn
      cases hn
    · rw [h] at hn
      cases hn

theorem Sound.acceptAll (hs : t.Sound policy) (htop : ∀ a ∈ arrivals, a.number < topNumber) :
    (t.acceptAll policy arrivals).1.Sound policy ∧
      ∀ n ∈ (t.acceptAll policy arrivals).1.pending,
        n ∈ t.pending ∨ ∃ a ∈ arrivals, a.number = n := by
  induction arrivals generalizing t with
  | nil => exact ⟨hs, fun n hn => Or.inl hn⟩
  | cons a rest ih =>
    have ha := htop a (List.mem_cons_self ..)
    have hone : (Tracking.accept policy t a.timestamp a.number a.item).1.Sound policy := hs.accept ha
    obtain ⟨hsound, hpending⟩ := ih hone fun b hb => htop b (List.mem_cons_of_mem a hb)
    refine ⟨hsound, fun n hn => ?_⟩
    rcases hpending n hn with hearlier | ⟨b, hb, rfl⟩
    · rcases hs.mem_pending_accept ha hearlier with rfl | hold
      · exact Or.inr ⟨a, List.mem_cons_self .., rfl⟩
      · exact Or.inl hold
    · exact Or.inr ⟨b, List.mem_cons_of_mem a hb, rfl⟩

end Tracking

namespace Engine

variable {α : Type} {e : Engine α} {producer : String} {calls : List (Header × α)} {n : Nat}

/-- A number that waits was stated in a call, and the number that is waited for is below it. -/
theorem call_of_pending (hnew : e.tracking? producer = none)
    (htop : ∀ c ∈ calls, ∀ s, c.1.seat? e.consumer = some s → s.number < topNumber)
    (hn : n ∈ ((e.run calls).1.tracking producer).pending) :
    ((e.run calls).1.tracking producer).nextExpected < n ∧
      ∃ c ∈ calls, ∃ s, c.1.seat? e.consumer = some s ∧ s.number = n := by
  have harrivals : ∀ a ∈ arrivalsOf e.consumer producer calls, a.number < topNumber :=
    forall_mem_arrivalsOf.mpr fun c hc s hs _ => htop c hc s hs
  obtain ⟨hsound, hpending⟩ := (Tracking.sound_fresh (α := α) e.policy).acceptAll harrivals
  rw [tracking_run, tracking_of_unseen hnew] at hn ⊢
  rw [hsound.nextExpected_eq]
  refine ⟨hsound.lt_of_mem_pending hn, ?_⟩
  rcases hpending n hn with hnone | ⟨a, ha, rfl⟩
  · cases hnone
  · obtain ⟨c, hc, s, hs, -, rfl⟩ := mem_arrivalsOf.mp ha
    exact ⟨c, hc, s, hs, rfl⟩

end Engine

end OrderedRelay
