import OrderedRelay.Proofs.Sequencing.Arrivals
import OrderedRelay.Proofs.Sequencing.Consecutive
import Mathlib.Data.Finset.Sort

/-!
# Strict reassembly

As long as the numbers past the first gap are within the bound in force, a strict tracking is a
function of the numbers that have arrived: it has released the numbers before the gap and keeps those
past it, each in its first copy, in whatever order and however often they came.
-/

namespace OrderedRelay

variable {α : Type}

def numbersOf (past : List (Arrival α)) : Finset Nat := (past.map Early.number).toFinset

def firstCopy (past : List (Arrival α)) (n : Nat) : Option α :=
  (past.find? (fun a => a.number = n)).map Early.item

theorem mem_numbersOf {past : List (Arrival α)} {n : Nat} :
    n ∈ numbersOf past ↔ n ∈ past.map Early.number := List.mem_toFinset

@[simp] theorem numbersOf_nil : numbersOf ([] : List (Arrival α)) = ∅ := rfl

theorem mem_numbersOf_append {past : List (Arrival α)} {a : Arrival α} {n : Nat} :
    n ∈ numbersOf (past ++ [a]) ↔ n ∈ numbersOf past ∨ n = a.number := by
  simp [mem_numbersOf]

theorem numbersOf_append (xs ys : List (Arrival α)) :
    numbersOf (xs ++ ys) = numbersOf xs ∪ numbersOf ys := by
  simp [numbersOf]

theorem numbersOf_of_prefix {all rest : List (Arrival α)} {a : Arrival α}
    (hone : ∀ b ∈ all, ∀ c ∈ all, b.number = c.number) (h : a :: rest <+: all) :
    numbersOf (a :: rest) = numbersOf all := by
  ext n
  rw [mem_numbersOf, mem_numbersOf]
  refine ⟨fun hn => (h.map Early.number).subset hn, fun hn => ?_⟩
  obtain ⟨c, hc, rfl⟩ := List.mem_map.mp hn
  rw [hone c hc a (h.subset (List.mem_cons_self ..))]
  exact List.mem_map.mpr ⟨a, List.mem_cons_self .., rfl⟩

theorem firstCopy_of_mem {past : List (Arrival α)} {n : Nat} (h : n ∈ numbersOf past) :
    ∃ a ∈ past, a.number = n ∧ firstCopy past n = some a.item := by
  obtain ⟨a, ha, rfl⟩ := List.mem_map.mp (mem_numbersOf.mp h)
  cases hfind : past.find? (fun b => b.number = a.number) with
  | none =>
    have hnot := List.find?_eq_none.mp hfind a ha
    simp at hnot
  | some b =>
    have hnumber := List.find?_some hfind
    exact ⟨b, List.mem_of_find?_eq_some hfind, by simpa using hnumber, by simp [firstCopy, hfind]⟩

theorem firstCopy_append_of_mem {past more : List (Arrival α)} {n : Nat}
    (h : n ∈ numbersOf past) : firstCopy (past ++ more) n = firstCopy past n := by
  obtain ⟨a, ha, rfl⟩ := List.mem_map.mp (mem_numbersOf.mp h)
  cases hfind : past.find? (fun b => b.number = a.number) with
  | none =>
    have hnot := List.find?_eq_none.mp hfind a ha
    simp at hnot
  | some b => simp [firstCopy, List.find?_append, hfind]

theorem firstCopy_append_new {past : List (Arrival α)} {a : Arrival α}
    (h : a.number ∉ numbersOf past) : firstCopy (past ++ [a]) a.number = some a.item := by
  have hnone : past.find? (fun b => b.number = a.number) = none := by
    rw [List.find?_eq_none]
    intro b hb heq
    exact h (mem_numbersOf.mpr (List.mem_map.mpr ⟨b, hb, by simpa using heq⟩))
  simp [firstCopy, List.find?_append, hnone]

theorem numbersOf_retimed (past : List (Arrival α)) (a : Arrival α) (timestamp : Binary64) :
    numbersOf (past ++ [⟨a.number, timestamp, a.item⟩]) = numbersOf (past ++ [a]) := by
  simp [numbersOf]

theorem firstCopy_retimed (past : List (Arrival α)) (a : Arrival α) (timestamp : Binary64) :
    firstCopy (past ++ [⟨a.number, timestamp, a.item⟩]) = firstCopy (past ++ [a]) := by
  funext n
  cases hpast : past.find? (fun b => b.number = n) with
  | none => by_cases h : a.number = n <;> simp [firstCopy, List.find?_append, hpast, h]
  | some b => simp [firstCopy, List.find?_append, hpast]

/-- The bound in force on the numbers past the first gap holds after every arrival. -/
def WithinBounds (maxPending resyncAfter : Nat) (arrivals : List (Arrival α)) : Prop :=
  ∀ past, past <+: arrivals → (ahead (numbersOf past)).card ≤
    Policy.bound maxPending resyncAfter (completeUpTo (numbersOf past))

theorem WithinBounds.of_append {maxPending resyncAfter : Nat} {xs ys : List (Arrival α)}
    (h : WithinBounds maxPending resyncAfter (xs ++ ys)) : WithinBounds maxPending resyncAfter xs :=
  fun past hpast => h past (hpast.trans (List.prefix_append xs ys))

namespace Tracking

variable {maxPending resyncAfter number : Nat} {t : Tracking α} {past : List (Arrival α)}
  {timestamp incarnation : Binary64} {item : α}

/-- What waits is what of the past lies beyond the last number passed, each in its first copy. -/
structure Recalls (t : Tracking α) (past : List (Arrival α)) : Prop where
  pending_iff : ∀ n, n ∈ t.pending ↔ n ∈ numbersOf past ∧ t.last < n
  items : ∀ e ∈ t.buffer, firstCopy past e.number = some e.item

/-- The tracking knows of the past what reassembly needs. -/
structure Reassembles (t : Tracking α) (past : List (Arrival α)) : Prop where
  last_eq : t.last = completeUpTo (numbersOf past)
  pending_iff : ∀ n, n ∈ t.pending ↔ n ∈ ahead (numbersOf past)
  items : ∀ e ∈ t.buffer, firstCopy past e.number = some e.item

theorem reassembles_restarted (timestamp : Binary64) :
    Reassembles (⟨0, timestamp, []⟩ : Tracking α) [] :=
  ⟨rfl, fun n => by simp [pending, mem_ahead], nofun⟩

/-! ### One arrival -/

theorem Reassembles.recalls (h : t.Reassembles past) : t.Recalls past :=
  ⟨fun n => by rw [h.pending_iff, mem_ahead, ← h.last_eq], h.items⟩

theorem Recalls.number_mem_stock (h : t.Recalls past) (policy : Policy) (a : Arrival α) (n : Nat) :
    n ∈ (t.stock policy a).map Early.number ↔ n ∈ numbersOf (past ++ [a]) ∧ t.last < n := by
  rw [Tracking.number_mem_stock, h.pending_iff, mem_numbersOf_append]
  constructor
  · rintro (⟨rfl, hlt⟩ | ⟨hmem, hlt⟩)
    · exact ⟨Or.inr rfl, hlt⟩
    · exact ⟨Or.inl hmem, hlt⟩
  · rintro ⟨hmem | rfl, hlt⟩
    · exact Or.inr ⟨hmem, hlt⟩
    · exact Or.inl ⟨rfl, hlt⟩

theorem Reassembles.completeUpTo_eq (h : t.Reassembles past) (policy : Policy) (a : Arrival α)
    (hord : Ordered incarnation t.last (t.stock policy a)) :
    completeUpTo (numbersOf (past ++ [a])) =
      t.last + (inTurn t.last (t.stock policy a)).length := by
  have hturn := map_number_inTurn t.last (t.stock policy a)
  -- Up to `last` everything had arrived, and what is in turn follows it without a gap.
  refine OrderedRelay.completeUpTo_eq (fun n hpos hle => ?_) fun hmem => ?_
  · by_cases hn : n ≤ t.last
    · rw [h.last_eq] at hn
      exact mem_numbersOf_append.mpr (Or.inl (mem_of_le_completeUpTo hpos hn))
    · have hin : n ∈ (inTurn t.last (t.stock policy a)).map Early.number := by
        rw [hturn, List.mem_range'_1]
        omega
      have hsub := ((inTurn_isPrefix t.last (t.stock policy a)).map Early.number).subset hin
      exact ((h.recalls.number_mem_stock policy a n).mp hsub).1
  · refine not_mem_after_inTurn hord ((h.recalls.number_mem_stock policy a _).mpr ⟨?_, by omega⟩)
    rwa [show t.last + 1 + (inTurn t.last (t.stock policy a)).length =
      t.last + (inTurn t.last (t.stock policy a)).length + 1 by omega]

theorem Reassembles.number_mem_drop (h : t.Reassembles past) (policy : Policy) (a : Arrival α)
    (hord : Ordered incarnation t.last (t.stock policy a)) (n : Nat) :
    n ∈ ((t.stock policy a).drop (inTurn t.last (t.stock policy a)).length).map Early.number ↔
      n ∈ ahead (numbersOf (past ++ [a])) := by
  have hcut := inTurn_append_drop t.last (t.stock policy a)
  rw [mem_rest_iff (hcut.symm ▸ hord), hcut, h.recalls.number_mem_stock, lastOf_inTurn, mem_ahead,
    h.completeUpTo_eq policy a hord]
  exact ⟨fun hn => ⟨hn.1.1, hn.2⟩, fun hn => ⟨⟨hn.1, by omega⟩, hn.2⟩⟩

/-- Strictly an arrival joins only if its number neither was passed nor waits. -/
theorem Recalls.items_stock (h : t.Recalls past) (hs : t.Sound (.strict maxPending resyncAfter))
    (a : Arrival α) :
    ∀ e ∈ t.stock (.strict maxPending resyncAfter) a,
      firstCopy (past ++ [a]) e.number = some e.item := by
  have hold : ∀ e ∈ t.buffer, firstCopy (past ++ [a]) e.number = some e.item := by
    intro e he
    have hpending : e.number ∈ t.pending := List.mem_map.mpr ⟨e, he, rfl⟩
    rw [firstCopy_append_of_mem ((h.pending_iff _).mp hpending).1]
    exact h.items e he
  intro e he
  unfold stock at he
  by_cases hle : a.number ≤ t.last
  · rw [if_pos hle] at he
    exact hold e he
  · rw [if_neg hle] at he
    dsimp only at he
    by_cases hmem : a.number ∈ t.pending
    · rw [if_pos hmem] at he
      exact hold e he
    · rw [if_neg hmem] at he
      rcases (mem_insertEarly hs.ordered e).mp he with rfl | ⟨hbuffer, -⟩
      · exact firstCopy_append_new fun hnum => hmem ((h.pending_iff _).mpr ⟨hnum, by omega⟩)
      · exact hold e hbuffer

theorem Reassembles.length_stock (h : t.Reassembles past) (policy : Policy) (a : Arrival α)
    (hord : Ordered incarnation t.last (t.stock policy a)) :
    (t.stock policy a).length = (inTurn t.last (t.stock policy a)).length +
      (ahead (numbersOf (past ++ [a]))).card := by
  have hsplit := congrArg List.length (inTurn_append_drop t.last (t.stock policy a))
  have hnodup : (((t.stock policy a).drop (inTurn t.last (t.stock policy a)).length).map
      Early.number).Nodup := by
    rw [List.map_drop]
    exact (hord.pairwise.imp ne_of_lt).sublist (List.drop_sublist ..)
  have hset : (((t.stock policy a).drop (inTurn t.last (t.stock policy a)).length).map
      Early.number).toFinset = ahead (numbersOf (past ++ [a])) := by
    ext n
    rw [List.mem_toFinset, h.number_mem_drop policy a hord]
  rw [← hset, List.toFinset_card_of_nodup hnodup, List.length_map]
  rw [List.length_append] at hsplit
  exact hsplit.symm

/-- An arrival within the bound is reassembled, and what it completes is released in turn. -/
theorem Reassembles.acceptStrict (h : t.Reassembles past)
    (hs : t.Sound (.strict maxPending resyncAfter)) (hself : t.incarnation.equals t.incarnation = true)
    (a : Arrival α) (htop : a.number < topNumber)
    (hbound : (ahead (numbersOf (past ++ [a]))).card ≤
      Policy.bound maxPending resyncAfter (completeUpTo (numbersOf (past ++ [a])))) :
    (Tracking.acceptStrict maxPending resyncAfter t a.number a.item).1.Reassembles (past ++ [a]) ∧
      (Tracking.acceptStrict maxPending resyncAfter t a.number a.item).2.map some =
        (List.range' (t.last + 1) (completeUpTo (numbersOf (past ++ [a])) - t.last)).map
          (firstCopy (past ++ [a])) := by
  have hord := hs.ordered_stock (a := ⟨a.number, t.incarnation, a.item⟩) htop hself
  have hreach := h.completeUpTo_eq _ _ hord
  have hrest := h.number_mem_drop _ _ hord
  have hlen := h.length_stock _ _ hord
  have hitems := h.recalls.items_stock hs ⟨a.number, t.incarnation, a.item⟩
  have hturn := map_number_inTurn t.last
    (t.stock (.strict maxPending resyncAfter) ⟨a.number, t.incarnation, a.item⟩)
  rw [numbersOf_retimed] at hreach hlen
  simp only [numbersOf_retimed] at hrest
  simp only [firstCopy_retimed] at hitems
  rw [hs.acceptStrict_eq htop hself, drainStrict_inTurn hord hs.last_lt
    (by rw [← hreach, hlen]; omega)]
  refine ⟨⟨hreach.symm, hrest, fun e he => hitems e (List.mem_of_mem_drop he)⟩, ?_⟩
  rw [hreach, Nat.add_sub_cancel_left, ← hturn, List.map_map, List.map_map]
  refine List.map_congr_left fun e he => ?_
  exact (hitems e ((inTurn_isPrefix t.last _).subset he)).symm

/-! ### A run of arrivals -/

theorem Reassembles.enter (h : t.Reassembles past) (hs : t.Sound (.strict maxPending resyncAfter))
    (hsame : past = [] ∨ t.incarnation.equals timestamp = true) :
    (t.enter timestamp).Reassembles past ∧ (t.enter timestamp).last = t.last := by
  by_cases heq : t.incarnation.equals timestamp = true
  · rw [enter_of_equals heq]
    exact ⟨h, rfl⟩
  · obtain rfl | hcur := hsame
    · rw [hs.enter_of_ne (Bool.eq_false_iff.mpr heq)]
      exact ⟨reassembles_restarted timestamp, h.last_eq.symm⟩
    · exact absurd hcur heq

/-- What a run of arrivals of one incarnation comes to within the bounds. -/
structure Reassembled (policy : Policy) (timestamp : Binary64) (past : List (Arrival α))
    (t : Tracking α) (released : List α) : Prop where
  sound : t.Sound policy
  knows : t.Reassembles past
  incarnation : past = [] ∨ t.incarnation.equals timestamp = true
  released_eq : released.map some =
    (List.range' 1 (completeUpTo (numbersOf past))).map (firstCopy past)

theorem Reassembled.accept {released : List α} {a : Arrival α}
    (h : Reassembled (.strict maxPending resyncAfter) timestamp past t released)
    (hts : a.timestamp.equals timestamp = true) (htop : a.number < topNumber)
    (hbound : (ahead (numbersOf (past ++ [a]))).card ≤
      Policy.bound maxPending resyncAfter (completeUpTo (numbersOf (past ++ [a])))) :
    Reassembled (.strict maxPending resyncAfter) timestamp (past ++ [a])
      (t.accept (.strict maxPending resyncAfter) a.timestamp a.number a.item).1
      (released ++ (t.accept (.strict maxPending resyncAfter) a.timestamp a.number a.item).2) := by
  have hself := Binary64.equals_self_left hts
  have hsame : past = [] ∨ t.incarnation.equals a.timestamp = true :=
    h.incarnation.imp_right fun hcur => Binary64.equals_trans hcur (Binary64.equals_symm hts)
  obtain ⟨hknows, hlast⟩ := h.knows.enter h.sound hsame
  have hcur := enter_incarnation_equals t hself
  obtain ⟨hknows', hreleased⟩ := hknows.acceptStrict (h.sound.enter a.timestamp)
    (Binary64.equals_self_left hcur) a htop hbound
  obtain ⟨out, hout⟩ := accept_law h.sound htop hself a.item
  have haccept := h.sound.accept_eq htop a.timestamp a.item
  refine ⟨hout.sound, haccept ▸ hknows', Or.inr ?_, ?_⟩
  · rw [hout.incarnation_eq]
    exact Binary64.equals_trans hcur hts
  -- What was complete before stays so, and what the arrival completes follows it.
  · have hgrow : completeUpTo (numbersOf past) ≤ completeUpTo (numbersOf (past ++ [a])) := by
      refine completeUpTo_mono fun n hn => ?_
      exact mem_numbersOf_append.mpr (Or.inl hn)
    have hold : (List.range' 1 (completeUpTo (numbersOf past))).map (firstCopy past) =
        (List.range' 1 (completeUpTo (numbersOf past))).map (firstCopy (past ++ [a])) := by
      refine List.map_congr_left fun n hn => ?_
      rw [List.mem_range'_1] at hn
      exact (firstCopy_append_of_mem (mem_of_le_completeUpTo (by omega) (by omega))).symm
    have hjoin : List.range' 1 (completeUpTo (numbersOf past)) ++
        List.range' (1 + completeUpTo (numbersOf past))
          (completeUpTo (numbersOf (past ++ [a])) - completeUpTo (numbersOf past)) =
        List.range' 1 (completeUpTo (numbersOf (past ++ [a]))) := by
      rw [List.range'_append_1, Nat.add_sub_cancel' hgrow]
    rw [hlast, h.knows.last_eq] at hreleased
    rw [List.map_append, h.released_eq, hold, ← hjoin, List.map_append, Nat.add_comm 1, haccept]
    exact congrArg _ hreleased

theorem reassembled_acceptAll {arrivals : List (Arrival α)}
    (hts : ∀ a ∈ arrivals, a.timestamp.equals timestamp = true)
    (htop : ∀ a ∈ arrivals, a.number < topNumber)
    (hbound : WithinBounds maxPending resyncAfter arrivals) :
    Reassembled (.strict maxPending resyncAfter) timestamp arrivals
      (acceptAll (.strict maxPending resyncAfter) {} arrivals).1
      (acceptAll (.strict maxPending resyncAfter) {} arrivals).2 := by
  induction arrivals using List.reverseRecOn with
  | nil => exact ⟨sound_fresh _, reassembles_restarted _, Or.inl rfl, rfl⟩
  | append_singleton past a ih =>
    have hpast := ih (fun b hb => hts b (List.mem_append_left _ hb))
      (fun b hb => htop b (List.mem_append_left _ hb)) hbound.of_append
    have hmem : a ∈ past ++ [a] := by simp
    have hstep := hpast.accept (hts a hmem) (htop a hmem) (hbound _ List.prefix_rfl)
    rw [acceptAll_append]
    simpa [acceptAll] using hstep

end Tracking

/-- The header seats its message in one incarnation of a producer, below the highest number. -/
def Header.IsFrom (consumer producer : String) (timestamp : Binary64) (h : Header) : Prop :=
  ∃ s, h.seat? consumer = some s ∧ s.producer = producer ∧
    s.timestamp.equals timestamp = true ∧ s.number < topNumber

instance (consumer producer : String) (timestamp : Binary64) (h : Header) :
    Decidable (h.IsFrom consumer producer timestamp) :=
  decidable_of_iff
    (∃ s ∈ h.seat? consumer, s.producer = producer ∧ s.timestamp.equals timestamp = true ∧
      s.number < topNumber)
    Iff.rfl

namespace Engine

variable {e : Engine α} {maxPending resyncAfter : Nat} {consumer producer : String}
  {timestamp : Binary64} {calls : List (Header × α)}

/-- A run has released the messages of a producer up to the first gap, each in its first copy, and
keeps the numbers past it. -/
structure InOrder (e : Engine α) (producer : String) (calls : List (Header × α)) : Prop where
  accepted : ∀ r ∈ (e.run calls).2, ∃ items, r = .ok items
  released : (e.releases calls).map some =
    (List.range' 1 (completeUpTo (numbersOf (arrivalsOf e.consumer producer calls)))).map
      (firstCopy (arrivalsOf e.consumer producer calls))
  expected : ((e.run calls).1.tracking producer).nextExpected =
    completeUpTo (numbersOf (arrivalsOf e.consumer producer calls)) + 1
  waiting : ((e.run calls).1.tracking producer).pending =
    (ahead (numbersOf (arrivalsOf e.consumer producer calls))).sort (· ≤ ·)

theorem isFrom_arrivals (h : ∀ c ∈ calls, c.1.IsFrom consumer producer timestamp) :
    ∀ a ∈ arrivalsOf consumer producer calls,
      a.timestamp.equals timestamp = true ∧ a.number < topNumber := by
  refine forall_mem_arrivalsOf.mpr fun c hc s hs _ => ?_
  obtain ⟨s', hs', -, hts, htop⟩ := h c hc
  rw [hs] at hs'
  cases hs'
  exact ⟨hts, htop⟩

theorem run_accepted (h : ∀ c ∈ calls, c.1.IsFrom e.consumer producer timestamp)
    (hs : (e.tracking producer).Sound e.policy) : ∀ r ∈ (e.run calls).2, ∃ items, r = .ok items := by
  induction calls generalizing e with
  | nil => exact nofun
  | cons c rest ih =>
    obtain ⟨s, hseat, rfl, -, htop⟩ := h c (List.mem_cons_self ..)
    obtain ⟨hconsumer, hpolicy⟩ := check_consumer e c.1 c.2
    intro r hr
    rcases List.mem_cons.mp hr with rfl | hrest
    · exact ⟨_, congrArg Prod.snd (check_of_sound hseat hs htop c.2)⟩
    · refine ih (e := (e.check c.1 c.2).1) (fun d hd => ?_) ?_ r hrest
      · rw [hconsumer]
        exact h d (List.mem_cons_of_mem c hd)
      · rw [hpolicy, tracking_check_of_seat hseat, if_pos rfl]
        exact hs.accept htop

/-- The arrivals up to any point are those of the calls up to some point. -/
theorem withinBounds_arrivalsOf
    (h : ∀ k, (ahead (numbersOf (arrivalsOf consumer producer (calls.take k)))).card ≤
      Policy.bound maxPending resyncAfter
        (completeUpTo (numbersOf (arrivalsOf consumer producer (calls.take k))))) :
    WithinBounds maxPending resyncAfter (arrivalsOf consumer producer calls) := by
  intro past hpast
  obtain ⟨before, hbefore, rfl⟩ := List.prefix_filterMap_iff.mp hpast
  rw [List.prefix_iff_eq_take.mp hbefore]
  exact h before.length

/-- Within the bounds a strict engine gives the messages of one incarnation out in order. -/
theorem inOrder_of_withinBounds (hpolicy : e.policy = .strict maxPending resyncAfter)
    (hnew : e.tracking? producer = none)
    (hfrom : ∀ c ∈ calls, c.1.IsFrom e.consumer producer timestamp)
    (hbound : WithinBounds maxPending resyncAfter (arrivalsOf e.consumer producer calls)) :
    e.InOrder producer calls := by
  have hseat : ∀ c ∈ calls, ∃ s, c.1.seat? e.consumer = some s ∧ s.producer = producer := by
    intro c hc
    obtain ⟨s, hs, hp, -⟩ := hfrom c hc
    exact ⟨s, hs, hp⟩
  have hr := Tracking.reassembled_acceptAll (fun a ha => (isFrom_arrivals hfrom a ha).1)
    (fun a ha => (isFrom_arrivals hfrom a ha).2) hbound
  have hstart := tracking_of_unseen hnew
  have htrack := tracking_run e calls producer
  rw [hstart, hpolicy] at htrack
  refine ⟨run_accepted hfrom (hstart ▸ Tracking.sound_fresh e.policy), ?_, ?_, ?_⟩
  · rw [releases_of_seated hseat, hstart, hpolicy]
    exact hr.released_eq
  · rw [htrack, hr.sound.nextExpected_eq, hr.knows.last_eq]
  · rw [htrack]
    have hasc := hr.sound.waiting.pairwise
    refine List.Pairwise.eq_of_mem_iff hasc (Finset.sortedLT_sort _).pairwise fun n => ?_
    rw [Finset.mem_sort]
    exact hr.knows.pending_iff n

/-- A complete set of numbers is within the bounds on its way if the lower bound covers it. -/
theorem withinBounds_of_complete {arrivals : List (Arrival α)} {n : Nat}
    (hn : n ≤ min resyncAfter maxPending + 1) (hall : numbersOf arrivals = Finset.Icc 1 n) :
    WithinBounds maxPending resyncAfter arrivals := by
  intro past hpast
  have hle : ∀ x ∈ numbersOf past, x ≤ n := by
    intro x hx
    have hmem : x ∈ numbersOf arrivals :=
      mem_numbersOf.mpr ((hpast.map Early.number).subset (mem_numbersOf.mp hx))
    rw [hall, Finset.mem_Icc] at hmem
    exact hmem.2
  have hcard := card_ahead_le hle
  unfold Policy.bound
  split_ifs <;> omega

/-- Strict delivery of one incarnation of a producer that is new to the engine. If after every arrival
the numbers past the first gap are within the bound in force, then after every arrival the numbers up
to the gap have been released in order, each in the copy that came first, and those past it wait. In
particular every arrival of a complete set of numbers that the lower bound covers ends with all of it
released in order and nothing waiting. -/
theorem strict_delivers_in_order (hpolicy : e.policy = .strict maxPending resyncAfter)
    (hnew : e.tracking? producer = none)
    (hfrom : ∀ c ∈ calls, c.1.IsFrom e.consumer producer timestamp) :
    ((∀ k, (ahead (numbersOf (arrivalsOf e.consumer producer (calls.take k)))).card ≤
        if completeUpTo (numbersOf (arrivalsOf e.consumer producer (calls.take k))) = 0
        then min resyncAfter maxPending else maxPending) →
      ∀ k, e.InOrder producer (calls.take k)) ∧
    ∀ n, n ≤ min resyncAfter maxPending + 1 →
      numbersOf (arrivalsOf e.consumer producer calls) = Finset.Icc 1 n →
      (e.releases calls).map some =
          (List.range' 1 n).map (firstCopy (arrivalsOf e.consumer producer calls)) ∧
        ((e.run calls).1.tracking producer).pending = [] := by
  refine ⟨fun hbound k => ?_, fun n hn hall => ?_⟩
  · have hpart : arrivalsOf e.consumer producer (calls.take k) <+:
        arrivalsOf e.consumer producer calls := (List.take_prefix k calls).filterMap _
    have hwithin := withinBounds_arrivalsOf hbound
    exact inOrder_of_withinBounds hpolicy hnew (fun c hc => hfrom c (List.mem_of_mem_take hc))
      fun past hpast => hwithin past (hpast.trans hpart)
  · have h := inOrder_of_withinBounds hpolicy hnew hfrom (withinBounds_of_complete hn hall)
    have hgap : ahead (Finset.Icc 1 n) = ∅ := by
      ext x
      simp [mem_ahead, Finset.mem_Icc]
    have hreleased := h.released
    have hwaiting := h.waiting
    rw [hall, completeUpTo_Icc] at hreleased
    rw [hall, hgap, Finset.sort_empty] at hwaiting
    exact ⟨hreleased, hwaiting⟩

/-- Numbers 2, 3, 2 again and 1, with bounds that let two wait. -/
theorem strict_delivers_reversed :
    let calls := [sampleCall 5 "2" 'b', sampleCall 5 "3" 'c', sampleCall 5 "2" 'x',
      sampleCall 5 "1" 'a']
    let e : Engine Char := fresh "C" (.strict 8 2)
    (((e.run (calls.take 3)).1.tracking "P").pending = [2, 3]) ∧
      (e.releases calls).map some = [some 'a', some 'b', some 'c'] := by
  intro calls e
  have hfrom : ∀ c ∈ calls, c.1.IsFrom e.consumer "P" (.ofInt 5) := by decide +kernel
  obtain ⟨hsteps, hall⟩ := strict_delivers_in_order (e := e) rfl rfl hfrom
  have hfew : ∀ k ≤ 4, (ahead (numbersOf (arrivalsOf e.consumer "P" (calls.take k)))).card ≤
      if completeUpTo (numbersOf (arrivalsOf e.consumer "P" (calls.take k))) = 0
      then min 2 8 else 8 := by decide +kernel
  have hbound : ∀ k, (ahead (numbersOf (arrivalsOf e.consumer "P" (calls.take k)))).card ≤
      if completeUpTo (numbersOf (arrivalsOf e.consumer "P" (calls.take k))) = 0
      then min 2 8 else 8 := by
    intro k
    by_cases hk : k ≤ 4
    · exact hfew k hk
    · have hlong : calls.length ≤ k := by
        have hlen : calls.length = 4 := rfl
        omega
      have hwhole := hfew 4 le_rfl
      rw [List.take_of_length_le (Nat.le_refl 4)] at hwhole
      rwa [List.take_of_length_le hlong]
  have hwaiting := (hsteps hbound 3).waiting
  have hgap : ahead (numbersOf (arrivalsOf e.consumer "P" (calls.take 3))) = [2, 3].toFinset := by
    decide +kernel
  rw [hgap, (List.toFinset_sort (· ≤ ·) (by decide)).mpr (by decide)] at hwaiting
  exact ⟨hwaiting, (hall 3 (by decide) (by decide +kernel)).1⟩

end Engine

end OrderedRelay
