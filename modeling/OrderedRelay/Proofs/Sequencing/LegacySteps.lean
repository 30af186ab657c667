import OrderedRelay.Proofs.Sequencing.Runs
import OrderedRelay.Proofs.Sequencing.Upkeep

/-!
# What one arrival does, by the legacy rule

Before a message leaves over a gap, the legacy drain asks whether the newest arrival is the highest of
several that wait. As the arrival is in the list, the answer can only turn from yes to no when the list
is down to the arrival itself: either no gap is skipped, or every gap is but the one before the arrival.
-/

namespace OrderedRelay

namespace Tracking

variable {α : Type} {incarnation : Binary64} {last number received : Nat} {es : List (Early α)}
  {e a : Early α} {t t' : Tracking α} {given : List α}

/-! ### The highest that waits -/

theorem insertEarly_of_highest (h : Ordered incarnation last es)
    (hmax : ∀ e ∈ es, e.number ≤ a.number) :
    insertEarly a es = es.filter (fun e => e.number < a.number) ++ [a] := by
  induction es generalizing last with
  | nil => rfl
  | cons b bs ih =>
    have hb := hmax b (List.mem_cons_self ..)
    have hbs := ih h.2.2.2 fun e he => hmax e (List.mem_cons_of_mem b he)
    rcases Nat.lt_or_eq_of_le hb with hlt | heq
    · simp [insertEarly, hlt, Nat.not_lt.mpr hb, Nat.ne_of_gt hlt, hbs]
    -- A copy of the highest number is the last that waits.
    · have hnil : bs = [] := by
        rw [List.eq_nil_iff_forall_not_mem]
        intro x hx
        have hlow := hmax x (List.mem_cons_of_mem b hx)
        have hhigh := (h.2.2.2.mem hx).1
        omega
      simp [insertEarly, hnil, heq]

theorem lastOf_cons_eq_highest (last : Nat) (e : Early α) (es : List (Early α)) :
    lastOf last (e :: es) = highest e es := by
  induction es generalizing last e with
  | nil => rfl
  | cons b bs ih => rw [lastOf_cons, ih, highest, highest, List.getLastD_cons]

theorem card_joined_eq (h : Ordered incarnation last (insertEarly a t.buffer)) :
    (t.joined a).card = (insertEarly a t.buffer).length := by
  rw [joined, ← numbersOf_insertEarly, numbersOf,
    List.toFinset_card_of_nodup (h.pairwise.imp ne_of_lt), List.length_map]

/-- The arrival is the highest of several that wait. -/
def Jams (t : Tracking α) (a : Early α) : Prop :=
  (∀ m ∈ t.joined a, m ≤ a.number) ∧ 1 < (t.joined a).card

theorem Jams.exists_front (hjams : t.Jams a) (hbuffer : Ordered incarnation last t.buffer)
    (h : Ordered incarnation last (insertEarly a t.buffer)) :
    ∃ es e, insertEarly a t.buffer = es ++ [e, a] := by
  have hmax : ∀ e ∈ t.buffer, e.number ≤ a.number :=
    fun e he => hjams.1 _ (mem_joined.mpr (Or.inr (List.mem_map_of_mem he)))
  have hcard := hjams.2
  rw [card_joined_eq h, insertEarly_of_highest hbuffer hmax] at hcard
  rw [insertEarly_of_highest hbuffer hmax]
  rcases List.eq_nil_or_concat (t.buffer.filter fun e => e.number < a.number) with hnil | ⟨es, e, hes⟩
  · rw [hnil] at hcard
    exact absurd hcard (lt_irrefl 1)
  · exact ⟨es, e, by rw [hes]; simp⟩

theorem jams_of_highest (h : Ordered incarnation last (insertEarly a t.buffer))
    (hcons : insertEarly a t.buffer = e :: es) (hhigh : highest e es = a.number) (hmore : es ≠ []) :
    t.Jams a := by
  constructor
  · intro m hm
    rw [joined, ← numbersOf_insertEarly] at hm
    obtain ⟨x, hx, rfl⟩ := List.mem_map.mp (mem_numbersOf.mp hm)
    have hle := h.mem_le_lastOf hx
    rwa [hcons, lastOf_cons_eq_highest, hhigh] at hle
  · rw [card_joined_eq h, hcons, List.length_cons]
    have := List.length_pos_of_ne_nil hmore
    omega

/-! ### Legacy drains -/

/-- Where the arrival is not the highest that waits, no gap is skipped. -/
theorem drainLegacy_eq_drainTurn (h : Ordered incarnation last es) (hlast : last < topNumber)
    (hother : ∀ e ∈ es, e.number ≠ received) :
    drainLegacy received incarnation last es = drainTurn last es := by
  induction es generalizing last with
  | nil => rfl
  | cons e es ih =>
    have hhigh : highest e es ≠ received := hother _ List.getLastD_mem_cons
    rw [drainLegacy_cons received h hlast]
    by_cases he : e.number = last + 1
    · rw [if_pos (Or.inl he), drainTurn_cons he,
        ih h.2.2.2 h.2.1 fun x hx => hother x (List.mem_cons_of_mem e hx)]
    · have hgap : Ordered incarnation (last + 1) (e :: es) := ⟨by have := h.1; omega, h.2⟩
      rw [if_neg (not_or.mpr ⟨he, fun hjam => hhigh hjam.1⟩), drainTurn_of_gap hgap]

/-- Where the arrival is the last of several, everything before it leaves, and it leaves itself if it is
next in turn then. -/
theorem drainLegacy_jam (h : Ordered incarnation last (es ++ [e, a])) (hlast : last < topNumber) :
    drainLegacy a.number incarnation last (es ++ [e, a]) =
      if a.number = e.number + 1 then ⟨(es ++ [e, a]).map Early.item, a.number, []⟩
      else ⟨(es ++ [e]).map Early.item, e.number, [a]⟩ := by
  induction es generalizing last with
  | nil =>
    obtain ⟨-, htop, -, ha⟩ := id h
    rw [List.nil_append, drainLegacy_cons a.number h hlast, if_pos (Or.inr ⟨rfl, by simp⟩),
      drainLegacy_cons a.number ha htop]
    by_cases hnext : a.number = e.number + 1
    · rw [if_pos (Or.inl hnext), if_pos hnext]
      rfl
    · rw [if_neg (by simp [hnext]), if_neg hnext]
      rfl
  -- As long as `e` waits too, the arrival is the highest of several.
  | cons b bs ih =>
    have hhigh : highest b (bs ++ [e, a]) = a.number := by simp [highest]
    rw [List.cons_append] at h ⊢
    rw [drainLegacy_cons a.number h hlast, if_pos (Or.inr ⟨hhigh, by simp⟩), ih h.2.2.2 h.2.1]
    split_ifs <;> rfl

theorem drainLegacy_of_not_jams (hjams : ¬ t.Jams a) (hlast : last < topNumber)
    (h : Ordered incarnation (last + 1) (insertEarly a t.buffer)) :
    drainLegacy a.number incarnation last (insertEarly a t.buffer) =
      ⟨[], last, insertEarly a t.buffer⟩ := by
  cases hinsert : insertEarly a t.buffer with
  | nil => rfl
  | cons e es =>
    have hnone : ¬ (e.number = last + 1 ∨ (highest e es = a.number ∧ es ≠ [])) := by
      rintro (hnext | ⟨hhigh, hmore⟩)
      · have hfar := (h.mem (hinsert ▸ List.mem_cons_self ..)).1
        omega
      · exact hjams (jams_of_highest h hinsert hhigh hmore)
    rw [drainLegacy_cons a.number (hinsert ▸ h.mono (Nat.le_succ last)) hlast, if_neg hnone]

/-! ### The step law -/

/-- All that waits before the arrival leaves in ascending order, whatever lies between, and so does the
arrival if it is next in turn then; otherwise it goes on waiting alone. -/
structure ReleasesJam (t : Tracking α) (a : Early α) (earlier : List Nat) (before : Nat)
    (t' : Tracking α) (given : List α) : Prop where
  sort_eq : (t.joined a).sort (· ≤ ·) = earlier ++ [before, a.number]
  given_eq : given.map some =
    (if a.number = before + 1 then earlier ++ [before, a.number] else earlier ++ [before]).map
      (firstCopy (a :: t.buffer))
  after_eq : t' = if a.number = before + 1 then ⟨a.number, t.incarnation, []⟩
    else ⟨before, t.incarnation, [a]⟩

/-- What an arrival does by the legacy rule, by the number it states. -/
structure LegacyStep (t : Tracking α) (a : Early α) (t' : Tracking α) (given : List α) : Prop where
  baseline : t.last = 0 → t' = ⟨a.number, t.incarnation, []⟩ ∧ given = [a.item]
  seen : a.number ≤ t.last → t' = t ∧ given = []
  next : a.number = t.last + 1 → t.ReleasesRun a a.number t' given
  waits : t.last ≠ 0 → t.last + 1 < a.number → ¬ t.Jams a →
    t' = { t with buffer := insertEarly a t.buffer } ∧ given = []
  jams : t.last ≠ 0 → t.last + 1 < a.number → t.Jams a →
    ∃ earlier before, t.ReleasesJam a earlier before t' given

theorem sort_joined (h : Ordered incarnation last (insertEarly a t.buffer)) :
    (t.joined a).sort (· ≤ ·) = (insertEarly a t.buffer).map Early.number := by
  rw [joined, ← numbersOf_insertEarly, numbersOf]
  exact (List.toFinset_sort (· ≤ ·) (h.pairwise.imp ne_of_lt)).mpr (h.pairwise.imp le_of_lt)

theorem releasesJam_drain (hbuffer : Ordered incarnation last t.buffer)
    (h : Ordered incarnation last (insertEarly a t.buffer)) (hlast : last < topNumber)
    (hinsert : insertEarly a t.buffer = es ++ [e, a]) :
    t.ReleasesJam a (es.map Early.number) e.number
      (t.afterDrain (drainLegacy a.number incarnation last (insertEarly a t.buffer)))
      (drainLegacy a.number incarnation last (insertEarly a t.buffer)).released := by
  have hcopies : ∀ x ∈ es ++ [e, a], firstCopy (a :: t.buffer) x.number = some x.item :=
    fun x hx => firstCopy_insertEarly hbuffer (hinsert ▸ hx)
  have hsort := sort_joined h
  rw [hinsert] at h hsort ⊢
  rw [drainLegacy_jam h hlast]
  refine ⟨by simpa using hsort, ?_, ?_⟩
  · by_cases hnext : a.number = e.number + 1
    · rw [if_pos hnext, if_pos hnext, map_item_eq_map_firstCopy hcopies]
      simp
    · have hfront : ∀ x ∈ es ++ [e], firstCopy (a :: t.buffer) x.number = some x.item :=
        fun x hx => hcopies x (by rw [List.append_cons]; exact List.mem_append_left _ hx)
      rw [if_neg hnext, if_neg hnext, map_item_eq_map_firstCopy hfront]
      simp
  · split_ifs <;> rfl

theorem Sound.legacyStep (hs : t.Sound .legacy) (hpos : 0 < number) (htop : number < topNumber)
    (hself : t.incarnation.equals t.incarnation = true) (item : α) :
    LegacyStep t ⟨number, t.incarnation, item⟩ (acceptLegacy t number item).1
      (acceptLegacy t number item).2 := by
  rw [hs.acceptLegacy_eq htop hself]
  refine ⟨fun hzero => ?_, fun hle => ?_, fun hnext => ?_, fun hlast hearly hjams => ?_,
    fun hlast hearly hjams => ?_⟩
  · have hnil := hs.baseline rfl hzero
    by_cases hfar : 1 < number
    · rw [if_pos ⟨hzero, hfar⟩, hnil]
      exact ⟨rfl, rfl⟩
    · have hnext : number = t.last + 1 := by omega
      have hord := hs.ordered_next (a := ⟨number, t.incarnation, item⟩) hnext htop hself
      rw [if_neg (fun h => hfar h.2), hs.stock_next hnext, hnil]
      rw [hnil] at hord
      rw [drainLegacy_cons number hord hs.last_lt, if_pos (Or.inl hnext)]
      exact ⟨rfl, rfl⟩
  · dsimp only at hle
    have hother : ∀ e ∈ t.buffer, e.number ≠ number := by
      intro e he
      have := (hs.waiting.mem he).1
      omega
    rw [if_neg (by omega), stock_of_le hle, drainLegacy_eq_drainTurn hs.ordered hs.last_lt hother,
      drainTurn_of_gap hs.waiting]
    exact ⟨rfl, rfl⟩
  · have hord := hs.ordered_next (a := ⟨number, t.incarnation, item⟩) hnext htop hself
    have hother : ∀ e ∈ t.buffer, e.number ≠ number := fun e he => ne_of_gt (hord.2.2.2.mem he).1
    dsimp only at hnext
    rw [if_neg (by omega), hs.stock_next hnext, drainLegacy_cons number hord hs.last_lt,
      if_pos (Or.inl hnext), drainLegacy_eq_drainTurn hord.2.2.2 htop hother, ← drainTurn_cons hnext]
    exact hs.releasesRun_next hnext hord
  · have hord := hs.ordered_early hearly htop hself item
    rw [if_neg (fun h => hlast h.1), stock_legacy_of_lt (Nat.lt_of_succ_lt hearly),
      drainLegacy_of_not_jams hjams hs.last_lt hord]
    exact ⟨rfl, rfl⟩
  · have hord := hs.ordered_early hearly htop hself item
    obtain ⟨es, e, hinsert⟩ := hjams.exists_front hs.waiting hord
    rw [if_neg (fun h => hlast h.1), stock_legacy_of_lt (Nat.lt_of_succ_lt hearly)]
    exact ⟨_, _, releasesJam_drain hs.ordered (hord.mono (Nat.le_succ _)) hs.last_lt hinsert⟩

end Tracking

namespace Engine

variable {α : Type} {consumer : String} {calls : List (Header × α)} {c : Header × α} {s : Seat}

/-- What a legacy engine does with an arrival, after any calls. The first arrival of an incarnation is
released as its baseline. Afterwards what has been passed changes nothing, what is next leaves with the
run it completes, and what is early joins those that wait, in place of an earlier copy. Only if it is
then the highest of several do the others leave, over all gaps between them, and it leaves behind them
if no gap is left. -/
theorem legacy_steps (htop : ∀ d ∈ calls ++ [c], BelowTop consumer d) (htimed : Timed consumer c)
    (hseat : c.1.seat? consumer = some s) :
    let t := (trackingAfter consumer .legacy s.producer calls).enter s.timestamp
    Tracking.LegacyStep t ⟨s.number, t.incarnation, c⟩
      (trackingAfter consumer .legacy s.producer (calls ++ [c]))
      ((afterCalls consumer .legacy calls).gives c) := by
  intro t
  have hself := (Binary64.equals_self_iff _).mpr (htimed s hseat)
  have hsound := sound_trackingAfter (fun d hd => htop d (List.mem_append_left _ hd)) .legacy s.producer
  have hnumber : s.number < topNumber := htop c (by simp) s hseat
  obtain ⟨hafter, hgiven⟩ := accept_next hseat .legacy calls
  rw [hafter, hgiven, hsound.accept_eq hnumber]
  exact (hsound.enter s.timestamp).legacyStep (Header.number_pos_of_seat hseat) hnumber
    (Binary64.equals_self_left (Tracking.enter_incarnation_equals _ hself)) c

/-- Numbers 8 and 7 wait behind the baseline 5. Number 10 is the highest of the three: 7 and 8 leave,
and 10 waits alone. -/
theorem legacy_steps_jam :
    let calls := [sampleCall 5 "5" 'a', sampleCall 5 "8" 'c', sampleCall 5 "7" 'b']
    let c := sampleCall 5 "10" 'd'
    let t := trackingAfter "C" .legacy "P" calls
    t.ReleasesJam ⟨10, t.incarnation, c⟩ [7] 8 (trackingAfter "C" .legacy "P" (calls ++ [c]))
      ((afterCalls "C" .legacy calls).gives c) := by
  intro calls c t
  have htop : ∀ d ∈ calls ++ [c], BelowTop "C" d := by decide +kernel
  have htimed : Timed "C" c := by decide +kernel
  have hseat : c.1.seat? "C" = some ⟨"P", .ofInt 5, 10⟩ := by decide +kernel
  have hstay : t.enter (.ofInt 5) = t := Tracking.enter_of_equals (by decide +kernel)
  have hstep := legacy_steps htop htimed hseat
  dsimp only at hstep
  rw [hstay] at hstep
  have hjoined : t.joined ⟨10, t.incarnation, c⟩ = [7, 8, 10].toFinset := by decide +kernel
  have hjams : t.Jams ⟨10, t.incarnation, c⟩ := by
    rw [Tracking.Jams, hjoined]
    decide
  obtain ⟨earlier, before, hjam⟩ := hstep.jams (by decide +kernel) (by decide +kernel) hjams
  have hsort := hjam.sort_eq
  rw [hjoined, (List.toFinset_sort (· ≤ ·) (by decide)).mpr (by decide)] at hsort
  have hsplit : [7] ++ [8, 10] = earlier ++ [before, 10] := hsort
  obtain ⟨rfl, hrest⟩ := List.append_inj' hsplit rfl
  obtain rfl := (List.cons.inj hrest).1
  exact hjam

end Engine

end OrderedRelay
