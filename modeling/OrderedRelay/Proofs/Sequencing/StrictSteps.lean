import OrderedRelay.Proofs.Sequencing.Runs
import OrderedRelay.Proofs.Sequencing.Upkeep
import Mathlib.Order.Bounds.Basic

/-!
# What one arrival does, strictly

A strict tracking holds no more early messages than the bound in force, so that an arrival makes the
list at most one too long. Then the drain gives its front up once, the higher bound is in force, and
what is left is within it: of all the skipping the drain could do, one skip and one run remain. In an
epoch this accounts for every gap, as what has arrived is never below what is given up.
-/

namespace OrderedRelay

theorem Policy.bound_le (maxPending resyncAfter last : Nat) :
    Policy.bound maxPending resyncAfter last ≤ maxPending := by
  unfold Policy.bound
  split_ifs <;> omega

theorem Policy.bound_of_ne_zero {maxPending resyncAfter last : Nat} (h : last ≠ 0) :
    Policy.bound maxPending resyncAfter last = maxPending := if_neg h

namespace Tracking

variable {α : Type} {incarnation timestamp : Binary64} {last n number maxPending resyncAfter : Nat}
  {es : List (Early α)} {e a : Early α} {t t' : Tracking α} {given : List α}

/-! ### Strict drains -/

theorem drainStrict_of_pos (h : Ordered incarnation last es) (hlast : last < topNumber)
    (hpos : 0 < last) (hmax : es.length ≤ maxPending) :
    drainStrict maxPending resyncAfter incarnation last es = drainTurn last es := by
  refine drainStrict_inTurn h hlast ?_
  -- Once a number has left, the higher bound is in force.
  rw [Policy.bound_of_ne_zero (by omega)]
  omega

theorem drainStrict_cons_next (h : Ordered incarnation last (e :: es)) (hlast : last < topNumber)
    (he : e.number = last + 1) (hmax : es.length ≤ maxPending) :
    drainStrict maxPending resyncAfter incarnation last (e :: es) = drainTurn last (e :: es) := by
  obtain ⟨-, htop, -, hes⟩ := id h
  rw [drainStrict_cons _ _ h hlast, if_pos (Or.inl he),
    drainStrict_of_pos hes htop (by omega) hmax, drainTurn_cons he]

/-- A list that is one too long is given up to its front, and the rest is within the bounds. -/
theorem drainStrict_overfull (h : Ordered incarnation last (e :: es)) (hlast : last < topNumber)
    (hfull : Policy.bound maxPending resyncAfter last < es.length + 1) (hmax : es.length ≤ maxPending) :
    drainStrict maxPending resyncAfter incarnation last (e :: es) =
      drainTurn (e.number - 1) (e :: es) := by
  obtain ⟨hlt, htop, -, hes⟩ := id h
  have hnumber : e.number = e.number - 1 + 1 := by omega
  rw [drainStrict_cons _ _ h hlast, if_pos (Or.inr hfull),
    drainStrict_of_pos hes htop (by omega) hmax, drainTurn_cons hnumber]

theorem drainStrict_of_gap (h : Ordered incarnation (last + 1) es) (hlast : last < topNumber)
    (hbound : es.length ≤ Policy.bound maxPending resyncAfter last) :
    drainStrict maxPending resyncAfter incarnation last es = ⟨[], last, es⟩ := by
  have hturn : drainStrict maxPending resyncAfter incarnation last es = drainTurn last es := by
    refine drainStrict_inTurn (h.mono (Nat.le_succ last)) hlast ?_
    rw [inTurn_of_gap h]
    simpa using hbound
  rw [hturn, drainTurn_of_gap h]

/-! ### The step law -/

/-- What a strict arrival does by the number it states, when `bound` is in force. -/
structure StrictStep (bound : Nat) (t : Tracking α) (a : Early α) (t' : Tracking α)
    (given : List α) : Prop where
  seen : a.number ≤ t.last ∨ a.number ∈ t.pending → t' = t ∧ given = []
  next : a.number = t.last + 1 → t.ReleasesRun a a.number t' given
  waits : t.last + 1 < a.number → a.number ∉ t.pending → t.pending.length + 1 ≤ bound →
    t' = { t with buffer := insertEarly a t.buffer } ∧ given = []
  overflows : t.last + 1 < a.number → a.number ∉ t.pending → bound < t.pending.length + 1 →
    ∃ lowest, IsLeast (t.joined a : Set Nat) lowest ∧ t.ReleasesRun a lowest t' given

theorem length_insertEarly_of_not_mem (h : a.number ∉ es.map Early.number) :
    (insertEarly a es).length = es.length + 1 := by
  induction es with
  | nil => rfl
  | cons b bs ih =>
    obtain ⟨hb, hbs⟩ := not_or.mp (mt List.mem_cons.mpr h)
    simp only [insertEarly]
    split_ifs
    · rfl
    · rw [List.length_cons, ih hbs, List.length_cons]

theorem Ordered.isLeast_head (h : Ordered incarnation last (e :: es)) :
    IsLeast (numbersOf (e :: es) : Set Nat) e.number := by
  constructor
  · exact mem_numbersOf.mpr (List.mem_cons_self ..)
  · intro n hn
    obtain ⟨b, hb, rfl⟩ := List.mem_map.mp (mem_numbersOf.mp hn)
    rcases List.mem_cons.mp hb with rfl | hb
    · exact le_rfl
    · exact le_of_lt (h.2.2.2.mem hb).1

theorem releasesRun_overfull (hbuffer : Ordered incarnation n t.buffer)
    (hord : Ordered incarnation (last + 1) (insertEarly a t.buffer)) (hlast : last < topNumber)
    (hfull : Policy.bound maxPending resyncAfter last < (insertEarly a t.buffer).length)
    (hmax : (insertEarly a t.buffer).length ≤ maxPending + 1) :
    ∃ lowest, IsLeast (t.joined a : Set Nat) lowest ∧ t.ReleasesRun a lowest
      (t.afterDrain (drainStrict maxPending resyncAfter incarnation last (insertEarly a t.buffer)))
      (drainStrict maxPending resyncAfter incarnation last (insertEarly a t.buffer)).released := by
  cases hinsert : insertEarly a t.buffer with
  | nil => simp [hinsert] at hfull
  | cons e es =>
    rw [hinsert] at hord hfull hmax
    have hnumber : e.number - 1 + 1 = e.number := by
      have := hord.1
      omega
    have hleast : IsLeast (t.joined a : Set Nat) e.number := by
      rw [joined, ← numbersOf_insertEarly, hinsert]
      exact hord.isLeast_head
    have hfront : Ordered incarnation (e.number - 1) (insertEarly a t.buffer) := by
      rw [hinsert]
      exact ⟨by omega, hord.2⟩
    have hrun := releasesRun_afterDrain hbuffer hfront
    rw [hinsert, hnumber] at hrun
    rw [drainStrict_overfull (hord.mono (Nat.le_succ last)) hlast hfull (Nat.le_of_succ_le_succ hmax)]
    exact ⟨e.number, hleast, hrun⟩

theorem Sound.strictStep (hs : t.Sound (.strict maxPending resyncAfter))
    (hbounded : t.buffer.length ≤ Policy.bound maxPending resyncAfter t.last)
    (htop : number < topNumber) (hself : t.incarnation.equals t.incarnation = true) (item : α) :
    StrictStep (Policy.bound maxPending resyncAfter t.last) t ⟨number, t.incarnation, item⟩
      (acceptStrict maxPending resyncAfter t number item).1
      (acceptStrict maxPending resyncAfter t number item).2 := by
  have hmax := le_trans hbounded (Policy.bound_le ..)
  have hlength : t.pending.length = t.buffer.length := List.length_map ..
  rw [hs.acceptStrict_eq htop hself]
  -- In each case what waits then is drained: as before, with the arrival in front, or with it inserted.
  refine ⟨fun hseen => ?_, fun hnext => ?_, fun (hearly : t.last + 1 < number) hnew hfits => ?_,
    fun (hearly : t.last + 1 < number) hnew hfull => ?_⟩
  · have hstock : t.stock (.strict maxPending resyncAfter) ⟨number, t.incarnation, item⟩ =
        t.buffer := by
      rcases hseen with hle | hmem
      · exact stock_of_le hle
      · simp [stock, hmem]
    rw [hstock, drainStrict_of_gap hs.waiting hs.last_lt hbounded]
    exact ⟨afterDrain_self t, rfl⟩
  · have hord := hs.ordered_next (a := ⟨number, t.incarnation, item⟩) hnext htop hself
    rw [hs.stock_next hnext, drainStrict_cons_next hord hs.last_lt hnext hmax]
    exact hs.releasesRun_next hnext hord
  · have hord := hs.ordered_early hearly htop hself item
    have hlong := length_insertEarly_of_not_mem (a := ⟨number, t.incarnation, item⟩) hnew
    rw [stock_strict_of_new (Nat.lt_of_succ_lt hearly) hnew,
      drainStrict_of_gap hord hs.last_lt (by omega)]
    exact ⟨rfl, rfl⟩
  · have hord := hs.ordered_early hearly htop hself item
    have hlong := length_insertEarly_of_not_mem (a := ⟨number, t.incarnation, item⟩) hnew
    rw [stock_strict_of_new (Nat.lt_of_succ_lt hearly) hnew]
    exact releasesRun_overfull hs.ordered hord hs.last_lt (by omega) (by omega)

/-- What a strict step comes to in each of its cases. -/
inductive StrictOutcome (bound : Nat) (t : Tracking α) (a : Early α) (t' : Tracking α)
    (given : List α) : Prop where
  | seen (old : a.number ≤ t.last ∨ a.number ∈ t.pending) (kept : t' = t) (none : given = [])
  | next (next : a.number = t.last + 1) (run : t.ReleasesRun a a.number t' given)
  | waits (early : t.last + 1 < a.number) (new : a.number ∉ t.pending)
      (fits : t.pending.length + 1 ≤ bound)
      (joins : t' = { t with buffer := insertEarly a t.buffer }) (none : given = [])
  | overflows (early : t.last + 1 < a.number) (new : a.number ∉ t.pending)
      (full : bound < t.pending.length + 1) (lowest : Nat)
      (least : IsLeast (t.joined a : Set Nat) lowest) (run : t.ReleasesRun a lowest t' given)

theorem StrictStep.outcome {bound : Nat} (h : StrictStep bound t a t' given) :
    StrictOutcome bound t a t' given := by
  by_cases hold : a.number ≤ t.last ∨ a.number ∈ t.pending
  · exact .seen hold (h.seen hold).1 (h.seen hold).2
  · obtain ⟨hle, hnew⟩ := not_or.mp hold
    by_cases hnext : a.number = t.last + 1
    · exact .next hnext (h.next hnext)
    · have hearly : t.last + 1 < a.number := by omega
      by_cases hfits : t.pending.length + 1 ≤ bound
      · obtain ⟨hjoins, hnone⟩ := h.waits hearly hnew hfits
        exact .waits hearly hnew hfits hjoins hnone
      · obtain ⟨lowest, hleast, hrun⟩ := h.overflows hearly hnew (by omega)
        exact .overflows hearly hnew (by omega) lowest hleast hrun

theorem Sound.length_enter_le {policy : Policy} (hs : t.Sound policy)
    (hbounded : t.Bounded (.strict maxPending resyncAfter)) :
    (t.enter timestamp).buffer.length ≤
      Policy.bound maxPending resyncAfter (t.enter timestamp).last := by
  by_cases hcur : t.incarnation.equals timestamp = true
  · rw [enter_of_equals hcur]
    exact hbounded maxPending resyncAfter rfl
  · rw [hs.enter_of_ne (Bool.eq_false_iff.mpr hcur)]
    exact Nat.zero_le _

theorem Sound.card_joined {policy : Policy} (hs : t.Sound policy) (hnew : a.number ∉ t.pending) :
    (t.joined a).card = t.pending.length + 1 := by
  have hnodup : t.pending.Nodup := hs.waiting.pairwise.imp ne_of_lt
  rw [joined, Finset.card_insert_of_notMem (fun h => hnew (mem_numbersOf.mp h))]
  exact congrArg (· + 1) (List.toFinset_card_of_nodup hnodup)

theorem Sound.strictStep_accept (hs : t.Sound (.strict maxPending resyncAfter))
    (hbounded : t.Bounded (.strict maxPending resyncAfter)) (htop : number < topNumber)
    (hself : timestamp.equals timestamp = true) (item : α) :
    StrictStep (Policy.bound maxPending resyncAfter (t.enter timestamp).last) (t.enter timestamp)
      ⟨number, (t.enter timestamp).incarnation, item⟩
      (Tracking.accept (.strict maxPending resyncAfter) t timestamp number item).1
      (Tracking.accept (.strict maxPending resyncAfter) t timestamp number item).2 := by
  rw [hs.accept_eq htop]
  exact (hs.enter timestamp).strictStep (hs.length_enter_le hbounded) htop
    (Binary64.equals_self_left (enter_incarnation_equals t hself)) item

theorem ReleasesRun.exists_copies {start : Nat} (h : t.ReleasesRun a start t' given) :
    ∃ out : List (Early α), given = out.map Early.item ∧
      out.map Early.number = List.range' start (consecutive start (t.joined a)) ∧
      ∀ x ∈ out, x ∈ a :: t.buffer := exists_of_firstCopy h.given_eq

theorem timestamp_equals_of_enter {other : Binary64}
    (h : (t.enter timestamp).incarnation.equals other = true) : timestamp.equals other = true := by
  by_cases hcur : t.incarnation.equals timestamp = true
  · rw [enter_of_equals hcur] at h
    exact Binary64.equals_trans (Binary64.equals_symm hcur) h
  · simpa [enter, hcur, reset] using h

end Tracking

/-- How often a list of numbers goes on, from a first one, with another number than the next. -/
def jumps (last : Nat) : List Nat → Nat
  | [] => 0
  | n :: ns => (if n = last + 1 then 0 else 1) + jumps n ns

theorem jumps_range'_next (last len : Nat) : jumps last (List.range' (last + 1) len) = 0 := by
  induction len generalizing last with
  | zero => rfl
  | succ len ih => simp [List.range'_succ, jumps, ih]

theorem jumps_range' (last start len : Nat) : jumps last (List.range' start len) ≤ 1 := by
  cases len with
  | zero => exact Nat.zero_le _
  | succ len =>
    rw [List.range'_succ, jumps, jumps_range'_next]
    split_ifs <;> omega

namespace Engine

variable {α : Type} {consumer producer : String} {policy : Policy} {c d : Header × α} {s : Seat}
  {before stretch calls later : List (Header × α)} {maxPending resyncAfter n : Nat}

/-- The bound in force in an epoch, by what has been released in it. -/
def boundIn (consumer : String) (maxPending resyncAfter : Nat) (producer : String)
    (before stretch : List (Header × α)) : Nat :=
  if numbersFrom consumer producer
      (releasesAfter consumer (.strict maxPending resyncAfter) before stretch) = []
  then min resyncAfter maxPending else maxPending

/-- A call gives a number up: it passes the number, which it does not release. -/
structure GivesUp (consumer : String) (policy : Policy) (calls : List (Header × α)) (c : Header × α)
    (s : Seat) (n : Nat) : Prop where
  awaited : ((trackingAfter consumer policy s.producer calls).enter s.timestamp).last < n
  passed : n ≤ (trackingAfter consumer policy s.producer (calls ++ [c])).last
  unreleased : n ∉ numbersFrom consumer s.producer ((afterCalls consumer policy calls).gives c)

/-- A call releases nothing and leaves the tracking of a producer as it is. -/
def Discards (consumer : String) (policy : Policy) (producer : String) (calls : List (Header × α))
    (c : Header × α) : Prop :=
  (afterCalls consumer policy calls).gives c = [] ∧
    trackingAfter consumer policy producer (calls ++ [c]) = trackingAfter consumer policy producer calls

/-! ### One call -/

theorem strictStep_next (maxPending resyncAfter : Nat) (htop : ∀ d ∈ calls, BelowTop consumer d)
    (hc : BelowTop consumer c) (hseat : c.1.seat? consumer = some s)
    (hself : s.timestamp.equals s.timestamp = true) :
    Tracking.StrictStep (Policy.bound maxPending resyncAfter
        ((trackingAfter consumer (.strict maxPending resyncAfter) s.producer calls).enter
          s.timestamp).last)
      ((trackingAfter consumer (.strict maxPending resyncAfter) s.producer calls).enter s.timestamp)
      ⟨s.number, ((trackingAfter consumer (.strict maxPending resyncAfter) s.producer calls).enter
        s.timestamp).incarnation, c⟩
      (trackingAfter consumer (.strict maxPending resyncAfter) s.producer (calls ++ [c]))
      ((afterCalls consumer (.strict maxPending resyncAfter) calls).gives c) := by
  obtain ⟨hafter, hgiven⟩ := accept_next hseat (.strict maxPending resyncAfter) calls
  rw [hafter, hgiven]
  exact (sound_trackingAfter htop (.strict maxPending resyncAfter) s.producer).strictStep_accept
    (bounded_trackingAfter htop (.strict maxPending resyncAfter) s.producer) (hc s hseat)
    hself c

/-! ### Epochs -/

theorem Epoch.equals_of_seat (hepoch : Epoch consumer policy s.producer before stretch)
    (hseat : c.1.seat? consumer = some s) {part : List (Header × α)}
    (htop : ∀ d ∈ before ++ (part ++ [c]), BelowTop consumer d) (hpart : part ++ [c] <+: stretch) :
    s.timestamp.equals
      (trackingAfter consumer policy s.producer (before ++ stretch)).incarnation = true := by
  have hnow := hepoch.steady (part ++ [c]) hpart (by simp)
  have hpast := belowTop_mono htop (List.prefix_append part [c])
  rw [← List.append_assoc, (accept_next hseat policy (before ++ part)).1,
    (sound_trackingAfter hpast policy s.producer).incarnation_accept
      (htop c (by simp) s hseat)] at hnow
  exact Tracking.timestamp_equals_of_enter hnow

/-- What has arrived in an epoch has been passed or waits. -/
theorem Epoch.passed_or_waits (hepoch : Epoch consumer policy producer before (stretch ++ later))
    (htop : ∀ d ∈ before ++ (stretch ++ later), BelowTop consumer d)
    (hn : n ∈ numbersFrom consumer producer stretch) :
    n ≤ ((trackingAfter consumer policy producer (before ++ stretch)).enter
        (trackingAfter consumer policy producer (before ++ (stretch ++ later))).incarnation).last ∨
      n ∈ ((trackingAfter consumer policy producer (before ++ stretch)).enter
        (trackingAfter consumer policy producer (before ++ (stretch ++ later))).incarnation).pending := by
  have hfront := List.prefix_append stretch later
  have hlaw := epochLaw (belowTop_mono htop hfront) hepoch.begins
    fun part hpart => hepoch.steady part (hpart.trans hfront)
  obtain ⟨d, hd, s, hseat, rfl, rfl⟩ := mem_numbersFrom.mp hn
  obtain ⟨part, rest, rfl⟩ := List.append_of_mem hd
  have hpart : part ++ [d] <+: part ++ d :: rest := ⟨rest, by simp⟩
  by_cases hlive :
      ((trackingAfter consumer policy s.producer (before ++ part)).enter s.timestamp).last < s.number
  · rcases hlaw.conserved part d hpart s hseat rfl hlive with hgiven | hwaits
    · exact Or.inl (hlaw.progress.passed _ hgiven)
    · exact Or.inr hwaits
  -- A number that had been passed when it came stays behind.
  · have hpasttop := belowTop_mono htop (((List.prefix_append part [d]).trans hpart).trans hfront)
    have hlike := (sound_trackingAfter hpasttop policy s.producer).enter_like
      (hepoch.equals_of_seat hseat (belowTop_mono htop (hpart.trans hfront)) (hpart.trans hfront))
    have hmono := hlaw.last_mono part ((List.prefix_append part [d]).trans hpart)
    rw [← hlike.1] at hmono
    exact Or.inl (by omega)

theorem boundIn_eq (htop : ∀ d ∈ before ++ stretch ++ [c], BelowTop consumer d)
    (hepoch : Epoch consumer (.strict maxPending resyncAfter) s.producer before (stretch ++ [c]))
    (hseat : c.1.seat? consumer = some s) :
    boundIn consumer maxPending resyncAfter s.producer before stretch =
      Policy.bound maxPending resyncAfter
        ((trackingAfter consumer (.strict maxPending resyncAfter) s.producer
          (before ++ stretch)).enter s.timestamp).last := by
  have hpast : ∀ d ∈ before ++ stretch, BelowTop consumer d :=
    fun d hd => htop d (List.mem_append_left _ hd)
  have hlast := last_in_epoch hpast hepoch.begins
    fun part hpart => hepoch.steady part (hpart.trans (List.prefix_append stretch [c]))
  have hlike := (sound_trackingAfter hpast (.strict maxPending resyncAfter) s.producer).enter_like
    (hepoch.equals_of_seat hseat (by rwa [← List.append_assoc]) List.prefix_rfl)
  have hpos : ∀ n ∈ numbersFrom consumer s.producer
      (releasesAfter consumer (.strict maxPending resyncAfter) before stretch), 0 < n := by
    intro n hn
    obtain ⟨d, -, s, hd, -, rfl⟩ := mem_numbersFrom.mp hn
    exact Header.number_pos_of_seat hd
  rw [hlike.1, hlast]
  simp only [boundIn, Policy.bound, Tracking.getLastD_eq_zero_iff hpos]

theorem numbersFrom_run {start : Nat} (htop : ∀ d ∈ calls, BelowTop consumer d)
    (hseat : c.1.seat? consumer = some s) (hself : s.timestamp.equals s.timestamp = true)
    {t' : Tracking (Header × α)} {given : List (Header × α)}
    (hrun : ((trackingAfter consumer policy s.producer calls).enter s.timestamp).ReleasesRun
      ⟨s.number, ((trackingAfter consumer policy s.producer calls).enter s.timestamp).incarnation, c⟩
      start t' given) :
    numbersFrom consumer s.producer given = List.range' start (consecutive start
      (((trackingAfter consumer policy s.producer calls).enter s.timestamp).joined
        ⟨s.number, ((trackingAfter consumer policy s.producer calls).enter s.timestamp).incarnation,
          c⟩)) := by
  obtain ⟨out, rfl, hnumbers, hheld⟩ := hrun.exists_copies
  obtain ⟨hconsumer, -⟩ := afterCalls_consumer consumer policy calls
  have hfiled := (wellKept_afterCalls policy htop).filed_entered (hconsumer ▸ hseat) hself
  rw [hconsumer] at hfiled
  rw [← hnumbers]
  exact numbersFrom_items fun x hx => hfiled x (hheld x hx)

theorem jumps_gives_le (htop : ∀ d ∈ calls, BelowTop consumer d) (hc : BelowTop consumer c)
    (hseat : c.1.seat? consumer = some s) (hself : s.timestamp.equals s.timestamp = true) :
    jumps ((trackingAfter consumer (.strict maxPending resyncAfter) s.producer calls).enter
        s.timestamp).last
      (numbersFrom consumer s.producer
        ((afterCalls consumer (.strict maxPending resyncAfter) calls).gives c)) ≤ 1 := by
  cases (strictStep_next maxPending resyncAfter htop hc hseat hself).outcome with
  | seen _ _ none => exact none ▸ Nat.zero_le _
  | waits _ _ _ _ none => exact none ▸ Nat.zero_le _
  | next _ run =>
    rw [numbersFrom_run htop hseat hself run]
    exact jumps_range' _ _ _
  | overflows _ _ _ _ _ run =>
    rw [numbersFrom_run htop hseat hself run]
    exact jumps_range' _ _ _

/-- A number that a call gives up is below everything that waits then, which is more than the bound
allows. -/
theorem GivesUp.overfull (htop : ∀ d ∈ calls, BelowTop consumer d) (hc : BelowTop consumer c)
    (hseat : c.1.seat? consumer = some s) (hself : s.timestamp.equals s.timestamp = true)
    (h : GivesUp consumer (.strict maxPending resyncAfter) calls c s n) :
    let t := (trackingAfter consumer (.strict maxPending resyncAfter) s.producer calls).enter
      s.timestamp
    (∀ m ∈ t.joined ⟨s.number, t.incarnation, c⟩, n < m) ∧
      Policy.bound maxPending resyncAfter t.last <
        (t.joined ⟨s.number, t.incarnation, c⟩).card := by
  intro t
  have hsound := (sound_trackingAfter htop (.strict maxPending resyncAfter) s.producer).enter
    s.timestamp
  have hawaited := h.awaited
  have hpassed := h.passed
  have hunreleased := h.unreleased
  cases (strictStep_next maxPending resyncAfter htop hc hseat hself).outcome with
  | seen _ kept _ =>
    rw [kept] at hpassed
    exact absurd hawaited (Nat.not_lt.mpr hpassed)
  | waits _ _ _ joins _ =>
    rw [joins] at hpassed
    exact absurd hawaited (Nat.not_lt.mpr hpassed)
  | next hnext run =>
    have hend := run.last_eq
    rw [numbersFrom_run htop hseat hself run, List.mem_range'_1] at hunreleased
    dsimp only at hend hnext hunreleased
    omega
  | overflows _ hnew hfull lowest least run =>
    have hend := run.last_eq
    rw [numbersFrom_run htop hseat hself run, List.mem_range'_1] at hunreleased
    refine ⟨fun m hm => lt_of_lt_of_le (by omega) (least.2 hm), ?_⟩
    rw [hsound.card_joined hnew]
    exact hfull

/-- What has been passed at some point of an epoch is discarded when it comes later in the epoch. -/
theorem Epoch.discards_passed
    (hepoch : Epoch consumer (.strict maxPending resyncAfter) s.producer before (stretch ++ [d]))
    (htop : ∀ x ∈ before ++ stretch ++ [d], BelowTop consumer x) (hseat : d.1.seat? consumer = some s)
    {part : List (Header × α)} (hpart : part <+: stretch) (hne : part ≠ [])
    (hpassed : s.number ≤
      (trackingAfter consumer (.strict maxPending resyncAfter) s.producer (before ++ part)).last) :
    Discards consumer (.strict maxPending resyncAfter) s.producer (before ++ stretch) d := by
  have hpast : ∀ x ∈ before ++ stretch, BelowTop consumer x :=
    fun x hx => htop x (List.mem_append_left _ hx)
  have hsteady : ∀ q, q <+: stretch → q ≠ [] → _ :=
    fun q hq => hepoch.steady q (hq.trans (List.prefix_append stretch [d]))
  have hts := hepoch.equals_of_seat hseat (by rwa [← List.append_assoc]) List.prefix_rfl
  have hstretch : stretch ≠ [] := fun h => hne (List.prefix_nil.mp (h ▸ hpart))
  -- From `part` on the tracking has stayed in the incarnation, and its last number has not fallen.
  have hmono := (epochLaw hpast hepoch.begins hsteady).last_mono part hpart
  rw [Tracking.enter_of_equals (hsteady part hpart hne),
    Tracking.enter_of_equals (hsteady stretch List.prefix_rfl hstretch)] at hmono
  have hstay : (trackingAfter consumer (.strict maxPending resyncAfter) s.producer
      (before ++ stretch)).enter s.timestamp =
        trackingAfter consumer (.strict maxPending resyncAfter) s.producer (before ++ stretch) :=
    Tracking.enter_of_equals (Binary64.equals_trans (hsteady stretch List.prefix_rfl hstretch)
      (Binary64.equals_symm hts))
  have hstep := strictStep_next maxPending resyncAfter hpast (htop d (by simp)) hseat
    (Binary64.equals_self_left hts)
  rw [hstay] at hstep
  obtain ⟨hkept, hnone⟩ := hstep.seen (Or.inl (le_trans hpassed hmono))
  exact ⟨hnone, hkept⟩

/-- What a strict engine does with an arrival, after any calls. The call falls into an epoch of the
producer, and by the bound in force in it a strict step is made: what has been released or waits is not
taken in again, what is next leaves with the run it completes, and what is early waits or, where too
many wait, makes the lowest run leave. So what the call releases leaves out numbers in one place at
most. A number left out had not arrived in the epoch when more numbers past it than the bound allows
were there, and if it comes later in the epoch, it is discarded. -/
theorem strict_steps_and_gaps (maxPending resyncAfter : Nat)
    (htop : ∀ d ∈ calls ++ [c], BelowTop consumer d) (htimed : Timed consumer c)
    (hseat : c.1.seat? consumer = some s) :
    let policy := Policy.strict maxPending resyncAfter
    let t := (trackingAfter consumer policy s.producer calls).enter s.timestamp
    let a : Early (Header × α) := ⟨s.number, t.incarnation, c⟩
    let given := (afterCalls consumer policy calls).gives c
    (∃ before stretch, calls = before ++ stretch ∧
      Epoch consumer policy s.producer before (stretch ++ [c])) ∧
    ∀ before stretch, calls = before ++ stretch →
      Epoch consumer policy s.producer before (stretch ++ [c]) →
      Tracking.StrictStep (boundIn consumer maxPending resyncAfter s.producer before stretch) t a
        (trackingAfter consumer policy s.producer (calls ++ [c])) given ∧
      jumps t.last (numbersFrom consumer s.producer given) ≤ 1 ∧
      ∀ n, GivesUp consumer policy calls c s n →
        n ∉ numbersFrom consumer s.producer (stretch ++ [c]) ∧
        boundIn consumer maxPending resyncAfter s.producer before stretch <
          ((t.joined a).filter (n < ·)).card ∧
        ∀ later d sd, Epoch consumer policy s.producer before (stretch ++ [c] ++ later ++ [d]) →
          (∀ x ∈ later ++ [d], BelowTop consumer x) → d.1.seat? consumer = some sd →
          sd.producer = s.producer → sd.number = n →
          Discards consumer policy s.producer (calls ++ [c] ++ later) d := by
  intro policy t a given
  have hpast : ∀ d ∈ calls, BelowTop consumer d := fun d hd => htop d (List.mem_append_left _ hd)
  have hc : BelowTop consumer c := htop c (by simp)
  have hself := (Binary64.equals_self_iff _).mpr (htimed s hseat)
  constructor
  · refine exists_epoch_next exists_epoch_of_self ?_
    rw [(accept_next hseat policy calls).1,
      (sound_trackingAfter hpast policy s.producer).incarnation_accept (hc s hseat)]
    exact Binary64.equals_self_left (Tracking.enter_incarnation_equals _ hself)
  rintro before stretch rfl hepoch
  rw [boundIn_eq htop hepoch hseat]
  refine ⟨strictStep_next maxPending resyncAfter hpast hc hseat hself, jumps_gives_le hpast hc hseat hself,
    fun n hgivesUp => ?_⟩
  obtain ⟨hbelow, hfull⟩ := hgivesUp.overfull hpast hc hseat hself
  refine ⟨fun harrived => ?_, ?_, ?_⟩
  -- Whatever has arrived has been passed or waits, and a number given up is below all of that.
  · rw [numbersFrom_append, List.mem_append] at harrived
    rcases harrived with hold | hnew
    · have hlike := (sound_trackingAfter hpast policy s.producer).enter_like
        (hepoch.equals_of_seat hseat (by rwa [← List.append_assoc]) List.prefix_rfl)
      have hheld := hepoch.passed_or_waits (by rwa [← List.append_assoc]) hold
      rw [Tracking.pending, ← hlike.1, ← hlike.2] at hheld
      rcases hheld with hle | hwaits
      · exact absurd hgivesUp.awaited (Nat.not_lt.mpr hle)
      · exact absurd (hbelow n (Tracking.mem_joined.mpr (Or.inr hwaits))) (lt_irrefl n)
    · obtain ⟨d, hd, sd, hsd, -, rfl⟩ := mem_numbersFrom.mp hnew
      obtain rfl := List.mem_singleton.mp hd
      obtain rfl := Option.some.inj (hseat.symm.trans hsd)
      exact absurd (hbelow s.number (Tracking.mem_joined.mpr (Or.inl rfl))) (lt_irrefl _)
  · rwa [Finset.filter_true_of_mem hbelow]
  · rintro later d sd hlater hlatertop hsd hp rfl
    have hend : before ++ stretch ++ [c] ++ later = before ++ (stretch ++ [c] ++ later) := by
      simp only [List.append_assoc]
    have hpassed := hgivesUp.passed
    rw [← hp] at hlater hpassed ⊢
    rw [List.append_assoc before] at hpassed
    rw [hend]
    refine hlater.discards_passed (fun x hx => ?_) hsd (List.prefix_append (stretch ++ [c]) later)
      (by simp) hpassed
    rw [← hend, List.append_assoc _ later, List.mem_append] at hx
    exact hx.elim (htop x) (hlatertop x)

/-- Numbers 5 and 8 of incarnation 6 wait, as many as the bound allows. With number 6 the numbers below
5 are given up; 5 and 6 leave, and number 3 comes too late. -/
theorem strict_steps_and_gaps_overfull :
    let policy := Policy.strict 2 2
    let before := [sampleCall 5 "1" 'x']
    let stretch := [sampleCall 6 "5" 'b', sampleCall 6 "8" 'd']
    let c := sampleCall 6 "6" 'c'
    let t := (trackingAfter "C" policy "P" (before ++ stretch)).enter (.ofInt 6)
    let a : Early (Header × Char) := ⟨6, t.incarnation, c⟩
    (∃ lowest, IsLeast (t.joined a : Set Nat) lowest ∧ t.ReleasesRun a lowest
      (trackingAfter "C" policy "P" (before ++ stretch ++ [c]))
      ((afterCalls "C" policy (before ++ stretch)).gives c)) ∧
    2 < ((t.joined a).filter (3 < ·)).card ∧
    Discards "C" policy "P" (before ++ stretch ++ [c] ++ []) (sampleCall 6 "3" 'z') := by
  intro policy before stretch c t a
  have htop : ∀ d ∈ before ++ stretch ++ [c], BelowTop "C" d := by decide +kernel
  have htimed : Timed "C" c := by decide +kernel
  have hseat : c.1.seat? "C" = some ⟨"P", .ofInt 6, 6⟩ := by decide +kernel
  have hepoch : Epoch "C" policy "P" before (stretch ++ [c]) := by decide +kernel
  have hlater : Epoch "C" policy "P" before (stretch ++ [c] ++ [] ++ [sampleCall 6 "3" 'z']) := by
    decide +kernel
  have hbound : boundIn "C" 2 2 "P" before stretch = 2 := by decide +kernel
  have hgivesUp : GivesUp "C" policy (before ++ stretch) c ⟨"P", .ofInt 6, 6⟩ 3 :=
    ⟨by decide +kernel, by decide +kernel, by decide +kernel⟩
  obtain ⟨-, hlaw⟩ := strict_steps_and_gaps 2 2 htop htimed hseat
  obtain ⟨hstep, -, hgaps⟩ := hlaw before stretch rfl hepoch
  obtain ⟨-, hfull, hlate⟩ := hgaps 3 hgivesUp
  rw [hbound] at hstep hfull
  exact ⟨hstep.overflows (by decide +kernel) (by decide +kernel) (by decide +kernel), hfull,
    hlate [] (sampleCall 6 "3" 'z') ⟨"P", .ofInt 6, 3⟩ hlater (by decide +kernel)
      (by decide +kernel) rfl rfl⟩

end Engine

end OrderedRelay
