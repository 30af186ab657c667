import OrderedRelay.Proofs.Message.Envelope
import OrderedRelay.Proofs.Sequencing.Epoch
import OrderedRelay.Proofs.Sequencing.Placing

/-!
# What every tracking keeps up

After any calls the tracking of a producer stands in its current epoch: the last number it has passed is
the last one that the epoch has released. From this and the law of acceptance follow the bounds on what
waits, before the first release of an epoch and after it.
-/

namespace OrderedRelay

variable {α : Type}

/-! ### Timestamps -/

namespace Header

variable {h : Header} {consumer : String} {s : Seat} {timestamp : Binary64}

theorem timestamp?_of_seat (hseat : h.seat? consumer = some s) :
    h.timestamp? = some s.timestamp := by
  obtain ⟨consumers, raw, -, hplace, -⟩ := placement_of_seat hseat
  unfold placement at hplace
  split_ifs at hplace
  cases htime : h.timestamp? with
  | none => simp [htime] at hplace
  | some t =>
    rw [htime] at hplace
    rw [(Placement.numbered.inj hplace).2.1]

theorem number_pos_of_seat (hseat : h.seat? consumer = some s) : 0 < s.number := by
  obtain ⟨-, -, -, -, -, -, -, hpos⟩ := placement_of_seat hseat
  exact Nat.pos_of_ne_zero hpos

theorem isNaN_of_timestamp? (hh : h.WellFormed) (htime : h.timestamp? = some timestamp) :
    timestamp.isNaN = false := by
  obtain ⟨value, hget, hnumber⟩ := Option.bind_eq_some_iff.mp htime
  have hvalue := Json.wellFormedFields_iff.mp hh.2 _ (Table.mem_of_get? hget)
  cases value with
  | integer i =>
    obtain rfl := Option.some.inj hnumber
    exact Binary64.isNaN_ofRatio _ _ _
  | real x =>
    obtain rfl := Option.some.inj hnumber
    exact (Binary64.equals_self_iff x).mp (Binary64.equals_self_of_isFinite hvalue)
  | _ => cases hnumber

end Header

namespace Tracking

variable {t : Tracking α} {policy : Policy} {arrivals : List (Arrival α)}

/-! ### One tracking -/

theorem Sound.incarnation_accept (hs : t.Sound policy) {number : Nat} (htop : number < topNumber)
    (timestamp : Binary64) (item : α) :
    (Tracking.accept policy t timestamp number item).1.incarnation = (t.enter timestamp).incarnation := by
  rw [hs.accept_eq htop]
  cases policy with
  | strict maxPending resyncAfter =>
    show (acceptStrict maxPending resyncAfter (t.enter timestamp) number item).1.incarnation = _
    simp only [acceptStrict_def]
    split_ifs <;> rfl
  | legacy =>
    show (acceptLegacy (t.enter timestamp) number item).1.incarnation = _
    simp only [acceptLegacy_def]
    split_ifs <;> rfl

theorem incarnation_acceptAll (hself : t.incarnation.equals t.incarnation = true)
    (hs : t.Sound policy) (htop : ∀ a ∈ arrivals, a.number < topNumber)
    (htimed : ∀ a ∈ arrivals, a.timestamp.equals a.timestamp = true) :
    (t.acceptAll policy arrivals).1.incarnation.equals
      (t.acceptAll policy arrivals).1.incarnation = true := by
  induction arrivals generalizing t with
  | nil => exact hself
  | cons a rest ih =>
    have ha := htop a (List.mem_cons_self ..)
    have hentered := enter_incarnation_equals t (htimed a (List.mem_cons_self ..))
    rw [← hs.incarnation_accept ha a.timestamp a.item] at hentered
    exact ih (Binary64.equals_self_left hentered) (hs.accept ha)
      (fun b hb => htop b (List.mem_cons_of_mem a hb)) fun b hb => htimed b (List.mem_cons_of_mem a hb)

/-- Strictly, no more messages wait than the bound in force allows. -/
def Bounded (policy : Policy) (t : Tracking α) : Prop :=
  ∀ maxPending resyncAfter, policy = .strict maxPending resyncAfter →
    t.buffer.length ≤ Policy.bound maxPending resyncAfter t.last

theorem length_drainStrict_le (maxPending resyncAfter : Nat) (incarnation : Binary64) (last : Nat)
    (es : List (Early α)) :
    (drainStrict maxPending resyncAfter incarnation last es).buffer.length ≤
      Policy.bound maxPending resyncAfter
        (drainStrict maxPending resyncAfter incarnation last es).last := by
  induction es generalizing last with
  | nil => exact Nat.zero_le _
  | cons e es ih =>
    simp only [drainStrict_eq]
    split_ifs with hdropped hleaves
    · exact ih last
    · exact ih e.number
    · simp only [List.length_cons]
      omega

theorem bounded_fresh (policy : Policy) : ({} : Tracking α).Bounded policy :=
  fun _ _ _ => Nat.zero_le _

theorem Sound.bounded_accept (hs : t.Sound policy) {number : Nat} (htop : number < topNumber)
    (timestamp : Binary64) (item : α) : (Tracking.accept policy t timestamp number item).1.Bounded policy := by
  rintro maxPending resyncAfter rfl
  rw [hs.accept_eq htop]
  show (acceptStrict maxPending resyncAfter (t.enter timestamp) number item).1.buffer.length ≤
    Policy.bound maxPending resyncAfter
      (acceptStrict maxPending resyncAfter (t.enter timestamp) number item).1.last
  rw [acceptStrict_eq_drained]
  exact length_drainStrict_le maxPending resyncAfter _ _ _

theorem bounded_acceptAll (htop : ∀ a ∈ arrivals, a.number < topNumber) (hs : t.Sound policy)
    (h : t.Bounded policy) : (t.acceptAll policy arrivals).1.Bounded policy := by
  induction arrivals generalizing t with
  | nil => exact h
  | cons a rest ih =>
    have ha := htop a (List.mem_cons_self ..)
    exact ih (fun b hb => htop b (List.mem_cons_of_mem a hb)) (hs.accept ha)
      (hs.bounded_accept ha a.timestamp a.item)

/-- What a tracking keeps up by a policy, when its epoch has released the numbers `given`. -/
structure Consistent (policy : Policy) (t : Tracking α) (given : List Nat) : Prop where
  current : ∀ x ∈ t.buffer, x.timestamp.equals t.incarnation = true
  early : ∀ n ∈ t.pending, t.nextExpected < n
  unstarted : t.nextExpected = 1 ↔ given = []
  bounded : ∀ maxPending resyncAfter, policy = .strict maxPending resyncAfter →
    t.buffer.length ≤ if given = [] then min resyncAfter maxPending else maxPending
  baseline : policy = .legacy → given = [] → t.buffer = []

theorem getLastD_eq_zero_iff {given : List Nat} (hpos : ∀ n ∈ given, 0 < n) :
    given.getLastD 0 = 0 ↔ given = [] := by
  constructor
  · intro h
    by_contra hne
    have hmem := List.getLast_mem hne
    rw [List.getLastD_eq_getLast?, List.getLast?_eq_some_getLast hne, Option.getD_some] at h
    have := hpos _ hmem
    omega
  · rintro rfl
    rfl

theorem Sound.consistent {given : List Nat} (hs : t.Sound policy) (hbounded : t.Bounded policy)
    (hlast : t.last = given.getLastD 0) (hpos : ∀ n ∈ given, 0 < n) : t.Consistent policy given := by
  have hzero : t.last = 0 ↔ given = [] := hlast ▸ getLastD_eq_zero_iff hpos
  refine ⟨fun x hx => (hs.waiting.mem hx).2.2, fun n hn => ?_, ?_, fun maxPending resyncAfter hp => ?_,
    fun hp hnone => hs.baseline hp (hzero.mpr hnone)⟩
  · rw [hs.nextExpected_eq]
    exact hs.lt_of_mem_pending hn
  · rw [hs.nextExpected_eq, ← hzero]
    omega
  · simp only [← hzero]
    exact hbounded maxPending resyncAfter hp

theorem lastOf_eq_getLastD (last : Nat) (out : List (Early α)) :
    lastOf last out = (out.map Early.number).getLastD last := by
  induction out generalizing last with
  | nil => rfl
  | cons e es ih => rw [lastOf_cons, ih, List.map_cons, List.getLastD_cons]

end Tracking

namespace Engine

variable {e : Engine (Header × α)} {consumer producer : String} {policy : Policy} {c : Header × α}
  {before stretch calls : List (Header × α)} {timestamp : Binary64} {s : Seat}

/-! ### Epochs -/

/-- The timestamp of a seat is a number; a well-formed header has no other. -/
def Timed (consumer : String) (c : Header × α) : Prop :=
  ∀ s, c.1.seat? consumer = some s → s.timestamp.isNaN = false

instance (consumer : String) (c : Header × α) : Decidable (Timed consumer c) :=
  inferInstanceAs (Decidable (∀ s ∈ c.1.seat? consumer, s.timestamp.isNaN = false))

theorem timed_of_wellFormed (h : c.1.WellFormed) (consumer : String) : Timed consumer c :=
  fun _ hs => Header.isNaN_of_timestamp? h (Header.timestamp?_of_seat hs)

theorem trackingAfter_eq (consumer : String) (policy : Policy) (producer : String)
    (calls : List (Header × α)) : trackingAfter consumer policy producer calls =
      (Tracking.acceptAll policy {} (arrivalsOf consumer producer (traced calls))).1 :=
  tracking_run (fresh consumer policy) (traced calls) producer

theorem trackingAfter_append (consumer : String) (policy : Policy) (producer : String)
    (calls : List (Header × α)) (c : Header × α) :
    trackingAfter consumer policy producer (calls ++ [c]) =
      ((afterCalls consumer policy calls).check c.1 c).1.tracking producer := by
  rw [trackingAfter, afterCalls_append]

theorem numbers_lt_top (htop : ∀ c ∈ calls, BelowTop consumer c) (producer : String) :
    ∀ a ∈ arrivalsOf consumer producer (traced calls), a.number < topNumber := by
  intro a ha
  obtain ⟨d, hd, s, hs, -, rfl⟩ := mem_arrivalsOf.mp ha
  obtain ⟨c, hc, rfl⟩ := List.mem_map.mp hd
  exact htop c hc s hs

theorem bounded_trackingAfter (htop : ∀ c ∈ calls, BelowTop consumer c) (policy : Policy)
    (producer : String) : (trackingAfter consumer policy producer calls).Bounded policy := by
  rw [trackingAfter_eq]
  exact Tracking.bounded_acceptAll (numbers_lt_top htop producer) (Tracking.sound_fresh policy)
    (Tracking.bounded_fresh policy)

theorem incarnation_trackingAfter (htop : ∀ c ∈ calls, BelowTop consumer c)
    (htimed : ∀ c ∈ calls, Timed consumer c) (policy : Policy) (producer : String) :
    (trackingAfter consumer policy producer calls).incarnation.equals
      (trackingAfter consumer policy producer calls).incarnation = true := by
  rw [trackingAfter_eq]
  apply Tracking.incarnation_acceptAll
  · exact Binary64.equals_zero
  · exact Tracking.sound_fresh policy
  · exact numbers_lt_top htop producer
  · intro a ha
    obtain ⟨d, hd, s, hs, -, rfl⟩ := mem_arrivalsOf.mp ha
    obtain ⟨c, hc, rfl⟩ := List.mem_map.mp hd
    exact (Binary64.equals_self_iff _).mpr (htimed c hc s hs)

theorem Epoch.concat (hepoch : Epoch consumer policy producer before stretch)
    (hsame : (trackingAfter consumer policy producer (before ++ stretch)).incarnation.equals
      (trackingAfter consumer policy producer (before ++ stretch ++ [c])).incarnation = true) :
    Epoch consumer policy producer before (stretch ++ [c]) := by
  refine ⟨?_, fun part hpart hne => ?_⟩
  · rw [← List.append_assoc]
    exact hepoch.begins.imp_right fun hother =>
      (Binary64.equals_congr_right _ (Binary64.equals_symm hsame)).trans hother
  · rw [← List.append_assoc]
    rcases List.prefix_concat_iff.mp hpart with rfl | hpart
    · rw [← List.append_assoc]
      exact Binary64.equals_self_right hsame
    · exact Binary64.equals_trans (hepoch.steady part hpart hne) hsame

theorem epoch_singleton
    (hself : (trackingAfter consumer policy producer (before ++ [c])).incarnation.equals
      (trackingAfter consumer policy producer (before ++ [c])).incarnation = true)
    (hother : (trackingAfter consumer policy producer before).incarnation.equals
      (trackingAfter consumer policy producer (before ++ [c])).incarnation = false) :
    Epoch consumer policy producer before [c] := by
  refine ⟨Or.inr hother, fun part hpart hne => ?_⟩
  rcases List.prefix_concat_iff.mp (show part <+: [] ++ [c] from hpart) with rfl | hpart
  · exact hself
  · exact absurd (List.prefix_nil.mp hpart) hne

/-- A call stays in the epoch in which the calls before it end, or it begins another one. -/
theorem exists_epoch_next
    (hbefore : (trackingAfter consumer policy producer calls).incarnation.equals
        (trackingAfter consumer policy producer calls).incarnation = true →
      ∃ before stretch, calls = before ++ stretch ∧ Epoch consumer policy producer before stretch)
    (hself : (trackingAfter consumer policy producer (calls ++ [c])).incarnation.equals
      (trackingAfter consumer policy producer (calls ++ [c])).incarnation = true) :
    ∃ before stretch, calls = before ++ stretch ∧
      Epoch consumer policy producer before (stretch ++ [c]) := by
  by_cases hsame : (trackingAfter consumer policy producer calls).incarnation.equals
      (trackingAfter consumer policy producer (calls ++ [c])).incarnation = true
  · obtain ⟨before, stretch, rfl, hepoch⟩ := hbefore (Binary64.equals_self_left hsame)
    exact ⟨before, stretch, rfl, hepoch.concat hsame⟩
  · exact ⟨calls, [], (List.append_nil _).symm, epoch_singleton hself (Bool.eq_false_iff.mpr hsame)⟩

/-- Calls end in an epoch of a producer if the incarnation then tracked is a number. -/
theorem exists_epoch_of_self (hself : (trackingAfter consumer policy producer calls).incarnation.equals
    (trackingAfter consumer policy producer calls).incarnation = true) :
    ∃ before stretch, calls = before ++ stretch ∧ Epoch consumer policy producer before stretch := by
  induction calls using List.reverseRecOn with
  | nil => exact ⟨[], [], rfl, Or.inl rfl, fun part hpart hne => absurd (List.prefix_nil.mp hpart) hne⟩
  | append_singleton past c ih =>
    obtain ⟨before, stretch, rfl, hepoch⟩ := exists_epoch_next ih hself
    exact ⟨before, stretch ++ [c], List.append_assoc .., hepoch⟩

theorem exists_epoch (htop : ∀ c ∈ calls, BelowTop consumer c)
    (htimed : ∀ c ∈ calls, Timed consumer c) (policy : Policy) (producer : String) :
    ∃ before stretch, calls = before ++ stretch ∧ Epoch consumer policy producer before stretch :=
  exists_epoch_of_self (incarnation_trackingAfter htop htimed policy producer)

/-- A call that stays in the incarnation passes what it releases of the producer's, and no more. -/
theorem WellKept.last_check (hkept : e.WellKept) (htop : BelowTop e.consumer c)
    (hsteady : ((e.check c.1 c).1.tracking producer).incarnation.equals timestamp = true) :
    (((e.check c.1 c).1.tracking producer).enter timestamp).last =
      (numbersFrom e.consumer producer (e.gives c)).getLastD
        ((e.tracking producer).enter timestamp).last := by
  cases hkept.bearing htop producer with
  | aside _ kept none =>
    rw [kept, none]
    rfl
  -- The incarnation left by such a call does not even equal itself.
  | untimed s seat own unequal n below restarted =>
    rw [restarted] at hsteady
    rw [Binary64.equals_self_left hsteady] at unequal
    cases unequal
  | accepted s seat own timed out filed law =>
    have hgiven : numbersFrom e.consumer producer (e.gives c) = out.map Early.number := by
      rw [law.released_eq]
      exact numbersFrom_items fun x hx => filed x (List.mem_append_left _ hx)
    rw [law.incarnation_eq] at hsteady
    have hcur := Tracking.enter_incarnation_equals (e.tracking producer) timed
    have hts := Binary64.equals_trans (Binary64.equals_symm hcur) hsteady
    rw [Tracking.enter_of_equals (law.incarnation_eq ▸ hsteady), law.last_eq, hgiven,
      ← ((hkept.sound producer).enter_like hts).1]
    exact Tracking.lastOf_eq_getLastD _ out

/-- The last number passed in an epoch is the last one that the epoch has released. -/
theorem last_in_epoch (htop : ∀ c ∈ before ++ stretch, BelowTop consumer c)
    (hbegins : before = [] ∨ (trackingAfter consumer policy producer before).incarnation.equals
      timestamp = false)
    (hsteady : ∀ part, part <+: stretch → part ≠ [] →
      (trackingAfter consumer policy producer (before ++ part)).incarnation.equals timestamp =
        true) :
    ((trackingAfter consumer policy producer (before ++ stretch)).enter timestamp).last =
      (numbersFrom consumer producer (releasesAfter consumer policy before stretch)).getLastD 0 := by
  induction stretch using List.reverseRecOn with
  | nil =>
    rw [List.append_nil] at htop ⊢
    exact (enter_of_begins htop hbegins).1
  | append_singleton past c ih =>
    have hpasttop := belowTop_mono htop (List.prefix_append past [c])
    have hpast := ih hpasttop fun part hpart => hsteady part (hpart.trans (List.prefix_append past [c]))
    have hnow := hsteady (past ++ [c]) List.prefix_rfl (by simp)
    have hconsumer := (afterCalls_consumer consumer policy (before ++ past)).1
    have hc : BelowTop (afterCalls consumer policy (before ++ past)).consumer c := by
      rw [hconsumer]
      exact htop c (by simp)
    rw [← List.append_assoc, trackingAfter_append] at hnow ⊢
    -- A call that releases nothing of the producer's leaves the last number where it was.
    have hlast := (wellKept_afterCalls policy hpasttop).last_check hc hnow
    change _ = List.getLastD _ ((trackingAfter consumer policy producer (before ++ past)).enter
      timestamp).last at hlast
    rw [hlast, hpast, hconsumer, releasesAfter_append, numbersFrom_append]
    simp only [List.getLastD_eq_getLast?, List.getLast?_append, Option.getD_or]

theorem consistent_in_epoch (htop : ∀ c ∈ before ++ stretch, BelowTop consumer c)
    (htimed : ∀ c ∈ before ++ stretch, Timed consumer c)
    (hepoch : Epoch consumer policy producer before stretch) :
    (trackingAfter consumer policy producer (before ++ stretch)).Consistent policy
      (numbersFrom consumer producer (releasesAfter consumer policy before stretch)) := by
  have hlast := last_in_epoch htop hepoch.begins hepoch.steady
  rw [Tracking.enter_of_equals (incarnation_trackingAfter htop htimed policy producer)] at hlast
  refine (sound_trackingAfter htop policy producer).consistent
    (bounded_trackingAfter htop policy producer) hlast fun n hn => ?_
  obtain ⟨c, -, s, hseat, -, rfl⟩ := mem_numbersFrom.mp hn
  exact Header.number_pos_of_seat hseat

/-- A call that is seated is accepted by the tracking of its producer. -/
theorem accept_next (hseat : c.1.seat? consumer = some s) (policy : Policy)
    (calls : List (Header × α)) :
    trackingAfter consumer policy s.producer (calls ++ [c]) =
        ((trackingAfter consumer policy s.producer calls).accept policy s.timestamp s.number c).1 ∧
      (afterCalls consumer policy calls).gives c =
        ((trackingAfter consumer policy s.producer calls).accept policy s.timestamp s.number c).2 := by
  obtain ⟨hconsumer, hpolicy⟩ := afterCalls_consumer consumer policy calls
  have hhere : c.1.seat? (afterCalls consumer policy calls).consumer = some s := by rw [hconsumer, hseat]
  rw [trackingAfter_append, tracking_of_seat hhere, if_pos rfl, gives_of_seat hhere, hpolicy]
  exact ⟨rfl, rfl⟩

theorem settles_next (htop : ∀ c ∈ calls, BelowTop consumer c) (policy : Policy)
    (hseat : c.1.seat? consumer = some s) (hc : BelowTop consumer c) (htimed : Timed consumer c) :
    Tracking.Settles policy
      ((trackingAfter consumer policy s.producer calls).enter s.timestamp) s.number c
      (trackingAfter consumer policy s.producer (calls ++ [c]))
      ((afterCalls consumer policy calls).gives c) := by
  obtain ⟨hafter, hgiven⟩ := accept_next hseat policy calls
  rw [hafter, hgiven]
  exact (sound_trackingAfter htop policy s.producer).settles (hc s hseat)
    ((Binary64.equals_self_iff _).mpr (htimed s hseat)) c

/-- What every tracking keeps up, after any calls on headers of any shape; that timestamps are numbers
is part of a header's well-formedness. The calls end in an epoch of the producer, and by what the epoch
has released: all that waits belongs to its incarnation and is numbered past the next number, the next
number is 1 just while nothing has been released, and what waits stays within the bounds of the policy.
The next call of the producer is settled by placing it and draining all that waits, where the drain
never drops a message. -/
theorem tracking_keeps_up (htop : ∀ c ∈ calls, BelowTop consumer c)
    (htimed : ∀ c ∈ calls, Timed consumer c) (policy : Policy) (producer : String) :
    (∃ before stretch, calls = before ++ stretch ∧
      Epoch consumer policy producer before stretch) ∧
    (∀ before stretch, calls = before ++ stretch → Epoch consumer policy producer before stretch →
      (trackingAfter consumer policy producer calls).Consistent policy
        (numbersFrom consumer producer (releasesAfter consumer policy before stretch))) ∧
    (∀ x ∈ (trackingAfter consumer policy producer calls).buffer, Filed consumer producer x) ∧
    ∀ c s, c.1.seat? consumer = some s → s.producer = producer → BelowTop consumer c →
      Timed consumer c → Tracking.Settles policy
        ((trackingAfter consumer policy producer calls).enter s.timestamp) s.number c
        (trackingAfter consumer policy producer (calls ++ [c]))
        ((afterCalls consumer policy calls).gives c) := by
  refine ⟨exists_epoch htop htimed policy producer, ?_, ?_, ?_⟩
  · rintro before stretch rfl hepoch
    exact consistent_in_epoch htop htimed hepoch
  · have hfiled := (wellKept_afterCalls policy htop).filed producer
    rwa [(afterCalls_consumer consumer policy calls).1] at hfiled
  · rintro c s hseat rfl hc htimed
    exact settles_next htop policy hseat hc htimed

/-- Numbers 3 and 4 of incarnation 6 wait, as many as the bound allows while nothing has been released.
Number 5 gives the gap up, and all three are released. -/
theorem tracking_keeps_up_sample :
    let before := [sampleCall 5 "1" 'x', sampleCall 5 "3" 'y']
    let stretch := [sampleCall 6 "4" 'b', sampleCall 6 "3" 'a']
    let t := trackingAfter "C" (.strict 8 2) "P" (before ++ stretch)
    t.pending = [3, 4] ∧ t.nextExpected = 1 ∧ t.buffer.length ≤ min 2 8 ∧
      ((afterCalls "C" (.strict 8 2) (before ++ stretch)).gives (sampleCall 6 "5" 'c')).map Prod.snd =
        ['a', 'b', 'c'] := by
  intro before stretch t
  have htop : ∀ c ∈ before ++ stretch, BelowTop "C" c := by decide +kernel
  have htimed : ∀ c ∈ before ++ stretch, Timed "C" c := by decide +kernel
  have hepoch : Epoch "C" (.strict 8 2) "P" before stretch := by decide +kernel
  have hnone : numbersFrom "C" "P" (releasesAfter "C" (.strict 8 2) before stretch) = [] := by
    decide +kernel
  obtain ⟨-, hkept, -, hnext⟩ := tracking_keeps_up htop htimed (.strict 8 2) "P"
  have hconsistent := hkept before stretch rfl hepoch
  rw [hnone] at hconsistent
  have hsettled := hnext (sampleCall 6 "5" 'c') ⟨"P", .ofInt 6, 5⟩ (by decide +kernel) rfl
    (by decide +kernel) (by decide +kernel)
  refine ⟨by decide +kernel, hconsistent.unstarted.mpr rfl, hconsistent.bounded 8 2 rfl, ?_⟩
  rw [hsettled.given_eq]
  decide +kernel

end Engine

end OrderedRelay
