import OrderedRelay.Proofs.Sequencing.Arrivals

/-!
# Epochs of a producer

The items of a run are taken to be the calls themselves, so that what is released tells where it came
from. What waits is then filed under the producer and the number that its own header states, and one
call either leaves the tracking of a producer alone or accepts by the law. An epoch is a stretch of
calls with one incarnation of the producer: in it numbers are released in ascending order, all of them
arrived in it, and an arrival that was not passed before is never dropped.
-/

namespace OrderedRelay.Engine

variable {α : Type} {e : Engine (Header × α)} {consumer producer : String} {policy : Policy}
  {c x : Header × α} {s : Seat} {before stretch earlier : List (Header × α)}
  {timestamp : Binary64}

/-- Calls whose items are the calls themselves. -/
def traced (calls : List (Header × α)) : List (Header × (Header × α)) := calls.map fun c => (c.1, c)

/-- What one traced call releases. -/
def gives (e : Engine (Header × α)) (c : Header × α) : List (Header × α) :=
  released (e.check c.1 c).2

/-- The numbers that the headers of a producer's messages state. -/
def numbersFrom (consumer producer : String) (items : List (Header × α)) : List Nat :=
  (arrivalsOf consumer producer items).map Early.number

theorem mem_numbersFrom {items : List (Header × α)} {n : Nat} :
    n ∈ numbersFrom consumer producer items ↔
      ∃ c ∈ items, ∃ s, c.1.seat? consumer = some s ∧ s.producer = producer ∧ s.number = n := by
  constructor
  · intro hn
    obtain ⟨a, ha, rfl⟩ := List.mem_map.mp hn
    obtain ⟨c, hc, s, hs, hp, rfl⟩ := mem_arrivalsOf.mp ha
    exact ⟨c, hc, s, hs, hp, rfl⟩
  · rintro ⟨c, hc, s, hs, hp, rfl⟩
    exact List.mem_map.mpr ⟨_, mem_arrivalsOf.mpr ⟨c, hc, s, hs, hp, rfl⟩, rfl⟩

theorem numbersFrom_append (consumer producer : String) (xs ys : List (Header × α)) :
    numbersFrom consumer producer (xs ++ ys) =
      numbersFrom consumer producer xs ++ numbersFrom consumer producer ys := by
  simp [numbersFrom, arrivalsOf_append]

theorem numbersFrom_eq_nil {items : List (Header × α)}
    (h : ∀ c ∈ items, ∀ s, c.1.seat? consumer = some s → s.producer ≠ producer) :
    numbersFrom consumer producer items = [] := by
  rw [List.eq_nil_iff_forall_not_mem]
  intro n hn
  obtain ⟨c, hc, s, hs, hp, -⟩ := mem_numbersFrom.mp hn
  exact h c hc s hs hp

/-! ### What waits is filed by its header -/

/-- A message is kept for the producer, the incarnation and the number that its header states. -/
def Filed (consumer producer : String) (x : Early (Header × α)) : Prop :=
  ∃ s, x.item.1.seat? consumer = some s ∧ s.producer = producer ∧ s.number = x.number ∧
    s.timestamp.equals x.timestamp = true

/-- All trackings of an engine are sound, and what they keep is filed. -/
structure WellKept (e : Engine (Header × α)) : Prop where
  sound : ∀ producer, (e.tracking producer).Sound e.policy
  filed : ∀ producer, ∀ x ∈ (e.tracking producer).buffer, Filed e.consumer producer x

theorem wellKept_fresh (consumer : String) (policy : Policy) :
    WellKept (fresh consumer policy : Engine (Header × α)) :=
  ⟨fun _ => Tracking.sound_fresh policy, fun _ => nofun⟩

/-- What waits once a call's timestamp has been entered is filed, and the call with it. -/
theorem WellKept.filed_entered (h : e.WellKept) (hseat : c.1.seat? e.consumer = some s)
    (hts : s.timestamp.equals s.timestamp = true) :
    ∀ x ∈ (⟨s.number, ((e.tracking s.producer).enter s.timestamp).incarnation, c⟩ :
        Early (Header × α)) :: ((e.tracking s.producer).enter s.timestamp).buffer,
      Filed e.consumer s.producer x := by
  intro x hx
  have hsound := h.sound s.producer
  rcases List.mem_cons.mp hx with rfl | hx
  · have hcur := Tracking.enter_incarnation_equals (e.tracking s.producer) hts
    exact ⟨s, hseat, rfl, rfl, Binary64.equals_symm hcur⟩
  · by_cases heq : (e.tracking s.producer).incarnation.equals s.timestamp = true
    · rw [Tracking.enter_of_equals heq] at hx
      exact h.filed s.producer x hx
    · rw [hsound.enter_of_ne (Bool.eq_false_iff.mpr heq)] at hx
      cases hx

theorem WellKept.filed_stock (h : e.WellKept) (hseat : c.1.seat? e.consumer = some s)
    (hts : s.timestamp.equals s.timestamp = true) :
    ∀ x ∈ ((e.tracking s.producer).enter s.timestamp).stock e.policy
        ⟨s.number, ((e.tracking s.producer).enter s.timestamp).incarnation, c⟩,
      Filed e.consumer s.producer x := by
  intro x hx
  have hheld := Tracking.mem_stock ((h.sound s.producer).enter s.timestamp) hx
  exact h.filed_entered hseat hts x (List.mem_cons.mpr hheld)

theorem numbersFrom_items {out : List (Early (Header × α))}
    (h : ∀ x ∈ out, Filed consumer producer x) :
    numbersFrom consumer producer (out.map Early.item) = out.map Early.number := by
  induction out with
  | nil => rfl
  | cons x rest ih =>
    obtain ⟨s, hs, hp, hn, -⟩ := h x (List.mem_cons_self ..)
    have hrest := ih fun y hy => h y (List.mem_cons_of_mem x hy)
    have hone : numbersFrom consumer producer [x.item] = [x.number] := by
      simp [numbersFrom, arrivalsOf, hs, hp, hn]
    show numbersFrom consumer producer ([x.item] ++ rest.map Early.item) = _
    rw [numbersFrom_append, hone, hrest]
    rfl

/-! ### One call -/

/-- Every number that a header states for the consumer has a successor. -/
def BelowTop (consumer : String) (c : Header × α) : Prop :=
  ∀ s, c.1.seat? consumer = some s → s.number < topNumber

instance (consumer : String) (c : Header × α) : Decidable (BelowTop consumer c) :=
  inferInstanceAs (Decidable (∀ s ∈ c.1.seat? consumer, s.number < topNumber))

/-- How one call bears on a producer. -/
inductive Bearing (e : Engine (Header × α)) (c : Header × α) (producer : String) : Prop where
  /-- It is not the producer's: the tracking stays, and no message of the producer is released. -/
  | aside (other : ∀ s, c.1.seat? e.consumer = some s → s.producer ≠ producer)
      (kept : (e.check c.1 c).1.tracking producer = e.tracking producer)
      (none : numbersFrom e.consumer producer (e.gives c) = [])
  /-- Its timestamp is no number: nothing waits afterwards. -/
  | untimed (s : Seat) (seat : c.1.seat? e.consumer = some s) (own : s.producer = producer)
      (unequal : s.timestamp.equals s.timestamp = false) (n : Nat) (below : n < topNumber)
      (restarted : (e.check c.1 c).1.tracking producer = ⟨n, s.timestamp, []⟩)
  /-- It is accepted by the law. -/
  | accepted (s : Seat) (seat : c.1.seat? e.consumer = some s) (own : s.producer = producer)
      (timed : s.timestamp.equals s.timestamp = true) (out : List (Early (Header × α)))
      (filed : ∀ x ∈ out ++ ((e.check c.1 c).1.tracking producer).buffer,
        Filed e.consumer producer x)
      (law : Tracking.Accepts e.policy ((e.tracking producer).enter s.timestamp)
        ⟨s.number, ((e.tracking producer).enter s.timestamp).incarnation, c⟩
        ((e.check c.1 c).1.tracking producer) (e.gives c) out)

theorem gives_of_seat (hseat : c.1.seat? e.consumer = some s) :
    e.gives c = ((e.tracking s.producer).accept e.policy s.timestamp s.number c).2 := by
  rw [gives, released_check_of_seat hseat]

theorem tracking_of_seat (hseat : c.1.seat? e.consumer = some s) (producer : String) :
    (e.check c.1 c).1.tracking producer =
      if s.producer = producer
      then ((e.tracking s.producer).accept e.policy s.timestamp s.number c).1
      else e.tracking producer := by
  rw [tracking_check_of_seat hseat]

theorem WellKept.bearing_own (h : e.WellKept) (htop : BelowTop e.consumer c)
    (hseat : c.1.seat? e.consumer = some s) : Bearing e c s.producer := by
  have htrack := tracking_of_seat hseat s.producer
  rw [if_pos rfl] at htrack
  have hgives := gives_of_seat hseat
  by_cases hts : s.timestamp.equals s.timestamp = true
  · obtain ⟨out, hlaw⟩ := Tracking.accept_law (h.sound s.producer) (htop s hseat) hts c
    rw [← htrack, ← hgives] at hlaw
    refine .accepted s hseat rfl hts out ?_ hlaw
    rw [hlaw.split]
    exact h.filed_stock hseat hts
  · have hne := Bool.eq_false_iff.mpr hts
    rcases (h.sound s.producer).accept_of_not_equals (htop s hseat) hne c with hstart | hstart
    · rw [hstart] at htrack
      exact .untimed s hseat rfl hne 0 (Nat.zero_lt_succ _) htrack
    · rw [hstart] at htrack
      exact .untimed s hseat rfl hne s.number (htop s hseat) htrack

theorem WellKept.seat_of_gives (h : e.WellKept) (htop : BelowTop e.consumer c)
    (hseat : c.1.seat? e.consumer = some s) (hx : x ∈ e.gives c) :
    ∃ s', x.1.seat? e.consumer = some s' ∧ s'.producer = s.producer := by
  cases h.bearing_own htop hseat with
  | aside other => exact absurd rfl (other s hseat)
  | untimed s₁ hseat₁ hown hne =>
    rw [hseat] at hseat₁
    cases hseat₁
    rw [gives_of_seat hseat] at hx
    rcases (h.sound s.producer).accept_of_not_equals (htop s hseat) hne c with hstart | hstart
    · rw [hstart] at hx
      cases hx
    · rw [hstart, List.mem_singleton] at hx
      exact ⟨s, hx ▸ hseat, rfl⟩
  | accepted s₁ hseat₁ hown hts out hfiled hlaw =>
    rw [hlaw.released_eq] at hx
    obtain ⟨y, hy, rfl⟩ := List.mem_map.mp hx
    obtain ⟨s', hs', hp, -⟩ := hfiled y (List.mem_append_left _ hy)
    exact ⟨s', hs', hp⟩

theorem WellKept.bearing (h : e.WellKept) (htop : BelowTop e.consumer c) (producer : String) :
    Bearing e c producer := by
  cases hseat : c.1.seat? e.consumer with
  | none =>
    obtain ⟨hkept, hgives⟩ := check_of_no_seat hseat c
    refine .aside (by simp [hseat]) (hkept producer) (numbersFrom_eq_nil fun x hx s hs => ?_)
    have hself : x = c := by
      rw [gives, hgives] at hx
      split_ifs at hx with hnone
      · exact List.mem_singleton.mp hx
      · cases hx
    rw [hself, hseat] at hs
    cases hs
  | some s =>
    by_cases hp : s.producer = producer
    · exact hp ▸ h.bearing_own htop hseat
    · have htrack := tracking_of_seat hseat producer
      rw [if_neg hp] at htrack
      refine .aside ?_ htrack (numbersFrom_eq_nil fun x hx s' hs' => ?_)
      · intro s' hs'
        rw [hseat] at hs'
        exact Option.some.inj hs' ▸ hp
      · obtain ⟨s₁, hs₁, hown⟩ := h.seat_of_gives htop hseat hx
        rw [hs'] at hs₁
        cases hs₁
        exact fun h' => hp (hown ▸ h')

theorem WellKept.check (h : e.WellKept) (htop : BelowTop e.consumer c) :
    (e.check c.1 c).1.WellKept := by
  obtain ⟨hconsumer, hpolicy⟩ := check_consumer e c.1 c
  constructor
  · intro producer
    rw [hpolicy]
    cases h.bearing htop producer with
    | aside _ kept => exact kept ▸ h.sound producer
    | untimed s _ _ _ n hn restarted => exact restarted ▸ ⟨hn, trivial, fun _ _ => rfl⟩
    | accepted _ _ _ _ _ _ law => exact law.sound
  · intro producer
    rw [hconsumer]
    cases h.bearing htop producer with
    | aside _ kept => exact kept ▸ h.filed producer
    | untimed _ _ _ _ _ _ restarted =>
      rw [restarted]
      exact nofun
    | accepted _ _ _ _ _ filed => exact fun x hx => filed x (List.mem_append_right _ hx)

/-! ### Runs from the start -/

/-- The engine of a consumer after traced calls. -/
def afterCalls (consumer : String) (policy : Policy) (calls : List (Header × α)) :
    Engine (Header × α) := ((fresh consumer policy).run (traced calls)).1

theorem afterCalls_append (consumer : String) (policy : Policy) (calls : List (Header × α))
    (c : Header × α) : afterCalls consumer policy (calls ++ [c]) =
      ((afterCalls consumer policy calls).check c.1 c).1 := by
  simp [afterCalls, traced, run_append, run]

theorem afterCalls_consumer (consumer : String) (policy : Policy) (calls : List (Header × α)) :
    (afterCalls consumer policy calls).consumer = consumer ∧
      (afterCalls consumer policy calls).policy = policy :=
  run_consumer _ _

theorem wellKept_afterCalls (policy : Policy) {calls : List (Header × α)}
    (htop : ∀ c ∈ calls, BelowTop consumer c) : (afterCalls consumer policy calls).WellKept := by
  induction calls using List.reverseRecOn with
  | nil => exact wellKept_fresh consumer policy
  | append_singleton past c ih =>
    have hpast := ih fun d hd => htop d (List.mem_append_left _ hd)
    rw [afterCalls_append]
    refine hpast.check ?_
    rw [(afterCalls_consumer consumer policy past).1]
    exact htop c (by simp)

/-- What calls release after others, in order. -/
def releasesAfter (consumer : String) (policy : Policy) (before stretch : List (Header × α)) :
    List (Header × α) := (afterCalls consumer policy before).releases (traced stretch)

theorem releasesAfter_append (consumer : String) (policy : Policy)
    (before stretch : List (Header × α)) (c : Header × α) :
    releasesAfter consumer policy before (stretch ++ [c]) =
      releasesAfter consumer policy before stretch ++
        (afterCalls consumer policy (before ++ stretch)).gives c := by
  have hafter : ((afterCalls consumer policy before).run (traced stretch)).1 =
      afterCalls consumer policy (before ++ stretch) := by
    simp [afterCalls, traced, run_append]
  have hone : traced (stretch ++ [c]) = traced stretch ++ [(c.1, c)] := by simp [traced]
  rw [releasesAfter, hone, releases_append, releases_singleton, hafter]
  rfl

theorem placed_of_releasesAfter (htop : ∀ c ∈ before ++ stretch, BelowTop consumer c)
    (hx : x ∈ releasesAfter consumer policy before stretch) :
    x.1.placement = .none ∨ ∃ s, x.1.seat? consumer = some s := by
  induction stretch using List.reverseRecOn with
  | nil => cases hx
  | append_singleton past c ih =>
    rw [← List.append_assoc] at htop
    rw [releasesAfter_append, List.mem_append] at hx
    rcases hx with hx | hx
    · exact ih (fun d hd => htop d (List.mem_append_left _ hd)) hx
    · have hkept := wellKept_afterCalls policy
        fun d hd => htop d (List.mem_append_left _ hd)
      obtain ⟨hconsumer, -⟩ := afterCalls_consumer consumer policy (before ++ past)
      have hc : BelowTop consumer c := htop c (by simp)
      rw [← hconsumer] at hc
      cases hseat : c.1.seat? (afterCalls consumer policy (before ++ past)).consumer with
      | none =>
        rw [gives, (check_of_no_seat hseat c).2] at hx
        split_ifs at hx with hnone
        · exact Or.inl (List.mem_singleton.mp hx ▸ hnone)
        · cases hx
      | some s =>
        obtain ⟨s', hs', -⟩ := hkept.seat_of_gives hc hseat hx
        exact Or.inr ⟨s', hconsumer ▸ hs'⟩

theorem belowTop_mono {part : List (Header × α)}
    (htop : ∀ c ∈ before ++ stretch, BelowTop consumer c) (hpart : part <+: stretch) :
    ∀ c ∈ before ++ part, BelowTop consumer c := by
  intro c hc
  rcases List.mem_append.mp hc with hc | hc
  · exact htop c (List.mem_append_left _ hc)
  · exact htop c (List.mem_append_right _ (hpart.subset hc))

/-! ### Epochs -/

/-- The tracking of a producer after calls. -/
def trackingAfter (consumer : String) (policy : Policy) (producer : String)
    (calls : List (Header × α)) : Tracking (Header × α) :=
  (afterCalls consumer policy calls).tracking producer

/-- The calls `stretch` after `before` begin an epoch of the producer and stay in it. Its end is left
open, so `stretch` may reach to any point of the epoch. -/
structure Epoch (consumer : String) (policy : Policy) (producer : String)
    (before stretch : List (Header × α)) : Prop where
  begins : before = [] ∨ (trackingAfter consumer policy producer before).incarnation.equals
    (trackingAfter consumer policy producer (before ++ stretch)).incarnation = false
  steady : ∀ part, part <+: stretch → part ≠ [] →
    (trackingAfter consumer policy producer (before ++ part)).incarnation.equals
      (trackingAfter consumer policy producer (before ++ stretch)).incarnation = true

instance (consumer : String) (policy : Policy) (producer : String)
    (before stretch : List (Header × α)) : Decidable (Epoch consumer policy producer before stretch) :=
  decidable_of_iff
    ((before = [] ∨ (trackingAfter consumer policy producer before).incarnation.equals
      (trackingAfter consumer policy producer (before ++ stretch)).incarnation = false) ∧
    ∀ part ∈ stretch.inits, part ≠ [] →
      (trackingAfter consumer policy producer (before ++ part)).incarnation.equals
        (trackingAfter consumer policy producer (before ++ stretch)).incarnation = true)
    ⟨fun h => ⟨h.1, fun part hpart => h.2 part ((List.mem_inits _ _).mpr hpart)⟩,
      fun h => ⟨h.begins, fun part hpart => h.steady part ((List.mem_inits _ _).mp hpart)⟩⟩

theorem sound_trackingAfter (htop : ∀ c ∈ before, BelowTop consumer c) (policy : Policy)
    (producer : String) : (trackingAfter consumer policy producer before).Sound policy := by
  have h := (wellKept_afterCalls policy htop).sound producer
  rwa [(afterCalls_consumer consumer policy before).2] at h

/-- An epoch begins with nothing released and nothing waiting: it is the first one, or the tracking is
started over. -/
theorem enter_of_begins (htop : ∀ c ∈ before, BelowTop consumer c)
    (hbegins : before = [] ∨ (trackingAfter consumer policy producer before).incarnation.equals
      timestamp = false) :
    ((trackingAfter consumer policy producer before).enter timestamp).last = 0 ∧
      ((trackingAfter consumer policy producer before).enter timestamp).buffer = [] := by
  rcases hbegins with rfl | hne
  · exact Tracking.enter_fresh timestamp
  · rw [(sound_trackingAfter htop policy producer).enter_of_ne hne]
    exact ⟨rfl, rfl⟩

/-- What holds of the tracking of an epoch, when `arrived` has been taken in and `given` released. -/
structure Progress (consumer producer : String) (timestamp : Binary64) (t : Tracking (Header × α))
    (arrived given : List (Header × α)) : Prop where
  ascending : (numbersFrom consumer producer given).Pairwise (· < ·)
  passed : ∀ n ∈ numbersFrom consumer producer given, n ≤ t.last
  origin : ∀ x ∈ given, ∀ s, x.1.seat? consumer = some s → s.producer = producer →
    x ∈ arrived ∧ s.timestamp.equals timestamp = true
  waiting : ∀ x ∈ t.buffer, x.item ∈ arrived

theorem progress_start {t : Tracking (Header × α)} (h : t.buffer = []) :
    Progress consumer producer timestamp t [] [] :=
  ⟨List.Pairwise.nil, nofun, nofun, by rw [h]; exact nofun⟩

/-- What one call adds to an epoch: numbers that wait go on waiting or are released, and so does an
arrival that was not passed before. -/
structure Advance (consumer producer : String) (timestamp : Binary64)
    (t t' : Tracking (Header × α)) (c : Header × α) (given : List (Header × α)) : Prop where
  last_le : (t.enter timestamp).last ≤ (t'.enter timestamp).last
  kept : ∀ n ∈ (t.enter timestamp).pending,
    n ∈ numbersFrom consumer producer given ∨ n ∈ (t'.enter timestamp).pending
  taken : ∀ s, c.1.seat? consumer = some s → s.producer = producer →
    (t.enter s.timestamp).last < s.number →
    s.number ∈ numbersFrom consumer producer given ∨ s.number ∈ (t'.enter timestamp).pending

theorem Progress.aside {t : Tracking (Header × α)} {arrived given more : List (Header × α)}
    (h : Progress consumer producer timestamp (t.enter timestamp) arrived given)
    (hother : ∀ s, c.1.seat? consumer = some s → s.producer ≠ producer)
    (hnone : numbersFrom consumer producer more = []) :
    Progress consumer producer timestamp (t.enter timestamp) (arrived ++ [c]) (given ++ more) ∧
      Advance consumer producer timestamp t t c more := by
  have hsame : numbersFrom consumer producer (given ++ more) =
      numbersFrom consumer producer given := by
    rw [numbersFrom_append, hnone, List.append_nil]
  refine ⟨⟨hsame ▸ h.ascending, hsame ▸ h.passed, ?_, ?_⟩, ⟨le_rfl, fun n hn => Or.inr hn, ?_⟩⟩
  · intro x hx s hs hp
    rcases List.mem_append.mp hx with hx | hx
    · obtain ⟨harrived, hts⟩ := h.origin x hx s hs hp
      exact ⟨List.mem_append_left _ harrived, hts⟩
    · have hmem := mem_numbersFrom.mpr ⟨x, hx, s, hs, hp, rfl⟩
      rw [hnone] at hmem
      cases hmem
  · exact fun x hx => List.mem_append_left _ (h.waiting x hx)
  · exact fun s hs hp => absurd hp (hother s hs)

/-- What an accepted arrival releases: messages that waited or have just arrived, numbered past
everything released before. -/
structure Intake (consumer producer : String) (timestamp : Binary64) (t t' : Tracking (Header × α))
    (c : Header × α) (given : List (Header × α)) : Prop where
  last_le : (t.enter timestamp).last ≤ (t'.enter timestamp).last
  ascending : (numbersFrom consumer producer given).Pairwise (· < ·)
  past : ∀ n ∈ numbersFrom consumer producer given, (t.enter timestamp).last < n
  passed : ∀ n ∈ numbersFrom consumer producer given, n ≤ (t'.enter timestamp).last
  origin : ∀ x ∈ given, (x = c ∨ ∃ y ∈ (t.enter timestamp).buffer, y.item = x) ∧
    ∀ s, x.1.seat? consumer = some s → s.timestamp.equals timestamp = true
  waiting : ∀ x ∈ (t'.enter timestamp).buffer, x.item = c ∨ x ∈ (t.enter timestamp).buffer

theorem Progress.intake {t t' : Tracking (Header × α)} {arrived given more : List (Header × α)}
    (h : Progress consumer producer timestamp (t.enter timestamp) arrived given)
    (hmore : Intake consumer producer timestamp t t' c more) :
    Progress consumer producer timestamp (t'.enter timestamp) (arrived ++ [c]) (given ++ more) := by
  have hheld : ∀ x, (x = c ∨ ∃ y ∈ (t.enter timestamp).buffer, y.item = x) → x ∈ arrived ++ [c] := by
    rintro x (rfl | ⟨y, hy, rfl⟩)
    · exact List.mem_append_right _ (List.mem_singleton_self _)
    · exact List.mem_append_left _ (h.waiting y hy)
  refine ⟨?_, ?_, ?_, ?_⟩
  · rw [numbersFrom_append, List.pairwise_append]
    refine ⟨h.ascending, hmore.ascending, fun a ha b hb => ?_⟩
    exact lt_of_le_of_lt (h.passed a ha) (hmore.past b hb)
  · intro n hn
    rw [numbersFrom_append, List.mem_append] at hn
    rcases hn with hn | hn
    · exact le_trans (h.passed n hn) hmore.last_le
    · exact hmore.passed n hn
  · intro x hx s hs hp
    rcases List.mem_append.mp hx with hx | hx
    · obtain ⟨hold, hts⟩ := h.origin x hx s hs hp
      exact ⟨List.mem_append_left _ hold, hts⟩
    · obtain ⟨hfrom, hts⟩ := hmore.origin x hx
      exact ⟨hheld x hfrom, hts s hs⟩
  · intro x hx
    exact hheld x.item ((hmore.waiting x hx).imp_right fun hy => ⟨x, hy, rfl⟩)

section Accepted

variable {t t' : Tracking (Header × α)} {more : List (Header × α)} {out : List (Early (Header × α))}

theorem stays_of_accepts (hself : s.timestamp.equals s.timestamp = true)
    (hts : s.timestamp.equals timestamp = true)
    (hlaw : Tracking.Accepts policy (t.enter s.timestamp)
      ⟨s.number, (t.enter s.timestamp).incarnation, c⟩ t' more out) :
    (t.enter s.timestamp).incarnation.equals timestamp = true ∧ t'.enter timestamp = t' := by
  have hnow := Binary64.equals_trans (Tracking.enter_incarnation_equals t hself) hts
  exact ⟨hnow, Tracking.enter_of_equals (hlaw.incarnation_eq ▸ hnow)⟩

theorem intake_of_accepts (hsound : t.Sound policy) (htop : s.number < topNumber)
    (hts : s.timestamp.equals timestamp = true)
    (hfiled : ∀ x ∈ out ++ t'.buffer, Filed consumer producer x)
    (hlaw : Tracking.Accepts policy (t.enter s.timestamp)
      ⟨s.number, (t.enter s.timestamp).incarnation, c⟩ t' more out) :
    Intake consumer producer timestamp t t' c more := by
  obtain ⟨hlast, hbuffer⟩ := hsound.enter_like hts
  have hself := Binary64.equals_self_left hts
  obtain ⟨hnow, hstay⟩ := stays_of_accepts hself hts hlaw
  have hout := hlaw.ordered_entered hsound htop hself
  have hmore : numbersFrom consumer producer more = out.map Early.number := by
    rw [hlaw.released_eq]
    exact numbersFrom_items fun x hx => hfiled x (List.mem_append_left _ hx)
  have hheld : ∀ x ∈ out ++ t'.buffer, x.item = c ∨ x ∈ (t.enter timestamp).buffer := by
    intro x hx
    rw [hlaw.split] at hx
    rw [← hbuffer]
    exact (Tracking.mem_stock (hsound.enter s.timestamp) hx).imp_left fun hx => by rw [hx]
  refine ⟨?_, ?_, ?_, ?_, ?_, ?_⟩
  · rw [hstay, ← hlast, hlaw.last_eq]
    exact hout.le_lastOf
  · exact hmore ▸ hout.pairwise
  · intro n hn
    rw [hmore] at hn
    obtain ⟨x, hx, rfl⟩ := List.mem_map.mp hn
    exact hlast ▸ (hout.mem hx).1
  · intro n hn
    rw [hmore] at hn
    obtain ⟨x, hx, rfl⟩ := List.mem_map.mp hn
    rw [hstay, hlaw.last_eq]
    exact hout.mem_le_lastOf hx
  -- A message waits under the incarnation of its own timestamp.
  · intro x hx
    rw [hlaw.released_eq] at hx
    obtain ⟨y, hy, rfl⟩ := List.mem_map.mp hx
    have hin := List.mem_append_left t'.buffer hy
    refine ⟨(hheld y hin).imp_right fun hy => ⟨y, hy, rfl⟩, fun s₁ hs₁ => ?_⟩
    obtain ⟨s₂, hs₂, -, -, hts₂⟩ := hfiled y hin
    obtain rfl := Option.some.inj (hs₁.symm.trans hs₂)
    exact Binary64.equals_trans hts₂ (Binary64.equals_trans (hout.mem hy).2.2 hnow)
  · intro x hx
    rw [hstay] at hx
    exact hheld x (List.mem_append_right _ hx)

/-- Whatever waits with an accepted arrival is released or goes on waiting. -/
theorem advance_of_accepts (hsound : t.Sound policy) (hseat : c.1.seat? consumer = some s)
    (hts : s.timestamp.equals timestamp = true)
    (hfiled : ∀ x ∈ out ++ t'.buffer, Filed consumer producer x)
    (hlaw : Tracking.Accepts policy (t.enter s.timestamp)
      ⟨s.number, (t.enter s.timestamp).incarnation, c⟩ t' more out)
    (hmore : Intake consumer producer timestamp t t' c more) :
    Advance consumer producer timestamp t t' c more := by
  obtain ⟨-, hbuffer⟩ := hsound.enter_like hts
  obtain ⟨-, hstay⟩ := stays_of_accepts (Binary64.equals_self_left hts) hts hlaw
  have hstock : ∀ n, n ∈ ((t.enter s.timestamp).stock policy
      ⟨s.number, (t.enter s.timestamp).incarnation, c⟩).map Early.number →
      n ∈ numbersFrom consumer producer more ∨ n ∈ (t'.enter timestamp).pending := by
    intro n hn
    rw [← hlaw.split, List.map_append, List.mem_append] at hn
    rw [hstay, hlaw.released_eq,
      numbersFrom_items fun x hx => hfiled x (List.mem_append_left _ hx)]
    exact hn
  refine ⟨hmore.last_le, fun n hn => ?_, fun s₁ hs₁ _ hlive => ?_⟩
  · refine hstock n ((Tracking.number_mem_stock _ _ _ n).mpr (Or.inr ?_))
    rwa [Tracking.pending, hbuffer]
  · obtain rfl := Option.some.inj (hseat.symm.trans hs₁)
    exact hstock s.number ((Tracking.number_mem_stock _ _ _ _).mpr (Or.inl ⟨rfl, hlive⟩))

end Accepted

theorem Progress.call {arrived given : List (Header × α)} (hkept : e.WellKept)
    (hconsumer : e.consumer = consumer) (htop : BelowTop consumer c)
    (hsteady : ((e.check c.1 c).1.tracking producer).incarnation.equals timestamp = true)
    (h : Progress consumer producer timestamp ((e.tracking producer).enter timestamp)
      arrived given) :
    Progress consumer producer timestamp (((e.check c.1 c).1.tracking producer).enter timestamp)
        (arrived ++ [c]) (given ++ e.gives c) ∧
      Advance consumer producer timestamp (e.tracking producer)
        ((e.check c.1 c).1.tracking producer) c (e.gives c) := by
  subst hconsumer
  cases hkept.bearing htop producer with
  | aside other kept none =>
    rw [kept]
    exact h.aside other none
  | untimed s seat own unequal n below restarted =>
    rw [restarted] at hsteady
    rw [Binary64.equals_self_left hsteady] at unequal
    cases unequal
  | accepted s seat own timed out filed law =>
    have hcur := Tracking.enter_incarnation_equals (e.tracking producer) timed
    rw [law.incarnation_eq] at hsteady
    have hts := Binary64.equals_trans (Binary64.equals_symm hcur) hsteady
    have hmore := intake_of_accepts (hkept.sound producer) (htop s seat) hts filed law
    exact ⟨h.intake hmore, advance_of_accepts (hkept.sound producer) seat hts filed law hmore⟩

/-- What holds of an epoch as far as it has come. -/
structure EpochLaw (consumer : String) (policy : Policy) (producer : String) (timestamp : Binary64)
    (before stretch : List (Header × α)) : Prop where
  progress : Progress consumer producer timestamp
    ((trackingAfter consumer policy producer (before ++ stretch)).enter timestamp)
    stretch (releasesAfter consumer policy before stretch)
  last_mono : ∀ part, part <+: stretch →
    ((trackingAfter consumer policy producer (before ++ part)).enter timestamp).last ≤
      ((trackingAfter consumer policy producer (before ++ stretch)).enter timestamp).last
  conserved : ∀ part c, part ++ [c] <+: stretch → ∀ s, c.1.seat? consumer = some s →
    s.producer = producer →
    ((trackingAfter consumer policy producer (before ++ part)).enter s.timestamp).last < s.number →
    s.number ∈ numbersFrom consumer producer (releasesAfter consumer policy before stretch) ∨
      s.number ∈
        ((trackingAfter consumer policy producer (before ++ stretch)).enter timestamp).pending

theorem EpochLaw.call (h : EpochLaw consumer policy producer timestamp before stretch)
    (htop : ∀ d ∈ before ++ stretch ++ [c], BelowTop consumer d)
    (hsteady : (trackingAfter consumer policy producer
      (before ++ (stretch ++ [c]))).incarnation.equals timestamp = true) :
    EpochLaw consumer policy producer timestamp before (stretch ++ [c]) := by
  have hkept := wellKept_afterCalls policy fun d hd => htop d (List.mem_append_left _ hd)
  have hc : BelowTop consumer c := htop c (by simp)
  have hnext : trackingAfter consumer policy producer (before ++ (stretch ++ [c])) =
      ((afterCalls consumer policy (before ++ stretch)).check c.1 c).1.tracking producer := by
    rw [trackingAfter, ← List.append_assoc, afterCalls_append]
  have hcalls := releasesAfter_append consumer policy before stretch c
  obtain ⟨hconsumer, -⟩ := afterCalls_consumer consumer policy (before ++ stretch)
  rw [hnext] at hsteady
  obtain ⟨hprogress, hadvance⟩ := Progress.call hkept hconsumer hc hsteady h.progress
  refine ⟨?_, ?_, ?_⟩
  · rw [hnext, hcalls]
    exact hprogress
  · intro part hpart
    rw [hnext]
    rcases List.prefix_concat_iff.mp hpart with rfl | hpart
    · rw [hnext]
    · exact le_trans (h.last_mono part hpart) hadvance.last_le
  · intro part d hpart s hs hp hlive
    rw [hnext, hcalls, numbersFrom_append, List.mem_append, or_assoc]
    -- The last call is settled by the step itself, the others were settled before it.
    rcases List.prefix_concat_iff.mp hpart with heq | hpart
    · obtain ⟨rfl, rfl⟩ := List.append_inj' heq rfl |>.imp_right List.singleton_inj.mp
      exact Or.inr (hadvance.taken s hs hp hlive)
    · rcases h.conserved part d hpart s hs hp hlive with hgiven | hwaits
      · exact Or.inl hgiven
      · exact Or.inr (hadvance.kept _ hwaits)

theorem epochLaw (htop : ∀ c ∈ before ++ stretch, BelowTop consumer c)
    (hbegins : before = [] ∨ (trackingAfter consumer policy producer before).incarnation.equals
      timestamp = false)
    (hsteady : ∀ part, part <+: stretch → part ≠ [] →
      (trackingAfter consumer policy producer (before ++ part)).incarnation.equals timestamp =
        true) :
    EpochLaw consumer policy producer timestamp before stretch := by
  induction stretch using List.reverseRecOn with
  | nil =>
    have hempty : ((trackingAfter consumer policy producer (before ++ [])).enter
        timestamp).buffer = [] := by
      rw [List.append_nil] at htop ⊢
      exact (enter_of_begins htop hbegins).2
    refine ⟨progress_start hempty, fun part hpart => ?_, fun part c hpart => ?_⟩
    · rw [List.prefix_nil.mp hpart]
    · simp at hpart
  | append_singleton past c ih =>
    have hpast := ih (belowTop_mono htop (List.prefix_append past [c]))
      fun part hpart => hsteady part (hpart.trans (List.prefix_append past [c]))
    refine hpast.call (fun d hd => htop d (by rwa [← List.append_assoc])) ?_
    exact hsteady (past ++ [c]) List.prefix_rfl (by simp)

/-- Release safety and conservation, under either policy, for every epoch of a producer in a run on
arbitrary headers. Across the epoch the numbers released ascend; what is released is outside of any
order or has a seat, and what has a seat of the producer arrived in the epoch with its timestamp; the
number expected next never falls; and an arrival whose number was not below the one expected when it
came has at every later point been released or still waits. -/
theorem epoch_releases_and_keeps (htop : ∀ c ∈ before ++ stretch, BelowTop consumer c)
    (hepoch : Epoch consumer policy producer before stretch) :
    (numbersFrom consumer producer (releasesAfter consumer policy before stretch)).Pairwise (· < ·) ∧
    (∀ c ∈ releasesAfter consumer policy before stretch, c.1.placement = .none ∨
      ∃ s, c.1.seat? consumer = some s ∧ (s.producer = producer →
        c ∈ stretch ∧ s.timestamp.equals
          (trackingAfter consumer policy producer (before ++ stretch)).incarnation = true)) ∧
    (∀ xs ys, xs <+: ys → ys <+: stretch → xs ≠ [] →
      (trackingAfter consumer policy producer (before ++ xs)).nextExpected ≤
        (trackingAfter consumer policy producer (before ++ ys)).nextExpected) ∧
    (∀ part c, part ++ [c] <+: stretch → ∀ s, c.1.seat? consumer = some s →
      s.producer = producer →
      ((trackingAfter consumer policy producer (before ++ part)).enter
        s.timestamp).nextExpected ≤ s.number →
      s.number ∈ numbersFrom consumer producer (releasesAfter consumer policy before stretch) ∨
        s.number ∈ (trackingAfter consumer policy producer (before ++ stretch)).pending) := by
  have hlaw := epochLaw htop hepoch.begins hepoch.steady
  have hsound : ∀ part, part <+: stretch →
      (trackingAfter consumer policy producer (before ++ part)).Sound policy := by
    intro part hpart
    have hkept := wellKept_afterCalls policy (belowTop_mono htop hpart)
    have h := hkept.sound producer
    rwa [(afterCalls_consumer consumer policy (before ++ part)).2] at h
  refine ⟨hlaw.progress.ascending, ?_, ?_, ?_⟩
  · intro c hc
    rcases placed_of_releasesAfter htop hc with hnone | ⟨s, hs⟩
    · exact Or.inl hnone
    · exact Or.inr ⟨s, hs, hlaw.progress.origin c hc s hs⟩
  · intro xs ys hxs hys hne
    -- Within the epoch entering its incarnation changes nothing.
    have hstay : ∀ part, part <+: stretch → part ≠ [] →
        (trackingAfter consumer policy producer (before ++ part)).enter
            (trackingAfter consumer policy producer (before ++ stretch)).incarnation =
          trackingAfter consumer policy producer (before ++ part) :=
      fun part hpart hpne => Tracking.enter_of_equals (hepoch.steady part hpart hpne)
    have hyne : ys ≠ [] := fun h => hne (List.prefix_nil.mp (h ▸ hxs))
    have hysLaw := epochLaw (belowTop_mono htop hys) hepoch.begins
      fun part hpart => hepoch.steady part (hpart.trans hys)
    have hle := hysLaw.last_mono xs hxs
    rw [hstay xs (hxs.trans hys) hne, hstay ys hys hyne] at hle
    rw [(hsound xs (hxs.trans hys)).nextExpected_eq, (hsound ys hys).nextExpected_eq]
    omega
  · intro part c hpart s hs hp hlive
    have hpre := (List.prefix_append part [c]).trans hpart
    rw [((hsound part hpre).enter s.timestamp).nextExpected_eq] at hlive
    have hne : stretch ≠ [] := by
      rintro rfl
      simp at hpart
    have hstay := Tracking.enter_of_equals (hepoch.steady stretch List.prefix_rfl hne)
    have hsettled := hlaw.conserved part c hpart s hs hp (by omega)
    rwa [hstay] at hsettled

theorem epoch_releases_and_keeps_restarted :
    let before := [sampleCall 5 "2" 'x']
    let stretch := [sampleCall 6 "2" 'b', sampleCall 6 "1" 'a', sampleCall 6 "4" 'd']
    numbersFrom "C" "P" (releasesAfter "C" (.strict 8 2) before stretch) = [1, 2] ∧
      4 ∈ (trackingAfter "C" (.strict 8 2) "P" (before ++ stretch)).pending := by
  intro before stretch
  have htop : ∀ c ∈ before ++ stretch, BelowTop "C" c := by decide +kernel
  have hepoch : Epoch "C" (.strict 8 2) "P" before stretch := by decide +kernel
  obtain ⟨-, -, -, hkept⟩ := epoch_releases_and_keeps htop hepoch
  have hreleased : numbersFrom "C" "P" (releasesAfter "C" (.strict 8 2) before stretch) = [1, 2] := by
    decide +kernel
  have hfour := hkept (stretch.take 2) (sampleCall 6 "4" 'd') (List.prefix_rfl)
    ⟨"P", .ofInt 6, 4⟩ (by decide +kernel) rfl (by decide +kernel)
  rw [hreleased] at hfour
  exact ⟨hreleased, hfour.resolve_left (by decide)⟩

end OrderedRelay.Engine
