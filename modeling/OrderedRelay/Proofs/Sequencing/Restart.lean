import OrderedRelay.Proofs.Sequencing.Epoch

/-!
# Releases across restarts

A tracking knows one incarnation at a time, and any other timestamp starts it over. So a message is
released a second time only after the incarnation has been left and entered again: between the two
releases an arrival of the same producer bore another timestamp.
-/

namespace OrderedRelay.Engine

variable {α : Type} {e : Engine (Header × α)} {consumer producer : String} {policy : Policy}
  {c x y first second : Header × α} {s : Seat} {before between : List (Header × α)}
  {timestamp : Binary64} {number : Nat}

def seatsOf (consumer : String) (items : List (Header × α)) : List Seat :=
  items.filterMap fun c => c.1.seat? consumer

/-- Number 1 of incarnation 5 is released, then number 1 of incarnation 6, then the former again. -/
theorem seats_released_not_nodup :
    let calls := [sampleCall 5 "1" 'a', sampleCall 6 "1" 'b', sampleCall 5 "1" 'a']
    ¬ (seatsOf "C" (releasesAfter "C" .default [] calls)).Nodup ∧
      ¬ (seatsOf "C" (releasesAfter "C" .legacy [] calls)).Nodup := by
  decide +kernel

/-- A number of an incarnation has been passed, and the incarnation is still tracked. -/
structure Passed (producer : String) (timestamp : Binary64) (number : Nat)
    (e : Engine (Header × α)) : Prop where
  current : (e.tracking producer).incarnation.equals timestamp = true
  le_last : number ≤ (e.tracking producer).last

theorem Passed.check (h : Passed producer timestamp number e) (hkept : e.WellKept)
    (htop : BelowTop e.consumer c)
    (hsame : ∀ s, c.1.seat? e.consumer = some s → s.producer = producer →
      s.timestamp.equals timestamp = true) :
    Passed producer timestamp number (e.check c.1 c).1 := by
  cases hkept.bearing htop producer with
  | aside _ kept => exact ⟨kept ▸ h.current, kept ▸ h.le_last⟩
  | untimed s seat own unequal =>
    rw [Binary64.equals_self_left (hsame s seat own)] at unequal
    cases unequal
  | accepted s seat own timed out filed law =>
    have hout := law.ordered_entered (hkept.sound producer) (htop s seat) timed
    have hlast := hout.le_lastOf
    have hstay : (e.tracking producer).enter s.timestamp = e.tracking producer :=
      Tracking.enter_of_equals
        (Binary64.equals_trans h.current (Binary64.equals_symm (hsame s seat own)))
    rw [← law.last_eq, hstay] at hlast
    refine ⟨?_, le_trans h.le_last hlast⟩
    rw [law.incarnation_eq, hstay]
    exact h.current

theorem WellKept.passed_of_gives (hkept : e.WellKept) (htop : BelowTop e.consumer c)
    (hx : x ∈ e.gives c) (hs : x.1.seat? e.consumer = some s)
    (hself : s.timestamp.equals s.timestamp = true) :
    Passed s.producer s.timestamp s.number (e.check c.1 c).1 ∧
      ¬ Passed s.producer s.timestamp s.number e := by
  have hmem : s.number ∈ numbersFrom e.consumer s.producer (e.gives c) :=
    mem_numbersFrom.mpr ⟨x, hx, s, hs, rfl, rfl⟩
  cases hkept.bearing htop s.producer with
  | aside _ _ none =>
    rw [none] at hmem
    cases hmem
  | untimed s₁ seat own unequal =>
    rw [gives_of_seat seat] at hx
    rcases (hkept.sound s₁.producer).accept_of_not_equals (htop s₁ seat) unequal c with hstart | hstart
    · rw [hstart] at hx
      cases hx
    · rw [hstart, List.mem_singleton] at hx
      rw [hx, seat] at hs
      cases hs
      rw [hself] at unequal
      cases unequal
  | accepted s₁ seat own timed out filed law =>
    have hcur := Tracking.enter_incarnation_equals (e.tracking s.producer) timed
    have hout := law.ordered_entered (hkept.sound s.producer) (htop s₁ seat) timed
    rw [law.released_eq] at hx
    obtain ⟨z, hz, rfl⟩ := List.mem_map.mp hx
    obtain ⟨s₂, hs₂, -, hnumber, hts⟩ := filed z (List.mem_append_left _ hz)
    rw [hs] at hs₂
    cases hs₂
    obtain ⟨hlt, -, hzcur⟩ := hout.mem hz
    have hmatch := Binary64.equals_trans hts hzcur
    refine ⟨⟨?_, ?_⟩, fun hpassed => ?_⟩
    · rw [law.incarnation_eq]
      exact Binary64.equals_symm hmatch
    · rw [law.last_eq, hnumber]
      exact hout.mem_le_lastOf hz
    -- Had it been passed, the tracking would not start over, and only higher numbers leave.
    · have hstay : (e.tracking s.producer).enter s₁.timestamp = e.tracking s.producer :=
        Tracking.enter_of_equals
          (Binary64.equals_trans hpassed.current (Binary64.equals_trans hmatch hcur))
      have hle := hpassed.le_last
      rw [hstay] at hlt
      omega

/-- While no call bears another timestamp of the producer, what has been passed stays so. -/
theorem passed_afterCalls (htop : ∀ c ∈ before ++ between, BelowTop consumer c)
    (hsame : ∀ c ∈ between, ∀ s, c.1.seat? consumer = some s → s.producer = producer →
      s.timestamp.equals timestamp = true)
    (h : Passed producer timestamp number (afterCalls consumer policy before)) :
    Passed producer timestamp number (afterCalls consumer policy (before ++ between)) := by
  induction between using List.reverseRecOn with
  | nil => rwa [List.append_nil]
  | append_singleton past c ih =>
    have hpast := ih (belowTop_mono htop (List.prefix_append past [c]))
      fun d hd => hsame d (List.mem_append_left _ hd)
    have hkept := wellKept_afterCalls policy (belowTop_mono htop (List.prefix_append past [c]))
    obtain ⟨hconsumer, -⟩ := afterCalls_consumer consumer policy (before ++ past)
    rw [← List.append_assoc, afterCalls_append]
    refine hpast.check hkept ?_ ?_
    · rw [hconsumer]
      exact htop c (by simp)
    · rw [hconsumer]
      exact hsame c (by simp)

/-- One call releases the numbers of a producer in ascending order. -/
theorem WellKept.gives_ascending (hkept : e.WellKept) (htop : BelowTop e.consumer c)
    (producer : String) : (numbersFrom e.consumer producer (e.gives c)).Pairwise (· < ·) := by
  cases hkept.bearing htop producer with
  | aside _ _ none =>
    rw [none]
    exact List.Pairwise.nil
  | untimed s seat own unequal =>
    rw [gives_of_seat seat]
    rcases (hkept.sound s.producer).accept_of_not_equals (htop s seat) unequal c with hstart | hstart
    · rw [hstart]
      exact List.Pairwise.nil
    · rw [hstart]
      simp [numbersFrom, arrivalsOf, seat, own]
  | accepted s seat own timed out filed law =>
    have hout := law.ordered_entered (hkept.sound producer) (htop s seat) timed
    rw [law.released_eq, numbersFrom_items fun x hx => filed x (List.mem_append_left _ hx)]
    exact hout.pairwise

/-- A call never releases two messages of one producer with the same number, and two calls release the
same number of the same incarnation of a producer only if between them a message of the producer
arrived with another timestamp. -/
theorem released_again_after_switch
    (htop : ∀ c ∈ before ++ first :: between ++ [second], BelowTop consumer c) :
    (∀ producer, (numbersFrom consumer producer
      ((afterCalls consumer policy before).gives first)).Pairwise (· < ·)) ∧
    ∀ x ∈ (afterCalls consumer policy before).gives first,
      ∀ y ∈ (afterCalls consumer policy (before ++ first :: between)).gives second,
      ∀ sx sy, x.1.seat? consumer = some sx → y.1.seat? consumer = some sy →
        sx.producer = sy.producer → sx.timestamp.equals sy.timestamp = true →
        sx.number = sy.number →
        ∃ c ∈ between, ∃ s, c.1.seat? consumer = some s ∧ s.producer = sx.producer ∧
          s.timestamp.equals sx.timestamp = false := by
  have hbefore := wellKept_afterCalls policy fun c (hc : c ∈ before) => htop c (by simp [hc])
  have hlater := wellKept_afterCalls policy
    fun c (hc : c ∈ before ++ first :: between) => htop c (List.mem_append_left _ hc)
  have hconsumer := (afterCalls_consumer consumer policy before).1
  have hconsumer' := (afterCalls_consumer consumer policy (before ++ first :: between)).1
  have hfirst : BelowTop (afterCalls consumer policy before).consumer first := by
    rw [hconsumer]
    exact htop first (by simp)
  have hsecond : BelowTop (afterCalls consumer policy (before ++ first :: between)).consumer
      second := by
    rw [hconsumer']
    exact htop second (by simp)
  refine ⟨fun producer => ?_, fun x hx y hy sx sy hsx hsy hp hts hn => ?_⟩
  · have h := hbefore.gives_ascending hfirst producer
    rwa [hconsumer] at h
  · by_contra hnone
    push Not at hnone
    have hself := Binary64.equals_self_left hts
    have hpassed := (hbefore.passed_of_gives hfirst hx (hconsumer.symm ▸ hsx) hself).1
    rw [← afterCalls_append] at hpassed
    -- Without another timestamp in between, the number is still passed when the second call comes.
    have hcalls : before ++ first :: between = before ++ [first] ++ between :=
      List.append_cons before first between
    have hstill : Passed sx.producer sx.timestamp sx.number
        (afterCalls consumer policy (before ++ first :: between)) := by
      rw [hcalls]
      refine passed_afterCalls (fun c hc => ?_) (fun c hc s hs hown => ?_) hpassed
      · rw [← hcalls] at hc
        exact htop c (List.mem_append_left _ hc)
      · simpa using hnone c hc s hs hown
    have hnot := (hlater.passed_of_gives hsecond hy (hconsumer'.symm ▸ hsy)
      (Binary64.equals_self_right hts)).2
    refine hnot ⟨?_, ?_⟩
    · rw [← hp]
      exact Binary64.equals_trans hstill.current hts
    · rw [← hp, ← hn]
      exact hstill.le_last

/-- Incarnation 5 is left for 6 and entered again. -/
theorem released_again_after_switch_sample :
    ∃ c ∈ [sampleCall 6 "1" 'b'], ∃ s, c.1.seat? "C" = some s ∧ s.producer = "P" ∧
      s.timestamp.equals (.ofInt 5) = false := by
  have htop : ∀ c ∈ [] ++ sampleCall 5 "1" 'a' :: [sampleCall 6 "1" 'b'] ++ [sampleCall 5 "1" 'a'],
      BelowTop "C" c := by decide +kernel
  exact (@released_again_after_switch _ _ .default _ _ _ _ htop).2
    (sampleCall 5 "1" 'a') (by decide +kernel) (sampleCall 5 "1" 'a') (by decide +kernel)
    ⟨"P", .ofInt 5, 1⟩ ⟨"P", .ofInt 5, 1⟩ (by decide +kernel) (by decide +kernel) rfl
    (by decide +kernel) rfl

end OrderedRelay.Engine
