import OrderedRelay.Proofs.Sequencing.Epoch
import OrderedRelay.Proofs.Sequencing.Waiting

/-!
# What an answer depends on

An engine answers a call by its consumer, its policy and the tracking of the one producer whose order
the header has a place in. Engines that agree on these give the same answers ever after. A place that
cannot be made out makes a message refused, and a place that is not for the consumer makes it passed
over; either way all trackings stay as they were, so what follows is as without the message.
-/

namespace OrderedRelay

/-- The producer in whose order a place is. -/
def Placement.producer? : Placement → Option String
  | .none => Option.none
  | .numbered producer _ _ _ => some producer
  | .untimed producer => some producer

/-- The header states a place that cannot be made out: it has no timestamp, a token that is no order
number, or not one number for each consumer. -/
def Header.isFaulty (h : Header) : Bool :=
  match h.placement with
  | .none => false
  | .untimed _ => true
  | .numbered _ _ consumers raw =>
    match OrderNumbers.decode raw with
    | .error _ => true
    | .ok numbers => numbers.length ≠ consumers.length

/-- The header states a place, but none for the consumer: it is not listed, or its number is 0. -/
def Header.isForeign (consumer : String) (h : Header) : Bool :=
  match h.placement with
  | .numbered _ _ consumers raw =>
    !consumers.contains consumer ||
      match OrderNumbers.decode raw with
      | .error _ => false
      | .ok numbers => Engine.numberFor consumer consumers numbers = 0
  | _ => false

namespace Engine

variable {α : Type} {e f : Engine α} {h : Header} {item : α} {consumer producer raw : String}
  {policy : Policy} {timestamp : Binary64} {consumers : List String} {before : List (Header × α)}

/-- The call asks for the number after the highest one: to tell the numbers of two lists apart in a
fault, or to judge an arrival of the incarnation that is tracked. -/
def asksPastTop (e : Engine α) (h : Header) : Bool :=
  match h.placement with
  | .numbered producer timestamp consumers raw =>
    match OrderNumbers.decode raw with
    | .error _ => false
    | .ok numbers =>
      if numbers.length ≠ consumers.length then topNumber ≤ (e.tracking producer).last
      else numberFor e.consumer consumers numbers ≠ 0 &&
        topNumber ≤ ((e.tracking producer).enter timestamp).last
  | _ => false

theorem exists_top_le_of_asksPastTop (hask : e.asksPastTop h = true) :
    ∃ producer, h.placement.producer? = some producer ∧ topNumber ≤ (e.tracking producer).last := by
  unfold asksPastTop at hask
  split at hask
  · rename_i producer timestamp consumers raw hplace
    refine ⟨producer, by rw [hplace]; rfl, ?_⟩
    split at hask
    · cases hask
    · split_ifs at hask
      · exact of_decide_eq_true hask
      · have hentered := of_decide_eq_true ((Bool.and_eq_true _ _).mp hask).2
        -- A start over would have left 0.
        unfold Tracking.enter at hentered
        split_ifs at hentered
        · exact hentered
        · exact absurd hentered (Nat.not_le.mpr (by decide : 0 < topNumber))
  · cases hask

theorem sound_run (htop : ∀ c ∈ before, BelowTop consumer c) (policy : Policy) (producer : String) :
    (((fresh consumer policy).run before).1.tracking producer).Sound policy := by
  rw [tracking_run]
  exact ((Tracking.sound_fresh policy).acceptAll
    (forall_mem_arrivalsOf.mpr fun c hc s hs _ => htop c hc s hs)).1

/-- While no highest number has come, nothing asks for the one after it. -/
theorem asksPastTop_run (h : Header) (htop : ∀ c ∈ before, BelowTop consumer c) (policy : Policy) :
    ((fresh consumer policy).run before).1.asksPastTop h = false := by
  rw [Bool.eq_false_iff]
  intro hask
  obtain ⟨producer, -, hlast⟩ := exists_top_le_of_asksPastTop hask
  exact absurd (sound_run htop policy producer).last_lt (Nat.not_lt.mpr hlast)

/-! ### One call -/

theorem check_of_none (hplace : h.placement = .none) (e : Engine α) (item : α) :
    e.check h item = (e, .ok [item]) := by
  rw [check, hplace]

theorem check_of_untimed (hplace : h.placement = .untimed producer) (e : Engine α) (item : α) :
    e.check h item = (e, .error (.missingTimestamp producer)) := by
  rw [check, hplace]

/-- An answer, and what becomes of the tracking, do not depend on the engine beyond its consumer, its
policy and the tracking. -/
theorem exists_answer (consumer : String) (policy : Policy) (t : Tracking α)
    (hplace : h.placement = .numbered producer timestamp consumers raw) (item : α) :
    ∃ answer : Except Trap (Tracking α × Verdict α), ∀ e : Engine α, e.consumer = consumer →
      e.policy = policy → e.tracking producer = t →
      e.check h item = match answer with
        | .ok result => (e.track producer result.1, result.2)
        | .error trap => ({ e with stops := e.stops ++ [trap] }, .stopped trap) := by
  cases hnumbers : OrderNumbers.decode raw with
  | error token =>
    refine ⟨.ok (t, .error (.badOrderNumber producer token)), ?_⟩
    rintro e - - rfl
    simp only [check, hplace, place?, hnumbers]
  | ok numbers =>
    by_cases hlength : numbers.length = consumers.length
    · by_cases hzero : numberFor consumer consumers numbers = 0
      · refine ⟨.ok (t, .ok []), ?_⟩
        rintro e rfl - rfl
        simp only [check, hplace, place?, hnumbers, ne_eq, hlength, not_true_eq_false, if_false,
          numberFor?_eq e.consumer hlength, hzero, bind, Except.bind, if_true, pure, Except.pure]
      · refine ⟨(t.accept? policy timestamp (numberFor consumer consumers numbers) item).map
          fun result => (result.1, .ok result.2), ?_⟩
        rintro e rfl rfl rfl
        simp only [check, hplace, place?, hnumbers, ne_eq, hlength, not_true_eq_false, if_false,
          numberFor?_eq e.consumer hlength, hzero, bind, Except.bind]
        cases (e.tracking producer).accept? e.policy timestamp
          (numberFor e.consumer consumers numbers) item <;> rfl
    · refine ⟨t.nextExpected?.map fun next =>
        (t, .error (.lengthMismatch raw consumers producer next)), ?_⟩
      rintro e - - rfl
      simp only [check, hplace, place?, hnumbers, ne_eq, hlength, not_false_eq_true, if_true, bind,
        Except.bind]
      cases (e.tracking producer).nextExpected? <;> rfl

theorem tracking?_track (e : Engine α) (producer other : String) (t : Tracking α) :
    (e.track producer t).tracking? other =
      if other = producer then some t else e.tracking? other :=
  Table.get?_insert producer other t e.producers

theorem tracking_congr (ht : e.tracking? producer = f.tracking? producer) :
    e.tracking producer = f.tracking producer := by
  rw [tracking, tracking, ht]

theorem tracking?_check_other (hother : h.placement.producer? ≠ some producer) (item : α) :
    (e.check h item).1.tracking? producer = e.tracking? producer := by
  cases hplace : h.placement with
  | none => rw [check_of_none hplace]
  | untimed p => rw [check_of_untimed hplace]
  | numbered p timestamp consumers raw =>
    rw [hplace] at hother
    have hne : producer ≠ p := fun heq => hother (by rw [heq]; rfl)
    obtain ⟨answer, hanswer⟩ := exists_answer e.consumer e.policy (e.tracking p) hplace item
    rw [hanswer e rfl rfl rfl]
    cases answer with
    | ok result => exact (tracking?_track e p producer result.1).trans (if_neg hne)
    | error trap => rfl

/-- An answer depends on no tracking but that of the producer whose order the message is in. -/
theorem check_congr (hconsumer : e.consumer = f.consumer) (hpolicy : e.policy = f.policy)
    (ht : ∀ p, h.placement.producer? = some p → e.tracking p = f.tracking p) (item : α) :
    (e.check h item).2 = (f.check h item).2 ∧
      ∀ p, e.tracking? p = f.tracking? p →
        (e.check h item).1.tracking? p = (f.check h item).1.tracking? p := by
  cases hplace : h.placement with
  | none =>
    rw [check_of_none hplace, check_of_none hplace]
    exact ⟨rfl, fun p hp => hp⟩
  | untimed q =>
    rw [check_of_untimed hplace, check_of_untimed hplace]
    exact ⟨rfl, fun p hp => hp⟩
  | numbered q timestamp consumers raw =>
    have hq : e.tracking q = f.tracking q := ht q (by rw [hplace]; rfl)
    obtain ⟨answer, hanswer⟩ := exists_answer f.consumer f.policy (f.tracking q) hplace item
    rw [hanswer e hconsumer hpolicy hq, hanswer f rfl rfl rfl]
    cases answer with
    | error trap => exact ⟨rfl, fun p hp => hp⟩
    | ok result =>
      refine ⟨rfl, fun p hp => ?_⟩
      show (e.track q result.1).tracking? p = (f.track q result.1).tracking? p
      rw [tracking?_track, tracking?_track, hp]

theorem check_fails_iff (e : Engine α) (h : Header) (item : α) :
    (∃ fault, (e.check h item).2 = .error fault) ↔ h.isFaulty = true ∧ e.asksPastTop h = false := by
  unfold Header.isFaulty asksPastTop
  cases hplace : h.placement with
  | none => simp [check_of_none hplace]
  | untimed p => simp [check_of_untimed hplace]
  | numbered p timestamp consumers raw =>
    simp only [check, hplace, place?]
    cases hnumbers : OrderNumbers.decode raw with
    | error token => simp
    | ok numbers =>
      by_cases hlength : numbers.length = consumers.length
      · simp only [hlength, numberFor?_eq e.consumer hlength, ne_eq, not_true_eq_false, if_false, bind,
          Except.bind]
        by_cases hzero : numberFor e.consumer consumers numbers = 0
        · simp [hzero, pure, Except.pure]
        · simp only [hzero, if_false]
          cases (e.tracking p).accept? e.policy timestamp
            (numberFor e.consumer consumers numbers) item <;> simp [pure, Except.pure]
      · simp only [hlength, ne_eq, not_false_eq_true, if_true, Tracking.nextExpected?, Trap.plusOne]
        by_cases hlast : (e.tracking p).last < topNumber
        · simp [hlast, bind, Except.bind, pure, Except.pure]
        · simp [hlast, bind, Except.bind]

/-! ### Engines that agree -/

/-- The engines serve one consumer by one policy and know the same of every producer, one that has not
been seen being known like a fresh one. -/
structure Agree (e f : Engine α) : Prop where
  consumer : e.consumer = f.consumer
  policy : e.policy = f.policy
  tracking : ∀ producer, e.tracking producer = f.tracking producer

theorem Agree.check (hagree : Agree e f) (h : Header) (item : α) :
    (e.check h item).2 = (f.check h item).2 ∧ Agree (e.check h item).1 (f.check h item).1 := by
  obtain ⟨hconsumer, hpolicy, htracking⟩ := hagree
  obtain ⟨hec, hep⟩ := check_consumer e h item
  obtain ⟨hfc, hfp⟩ := check_consumer f h item
  refine ⟨(check_congr hconsumer hpolicy (fun p _ => htracking p) item).1, ?_, ?_, fun p => ?_⟩
  · rw [hec, hfc, hconsumer]
  · rw [hep, hfp, hpolicy]
  · rw [tracking_check, tracking_check, hconsumer, hpolicy, htracking p]

theorem Agree.run (hagree : Agree e f) (calls : List (Header × α)) :
    (e.run calls).2 = (f.run calls).2 ∧ Agree (e.run calls).1 (f.run calls).1 := by
  induction calls generalizing e f with
  | nil => exact ⟨rfl, hagree⟩
  | cons c rest ih =>
    obtain ⟨hresult, hafter⟩ := hagree.check c.1 c.2
    obtain ⟨hresults, hend⟩ := ih hafter
    refine ⟨?_, hend⟩
    simp only [Engine.run]
    rw [hresult, hresults]

/-! ### Messages that leave no trace -/

theorem numberFor_of_not_mem {consumer : String} {numbers : List Nat}
    (h : consumer ∉ consumers) : numberFor consumer consumers numbers = 0 := by
  induction consumers generalizing numbers with
  | nil => rfl
  | cons c cs ih =>
    rw [List.mem_cons, not_or] at h
    cases numbers with
    | nil => rfl
    | cons n ns => rw [numberFor, if_neg (Ne.symm h.1), ih h.2]

theorem placed_unseated {consumer : String} (hcase : h.isFaulty = true ∨ h.isForeign consumer = true) :
    h.placement ≠ .none ∧ h.seat? consumer = none := by
  unfold Header.isFaulty Header.isForeign at hcase
  unfold Header.seat?
  cases hplace : h.placement with
  | none => simp [hplace] at hcase
  | untimed p => simp
  | numbered p timestamp consumers raw =>
    rw [hplace] at hcase
    dsimp only at hcase ⊢
    refine ⟨nofun, ?_⟩
    -- A consumer that is not listed has number 0, like one that is listed with it.
    cases hnumbers : OrderNumbers.decode raw with
    | error token => rfl
    | ok numbers =>
      simp only [hnumbers, decide_eq_true_eq, Bool.or_eq_true, Bool.not_eq_true',
        List.contains_eq_mem, decide_eq_false_iff_not] at hcase
      apply if_neg
      rintro ⟨hlength, hnumber⟩
      rcases hcase with hfault | habsent | hzero
      · exact hfault hlength
      · exact hnumber (numberFor_of_not_mem habsent)
      · exact hnumber hzero

/-- A message that is refused, or whose place is not for the consumer, releases nothing and leaves every
tracking as it was, and every run after it is as if it had not come. It is refused exactly if its place
cannot be made out, unless the number after the highest one is asked for to say so; while no highest
number has come, nothing asks for it. -/
theorem refused_or_foreign_leaves_no_trace (e : Engine α) (h : Header) (item : α)
    (hcase : (∃ fault, (e.check h item).2 = .error fault) ∨ h.isForeign e.consumer = true) :
    ((∃ fault, (e.check h item).2 = .error fault) ↔ h.isFaulty = true ∧ e.asksPastTop h = false) ∧
    (∀ before : List (Header × α), (∀ c ∈ before, BelowTop e.consumer c) →
      e = ((fresh e.consumer e.policy).run before).1 → e.asksPastTop h = false) ∧
    released (e.check h item).2 = [] ∧
    (∀ producer, (e.check h item).1.tracking producer = e.tracking producer) ∧
    ∀ calls, ((e.check h item).1.run calls).2 = (e.run calls).2 ∧
      ∀ producer, ((e.check h item).1.run calls).1.tracking producer =
        (e.run calls).1.tracking producer := by
  have hfails := check_fails_iff e h item
  have hcause : h.isFaulty = true ∨ h.isForeign e.consumer = true :=
    hcase.imp_left fun hrefused => (hfails.mp hrefused).1
  obtain ⟨hplaced, hseat⟩ := placed_unseated hcause
  obtain ⟨hkept, hnothing⟩ := check_of_no_seat hseat item
  obtain ⟨hconsumer, hpolicy⟩ := check_consumer e h item
  have hagree : Agree (e.check h item).1 e := ⟨hconsumer, hpolicy, hkept⟩
  refine ⟨hfails, fun before htop hrun => ?_, ?_, hkept, fun calls => ?_⟩
  · rw [hrun]
    exact asksPastTop_run h htop e.policy
  · rw [hnothing, if_neg hplaced]
  · obtain ⟨hresults, hend⟩ := hagree.run calls
    exact ⟨hresults, hend.tracking⟩

/-- Two numbers for one consumer, in an incarnation of its own, while number 2 waits. -/
theorem refused_leaves_no_trace_sample :
    let e : Engine Char := ((fresh "C" .default).run [sampleCall 5 "2" 'b']).1
    let stray := sampleCall 9 "1,1" 'x'
    stray.1.isFaulty = true ∧
      ((e.check stray.1 stray.2).1.run [sampleCall 5 "1" 'a']).2 = [.ok ['a', 'b']] := by
  intro e stray
  have hfaulty : stray.1.isFaulty = true := by decide +kernel
  have hrefused := (check_fails_iff e stray.1 stray.2).mpr ⟨hfaulty, by decide +kernel⟩
  obtain ⟨-, -, -, -, hlater⟩ :=
    refused_or_foreign_leaves_no_trace e stray.1 stray.2 (Or.inl hrefused)
  have hwithout : (e.run [sampleCall 5 "1" 'a']).2 = [.ok ['a', 'b']] := by decide +kernel
  exact ⟨hfaulty, (hlater _).1.trans hwithout⟩

end Engine

end OrderedRelay
