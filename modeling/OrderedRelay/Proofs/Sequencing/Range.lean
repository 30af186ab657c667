import OrderedRelay.Proofs.Message.OrderNumbers
import OrderedRelay.Proofs.Sequencing.Answers

/-!
# The range of order numbers over a run

A header may state any order number of 64 bits. A check stops where it asks for the number after the
highest one, and nowhere else: nothing underflows and no list is read past its end. For that the
producer must have stated the highest number to this consumer, and it must have been released last;
then every later message of the incarnation stops its check, and so does a query.
-/

namespace OrderedRelay

namespace Engine

open Trap

variable {α : Type} {e : Engine α} {h : Header} {item : α} {s : Seat} {trap : Trap}
  {before calls : List (Header × α)} {consumer producer raw : String} {consumers : List String}
  {numbers : List Nat}

/-! ### One call -/

theorem numberFor_le (hdecode : OrderNumbers.decode raw = .ok numbers) (consumer : String)
    (consumers : List String) : numberFor consumer consumers numbers ≤ topNumber := by
  have hall : ∀ n ∈ numbers, n ≤ topNumber := fun n hn =>
    Nat.le_of_lt_succ (OrderNumbers.lt_of_mem_decode hdecode n hn)
  clear hdecode
  induction consumers generalizing numbers with
  | nil => simp [numberFor]
  | cons x xs ih =>
    cases numbers with
    | nil => simp [numberFor]
    | cons n ns =>
      obtain ⟨hn, hns⟩ := List.forall_mem_cons.mp hall
      rw [numberFor]
      split_ifs
      · exact hn
      · exact ih hns

theorem number_le_of_seat (hseat : h.seat? consumer = some s) : s.number ≤ topNumber := by
  obtain ⟨consumers, raw, numbers, -, hdecode, -, hnumber, -⟩ := Header.placement_of_seat hseat
  exact hnumber ▸ numberFor_le hdecode consumer consumers

/-- A check stops if it asks for the number after the highest one, and only then. -/
theorem check_stops_iff (hfits : ∀ producer, (e.tracking producer).Fits e.policy) (h : Header)
    (item : α) :
    (e.check h item).2 = .stopped trap ↔ trap = .overflow ∧ e.asksPastTop h = true := by
  cases hplace : h.placement with
  | none => simp [check, asksPastTop, hplace]
  | untimed producer => simp [check, asksPastTop, hplace]
  | numbered producer timestamp consumers raw =>
    simp only [check, asksPastTop, hplace, place?]
    cases hdecode : OrderNumbers.decode raw with
    | error token => simp
    | ok numbers =>
      by_cases hlength : numbers.length = consumers.length
      · have haccept := (hfits producer).accept?_eq
          (numberFor_le hdecode e.consumer consumers) timestamp item
        have hle := ((hfits producer).enter timestamp).last_le
        simp only [hlength, ne_eq, not_true_eq_false, if_false, numberFor?_eq e.consumer hlength, haccept, bind,
          Except.bind]
        by_cases hzero : numberFor e.consumer consumers numbers = 0
        · simp [hzero, pure, Except.pure]
        · by_cases hlast : ((e.tracking producer).enter timestamp).last = topNumber
          · simp [hzero, hlast, eq_comm]
          · have hnot : ¬ topNumber ≤ ((e.tracking producer).enter timestamp).last :=
              Nat.not_le.mpr (lt_of_le_of_ne hle hlast)
            simp [hzero, hlast, hnot, pure, Except.pure]
      · simp only [hlength, ne_eq, not_false_eq_true, if_true, Tracking.nextExpected?, plusOne]
        by_cases hlast : (e.tracking producer).last < topNumber
        · simp [hlast, bind, Except.bind, pure, Except.pure]
        · simp [hlast, Nat.not_lt.mp hlast, bind, Except.bind, eq_comm]

/-- A place that can be made out is accepted while no highest number has been passed. -/
theorem check_accepts (hfits : ∀ producer, (e.tracking producer).Fits e.policy)
    (hlow : ∀ producer, (e.tracking producer).last ≠ topNumber) (hh : h.isFaulty = false) (item : α) :
    ∃ items, (e.check h item).2 = .ok items := by
  cases hverdict : (e.check h item).2 with
  | ok items => exact ⟨items, rfl⟩
  | error fault =>
    have hfaulty := ((check_fails_iff e h item).mp ⟨fault, hverdict⟩).1
    rw [hh] at hfaulty
    cases hfaulty
  | stopped trap =>
    have hask := ((check_stops_iff hfits h item).mp hverdict).2
    obtain ⟨producer, -, hlast⟩ := exists_top_le_of_asksPastTop hask
    exact absurd (le_antisymm (hfits producer).last_le hlast) (hlow producer)

theorem report?_eq (hfits : ∀ producer, (e.tracking producer).Fits e.policy) (producer : String) :
    e.report? producer =
      if (e.tracking producer).last = topNumber then .error .overflow
      else .ok ((e.tracking? producer).map fun t => ⟨t.last + 1, t.incarnation, t.pending⟩) := by
  have hle := (hfits producer).last_le
  unfold report?
  cases hseen : e.tracking? producer with
  | none => simp [tracking, hseen, topNumber]
  | some t =>
    have htrack : e.tracking producer = t := by simp [tracking, hseen]
    rw [htrack] at hle ⊢
    by_cases hlast : t.last = topNumber
    · simp [Tracking.report?, Tracking.nextExpected?, plusOne, hlast, bind, Except.bind]
    · simp [Tracking.report?, Tracking.nextExpected?, plusOne, hlast, lt_of_le_of_ne hle hlast, bind,
        Except.bind, pure, Except.pure]

/-! ### Runs -/

/-- What holds after the calls of a run: all trackings fit, they hold only numbers that headers of their
producers state, and nothing has stopped but where a number was too high, which takes one that states
the highest. -/
structure InRange (e : Engine α) (calls : List (Header × α)) : Prop where
  fits : ∀ producer, (e.tracking producer).Fits e.policy
  stated : ∀ producer, ∀ n ∈ (e.tracking producer).held,
    n = 0 ∨ n ∈ numbersFrom e.consumer producer calls
  stops : ∀ trap ∈ e.stops,
    trap = .overflow ∧ ∃ producer, topNumber ∈ numbersFrom e.consumer producer calls

theorem inRange_fresh (consumer : String) (policy : Policy) :
    (fresh consumer policy : Engine α).InRange [] := by
  refine ⟨fun _ => Tracking.fits_empty policy _, fun producer n hn => ?_, nofun⟩
  exact Or.inl (List.mem_singleton.mp hn)

theorem InRange.top_stated (hin : e.InRange before) (hlast : topNumber ≤ (e.tracking producer).last) :
    (e.tracking producer).last = topNumber ∧ topNumber ∈ numbersFrom e.consumer producer before := by
  have heq := le_antisymm (hin.fits producer).last_le hlast
  have hheld : topNumber ∈ (e.tracking producer).held := heq ▸ List.mem_cons_self ..
  exact ⟨heq, (hin.stated producer topNumber hheld).resolve_left (by decide)⟩

/-- The stops of an engine record the verdicts that did not come to an end. -/
theorem stops_check (e : Engine α) (h : Header) (item : α) :
    ∀ trap ∈ (e.check h item).1.stops, trap ∈ e.stops ∨ (e.check h item).2 = .stopped trap := by
  unfold check
  split
  · exact fun trap htrap => Or.inl htrap
  · exact fun trap htrap => Or.inl htrap
  · split
    · rename_i outcome hok
      obtain ⟨t, ht⟩ := place?_ok hok
      intro trap htrap
      rw [ht] at htrap
      exact Or.inl htrap
    · rename_i trap hstop
      intro other hother
      rcases List.mem_append.mp hother with hold | hnew
      · exact Or.inl hold
      · exact Or.inr (by rw [List.mem_singleton.mp hnew])

theorem InRange.check (hin : e.InRange before) (h : Header) (item : α) :
    (e.check h item).1.InRange (before ++ [(h, item)]) := by
  obtain ⟨hconsumer, hpolicy⟩ := check_consumer e h item
  have hmore : ∀ producer, numbersFrom e.consumer producer before ⊆
      numbersFrom e.consumer producer (before ++ [(h, item)]) := by
    intro producer n hn
    rw [numbersFrom_append]
    exact List.mem_append_left _ hn
  have htracked : ∀ producer, ((e.check h item).1.tracking producer).Fits e.policy ∧
      ∀ n ∈ ((e.check h item).1.tracking producer).held,
        n = 0 ∨ n ∈ numbersFrom e.consumer producer (before ++ [(h, item)]) := by
    intro producer
    have hkept : ∀ n ∈ (e.tracking producer).held,
        n = 0 ∨ n ∈ numbersFrom e.consumer producer (before ++ [(h, item)]) :=
      fun n hn => (hin.stated producer n hn).imp_right fun hn => hmore producer hn
    cases hseat : h.seat? e.consumer with
    | none =>
      rw [(check_of_no_seat hseat item).1]
      exact ⟨hin.fits producer, hkept⟩
    | some s =>
      rw [tracking_check_of_seat hseat]
      split_ifs with hp
      · -- What is held then is the number that arrived, one held before, or the 0 of a start over.
        subst hp
        obtain ⟨hfits, hheld⟩ := (hin.fits s.producer).accept_keeps (number_le_of_seat hseat)
          s.timestamp item
        refine ⟨hfits, fun n hn => ?_⟩
        rcases List.mem_cons.mp (hheld hn) with rfl | hn
        · exact Or.inr (mem_numbersFrom.mpr ⟨(h, item), by simp, s, hseat, rfl, rfl⟩)
        · rcases List.mem_cons.mp hn with rfl | hn
          · exact Or.inl rfl
          · exact hkept n hn
      · exact ⟨hin.fits producer, hkept⟩
  refine ⟨fun producer => hpolicy ▸ (htracked producer).1,
    fun producer => hconsumer ▸ (htracked producer).2, fun trap htrap => ?_⟩
  rw [hconsumer]
  rcases stops_check e h item trap htrap with hold | hnew
  · obtain ⟨hoverflow, producer, hstated⟩ := hin.stops trap hold
    exact ⟨hoverflow, producer, hmore producer hstated⟩
  · obtain ⟨hoverflow, hask⟩ := (check_stops_iff hin.fits h item).mp hnew
    obtain ⟨producer, -, hlast⟩ := exists_top_le_of_asksPastTop hask
    exact ⟨hoverflow, producer, hmore producer (hin.top_stated hlast).2⟩

theorem InRange.run (hin : e.InRange before) (calls : List (Header × α)) :
    (e.run calls).1.InRange (before ++ calls) := by
  induction calls generalizing e before with
  | nil => rwa [List.append_nil]
  | cons c rest ih =>
    have hrest := ih (hin.check c.1 c.2)
    rwa [List.append_assoc] at hrest

/-- While every number is below the highest, every check of a run comes to an end. -/
theorem run_never_stops (htop : ∀ c ∈ calls, BelowTop consumer c) (policy : Policy) :
    ∀ verdict ∈ ((fresh consumer policy).run calls).2, ∀ trap, verdict ≠ .stopped trap := by
  induction calls using List.reverseRecOn with
  | nil => exact nofun
  | append_singleton past c ih =>
    have hpast : ∀ d ∈ past, BelowTop consumer d := fun d hd => htop d (List.mem_append_left _ hd)
    have hin := (inRange_fresh consumer policy).run past
    intro verdict hverdict trap
    rw [run_append, List.mem_append] at hverdict
    rcases hverdict with hold | hnew
    · exact ih hpast verdict hold trap
    · rw [List.mem_singleton.mp hnew]
      intro hstop
      have hask := ((check_stops_iff hin.fits c.1 c.2).mp hstop).2
      rw [asksPastTop_run c.1 hpast policy] at hask
      cases hask

/-- In every run, a check stops exactly where it asks for the number after the highest one, as a query
does, and nothing else stops them. The number is that of the producer in whose order the message is,
which has stated the highest number to this consumer; while none has, nothing stops. -/
theorem stops_only_past_top (consumer : String) (policy : Policy) (calls : List (Header × α)) :
    let e : Engine α := ((fresh consumer policy).run calls).1
    (∀ h item trap, (e.check h item).2 = .stopped trap ↔ trap = .overflow ∧ e.asksPastTop h = true) ∧
    (∀ h, e.asksPastTop h = true → ∃ producer, h.placement.producer? = some producer ∧
      (e.tracking producer).last = topNumber) ∧
    (∀ producer, e.report? producer =
      if (e.tracking producer).last = topNumber then .error .overflow
      else .ok ((e.tracking? producer).map fun t => ⟨t.last + 1, t.incarnation, t.pending⟩)) ∧
    (∀ producer, (e.tracking producer).last = topNumber →
      topNumber ∈ numbersFrom consumer producer calls) ∧
    ∀ trap ∈ e.stops, trap = .overflow ∧ ∃ producer, topNumber ∈ numbersFrom consumer producer calls := by
  intro e
  have hin : e.InRange calls := (inRange_fresh consumer policy).run calls
  have hconsumer : e.consumer = consumer := (run_consumer _ calls).1
  refine ⟨fun h item trap => check_stops_iff hin.fits h item, fun h hask => ?_,
    report?_eq hin.fits, fun producer hlast => ?_, hconsumer ▸ hin.stops⟩
  · obtain ⟨producer, hplace, hlast⟩ := exists_top_le_of_asksPastTop hask
    exact ⟨producer, hplace, (hin.top_stated hlast).1⟩
  · exact hconsumer ▸ (hin.top_stated hlast.ge).2

/-- A message numbered with the highest number becomes the legacy baseline. An old message then stops
its check, and a query stops; counted modulo 2⁶⁴ the next number would be 0. -/
theorem stopped_past_top :
    let top := sampleCall 5 "18446744073709551615" 'a'
    let old := sampleCall 5 "5" 'b'
    let e : Engine Char := ((fresh "C" .legacy).run [top]).1
    ((fresh "C" .legacy).run [top, old]).2 = [.ok ['a'], .stopped .overflow] ∧
      e.report? "P" = .error .overflow ∧ (e.tracking "P").nextExpected = 0 := by
  decide +kernel

end Engine

end OrderedRelay
