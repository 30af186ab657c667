import OrderedRelay.Proofs.Sequencing.Checked

/-!
# Drains as loops

A drain is a loop on a tracking that may be in any state: what waits may have been passed already or
belong to another incarnation, and the last number may be any. Here both loops are taken step by step,
with arithmetic that stops. The strict one goes on until nothing is left to do, so that it may seem to
run forever; every step but the passing of a gap shortens what waits, and what was behind a gap leaves in
the next step. The legacy one takes the numbers that waited at its start one by one. Both end where the
drains say, within the range of the numbers, and a drain that follows a drain ends at once.
-/

namespace OrderedRelay

/-- A drain with items that have been given out before it. -/
def Drained.after {α : Type} (given : List α) (d : Drained α) : Drained α :=
  { d with released := given ++ d.released }

theorem Drained.after_cons {α : Type} (given : List α) (item : α) (d : Drained α) :
    (d.cons item).after given = d.after (given ++ [item]) := by
  simp [after, cons]

namespace Tracking

open Trap

variable {α : Type} {incarnation : Binary64} {last received maxPending resyncAfter : Nat}
  {e : Early α} {es given : List (Early α)} {d : Drained α}

/-- The numbers that wait ascend, and neither they nor the last number are the highest of all. Nothing
else is asked of a tracking: it need not be one that arrivals lead to. -/
structure Stored (last : Nat) (es : List (Early α)) : Prop where
  last_lt : last < topNumber
  ascending : (es.map Early.number).Pairwise (· < ·)
  below : ∀ e ∈ es, e.number < topNumber

theorem stored_cons :
    Stored last (e :: es) ↔ last < topNumber ∧ (∀ b ∈ es, e.number < b.number) ∧ Stored e.number es := by
  constructor
  · rintro ⟨hlast, hasc, hbelow⟩
    obtain ⟨hfirst, hrest⟩ := List.pairwise_cons.mp hasc
    obtain ⟨he, hes⟩ := List.forall_mem_cons.mp hbelow
    exact ⟨hlast, fun b hb => hfirst b.number (List.mem_map_of_mem hb), he, hrest, hes⟩
  · rintro ⟨hlast, hfirst, he, hrest, hes⟩
    refine ⟨hlast, List.pairwise_cons.mpr ⟨?_, hrest⟩, List.forall_mem_cons.mpr ⟨he, hes⟩⟩
    intro n hn
    obtain ⟨b, hb, rfl⟩ := List.mem_map.mp hn
    exact hfirst b hb

theorem Stored.tail (h : Stored last (e :: es)) : Stored last es :=
  ⟨h.last_lt, (List.pairwise_cons.mp h.ascending).2, (List.forall_mem_cons.mp h.below).2⟩

theorem Stored.released (h : Stored last (e :: es)) : Stored e.number es := (stored_cons.mp h).2.2

/-! ### Steps of the strict loop -/

/-- One step of the strict loop on a drain under way; none is left when the loop returns. -/
def strictStep (maxPending resyncAfter : Nat) (incarnation : Binary64) (d : Drained α) :
    Except Trap (Option (Drained α)) :=
  match d.buffer with
  | [] => .ok none
  | e :: es =>
    if !e.timestamp.equals incarnation || e.number ≤ d.last then
      .ok (some { d with buffer := es })
    else do
      let next ← plusOne d.last
      if e.number = next then
        return some ⟨d.released ++ [e.item], e.number, es⟩
      else if es.length + 1 ≤ Policy.bound maxPending resyncAfter d.last then return none
      else
        let passed ← minusOne e.number
        return some { d with last := passed }

/-- A loop of such steps that returns after `n` of them. -/
inductive Ends {σ : Type} (step : σ → Except Trap (Option σ)) : Nat → σ → σ → Prop
  | stop {s : σ} (h : step s = .ok none) : Ends step 0 s s
  | step {n : Nat} {s s' t : σ} (h : step s = .ok (some s')) (rest : Ends step n s' t) :
      Ends step (n + 1) s t

theorem minusOne_of_lt {m n : Nat} (h : m < n) : minusOne n = .ok (n - 1) := by
  obtain ⟨k, rfl⟩ : ∃ k, n = k + 1 := ⟨n - 1, by omega⟩
  rfl

theorem successor_pred {m n : Nat} (h : m < n) (htop : n < topNumber) : successor (n - 1) = n := by
  rw [successor_of_lt (by omega)]
  omega

theorem fresh_iff :
    ¬ (!e.timestamp.equals incarnation || decide (e.number ≤ last)) = true ↔
      e.timestamp.equals incarnation = true ∧ last < e.number := by
  simp

theorem strictStep_drop (given : List α)
    (h : (!e.timestamp.equals incarnation || decide (e.number ≤ last)) = true) :
    strictStep maxPending resyncAfter incarnation ⟨given, last, e :: es⟩ =
      .ok (some ⟨given, last, es⟩) := by
  rw [strictStep]
  exact if_pos h

theorem strictStep_fresh (maxPending resyncAfter : Nat) (given : List α) (es : List (Early α))
    (hlast : last < topNumber) (hcur : e.timestamp.equals incarnation = true) (hlt : last < e.number) :
    strictStep maxPending resyncAfter incarnation ⟨given, last, e :: es⟩ =
      if e.number = successor last then .ok (some ⟨given ++ [e.item], e.number, es⟩)
      else if es.length + 1 ≤ Policy.bound maxPending resyncAfter last then .ok none
      else .ok (some ⟨given, e.number - 1, e :: es⟩) := by
  have hfresh := fresh_iff.mpr ⟨hcur, hlt⟩
  simp only [strictStep, if_neg hfresh, plusOne_of_lt hlast, minusOne_of_lt hlt, bind, Except.bind,
    pure, Except.pure]

/-- Once the gap before it is passed, the front is next in turn. -/
theorem strictStep_behind_gap (given : List α) (hcur : e.timestamp.equals incarnation = true)
    (hlt : last < e.number) (htop : e.number < topNumber) :
    strictStep maxPending resyncAfter incarnation ⟨given, e.number - 1, e :: es⟩ =
      .ok (some ⟨given ++ [e.item], e.number, es⟩) := by
  rw [strictStep_fresh maxPending resyncAfter given es (by omega) hcur (by omega),
    if_pos (successor_pred hlt htop).symm]

/-- The strict loop returns after at most two steps for each message that waits, with what the drain
gives. -/
theorem strict_loop_ends (maxPending resyncAfter : Nat) (incarnation : Binary64)
    (h : Stored last es) (given : List α) :
    ∃ n ≤ 2 * es.length, Ends (strictStep maxPending resyncAfter incarnation) n ⟨given, last, es⟩
      ((drainStrict maxPending resyncAfter incarnation last es).after given) := by
  induction es generalizing last given with
  | nil =>
    rw [drainStrict_nil, Drained.after, List.append_nil]
    exact ⟨0, Nat.zero_le _, .stop rfl⟩
  | cons e es ih =>
    rw [List.length_cons]
    by_cases hpassed : (!e.timestamp.equals incarnation || decide (e.number ≤ last)) = true
    · obtain ⟨n, hn, hends⟩ := ih h.tail given
      rw [drainStrict_eq, if_pos hpassed]
      exact ⟨n + 1, by omega, .step (strictStep_drop given hpassed) hends⟩
    obtain ⟨hcur, hlt⟩ := fresh_iff.mp hpassed
    obtain ⟨n, hn, hends⟩ := ih h.released (given ++ [e.item])
    have hstep := strictStep_fresh maxPending resyncAfter given es h.last_lt hcur hlt
    rw [drainStrict_eq, if_neg hpassed]
    by_cases hnext : e.number = successor last
    · rw [if_pos hnext] at hstep
      rw [if_pos (Or.inl hnext), Drained.after_cons]
      exact ⟨n + 1, by omega, .step hstep hends⟩
    rw [if_neg hnext] at hstep
    by_cases hfull : Policy.bound maxPending resyncAfter last < es.length + 1
    -- The gap is passed in one step, and the front leaves in the next.
    · rw [if_neg (Nat.not_le.mpr hfull)] at hstep
      rw [if_pos (Or.inr hfull), Drained.after_cons]
      exact ⟨n + 2, by omega,
        .step hstep (.step (strictStep_behind_gap given hcur hlt h.released.last_lt) hends)⟩
    · rw [if_pos (Nat.not_lt.mp hfull)] at hstep
      rw [if_neg (not_or.mpr ⟨hnext, hfull⟩), Drained.after, List.append_nil]
      exact ⟨0, Nat.zero_le _, .stop hstep⟩

/-! ### What a strict drain leaves -/

/-- A strict drain has nothing to do: nothing waits, or the front is current, neither passed nor next in
turn, and there is room for all that waits. -/
inductive AtRest (maxPending resyncAfter : Nat) (incarnation : Binary64) (last : Nat) :
    List (Early α) → Prop
  | empty : AtRest maxPending resyncAfter incarnation last []
  | front {e : Early α} {es : List (Early α)} (current : e.timestamp.equals incarnation = true)
      (past : last < e.number) (gap : e.number ≠ successor last)
      (room : es.length + 1 ≤ Policy.bound maxPending resyncAfter last) :
      AtRest maxPending resyncAfter incarnation last (e :: es)

theorem atRest_drainStrict (maxPending resyncAfter : Nat) (incarnation : Binary64) (last : Nat)
    (es : List (Early α)) :
    let d := drainStrict maxPending resyncAfter incarnation last es
    AtRest maxPending resyncAfter incarnation d.last d.buffer := by
  induction es generalizing last with
  | nil => exact .empty
  | cons e es ih =>
    rw [drainStrict_eq]
    split_ifs with hpassed hgo
    · exact ih last
    · exact ih e.number
    · obtain ⟨hcur, hlt⟩ := fresh_iff.mp hpassed
      obtain ⟨hgap, hroom⟩ := not_or.mp hgo
      exact .front hcur hlt hgap (Nat.not_lt.mp hroom)

theorem stored_drainStrict (maxPending resyncAfter : Nat) (incarnation : Binary64)
    (h : Stored last es) :
    let d := drainStrict maxPending resyncAfter incarnation last es
    Stored d.last d.buffer := by
  induction es generalizing last with
  | nil => exact h
  | cons e es ih =>
    rw [drainStrict_eq]
    split_ifs with hpassed hgo
    · exact ih h.tail
    · exact ih h.released
    · exact h

theorem AtRest.drainStrict_eq (h : AtRest maxPending resyncAfter incarnation last es) :
    drainStrict maxPending resyncAfter incarnation last es = ⟨[], last, es⟩ := by
  cases h with
  | empty => rfl
  | front hcur hlt hgap hroom =>
    rw [drainStrict_eq, if_neg (fresh_iff.mpr ⟨hcur, hlt⟩), if_neg (not_or.mpr ⟨hgap, Nat.not_lt.mpr hroom⟩)]

theorem AtRest.strictStep_eq (h : AtRest maxPending resyncAfter incarnation last es)
    (hlast : last < topNumber) (given : List α) :
    strictStep maxPending resyncAfter incarnation ⟨given, last, es⟩ = .ok none := by
  cases h with
  | empty => rfl
  | front hcur hlt hgap hroom =>
    rw [strictStep_fresh maxPending resyncAfter given _ hlast hcur hlt, if_neg hgap, if_pos hroom]

theorem AtRest.length_le (h : AtRest maxPending resyncAfter incarnation last es) :
    es.length ≤ Policy.bound maxPending resyncAfter last := by
  cases h with
  | empty => exact Nat.zero_le _
  | front _ _ _ hroom => exact hroom

theorem AtRest.ahead (h : AtRest maxPending resyncAfter incarnation last es) (hes : Stored last es) :
    ∀ e ∈ es, successor last < e.number := by
  cases h with
  | empty => exact nofun
  | front _ hlt hgap _ =>
    rw [successor_of_lt hes.last_lt] at hgap ⊢
    have hfirst := Nat.lt_of_le_of_ne hlt hgap.symm
    exact List.forall_mem_cons.mpr
      ⟨hfirst, fun b hb => lt_trans hfirst ((stored_cons.mp hes).2.1 b hb)⟩

/-- The items are those of some of the messages that waited, in the order of their numbers and each past
the last number before it. -/
def Climbing (last : Nat) (es : List (Early α)) (items : List α) : Prop :=
  ∃ out : List (Early α), out.Sublist es ∧ items = out.map Early.item ∧
    (last :: out.map Early.number).Pairwise (· < ·)

theorem Climbing.nil (last : Nat) (es : List (Early α)) : Climbing last es [] :=
  ⟨[], List.nil_sublist es, rfl, List.pairwise_singleton ..⟩

theorem Climbing.drop {items : List α} (h : Climbing last es items) : Climbing last (e :: es) items :=
  let ⟨out, hout, hitems, hasc⟩ := h
  ⟨out, hout.cons e, hitems, hasc⟩

theorem Climbing.cons {items : List α} (h : Climbing e.number es items) (hlt : last < e.number) :
    Climbing last (e :: es) (e.item :: items) := by
  obtain ⟨out, hout, rfl, hasc⟩ := h
  refine ⟨e :: out, hout.cons_cons e, rfl, List.pairwise_cons.mpr ⟨?_, hasc⟩⟩
  intro n hn
  rcases List.mem_cons.mp hn with rfl | hn
  · exact hlt
  · exact lt_trans hlt ((List.pairwise_cons.mp hasc).1 n hn)

theorem climbing_drainStrict (maxPending resyncAfter : Nat) (incarnation : Binary64) (last : Nat)
    (es : List (Early α)) :
    Climbing last es (drainStrict maxPending resyncAfter incarnation last es).released := by
  induction es generalizing last with
  | nil => exact .nil last []
  | cons e es ih =>
    rw [drainStrict_eq]
    split_ifs with hpassed hgo
    · exact (ih last).drop
    · exact (ih e.number).cons (fresh_iff.mp hpassed).2
    · exact .nil last _

/-! ### The legacy scan -/

/-- The last number before the front may leave, if the scan goes on: over a gap only if the newest arrival
is the highest of several that wait. -/
def legacyLast? (received number : Nat) (d : Drained α) : Except Trap (Option Nat) := do
  let next ← plusOne d.last
  if number ≤ next then return some d.last
  else if (d.buffer.getLast?.map Early.number).getD number ≠ received ∨ d.buffer.length < 2 then
    return none
  else return some (← minusOne number)

/-- One number of the scan, looked up in what still waits; none is left when the scan breaks off. -/
def legacyStep (received : Nat) (incarnation : Binary64) (number : Nat) (d : Drained α) :
    Except Trap (Option (Drained α)) :=
  let others := d.buffer.filter fun e => e.number ≠ number
  match d.buffer.find? fun e => e.number = number with
  | none => .ok (some { d with buffer := others })
  | some e =>
    if !e.timestamp.equals incarnation then .ok (some { d with buffer := others })
    else do
      match ← legacyLast? received number d with
      | none => return none
      | some last =>
        if number = (← plusOne last) then return some ⟨d.released ++ [e.item], number, others⟩
        else return some ⟨d.released, last, others⟩

/-- The scan of the numbers that waited at its start. -/
def legacyScan (received : Nat) (incarnation : Binary64) :
    List Nat → Drained α → Except Trap (Drained α)
  | [], d => .ok d
  | number :: numbers, d => do
    match ← legacyStep received incarnation number d with
    | none => return d
    | some d => legacyScan received incarnation numbers d

theorem find?_front (h : Stored last (e :: es)) :
    (e :: es).find? (fun b => b.number = e.number) = some e ∧
      (e :: es).filter (fun b => b.number ≠ e.number) = es := by
  have hothers : ∀ b ∈ es, b.number ≠ e.number := fun b hb => ((stored_cons.mp h).2.1 b hb).ne'
  simpa using hothers

theorem legacyLast?_near (received : Nat) {number : Nat} {d : Drained α} (hlast : d.last < topNumber)
    (h : number ≤ successor d.last) : legacyLast? received number d = .ok (some d.last) := by
  rw [legacyLast?, plusOne_of_lt hlast]
  exact if_pos h

theorem legacyLast?_gap (received : Nat) (e : Early α) (es : List (Early α)) (given : List α)
    (hlast : last < topNumber) (h : successor last < e.number) :
    legacyLast? received e.number ⟨given, last, e :: es⟩ =
      .ok (if highest e es = received ∧ es ≠ [] then some (e.number - 1) else none) := by
  have hhigh : (((e :: es).getLast?).map Early.number).getD e.number = highest e es := by
    rw [List.getLast?_cons, highest, List.getLastD_eq_getLast?]
    rfl
  have hfew : (highest e es ≠ received ∨ (e :: es).length < 2) ↔ ¬ (highest e es = received ∧ es ≠ []) := by
    rw [List.length_cons, ← List.length_pos_iff]
    omega
  simp only [legacyLast?, plusOne_of_lt hlast, hhigh, hfew, minusOne_of_lt h, bind, Except.bind, pure,
    Except.pure]
  rw [if_neg (Nat.not_le.mpr h)]
  split_ifs <;> rfl

/-- The front of what waits when its turn in the scan comes. -/
theorem legacyStep_front (received : Nat) (incarnation : Binary64) (given : List α)
    (h : Stored last (e :: es)) :
    legacyStep received incarnation e.number ⟨given, last, e :: es⟩ =
      if !e.timestamp.equals incarnation || e.number < successor last then
        .ok (some ⟨given, last, es⟩)
      else if e.number = successor last ∨ (highest e es = received ∧ es ≠ []) then
        .ok (some ⟨given ++ [e.item], e.number, es⟩)
      else .ok none := by
  obtain ⟨hfind, hothers⟩ := find?_front h
  have hplus := plusOne_of_lt h.last_lt
  simp only [legacyStep, hfind, hothers]
  by_cases hcur : e.timestamp.equals incarnation = true
  · simp only [hcur, Bool.not_true, Bool.false_eq_true, if_false, Bool.false_or, decide_eq_true_eq]
    rcases Nat.lt_trichotomy e.number (successor last) with hlt | heq | hgt
    · rw [legacyLast?_near received h.last_lt (Nat.le_of_lt hlt), if_pos hlt]
      simp [hplus, hlt.ne, bind, Except.bind, pure, Except.pure]
    · rw [legacyLast?_near received h.last_lt (Nat.le_of_eq heq), if_neg heq.not_lt, if_pos (Or.inl heq)]
      simp [hplus, heq, bind, Except.bind, pure, Except.pure]
    · rw [legacyLast?_gap received e es given h.last_lt hgt, if_neg (Nat.lt_asymm hgt)]
      have hback : plusOne (e.number - 1) = .ok e.number := by
        rw [plusOne_of_lt (by have := h.released.last_lt; omega), successor_pred hgt h.released.last_lt]
      by_cases hgo : highest e es = received ∧ es ≠ []
      · rw [if_pos hgo, if_pos (Or.inr hgo)]
        simp [hback, bind, Except.bind, pure, Except.pure]
      · rw [if_neg hgo, if_neg (not_or.mpr ⟨hgt.ne', hgo⟩)]
        rfl
  · simp [hcur]

/-- The legacy scan ends with what the drain gives. -/
theorem legacy_scan_ends (received : Nat) (incarnation : Binary64) (h : Stored last es)
    (given : List α) :
    legacyScan received incarnation (es.map Early.number) ⟨given, last, es⟩ =
      .ok ((drainLegacy received incarnation last es).after given) := by
  induction es generalizing last given with
  | nil => simp [legacyScan, Drained.after]
  | cons e es ih =>
    rw [List.map_cons, legacyScan, legacyStep_front received incarnation given h, drainLegacy_eq]
    split_ifs with hpassed hgo
    · exact ih h.tail given
    · rw [Drained.after_cons]
      exact ih h.released (given ++ [e.item])
    · rw [Drained.after, List.append_nil]
      rfl

theorem drainLegacy_again (received : Nat) (incarnation : Binary64) (last : Nat)
    (es : List (Early α)) :
    let d := drainLegacy received incarnation last es
    drainLegacy received incarnation d.last d.buffer = ⟨[], d.last, d.buffer⟩ := by
  induction es generalizing last with
  | nil => rfl
  | cons e es ih =>
    rw [drainLegacy_eq]
    split_ifs with hpassed hgo
    · exact ih last
    · exact ih e.number
    · dsimp only
      rw [drainLegacy_eq, if_neg hpassed, if_neg hgo]

theorem stored_drainLegacy (received : Nat) (incarnation : Binary64) (h : Stored last es) :
    let d := drainLegacy received incarnation last es
    Stored d.last d.buffer := by
  induction es generalizing last with
  | nil => exact h
  | cons e es ih =>
    rw [drainLegacy_eq]
    split_ifs with hpassed hgo
    · exact ih h.tail
    · exact ih h.released
    · exact h

/-! ### Drains that follow drains -/

theorem Stored.drainStrictBy_eq (h : Stored last es) (maxPending resyncAfter : Nat)
    (incarnation : Binary64) :
    drainStrictBy .checked maxPending resyncAfter incarnation last es =
      .ok (drainStrict maxPending resyncAfter incarnation last es) :=
  drainStrictBy_checked incarnation last fun e he => (h.below e he).le

theorem Stored.drainLegacyBy_eq (h : Stored last es) (received : Nat) (incarnation : Binary64) :
    drainLegacyBy .checked received incarnation last es =
      .ok (drainLegacy received incarnation last es) :=
  drainLegacyBy_checked incarnation h.ascending (fun e he => (h.below e he).le) fun _ => h.last_lt

/-- From any state the strict drain comes to an end, and its loop returns; what is left is within the
bound and past the next number, and the items given out are in order. The legacy drain and its scan come
to an end. The same drain once more finds nothing to do. -/
theorem drains_settle (t : Tracking α) (h : Stored t.last t.buffer)
    (maxPending resyncAfter received : Nat) :
    (let loop := Ends (strictStep maxPending resyncAfter t.incarnation)
      let drain := drainStrictBy .checked maxPending resyncAfter t.incarnation
      ∃ d, drain t.last t.buffer = .ok d ∧
        (∃ n ≤ 2 * t.buffer.length, loop n ⟨[], t.last, t.buffer⟩ d) ∧
        d.buffer.length ≤ Policy.bound maxPending resyncAfter d.last ∧
        (∀ n ∈ (t.afterDrain d).pending, (t.afterDrain d).nextExpected < n) ∧
        Climbing t.last t.buffer d.released ∧
        loop 0 ⟨[], d.last, d.buffer⟩ ⟨[], d.last, d.buffer⟩ ∧
        drain d.last d.buffer = .ok ⟨[], d.last, d.buffer⟩) ∧
      (let scan := legacyScan received t.incarnation
      let drain := drainLegacyBy .checked received t.incarnation
      ∃ d, drain t.last t.buffer = .ok d ∧
        scan t.pending ⟨[], t.last, t.buffer⟩ = .ok d ∧
        scan (t.afterDrain d).pending ⟨[], d.last, d.buffer⟩ = .ok ⟨[], d.last, d.buffer⟩ ∧
        drain d.last d.buffer = .ok ⟨[], d.last, d.buffer⟩) := by
  have hrest := atRest_drainStrict maxPending resyncAfter t.incarnation t.last t.buffer
  have hkept := stored_drainStrict maxPending resyncAfter t.incarnation h
  have hstrict := hkept.drainStrictBy_eq maxPending resyncAfter t.incarnation
  rw [hrest.drainStrict_eq] at hstrict
  have hkeptLegacy := stored_drainLegacy received t.incarnation h
  have hagain := drainLegacy_again received t.incarnation t.last t.buffer
  have hlegacy := hkeptLegacy.drainLegacyBy_eq received t.incarnation
  have hscan := legacy_scan_ends received t.incarnation hkeptLegacy []
  rw [hagain] at hlegacy hscan
  exact ⟨⟨_, h.drainStrictBy_eq maxPending resyncAfter t.incarnation,
      strict_loop_ends maxPending resyncAfter t.incarnation h [], hrest.length_le,
      List.forall_mem_map.mpr (hrest.ahead hkept), climbing_drainStrict ..,
      .stop (hrest.strictStep_eq hkept.last_lt []), hstrict⟩,
    ⟨_, h.drainLegacyBy_eq received t.incarnation,
      legacy_scan_ends received t.incarnation h [], hscan, hlegacy⟩⟩

/-- A tracking in disorder: the front has been passed, and two messages are of another incarnation. -/
def disordered : Tracking Char where
  last := 5
  incarnation := .one
  buffer := [⟨3, .one, 'a'⟩, ⟨6, .one, 'b'⟩, ⟨8, .zero, 'c'⟩, ⟨9, .one, 'd'⟩, ⟨12, .zero, 'e'⟩,
    ⟨14, .one, 'f'⟩]

theorem drains_settle_disordered :
    Stored disordered.last disordered.buffer ∧
      (∃ n ≤ 12, Ends (strictStep 2 2 .one) n ⟨[], 5, disordered.buffer⟩
        ⟨['b', 'd'], 9, [⟨14, .one, 'f'⟩]⟩) ∧
      legacyScan 9 .one disordered.pending ⟨[], 5, disordered.buffer⟩ =
        .ok ⟨['b'], 6, [⟨9, .one, 'd'⟩, ⟨12, .zero, 'e'⟩, ⟨14, .one, 'f'⟩]⟩ := by
  have hstored : Stored disordered.last disordered.buffer := ⟨by decide, by decide, by decide⟩
  obtain ⟨⟨d, hd, hloop, -⟩, d', hd', hscan, -⟩ := drains_settle disordered hstored 2 2 9
  have hstrict : drainStrictBy .checked 2 2 .one 5 disordered.buffer =
      .ok ⟨['b', 'd'], 9, [⟨14, .one, 'f'⟩]⟩ := by
    decide +kernel
  have hlegacy : drainLegacyBy .checked 9 .one 5 disordered.buffer =
      .ok ⟨['b'], 6, [⟨9, .one, 'd'⟩, ⟨12, .zero, 'e'⟩, ⟨14, .one, 'f'⟩]⟩ := by
    decide +kernel
  obtain rfl := Except.ok.inj (hd.symm.trans hstrict)
  obtain rfl := Except.ok.inj (hd'.symm.trans hlegacy)
  exact ⟨hstored, hloop, hscan⟩

end Tracking

end OrderedRelay
