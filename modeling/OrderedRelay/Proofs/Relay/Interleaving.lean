import Mathlib.Data.List.Flatten
import OrderedRelay.Proofs.Relay.Writers

/-!
# Wire order follows number order

The lock spans the stamping of a message and its publish. So however the steps of any number of calls
interleave, the relay is where its stamped writes, one after another, would have brought it, and the
messages reach the transport in the order in which they were stamped: a consumer's numbers on the wire
only rise, and none is missing as long as no publish has failed.
-/

namespace OrderedRelay

namespace Desk

def writes (d : Desk) : List Write := d.stamped.map Stamping.write

def messages (d : Desk) : List Publication := d.stamped.map Stamping.publication

def stampers (d : Desk) : List Nat := d.stamped.map Stamping.call

/-- The numbers stamped for a consumer, in order. -/
def numbersStamped (d : Desk) (x : String) : List Nat :=
  d.messages.flatMap fun p => p.message.header.numbersFor x

/-- The numbers of a consumer on the wire, in order. -/
def numbersOnWire (d : Desk) (x : String) : List Nat :=
  d.wire.flatMap fun p => p.message.header.numbersFor x

end Desk

/-! ### What a step does to the lock, the counters and the wire -/

namespace Writers

section Advances

variable {k : Nat} {w : Write} {d d' : Desk} {old : Option Stage} {stage : Stage}

theorem Advances.lock_cases (h : Advances k w d old stage d') :
    (d'.holder = d.holder ∧ stage.holds = old.any Stage.holds) ∨
    (d.holder = none ∧ d'.holder = some k ∧ stage.holds = true) ∨
    (old.any Stage.holds = true ∧ d'.holder = none ∧ stage.holds = false) := by
  cases h with
  | lock hfree => exact .inr (.inl ⟨hfree, rfl, rfl⟩)
  | unlock => exact .inr (.inr ⟨rfl, rfl, rfl⟩)
  | call | look | unconnected | route | refused | stamp | hand | fail | answer =>
    exact .inl ⟨rfl, rfl⟩

theorem Advances.stamp_cases (h : Advances k w d old stage d') :
    (d'.relay = d.relay ∧ d'.stamped = d.stamped ∧ stage.hasStamped = old.any Stage.hasStamped) ∨
    ∃ route h, old = some (.locked route h) ∧ stage.hasStamped = true ∧
      d'.relay = (d.relay.stamp route h).1 ∧
      d'.stamped = d.stamped ++ [⟨k, w, w.onRoute route (d.relay.stamp route h).2⟩] := by
  cases h with
  | stamp route h => exact .inr ⟨route, h, rfl, rfl, rfl, rfl⟩
  | unlock outcome =>
    refine .inl ⟨rfl, rfl, ?_⟩
    cases outcome <;> rfl
  | call | look | unconnected | route | refused | lock | hand | fail | answer =>
    exact .inl ⟨rfl, rfl, rfl⟩

theorem Advances.wire_cases (h : Advances k w d old stage d') :
    (d'.wire = d.wire ∧ d'.stamped = d.stamped ∧ (∀ p, old ≠ some (.stamped p)) ∧
      ∀ p, stage ≠ .stamped p) ∨
    (∃ p, old.any Stage.holds = true ∧ (∀ p, old ≠ some (.stamped p)) ∧ stage = .stamped p ∧
      d'.wire = d.wire ∧ d'.stamped = d.stamped ++ [⟨k, w, p⟩]) ∨
    (∃ p, old = some (.stamped p) ∧ stage = .handed ∧ d'.wire = d.wire ++ [p] ∧
      d'.stamped = d.stamped) ∨
    (∃ p e, old = some (.stamped p) ∧ stage = .answered (.error e) ∧ d'.wire = d.wire ∧
      d'.stamped = d.stamped) := by
  cases h with
  | stamp => exact .inr (.inl ⟨_, rfl, nofun, rfl, rfl, rfl⟩)
  | hand p => exact .inr (.inr (.inl ⟨p, rfl, rfl, rfl, rfl⟩))
  | fail p e => exact .inr (.inr (.inr ⟨p, e, rfl, rfl, rfl, rfl⟩))
  | call | look | unconnected | route | refused | lock | answer | unlock =>
    exact .inl ⟨rfl, rfl, nofun, nofun⟩

theorem Advances.hasFailed (h : Advances k w d old stage d')
    (hold : old.any Stage.hasFailed = true) : stage.hasFailed = true := by
  cases h with
  | unlock outcome =>
    cases outcome with
    | ok => cases hold
    | error => rfl
  | call | look | unconnected | route | refused | lock | stamp | hand | fail | answer =>
    cases hold

theorem Advances.routed {i : Identity} (h : Advances k w d old stage d')
    (hidentity : d.relay.identity = i) (hold : ∀ st, old = some st → st.Routed i w) :
    stage.Routed i w := by
  cases h with
  | route hroute => exact ⟨hidentity ▸ hroute, rfl⟩
  | lock =>
    have hrouted := hold _ rfl
    exact hrouted
  | call | look | unconnected | refused | stamp | hand | fail | answer | unlock => trivial

end Advances

/-! ### Where the calls are -/

def At (s : Writers) (k : Nat) (P : Stage → Bool) : Prop :=
  ∃ c, s.call? k = some c ∧ P c.stage = true

namespace Moves

variable {s s' : Writers} {k j : Nat} {w : Write} {old : Option Stage} {stage : Stage}
  {P : Stage → Bool}

theorem at_old (h : Moves s s' k w old stage) : s.At k P ↔ old.any P = true := by
  unfold At
  rw [h.before]
  cases old <;> simp

theorem at_self (h : Moves s s' k w old stage) : s'.At k P ↔ P stage = true := by
  unfold At
  rw [h.after]
  simp

theorem at_other (h : Moves s s' k w old stage) (hj : j ≠ k) : s'.At j P ↔ s.At j P := by
  unfold At
  rw [h.others j hj]

theorem old_of_call? (h : Moves s s' k w old stage) {v : Write} {st : Stage}
    (hcall : s.call? k = some ⟨v, st⟩) : old = some st ∧ v = w := by
  rw [h.before] at hcall
  obtain ⟨o, ho, hsame⟩ := Option.map_eq_some_iff.mp hcall
  obtain ⟨rfl, rfl⟩ := Writing.mk.inj hsame
  exact ⟨ho, rfl⟩

/-- Where a call is after a step, it is there before it or has just come there. -/
theorem call?_cases (h : Moves s s' k w old stage) {v : Write} {st : Stage}
    (hcall : s'.call? j = some ⟨v, st⟩) :
    (j = k ∧ v = w ∧ st = stage) ∨ (j ≠ k ∧ s.call? j = some ⟨v, st⟩) := by
  by_cases hj : j = k
  · subst hj
    have hsame := Option.some.inj (h.after.symm.trans hcall)
    exact .inl ⟨rfl, (congrArg Writing.write hsame).symm, (congrArg Writing.stage hsame).symm⟩
  · exact .inr ⟨hj, (h.others j hj).symm.trans hcall⟩

theorem write_of_call? (h : Moves s s' k w old stage) {v : Write} {st : Stage}
    (hcall : s.call? j = some ⟨v, st⟩) : ∃ st, s'.call? j = some ⟨v, st⟩ := by
  by_cases hj : j = k
  · subst hj
    obtain ⟨-, rfl⟩ := h.old_of_call? hcall
    exact ⟨stage, h.after⟩
  · exact ⟨st, (h.others j hj).trans hcall⟩

theorem unfailed (h : Moves s s' k w old stage) (hunfailed : s'.Unfailed) : s.Unfailed := by
  intro j c hc
  by_contra hfailed
  have hat : s.At j Stage.hasFailed := ⟨c, hc, by simpa using hfailed⟩
  by_cases hj : j = k
  · subst hj
    have hstage := h.advances.hasFailed (h.at_old.mp hat)
    rw [hunfailed j _ h.after] at hstage
    cases hstage
  · obtain ⟨c', hc', hfailed'⟩ := (h.at_other hj).mpr hat
    rw [hunfailed j c' hc'] at hfailed'
    cases hfailed'

end Moves

/-! ### What holds after any steps -/

/-- The wire has the given messages in order, all of them if no publish has failed. -/
def Carries (s : Writers) (stamped : List Stamping) : Prop :=
  s.desk.wire.Sublist (stamped.map Stamping.publication) ∧
    (s.Unfailed → s.desk.wire = stamped.map Stamping.publication)

/-- What holds of the calls on a relay that started as the given one. -/
structure Sound (r : Relay) (s : Writers) : Prop where
  prepared : r.prepareEach s.desk.writes = (s.desk.relay, s.desk.messages.map .ok)
  routed : ∀ k w stage, s.call? k = some ⟨w, stage⟩ → stage.Routed r.identity w
  locked : ∀ k, s.desk.holder = some k ↔ s.At k Stage.holds
  recorded : ∀ k, k ∈ s.desk.stampers ↔ s.At k Stage.hasStamped
  once : s.desk.stampers.Nodup
  written : ∀ e ∈ s.desk.stamped, ∃ stage, s.call? e.call = some ⟨e.write, stage⟩
  waiting : ∀ k w p, s.call? k = some ⟨w, .stamped p⟩ →
    ∃ before, s.desk.stamped = before ++ [⟨k, w, p⟩] ∧ s.Carries before
  clear : (∀ k w p, s.call? k ≠ some ⟨w, .stamped p⟩) → s.Carries s.desk.stamped

theorem call?_start (r : Relay) (k : Nat) : (start r).call? k = none := List.getElem?_nil

theorem not_at_start (r : Relay) (k : Nat) (P : Stage → Bool) : ¬ (start r).At k P := by
  rintro ⟨c, hc, -⟩
  rw [call?_start] at hc
  cases hc

theorem sound_start (r : Relay) : (start r).Sound r where
  prepared := rfl
  routed k _ _ h := absurd ((call?_start r k).symm.trans h) nofun
  locked k := iff_of_false nofun (not_at_start r k _)
  recorded k := iff_of_false List.not_mem_nil (not_at_start r k _)
  once := List.nodup_nil
  written _ he := absurd he List.not_mem_nil
  waiting k _ _ h := absurd ((call?_start r k).symm.trans h) nofun
  clear _ := ⟨List.Sublist.refl _, fun _ => rfl⟩

namespace Moves

variable {r : Relay} {s s' : Writers} {k : Nat} {w : Write} {old : Option Stage} {stage : Stage}

theorem identity_of_sound (h : s.Sound r) : s.desk.relay.identity = r.identity := by
  have hrelay : (r.prepareEach s.desk.writes).1 = s.desk.relay := by rw [h.prepared]
  rw [← hrelay, Relay.prepareEach_fst]
  rfl

theorem routed_step (h : Moves s s' k w old stage) (hs : s.Sound r) :
    ∀ j v st, s'.call? j = some ⟨v, st⟩ → st.Routed r.identity v := by
  intro j v st hcall
  rcases h.call?_cases hcall with ⟨rfl, rfl, rfl⟩ | ⟨-, hbefore⟩
  · refine h.advances.routed (identity_of_sound hs) fun o ho => hs.routed j v o ?_
    rw [h.before, ho]
    rfl
  · exact hs.routed j v st hbefore

/-- A stamping that adds to the record is what comes next in preparing one write after another. -/
theorem prepared_step (h : Moves s s' k w old stage) (hs : s.Sound r) :
    r.prepareEach s'.desk.writes = (s'.desk.relay, s'.desk.messages.map .ok) := by
  rcases h.advances.stamp_cases with ⟨hrelay, hstamped, -⟩ |
    ⟨route, header, rfl, -, hrelay, hstamped⟩
  · rw [Desk.writes, Desk.messages, hrelay, hstamped]
    exact hs.prepared
  · obtain ⟨hroute, rfl⟩ := hs.routed k w _ h.before
    rw [← identity_of_sound hs] at hroute
    have hwrites : s'.desk.writes = s.desk.writes ++ [w] := by
      rw [Desk.writes, hstamped, List.map_append]
      rfl
    have hmessages : s'.desk.messages = s.desk.messages ++
        [w.onRoute route (s.desk.relay.stamp route w.header).2] := by
      rw [Desk.messages, hstamped, List.map_append]
      rfl
    have hlast : s.desk.relay.prepareEach [w] = ((s.desk.relay.stamp route w.header).1,
        [.ok (w.onRoute route (s.desk.relay.stamp route w.header).2)]) := by
      simp only [Relay.prepareEach, Relay.prepare_of_route hroute]
    rw [hwrites, hmessages, hrelay, Relay.prepareEach_append, hs.prepared, hlast, List.map_append]
    rfl

theorem locked_step (h : Moves s s' k w old stage) (hs : s.Sound r) (j : Nat) :
    s'.desk.holder = some j ↔ s'.At j Stage.holds := by
  by_cases hj : j = k
  · subst hj
    rw [h.at_self]
    rcases h.advances.lock_cases with ⟨hholder, hstage⟩ | ⟨-, hholder, hstage⟩ |
      ⟨-, hholder, hstage⟩
    · rw [hholder, hstage, hs.locked j, h.at_old]
    · rw [hholder, hstage]
      exact ⟨fun _ => rfl, fun _ => rfl⟩
    · rw [hholder, hstage]
      exact ⟨nofun, nofun⟩
  · rw [h.at_other hj, ← hs.locked j]
    rcases h.advances.lock_cases with ⟨hholder, -⟩ | ⟨hfree, hholder, -⟩ | ⟨hheld, hholder, -⟩
    · rw [hholder]
    · rw [hholder, hfree, Option.some.injEq]
      exact ⟨fun hk => absurd hk.symm hj, nofun⟩
    · rw [hholder, (hs.locked k).mpr (h.at_old.mpr hheld), Option.some.injEq]
      exact ⟨nofun, fun hk => absurd hk.symm hj⟩

theorem recorded_step (h : Moves s s' k w old stage) (hs : s.Sound r) (j : Nat) :
    j ∈ s'.desk.stampers ↔ s'.At j Stage.hasStamped := by
  rcases h.advances.stamp_cases with ⟨-, hstamped, hstage⟩ | ⟨route, header, -, hstage, -, hstamped⟩
  · rw [Desk.stampers, hstamped]
    by_cases hj : j = k
    · subst hj
      rw [h.at_self, hstage, ← h.at_old]
      exact hs.recorded j
    · rw [h.at_other hj]
      exact hs.recorded j
  · rw [Desk.stampers, hstamped, List.map_append, List.mem_append]
    by_cases hj : j = k
    · subst hj
      rw [h.at_self]
      exact ⟨fun _ => hstage, fun _ => .inr List.mem_cons_self⟩
    · rw [h.at_other hj, ← hs.recorded j]
      refine ⟨fun hmem => hmem.resolve_right fun hlast => hj (List.mem_singleton.mp hlast), .inl⟩

/-- A call that is about to stamp has not stamped yet. -/
theorem once_step (h : Moves s s' k w old stage) (hs : s.Sound r) : s'.desk.stampers.Nodup := by
  rcases h.advances.stamp_cases with ⟨-, hstamped, -⟩ | ⟨route, header, rfl, -, -, hstamped⟩
  · rw [Desk.stampers, hstamped]
    exact hs.once
  · have hnew : k ∉ s.desk.stampers := by
      rw [hs.recorded k, h.at_old]
      exact Bool.false_ne_true
    rw [Desk.stampers, hstamped, List.map_append]
    refine List.nodup_append.mpr ⟨hs.once, List.nodup_singleton _, ?_⟩
    rintro a ha b hb rfl
    rw [List.mem_singleton.mp hb] at ha
    exact hnew ha

theorem written_step (h : Moves s s' k w old stage) (hs : s.Sound r) :
    ∀ e ∈ s'.desk.stamped, ∃ st, s'.call? e.call = some ⟨e.write, st⟩ := by
  intro e he
  have hcases : e ∈ s.desk.stamped ∨ (e.call = k ∧ e.write = w) := by
    rcases h.advances.stamp_cases with ⟨-, hstamped, -⟩ | ⟨route, header, -, -, -, hstamped⟩
    · exact .inl (hstamped ▸ he)
    · rw [hstamped] at he
      rcases List.mem_append.mp he with hbefore | hlast
      · exact .inl hbefore
      · obtain rfl := List.mem_singleton.mp hlast
        exact .inr ⟨rfl, rfl⟩
  rcases hcases with hbefore | ⟨hcall, hwrite⟩
  · obtain ⟨st, hst⟩ := hs.written e hbefore
    exact h.write_of_call? hst
  · exact ⟨stage, by rw [hcall, hwrite]; exact h.after⟩

theorem carries_step (h : Moves s s' k w old stage) (hwire : s'.desk.wire = s.desk.wire)
    {stamped : List Stamping} (hcarries : s.Carries stamped) : s'.Carries stamped := by
  rw [Carries, hwire]
  exact ⟨hcarries.1, fun hunfailed => hcarries.2 (h.unfailed hunfailed)⟩

/-- Only one call at a time has the lock. -/
theorem eq_of_holds (hs : s.Sound r) {i j : Nat} (hi : s.At i Stage.holds)
    (hj : s.At j Stage.holds) : i = j :=
  Option.some.inj (((hs.locked i).mpr hi).symm.trans ((hs.locked j).mpr hj))

theorem eq_of_waiting (h : Moves s s' k w old stage) (hs : s.Sound r)
    (hheld : old.any Stage.holds = true) {j : Nat} {v : Write} {p : Publication}
    (hcall : s.call? j = some ⟨v, .stamped p⟩) : j = k :=
  eq_of_holds hs ⟨_, hcall, rfl⟩ (h.at_old.mpr hheld)

/-- A message that waits for its publish is the last one stamped, and all before it have gone. -/
theorem waiting_step (h : Moves s s' k w old stage) (hs : s.Sound r) :
    ∀ j v p, s'.call? j = some ⟨v, .stamped p⟩ →
      ∃ before, s'.desk.stamped = before ++ [⟨j, v, p⟩] ∧ s'.Carries before := by
  intro j v p hcall
  -- A call that waits has the lock, so the one that moves is another only if it leaves the wire alone.
  rcases h.advances.wire_cases with ⟨hwire, hstamped, -, hstage⟩ |
    ⟨q, hheld, hold, rfl, hwire, hstamped⟩ | ⟨q, rfl, rfl, -⟩ | ⟨q, e, rfl, rfl, -⟩
  · rcases h.call?_cases hcall with ⟨-, -, hnow⟩ | ⟨-, hbefore⟩
    · exact absurd hnow.symm (hstage p)
    · obtain ⟨before, hlast, hcarries⟩ := hs.waiting j v p hbefore
      exact ⟨before, hstamped.trans hlast, h.carries_step hwire hcarries⟩
  · rcases h.call?_cases hcall with ⟨rfl, rfl, hnow⟩ | ⟨hj, hbefore⟩
    · obtain rfl := Stage.stamped.inj hnow
      refine ⟨s.desk.stamped, hstamped, h.carries_step hwire (hs.clear fun i u q hi => ?_)⟩
      obtain rfl := h.eq_of_waiting hs hheld hi
      exact hold q (h.old_of_call? hi).1
    · exact absurd (h.eq_of_waiting hs hheld hbefore) hj
  · rcases h.call?_cases hcall with ⟨-, -, hnow⟩ | ⟨hj, hbefore⟩
    · cases hnow
    · exact absurd (h.eq_of_waiting hs rfl hbefore) hj
  · rcases h.call?_cases hcall with ⟨-, -, hnow⟩ | ⟨hj, hbefore⟩
    · cases hnow
    · exact absurd (h.eq_of_waiting hs rfl hbefore) hj

theorem clear_step (h : Moves s s' k w old stage) (hs : s.Sound r)
    (hnone : ∀ j v p, s'.call? j ≠ some ⟨v, .stamped p⟩) : s'.Carries s'.desk.stamped := by
  rcases h.advances.wire_cases with ⟨hwire, hstamped, hold, -⟩ | ⟨q, -, -, rfl, -, -⟩ |
    ⟨q, rfl, rfl, hwire, hstamped⟩ | ⟨q, e, rfl, rfl, hwire, hstamped⟩
  · rw [hstamped]
    refine h.carries_step hwire (hs.clear fun j v p hj => ?_)
    by_cases hk : j = k
    · subst hk
      exact hold p (h.old_of_call? hj).1
    · exact hnone j v p ((h.others j hk).trans hj)
  · exact absurd h.after (hnone k w q)
  · obtain ⟨before, hlast, hsublist, hall⟩ := hs.waiting k w q h.before
    rw [Carries, hstamped, hlast, hwire, List.map_append]
    refine ⟨hsublist.append (List.Sublist.refl _), fun hunfailed => ?_⟩
    rw [hall (h.unfailed hunfailed)]
    rfl
  · obtain ⟨before, hlast, hsublist, -⟩ := hs.waiting k w q h.before
    rw [Carries, hstamped, hlast, hwire, List.map_append]
    refine ⟨hsublist.trans (List.sublist_append_left _ _), fun hunfailed => ?_⟩
    have hnow : true = false := hunfailed k _ h.after
    cases hnow

theorem sound_step (h : Moves s s' k w old stage) (hs : s.Sound r) : s'.Sound r where
  prepared := h.prepared_step hs
  routed := h.routed_step hs
  locked := h.locked_step hs
  recorded := h.recorded_step hs
  once := h.once_step hs
  written := h.written_step hs
  waiting := h.waiting_step hs
  clear := h.clear_step hs

end Moves

theorem sound_of_run {r : Relay} {s s' : Writers} {events : List Event} (hs : s.Sound r)
    (hrun : s.run events = some s') : s'.Sound r := by
  induction events generalizing s with
  | nil =>
    obtain rfl := Option.some.inj hrun
    exact hs
  | cons e rest ih =>
    rw [run_cons] at hrun
    obtain ⟨mid, hstep, hrest⟩ := Option.bind_eq_some_iff.mp hrun
    obtain ⟨k, w, old, stage, hmoves⟩ := moves_of_step hstep
    exact ih (hmoves.sound_step hs) hrest

/-! ### Numbers -/

namespace Sound

variable {r : Relay} {s : Writers} {x : String}

/-- What has been stamped last may wait for its publish; all before it has gone. -/
theorem wire_cases (hs : s.Sound r) :
    ∃ gone rest, s.desk.stamped = gone ++ rest ∧ s.Carries gone := by
  by_cases hwaits : ∃ k w p, s.call? k = some ⟨w, .stamped p⟩
  · obtain ⟨k, w, p, hcall⟩ := hwaits
    obtain ⟨before, hlast, hcarries⟩ := hs.waiting k w p hcall
    exact ⟨before, _, hlast, hcarries⟩
  · refine ⟨s.desk.stamped, [], (List.append_nil _).symm, hs.clear fun k w p hcall => ?_⟩
    exact hwaits ⟨k, w, p, hcall⟩

theorem wire_sublist (hs : s.Sound r) : s.desk.wire.Sublist s.desk.messages := by
  obtain ⟨gone, rest, hstamped, hsublist, -⟩ := hs.wire_cases
  rw [Desk.messages, hstamped, List.map_append]
  exact hsublist.trans (List.sublist_append_left _ _)

theorem counters_eq (hs : s.Sound r) : s.desk.relay.counters =
    (r.counters.nextAll (s.desk.writes.flatMap (Write.takers r.identity))).1 := by
  have hrelay : (r.prepareEach s.desk.writes).1 = s.desk.relay := by rw [hs.prepared]
  rw [← hrelay, Relay.prepareEach_fst]

theorem numbersStamped_eq (hs : s.Sound r) (hnew : r.counters = {}) (x : String) :
    s.desk.numbersStamped x =
      (List.range' 1 (s.desk.numbersStamped x).length).map (· % Decimal.bound64) := by
  have hnumbers := Relay.preparedNumbers_prepareEach r s.desk.writes x
  rw [hs.prepared, List.flatMap_map, hnew] at hnumbers
  have hstamped : s.desk.numbersStamped x =
      (List.range' 1 ((s.desk.writes.flatMap (Write.takers r.identity)).count x)).map
        (· % Decimal.bound64) := hnumbers
  rw [hstamped, List.length_map, List.length_range']

theorem numbersStamped_of_lt (hs : s.Sound r) (hnew : r.counters = {})
    (hlt : (s.desk.numbersStamped x).length < Decimal.bound64) :
    s.desk.numbersStamped x = List.range' 1 (s.desk.numbersStamped x).length := by
  refine (hs.numbersStamped_eq hnew x).trans ((List.map_congr_left fun n hn => ?_).trans
    (List.map_id _))
  rw [List.mem_range'_1] at hn
  exact Nat.mod_eq_of_lt (by omega)

theorem rising (hs : s.Sound r) (hnew : r.counters = {})
    (hlt : (s.desk.numbersStamped x).length < Decimal.bound64) :
    (s.desk.numbersStamped x).Pairwise (· < ·) := by
  rw [hs.numbersStamped_of_lt hnew hlt]
  exact List.pairwise_lt_range' 1

/-- Without a failed publish the wire has a consumer's numbers up to some number. -/
theorem complete (hs : s.Sound r) (hnew : r.counters = {})
    (hlt : (s.desk.numbersStamped x).length < Decimal.bound64) (hunfailed : s.Unfailed) :
    s.desk.numbersOnWire x = List.range' 1 (s.desk.numbersOnWire x).length := by
  obtain ⟨gone, rest, hstamped, -, hall⟩ := hs.wire_cases
  have hsplit : s.desk.numbersStamped x = s.desk.numbersOnWire x ++
      (rest.map Stamping.publication).flatMap fun p => p.message.header.numbersFor x := by
    rw [Desk.numbersStamped, Desk.numbersOnWire, Desk.messages, hstamped, hall hunfailed,
      List.map_append, List.flatMap_append]
  obtain ⟨k, -, honWire, -⟩ :=
    List.range'_eq_append_iff.mp ((hs.numbersStamped_of_lt hnew hlt).symm.trans hsplit)
  rw [honWire, List.length_range']

theorem above (hs : s.Sound r) (hnew : r.counters = {})
    (hlt : (s.desk.numbersStamped x).length < Decimal.bound64) {before after : List Stamping}
    {e : Stamping} (hstamped : s.desk.stamped = before ++ e :: after) :
    ∀ n ∈ e.publication.message.header.numbersFor x, ∀ earlier ∈ before,
      ∀ m ∈ earlier.publication.message.header.numbersFor x, m < n := by
  intro n hn earlier hearlier m hm
  have hrising := hs.rising hnew hlt
  rw [Desk.numbersStamped, Desk.messages, hstamped, List.flatMap_map, List.flatMap_append,
    List.pairwise_append] at hrising
  refine hrising.2.2 m (List.mem_flatMap.mpr ⟨earlier, hearlier, hm⟩) n ?_
  exact List.mem_flatMap.mpr ⟨e, List.mem_cons_self, hn⟩

theorem published (hs : s.Sound r) : ∀ e ∈ s.desk.stamped, ∃ route ns,
    r.identity.route e.write.target e.write.header = .ok route ∧
      e.publication = e.write.published route ns r.incarnation := by
  have hpublished := Relay.published_of_prepareEach (congrArg Prod.snd hs.prepared)
  rw [Desk.writes, Desk.messages, List.forall₂_map_left_iff, List.forall₂_map_right_iff,
    List.forall₂_same] at hpublished
  exact hpublished

end Sound

/-- What the calls of a relay have put on the wire is in the order of its numbers, which count from 1
for each consumer until there are more than 64 bits can hold. -/
structure InNumberOrder (i : Identity) (s : Writers) : Prop where
  wire : s.desk.wire.Sublist s.desk.messages
  waiting : ∀ k w p, s.call? k = some ⟨w, .stamped p⟩ → ∃ before,
    s.desk.stamped = before ++ [⟨k, w, p⟩] ∧
      s.desk.wire.Sublist (before.map Stamping.publication)
  counted : ∀ x, s.desk.numbersStamped x =
    (List.range' 1 (s.desk.numbersStamped x).length).map (· % Decimal.bound64)
  rising : ∀ x, (s.desk.numbersStamped x).length < Decimal.bound64 →
    (s.desk.numbersOnWire x).Pairwise (· < ·)
  above : ∀ x, (s.desk.numbersStamped x).length < Decimal.bound64 →
    ∀ before e after, s.desk.stamped = before ++ e :: after →
      ∀ n ∈ e.publication.message.header.numbersFor x, ∀ earlier ∈ before,
        ∀ m ∈ earlier.publication.message.header.numbersFor x, m < n
  complete : ∀ x, (s.desk.numbersStamped x).length < Decimal.bound64 → s.Unfailed →
    s.desk.numbersOnWire x = List.range' 1 (s.desk.numbersOnWire x).length
  counters : s.desk.relay.counters =
    (({} : Counters).nextAll (s.desk.writes.flatMap (Write.takers i))).1
  refused : ∀ k w e, s.call? k = some ⟨w, .returned (.error e)⟩ →
    (∀ failure, e ≠ .transport failure) → k ∉ s.desk.stampers
  unnumbered : ∀ e ∈ s.desk.stamped, ∀ route,
    i.route e.write.target e.write.header = .ok route → route.sequenceFor = none →
      e.write.takers i = [] ∧
        e.publication.message.header.has Header.orderNumbersField = false

/-- However the steps of any calls on a new relay interleave, wire order follows number order. -/
theorem wire_in_number_order {settings : RelaySettings} {incarnation : Binary64}
    {events : List Event} {s : Writers}
    (hrun : (start (.create settings incarnation)).run events = some s) :
    s.InNumberOrder ⟨settings.domain, settings.instanceId⟩ := by
  have hs : s.Sound (.create settings incarnation) := sound_of_run (sound_start _) hrun
  exact {
    wire := hs.wire_sublist
    waiting := fun k w p hcall => by
      obtain ⟨before, hlast, hsublist, -⟩ := hs.waiting k w p hcall
      exact ⟨before, hlast, hsublist⟩
    counted := hs.numbersStamped_eq rfl
    rising := fun x hlt => (hs.rising rfl hlt).sublist (hs.wire_sublist.flatMap _)
    above := fun x hlt before e after => hs.above rfl hlt
    complete := fun x hlt => hs.complete rfl hlt
    counters := hs.counters_eq
    refused := fun k w e hcall hnot hmem => by
      obtain ⟨c, hc, hstamped⟩ := (hs.recorded k).mp hmem
      obtain rfl := Option.some.inj (hcall.symm.trans hc)
      cases e with
      | transport failure => exact hnot failure rfl
      | logic | notConnected | timeout | stopped => cases hstamped
    unnumbered := fun e he route hroute hnone => by
      obtain ⟨route', ns, hroute', hp⟩ := hs.published e he
      obtain rfl : route = route' := Except.ok.inj (hroute.symm.trans hroute')
      refine ⟨?_, by rw [hp]; exact Write.has_published_unnumbered hnone ns _⟩
      rw [Write.takers, hroute]
      show route.takers = []
      rw [Route.takers, hnone]
      rfl }

/-- A write of a producer called S for consumers. -/
def sampleWrite (consumers : String) : Write where
  target := "bus"
  message := ⟨.ofList [(Header.producerField, .text "S"), (Header.verbField, .text "moved"),
    (Header.consumersField, .text consumers)], []⟩
  chance := ⟨.zero, .zero, []⟩

/-- The second of two calls overtakes the first, whose publish fails, and a third one finds no
connection; a fourth goes through. -/
def sampleEvents : List Event :=
  [.call (sampleWrite "|R|"), .call (sampleWrite "|R||X|"), .call (sampleWrite "|R|"),
    .move 0 (.look true), .move 1 (.look true), .move 1 .route, .move 0 .route,
    .move 1 .lock, .move 1 .stamp, .move 2 (.look false), .move 1 .hand,
    .move 1 (.answer (.ok ())), .move 1 .unlock, .move 0 .lock, .move 0 .stamp,
    .move 0 (.answer (.error .notConnected)), .move 0 .unlock, .call (sampleWrite "|R|"),
    .move 3 (.look true), .move 3 .route, .move 3 .lock, .move 3 .stamp, .move 3 .hand,
    .move 3 (.answer (.ok ())), .move 3 .unlock]

theorem wire_in_number_order_sample :
    ∃ s, (start (.create { domain := "bus", instanceId := "S" } (.ofInt 7))).run sampleEvents =
        some s ∧
      s.desk.numbersStamped "R" = [1, 2, 3] ∧ s.desk.numbersOnWire "R" = [1, 3] ∧
      s.InNumberOrder ⟨"bus", "S"⟩ := by
  have hnumbers : ((start (.create { domain := "bus", instanceId := "S" } (.ofInt 7))).run
      sampleEvents).map (fun s => (s.desk.numbersStamped "R", s.desk.numbersOnWire "R")) =
        some ([1, 2, 3], [1, 3]) := by decide +kernel
  obtain ⟨s, hrun, hs⟩ := Option.map_eq_some_iff.mp hnumbers
  obtain ⟨hstamped, hwire⟩ := Prod.mk.inj hs
  exact ⟨s, hrun, hstamped, hwire, wire_in_number_order hrun⟩

end Writers

end OrderedRelay
