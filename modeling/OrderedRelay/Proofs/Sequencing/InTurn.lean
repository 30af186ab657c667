import OrderedRelay.Proofs.Sequencing.Accept
import OrderedRelay.Proofs.Sequencing.Counters
import OrderedRelay.Proofs.Sequencing.Stamp

/-!
# Messages received in the order they were stamped

A consumer goes by the number at its first place in a list, while the producer counts every place. The
two agree as long as a list names the consumer once: then the numbers it reads are 1, 2 and so on, and a
strict engine that is given these messages in turn lets each one through. A second place, or a place
beside the wildcard, uses up a number that the consumer never reads.
-/

namespace OrderedRelay

/-! ### Stamping one after another -/

/-- Stamps headers one after another, each for the consumers that it lists. -/
def Counters.stampAll (c : Counters) (incarnation : Binary64) : List Header → Counters × List Header
  | [] => (c, [])
  | h :: rest =>
    let (c, h) := c.stamp h.consumers incarnation h
    let (c, hs) := c.stampAll incarnation rest
    (c, h :: hs)

theorem Header.consumers_numbered (h : Header) (ns : List Nat) (incarnation : Binary64) :
    (h.numbered ns incarnation).consumers = h.consumers := by
  simp only [Header.consumers, Header.consumersText?_numbered]

/-- A header that lists anybody lists them in its text. -/
theorem Header.exists_consumersText {h : Header} {x : String} (hx : x ∈ h.consumers) :
    ∃ raw, h.consumersText? = some raw ∧ h.consumers = Consumers.decode raw := by
  unfold Header.consumers at hx ⊢
  cases htext : h.consumersText? with
  | none =>
    rw [htext] at hx
    cases hx
  | some raw => exact ⟨raw, rfl, rfl⟩

namespace Counters

variable {c : Counters} {incarnation : Binary64} {producer x : String} {h : Header}
  {hs : List Header}

theorem stampAll_cons (c : Counters) (incarnation : Binary64) (h : Header) (hs : List Header) :
    (c.stampAll incarnation (h :: hs)).2 = h.numbered (c.nextAll h.consumers).2 incarnation ::
      ((c.nextAll h.consumers).1.stampAll incarnation hs).2 := rfl

theorem length_stampAll (c : Counters) (incarnation : Binary64) (hs : List Header) :
    (c.stampAll incarnation hs).2.length = hs.length := by
  induction hs generalizing c with
  | nil => rfl
  | cons h hs ih => rw [stampAll_cons, List.length_cons, List.length_cons, ih]

theorem stampAll_getElem? (c : Counters) (incarnation : Binary64) (hs : List Header) (i : Nat) :
    (c.stampAll incarnation hs).2[i]? = hs[i]?.map fun h =>
      h.numbered ((c.nextAll ((hs.take i).flatMap Header.consumers)).1.nextAll h.consumers).2
        incarnation := by
  induction hs generalizing c i with
  | nil => rfl
  | cons h hs ih =>
    rw [stampAll_cons]
    cases i with
    | zero => rfl
    | succ i =>
      rw [List.getElem?_cons_succ, List.getElem?_cons_succ, ih, List.take_succ_cons,
        List.flatMap_cons, nextAll_append]

/-- A header without the wildcard seats a consumer that it lists under the number at its first place,
which follows the last one that the consumer was given. -/
theorem seat?_numbered_nextAll (hfinite : incarnation.isFinite = true)
    (hproducer : h.producer? = some producer) (hx : x ∈ h.consumers)
    (hnobody : Header.everyone ∉ h.consumers) (hgiven : c.given x + 1 < Decimal.bound64) :
    (h.numbered (c.nextAll h.consumers).2 incarnation).seat? x =
      some ⟨producer, incarnation, c.given x + 1⟩ := by
  obtain ⟨raw, htext, hlist⟩ := Header.exists_consumersText hx
  have hcount : 0 < h.consumers.count x := List.count_pos_iff.mpr hx
  obtain ⟨k, hk⟩ := Nat.exists_eq_add_of_lt hcount
  have hnumber : Engine.numberFor x h.consumers (c.nextAll h.consumers).2 = c.given x + 1 := by
    rw [numberFor_eq_headD, numbersAt_nextAll, hk, Nat.zero_add, List.range'_succ, List.map_cons,
      List.headD_cons, Nat.mod_eq_of_lt hgiven]
  rw [hlist] at hnumber hnobody ⊢
  rw [Header.seat?_numbered hproducer htext hnobody (length_nextAll c _)
    (fun n => lt_of_mem_nextAll) hfinite, hnumber, if_pos (by omega)]

/-- The seats of a consumer count on from the last number it was given, if no list names it twice or
beside the wildcard. -/
theorem seats_stampAll (hfinite : incarnation.isFinite = true)
    (hproducer : ∀ h ∈ hs, h.producer? = some producer)
    (honce : ∀ h ∈ hs, x ∈ h.consumers → h.consumers.count x = 1 ∧ Header.everyone ∉ h.consumers)
    (hgiven : c.given x + hs.countP (x ∈ ·.consumers) < Decimal.bound64) :
    ((c.stampAll incarnation hs).2.filter (x ∈ ·.consumers)).map (Header.seat? x) =
      (List.range' (c.given x + 1) (hs.countP (x ∈ ·.consumers))).map
        fun n => some ⟨producer, incarnation, n⟩ := by
  induction hs generalizing c with
  | nil => rfl
  | cons h hs ih =>
    have hafter := given_nextAll (c := c) (x := x) h.consumers (by omega)
    have hlisted := Header.consumers_numbered h (c.nextAll h.consumers).2 incarnation
    have hrest := ih (c := (c.nextAll h.consumers).1)
      (fun h' hh => hproducer h' (List.mem_cons_of_mem h hh))
      (fun h' hh => honce h' (List.mem_cons_of_mem h hh))
    rw [stampAll_cons]
    by_cases hx : x ∈ h.consumers
    · obtain ⟨hcount, hnobody⟩ := honce h (List.mem_cons_self ..) hx
      rw [List.countP_cons_of_pos (by simpa using hx)] at hgiven ⊢
      rw [hcount, Nat.mod_eq_of_lt (by omega)] at hafter
      have hseat := seat?_numbered_nextAll hfinite (hproducer h (List.mem_cons_self ..)) hx hnobody
        (c := c) (by omega)
      have htail := hrest (by rw [hafter]; omega)
      rw [List.filter_cons_of_pos (by simpa [hlisted] using hx), List.map_cons, hseat, htail, hafter,
        List.range'_succ, List.map_cons]
    · rw [List.countP_cons_of_neg (by simpa using hx)] at hgiven ⊢
      rw [List.count_eq_zero_of_not_mem hx, Nat.add_zero, Nat.mod_eq_of_lt (by omega)] at hafter
      rw [List.filter_cons_of_neg (by simpa [hlisted] using hx), hrest (by rw [hafter]; omega),
        hafter]

end Counters

/-! ### Receiving in turn -/

namespace Tracking

variable {α : Type} {t : Tracking α} {timestamp : Binary64} {n : Nat}

/-- Nothing waits, and in the given incarnation everything up to `n` has been let through. -/
structure Through (t : Tracking α) (timestamp : Binary64) (n : Nat) : Prop where
  idle : t.buffer = []
  last_eq : (t.enter timestamp).last = n

theorem through_new (timestamp : Binary64) : ({} : Tracking α).Through timestamp 0 := by
  refine ⟨rfl, ?_⟩
  unfold enter reset
  split_ifs <;> rfl

theorem Through.enter_buffer (h : t.Through timestamp n) : (t.enter timestamp).buffer = [] := by
  unfold enter reset
  split_ifs
  · exact h.idle
  · rw [h.idle]
    rfl

/-- The next message in turn is let through. -/
theorem Through.accept? (h : t.Through timestamp n) (hself : timestamp.equals timestamp = true)
    (hn : n + 1 < Decimal.bound64) (maxPending resyncAfter : Nat) (item : α) :
    ∃ t', t.accept? (.strict maxPending resyncAfter) timestamp (n + 1) item = .ok (t', [item]) ∧
      t'.Through timestamp (n + 1) := by
  have hlast : n < topNumber := Nat.lt_of_succ_le (Nat.le_of_lt_succ hn)
  have hplus : Counting.checked.plusOne n = .ok (n + 1) := if_pos hlast
  have hsame : (⟨n + 1, (t.enter timestamp).incarnation, []⟩ : Tracking α).enter timestamp =
      ⟨n + 1, (t.enter timestamp).incarnation, []⟩ :=
    enter_of_equals (enter_incarnation_equals t hself)
  refine ⟨⟨n + 1, (t.enter timestamp).incarnation, []⟩, ?_, rfl, by rw [hsame]⟩
  simp [Tracking.accept?, acceptBy, acceptStrictBy, h.last_eq, hplus, pending, h.enter_buffer,
    drainStrictBy, afterDrain, bind, Except.bind, pure, Except.pure]

end Tracking

namespace Engine

variable {α : Type} {e : Engine α} {producer : String} {timestamp : Binary64}
  {n maxPending resyncAfter : Nat} {calls : List (Header × α)}

/-- Messages with the numbers that are next in turn are let through one by one. -/
theorem run_in_turn (hpolicy : e.policy = .strict maxPending resyncAfter)
    (hself : timestamp.equals timestamp = true)
    (hthrough : (e.tracking producer).Through timestamp n)
    (hseats : calls.map (fun c => c.1.seat? e.consumer) =
      (List.range' (n + 1) calls.length).map fun n => some ⟨producer, timestamp, n⟩)
    (hbound : n + calls.length < Decimal.bound64) :
    (e.run calls).2 = calls.map (fun c => .ok [c.2]) ∧
      ∀ k, ((e.run (calls.take k)).1.tracking producer).buffer = [] := by
  induction calls generalizing e n with
  | nil =>
    refine ⟨rfl, fun k => ?_⟩
    rw [List.take_nil]
    exact hthrough.idle
  | cons c rest ih =>
    rw [List.length_cons, List.range'_succ, List.map_cons, List.map_cons, List.cons.injEq] at hseats
    obtain ⟨hseat, hrest⟩ := hseats
    rw [List.length_cons] at hbound
    obtain ⟨t, haccept, hafter⟩ := hthrough.accept? hself (by omega) maxPending resyncAfter c.2
    have hcheck : e.check c.1 c.2 = (e.track producer t, .ok [c.2]) := by
      rw [check_of_seat hseat, hpolicy, haccept]
    obtain ⟨hconsumer, hkept⟩ := check_consumer e c.1 c.2
    have htracking : ((e.check c.1 c.2).1.tracking producer).Through timestamp (n + 1) := by
      rw [hcheck, tracking_track, if_pos rfl]
      exact hafter
    have htail := ih (e := (e.check c.1 c.2).1) (hkept.trans hpolicy) htracking
      (by rw [hconsumer]; exact hrest) (by omega)
    refine ⟨?_, ?_⟩
    · show (e.check c.1 c.2).2 :: ((e.check c.1 c.2).1.run rest).2 = _
      rw [htail.1, hcheck, List.map_cons]
    · intro k
      cases k with
      | zero => exact hthrough.idle
      | succ k => exact htail.2 k

/-- A strict engine to which the producer is new lets calls numbered 1, 2 and so on through. -/
theorem run_from_first (hpolicy : e.policy = .strict maxPending resyncAfter)
    (hfinite : timestamp.isFinite = true) (hnew : e.tracking? producer = none)
    (hseats : (calls.map Prod.fst).map (Header.seat? e.consumer) =
      (List.range' 1 calls.length).map fun n => some ⟨producer, timestamp, n⟩)
    (hbound : calls.length < Decimal.bound64) :
    (e.run calls).2 = calls.map (fun c => .ok [c.2]) ∧
      ∀ k, ((e.run (calls.take k)).1.tracking producer).pending = [] := by
  have hstart : (e.tracking producer).Through timestamp 0 := by
    rw [tracking_of_unseen hnew]
    exact Tracking.through_new timestamp
  rw [List.map_map] at hseats
  obtain ⟨hrun, hidle⟩ := run_in_turn hpolicy (Binary64.equals_self_of_isFinite hfinite) hstart
    hseats (by omega)
  refine ⟨hrun, fun k => ?_⟩
  rw [Tracking.pending, hidle k]
  rfl

end Engine

/-! ### Both sides together -/

/-- A header of producer `S` with a list of consumers. -/
def sampleList (consumers : String) : Header :=
  .ofList [(Header.producerField, .text "S"), (Header.consumersField, .text consumers)]

namespace Counters

variable {α : Type} {incarnation : Binary64} {producer x : String} {hs : List Header}

theorem given_new (x : String) : ({} : Counters).given x = 0 := rfl

theorem count_take_lt {h : Header} {i : Nat} (hi : hs[i]? = some h) (hx : x ∈ h.consumers) :
    ((hs.take i).flatMap Header.consumers).count x < (hs.flatMap Header.consumers).count x := by
  have hsplit : hs = hs.take i ++ h :: hs.drop (i + 1) := by
    obtain ⟨hlt, rfl⟩ := List.getElem?_eq_some_iff.mp hi
    simp
  have hpos : 0 < h.consumers.count x := List.count_pos_iff.mpr hx
  conv_rhs => rw [hsplit]
  rw [List.flatMap_append, List.flatMap_cons, List.count_append, List.count_append]
  omega

theorem countP_le_count (x : String) (hs : List Header) :
    hs.countP (x ∈ ·.consumers) ≤ (hs.flatMap Header.consumers).count x := by
  induction hs with
  | nil => exact Nat.zero_le _
  | cons h hs ih =>
    rw [List.flatMap_cons, List.count_append]
    by_cases hx : x ∈ h.consumers
    · have hpos : 0 < h.consumers.count x := List.count_pos_iff.mpr hx
      rw [List.countP_cons_of_pos (by simpa using hx)]
      omega
    · rw [List.countP_cons_of_neg (by simpa using hx)]
      omega

theorem seat?_stampAll (hfinite : incarnation.isFinite = true)
    (hproducer : ∀ h ∈ hs, h.producer? = some producer)
    (hbound : (hs.flatMap Header.consumers).count x < Decimal.bound64) {i : Nat} {h : Header}
    (hi : hs[i]? = some h) (hx : x ∈ h.consumers) (hnobody : Header.everyone ∉ h.consumers) :
    (({} : Counters).stampAll incarnation hs).2[i]?.bind (Header.seat? x) = some ⟨producer,
      incarnation, ((hs.take i).flatMap Header.consumers).count x + 1⟩ := by
  have hmem : h ∈ hs := List.mem_of_getElem? hi
  have hgiven := given_nextAll (c := {}) (x := x) ((hs.take i).flatMap Header.consumers)
    (show 0 < Decimal.bound64 by decide)
  have hbelow := count_take_lt hi hx
  rw [given_new, Nat.zero_add, Nat.mod_eq_of_lt (by omega)] at hgiven
  have hseat := seat?_numbered_nextAll hfinite (hproducer h hmem) hx hnobody
    (c := (({} : Counters).nextAll ((hs.take i).flatMap Header.consumers)).1)
    (by rw [hgiven]; omega)
  rw [hgiven] at hseat
  rw [stampAll_getElem?, hi]
  exact hseat

/-- A header that lists a consumer without the wildcard states for it the number after all its places
in earlier lists. If no list names it twice or beside the wildcard, the numbers are 1, 2 and so on, and
a strict engine to which the producer is new lets the headers that list it through as they come. -/
theorem stampAll_in_turn (hfinite : incarnation.isFinite = true)
    (hproducer : ∀ h ∈ hs, h.producer? = some producer)
    (hbound : (hs.flatMap Header.consumers).count x < Decimal.bound64) :
    let stamped := (({} : Counters).stampAll incarnation hs).2
    stamped.length = hs.length ∧
    (∀ i h, hs[i]? = some h → x ∈ h.consumers → Header.everyone ∉ h.consumers →
      stamped[i]?.bind (Header.seat? x) = some ⟨producer, incarnation,
        ((hs.take i).flatMap Header.consumers).count x + 1⟩) ∧
    ((∀ h ∈ hs, x ∈ h.consumers → h.consumers.count x = 1 ∧ Header.everyone ∉ h.consumers) →
      (stamped.filter (x ∈ ·.consumers)).map (Header.seat? x) =
        (List.range' 1 (hs.countP (x ∈ ·.consumers))).map
          (fun n => some ⟨producer, incarnation, n⟩) ∧
      ∀ (e : Engine α) (maxPending resyncAfter : Nat) (calls : List (Header × α)),
        e.consumer = x → e.policy = .strict maxPending resyncAfter →
        e.tracking? producer = none →
        calls.map Prod.fst = stamped.filter (x ∈ ·.consumers) →
        (e.run calls).2 = calls.map (fun c => .ok [c.2]) ∧
          ∀ k, ((e.run (calls.take k)).1.tracking producer).pending = []) := by
  intro stamped
  refine ⟨length_stampAll {} incarnation hs, ?_, ?_⟩
  · intro i h hi hx hnobody
    exact seat?_stampAll hfinite hproducer hbound hi hx hnobody
  · intro honce
    have hcount := countP_le_count x hs
    have hseats := seats_stampAll (c := {}) hfinite hproducer honce
      (by rw [given_new]; omega)
    rw [given_new, Nat.zero_add] at hseats
    refine ⟨hseats, ?_⟩
    rintro e maxPending resyncAfter calls rfl hpolicy hnew hcalls
    have hlength : calls.length = hs.countP (e.consumer ∈ ·.consumers) := by
      have h := congrArg List.length hseats
      rwa [List.length_map, List.length_map, List.length_range', ← hcalls, List.length_map] at h
    rw [← hcalls, ← hlength] at hseats
    exact Engine.run_from_first hpolicy hfinite hnew hseats (by omega)

/-- One list in three does not name the consumer. -/
theorem stampAll_in_turn_sample :
    let hs := [sampleList "|R||X|", sampleList "X", sampleList "||R"]
    let stamped := (({} : Counters).stampAll (.ofInt 7) hs).2
    let calls := (stamped.filter ("R" ∈ ·.consumers)).zip ['a', 'b']
    calls.map (fun c => c.1.seat? "R") = [some ⟨"S", .ofInt 7, 1⟩, some ⟨"S", .ofInt 7, 2⟩] ∧
      ((Engine.fresh "R" .default).run calls).2 = [.ok ['a'], .ok ['b']] ∧
      ∀ k, (((Engine.fresh "R" .default).run (calls.take k)).1.tracking "S").pending = [] := by
  intro hs stamped calls
  obtain ⟨-, -, hturn⟩ := stampAll_in_turn (α := Char) (x := "R")
    (show (Binary64.ofInt 7).isFinite = true by decide +kernel)
    (show ∀ h ∈ hs, h.producer? = some "S" by decide +kernel) (by decide +kernel)
  obtain ⟨hseats, hengine⟩ := hturn (by decide +kernel)
  have hfed : calls.map Prod.fst = stamped.filter ("R" ∈ ·.consumers) := by decide +kernel
  obtain ⟨hrun, hidle⟩ := hengine (.fresh "R" .default) 256 16 calls rfl rfl rfl hfed
  have hread := (congrArg (List.map (Header.seat? "R")) hfed).trans hseats
  have hitems : calls.map Prod.snd = ['a', 'b'] := by decide +kernel
  rw [List.map_map] at hread
  exact ⟨hread.trans (by decide +kernel),
    hrun.trans (congrArg (List.map fun item => Verdict.ok [item]) hitems), hidle⟩

/-- A list that names the consumer twice, or beside the wildcard, uses up a number that the consumer
does not read: it waits for that number when the next message comes. -/
theorem stampAll_not_in_turn :
    let calls := fun lists =>
      (({} : Counters).stampAll (.ofInt 7) (lists.map sampleList)).2.zip ['a', 'b']
    let numbers := fun lists => (calls lists).map fun c => (c.1.seat? "R").map Seat.number
    let engine := Engine.fresh (α := Char) "R" .default
    (numbers ["|R||R|", "|R|"] = [some 1, some 3] ∧
      engine.releases (calls ["|R||R|", "|R|"]) = ['a'] ∧
      ((engine.run (calls ["|R||R|", "|R|"])).1.tracking "S").pending = [3]) ∧
    (numbers ["|R||*|", "|R|"] = [none, some 2] ∧
      engine.releases (calls ["|R||*|", "|R|"]) = ['a'] ∧
      ((engine.run (calls ["|R||*|", "|R|"])).1.tracking "S").pending = [2]) := by
  decide +kernel

end Counters

end OrderedRelay
