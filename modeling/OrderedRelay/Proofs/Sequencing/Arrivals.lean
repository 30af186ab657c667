import OrderedRelay.Proofs.Sequencing.Accept
import OrderedRelay.Sequencing.Engine

/-!
# Runs of an engine

A header seats its message if it states a number for the consumer that can be made out. Only seated
messages reach the tracking of a producer: whatever else arrives leaves every tracking as it is, and a
seated message changes the tracking of its own producer alone. So the tracking of a producer after a
run of an engine is what accepting the producer's own arrivals makes of it, one after another, and what
the producer's messages release is what these acceptances release.
-/

namespace OrderedRelay

/-- The number that a list of numbers has for a consumer, 0 if it is not among those listed. -/
def Engine.numberFor (consumer : String) : List String → List Nat → Nat
  | c :: cs, n :: ns => if c = consumer then n else numberFor consumer cs ns
  | _, _ => 0

theorem Engine.numberFor?_eq (consumer : String) {consumers : List String} {numbers : List Nat}
    (hlength : numbers.length = consumers.length) :
    numberFor? consumer consumers numbers = .ok (numberFor consumer consumers numbers) := by
  induction consumers generalizing numbers with
  | nil => simp [numberFor?, numberFor]
  | cons x xs ih =>
    obtain ⟨n, ns, rfl⟩ := List.exists_cons_of_length_eq_add_one hlength
    have hrest := ih (Nat.succ_inj.mp hlength)
    rw [numberFor]
    by_cases hx : x = consumer
    · simp [numberFor?, List.idxOf?_cons, hx, Trap.elementAt]
    · rw [if_neg hx, ← hrest]
      simp only [numberFor?, List.idxOf?_cons, beq_eq_false_iff_ne.mpr hx]
      cases xs.idxOf? consumer with
      | none => rfl
      | some i => rfl

/-- The place of a message in the order of its producer, as one consumer reads it. -/
structure Seat where
  producer : String
  timestamp : Binary64
  number : Nat
deriving DecidableEq

/-- The place that a header states for a consumer, if it states one that can be made out. -/
def Header.seat? (consumer : String) (h : Header) : Option Seat :=
  match h.placement with
  | .numbered producer timestamp consumers raw =>
    match OrderNumbers.decode raw with
    | .ok numbers =>
      let number := Engine.numberFor consumer consumers numbers
      if numbers.length = consumers.length ∧ number ≠ 0 then some ⟨producer, timestamp, number⟩
      else none
    | .error _ => none
  | _ => none

theorem Header.seat?_of_not_isSequenced {h : Header} (hplain : h.isSequenced = false)
    (consumer : String) : h.seat? consumer = none := by
  simp [Header.seat?, Header.placement, hplain]

theorem Header.placement_of_seat {h : Header} {consumer : String} {s : Seat}
    (hseat : h.seat? consumer = some s) :
    ∃ consumers raw numbers, h.placement = .numbered s.producer s.timestamp consumers raw ∧
      OrderNumbers.decode raw = .ok numbers ∧ numbers.length = consumers.length ∧
      Engine.numberFor consumer consumers numbers = s.number ∧ s.number ≠ 0 := by
  unfold seat? at hseat
  split at hseat
  · rename_i producer timestamp consumers raw hplace
    split at hseat
    · rename_i numbers hnumbers
      dsimp only at hseat
      split_ifs at hseat with hok
      obtain rfl := Option.some.inj hseat
      exact ⟨consumers, raw, numbers, hplace, hnumbers, hok.1, rfl, hok.2⟩
    · cases hseat
  · cases hseat

/-- An arrival is kept in the form of a message that waits. -/
abbrev Arrival (α : Type) := Early α

/-- The arrivals of one producer among the calls of a consumer's engine. -/
def arrivalsOf {α : Type} (consumer producer : String) (calls : List (Header × α)) :
    List (Arrival α) :=
  calls.filterMap fun c => (c.1.seat? consumer).bind fun s =>
    if s.producer = producer then some ⟨s.number, s.timestamp, c.2⟩ else none

theorem mem_arrivalsOf {α : Type} {consumer producer : String} {calls : List (Header × α)}
    {a : Arrival α} : a ∈ arrivalsOf consumer producer calls ↔
      ∃ c ∈ calls, ∃ s, c.1.seat? consumer = some s ∧ s.producer = producer ∧
        a = ⟨s.number, s.timestamp, c.2⟩ := by
  constructor
  · intro ha
    obtain ⟨c, hc, hsome⟩ := List.mem_filterMap.mp ha
    obtain ⟨s, hs, hif⟩ := Option.bind_eq_some_iff.mp hsome
    split_ifs at hif with hp
    exact ⟨c, hc, s, hs, hp, (Option.some.inj hif).symm⟩
  · rintro ⟨c, hc, s, hs, hp, rfl⟩
    exact List.mem_filterMap.mpr ⟨c, hc, by simp [hs, hp]⟩

theorem forall_mem_arrivalsOf {α : Type} {consumer producer : String} {calls : List (Header × α)}
    {P : Arrival α → Prop} : (∀ a ∈ arrivalsOf consumer producer calls, P a) ↔
      ∀ c ∈ calls, ∀ s, c.1.seat? consumer = some s → s.producer = producer →
        P ⟨s.number, s.timestamp, c.2⟩ := by
  constructor
  · exact fun h c hc s hs hp => h _ (mem_arrivalsOf.mpr ⟨c, hc, s, hs, hp, rfl⟩)
  · intro h a ha
    obtain ⟨c, hc, s, hs, hp, rfl⟩ := mem_arrivalsOf.mp ha
    exact h c hc s hs hp

/-- Accepts arrivals of one producer one after another; gives what they release. -/
def Tracking.acceptAll {α : Type} (policy : Policy) (t : Tracking α) :
    List (Arrival α) → Tracking α × List α
  | [] => (t, [])
  | a :: rest =>
    let (t, released) := t.accept policy a.timestamp a.number a.item
    let (t, more) := t.acceptAll policy rest
    (t, released ++ more)

/-- A message of producer `P` in an incarnation, with one number for consumer `C`. -/
def sampleCall (timestamp : Int) (number : String) (item : Char) : Header × Char :=
  (.ofList [(Header.producerField, .text "P"), (Header.consumersField, .text "|C|"),
    (Header.orderNumbersField, .text number), (Header.timestampField, .integer timestamp)], item)

/-- What a check gives out, unless it refuses the message or stops. -/
def Verdict.toOption {α : Type} : Verdict α → Option (List α)
  | .ok items => some items
  | .error _ | .stopped _ => none

namespace Engine

variable {α : Type} {e : Engine α} {h : Header} {item : α} {s : Seat} {producer : String}

def fresh (consumer : String) (policy : Policy) : Engine α := { consumer, policy }

def run (e : Engine α) : List (Header × α) → Engine α × List (Verdict α)
  | [] => (e, [])
  | (h, item) :: rest =>
    let (e, result) := e.check h item
    let (e, results) := e.run rest
    (e, result :: results)

def released : Verdict α → List α
  | .ok items => items
  | .error _ | .stopped _ => []

/-- What the calls of a run released, in order. -/
def releases (e : Engine α) (calls : List (Header × α)) : List α :=
  (e.run calls).2.flatMap released

/-! ### One call -/

@[simp] theorem tracking_fresh (consumer : String) (policy : Policy) (producer : String) :
    (fresh consumer policy : Engine α).tracking producer = {} := rfl

theorem tracking_track (e : Engine α) (producer other : String) (t : Tracking α) :
    (e.track producer t).tracking other = if producer = other then t else e.tracking other := by
  simp only [tracking, tracking?, track, Table.get?_insert, @eq_comm _ other]
  by_cases h : producer = other <;> simp [h]

theorem tracking_of_unseen (hnew : e.tracking? producer = none) : e.tracking producer = {} := by
  simp [tracking, hnew]

theorem check_of_seat (hseat : h.seat? e.consumer = some s) (item : α) :
    e.check h item =
      match (e.tracking s.producer).accept? e.policy s.timestamp s.number item with
      | .ok (t, released) => (e.track s.producer t, .ok released)
      | .error trap => ({ e with stops := e.stops ++ [trap] }, .stopped trap) := by
  obtain ⟨consumers, raw, numbers, hplace, hnumbers, hlength, hnumber, hpos⟩ :=
    Header.placement_of_seat hseat
  rw [check, hplace]
  simp only [place?, hnumbers, hlength, numberFor?_eq e.consumer hlength, hnumber, hpos, ne_eq,
    not_true_eq_false, if_false, bind, Except.bind]
  cases (e.tracking s.producer).accept? e.policy s.timestamp s.number item <;> rfl

theorem tracking_check_of_seat (hseat : h.seat? e.consumer = some s) (item : α) (producer : String) :
    (e.check h item).1.tracking producer =
      if s.producer = producer
      then ((e.tracking s.producer).accept e.policy s.timestamp s.number item).1
      else e.tracking producer := by
  rw [check_of_seat hseat, Tracking.accept]
  cases (e.tracking s.producer).accept? e.policy s.timestamp s.number item with
  | ok result => exact tracking_track e s.producer producer result.1
  | error trap =>
    show e.tracking producer = _
    split_ifs with hp
    · rw [hp]
    · rfl

theorem released_check_of_seat (hseat : h.seat? e.consumer = some s) (item : α) :
    released (e.check h item).2 =
      ((e.tracking s.producer).accept e.policy s.timestamp s.number item).2 := by
  rw [check_of_seat hseat, Tracking.accept]
  cases (e.tracking s.producer).accept? e.policy s.timestamp s.number item <;> rfl

/-- A check of a number that has a successor ends while the tracking is sound. -/
theorem check_of_sound (hseat : h.seat? e.consumer = some s)
    (hs : (e.tracking s.producer).Sound e.policy) (htop : s.number < topNumber) (item : α) :
    e.check h item =
      (e.track s.producer ((e.tracking s.producer).accept e.policy s.timestamp s.number item).1,
        .ok ((e.tracking s.producer).accept e.policy s.timestamp s.number item).2) := by
  rw [check_of_seat hseat, hs.accept?_eq htop]

/-- A message without a seat changes no tracking, and releases itself or nothing. -/
theorem check_of_no_seat (hseat : h.seat? e.consumer = none) (item : α) :
    (∀ producer, (e.check h item).1.tracking producer = e.tracking producer) ∧
      released (e.check h item).2 = if h.placement = .none then [item] else [] := by
  have hkept : ∀ p producer, (e.track p (e.tracking p)).tracking producer = e.tracking producer := by
    intro p producer
    rw [tracking_track]
    split_ifs with hp
    · rw [hp]
    · rfl
  unfold Header.seat? at hseat
  unfold check
  split
  · simp_all [released]
  · simp_all [released]
  · rename_i producer timestamp consumers raw hplace
    rw [hplace] at hseat
    unfold place?
    dsimp only at hseat ⊢
    split at hseat
    · rename_i numbers hnumbers
      simp only [ite_eq_right_iff, reduceCtorEq, imp_false, not_and, not_not] at hseat
      by_cases hlen : numbers.length = consumers.length
      · simp [hnumbers, hlen, numberFor?_eq e.consumer hlen, hseat hlen, released, hkept, hplace, bind,
          Except.bind, pure, Except.pure]
      · simp only [hnumbers, hlen, ne_eq, not_false_eq_true, if_true, bind, Except.bind, hplace]
        cases (e.tracking producer).nextExpected? with
        | ok next => exact ⟨hkept producer, rfl⟩
        | error trap => exact ⟨fun _ => rfl, rfl⟩
    · rename_i token htoken
      simp [htoken, released, hkept, hplace]

/-- An arrival with a place changes the tracking of its producer and nothing else. -/
theorem place?_ok {timestamp : Binary64} {consumers : List String} {raw : String}
    {outcome : Engine α × Verdict α}
    (hok : e.place? producer timestamp consumers raw item = .ok outcome) :
    ∃ t, outcome.1 = e.track producer t := by
  unfold place? at hok
  split at hok
  · exact ⟨_, (congrArg Prod.fst (Except.ok.inj hok)).symm⟩
  · split_ifs at hok
    · cases hnext : (e.tracking producer).nextExpected? with
      | error trap => simp [hnext, bind, Except.bind] at hok
      | ok next =>
        simp only [hnext, bind, Except.bind, pure, Except.pure] at hok
        exact ⟨_, (congrArg Prod.fst (Except.ok.inj hok)).symm⟩
    · rename_i numbers _ hlength
      simp only [numberFor?_eq e.consumer (not_not.mp hlength), bind, Except.bind] at hok
      split_ifs at hok
      · exact ⟨_, (congrArg Prod.fst (Except.ok.inj hok)).symm⟩
      · split at hok
        · cases hok
        · exact ⟨_, (congrArg Prod.fst (Except.ok.inj hok)).symm⟩

theorem check_consumer (e : Engine α) (h : Header) (item : α) :
    (e.check h item).1.consumer = e.consumer ∧ (e.check h item).1.policy = e.policy := by
  unfold check
  split
  · exact ⟨rfl, rfl⟩
  · exact ⟨rfl, rfl⟩
  · split
    · rename_i outcome hok
      obtain ⟨t, ht⟩ := place?_ok hok
      rw [ht]
      exact ⟨rfl, rfl⟩
    · exact ⟨rfl, rfl⟩

theorem tracking_check (e : Engine α) (h : Header) (item : α) (producer : String) :
    (e.check h item).1.tracking producer =
      ((e.tracking producer).acceptAll e.policy (arrivalsOf e.consumer producer [(h, item)])).1 := by
  cases hseat : h.seat? e.consumer with
  | none => simp [(check_of_no_seat hseat item).1, arrivalsOf, hseat, Tracking.acceptAll]
  | some s =>
    rw [tracking_check_of_seat hseat]
    by_cases hp : s.producer = producer
    · simp [arrivalsOf, hseat, hp, Tracking.acceptAll]
    · simp [arrivalsOf, hseat, hp, Tracking.acceptAll]

/-! ### Runs -/

theorem run_append (e : Engine α) (xs ys : List (Header × α)) :
    e.run (xs ++ ys) = (((e.run xs).1.run ys).1, (e.run xs).2 ++ ((e.run xs).1.run ys).2) := by
  induction xs generalizing e with
  | nil => rfl
  | cons c rest ih => simp [run, ih]

theorem releases_append (e : Engine α) (xs ys : List (Header × α)) :
    e.releases (xs ++ ys) = e.releases xs ++ (e.run xs).1.releases ys := by
  simp [releases, run_append]

theorem releases_singleton (e : Engine α) (c : Header × α) :
    e.releases [c] = released (e.check c.1 c.2).2 := by
  simp [releases, run]

theorem run_consumer (e : Engine α) (calls : List (Header × α)) :
    (e.run calls).1.consumer = e.consumer ∧ (e.run calls).1.policy = e.policy := by
  induction calls generalizing e with
  | nil => exact ⟨rfl, rfl⟩
  | cons c rest ih =>
    have hc := check_consumer e c.1 c.2
    have hr := ih (e.check c.1 c.2).1
    exact ⟨hr.1.trans hc.1, hr.2.trans hc.2⟩

theorem arrivalsOf_append (consumer producer : String) (xs ys : List (Header × α)) :
    arrivalsOf consumer producer (xs ++ ys) =
      arrivalsOf consumer producer xs ++ arrivalsOf consumer producer ys :=
  List.filterMap_append

end Engine

theorem Tracking.acceptAll_append {α : Type} (policy : Policy) (t : Tracking α)
    (xs ys : List (Arrival α)) :
    t.acceptAll policy (xs ++ ys) =
      (((t.acceptAll policy xs).1.acceptAll policy ys).1,
        (t.acceptAll policy xs).2 ++ ((t.acceptAll policy xs).1.acceptAll policy ys).2) := by
  induction xs generalizing t with
  | nil => rfl
  | cons a rest ih => simp [acceptAll, ih]

namespace Engine

variable {α : Type} {e : Engine α} {producer : String}

/-- The tracking of a producer after a run depends on its own arrivals only. -/
theorem tracking_run (e : Engine α) (calls : List (Header × α)) (producer : String) :
    (e.run calls).1.tracking producer =
      ((e.tracking producer).acceptAll e.policy (arrivalsOf e.consumer producer calls)).1 := by
  induction calls generalizing e with
  | nil => rfl
  | cons c rest ih =>
    have hc := check_consumer e c.1 c.2
    have hsplit : arrivalsOf e.consumer producer (c :: rest) =
        arrivalsOf e.consumer producer [c] ++ arrivalsOf e.consumer producer rest :=
      arrivalsOf_append _ _ [c] rest
    rw [hsplit, Tracking.acceptAll_append]
    show ((e.check c.1 c.2).1.run rest).1.tracking producer = _
    rw [ih, tracking_check, hc.1, hc.2]

/-- When every call is seated for one producer or of a kind that does not count, what counts among the
releases of a run is what counts among those of its acceptances. -/
theorem filter_releases (counts : α → Bool) {calls : List (Header × α)}
    (hcalls : ∀ c ∈ calls, (c.1.placement = .none ∧ counts c.2 = false) ∨
      ∃ s, c.1.seat? e.consumer = some s ∧ s.producer = producer) :
    (e.releases calls).filter counts = (((e.tracking producer).acceptAll e.policy
      (arrivalsOf e.consumer producer calls)).2).filter counts := by
  induction calls generalizing e with
  | nil => rfl
  | cons c rest ih =>
    have hc := check_consumer e c.1 c.2
    have hrest := ih (e := (e.check c.1 c.2).1) (by
      rw [hc.1]
      exact fun d hd => hcalls d (List.mem_cons_of_mem c hd))
    show (released (e.check c.1 c.2).2 ++ (e.check c.1 c.2).1.releases rest).filter counts = _
    rw [List.filter_append, hrest, hc.1, hc.2]
    rcases hcalls c (List.mem_cons_self ..) with ⟨hplace, hplain⟩ | ⟨s, hs, rfl⟩
    · have hseat : c.1.seat? e.consumer = none := by
        rw [Header.seat?, hplace]
      obtain ⟨hkept, hitem⟩ := check_of_no_seat hseat c.2
      rw [hkept, hitem, if_pos hplace]
      simp [arrivalsOf, hseat, hplain]
    · rw [tracking_check_of_seat hs, released_check_of_seat hs]
      simp [arrivalsOf, hs, Tracking.acceptAll]

theorem releases_of_seated {calls : List (Header × α)}
    (hseat : ∀ c ∈ calls, ∃ s, c.1.seat? e.consumer = some s ∧ s.producer = producer) :
    e.releases calls =
      ((e.tracking producer).acceptAll e.policy (arrivalsOf e.consumer producer calls)).2 := by
  have hall := filter_releases (fun _ => true) fun c hc => Or.inr (hseat c hc)
  rwa [List.filter_true, List.filter_true] at hall

end Engine

end OrderedRelay
