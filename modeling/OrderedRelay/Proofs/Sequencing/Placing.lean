import OrderedRelay.Proofs.Sequencing.Accept

/-!
# Placing and draining

An arrival is put in its place, and then what waits is drained. In a sound state the drain gives out a
first part of what waits and keeps the rest, so it never comes upon a message to drop. A baseline of the
legacy rule is followed by no drain; one there would find nothing.
-/

namespace OrderedRelay

/-- What has been released, passed and kept when an arrival is in its place and nothing is drained. -/
structure Placed (α : Type) where
  released : List α
  last : Nat
  waiting : List (Early α)

def Policy.drain {α : Type} (policy : Policy) (received : Nat) (incarnation : Binary64) (last : Nat)
    (waiting : List (Early α)) : Drained α :=
  match policy with
  | .strict maxPending resyncAfter =>
    Tracking.drainStrict maxPending resyncAfter incarnation last waiting
  | .legacy => Tracking.drainLegacy received incarnation last waiting

namespace Tracking

variable {α : Type} {policy : Policy} {t : Tracking α} {timestamp : Binary64}
  {number maxPending resyncAfter : Nat} {item : α}

/-- Puts an arrival of the incarnation that is tracked in its place. -/
def placed (policy : Policy) (t : Tracking α) (number : Nat) (item : α) : Placed α :=
  let early : Placed α := ⟨[], t.last, insertEarly ⟨number, t.incarnation, item⟩ t.buffer⟩
  match policy with
  | .strict _ _ =>
    if number < t.nextExpected ∨ number ∈ t.pending then ⟨[], t.last, t.buffer⟩
    else if number = t.nextExpected then ⟨[item], number, t.buffer⟩
    else early
  | .legacy =>
    if number < t.nextExpected then ⟨[], t.last, t.buffer⟩
    else if number = t.nextExpected ∨ t.last = 0 then ⟨[item], number, t.buffer⟩
    else early

/-- The drain that follows an arrival. -/
def drained (policy : Policy) (t : Tracking α) (number : Nat) (item : α) : Drained α :=
  policy.drain number t.incarnation (t.placed policy number item).last
    (t.placed policy number item).waiting

/-- The arrival makes a baseline, by the legacy rule. -/
def Baseline (t : Tracking α) (number : Nat) : Prop := t.last = 0 ∧ t.nextExpected < number

theorem acceptStrict_eq_drained (maxPending resyncAfter : Nat) (t : Tracking α) (number : Nat)
    (item : α) :
    acceptStrict maxPending resyncAfter t number item =
      (t.afterDrain (t.drained (.strict maxPending resyncAfter) number item),
        (t.placed (.strict maxPending resyncAfter) number item).released ++
          (t.drained (.strict maxPending resyncAfter) number item).released) := by
  simp only [acceptStrict_def, drained, placed, Policy.drain]
  split_ifs <;> rfl

theorem acceptLegacy_of_baseline (h : t.Baseline number) (item : α) :
    acceptLegacy t number item = ({ t with last := number }, [item]) := by
  obtain ⟨hzero, hlt⟩ := h
  simp only [acceptLegacy_def, if_neg (not_lt.mpr hlt.le), if_neg hlt.ne', if_pos hzero]

theorem placed_of_baseline (h : t.Baseline number) (item : α) :
    t.placed .legacy number item = ⟨[item], number, t.buffer⟩ := by
  obtain ⟨hzero, hlt⟩ := h
  simp only [placed, if_neg (not_lt.mpr hlt.le), if_pos (Or.inr hzero : number = _ ∨ t.last = 0)]

theorem acceptLegacy_eq_drained (h : ¬ t.Baseline number) (item : α) :
    acceptLegacy t number item =
      (t.afterDrain (t.drained .legacy number item),
        (t.placed .legacy number item).released ++ (t.drained .legacy number item).released) := by
  simp only [acceptLegacy_def, drained, placed, Policy.drain]
  by_cases hpassed : number < t.nextExpected
  · simp [hpassed]
  · by_cases hnext : number = t.nextExpected
    · simp [hnext]
    · have hlater : t.last ≠ 0 := fun hzero => h ⟨hzero, by omega⟩
      simp [hpassed, hnext, hlater]

/-! ### In a sound state -/

/-- Nothing waits before a baseline, so a drain after it changes nothing. -/
theorem Sound.drain_after_baseline (hs : t.Sound .legacy) (h : t.Baseline number) (received : Nat) :
    drainLegacy received t.incarnation number t.buffer = ⟨[], number, []⟩ := by
  rw [hs.baseline rfl h.1, drainLegacy_nil]

theorem Sound.accept_eq_drained (hs : t.Sound policy) (htop : number < topNumber)
    (timestamp : Binary64) (item : α) :
    Tracking.accept policy t timestamp number item =
      ((t.enter timestamp).afterDrain ((t.enter timestamp).drained policy number item),
        ((t.enter timestamp).placed policy number item).released ++
          ((t.enter timestamp).drained policy number item).released) := by
  have hentered := hs.enter timestamp
  rw [hs.accept_eq htop]
  cases policy with
  | strict maxPending resyncAfter =>
    exact acceptStrict_eq_drained maxPending resyncAfter (t.enter timestamp) number item
  | legacy =>
    show acceptLegacy (t.enter timestamp) number item = _
    -- No drain follows a baseline, but nothing waits that one could give out.
    by_cases hbase : (t.enter timestamp).Baseline number
    · rw [acceptLegacy_of_baseline hbase, drained, placed_of_baseline hbase]
      simp only [Policy.drain]
      rw [hentered.drain_after_baseline hbase, List.append_nil, afterDrain,
        hentered.baseline rfl hbase.1]
    · exact acceptLegacy_eq_drained hbase item

theorem Sound.ordered_placed (hs : t.Sound policy) (htop : number < topNumber)
    (hself : t.incarnation.equals t.incarnation = true) (item : α) :
    (t.placed policy number item).last < topNumber ∧
      Ordered t.incarnation (t.placed policy number item).last
        (t.placed policy number item).waiting := by
  have hnext : number = t.last + 1 → Ordered t.incarnation number t.buffer := fun h => h ▸ hs.waiting
  have hearly : ¬ number < t.last + 1 →
      Ordered t.incarnation t.last (insertEarly ⟨number, t.incarnation, item⟩ t.buffer) :=
    fun h => ordered_insertEarly hs.ordered (by dsimp only; omega) htop hself
  cases policy with
  | strict maxPending resyncAfter =>
    simp only [placed, hs.nextExpected_eq]
    split_ifs with hpassed heq
    · exact ⟨hs.last_lt, hs.ordered⟩
    · exact ⟨htop, hnext heq⟩
    · exact ⟨hs.last_lt, hearly fun h => hpassed (Or.inl h)⟩
  | legacy =>
    simp only [placed, hs.nextExpected_eq]
    split_ifs with hpassed heq
    · exact ⟨hs.last_lt, hs.ordered⟩
    · refine ⟨htop, ?_⟩
      rcases heq with heq | hzero
      · exact hnext heq
      · rw [hs.baseline rfl hzero]
        trivial
    · exact ⟨hs.last_lt, hearly hpassed⟩

theorem Sound.drained_givesOut (hs : t.Sound policy) (htop : number < topNumber)
    (hself : t.incarnation.equals t.incarnation = true) (item : α) :
    ∃ out, GivesOut (t.placed policy number item).last (t.placed policy number item).waiting
      (t.drained policy number item) out := by
  obtain ⟨hlast, hord⟩ := hs.ordered_placed htop hself item
  cases policy with
  | strict maxPending resyncAfter => exact drainStrict_givesOut maxPending resyncAfter hord hlast
  | legacy => exact drainLegacy_givesOut number hord hlast

/-- How an arrival is settled: it is placed and what waits then is drained, whatever the policy. The
drain drops nothing of what waits, and another one after a baseline would change nothing. -/
structure Settles (policy : Policy) (t : Tracking α) (number : Nat) (item : α) (t' : Tracking α)
    (given : List α) : Prop where
  after : t' = t.afterDrain (t.drained policy number item)
  given_eq : given = (t.placed policy number item).released ++ (t.drained policy number item).released
  nothing_dropped : ∃ out, (t.placed policy number item).waiting =
      out ++ (t.drained policy number item).buffer ∧
    (t.drained policy number item).released = out.map Early.item
  baseline : policy = .legacy → t.Baseline number →
    drainLegacy number t'.incarnation t'.last t'.buffer = ⟨[], t'.last, t'.buffer⟩

theorem Sound.settles (hs : t.Sound policy) (htop : number < topNumber)
    (hself : timestamp.equals timestamp = true) (item : α) :
    Settles policy (t.enter timestamp) number item
      (Tracking.accept policy t timestamp number item).1
      (Tracking.accept policy t timestamp number item).2 := by
  have hentered := hs.enter timestamp
  have hcur := Binary64.equals_self_left (enter_incarnation_equals t hself)
  obtain ⟨out, hout⟩ := hentered.drained_givesOut htop hcur item
  refine ⟨?_, ?_, ⟨out, hout.split.symm, hout.released⟩, ?_⟩
  · rw [hs.accept_eq_drained htop]
  · rw [hs.accept_eq_drained htop]
  · rintro rfl hbase
    have haccept : Tracking.accept .legacy t timestamp number item =
        ({ t.enter timestamp with last := number }, [item]) :=
      (hs.accept_eq htop timestamp item).trans (acceptLegacy_of_baseline hbase item)
    rw [haccept]
    dsimp only
    rw [hentered.drain_after_baseline hbase, hentered.baseline rfl hbase.1]

end Tracking

end OrderedRelay
