import OrderedRelay.Proofs.Binary64.Equality
import OrderedRelay.Proofs.Sequencing.Checked

/-!
# What an arrival releases

The state of one producer is sound if what waits is ordered after the number that is expected next
and, by the legacy rule, nothing waits before a baseline. Accepting an arrival keeps it sound and obeys
one law under either policy: the arrival joins what waits unless it has been passed or, strictly, a
copy waits already; a first part of the list so made is released and the rest goes on waiting.
-/

namespace OrderedRelay.Tracking

variable {α : Type} {policy : Policy} {t t' : Tracking α} {a : Early α} {timestamp : Binary64}
  {number : Nat} {item : α} {out : List (Early α)}

/-! ### Sound states -/

/-- What holds of the tracking of a producer at all times. -/
structure Sound (policy : Policy) (t : Tracking α) : Prop where
  last_lt : t.last < topNumber
  waiting : Ordered t.incarnation (t.last + 1) t.buffer
  baseline : policy = .legacy → t.last = 0 → t.buffer = []

theorem sound_fresh (policy : Policy) : Sound policy ({} : Tracking α) :=
  ⟨Nat.zero_lt_succ _, trivial, fun _ _ => rfl⟩

theorem sound_restarted (policy : Policy) (timestamp : Binary64) :
    Sound policy (⟨0, timestamp, []⟩ : Tracking α) :=
  ⟨Nat.zero_lt_succ _, trivial, fun _ _ => rfl⟩

theorem Sound.ordered (h : t.Sound policy) : Ordered t.incarnation t.last t.buffer :=
  h.waiting.mono (Nat.le_succ _)

theorem Sound.nextExpected_eq (h : t.Sound policy) : t.nextExpected = t.last + 1 :=
  successor_of_lt h.last_lt

theorem Sound.lt_of_mem_pending (h : t.Sound policy) {n : Nat} (hn : n ∈ t.pending) :
    t.last + 1 < n := by
  obtain ⟨e, he, rfl⟩ := List.mem_map.mp hn
  exact (h.waiting.mem he).1

/-- A sound state is one whose numbers fit, so that accepting does not stop. -/
theorem Sound.fits (h : t.Sound policy) : t.Fits policy where
  last_le := h.last_lt.le
  waiting := h.waiting.climbs
  current := fun _ he _ hts =>
    Binary64.equals_trans (Binary64.equals_symm (h.waiting.mem he).2.2) hts
  baseline := h.baseline

/-! ### Incarnations -/

theorem Sound.enter_of_ne (hs : t.Sound policy) (h : t.incarnation.equals timestamp = false) :
    t.enter timestamp = ⟨0, timestamp, []⟩ := by
  have hnone : t.buffer.filter (fun e => e.timestamp.equals timestamp) = [] := by
    rw [List.filter_eq_nil_iff]
    intro e he hts
    have hcur := (hs.waiting.mem he).2.2
    rw [Binary64.equals_trans (Binary64.equals_symm hcur) hts] at h
    cases h
  simp only [enter, h, reset, hnone, Bool.false_eq_true, if_false]

theorem Sound.enter (hs : t.Sound policy) (timestamp : Binary64) :
    (t.enter timestamp).Sound policy := by
  by_cases h : t.incarnation.equals timestamp = true
  · rwa [enter_of_equals h]
  · rw [hs.enter_of_ne (Bool.eq_false_iff.mpr h)]
    exact sound_restarted policy timestamp

/-- Which of two equal timestamps is entered makes no difference to what has been released or waits. -/
theorem Sound.enter_like {other : Binary64} (hs : t.Sound policy)
    (h : timestamp.equals other = true) :
    (t.enter timestamp).last = (t.enter other).last ∧
      (t.enter timestamp).buffer = (t.enter other).buffer := by
  by_cases hcur : t.incarnation.equals timestamp = true
  · rw [enter_of_equals hcur, enter_of_equals (Binary64.equals_trans hcur h)]
    exact ⟨rfl, rfl⟩
  · have hother : t.incarnation.equals other = false := by
      rw [Bool.eq_false_iff]
      exact fun hc => hcur (Binary64.equals_trans hc (Binary64.equals_symm h))
    rw [hs.enter_of_ne (Bool.eq_false_iff.mpr hcur), hs.enter_of_ne hother]
    exact ⟨rfl, rfl⟩

theorem Sound.accept_eq (hs : t.Sound policy) (htop : number < topNumber) (timestamp : Binary64)
    (item : α) :
    accept policy t timestamp number item = acceptBy .wrapping policy t timestamp number item :=
  hs.fits.accept_eq (hs.enter timestamp).last_lt htop.le item

theorem Sound.accept?_eq (hs : t.Sound policy) (htop : number < topNumber) (timestamp : Binary64)
    (item : α) :
    t.accept? policy timestamp number item = .ok (accept policy t timestamp number item) := by
  rw [hs.accept_eq htop, hs.fits.accept?_eq htop.le, if_neg (hs.enter timestamp).last_lt.ne]

theorem enter_fresh (timestamp : Binary64) :
    (({} : Tracking α).enter timestamp).last = 0 ∧
      (({} : Tracking α).enter timestamp).buffer = [] := by
  unfold Tracking.enter
  split_ifs <;> exact ⟨rfl, rfl⟩

theorem enter_incarnation_equals (t : Tracking α) (h : timestamp.equals timestamp = true) :
    (t.enter timestamp).incarnation.equals timestamp = true := by
  by_cases ht : t.incarnation.equals timestamp = true
  · rwa [enter_of_equals ht]
  · simpa [Tracking.enter, ht, reset] using h

/-! ### The law of acceptance -/

/-- What waits once an arrival has been taken in. -/
def stock (policy : Policy) (t : Tracking α) (a : Early α) : List (Early α) :=
  if a.number ≤ t.last then t.buffer
  else match policy with
    | .strict _ _ => if a.number ∈ t.pending then t.buffer else insertEarly a t.buffer
    | .legacy => insertEarly a t.buffer

theorem stock_of_le (h : a.number ≤ t.last) : t.stock policy a = t.buffer := if_pos h

theorem stock_strict_of_new {maxPending resyncAfter : Nat} (hlt : t.last < a.number)
    (hnew : a.number ∉ t.pending) :
    t.stock (.strict maxPending resyncAfter) a = insertEarly a t.buffer := by
  simp [stock, Nat.not_le.mpr hlt, hnew]

theorem stock_legacy_of_lt (hlt : t.last < a.number) : t.stock .legacy a = insertEarly a t.buffer := by
  simp [stock, Nat.not_le.mpr hlt]

theorem stock_cases (policy : Policy) (t : Tracking α) (a : Early α) :
    (t.stock policy a = t.buffer ∧ (a.number ≤ t.last ∨ a.number ∈ t.pending)) ∨
      (t.stock policy a = insertEarly a t.buffer ∧ t.last < a.number) := by
  by_cases hle : a.number ≤ t.last
  · exact Or.inl ⟨stock_of_le hle, Or.inl hle⟩
  · have hlt : t.last < a.number := by omega
    cases policy with
    | strict maxPending resyncAfter =>
      by_cases hmem : a.number ∈ t.pending
      · exact Or.inl ⟨by simp [stock, hmem], Or.inr hmem⟩
      · exact Or.inr ⟨by simp [stock, hle, hmem], hlt⟩
    | legacy => exact Or.inr ⟨by simp [stock, hle], hlt⟩

theorem Sound.ordered_stock (hs : t.Sound policy) (htop : a.number < topNumber)
    (hts : a.timestamp.equals t.incarnation = true) :
    Ordered t.incarnation t.last (t.stock policy a) := by
  rcases stock_cases policy t a with ⟨h, -⟩ | ⟨h, hlt⟩
  · rw [h]
    exact hs.ordered
  · rw [h]
    exact ordered_insertEarly hs.ordered hlt htop hts

theorem Sound.ordered_next (hs : t.Sound policy) (h : a.number = t.last + 1)
    (htop : a.number < topNumber) (hts : a.timestamp.equals t.incarnation = true) :
    Ordered t.incarnation t.last (a :: t.buffer) :=
  ⟨Nat.lt_of_succ_le (le_of_eq h.symm), htop, hts, h ▸ hs.waiting⟩

theorem Sound.stock_next (hs : t.Sound policy) (h : a.number = t.last + 1) :
    t.stock policy a = a :: t.buffer := by
  rcases stock_cases policy t a with ⟨-, hle | hmem⟩ | ⟨hins, -⟩
  · omega
  · have := hs.lt_of_mem_pending hmem
    omega
  · rw [hins]
    exact insertEarly_of_lt (h ▸ hs.waiting)

theorem mem_stock (hs : t.Sound policy) {e : Early α} (he : e ∈ t.stock policy a) :
    e = a ∨ e ∈ t.buffer := by
  rcases stock_cases policy t a with ⟨h, -⟩ | ⟨h, -⟩
  · exact Or.inr (h ▸ he)
  · rw [h, mem_insertEarly hs.ordered] at he
    exact he.imp_right And.left

theorem number_mem_stock (policy : Policy) (t : Tracking α) (a : Early α) (n : Nat) :
    n ∈ (t.stock policy a).map Early.number ↔
      (n = a.number ∧ t.last < a.number) ∨ n ∈ t.pending := by
  rcases stock_cases policy t a with ⟨h, hle | hmem⟩ | ⟨h, hlt⟩
  · have hnot : ¬ t.last < a.number := by omega
    simp [h, hnot, pending]
  · rw [h]
    constructor
    · exact Or.inr
    · rintro (⟨rfl, -⟩ | hn)
      · exact hmem
      · exact hn
  · rw [h, number_mem_insertEarly]
    simp [hlt, pending]

/-- Of what waits with the arrival, `out` is released and the rest goes on waiting. -/
structure Accepts (policy : Policy) (t : Tracking α) (a : Early α) (t' : Tracking α)
    (released : List α) (out : List (Early α)) : Prop where
  split : out ++ t'.buffer = t.stock policy a
  released_eq : released = out.map Early.item
  last_eq : t'.last = lastOf t.last out
  incarnation_eq : t'.incarnation = t.incarnation
  sound : t'.Sound policy

theorem accepts_afterDrain {d : Drained α} (hs : t.Sound policy)
    (hord : Ordered t.incarnation t.last (t.stock policy a))
    (hg : GivesOut t.last (t.stock policy a) d out)
    (hbase : policy = .legacy → d.last = 0 → d.buffer = []) :
    Accepts policy t a (t.afterDrain d) d.released out := by
  have hout : Ordered t.incarnation t.last out := by
    rw [← hg.split, ordered_append] at hord
    exact hord.1
  have hrest := hg.ordered_rest hord
  exact {
    split := hg.split
    released_eq := hg.released
    last_eq := hg.last_eq
    incarnation_eq := rfl
    sound := ⟨by simpa [afterDrain, hg.last_eq] using hout.lastOf_lt hs.last_lt, hrest, hbase⟩ }

theorem Accepts.ordered_out {released : List α} (h : Accepts policy t a t' released out)
    (hs : t.Sound policy) (htop : a.number < topNumber)
    (hts : a.timestamp.equals t.incarnation = true) : Ordered t.incarnation t.last out := by
  have hord := hs.ordered_stock htop hts
  rw [← h.split, ordered_append] at hord
  exact hord.1

/-- What an arrival releases after its timestamp has been entered is in order past what was released
before. -/
theorem Accepts.ordered_entered {released : List α}
    (h : Accepts policy (t.enter timestamp) ⟨number, (t.enter timestamp).incarnation, item⟩ t'
      released out)
    (hs : t.Sound policy) (htop : number < topNumber) (hself : timestamp.equals timestamp = true) :
    Ordered (t.enter timestamp).incarnation (t.enter timestamp).last out :=
  h.ordered_out (hs.enter timestamp) htop
    (Binary64.equals_self_left (enter_incarnation_equals t hself))

theorem Sound.acceptStrict_eq {maxPending resyncAfter : Nat}
    (hs : t.Sound (.strict maxPending resyncAfter)) (htop : number < topNumber)
    (hself : t.incarnation.equals t.incarnation = true) :
    acceptStrict maxPending resyncAfter t number item =
      let d := drainStrict maxPending resyncAfter t.incarnation t.last
        (t.stock (.strict maxPending resyncAfter) ⟨number, t.incarnation, item⟩)
      (t.afterDrain d, d.released) := by
  rw [acceptStrict_def]
  rw [hs.nextExpected_eq]
  dsimp only
  -- Passed or waiting already, next in turn, or early: each time the drain of what then waits.
  split_ifs with hdup hnext
  · have hstock : t.stock (.strict maxPending resyncAfter) ⟨number, t.incarnation, item⟩ =
        t.buffer := by
      rcases hdup with hlt | hmem
      · exact stock_of_le (by dsimp only; omega)
      · simp [stock, hmem]
    rw [hstock]
  · have hord := hs.ordered_next (a := ⟨number, t.incarnation, item⟩) hnext htop hself
    rw [hs.stock_next hnext, drainStrict_cons _ _ hord hs.last_lt, if_pos (Or.inl hnext)]
    rfl
  · have hlt : t.last < number := by omega
    rw [stock_strict_of_new hlt fun hmem => hdup (Or.inr hmem)]

/-- By the legacy rule the same holds, but for an arrival that becomes the baseline. -/
theorem Sound.acceptLegacy_eq (hs : t.Sound .legacy) (htop : number < topNumber)
    (hself : t.incarnation.equals t.incarnation = true) :
    acceptLegacy t number item =
      if t.last = 0 ∧ 1 < number then ({ t with last := number }, [item])
      else
        let d := drainLegacy number t.incarnation t.last
          (t.stock .legacy ⟨number, t.incarnation, item⟩)
        (t.afterDrain d, d.released) := by
  rw [acceptLegacy_def]
  rw [hs.nextExpected_eq]
  dsimp only
  by_cases hlt : number < t.last + 1
  · have hstock : t.stock .legacy ⟨number, t.incarnation, item⟩ = t.buffer :=
      stock_of_le (by dsimp only; omega)
    rw [if_pos hlt, if_neg (by omega), hstock]
  · by_cases hnext : number = t.last + 1
    · have hord := hs.ordered_next (a := ⟨number, t.incarnation, item⟩) hnext htop hself
      rw [if_neg hlt, if_pos hnext, if_neg (by omega), hs.stock_next hnext,
        drainLegacy_cons _ hord hs.last_lt, if_pos (Or.inl hnext)]
      rfl
    · have hstock := stock_legacy_of_lt (t := t) (a := ⟨number, t.incarnation, item⟩)
        (Nat.lt_of_succ_le (Nat.not_lt.mp hlt))
      rw [if_neg hlt, if_neg hnext, hstock]
      by_cases hzero : t.last = 0
      · rw [if_pos hzero, if_pos ⟨hzero, by omega⟩]
      · rw [if_neg hzero, if_neg (fun h => hzero h.1)]

theorem acceptStrict_law {maxPending resyncAfter : Nat}
    (hs : t.Sound (.strict maxPending resyncAfter)) (htop : number < topNumber)
    (hself : t.incarnation.equals t.incarnation = true) :
    ∃ out, Accepts (.strict maxPending resyncAfter) t ⟨number, t.incarnation, item⟩
      (acceptStrict maxPending resyncAfter t number item).1
      (acceptStrict maxPending resyncAfter t number item).2 out := by
  have hord := hs.ordered_stock (a := ⟨number, t.incarnation, item⟩) htop hself
  obtain ⟨out, hg⟩ := drainStrict_givesOut maxPending resyncAfter hord hs.last_lt
  rw [hs.acceptStrict_eq htop hself]
  exact ⟨out, accepts_afterDrain hs hord hg nofun⟩

theorem acceptLegacy_law (hs : t.Sound .legacy) (htop : number < topNumber)
    (hself : t.incarnation.equals t.incarnation = true) :
    ∃ out, Accepts .legacy t ⟨number, t.incarnation, item⟩
      (acceptLegacy t number item).1 (acceptLegacy t number item).2 out := by
  have hord := hs.ordered_stock (a := ⟨number, t.incarnation, item⟩) htop hself
  rw [hs.acceptLegacy_eq htop hself]
  by_cases hbase : t.last = 0 ∧ 1 < number
  -- The baseline leaves alone, and nothing waited before it.
  · have hnil := hs.baseline rfl hbase.1
    have hstock : t.stock .legacy ⟨number, t.incarnation, item⟩ =
        [⟨number, t.incarnation, item⟩] := by
      rw [stock_legacy_of_lt (by dsimp only; omega), hnil]
      rfl
    rw [if_pos hbase]
    exact ⟨[⟨number, t.incarnation, item⟩], {
      split := by rw [hstock, hnil]; rfl
      released_eq := rfl
      last_eq := rfl
      incarnation_eq := rfl
      sound := ⟨htop, by rw [hnil]; trivial, fun _ _ => hnil⟩ }⟩
  · obtain ⟨out, hg⟩ := drainLegacy_givesOut number hord hs.last_lt
    rw [if_neg hbase]
    refine ⟨out, accepts_afterDrain hs hord hg fun _ hzero => ?_⟩
    -- Nothing has been released, so nothing waited before, and the arrival cannot have joined.
    rw [hg.last_eq] at hzero
    have hout : Ordered t.incarnation t.last out := by
      have hsplit := hord
      rw [← hg.split, ordered_append] at hsplit
      exact hsplit.1
    have hlast : t.last = 0 := by
      have := hout.le_lastOf
      omega
    rcases stock_cases .legacy t ⟨number, t.incarnation, item⟩ with ⟨hstock, -⟩ | ⟨hstock, hlt⟩
    · have hsplit := hg.split
      rw [hstock, hs.baseline rfl hlast] at hsplit
      rw [hstock, hs.baseline rfl hlast]
      exact (List.append_eq_nil_iff.mp hsplit).2
    · have hnext : number = t.last + 1 := by
        dsimp only at hlt
        omega
      rw [hs.stock_next hnext, hs.baseline rfl hlast] at hg
      rw [hs.stock_next hnext, hs.baseline rfl hlast]
      exact hg.buffer_of_singleton hnext

/-- An arrival whose timestamp is a number is accepted by the law, in its own incarnation. -/
theorem accept_law (hs : t.Sound policy) (htop : number < topNumber)
    (hts : timestamp.equals timestamp = true) (item : α) :
    ∃ out, Accepts policy (t.enter timestamp) ⟨number, (t.enter timestamp).incarnation, item⟩
      (accept policy t timestamp number item).1 (accept policy t timestamp number item).2 out := by
  have hself := Binary64.equals_self_left (enter_incarnation_equals t hts)
  rw [hs.accept_eq htop]
  cases policy with
  | strict maxPending resyncAfter => exact acceptStrict_law (hs.enter timestamp) htop hself
  | legacy => exact acceptLegacy_law (hs.enter timestamp) htop hself

/-- An arrival whose timestamp is no number starts over, and leaves at once or is dropped. -/
theorem Sound.accept_of_not_equals (hs : t.Sound policy) (htop : number < topNumber)
    (hts : timestamp.equals timestamp = false) (item : α) :
    accept policy t timestamp number item = (⟨0, timestamp, []⟩, []) ∨
      accept policy t timestamp number item = (⟨number, timestamp, []⟩, [item]) := by
  have hne : t.incarnation.equals timestamp = false := by
    rw [Bool.eq_false_iff] at hts ⊢
    exact fun h => hts (Binary64.equals_self_right h)
  rw [hs.accept_eq htop]
  cases policy with
  | strict maxPending resyncAfter =>
    show acceptStrict maxPending resyncAfter (t.enter timestamp) number item = _ ∨
      acceptStrict maxPending resyncAfter (t.enter timestamp) number item = _
    simp only [hs.enter_of_ne hne, acceptStrict_def, insertEarly, drainStrict_eq, drainStrict_nil, hts,
      Bool.not_false, Bool.true_or, if_true, afterDrain]
    split_ifs
    · exact Or.inl rfl
    · exact Or.inr rfl
    · exact Or.inl rfl
  | legacy =>
    show acceptLegacy (t.enter timestamp) number item = _ ∨
      acceptLegacy (t.enter timestamp) number item = _
    simp only [hs.enter_of_ne hne, acceptLegacy_def, drainLegacy_nil, afterDrain, if_true]
    split_ifs
    · exact Or.inl rfl
    · exact Or.inr rfl
    · exact Or.inr rfl

theorem Sound.accept (hs : t.Sound policy) (htop : number < topNumber) :
    (Tracking.accept policy t timestamp number item).1.Sound policy := by
  by_cases hts : timestamp.equals timestamp = true
  · obtain ⟨out, hout⟩ := accept_law hs htop hts item
    exact hout.sound
  · rcases hs.accept_of_not_equals htop (Bool.eq_false_iff.mpr hts) item with h | h
    · rw [h]
      exact sound_restarted policy timestamp
    · rw [h]
      exact ⟨htop, trivial, fun _ _ => rfl⟩

end OrderedRelay.Tracking
