import OrderedRelay.Proofs.Sequencing.StrictSteps

/-!
# Joining late

An engine that meets a producer in the middle of its numbers waits until more of them have arrived than
the lower bound allows. The arrival that makes them too many sets the baseline, the lowest number there
is, and from then on numbers are released from the baseline on as they would be from 1 on: up to the
first gap, in whatever order and however often they come.
-/

namespace OrderedRelay

variable {α : Type}

/-- An arrival of an incarnation with a number that an order can give. -/
def Numbered (timestamp : Binary64) (a : Arrival α) : Prop :=
  a.timestamp.equals timestamp = true ∧ 0 < a.number ∧ a.number < topNumber

namespace Tracking

variable {timestamp : Binary64} {n bound start maxPending resyncAfter : Nat} {policy : Policy}
  {t t' : Tracking α} {a : Early α} {past out : List (Early α)} {released given : List α}

/-! ### What is recalled -/

theorem acceptAll_concat (policy : Policy) (t : Tracking α) (past : List (Arrival α))
    (a : Arrival α) : t.acceptAll policy (past ++ [a]) =
      (((t.acceptAll policy past).1.accept policy a.timestamp a.number a.item).1,
        (t.acceptAll policy past).2 ++
          ((t.acceptAll policy past).1.accept policy a.timestamp a.number a.item).2) := by
  simp [acceptAll_append, acceptAll]

theorem Recalls.retimed (h : t.Recalls (past ++ [⟨a.number, timestamp, a.item⟩])) :
    t.Recalls (past ++ [a]) := by
  refine ⟨fun n => ?_, fun e he => ?_⟩
  · rw [h.pending_iff, numbersOf_retimed]
  · rw [← firstCopy_retimed past a timestamp]
    exact h.items e he

theorem Recalls.accepts (h : t.Recalls past) (hs : t.Sound (.strict maxPending resyncAfter))
    (hord : Ordered t.incarnation t.last (t.stock (.strict maxPending resyncAfter) a))
    (hlaw : Accepts (.strict maxPending resyncAfter) t a t' given out) :
    t'.Recalls (past ++ [a]) := by
  refine ⟨fun n => ?_, fun e he => ?_⟩
  · rw [← hlaw.split] at hord
    have hle := ((ordered_append out t'.buffer).mp hord).1.le_lastOf
    rw [pending, mem_rest_iff hord, hlaw.split, h.number_mem_stock, hlaw.last_eq]
    exact ⟨fun hn => ⟨hn.1.1, hn.2⟩, fun hn => ⟨⟨hn.1, by omega⟩, hn.2⟩⟩
  · exact h.items_stock hs a e (hlaw.split ▸ List.mem_append_right out he)

theorem Recalls.mem_joined (h : t.Recalls past) (hlt : t.last < a.number) :
    n ∈ t.joined a ↔ n ∈ numbersOf (past ++ [a]) ∧ t.last < n := by
  rw [Tracking.mem_joined, h.pending_iff, mem_numbersOf_append]
  constructor
  · rintro (rfl | ⟨hn, hlast⟩)
    · exact ⟨Or.inr rfl, hlt⟩
    · exact ⟨Or.inl hn, hlast⟩
  · rintro ⟨hn | rfl, hlast⟩
    · exact Or.inr ⟨hn, hlast⟩
    · exact Or.inl rfl

/-- The copies that leave in a run are the ones that arrived first. -/
theorem Recalls.firstCopy_joined (h : t.Recalls past) (hs : t.Sound policy) (hlt : t.last < a.number)
    (hnew : a.number ∉ t.pending) (hn : n ∈ t.joined a) :
    firstCopy (a :: t.buffer) n = firstCopy (past ++ [a]) n := by
  by_cases hself : n = a.number
  · have hnot : a.number ∉ numbersOf past := fun hmem => hnew ((h.pending_iff _).mpr ⟨hmem, hlt⟩)
    rw [hself, firstCopy_cons_self, firstCopy_append_new hnot]
  · have hpending := (Tracking.mem_joined.mp hn).resolve_left hself
    obtain ⟨e, he, rfl⟩ := List.mem_map.mp hpending
    rw [firstCopy_cons_of_ne hself, firstCopy_of_ordered hs.waiting he,
      firstCopy_append_of_mem ((h.pending_iff _).mp hpending).1, h.items e he]

theorem ReleasesRun.given_of_recalls (hrun : t.ReleasesRun a start t' given) (h : t.Recalls past)
    (hs : t.Sound policy) (hlt : t.last < a.number) (hnew : a.number ∉ t.pending) :
    given.map some =
      (List.range' start (consecutive start (t.joined a))).map (firstCopy (past ++ [a])) := by
  rw [hrun.given_eq]
  refine List.map_congr_left fun n hn => ?_
  rw [List.mem_range'_1] at hn
  exact h.firstCopy_joined hs hlt hnew (mem_of_lt_add_consecutive hn.1 hn.2)

/-! ### Up to the baseline -/

/-- What has arrived from a number on has been released up to the first gap, each in its first copy. -/
structure Resumed (start : Nat) (past : List (Arrival α)) (t : Tracking α) (released : List α) :
    Prop where
  started : start ≤ t.last
  last_eq : t.last + 1 = start + consecutive start (numbersOf past)
  released_eq : released.map some =
    (List.range' start (consecutive start (numbersOf past))).map (firstCopy past)

theorem numbersOf_append_of_mem (h : a.number ∈ numbersOf past) :
    numbersOf (past ++ [a]) = numbersOf past := by
  ext n
  rw [mem_numbersOf_append]
  exact ⟨fun hn => hn.elim id fun hn => hn ▸ h, Or.inl⟩

/-- As long as nothing has been released and not too many numbers have arrived, the arrival of another
one but 1 releases nothing. -/
theorem StrictStep.quiet (hstep : StrictStep bound t a t' given) (h : t.Recalls past)
    (hs : t.Sound policy) (hzero : t.last = 0)
    (hone : 1 ∉ numbersOf (past ++ [a])) (hfew : (numbersOf (past ++ [a])).card ≤ bound) :
    t'.last = 0 ∧ given = [] := by
  cases hstep.outcome with
  | seen _ kept none => exact ⟨kept ▸ hzero, none⟩
  | waits _ _ _ joins none => exact ⟨joins ▸ hzero, none⟩
  | next next _ =>
    refine absurd (mem_numbersOf_append.mpr (Or.inr ?_)) hone
    omega
  | overflows early new full _ _ _ =>
    have hsub : t.joined a ⊆ numbersOf (past ++ [a]) :=
      fun n hn => ((h.mem_joined (by omega)).mp hn).1
    have hcard := Finset.card_le_card hsub
    rw [hs.card_joined new] at hcard
    omega

theorem ReleasesRun.resumed (hrun : t.ReleasesRun a start t' given) (h : t.Recalls past)
    (hs : t.Sound policy) (hlt : t.last < a.number) (hnew : a.number ∉ t.pending)
    (hall : t.joined a = numbersOf (past ++ [a])) (hmem : start ∈ numbersOf (past ++ [a])) :
    Resumed start (past ++ [a]) t' given := by
  have hend := hrun.last_eq
  have hgiven := hrun.given_of_recalls h hs hlt hnew
  have hpos := consecutive_pos hmem
  rw [hall] at hend hgiven
  exact ⟨by omega, hend, hgiven⟩

/-- The arrival that makes the numbers too many releases a run from the lowest of them on. -/
theorem StrictStep.baseline (hstep : StrictStep bound t a t' given) (h : t.Recalls past)
    (hs : t.Sound policy) (hzero : t.last = 0) (hpos : ∀ n ∈ numbersOf (past ++ [a]), 0 < n)
    (hfew : (numbersOf past).card ≤ bound) (hmany : bound < (numbersOf (past ++ [a])).card) :
    ∃ lowest, IsLeast (numbersOf (past ++ [a]) : Set Nat) lowest ∧
      Resumed lowest (past ++ [a]) t' given := by
  have hself : 0 < a.number := hpos _ (mem_numbersOf_append.mpr (Or.inr rfl))
  have hlt : t.last < a.number := by omega
  have hall : t.joined a = numbersOf (past ++ [a]) := by
    ext n
    rw [h.mem_joined hlt, hzero]
    exact ⟨And.left, fun hn => ⟨hn, hpos n hn⟩⟩
  have hnew : a.number ∉ t.pending := by
    intro hmem
    rw [numbersOf_append_of_mem ((h.pending_iff _).mp hmem).1] at hmany
    omega
  cases hstep.outcome with
  | seen old _ _ => exact absurd old (not_or.mpr ⟨by omega, hnew⟩)
  | next next run =>
    have hleast : IsLeast (numbersOf (past ++ [a]) : Set Nat) a.number := by
      refine ⟨mem_numbersOf_append.mpr (Or.inr rfl), fun n hn => ?_⟩
      have := hpos n hn
      omega
    exact ⟨a.number, hleast, run.resumed h hs hlt hnew hall hleast.1⟩
  | waits _ _ fits _ _ =>
    rw [← hall, hs.card_joined hnew] at hmany
    omega
  | overflows _ _ _ lowest least run =>
    rw [hall] at least
    exact ⟨lowest, least, run.resumed h hs hlt hnew hall least.1⟩

/-! ### From the baseline on -/

theorem map_firstCopy_append (start : Nat) (past more : List (Arrival α)) :
    (List.range' start (consecutive start (numbersOf past))).map (firstCopy (past ++ more)) =
      (List.range' start (consecutive start (numbersOf past))).map (firstCopy past) := by
  refine List.map_congr_left fun n hn => firstCopy_append_of_mem ?_
  rw [List.mem_range'_1] at hn
  exact mem_of_lt_add_consecutive hn.1 hn.2

theorem Resumed.consecutive_append (h : Resumed start past t released)
    (hother : a.number ≠ t.last + 1) :
    consecutive start (numbersOf (past ++ [a])) = consecutive start (numbersOf past) := by
  refine consecutive_eq (fun i hi => ?_) ?_
  · exact mem_numbersOf_append.mpr (Or.inl (add_mem_of_lt_consecutive hi))
  · rw [mem_numbersOf_append, ← h.last_eq, not_or]
    exact ⟨h.last_eq ▸ add_consecutive_not_mem start (numbersOf past), Ne.symm hother⟩

theorem Resumed.stays (h : Resumed start past t released) (hother : a.number ≠ t.last + 1)
    (hlast : t'.last = t.last) : Resumed start (past ++ [a]) t' (released ++ []) := by
  have hsame := h.consecutive_append hother
  refine ⟨hlast ▸ h.started, ?_, ?_⟩
  · rw [hsame, hlast, h.last_eq]
  · rw [hsame, map_firstCopy_append, List.append_nil, h.released_eq]

theorem Resumed.goes_on (h : Resumed start past t released) (hrecalls : t.Recalls past)
    (hs : t.Sound policy) (hnext : a.number = t.last + 1)
    (hrun : t.ReleasesRun a a.number t' given) :
    Resumed start (past ++ [a]) t' (released ++ given) := by
  have hnew : a.number ∉ t.pending := fun hmem => by
    have := hs.lt_of_mem_pending hmem
    omega
  have hend : start + consecutive start (numbersOf past) = a.number := by rw [← h.last_eq, hnext]
  -- What has arrived from the start on ends where the run that leaves now ends.
  have hgrow : consecutive start (numbersOf (past ++ [a])) =
      consecutive start (numbersOf past) + consecutive a.number (t.joined a) := by
    refine consecutive_eq (fun i hi => ?_) fun hmem => ?_
    · by_cases hold : i < consecutive start (numbersOf past)
      · exact mem_numbersOf_append.mpr (Or.inl (add_mem_of_lt_consecutive hold))
      · have hle : a.number ≤ start + i := by omega
        have hin : start + i ∈ t.joined a := mem_of_lt_add_consecutive hle (by omega)
        exact ((hrecalls.mem_joined (by omega)).mp hin).1
    · rw [← Nat.add_assoc, hend] at hmem
      refine add_consecutive_not_mem a.number (t.joined a) ?_
      exact (hrecalls.mem_joined (by omega)).mpr ⟨hmem, by omega⟩
  refine ⟨?_, ?_, ?_⟩
  · have := hrun.last_eq
    have := h.started
    have := consecutive_pos (Tracking.mem_joined.mpr (Or.inl rfl) : a.number ∈ t.joined a)
    omega
  · rw [hrun.last_eq, hgrow]
    omega
  · rw [List.map_append, h.released_eq, hrun.given_of_recalls hrecalls hs (by omega) hnew, hgrow,
      ← List.range'_append_1, List.map_append, map_firstCopy_append, hend]

/-- Arrivals go on being released from the baseline on as long as what lies past the first gap is
within the bound. -/
theorem StrictStep.resumes (hstep : StrictStep bound t a t' given) (h : Resumed start past t released)
    (hrecalls : t.Recalls past) (hs : t.Sound policy)
    (hfits : ((numbersOf (past ++ [a])).filter
      (start + consecutive start (numbersOf (past ++ [a])) < ·)).card ≤ bound) :
    Resumed start (past ++ [a]) t' (released ++ given) := by
  cases hstep.outcome with
  | seen old kept none =>
    subst none
    refine h.stays ?_ (congrArg Tracking.last kept)
    rcases old with hle | hmem
    · omega
    · have := hs.lt_of_mem_pending hmem
      omega
  | waits early _ _ joins none =>
    subst none
    exact h.stays (by omega) (by rw [joins])
  | next next run => exact h.goes_on hrecalls hs next run
  | overflows early new full _ _ _ =>
    -- All that waits would lie past the gap.
    have hsub : t.joined a ⊆ (numbersOf (past ++ [a])).filter
        (start + consecutive start (numbersOf (past ++ [a])) < ·) := by
      intro n hn
      rw [h.consecutive_append (by omega), ← h.last_eq, Finset.mem_filter]
      refine ⟨((hrecalls.mem_joined (by omega)).mp hn).1, ?_⟩
      rcases Tracking.mem_joined.mp hn with rfl | hpending
      · exact early
      · exact hs.lt_of_mem_pending hpending
    have hcard := Finset.card_le_card hsub
    rw [hs.card_joined new] at hcard
    omega

theorem Resumed.retimed (h : Resumed start (past ++ [⟨a.number, timestamp, a.item⟩]) t released) :
    Resumed start (past ++ [a]) t released := by
  obtain ⟨hstarted, hlast, hreleased⟩ := h
  rw [numbersOf_retimed] at hlast hreleased
  rw [firstCopy_retimed] at hreleased
  exact ⟨hstarted, hlast, hreleased⟩

/-! ### Arrivals of one incarnation -/

/-- What arrivals of one incarnation lead to. -/
structure Tracked (policy : Policy) (timestamp : Binary64) (past : List (Arrival α))
    (t : Tracking α) : Prop where
  sound : t.Sound policy
  recalls : t.Recalls past
  incarnation : (past = [] ∧ t = {}) ∨ t.incarnation.equals timestamp = true

theorem Tracked.enter (h : Tracked policy timestamp past t) (ha : Numbered timestamp a) :
    (t.enter a.timestamp).last = t.last ∧ (t.enter a.timestamp).Recalls past := by
  rcases h.incarnation with ⟨-, rfl⟩ | hcur
  · obtain ⟨hlast, hbuffer⟩ := enter_fresh (α := α) a.timestamp
    refine ⟨hlast, fun n => ?_, fun e he => ?_⟩
    · rw [pending, hbuffer, hlast]
      exact h.recalls.pending_iff n
    · rw [hbuffer] at he
      cases he
  · rw [enter_of_equals (Binary64.equals_trans hcur (Binary64.equals_symm ha.1))]
    exact ⟨rfl, h.recalls⟩

theorem Tracked.accept (h : Tracked (.strict maxPending resyncAfter) timestamp past t)
    (ha : Numbered timestamp a) : Tracked (.strict maxPending resyncAfter) timestamp (past ++ [a])
      (t.accept (.strict maxPending resyncAfter) a.timestamp a.number a.item).1 := by
  have hself := Binary64.equals_self_left ha.1
  have hcur := enter_incarnation_equals t hself
  obtain ⟨out, hlaw⟩ := accept_law h.sound ha.2.2 hself a.item
  have hord := (h.sound.enter a.timestamp).ordered_stock
    (a := ⟨a.number, (t.enter a.timestamp).incarnation, a.item⟩) ha.2.2
    (Binary64.equals_self_left hcur)
  refine ⟨hlaw.sound, ?_, Or.inr ?_⟩
  · exact ((h.enter ha).2.accepts (h.sound.enter a.timestamp) hord hlaw).retimed
  · rw [hlaw.incarnation_eq]
    exact Binary64.equals_trans hcur ha.1

theorem tracked_acceptAll (maxPending resyncAfter : Nat) {arrivals : List (Arrival α)}
    (h : ∀ a ∈ arrivals, Numbered timestamp a) :
    Tracked (.strict maxPending resyncAfter) timestamp arrivals
      (acceptAll (.strict maxPending resyncAfter) {} arrivals).1 := by
  induction arrivals using List.reverseRecOn with
  | nil => exact ⟨sound_fresh _, ⟨fun n => by simp [acceptAll, pending], nofun⟩, Or.inl ⟨rfl, rfl⟩⟩
  | append_singleton past a ih =>
    rw [acceptAll_concat]
    exact (ih fun b hb => h b (List.mem_append_left _ hb)).accept (h a (by simp))

theorem bounded_of_numbered {arrivals : List (Arrival α)} (h : ∀ a ∈ arrivals, Numbered timestamp a) :
    (acceptAll (.strict maxPending resyncAfter) {} arrivals).1.Bounded
      (.strict maxPending resyncAfter) :=
  bounded_acceptAll (fun a ha => (h a ha).2.2) (sound_fresh _) (bounded_fresh _)

theorem Tracked.strictStep (h : Tracked (.strict maxPending resyncAfter) timestamp past t)
    (hbounded : t.Bounded (.strict maxPending resyncAfter)) (ha : Numbered timestamp a) :
    StrictStep (Policy.bound maxPending resyncAfter t.last) (t.enter a.timestamp)
      ⟨a.number, (t.enter a.timestamp).incarnation, a.item⟩
      (t.accept (.strict maxPending resyncAfter) a.timestamp a.number a.item).1
      (t.accept (.strict maxPending resyncAfter) a.timestamp a.number a.item).2 := by
  have hstep := h.sound.strictStep_accept hbounded ha.2.2 (Binary64.equals_self_left ha.1) a.item
  rwa [(h.enter ha).1] at hstep

theorem numbered_of_append (h : ∀ b ∈ past ++ [a], Numbered timestamp b) :
    (∀ b ∈ past, Numbered timestamp b) ∧ Numbered timestamp a :=
  ⟨fun b hb => h b (List.mem_append_left _ hb), h a (by simp)⟩

theorem pos_of_numbered (h : ∀ b ∈ past, Numbered timestamp b) : ∀ n ∈ numbersOf past, 0 < n := by
  intro n hn
  obtain ⟨b, hb, rfl⟩ := List.mem_map.mp (mem_numbersOf.mp hn)
  exact (h b hb).2.1

theorem quiet_acceptAll {arrivals : List (Arrival α)} (h : ∀ a ∈ arrivals, Numbered timestamp a)
    (hone : 1 ∉ numbersOf arrivals) (hfew : (numbersOf arrivals).card ≤ min resyncAfter maxPending) :
    (acceptAll (.strict maxPending resyncAfter) {} arrivals).1.last = 0 ∧
      (acceptAll (.strict maxPending resyncAfter) {} arrivals).2 = [] := by
  induction arrivals using List.reverseRecOn with
  | nil => exact ⟨rfl, rfl⟩
  | append_singleton past a ih =>
    obtain ⟨hpast, ha⟩ := numbered_of_append h
    have hsub : numbersOf past ⊆ numbersOf (past ++ [a]) :=
      fun n hn => mem_numbersOf_append.mpr (Or.inl hn)
    obtain ⟨hzero, hnone⟩ := ih hpast (fun hmem => hone (hsub hmem))
      (le_trans (Finset.card_le_card hsub) hfew)
    have htracked := tracked_acceptAll maxPending resyncAfter hpast
    have hstep := htracked.strictStep (bounded_of_numbered hpast) ha
    obtain ⟨hlast, hrecalls⟩ := htracked.enter ha
    rw [hzero] at hstep hlast
    rw [acceptAll_concat, hnone]
    refine hstep.quiet hrecalls (htracked.sound.enter _) hlast ?_ ?_
    · rwa [numbersOf_retimed]
    · rwa [numbersOf_retimed]

theorem baseline_acceptAll (h : ∀ b ∈ past ++ [a], Numbered timestamp b)
    (hone : 1 ∉ numbersOf past) (hfew : (numbersOf past).card ≤ min resyncAfter maxPending)
    (hmany : min resyncAfter maxPending < (numbersOf (past ++ [a])).card) :
    ∃ lowest, IsLeast (numbersOf (past ++ [a]) : Set Nat) lowest ∧
      Resumed lowest (past ++ [a]) (acceptAll (.strict maxPending resyncAfter) {} (past ++ [a])).1
        (acceptAll (.strict maxPending resyncAfter) {} (past ++ [a])).2 := by
  obtain ⟨hpast, ha⟩ := numbered_of_append h
  obtain ⟨hzero, hnone⟩ := quiet_acceptAll hpast hone hfew
  have htracked := tracked_acceptAll maxPending resyncAfter hpast
  have hstep := htracked.strictStep (bounded_of_numbered hpast) ha
  obtain ⟨hlast, hrecalls⟩ := htracked.enter ha
  rw [hzero] at hstep hlast
  have hpos := pos_of_numbered h
  rw [← numbersOf_retimed past a] at hpos hmany
  obtain ⟨lowest, hleast, hresumed⟩ :=
    hstep.baseline hrecalls (htracked.sound.enter _) hlast hpos hfew hmany
  rw [numbersOf_retimed] at hleast
  rw [acceptAll_concat, hnone]
  exact ⟨lowest, hleast, hresumed.retimed⟩

theorem last_le_acceptAll (h : ∀ b ∈ past ++ [a], Numbered timestamp b) :
    (acceptAll (.strict maxPending resyncAfter) {} past).1.last ≤
      (acceptAll (.strict maxPending resyncAfter) {} (past ++ [a])).1.last := by
  obtain ⟨hpast, ha⟩ := numbered_of_append h
  have htracked := tracked_acceptAll maxPending resyncAfter hpast
  have hself := Binary64.equals_self_left ha.1
  obtain ⟨out, hlaw⟩ := accept_law htracked.sound ha.2.2 hself a.item
  have hout := hlaw.ordered_entered htracked.sound ha.2.2 hself
  rw [acceptAll_concat, hlaw.last_eq, ← (htracked.enter ha).1]
  exact hout.le_lastOf

theorem Resumed.continues
    (hresumed : Resumed start past (acceptAll (.strict maxPending resyncAfter) {} past).1
      (acceptAll (.strict maxPending resyncAfter) {} past).2) (hstart : 0 < start)
    (h : ∀ b ∈ past ++ [a], Numbered timestamp b)
    (hfits : ((numbersOf (past ++ [a])).filter
      (start + consecutive start (numbersOf (past ++ [a])) < ·)).card ≤ maxPending) :
    Resumed start (past ++ [a]) (acceptAll (.strict maxPending resyncAfter) {} (past ++ [a])).1
      (acceptAll (.strict maxPending resyncAfter) {} (past ++ [a])).2 := by
  obtain ⟨hpast, ha⟩ := numbered_of_append h
  have htracked := tracked_acceptAll maxPending resyncAfter hpast
  have hstep := htracked.strictStep (bounded_of_numbered hpast) ha
  obtain ⟨hlast, hrecalls⟩ := htracked.enter ha
  rw [Policy.bound_of_ne_zero (by have := hresumed.started; omega)] at hstep
  rw [← numbersOf_retimed past a] at hfits
  rw [acceptAll_concat]
  have hentered : Resumed start past _ _ := ⟨hlast ▸ hresumed.started, hlast ▸ hresumed.last_eq,
    hresumed.released_eq⟩
  exact (hstep.resumes hentered hrecalls (htracked.sound.enter _) hfits).retimed

end Tracking

namespace Engine

variable {e : Engine α} {consumer producer : String} {timestamp : Binary64} {c : Header × α}
  {calls : List (Header × α)} {maxPending resyncAfter start k j : Nat} {s : Seat}

/-- The numbers of a producer that have arrived with calls. -/
def arrived (e : Engine α) (producer : String) (calls : List (Header × α)) : Finset Nat :=
  numbersOf (arrivalsOf e.consumer producer calls)

/-- A run has released the messages of a producer from a number on up to the first gap, each in its
first copy, and no others. -/
def ReleasedFrom (e : Engine α) (producer : String) (start : Nat) (calls : List (Header × α)) : Prop :=
  (e.releases calls).map some =
    (List.range' start (consecutive start (e.arrived producer calls))).map
      (firstCopy (arrivalsOf e.consumer producer calls))

theorem numbered_arrivals (hfrom : ∀ c ∈ calls, c.1.IsFrom consumer producer timestamp) (k : Nat) :
    ∀ a ∈ arrivalsOf consumer producer (calls.take k), Numbered timestamp a := by
  intro a ha
  obtain ⟨hts, htop⟩ := isFrom_arrivals (fun c hc => hfrom c (List.mem_of_mem_take hc)) a ha
  obtain ⟨c, -, s, hseat, -, rfl⟩ := mem_arrivalsOf.mp ha
  exact ⟨hts, Header.number_pos_of_seat hseat, htop⟩

theorem arrivalsOf_take_succ (hfrom : ∀ c ∈ calls, c.1.IsFrom consumer producer timestamp) (k : Nat) :
    arrivalsOf consumer producer (calls.take (k + 1)) = arrivalsOf consumer producer (calls.take k) ∨
      ∃ a, arrivalsOf consumer producer (calls.take (k + 1)) =
        arrivalsOf consumer producer (calls.take k) ++ [a] := by
  rw [List.take_add_one, arrivalsOf_append]
  cases hget : calls[k]? with
  | none => exact Or.inl (List.append_nil _)
  | some c =>
    obtain ⟨s, hseat, hp, -⟩ := hfrom c (List.mem_of_getElem? hget)
    exact Or.inr ⟨⟨s.number, s.timestamp, c.2⟩, by simp [arrivalsOf, hseat, hp]⟩

theorem run_eq_acceptAll (hpolicy : e.policy = .strict maxPending resyncAfter)
    (hnew : e.tracking? producer = none)
    (hfrom : ∀ c ∈ calls, c.1.IsFrom e.consumer producer timestamp) (k : Nat) :
    (e.run (calls.take k)).1.tracking producer = (Tracking.acceptAll (.strict maxPending resyncAfter)
        {} (arrivalsOf e.consumer producer (calls.take k))).1 ∧
      e.releases (calls.take k) = (Tracking.acceptAll (.strict maxPending resyncAfter) {}
        (arrivalsOf e.consumer producer (calls.take k))).2 := by
  have hseat : ∀ c ∈ calls.take k, ∃ s, c.1.seat? e.consumer = some s ∧ s.producer = producer := by
    intro c hc
    obtain ⟨s, hs, hp, -⟩ := hfrom c (List.mem_of_mem_take hc)
    exact ⟨s, hs, hp⟩
  rw [tracking_run, releases_of_seated hseat, tracking_of_unseen hnew, hpolicy]
  exact ⟨rfl, rfl⟩

/-- The run up to a call has resumed from a baseline. -/
def ResumedAt (e : Engine α) (producer : String) (start : Nat) (calls : List (Header × α)) : Prop :=
  Tracking.Resumed start (arrivalsOf e.consumer producer calls) ((e.run calls).1.tracking producer)
    (e.releases calls)

theorem resumedAt_baseline (hpolicy : e.policy = .strict maxPending resyncAfter)
    (hnew : e.tracking? producer = none)
    (hfrom : ∀ c ∈ calls, c.1.IsFrom e.consumer producer timestamp)
    (hone : 1 ∉ e.arrived producer (calls.take k))
    (hfew : (e.arrived producer (calls.take k)).card ≤ min resyncAfter maxPending)
    (hmany : min resyncAfter maxPending < (e.arrived producer (calls.take (k + 1))).card) :
    ∃ start, IsLeast (e.arrived producer (calls.take (k + 1)) : Set Nat) start ∧
      e.ResumedAt producer start (calls.take (k + 1)) := by
  have hnumbered := numbered_arrivals hfrom (k + 1)
  obtain ⟨htrack, hreleases⟩ := run_eq_acceptAll hpolicy hnew hfrom (k + 1)
  unfold ResumedAt
  rw [htrack, hreleases]
  unfold arrived at hone hfew hmany ⊢
  rcases arrivalsOf_take_succ hfrom k with hsame | ⟨a, hmore⟩
  · rw [hsame] at hmany
    omega
  · rw [hmore] at hnumbered hmany ⊢
    exact Tracking.baseline_acceptAll hnumbered hone hfew hmany

theorem resumedAt_next (hpolicy : e.policy = .strict maxPending resyncAfter)
    (hnew : e.tracking? producer = none)
    (hfrom : ∀ c ∈ calls, c.1.IsFrom e.consumer producer timestamp) (hstart : 0 < start)
    (hresumed : e.ResumedAt producer start (calls.take k))
    (hfits : ((e.arrived producer (calls.take (k + 1))).filter
      (start + consecutive start (e.arrived producer (calls.take (k + 1))) < ·)).card ≤ maxPending) :
    e.ResumedAt producer start (calls.take (k + 1)) := by
  have hnumbered := numbered_arrivals hfrom (k + 1)
  obtain ⟨hpast, hpastReleases⟩ := run_eq_acceptAll hpolicy hnew hfrom k
  obtain ⟨htrack, hreleases⟩ := run_eq_acceptAll hpolicy hnew hfrom (k + 1)
  unfold ResumedAt at hresumed ⊢
  rw [hpast, hpastReleases] at hresumed
  rw [htrack, hreleases]
  unfold arrived at hfits
  rcases arrivalsOf_take_succ hfrom k with hsame | ⟨a, hmore⟩
  · rwa [hsame]
  · rw [hmore] at hnumbered hfits ⊢
    exact hresumed.continues hstart hnumbered hfits

theorem monotone_last (hpolicy : e.policy = .strict maxPending resyncAfter)
    (hnew : e.tracking? producer = none)
    (hfrom : ∀ c ∈ calls, c.1.IsFrom e.consumer producer timestamp) :
    Monotone fun k => ((e.run (calls.take k)).1.tracking producer).last := by
  refine monotone_nat_of_le_succ fun k => ?_
  have hnumbered := numbered_arrivals hfrom (k + 1)
  rw [(run_eq_acceptAll hpolicy hnew hfrom k).1, (run_eq_acceptAll hpolicy hnew hfrom (k + 1)).1]
  rcases arrivalsOf_take_succ hfrom k with hsame | ⟨a, hmore⟩
  · rw [hsame]
  · rw [hmore] at hnumbered ⊢
    exact Tracking.last_le_acceptAll hnumbered

theorem check_passed (hpolicy : e.policy = .strict maxPending resyncAfter)
    (hnew : e.tracking? producer = none)
    (hfrom : ∀ c ∈ calls, c.1.IsFrom e.consumer producer timestamp) (hget : calls[j]? = some c)
    (hseat : c.1.seat? e.consumer = some s)
    (hpassed : s.number ≤ ((e.run (calls.take j)).1.tracking producer).last) :
    ((e.run (calls.take j)).1.check c.1 c.2).2 = .ok [] ∧
      ((e.run (calls.take j)).1.check c.1 c.2).1.tracking producer =
        (e.run (calls.take j)).1.tracking producer := by
  obtain ⟨s', hs', rfl, hts, htop⟩ := hfrom c (List.mem_of_getElem? hget)
  obtain rfl := Option.some.inj (hseat.symm.trans hs')
  have hpos := Header.number_pos_of_seat hseat
  have htrack := (run_eq_acceptAll hpolicy hnew hfrom j).1
  have htracked := Tracking.tracked_acceptAll maxPending resyncAfter (numbered_arrivals hfrom j)
  have hbounded : ((e.run (calls.take j)).1.tracking s.producer).Bounded
      (.strict maxPending resyncAfter) :=
    htrack ▸ Tracking.bounded_of_numbered (numbered_arrivals hfrom j)
  rw [← htrack] at htracked
  have hcur := htracked.incarnation.resolve_left fun hfresh => by
    rw [hfresh.2] at hpassed
    exact absurd hpassed (Nat.not_le.mpr hpos)
  have hstay := Tracking.enter_of_equals (Binary64.equals_trans hcur (Binary64.equals_symm hts))
  have hstep := htracked.strictStep (a := ⟨s.number, s.timestamp, c.2⟩) hbounded ⟨hts, hpos, htop⟩
  dsimp only at hstep
  rw [hstay] at hstep
  obtain ⟨hkept, hnone⟩ := hstep.seen (Or.inl hpassed)
  obtain ⟨hconsumer, hpol⟩ := run_consumer e (calls.take j)
  have hsound : ((e.run (calls.take j)).1.tracking s.producer).Sound (e.run (calls.take j)).1.policy := by
    rw [hpol, hpolicy]
    exact htracked.sound
  rw [check_of_sound (by rw [hconsumer, hseat]) hsound htop, hpol, hpolicy, hnone, tracking_track,
    if_pos rfl, hkept]
  exact ⟨rfl, rfl⟩

/-- Strict delivery to a consumer that joins late, as long as 1 has not arrived before more numbers than
the lower bound allows. Up to the bound nothing is released. The arrival that exceeds it makes the lowest
number that has arrived the baseline and releases from it on what has arrived up to the first gap. From
then on, while the higher bound covers what has arrived past the first gap, the releases are the numbers
from the baseline to the gap, each in its first copy; what arrives below the baseline is dropped. -/
theorem late_joiner_resyncs (hpolicy : e.policy = .strict maxPending resyncAfter)
    (hnew : e.tracking? producer = none)
    (hfrom : ∀ c ∈ calls, c.1.IsFrom e.consumer producer timestamp)
    (hlate : ∀ k, (e.arrived producer (calls.take k)).card ≤ min resyncAfter maxPending →
      1 ∉ e.arrived producer (calls.take k)) :
    (∀ r ∈ (e.run calls).2, ∃ items, r = .ok items) ∧
    (∀ k, (e.arrived producer (calls.take k)).card ≤ min resyncAfter maxPending →
      e.releases (calls.take k) = []) ∧
    ∀ k, (e.arrived producer (calls.take k)).card ≤ min resyncAfter maxPending →
      min resyncAfter maxPending < (e.arrived producer (calls.take (k + 1))).card →
      ∃ b, IsLeast (e.arrived producer (calls.take (k + 1)) : Set Nat) b ∧
        e.ReleasedFrom producer b (calls.take (k + 1)) ∧
        (∀ j, k < j → (∀ i, k < i → i ≤ j → ((e.arrived producer (calls.take i)).filter
            (b + consecutive b (e.arrived producer (calls.take i)) < ·)).card ≤ maxPending) →
          e.ReleasedFrom producer b (calls.take j)) ∧
        ∀ j c s, k < j → calls[j]? = some c → c.1.seat? e.consumer = some s → s.number < b →
          ((e.run (calls.take j)).1.check c.1 c.2).2 = .ok [] ∧
            ((e.run (calls.take j)).1.check c.1 c.2).1.tracking producer =
              (e.run (calls.take j)).1.tracking producer := by
  refine ⟨run_accepted hfrom (tracking_of_unseen hnew ▸ Tracking.sound_fresh e.policy),
    fun k hfew => ?_, fun k hfew hmany => ?_⟩
  · rw [(run_eq_acceptAll hpolicy hnew hfrom k).2]
    exact (Tracking.quiet_acceptAll (numbered_arrivals hfrom k) (hlate k hfew) hfew).2
  · obtain ⟨b, hleast, hresumed⟩ :=
      resumedAt_baseline hpolicy hnew hfrom (hlate k hfew) hfew hmany
    have hpos : 0 < b := Tracking.pos_of_numbered (numbered_arrivals hfrom (k + 1)) b hleast.1
    refine ⟨b, hleast, hresumed.released_eq, fun j hj hfits => ?_, fun j c s hj hget hseat hbelow => ?_⟩
    -- By induction on the calls after the baseline; every one of them is within the bound.
    · suffices h : e.ResumedAt producer b (calls.take j) from h.released_eq
      induction j, hj using Nat.le_induction with
      | base => exact hresumed
      | succ j hj ih =>
        have hpast := ih fun i hi hij => hfits i hi (Nat.le_succ_of_le hij)
        exact resumedAt_next hpolicy hnew hfrom hpos hpast (hfits (j + 1) (by omega) le_rfl)
    · have hpast := monotone_last hpolicy hnew hfrom (show k + 1 ≤ j from hj)
      refine check_passed hpolicy hnew hfrom hget hseat (le_trans (le_of_lt hbelow) ?_)
      exact le_trans hresumed.started hpast

/-- Numbers 7, 5, 5 again and 6, with bounds that let two wait at first; then 9, 3 and 8. -/
theorem late_joiner_resyncs_from_five :
    let calls := [sampleCall 5 "7" 'c', sampleCall 5 "5" 'a', sampleCall 5 "5" 'x',
      sampleCall 5 "6" 'b', sampleCall 5 "9" 'e', sampleCall 5 "3" 'y', sampleCall 5 "8" 'd']
    let e : Engine Char := fresh "C" (.strict 8 2)
    e.releases (calls.take 3) = [] ∧
      (e.releases (calls.take 7)).map some = ['a', 'b', 'c', 'd', 'e'].map some ∧
      ((e.run (calls.take 5)).1.check (sampleCall 5 "3" 'y').1 'y').2 = .ok [] := by
  intro calls e
  have hfrom : ∀ c ∈ calls, c.1.IsFrom e.consumer "P" (.ofInt 5) := by decide +kernel
  have hlate : ∀ k, (e.arrived "P" (calls.take k)).card ≤ min 2 8 →
      1 ∉ e.arrived "P" (calls.take k) := by
    intro k _ hone
    have hpart : arrivalsOf e.consumer "P" (calls.take k) <+: arrivalsOf e.consumer "P" calls :=
      (List.take_prefix k calls).filterMap _
    have hmem : 1 ∈ e.arrived "P" calls :=
      mem_numbersOf.mpr ((hpart.map Early.number).subset (mem_numbersOf.mp hone))
    exact absurd hmem (by decide +kernel)
  obtain ⟨-, hquiet, hlater⟩ := late_joiner_resyncs (e := e) rfl rfl hfrom hlate
  obtain ⟨b, hleast, -, hreleased, hbelow⟩ := hlater 3 (by decide +kernel) (by decide +kernel)
  have hfive : IsLeast (e.arrived "P" (calls.take 4) : Set Nat) 5 :=
    ⟨show 5 ∈ e.arrived "P" (calls.take 4) by decide +kernel,
      show ∀ n ∈ e.arrived "P" (calls.take 4), 5 ≤ n by decide +kernel⟩
  obtain rfl := hleast.unique hfive
  have hfew : ∀ i ≤ 7, ((e.arrived "P" (calls.take i)).filter
      (5 + consecutive 5 (e.arrived "P" (calls.take i)) < ·)).card ≤ 8 := by decide +kernel
  refine ⟨hquiet 3 (by decide +kernel), ?_, ?_⟩
  · exact (hreleased 7 (by decide) fun i _ hi => hfew i hi).trans (by decide +kernel)
  · exact (hbelow 5 _ ⟨"P", .ofInt 5, 3⟩ (by decide) rfl (by decide +kernel) (by decide)).1

end Engine

end OrderedRelay
