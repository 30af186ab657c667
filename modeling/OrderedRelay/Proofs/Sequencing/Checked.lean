import OrderedRelay.Proofs.Sequencing.Drain

/-!
# Where counting stops

The numbers of a tracking are counted in 64 bits, and accepting an arrival stops where a number does not
exist. While the numbers of a tracking fit into 64 bits a drain never stops, and an acceptance stops
exactly if the highest number of all has been released last: it starts by asking for the number after
it. Where nothing stops, the results are those of counting that goes round.
-/

namespace OrderedRelay

namespace Trap

theorem plusOne_of_lt {n : Nat} (h : n < topNumber) : plusOne n = .ok (successor n) := by
  rw [plusOne, if_pos h, successor_of_lt h]

theorem plusOne_topNumber : plusOne topNumber = .error .overflow := by
  rw [plusOne, if_neg (lt_irrefl _)]

end Trap

open Trap

namespace Tracking

variable {α : Type} {policy : Policy} {t : Tracking α} {incarnation timestamp : Binary64}
  {last number received maxPending resyncAfter : Nat} {es : List (Early α)} {item : α}

/-! ### Ascending numbers -/

/-- The numbers ascend from `last` and fit into 64 bits. -/
structure Climbs (last : Nat) (es : List (Early α)) : Prop where
  ascending : (last :: es.map Early.number).Pairwise (· < ·)
  bounded : ∀ e ∈ es, e.number ≤ topNumber

theorem climbs_nil (last : Nat) : Climbs last ([] : List (Early α)) := ⟨by simp, nofun⟩

theorem climbs_cons {e : Early α} :
    Climbs last (e :: es) ↔ last < e.number ∧ e.number ≤ topNumber ∧ Climbs e.number es := by
  constructor
  · rintro ⟨hasc, hbound⟩
    obtain ⟨hfirst, hrest⟩ := List.pairwise_cons.mp hasc
    exact ⟨hfirst _ (List.mem_cons_self ..), hbound e (List.mem_cons_self ..), hrest,
      fun b hb => hbound b (List.mem_cons_of_mem e hb)⟩
  · rintro ⟨hlt, htop, hasc, hbound⟩
    refine ⟨List.pairwise_cons.mpr ⟨?_, hasc⟩, ?_⟩
    · intro n hn
      rcases List.mem_cons.mp hn with rfl | hn
      · exact hlt
      · exact lt_trans hlt ((List.pairwise_cons.mp hasc).1 n hn)
    · intro b hb
      rcases List.mem_cons.mp hb with rfl | hb
      · exact htop
      · exact hbound b hb

theorem Climbs.mono {first : Nat} (h : Climbs last es) (hle : first ≤ last) : Climbs first es := by
  obtain ⟨hfirst, hrest⟩ := List.pairwise_cons.mp h.ascending
  exact ⟨List.pairwise_cons.mpr ⟨fun n hn => lt_of_le_of_lt hle (hfirst n hn), hrest⟩, h.bounded⟩

theorem Ordered.climbs (h : Ordered incarnation last es) : Climbs last es := by
  induction es generalizing last with
  | nil => exact climbs_nil last
  | cons e es ih =>
    obtain ⟨hlt, htop, -, hrest⟩ := h
    exact climbs_cons.mpr ⟨hlt, htop.le, ih hrest⟩

theorem mem_of_mem_insertEarly {a e : Early α} (h : e ∈ insertEarly a es) : e = a ∨ e ∈ es := by
  induction es with
  | nil => exact Or.inl (List.mem_singleton.mp h)
  | cons b bs ih =>
    simp only [insertEarly] at h
    split_ifs at h with hlt heq
    · exact List.mem_cons.mp h
    · exact (List.mem_cons.mp h).imp_right (List.mem_cons_of_mem b)
    · rcases List.mem_cons.mp h with rfl | h
      · exact Or.inr (List.mem_cons_self ..)
      · exact (ih h).imp_right (List.mem_cons_of_mem b)

theorem Climbs.insertEarly {a : Early α} (h : Climbs last es) (hlast : last < a.number)
    (htop : a.number ≤ topNumber) : Climbs last (insertEarly a es) := by
  induction es generalizing last with
  | nil => exact climbs_cons.mpr ⟨hlast, htop, climbs_nil _⟩
  | cons b bs ih =>
    obtain ⟨hb, hbtop, hbs⟩ := climbs_cons.mp h
    simp only [Tracking.insertEarly]
    split_ifs with hlt heq
    · exact climbs_cons.mpr ⟨hlast, htop, climbs_cons.mpr ⟨hlt, hbtop, hbs⟩⟩
    · exact climbs_cons.mpr ⟨hlast, htop, heq ▸ hbs⟩
    · exact climbs_cons.mpr ⟨hb, hbtop, ih hbs (by omega)⟩

/-! ### Drains -/

/-- What a drain leaves: numbers that ascend from past the next one, all of them from the list, and a
last number from there or from before. -/
structure Leaves (last : Nat) (es : List (Early α)) (d : Drained α) : Prop where
  waiting : Climbs (d.last + 1) d.buffer
  kept : d.buffer ⊆ es
  last_eq : d.last = last ∨ d.last ∈ es.map Early.number
  last_ge : last ≤ d.last

theorem Leaves.nil (last : Nat) : Leaves last [] (⟨[], last, []⟩ : Drained α) :=
  ⟨climbs_nil _, List.Subset.refl _, Or.inl rfl, le_rfl⟩

theorem Leaves.stop {e : Early α} (h : Climbs last (e :: es)) (hne : e.number ≠ last + 1) :
    Leaves last (e :: es) ⟨[], last, e :: es⟩ := by
  obtain ⟨hlt, htop, hrest⟩ := climbs_cons.mp h
  exact ⟨climbs_cons.mpr ⟨by dsimp only; omega, htop, hrest⟩, List.Subset.refl _, Or.inl rfl, le_rfl⟩

theorem Leaves.drop {e : Early α} {d : Drained α} (h : Leaves last es d) : Leaves last (e :: es) d :=
  ⟨h.waiting, List.subset_cons_of_subset e h.kept,
    h.last_eq.imp_right (List.mem_cons_of_mem e.number), h.last_ge⟩

theorem Leaves.cons {e : Early α} {d : Drained α} (h : Leaves e.number es d)
    (hlt : last < e.number) : Leaves last (e :: es) (d.cons e.item) where
  waiting := h.waiting
  kept := List.subset_cons_of_subset e h.kept
  last_eq := Or.inr (List.mem_cons.mpr h.last_eq)
  last_ge := le_trans (le_of_lt hlt) h.last_ge

theorem passGap_checked {e : Early α} (h : last < e.number) (htop : e.number ≤ topNumber) :
    passGap .checked e = .ok () := by
  obtain ⟨k, hk⟩ : ∃ k, e.number = k + 1 := ⟨e.number - 1, by omega⟩
  have hlt : k < topNumber := by omega
  show (do let below ← minusOne e.number; let _ ← plusOne below; pure ()) = _
  rw [hk, show minusOne (k + 1) = .ok k from rfl]
  show (do let _ ← plusOne k; pure ()) = _
  rw [plusOne_of_lt hlt]
  rfl

/-- A strict drain asks for the number after the last one only while a higher one waits. -/
theorem drainStrictBy_checked (incarnation : Binary64) (last : Nat)
    (hle : ∀ e ∈ es, e.number ≤ topNumber) :
    drainStrictBy .checked maxPending resyncAfter incarnation last es =
      .ok (drainStrict maxPending resyncAfter incarnation last es) := by
  induction es generalizing last with
  | nil => rfl
  | cons e es ih =>
    obtain ⟨htop, hrest⟩ := List.forall_mem_cons.mp hle
    rw [drainStrictBy, drainStrict_eq]
    by_cases hstale : (!e.timestamp.equals incarnation || decide (e.number ≤ last)) = true
    · rw [if_pos hstale, if_pos hstale]
      exact ih last hrest
    · have hlt : last < e.number := by simp at hstale; exact hstale.2
      have hnext : Counting.checked.plusOne last = .ok (successor last) :=
        plusOne_of_lt (lt_of_lt_of_le hlt htop)
      rw [if_neg hstale, if_neg hstale, hnext]
      simp only [passGap_checked hlt htop, ih e.number hrest, bind, Except.bind, pure, Except.pure]
      by_cases he : e.number = successor last
      · rw [if_pos he, if_pos (Or.inl he)]
      · by_cases hfull : Policy.bound maxPending resyncAfter last < es.length + 1
        · rw [if_neg he, if_pos hfull, if_pos (Or.inr hfull)]
        · rw [if_neg he, if_neg hfull, if_neg (not_or.mpr ⟨he, hfull⟩)]

/-- A legacy drain asks for the number after the last one even where what waits has been passed. -/
theorem drainLegacyBy_checked (incarnation : Binary64) (hasc : (es.map Early.number).Pairwise (· < ·))
    (hle : ∀ e ∈ es, e.number ≤ topNumber) (hlast : es ≠ [] → last < topNumber) :
    drainLegacyBy .checked received incarnation last es =
      .ok (drainLegacy received incarnation last es) := by
  induction es generalizing last with
  | nil => rfl
  | cons e es ih =>
    obtain ⟨htop, hrest⟩ := List.forall_mem_cons.mp hle
    obtain ⟨hfirst, hasc⟩ := List.pairwise_cons.mp hasc
    have hlt := hlast (List.cons_ne_nil e es)
    have hnext : Counting.checked.plusOne last = .ok (successor last) := plusOne_of_lt hlt
    have hdrop := ih hasc hrest fun _ => hlt
    -- What follows the front is above it, so the front is not the highest number of all.
    have hbelow : es ≠ [] → e.number < topNumber := by
      intro hne
      obtain ⟨b, bs, rfl⟩ := List.exists_cons_of_ne_nil hne
      exact lt_of_lt_of_le (hfirst b.number (List.mem_cons_self ..)) (hrest b (List.mem_cons_self ..))
    have hgo := ih hasc hrest hbelow
    rw [drainLegacyBy, drainLegacy_eq]
    by_cases hcur : e.timestamp.equals incarnation = true
    · rw [if_neg (by simp [hcur]), hnext]
      simp only [hcur, Bool.not_true, Bool.false_or, decide_eq_true_eq, bind, Except.bind]
      by_cases hpassed : e.number < successor last
      · rw [if_pos hpassed, if_pos hpassed]
        exact hdrop
      · have hgap : passGap .checked e = .ok () := by
          rw [successor_of_lt hlt] at hpassed
          have hgt : last < e.number := by omega
          exact passGap_checked hgt htop
        rw [if_neg hpassed, if_neg hpassed]
        simp only [hgap, hgo, pure, Except.pure]
        by_cases he : e.number = successor last
        · rw [if_pos he, if_pos (Or.inl he)]
        · by_cases hskip : highest e es = received ∧ es ≠ []
          · rw [if_neg he, if_pos hskip, if_pos (Or.inr hskip)]
          · rw [if_neg he, if_neg hskip, if_neg (not_or.mpr ⟨he, hskip⟩)]
    · rw [if_pos (by simp [hcur]), if_pos (by simp [hcur])]
      exact hdrop

theorem Climbs.drainLegacyBy_checked (h : Climbs last es) (received : Nat) (incarnation : Binary64) :
    drainLegacyBy .checked received incarnation last es =
      .ok (drainLegacy received incarnation last es) := by
  obtain ⟨hfirst, hasc⟩ := List.pairwise_cons.mp h.ascending
  refine Tracking.drainLegacyBy_checked incarnation hasc h.bounded fun hne => ?_
  obtain ⟨b, bs, rfl⟩ := List.exists_cons_of_ne_nil hne
  exact lt_of_lt_of_le (hfirst b.number (List.mem_cons_self ..)) (h.bounded b (List.mem_cons_self ..))

theorem leaves_drainStrict (maxPending resyncAfter : Nat) (incarnation : Binary64)
    (h : Climbs last es) :
    Leaves last es (drainStrict maxPending resyncAfter incarnation last es) := by
  induction es generalizing last with
  | nil => exact .nil last
  | cons e es ih =>
    obtain ⟨hlt, htop, hrest⟩ := climbs_cons.mp h
    rw [drainStrict_eq, successor_of_lt (lt_of_lt_of_le hlt htop)]
    split_ifs with hstale hgo
    · exact (ih (hrest.mono (le_of_lt hlt))).drop
    · exact (ih hrest).cons hlt
    · exact .stop h fun he => hgo (Or.inl he)

theorem leaves_drainLegacy (received : Nat) (incarnation : Binary64) (h : Climbs last es) :
    Leaves last es (drainLegacy received incarnation last es) := by
  induction es generalizing last with
  | nil => exact .nil last
  | cons e es ih =>
    obtain ⟨hlt, htop, hrest⟩ := climbs_cons.mp h
    rw [drainLegacy_eq, successor_of_lt (lt_of_lt_of_le hlt htop)]
    split_ifs with hstale hgo
    · exact (ih (hrest.mono (le_of_lt hlt))).drop
    · exact (ih hrest).cons hlt
    · exact .stop h fun he => hgo (Or.inl he)

/-! ### Trackings whose numbers fit -/

/-- What holds of a tracking while its numbers are within 64 bits: those that wait ascend from past the
next one, belong to no other incarnation and, by the legacy rule, wait for no baseline. -/
structure Fits (policy : Policy) (t : Tracking α) : Prop where
  last_le : t.last ≤ topNumber
  waiting : Climbs (t.last + 1) t.buffer
  current : ∀ e ∈ t.buffer, ∀ timestamp, e.timestamp.equals timestamp = true →
    t.incarnation.equals timestamp = true
  baseline : policy = .legacy → t.last = 0 → t.buffer = []

theorem fits_empty (policy : Policy) (timestamp : Binary64) :
    Fits policy (⟨0, timestamp, []⟩ : Tracking α) :=
  ⟨Nat.zero_le _, climbs_nil _, nofun, fun _ _ => rfl⟩

theorem Fits.climbs (h : t.Fits policy) : Climbs t.last t.buffer := h.waiting.mono (Nat.le_succ _)

theorem enter_of_equals (h : t.incarnation.equals timestamp = true) : t.enter timestamp = t := by
  simp [enter, h]

theorem Fits.enter_eq (h : t.Fits policy) (hne : t.incarnation.equals timestamp = false) :
    t.enter timestamp = ⟨0, timestamp, []⟩ := by
  have hnone : t.buffer.filter (fun e => e.timestamp.equals timestamp) = [] := by
    rw [List.filter_eq_nil_iff]
    intro e he hts
    rw [h.current e he timestamp hts] at hne
    cases hne
  simp only [enter, hne, reset, hnone, Bool.false_eq_true, if_false]

theorem Fits.enter (h : t.Fits policy) (timestamp : Binary64) : (t.enter timestamp).Fits policy := by
  by_cases heq : t.incarnation.equals timestamp = true
  · rwa [enter_of_equals heq]
  · rw [h.enter_eq (Bool.eq_false_iff.mpr heq)]
    exact fits_empty policy timestamp

theorem Fits.climbs_insertEarly (h : t.Fits policy) (hgap : t.last + 1 < number)
    (htop : number ≤ topNumber) (item : α) :
    Climbs t.last (insertEarly ⟨number, t.incarnation, item⟩ t.buffer) :=
  h.climbs.insertEarly (by dsimp only; omega) htop

theorem acceptStrictBy_checked {policy : Policy} (h : t.Fits policy) (hlast : t.last < topNumber)
    (htop : number ≤ topNumber) :
    acceptStrictBy .checked maxPending resyncAfter t number item =
      .ok (acceptStrict maxPending resyncAfter t number item) := by
  have hplus : Counting.checked.plusOne t.last = .ok t.nextExpected := plusOne_of_lt hlast
  have hnext : t.nextExpected = t.last + 1 := successor_of_lt hlast
  simp only [acceptStrictBy, acceptStrict_def, hplus, bind, Except.bind]
  by_cases hdup : number < t.nextExpected ∨ number ∈ t.pending
  · rw [if_pos hdup, if_pos hdup, drainStrictBy_checked t.incarnation t.last h.climbs.bounded]
    rfl
  · rw [if_neg hdup, if_neg hdup]
    by_cases heq : number = t.nextExpected
    · rw [if_pos heq, if_pos heq, drainStrictBy_checked t.incarnation number h.climbs.bounded]
      rfl
    · rw [if_neg heq, if_neg heq,
        drainStrictBy_checked t.incarnation t.last
          (h.climbs_insertEarly (by omega) htop item).bounded]
      rfl

theorem acceptLegacyBy_checked {policy : Policy} (h : t.Fits policy) (hlast : t.last < topNumber)
    (htop : number ≤ topNumber) :
    acceptLegacyBy .checked t number item = .ok (acceptLegacy t number item) := by
  have hplus : Counting.checked.plusOne t.last = .ok t.nextExpected := plusOne_of_lt hlast
  have hnext : t.nextExpected = t.last + 1 := successor_of_lt hlast
  simp only [acceptLegacyBy, acceptLegacy_def, hplus, bind, Except.bind]
  by_cases hpassed : number < t.nextExpected
  · rw [if_pos hpassed, if_pos hpassed, h.climbs.drainLegacyBy_checked]
    rfl
  · rw [if_neg hpassed, if_neg hpassed]
    by_cases heq : number = t.nextExpected
    · rw [if_pos heq, if_pos heq, Climbs.drainLegacyBy_checked (heq ▸ hnext ▸ h.waiting)]
      rfl
    · rw [if_neg heq, if_neg heq]
      by_cases hbase : t.last = 0
      · rw [if_pos hbase, if_pos hbase]
        rfl
      · rw [if_neg hbase, if_neg hbase,
          (h.climbs_insertEarly (by omega) htop item).drainLegacyBy_checked]
        rfl

/-- Accepting stops if the highest number has been released last in the incarnation of the arrival,
and only then. -/
theorem Fits.accept?_eq (h : t.Fits policy) (htop : number ≤ topNumber) (timestamp : Binary64)
    (item : α) :
    accept? policy t timestamp number item =
      if (t.enter timestamp).last = topNumber then .error .overflow
      else .ok (acceptBy .wrapping policy t timestamp number item) := by
  have hentered := h.enter timestamp
  by_cases hlast : (t.enter timestamp).last = topNumber
  · have hplus : Counting.checked.plusOne topNumber = .error .overflow := plusOne_topNumber
    rw [if_pos hlast]
    cases policy <;> simp only [accept?, acceptBy, acceptStrictBy, acceptLegacyBy, hlast, hplus] <;> rfl
  · rw [if_neg hlast]
    have hlt := lt_of_le_of_ne hentered.last_le hlast
    cases policy with
    | strict maxPending resyncAfter => exact acceptStrictBy_checked hentered hlt htop
    | legacy => exact acceptLegacyBy_checked hentered hlt htop

/-- What an arrival makes of a tracking, and what it gives out; if accepting it stops it makes no
difference. -/
def accept (policy : Policy) (t : Tracking α) (timestamp : Binary64) (number : Nat) (item : α) :
    Tracking α × List α :=
  match t.accept? policy timestamp number item with
  | .ok result => result
  | .error _ => (t, [])

theorem Fits.accept_eq (h : t.Fits policy) (hlast : (t.enter timestamp).last < topNumber)
    (htop : number ≤ topNumber) (item : α) :
    accept policy t timestamp number item = acceptBy .wrapping policy t timestamp number item := by
  rw [accept, h.accept?_eq htop, if_neg hlast.ne]

/-! ### What an acceptance leaves -/

def held (t : Tracking α) : List Nat := t.last :: t.pending

/-- An acceptance leaves a tracking that fits and holds no number but the one that arrived and those
held before. -/
structure Admits (policy : Policy) (t : Tracking α) (number : Nat) (t' : Tracking α) : Prop where
  fits : t'.Fits policy
  held : t'.held ⊆ number :: t.held

theorem Fits.held_le (h : t.Fits policy) : ∀ n ∈ t.held, n ≤ topNumber := by
  refine List.forall_mem_cons.mpr ⟨h.last_le, fun n hn => ?_⟩
  obtain ⟨e, he, rfl⟩ := List.mem_map.mp hn
  exact h.waiting.bounded e he

theorem Fits.admits_afterDrain {d : Drained α} (h : t.Fits policy) (item : α)
    (htop : number ≤ topNumber) (hd : Leaves last es d) (hlast : last ∈ number :: t.held)
    (hes : ∀ e ∈ es, e = ⟨number, t.incarnation, item⟩ ∨ e ∈ t.buffer)
    (hbase : policy = .legacy → last = 0 → es = []) :
    Admits policy t number (t.afterDrain d) := by
  have hnumbers : es.map Early.number ⊆ number :: t.held := by
    intro n hn
    obtain ⟨e, he, rfl⟩ := List.mem_map.mp hn
    rcases hes e he with rfl | he
    · exact List.mem_cons_self ..
    · exact List.mem_cons_of_mem _ (List.mem_cons_of_mem _ (List.mem_map_of_mem he))
  have hdlast : d.last ∈ number :: t.held := by
    rcases hd.last_eq with heq | hmem
    · rwa [heq]
    · exact hnumbers hmem
  refine ⟨⟨?_, hd.waiting, ?_, ?_⟩, ?_⟩
  · rcases List.mem_cons.mp hdlast with heq | hmem
    · exact le_of_eq_of_le heq htop
    · exact h.held_le d.last hmem
  · intro e he timestamp hts
    rcases hes e (hd.kept he) with rfl | hbuffer
    · exact hts
    · exact h.current e hbuffer timestamp hts
  · intro hlegacy hzero
    have hge : last ≤ (t.afterDrain d).last := hd.last_ge
    have hnil := hbase hlegacy (by omega)
    exact List.subset_nil.mp (hnil ▸ hd.kept)
  · exact List.cons_subset.mpr ⟨hdlast, List.Subset.trans (List.map_subset _ hd.kept) hnumbers⟩

theorem Fits.admits_acceptStrict (h : t.Fits (.strict maxPending resyncAfter))
    (hlast : t.last < topNumber) (htop : number ≤ topNumber) :
    Admits (.strict maxPending resyncAfter) t number
      (acceptStrict maxPending resyncAfter t number item).1 := by
  have hnext : t.nextExpected = t.last + 1 := successor_of_lt hlast
  rw [acceptStrict_def]
  dsimp only
  split_ifs with hdup heq
  · exact h.admits_afterDrain item htop (leaves_drainStrict _ _ _ h.climbs)
      (by simp [Tracking.held]) (fun _ => Or.inr) nofun
  · exact h.admits_afterDrain item htop
      (leaves_drainStrict _ _ _ (heq ▸ hnext ▸ h.waiting)) (List.mem_cons_self ..)
      (fun _ => Or.inr) nofun
  · exact h.admits_afterDrain item htop
      (leaves_drainStrict _ _ _ (h.climbs_insertEarly (by omega) htop item))
      (by simp [Tracking.held]) (fun _ => mem_of_mem_insertEarly) nofun

theorem Fits.admits_acceptLegacy (h : t.Fits .legacy) (hlast : t.last < topNumber)
    (htop : number ≤ topNumber) :
    Admits .legacy t number (acceptLegacy t number item).1 := by
  have hnext : t.nextExpected = t.last + 1 := successor_of_lt hlast
  rw [acceptLegacy_def]
  dsimp only
  split_ifs with hpassed heq hbase
  · exact h.admits_afterDrain item htop (leaves_drainLegacy _ _ h.climbs)
      (by simp [Tracking.held]) (fun _ => Or.inr) h.baseline
  · exact h.admits_afterDrain item htop
      (leaves_drainLegacy _ _ (heq ▸ hnext ▸ h.waiting)) (List.mem_cons_self ..)
      (fun _ => Or.inr) fun _ hzero => by omega
  -- A baseline drains nothing, and nothing waited before it.
  · have hnil := h.baseline rfl hbase
    refine ⟨⟨htop, hnil ▸ climbs_nil _, h.current, fun _ _ => hnil⟩, ?_⟩
    exact List.cons_subset_cons number (List.subset_cons_self ..)
  · exact h.admits_afterDrain item htop
      (leaves_drainLegacy _ _ (h.climbs_insertEarly (by omega) htop item))
      (by simp [Tracking.held]) (fun _ => mem_of_mem_insertEarly)
      fun _ hzero => absurd hzero hbase

theorem Fits.held_enter (h : t.Fits policy) (timestamp : Binary64) :
    (t.enter timestamp).held ⊆ 0 :: t.held := by
  by_cases heq : t.incarnation.equals timestamp = true
  · rw [enter_of_equals heq]
    exact List.subset_cons_self ..
  · rw [h.enter_eq (Bool.eq_false_iff.mpr heq)]
    exact List.cons_subset_cons 0 (List.nil_subset _)

/-- Whether it stops or not, an acceptance leaves a tracking that fits. -/
theorem Fits.accept_keeps (h : t.Fits policy) (htop : number ≤ topNumber) (timestamp : Binary64)
    (item : α) :
    (accept policy t timestamp number item).1.Fits policy ∧
      (accept policy t timestamp number item).1.held ⊆ number :: 0 :: t.held := by
  have hentered := h.enter timestamp
  by_cases hlast : (t.enter timestamp).last = topNumber
  · rw [accept, h.accept?_eq htop, if_pos hlast]
    exact ⟨h, fun n hn => List.mem_cons_of_mem _ (List.mem_cons_of_mem _ hn)⟩
  · have hlt := lt_of_le_of_ne hentered.last_le hlast
    have hadmits : Admits policy (t.enter timestamp) number
        (accept policy t timestamp number item).1 := by
      rw [h.accept_eq hlt htop]
      cases policy with
      | strict maxPending resyncAfter => exact hentered.admits_acceptStrict hlt htop
      | legacy => exact hentered.admits_acceptLegacy hlt htop
    exact ⟨hadmits.fits,
      List.Subset.trans hadmits.held (List.cons_subset_cons number (h.held_enter timestamp))⟩

end Tracking

end OrderedRelay
