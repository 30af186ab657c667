import OrderedRelay.Sequencing.Tracking
import Mathlib.Data.Finset.Sort

/-!
# What a drain gives out

A list of waiting messages is ordered after a number if their numbers ascend from there and their
incarnation is the one tracked. Of such a list a drain, by either policy, gives out a first part and
keeps the rest: nothing is dropped, and nothing leaves before what it follows. How long the first part
is depends on the policy; a strict drain whose rest is within the bound gives out exactly what is next
in turn.
-/

namespace OrderedRelay

theorem successor_of_lt {n : Nat} (h : n < topNumber) : successor n = n + 1 := by
  simp only [topNumber] at h
  simp only [successor]
  omega

/-- Counting that goes round at both ends of the range, as a program built without checks does. -/
def Counting.wrapping : Counting Id := ⟨successor, fun n => (n + topNumber) % (topNumber + 1)⟩

namespace Tracking

variable {α : Type} {incarnation : Binary64} {last n received : Nat} {es out : List (Early α)}

/-! ### Results that always exist -/

def nextExpected (t : Tracking α) : Nat := successor t.last

def drainStrict (maxPending resyncAfter : Nat) (incarnation : Binary64) (last : Nat)
    (es : List (Early α)) : Drained α :=
  drainStrictBy .wrapping maxPending resyncAfter incarnation last es

def drainLegacy (received : Nat) (incarnation : Binary64) (last : Nat) (es : List (Early α)) :
    Drained α :=
  drainLegacyBy .wrapping received incarnation last es

def acceptStrict (maxPending resyncAfter : Nat) (t : Tracking α) (number : Nat) (item : α) :
    Tracking α × List α :=
  acceptStrictBy .wrapping maxPending resyncAfter t number item

def acceptLegacy (t : Tracking α) (number : Nat) (item : α) : Tracking α × List α :=
  acceptLegacyBy .wrapping t number item

@[simp] theorem drainStrict_nil (maxPending resyncAfter : Nat) (incarnation : Binary64) (last : Nat) :
    drainStrict maxPending resyncAfter incarnation last ([] : List (Early α)) = ⟨[], last, []⟩ := rfl

@[simp] theorem drainLegacy_nil (received : Nat) (incarnation : Binary64) (last : Nat) :
    drainLegacy received incarnation last ([] : List (Early α)) = ⟨[], last, []⟩ := rfl

theorem drainStrict_eq (maxPending resyncAfter : Nat) (incarnation : Binary64) (last : Nat)
    (e : Early α) (es : List (Early α)) :
    drainStrict maxPending resyncAfter incarnation last (e :: es) =
      if !e.timestamp.equals incarnation || e.number ≤ last then
        drainStrict maxPending resyncAfter incarnation last es
      else if e.number = successor last ∨
          Policy.bound maxPending resyncAfter last < es.length + 1 then
        (drainStrict maxPending resyncAfter incarnation e.number es).cons e.item
      else ⟨[], last, e :: es⟩ := by
  rw [drainStrict, drainStrictBy]
  by_cases hstale : (!e.timestamp.equals incarnation || decide (e.number ≤ last)) = true
  · rw [if_pos hstale, if_pos hstale]
    rfl
  · rw [if_neg hstale, if_neg hstale, ite_or]
    rfl

theorem drainLegacy_eq (received : Nat) (incarnation : Binary64) (last : Nat) (e : Early α)
    (es : List (Early α)) :
    drainLegacy received incarnation last (e :: es) =
      if !e.timestamp.equals incarnation || e.number < successor last then
        drainLegacy received incarnation last es
      else if e.number = successor last ∨ (highest e es = received ∧ es ≠ []) then
        (drainLegacy received incarnation e.number es).cons e.item
      else ⟨[], last, e :: es⟩ := by
  rw [drainLegacy, drainLegacyBy]
  by_cases hcur : e.timestamp.equals incarnation = true
  · rw [if_neg (by simp [hcur])]
    simp only [hcur, Bool.not_true, Bool.false_or, decide_eq_true_eq, ite_or]
    rfl
  · rw [if_pos (by simp [hcur]), if_pos (by simp [hcur])]
    rfl

theorem acceptStrict_def (maxPending resyncAfter : Nat) (t : Tracking α) (number : Nat) (item : α) :
    acceptStrict maxPending resyncAfter t number item =
      let drain := drainStrict maxPending resyncAfter t.incarnation
      if number < t.nextExpected ∨ number ∈ t.pending then
        let d := drain t.last t.buffer
        (t.afterDrain d, d.released)
      else if number = t.nextExpected then
        let d := drain number t.buffer
        (t.afterDrain d, item :: d.released)
      else
        let d := drain t.last (insertEarly ⟨number, t.incarnation, item⟩ t.buffer)
        (t.afterDrain d, d.released) := rfl

theorem acceptLegacy_def (t : Tracking α) (number : Nat) (item : α) :
    acceptLegacy t number item =
      let drain := drainLegacy number t.incarnation
      if number < t.nextExpected then
        let d := drain t.last t.buffer
        (t.afterDrain d, d.released)
      else if number = t.nextExpected then
        let d := drain number t.buffer
        (t.afterDrain d, item :: d.released)
      else if t.last = 0 then ({ t with last := number }, [item])
      else
        let d := drain t.last (insertEarly ⟨number, t.incarnation, item⟩ t.buffer)
        (t.afterDrain d, d.released) := rfl

/-! ### Ordered lists -/

/-- The numbers ascend from `last`, stay below the highest one and belong to the incarnation. -/
def Ordered (incarnation : Binary64) : Nat → List (Early α) → Prop
  | _, [] => True
  | last, e :: es => last < e.number ∧ e.number < topNumber ∧
      e.timestamp.equals incarnation = true ∧ Ordered incarnation e.number es

/-- The last number of a list that follows `last`. -/
def lastOf (last : Nat) (out : List (Early α)) : Nat := out.foldl (fun _ e => e.number) last

@[simp] theorem lastOf_nil (last : Nat) : lastOf last ([] : List (Early α)) = last := rfl

@[simp] theorem lastOf_cons (last : Nat) (e : Early α) (es : List (Early α)) :
    lastOf last (e :: es) = lastOf e.number es := rfl

theorem Ordered.mono {first : Nat} (h : Ordered incarnation last es) (hle : first ≤ last) :
    Ordered incarnation first es := by
  cases es with
  | nil => trivial
  | cons e es => exact ⟨lt_of_le_of_lt hle h.1, h.2⟩

theorem Ordered.mem (h : Ordered incarnation last es) {e : Early α} (he : e ∈ es) :
    last < e.number ∧ e.number < topNumber ∧ e.timestamp.equals incarnation = true := by
  induction es generalizing last with
  | nil => cases he
  | cons b bs ih =>
    obtain ⟨h₁, h₂, h₃, h₄⟩ := h
    rcases List.mem_cons.mp he with rfl | hb
    · exact ⟨h₁, h₂, h₃⟩
    · exact ⟨lt_trans h₁ (ih h₄ hb).1, (ih h₄ hb).2⟩

theorem Ordered.pairwise (h : Ordered incarnation last es) :
    (es.map Early.number).Pairwise (· < ·) := by
  induction es generalizing last with
  | nil => exact List.Pairwise.nil
  | cons e es ih =>
    obtain ⟨-, -, -, h₄⟩ := h
    refine List.pairwise_cons.mpr ⟨?_, ih h₄⟩
    intro x hx
    obtain ⟨b, hb, rfl⟩ := List.mem_map.mp hx
    exact (h₄.mem hb).1

theorem ordered_append (xs ys : List (Early α)) :
    Ordered incarnation last (xs ++ ys) ↔
      Ordered incarnation last xs ∧ Ordered incarnation (lastOf last xs) ys := by
  induction xs generalizing last with
  | nil => simp [Ordered]
  | cons e es ih => simp [Ordered, ih, and_assoc]

theorem Ordered.le_lastOf (h : Ordered incarnation last es) : last ≤ lastOf last es := by
  induction es generalizing last with
  | nil => exact le_rfl
  | cons e es ih => exact le_trans (le_of_lt h.1) (ih h.2.2.2)

theorem Ordered.mem_le_lastOf (h : Ordered incarnation last es) {e : Early α} (he : e ∈ es) :
    e.number ≤ lastOf last es := by
  induction es generalizing last with
  | nil => cases he
  | cons b bs ih =>
    rcases List.mem_cons.mp he with rfl | hb
    · exact h.2.2.2.le_lastOf
    · exact ih h.2.2.2 hb

theorem Ordered.lastOf_lt (h : Ordered incarnation last es) (hlast : last < topNumber) :
    lastOf last es < topNumber := by
  induction es generalizing last with
  | nil => exact hlast
  | cons e es ih => exact ih h.2.2.2 h.2.1

/-- Cut in two, an ordered list has in its second part what comes after the first. -/
theorem mem_rest_iff {xs ys : List (Early α)} (h : Ordered incarnation last (xs ++ ys)) :
    n ∈ ys.map Early.number ↔ n ∈ (xs ++ ys).map Early.number ∧ lastOf last xs < n := by
  obtain ⟨hxs, hys⟩ := (ordered_append xs ys).mp h
  rw [List.map_append, List.mem_append]
  constructor
  · intro hn
    obtain ⟨e, he, rfl⟩ := List.mem_map.mp hn
    exact ⟨Or.inr hn, (hys.mem he).1⟩
  · rintro ⟨hn | hn, hlt⟩
    · obtain ⟨e, he, rfl⟩ := List.mem_map.mp hn
      exact absurd (hxs.mem_le_lastOf he) (Nat.not_le.mpr hlt)
    · exact hn

/-! ### Insertion -/

theorem insertEarly_of_lt {a : Early α} (h : Ordered incarnation a.number es) :
    insertEarly a es = a :: es := by
  cases es with
  | nil => rfl
  | cons e es => simp [insertEarly, h.1]

theorem mem_insertEarly {a : Early α} (h : Ordered incarnation last es) (e : Early α) :
    e ∈ insertEarly a es ↔ e = a ∨ (e ∈ es ∧ e.number ≠ a.number) := by
  induction es generalizing last with
  | nil => simp [insertEarly]
  | cons b bs ih =>
    obtain ⟨-, -, -, h₄⟩ := h
    have later : ∀ x ∈ bs, b.number < x.number := fun x hx => (h₄.mem hx).1
    simp only [insertEarly]
    -- In front of the list, in place of its head, or further back.
    split_ifs with hlt heq
    · have hne : ∀ x ∈ b :: bs, x.number ≠ a.number := by
        intro x hx
        rcases List.mem_cons.mp hx with rfl | hx
        · omega
        · have := later x hx
          omega
      grind
    · have hne : ∀ x ∈ bs, x.number ≠ a.number := by
        intro x hx
        have := later x hx
        omega
      grind
    · rw [List.mem_cons, ih h₄]
      grind

theorem number_mem_insertEarly (a : Early α) (es : List (Early α)) (n : Nat) :
    n ∈ (insertEarly a es).map Early.number ↔ n = a.number ∨ n ∈ es.map Early.number := by
  induction es with
  | nil => simp [insertEarly]
  | cons b bs ih =>
    simp only [insertEarly]
    split_ifs with hlt heq
    · simp
    · simp [heq]
    · simp only [List.map_cons, List.mem_cons, ih]
      tauto

theorem ordered_insertEarly {a : Early α} (h : Ordered incarnation last es)
    (hlast : last < a.number) (htop : a.number < topNumber)
    (hts : a.timestamp.equals incarnation = true) : Ordered incarnation last (insertEarly a es) := by
  induction es generalizing last with
  | nil => exact ⟨hlast, htop, hts, trivial⟩
  | cons b bs ih =>
    obtain ⟨h₁, h₂, h₃, h₄⟩ := h
    simp only [insertEarly]
    split_ifs with hlt heq
    · exact ⟨hlast, htop, hts, hlt, h₂, h₃, h₄⟩
    · exact ⟨hlast, htop, hts, heq ▸ h₄⟩
    · exact ⟨h₁, h₂, h₃, ih h₄ (by omega)⟩

/-! ### The part given out -/

/-- The drain gives out `out`, a first part of what waits, and keeps the rest, which does not begin
with the next number. -/
structure GivesOut (last : Nat) (es : List (Early α)) (d : Drained α) (out : List (Early α)) :
    Prop where
  split : out ++ d.buffer = es
  released : d.released = out.map Early.item
  last_eq : d.last = lastOf last out
  settled : ∀ e ∈ d.buffer.head?, e.number ≠ d.last + 1

theorem GivesOut.nil (last : Nat) : GivesOut last [] (⟨[], last, []⟩ : Drained α) [] :=
  ⟨rfl, rfl, rfl, by simp⟩

theorem GivesOut.stop {e : Early α} (h : e.number ≠ last + 1) :
    GivesOut last (e :: es) ⟨[], last, e :: es⟩ [] :=
  ⟨rfl, rfl, rfl, by simpa using h⟩

theorem GivesOut.cons {e : Early α} {d : Drained α} (h : GivesOut e.number es d out) :
    GivesOut last (e :: es) (d.cons e.item) (e :: out) :=
  ⟨by simp [Drained.cons, h.split], by simp [Drained.cons, h.released], h.last_eq, h.settled⟩

theorem GivesOut.buffer_of_singleton {e : Early α} {d : Drained α} (h : GivesOut last [e] d out)
    (he : e.number = last + 1) : d.buffer = [] := by
  cases out with
  | nil =>
    have hbuffer : d.buffer = [e] := h.split
    have hlast : d.last = last := h.last_eq
    exact absurd (hlast ▸ he) (h.settled e (by simp [hbuffer]))
  | cons x rest =>
    have hrest : rest ++ d.buffer = [] := (List.cons.inj h.split).2
    exact (List.append_eq_nil_iff.mp hrest).2

theorem GivesOut.ordered_rest {d : Drained α} (h : GivesOut last es d out)
    (hes : Ordered incarnation last es) : Ordered incarnation (d.last + 1) d.buffer := by
  have hrest : Ordered incarnation d.last d.buffer := by
    rw [← h.split, ordered_append] at hes
    rw [h.last_eq]
    exact hes.2
  cases hb : d.buffer with
  | nil => trivial
  | cons e rest =>
    rw [hb] at hrest
    have hne : e.number ≠ d.last + 1 := h.settled e (by simp [hb])
    exact ⟨by have := hrest.1; omega, hrest.2⟩

theorem drainStrict_cons (maxPending resyncAfter : Nat) {e : Early α}
    (h : Ordered incarnation last (e :: es)) (hlast : last < topNumber) :
    drainStrict maxPending resyncAfter incarnation last (e :: es) =
      if e.number = last + 1 ∨ Policy.bound maxPending resyncAfter last < es.length + 1 then
        (drainStrict maxPending resyncAfter incarnation e.number es).cons e.item
      else ⟨[], last, e :: es⟩ := by
  obtain ⟨h₁, -, h₃, -⟩ := h
  have hfresh : ¬ (!e.timestamp.equals incarnation || decide (e.number ≤ last)) = true := by
    simp [h₃]; omega
  rw [drainStrict_eq, if_neg hfresh, successor_of_lt hlast]

theorem drainLegacy_cons (received : Nat) {e : Early α}
    (h : Ordered incarnation last (e :: es)) (hlast : last < topNumber) :
    drainLegacy received incarnation last (e :: es) =
      if e.number = last + 1 ∨ (highest e es = received ∧ es ≠ []) then
        (drainLegacy received incarnation e.number es).cons e.item
      else ⟨[], last, e :: es⟩ := by
  obtain ⟨h₁, -, h₃, -⟩ := h
  have hfresh : ¬ (!e.timestamp.equals incarnation || decide (e.number < last + 1)) = true := by
    simp [h₃]; omega
  rw [drainLegacy_eq, successor_of_lt hlast, if_neg hfresh]

theorem drainStrict_givesOut (maxPending resyncAfter : Nat) (h : Ordered incarnation last es)
    (hlast : last < topNumber) :
    ∃ out, GivesOut last es (drainStrict maxPending resyncAfter incarnation last es) out := by
  induction es generalizing last with
  | nil => exact ⟨[], .nil last⟩
  | cons e es ih =>
    rw [drainStrict_cons maxPending resyncAfter h hlast]
    split_ifs with hc
    · obtain ⟨out, hout⟩ := ih h.2.2.2 h.2.1
      exact ⟨e :: out, hout.cons⟩
    · exact ⟨[], .stop fun heq => hc (Or.inl heq)⟩

theorem drainLegacy_givesOut (received : Nat) (h : Ordered incarnation last es)
    (hlast : last < topNumber) :
    ∃ out, GivesOut last es (drainLegacy received incarnation last es) out := by
  induction es generalizing last with
  | nil => exact ⟨[], .nil last⟩
  | cons e es ih =>
    rw [drainLegacy_cons received h hlast]
    split_ifs with hc
    · obtain ⟨out, hout⟩ := ih h.2.2.2 h.2.1
      exact ⟨e :: out, hout.cons⟩
    · exact ⟨[], .stop fun heq => hc (Or.inl heq)⟩

/-! ### What is next in turn -/

/-- The first part of a list whose numbers follow `last` without a gap. -/
def inTurn (last : Nat) : List (Early α) → List (Early α)
  | [] => []
  | e :: es => if e.number = last + 1 then e :: inTurn e.number es else []

theorem inTurn_isPrefix (last : Nat) (es : List (Early α)) : inTurn last es <+: es := by
  induction es generalizing last with
  | nil => exact List.prefix_rfl
  | cons e es ih =>
    simp only [inTurn]
    split_ifs
    · exact List.prefix_cons_inj e |>.mpr (ih e.number)
    · exact List.nil_prefix

theorem inTurn_append_drop (last : Nat) (es : List (Early α)) :
    inTurn last es ++ es.drop (inTurn last es).length = es := by
  obtain ⟨rest, hrest⟩ := inTurn_isPrefix last es
  have hdrop : (inTurn last es ++ rest).drop (inTurn last es).length = rest := List.drop_left
  rw [hrest] at hdrop
  rw [hdrop, hrest]

theorem map_number_inTurn (last : Nat) (es : List (Early α)) :
    (inTurn last es).map Early.number = List.range' (last + 1) (inTurn last es).length := by
  induction es generalizing last with
  | nil => rfl
  | cons e es ih =>
    simp only [inTurn]
    split_ifs with he
    · simp only [List.map_cons, List.length_cons, List.range'_succ, ih, he]
    · rfl

theorem lastOf_inTurn (last : Nat) (es : List (Early α)) :
    lastOf last (inTurn last es) = last + (inTurn last es).length := by
  induction es generalizing last with
  | nil => rfl
  | cons e es ih =>
    simp only [inTurn]
    split_ifs with he
    · rw [lastOf_cons, ih, List.length_cons]
      omega
    · rfl

theorem not_mem_after_inTurn (h : Ordered incarnation last es) :
    last + 1 + (inTurn last es).length ∉ es.map Early.number := by
  induction es generalizing last with
  | nil => simp
  | cons e es ih =>
    obtain ⟨h₁, -, -, h₄⟩ := h
    have later : ∀ x ∈ es.map Early.number, e.number < x := by
      intro x hx
      obtain ⟨b, hb, rfl⟩ := List.mem_map.mp hx
      exact (h₄.mem hb).1
    simp only [inTurn]
    -- If the head is next, its own successor is looked for; otherwise all numbers are too high.
    split_ifs with he
    · have hrest := ih h₄
      simp only [List.length_cons, List.map_cons, List.mem_cons, not_or]
      rw [he] at hrest ⊢
      refine ⟨by omega, ?_⟩
      rwa [show last + 1 + ((inTurn (last + 1) es).length + 1) =
        last + 1 + 1 + (inTurn (last + 1) es).length by omega]
    · simp only [List.length_nil, List.map_cons, List.mem_cons, not_or]
      refine ⟨by omega, fun hx => ?_⟩
      have := later _ hx
      omega

/-- A strict drain gives out what is next in turn, and nothing else if the rest is within the bound. -/
theorem drainStrict_inTurn {maxPending resyncAfter : Nat} (h : Ordered incarnation last es)
    (hlast : last < topNumber)
    (hbound : es.length ≤ (inTurn last es).length +
      Policy.bound maxPending resyncAfter (last + (inTurn last es).length)) :
    drainStrict maxPending resyncAfter incarnation last es =
      ⟨(inTurn last es).map Early.item, last + (inTurn last es).length,
        es.drop (inTurn last es).length⟩ := by
  induction es generalizing last with
  | nil => rfl
  | cons e es ih =>
    rw [drainStrict_cons maxPending resyncAfter h hlast]
    by_cases he : e.number = last + 1
    · simp only [inTurn, if_pos he, List.length_cons] at hbound ⊢
      have hshift : e.number + (inTurn e.number es).length =
          last + ((inTurn e.number es).length + 1) := by omega
      rw [if_pos (Or.inl he), ih h.2.2.2 h.2.1 (by rw [hshift]; omega), hshift]
      rfl
    · simp only [inTurn, if_neg he, List.length_nil, List.length_cons, Nat.add_zero,
        Nat.zero_add] at hbound ⊢
      rw [if_neg (by omega)]
      rfl

end Tracking

end OrderedRelay
