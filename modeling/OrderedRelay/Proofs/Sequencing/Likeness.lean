import OrderedRelay.Proofs.Binary64.Equality
import OrderedRelay.Proofs.Sequencing.Accept
import Mathlib.Data.List.Forall2

/-!
# Trackings that are alike

Two values of a timestamp may be equal and yet differ, as the two zeros do. Trackings that differ in no
more than that accept an arrival alike: they release the same items and stay alike.
-/

namespace OrderedRelay

variable {α : Type}

structure Early.Like (x y : Early α) : Prop where
  number_eq : x.number = y.number
  item_eq : x.item = y.item
  timestamp : x.timestamp.equals y.timestamp = true

structure Drained.Like (d d' : Drained α) : Prop where
  released_eq : d.released = d'.released
  last_eq : d.last = d'.last
  buffer : List.Forall₂ Early.Like d.buffer d'.buffer

/-- The same but for the way that equal timestamps are written. -/
structure Tracking.Like (t u : Tracking α) : Prop where
  last_eq : t.last = u.last
  incarnation : t.incarnation.equals u.incarnation = true
  buffer : List.Forall₂ Early.Like t.buffer u.buffer

theorem Drained.Like.cons {d d' : Drained α} {x y : Early α} (h : d.Like d') (hxy : x.Like y) :
    (d.cons x.item).Like (d'.cons y.item) := by
  refine ⟨?_, h.last_eq, h.buffer⟩
  simp only [Drained.cons]
  rw [hxy.item_eq, h.released_eq]

namespace Tracking

variable {t u : Tracking α} {x y : Early α} {es fs : List (Early α)} {i j timestamp : Binary64}

/-! ### Lists of waiting messages -/

theorem map_number_like (h : List.Forall₂ Early.Like es fs) :
    es.map Early.number = fs.map Early.number := by
  induction h with
  | nil => rfl
  | cons hxy _ ih => rw [List.map_cons, List.map_cons, hxy.number_eq, ih]

theorem highest_like (hxy : x.Like y) (h : List.Forall₂ Early.Like es fs) :
    highest x es = highest y fs := by
  induction h generalizing x y with
  | nil => exact hxy.number_eq
  | cons hab _ ih => simpa only [highest, List.getLastD_cons] using ih hab

theorem insertEarly_like (hxy : x.Like y) (h : List.Forall₂ Early.Like es fs) :
    List.Forall₂ Early.Like (insertEarly x es) (insertEarly y fs) := by
  induction h with
  | nil => exact .cons hxy .nil
  | cons hab hrest ih =>
    simp only [insertEarly, hxy.number_eq, hab.number_eq]
    split_ifs
    · exact .cons hxy (.cons hab hrest)
    · exact .cons hxy hrest
    · exact .cons hab ih

theorem drainStrict_like (maxPending resyncAfter : Nat) (hij : i.equals j = true)
    (h : List.Forall₂ Early.Like es fs) (last : Nat) :
    (drainStrict maxPending resyncAfter i last es).Like
      (drainStrict maxPending resyncAfter j last fs) := by
  induction h generalizing last with
  | nil => exact ⟨rfl, rfl, .nil⟩
  | cons hab hrest ih =>
    simp only [drainStrict_eq, hab.number_eq, Binary64.equals_congr hab.timestamp hij,
      hrest.length_eq]
    split_ifs
    · exact ih last
    · exact (ih _).cons hab
    · exact ⟨rfl, rfl, .cons hab hrest⟩

theorem drainLegacy_like (received : Nat) (hij : i.equals j = true)
    (h : List.Forall₂ Early.Like es fs) (last : Nat) :
    (drainLegacy received i last es).Like (drainLegacy received j last fs) := by
  induction h generalizing last with
  | nil => exact ⟨rfl, rfl, .nil⟩
  | @cons a b as bs hab hrest ih =>
    have hnil : as = [] ↔ bs = [] := by
      rw [← List.length_eq_zero_iff, ← List.length_eq_zero_iff, hrest.length_eq]
    simp only [drainLegacy_eq, hab.number_eq, Binary64.equals_congr hab.timestamp hij,
      highest_like hab hrest, ne_eq, hnil]
    split_ifs
    · exact ih last
    · exact (ih _).cons hab
    · exact ⟨rfl, rfl, .cons hab hrest⟩

/-! ### Accepting an arrival -/

theorem like_fresh : ({} : Tracking α).Like {} := ⟨rfl, Binary64.equals_zero, .nil⟩

theorem Like.nextExpected_eq (h : t.Like u) : t.nextExpected = u.nextExpected := by
  rw [nextExpected, nextExpected, h.last_eq]

theorem Like.pending_eq (h : t.Like u) : t.pending = u.pending := map_number_like h.buffer

theorem Like.afterDrain {d d' : Drained α} (h : t.Like u) (hd : d.Like d') :
    (t.afterDrain d).Like (u.afterDrain d') :=
  ⟨hd.last_eq, h.incarnation, hd.buffer⟩

theorem Like.enter (h : t.Like u) (hself : timestamp.equals timestamp = true) :
    (t.enter timestamp).Like (u.enter timestamp) := by
  simp only [Tracking.enter, Binary64.equals_congr h.incarnation hself]
  split_ifs
  · exact h
  · refine ⟨rfl, hself, List.rel_filter (fun a b hab => ?_) h.buffer⟩
    show a.timestamp.equals timestamp = true ↔ b.timestamp.equals timestamp = true
    rw [Binary64.equals_congr hab.timestamp hself]

theorem Like.acceptStrict (h : t.Like u) (maxPending resyncAfter number : Nat) (item : α) :
    (acceptStrict maxPending resyncAfter t number item).1.Like
        (acceptStrict maxPending resyncAfter u number item).1 ∧
      (acceptStrict maxPending resyncAfter t number item).2 =
        (acceptStrict maxPending resyncAfter u number item).2 := by
  have hdrain := fun last {es fs : List (Early α)} (hes : List.Forall₂ Early.Like es fs) =>
    drainStrict_like maxPending resyncAfter h.incarnation hes last
  rw [acceptStrict_def, acceptStrict_def]
  dsimp only
  rw [h.nextExpected_eq, h.pending_eq, h.last_eq]
  split_ifs
  · have hd := hdrain u.last h.buffer
    exact ⟨h.afterDrain hd, hd.released_eq⟩
  · have hd := hdrain number h.buffer
    exact ⟨h.afterDrain hd, congrArg (item :: ·) hd.released_eq⟩
  · have hd := hdrain u.last (insertEarly_like (x := ⟨number, t.incarnation, item⟩)
      (y := ⟨number, u.incarnation, item⟩) ⟨rfl, rfl, h.incarnation⟩ h.buffer)
    exact ⟨h.afterDrain hd, hd.released_eq⟩

theorem Like.acceptLegacy (h : t.Like u) (number : Nat) (item : α) :
    (acceptLegacy t number item).1.Like (acceptLegacy u number item).1 ∧
      (acceptLegacy t number item).2 = (acceptLegacy u number item).2 := by
  have hdrain := fun last {es fs : List (Early α)} (hes : List.Forall₂ Early.Like es fs) =>
    drainLegacy_like number h.incarnation hes last
  rw [acceptLegacy_def, acceptLegacy_def]
  dsimp only
  rw [h.nextExpected_eq, h.last_eq]
  split_ifs
  · have hd := hdrain u.last h.buffer
    exact ⟨h.afterDrain hd, hd.released_eq⟩
  · have hd := hdrain number h.buffer
    exact ⟨h.afterDrain hd, congrArg (item :: ·) hd.released_eq⟩
  · exact ⟨⟨rfl, h.incarnation, h.buffer⟩, rfl⟩
  · have hd := hdrain u.last (insertEarly_like (x := ⟨number, t.incarnation, item⟩)
      (y := ⟨number, u.incarnation, item⟩) ⟨rfl, rfl, h.incarnation⟩ h.buffer)
    exact ⟨h.afterDrain hd, hd.released_eq⟩

/-- Trackings that are alike once a timestamp is entered accept an arrival that bears it alike. -/
theorem Like.accept {policy : Policy} {number : Nat} (h : (t.enter timestamp).Like (u.enter timestamp))
    (ht : t.Sound policy) (hu : u.Sound policy) (htop : number < topNumber) (item : α) :
    (accept policy t timestamp number item).1.Like (accept policy u timestamp number item).1 ∧
      (accept policy t timestamp number item).2 = (accept policy u timestamp number item).2 := by
  rw [ht.accept_eq htop, hu.accept_eq htop]
  cases policy with
  | strict maxPending resyncAfter => exact h.acceptStrict maxPending resyncAfter number item
  | legacy => exact h.acceptLegacy number item

end Tracking

end OrderedRelay
