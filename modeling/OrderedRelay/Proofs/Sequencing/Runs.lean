import OrderedRelay.Proofs.Sequencing.Reassembly

/-!
# Runs that leave together

What leaves in turn is a maximal run of consecutive numbers. Here this is said by the numbers alone: how
long the run is follows from the set of the numbers that wait, which copies leave from their numbers, and
what is kept is what lies past the run. An arrival releases a run if it and what waited before it are
divided in this way.
-/

namespace OrderedRelay.Tracking

variable {α : Type} {incarnation : Binary64} {last n : Nat} {es : List (Early α)} {e a : Early α}
  {t t' : Tracking α} {start : Nat} {given : List α}

/-! ### Runs of a list -/

theorem numbersOf_insertEarly (a : Early α) (es : List (Early α)) :
    numbersOf (insertEarly a es) = insert a.number (numbersOf es) := by
  ext n
  rw [mem_numbersOf, number_mem_insertEarly, Finset.mem_insert, mem_numbersOf]

theorem length_inTurn (h : Ordered incarnation last es) :
    (inTurn last es).length = consecutive (last + 1) (numbersOf es) := by
  refine (consecutive_eq (fun i hi => ?_) ?_).symm
  · have hin : last + 1 + i ∈ (inTurn last es).map Early.number := by
      rw [map_number_inTurn, List.mem_range'_1]
      omega
    exact mem_numbersOf.mpr (((inTurn_isPrefix last es).map Early.number).subset hin)
  · exact fun hmem => not_mem_after_inTurn h (mem_numbersOf.mp hmem)

/-- What does not leave in turn is what lies past the run. -/
theorem drop_inTurn (h : Ordered incarnation last es) :
    es.drop (inTurn last es).length =
      es.filter fun e => last + (inTurn last es).length < e.number := by
  have hcut := inTurn_append_drop last es
  have hnumbers := map_number_inTurn last es
  have hrest := h
  rw [← hcut, ordered_append, lastOf_inTurn] at hrest
  have hfront : (inTurn last es).filter
      (fun e => decide (last + (inTurn last es).length < e.number)) = [] := by
    rw [List.filter_eq_nil_iff]
    intro e he hlt
    have hin := List.mem_map_of_mem (f := Early.number) he
    rw [hnumbers, List.mem_range'_1] at hin
    have := of_decide_eq_true hlt
    omega
  have hback : (es.drop (inTurn last es).length).filter
      (fun e => decide (last + (inTurn last es).length < e.number)) =
        es.drop (inTurn last es).length := by
    rw [List.filter_eq_self]
    exact fun e he => decide_eq_true (hrest.2.mem he).1
  calc es.drop (inTurn last es).length
      = (inTurn last es ++ es.drop (inTurn last es).length).filter
          (fun e => decide (last + (inTurn last es).length < e.number)) := by
        rw [List.filter_append, hfront, hback, List.nil_append]
    _ = _ := by rw [hcut]

theorem inTurn_of_gap (h : Ordered incarnation (last + 1) es) : inTurn last es = [] := by
  cases es with
  | nil => rfl
  | cons e es =>
    have hgap : ¬ e.number = last + 1 := by
      have := h.1
      omega
    simp only [inTurn, if_neg hgap]

/-! ### Copies -/

theorem firstCopy_cons_self (a : Early α) (es : List (Early α)) :
    firstCopy (a :: es) a.number = some a.item := by
  simp [firstCopy]

theorem firstCopy_cons_of_ne (h : n ≠ a.number) : firstCopy (a :: es) n = firstCopy es n := by
  simp [firstCopy, Ne.symm h]

theorem firstCopy_of_ordered (h : Ordered incarnation last es) (he : e ∈ es) :
    firstCopy es e.number = some e.item := by
  induction es generalizing last with
  | nil => cases he
  | cons b bs ih =>
    obtain ⟨-, -, -, hbs⟩ := h
    rcases List.mem_cons.mp he with rfl | he
    · exact firstCopy_cons_self e bs
    · rw [firstCopy_cons_of_ne (ne_of_gt (hbs.mem he).1)]
      exact ih hbs he

theorem firstCopy_insertEarly (h : Ordered incarnation last es) (he : e ∈ insertEarly a es) :
    firstCopy (a :: es) e.number = some e.item := by
  rcases (mem_insertEarly h e).mp he with rfl | ⟨he, hne⟩
  · exact firstCopy_cons_self e es
  · rw [firstCopy_cons_of_ne hne]
    exact firstCopy_of_ordered h he

theorem map_item_eq_map_firstCopy {out : List (Early α)}
    (h : ∀ x ∈ out, firstCopy es x.number = some x.item) :
    (out.map Early.item).map some = (out.map Early.number).map (firstCopy es) := by
  rw [List.map_map, List.map_map]
  exact List.map_congr_left fun x hx => (h x hx).symm

/-- Items that are the copies of some numbers come from entries with these numbers. -/
theorem exists_of_firstCopy {ns : List Nat} (h : given.map some = ns.map (firstCopy es)) :
    ∃ out : List (Early α), given = out.map Early.item ∧ out.map Early.number = ns ∧
      ∀ x ∈ out, x ∈ es := by
  induction given generalizing ns with
  | nil =>
    have hns : ns = [] := List.map_eq_nil_iff.mp h.symm
    exact ⟨[], rfl, hns.symm, nofun⟩
  | cons item rest ih =>
    cases ns with
    | nil => cases h
    | cons n ns =>
      obtain ⟨hitem, hrest⟩ := List.cons.inj h
      obtain ⟨x, hfind, rfl⟩ := Option.map_eq_some_iff.mp hitem.symm
      obtain ⟨out, rfl, rfl, hout⟩ := ih hrest
      have hnumber : x.number = n := by simpa using List.find?_some hfind
      exact ⟨x :: out, rfl, by rw [List.map_cons, hnumber],
        List.forall_mem_cons.mpr ⟨List.mem_of_find?_eq_some hfind, hout⟩⟩

/-! ### Drains that give out a run -/

/-- The drain that gives out just what is next in turn after a number. -/
def drainTurn (last : Nat) (es : List (Early α)) : Drained α :=
  ⟨(inTurn last es).map Early.item, last + (inTurn last es).length,
    es.drop (inTurn last es).length⟩

theorem drainTurn_of_gap (h : Ordered incarnation (last + 1) es) :
    drainTurn last es = ⟨[], last, es⟩ := by
  rw [drainTurn, inTurn_of_gap h]
  rfl

theorem drainTurn_cons (h : e.number = last + 1) :
    drainTurn last (e :: es) = (drainTurn e.number es).cons e.item := by
  have hlast : last + ((inTurn e.number es).length + 1) =
      e.number + (inTurn e.number es).length := by omega
  simp only [drainTurn, inTurn, if_pos h, List.length_cons, hlast]
  rfl

theorem afterDrain_self (t : Tracking α) : t.afterDrain ⟨[], t.last, t.buffer⟩ = t := rfl

/-- The numbers that wait once an arrival has joined those of a tracking. -/
def joined (t : Tracking α) (a : Early α) : Finset Nat := insert a.number (numbersOf t.buffer)

theorem mem_joined : n ∈ t.joined a ↔ n = a.number ∨ n ∈ t.pending := by
  rw [joined, Finset.mem_insert, mem_numbersOf]
  rfl

/-- Of an arrival and what waited before it, the maximal run of consecutive numbers from `start` on is
released in ascending order, and what lies past it goes on waiting. -/
structure ReleasesRun (t : Tracking α) (a : Early α) (start : Nat) (t' : Tracking α)
    (given : List α) : Prop where
  given_eq : given.map some =
    (List.range' start (consecutive start (t.joined a))).map (firstCopy (a :: t.buffer))
  last_eq : t'.last + 1 = start + consecutive start (t.joined a)
  buffer_eq : t'.buffer = (insertEarly a t.buffer).filter fun e => t'.last < e.number
  incarnation_eq : t'.incarnation = t.incarnation

theorem releasesRun_afterDrain (hbuffer : Ordered incarnation n t.buffer)
    (hord : Ordered incarnation last (insertEarly a t.buffer)) :
    t.ReleasesRun a (last + 1) (t.afterDrain (drainTurn last (insertEarly a t.buffer)))
      (drainTurn last (insertEarly a t.buffer)).released := by
  have hlength := length_inTurn hord
  have hnumbers := map_number_inTurn last (insertEarly a t.buffer)
  rw [numbersOf_insertEarly] at hlength
  refine ⟨?_, ?_, drop_inTurn hord, rfl⟩
  · rw [joined, ← hlength, ← hnumbers]
    exact map_item_eq_map_firstCopy fun e he =>
      firstCopy_insertEarly hbuffer ((inTurn_isPrefix last _).subset he)
  · rw [joined, ← hlength]
    simp only [afterDrain, drainTurn]
    omega

theorem Sound.ordered_early {policy : Policy} {number : Nat} (hs : t.Sound policy)
    (hearly : t.last + 1 < number) (htop : number < topNumber)
    (hself : t.incarnation.equals t.incarnation = true) (item : α) :
    Ordered t.incarnation (t.last + 1) (insertEarly ⟨number, t.incarnation, item⟩ t.buffer) :=
  ordered_insertEarly hs.waiting hearly htop hself

theorem Sound.releasesRun_next {policy : Policy} (hs : t.Sound policy) (hnext : a.number = t.last + 1)
    (hord : Ordered t.incarnation t.last (a :: t.buffer)) :
    t.ReleasesRun a a.number (t.afterDrain (drainTurn t.last (a :: t.buffer)))
      (drainTurn t.last (a :: t.buffer)).released := by
  have hinsert : insertEarly a t.buffer = a :: t.buffer := insertEarly_of_lt hord.2.2.2
  rw [← hinsert] at hord ⊢
  rw [hnext]
  exact releasesRun_afterDrain hs.ordered hord

end OrderedRelay.Tracking
