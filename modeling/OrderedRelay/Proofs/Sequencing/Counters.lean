import OrderedRelay.Message.OrderNumbers
import OrderedRelay.Proofs.Sequencing.Arrivals

/-!
# Numbers given one after another

Stamping a list gives numbers place by place, and each place of a consumer takes that consumer's next
number. So what a consumer finds at its places, over any lists stamped one after another, counts on
from the last number it was given; only the 64 bits of a number bring it back to 0.
-/

namespace OrderedRelay

namespace Counters

variable {c : Counters} {x y : String} {n : Nat} {cs ds : List String}

/-- The last number given to a consumer, 0 if there is none. -/
def given (c : Counters) (consumer : String) : Nat := (c.last? consumer).getD 0

theorem given_next (c : Counters) (x y : String) :
    (c.next x).1.given y = if y = x then c.upcoming x else c.given y := by
  simp only [given, last?, next, Table.get?_insert]
  split_ifs <;> rfl

theorem upcoming_lt (c : Counters) (x : String) : c.upcoming x < Decimal.bound64 :=
  Nat.mod_lt _ (by decide)

theorem upcoming_of_lt {c : Counters} {x : String} (h : c.given x < topNumber) :
    c.upcoming x = c.given x + 1 := successor_of_lt h

theorem upcoming_eq (c : Counters) (x : String) :
    c.upcoming x = (c.given x + 1) % Decimal.bound64 := rfl

/-! ### Lists -/

@[simp] theorem nextAll_nil (c : Counters) : c.nextAll [] = (c, []) := rfl

theorem nextAll_cons (c : Counters) (x : String) (cs : List String) :
    c.nextAll (x :: cs) =
      (((c.next x).1.nextAll cs).1, c.upcoming x :: ((c.next x).1.nextAll cs).2) := rfl

theorem nextAll_append (c : Counters) (cs ds : List String) :
    c.nextAll (cs ++ ds) =
      (((c.nextAll cs).1.nextAll ds).1, (c.nextAll cs).2 ++ ((c.nextAll cs).1.nextAll ds).2) := by
  induction cs generalizing c with
  | nil => rfl
  | cons x cs ih => simp [nextAll_cons, ih]

@[simp] theorem length_nextAll (c : Counters) (cs : List String) :
    (c.nextAll cs).2.length = cs.length := by
  induction cs generalizing c with
  | nil => rfl
  | cons x cs ih => simp [nextAll_cons, ih]

theorem lt_of_mem_nextAll (h : n ∈ (c.nextAll cs).2) : n < Decimal.bound64 := by
  induction cs generalizing c with
  | nil => cases h
  | cons x cs ih =>
    rw [nextAll_cons] at h
    rcases List.mem_cons.mp h with rfl | hrest
    · exact c.upcoming_lt x
    · exact ih hrest

theorem given_nextAll_mod (c : Counters) (x : String) (cs : List String) :
    (c.nextAll cs).1.given x % Decimal.bound64 = (c.given x + cs.count x) % Decimal.bound64 := by
  induction cs generalizing c with
  | nil => rfl
  | cons y cs ih =>
    rw [nextAll_cons, ih, c.given_next y x]
    by_cases hxy : x = y
    · subst hxy
      rw [if_pos rfl, upcoming_eq, Nat.mod_add_mod, List.count_cons_self, Nat.add_assoc,
        Nat.add_comm 1]
    · rw [if_neg hxy, List.count_cons_of_ne (Ne.symm hxy)]

theorem given_nextAll_lt (cs : List String) (h : c.given x < Decimal.bound64) :
    (c.nextAll cs).1.given x < Decimal.bound64 := by
  induction cs generalizing c with
  | nil => exact h
  | cons y cs ih =>
    have hnext : (c.next y).1.given x < Decimal.bound64 := by
      rw [c.given_next y x]
      split_ifs
      · exact c.upcoming_lt y
      · exact h
    exact ih hnext

theorem given_nextAll (cs : List String) (h : c.given x < Decimal.bound64) :
    (c.nextAll cs).1.given x = (c.given x + cs.count x) % Decimal.bound64 := by
  rw [← given_nextAll_mod, Nat.mod_eq_of_lt (given_nextAll_lt cs h)]

end Counters

/-! ### The places of a consumer -/

/-- The numbers at the places of a consumer in a list. -/
def numbersAt (consumer : String) : List String → List Nat → List Nat
  | c :: cs, n :: ns =>
    if c = consumer then n :: numbersAt consumer cs ns else numbersAt consumer cs ns
  | _, _ => []

namespace Counters

variable {c : Counters} {x : String}

theorem map_mod_range' {a b : Nat} (bound k : Nat) (h : a % bound = b % bound) :
    (List.range' a k).map (· % bound) = (List.range' b k).map (· % bound) := by
  rw [List.range'_eq_map_range, List.range'_eq_map_range, List.map_map, List.map_map]
  refine List.map_congr_left fun i _ => ?_
  show (a + i) % bound = (b + i) % bound
  rw [Nat.add_mod, h, ← Nat.add_mod]

/-- The numbers at a consumer's places follow the last one it was given. -/
theorem numbersAt_nextAll (c : Counters) (x : String) (cs : List String) :
    numbersAt x cs (c.nextAll cs).2 =
      (List.range' (c.given x + 1) (cs.count x)).map (· % Decimal.bound64) := by
  induction cs generalizing c with
  | nil => rfl
  | cons y cs ih =>
    have hrest := ih (c.next y).1
    rw [c.given_next y x] at hrest
    rw [nextAll_cons, numbersAt, hrest]
    by_cases hxy : y = x
    · subst hxy
      have hmod : (c.upcoming y + 1) % Decimal.bound64 = (c.given y + 1 + 1) % Decimal.bound64 := by
        rw [upcoming_eq, Nat.mod_add_mod]
      rw [if_pos rfl, if_pos rfl, List.count_cons_self, List.range'_succ, List.map_cons,
        map_mod_range' _ _ hmod, upcoming_eq]
    · rw [if_neg hxy, if_neg (Ne.symm hxy), List.count_cons_of_ne hxy]

end Counters

/-- The number that a consumer goes by is the one at its first place. -/
theorem numberFor_eq_headD (x : String) (cs : List String) (ns : List Nat) :
    Engine.numberFor x cs ns = (numbersAt x cs ns).headD 0 := by
  induction cs generalizing ns with
  | nil => cases ns <;> rfl
  | cons c cs ih =>
    cases ns with
    | nil => rfl
    | cons n ns =>
      rw [Engine.numberFor, numbersAt, ih]
      split_ifs <;> rfl

end OrderedRelay
