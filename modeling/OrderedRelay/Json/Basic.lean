import OrderedRelay.Binary64.Basic
import OrderedRelay.Table

/-!
# JSON values

A value keeps integers and floating-point numbers apart, and an object is a table: its fields are in
ascending order of their keys and each key occurs once. `WellFormed` says so at every level, and that
integers fit 64 bits and floating-point numbers are finite.
-/

namespace OrderedRelay

inductive Json where
  | null
  | bool (b : Bool)
  | integer (i : Int)
  | real (x : Binary64)
  | text (s : String)
  | array (items : List Json)
  | object (fields : List (String × Json))
deriving Inhabited

namespace Json

def text? : Json → Option String
  | .text s => some s
  | _ => none

def binary64? : Json → Option Binary64
  | .integer i => some (.ofInt i)
  | .real x => some x
  | _ => none

/-- The value that stands for a floating-point number: there is none for infinities. -/
def ofBinary64 (x : Binary64) : Json := if x.isFinite then .real x else .null

mutual

def depth : Json → Nat
  | .array items => depthItems items + 1
  | .object fields => depthFields fields + 1
  | _ => 0

def depthItems : List Json → Nat
  | [] => 0
  | j :: js => max (depth j) (depthItems js)

def depthFields : List (String × Json) → Nat
  | [] => 0
  | (_, j) :: rest => max (depth j) (depthFields rest)

end

mutual

/-- Integers fit 64 bits, other numbers are finite and every object is a table. -/
def WellFormed : Json → Prop
  | .integer i => -0x8000000000000000 ≤ i ∧ i < 0x10000000000000000
  | .real x => x.isFinite = true
  | .array items => WellFormedItems items
  | .object fields => Table.Sorted fields ∧ WellFormedFields fields
  | _ => True

def WellFormedItems : List Json → Prop
  | [] => True
  | j :: js => WellFormed j ∧ WellFormedItems js

def WellFormedFields : List (String × Json) → Prop
  | [] => True
  | (_, j) :: rest => WellFormed j ∧ WellFormedFields rest

end

mutual

def same : Json → Json → Bool
  | .null, .null => true
  | .bool a, .bool b => a == b
  | .integer a, .integer b => a == b
  | .real a, .real b => a == b
  | .text a, .text b => a == b
  | .array as, .array bs => sameItems as bs
  | .object as, .object bs => sameFields as bs
  | _, _ => false

def sameItems : List Json → List Json → Bool
  | [], [] => true
  | a :: as, b :: bs => same a b && sameItems as bs
  | _, _ => false

def sameFields : List (String × Json) → List (String × Json) → Bool
  | [], [] => true
  | (k, a) :: as, (l, b) :: bs => k == l && same a b && sameFields as bs
  | _, _ => false

end

mutual

theorem same_iff : (a b : Json) → (same a b = true ↔ a = b)
  | .array as, .array bs => by simp [same, sameItems_iff as bs]
  | .object as, .object bs => by simp [same, sameFields_iff as bs]
  | .null, b => by cases b <;> simp [same]
  | .bool _, b => by cases b <;> simp [same]
  | .integer _, b => by cases b <;> simp [same]
  | .real _, b => by cases b <;> simp [same]
  | .text _, b => by cases b <;> simp [same]
  | .array _, .null | .array _, .bool _ | .array _, .integer _ | .array _, .real _
  | .array _, .text _ | .array _, .object _ => by simp [same]
  | .object _, .null | .object _, .bool _ | .object _, .integer _ | .object _, .real _
  | .object _, .text _ | .object _, .array _ => by simp [same]

theorem sameItems_iff : (as bs : List Json) → (sameItems as bs = true ↔ as = bs)
  | [], [] => by simp [sameItems]
  | [], _ :: _ => by simp [sameItems]
  | _ :: _, [] => by simp [sameItems]
  | a :: as, b :: bs => by simp [sameItems, same_iff a b, sameItems_iff as bs]

theorem sameFields_iff :
    (as bs : List (String × Json)) → (sameFields as bs = true ↔ as = bs)
  | [], [] => by simp [sameFields]
  | [], _ :: _ => by simp [sameFields]
  | _ :: _, [] => by simp [sameFields]
  | (k, a) :: as, (l, b) :: bs => by
    simp [sameFields, same_iff a b, sameFields_iff as bs]

end

instance : DecidableEq Json := fun a b => decidable_of_iff _ (same_iff a b)

end Json

end OrderedRelay
