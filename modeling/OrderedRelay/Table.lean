/-!
# Tables keyed by text

A table is an association list in ascending order of its keys, each key once. Inserting a key that is
present replaces its value. `get?` is the view through which the operations are stated.
-/

namespace OrderedRelay

/-- Keys with their values, in ascending order of the keys. -/
abbrev Table (α : Type) := List (String × α)

namespace Table

variable {α β : Type}

def get? (key : String) : Table α → Option α
  | [] => none
  | (k, v) :: rest => if k = key then some v else get? key rest

def has (key : String) (t : Table α) : Bool := (get? key t).isSome

def insert (key : String) (value : α) : Table α → Table α
  | [] => [(key, value)]
  | (k, v) :: rest =>
    if key < k then (key, value) :: (k, v) :: rest
    else if k = key then (key, value) :: rest
    else (k, v) :: insert key value rest

def erase (key : String) (t : Table α) : Table α :=
  t.filter fun entry => entry.1 ≠ key

def keys (t : Table α) : List String := t.map Prod.fst

def values (t : Table α) : List α := t.map Prod.snd

/-- Inserts the pairs from left to right, so the last value of a key stays. -/
def ofList (pairs : List (String × α)) : Table α :=
  pairs.foldl (fun t entry => insert entry.1 entry.2 t) []

def mapValues (f : α → β) (t : Table α) : Table β := t.map fun entry => (entry.1, f entry.2)

def Sorted (t : Table α) : Prop := t.Pairwise fun a b => a.1 < b.1

theorem get?_insert (key k : String) (value : α) (t : Table α) :
    get? k (insert key value t) = if k = key then some value else get? k t := by
  induction t with
  | nil => grind [insert, get?]
  | cons entry rest ih => grind [insert, get?]

theorem get?_erase (key k : String) (t : Table α) :
    get? k (erase key t) = if k = key then none else get? k t := by
  induction t with
  | nil => simp [erase, get?]
  | cons entry rest ih =>
    have h : erase key (entry :: rest) =
        if entry.1 = key then erase key rest else entry :: erase key rest := by
      by_cases h₀ : entry.1 = key <;> simp [erase, h₀]
    grind [get?]

end Table

end OrderedRelay
