/-!
# Splitting and joining text

Text divided at every occurrence of one character, the reverse of a join, and the exchange of one
character for another. All three work on the list of characters, where their laws are list laws.
-/

namespace OrderedRelay.Text

/-- The pieces of `s` between occurrences of `c`, empty ones included; never an empty list. -/
def split (c : Char) (s : String) : List String :=
  (s.toList.splitOn c).map String.ofList

def join (separator : String) (pieces : List String) : String :=
  separator.intercalate pieces

def exchange (a b : Char) (s : String) : String :=
  s.map fun c => if c = a then b else c

def after? (start s : String) : Option String :=
  if start.toList.isPrefixOf s.toList then some (String.ofList (s.toList.drop start.toList.length))
  else none

theorem split_ne_nil (c : Char) (s : String) : split c s ≠ [] := by
  simp [split, List.splitOn_ne_nil]

theorem toList_exchange (a b : Char) (s : String) :
    (exchange a b s).toList = s.toList.map fun c => if c = a then b else c := by
  simp [exchange]

end OrderedRelay.Text
