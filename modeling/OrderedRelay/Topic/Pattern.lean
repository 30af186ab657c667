import OrderedRelay.Text.Split

/-!
# Topic patterns

A topic is levels between slashes. A pattern is a topic in which a level may be a wildcard: `+` stands
for one level, and `#` as the last level for all remaining ones, none included.
-/

namespace OrderedRelay.Topic

def anyLevel : String := "+"
def anyRest : String := "#"

def levels (topic : String) : List String := Text.split '/' topic

/-- Whether the levels of a pattern match those of a topic. A `#` before the last level matches
nothing. -/
def matchLevels : List String → List String → Bool
  | [], ts => ts.isEmpty
  | p :: ps, ts =>
    if p = anyRest then ps.isEmpty
    else match ts with
      | [] => false
      | t :: rest => (p = anyLevel || p = t) && matchLevels ps rest

def isMatch (pattern topic : String) : Bool := matchLevels (levels pattern) (levels topic)

def isPattern (topic : String) : Bool :=
  (levels topic).any fun level => level = anyLevel || level = anyRest

end OrderedRelay.Topic
