import OrderedRelay.Text.Substitute
import OrderedRelay.Topic.Pattern

/-!
# Routing keys

The form that topics and patterns take on a topic exchange: words between points, `*` for one word and
`#` for all remaining ones. Points and percent signs inside a level are written as percent escapes.
-/

namespace OrderedRelay.RoutingKey

def escapeChar (c : Char) : List Char :=
  if c = '%' then ['%', '2', '5']
  else if c = '.' then ['%', '2', 'E']
  else [c]

def ofLevel (level : String) : String :=
  if level = Topic.anyLevel then "*"
  else if level = Topic.anyRest then "#"
  else String.ofList (level.toList.flatMap escapeChar)

def ofTopic (topic : String) : String := Text.join "." ((Topic.levels topic).map ofLevel)

/-- The level of a word: the escapes of points go first, then those of percent signs. -/
def toLevel (word : String) : String :=
  Text.substitute "%25" "%" (Text.substitute "%2E" "." word)

def toTopic (key : String) : String := Text.join "/" ((Text.split '.' key).map toLevel)

end OrderedRelay.RoutingKey
