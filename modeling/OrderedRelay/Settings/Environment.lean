import OrderedRelay.Settings.Value
import OrderedRelay.Text.Split
import OrderedRelay.Text.Substitute

/-!
# Settings from the environment

A variable whose name starts with the program's word, in either case, is a setting. Two underscores in
the rest of the name stand for the point of a path. The kind of its value is guessed from its text.
-/

namespace OrderedRelay.Environment

def namespaceWord : String := "brokerlink_"

def listKey : String := "transport.urls"

def key? (name : String) : Option String :=
  (Text.after? namespaceWord (Text.lower name)).map (Text.substitute "__" ".")

/-- The value of a variable: a truth value, an integer, a floating-point number, or else text. -/
def value (key s : String) : SettingValue :=
  let word := Text.lower s
  if word = "true" then .bool true
  else if word = "false" then .bool false
  else match Signed.parse? s, Binary64.parse? s with
    | some i, _ => .integer i
    | none, some x => .real x
    | none, none =>
      if key = listKey then .list ((Text.split ',' s).map .text) else .text s

def settings (environment : Table String) : Table SettingValue :=
  Table.ofList (environment.filterMap fun (name, s) => (key? name).map fun key => (key, value key s))

end OrderedRelay.Environment
