import OrderedRelay.Topic.Pattern

/-!
# Globs

The form that patterns take where a subscription is by glob: each wildcard level becomes `*`, which
there spans any characters, slashes included, so a glob may match more than its pattern.
-/

namespace OrderedRelay.Glob

def ofPattern (pattern : String) : String :=
  Text.join "/" <| (Topic.levels pattern).map fun level =>
    if level = Topic.anyLevel ∨ level = Topic.anyRest then "*" else level

end OrderedRelay.Glob
