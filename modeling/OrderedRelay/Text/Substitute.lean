/-!
# Substitution of a word

Every occurrence of a word, found from left to right and never overlapping, gives way to another.
-/

namespace OrderedRelay.Text

def substituteChars (w : Char) (ws r : List Char) : List Char → List Char
  | [] => []
  | c :: cs =>
    if (w :: ws).isPrefixOf (c :: cs) then
      r ++ substituteChars w ws r (cs.drop ws.length)
    else c :: substituteChars w ws r cs
termination_by cs => cs.length
decreasing_by
  all_goals simp only [List.length_drop, List.length_cons]
  all_goals omega

/-- Text with every occurrence of `word` replaced; an empty word occurs nowhere. -/
def substitute (word replacement s : String) : String :=
  match word.toList with
  | [] => s
  | w :: ws => String.ofList (substituteChars w ws replacement.toList s.toList)

end OrderedRelay.Text
