/-!
# Lower case

Text in lower case, for comparison with names of ASCII letters. Besides the ASCII capitals one
character has a lower case that is an ASCII letter, the KELVIN SIGN; all others are left as they are.
-/

namespace OrderedRelay.Text

/-- The lower case of a character as far as ASCII letters are concerned. -/
def lowerChar (c : Char) : Char := if c = '\u212A' then 'k' else c.toLower

def lower (s : String) : String := s.map lowerChar

theorem toList_lower (s : String) : (lower s).toList = s.toList.map lowerChar := by
  simp [lower]

end OrderedRelay.Text
