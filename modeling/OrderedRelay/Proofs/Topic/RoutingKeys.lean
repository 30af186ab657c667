import OrderedRelay.Proofs.Text.Split
import OrderedRelay.Topic.RoutingKey

/-!
# Routing keys back to topics

A level is written as one word without points. The word is read by two substitutions, first of the
escapes of points and then of those of percent signs. In a written word a percent sign stands only at
the front of an escape, so the first leaves the escapes of percent signs alone, and the second meets no
percent sign that was not written for one. What is lost is the difference between a level `+` and a
level `*`.
-/

namespace OrderedRelay

namespace Text

variable {w c : Char} {ws r : List Char}

theorem substituteChars_cons_of_ne (h : w ≠ c) (cs : List Char) :
    substituteChars w ws r (c :: cs) = c :: substituteChars w ws r cs := by
  rw [substituteChars, if_neg]
  simp [h]

theorem substituteChars_word (cs : List Char) :
    substituteChars w ws r (w :: (ws ++ cs)) = r ++ substituteChars w ws r cs := by
  rw [substituteChars, if_pos (by simp), List.drop_left]

end Text

namespace RoutingKey

variable {level topic other : String}

/-! ### Words -/

def escape (level : String) : String := String.ofList (level.toList.flatMap escapeChar)

/-- A level as a topic exchange sees it: the wildcard for one level is another there. -/
def starred (level : String) : String := if level = Topic.anyLevel then "*" else level

theorem ofLevel_eq (level : String) : ofLevel level = escape (starred level) := by
  by_cases hone : level = Topic.anyLevel
  · rw [ofLevel, if_pos hone, starred, if_pos hone]
    rfl
  · by_cases hrest : level = Topic.anyRest
    · subst hrest
      rfl
    · rw [ofLevel, if_neg hone, if_neg hrest, starred, if_neg hone, escape]

/-- What is left of a character once the escapes of points are undone. -/
def escapePercent (c : Char) : List Char := if c = '%' then ['%', '2', '5'] else [c]

theorem substitute_points (cs : List Char) :
    Text.substituteChars '%' ['2', 'E'] ['.'] (cs.flatMap escapeChar) = cs.flatMap escapePercent := by
  induction cs with
  | nil => simp [Text.substituteChars]
  | cons c cs ih =>
    rw [List.flatMap_cons, List.flatMap_cons]
    by_cases hpercent : c = '%'
    · -- The escape of a percent sign is passed over: its front is no escape of a point.
      subst hpercent
      have hfront : ('%' :: ['2', 'E']).isPrefixOf ('%' :: '2' :: '5' :: cs.flatMap escapeChar) =
          false := rfl
      show Text.substituteChars '%' ['2', 'E'] ['.'] ('%' :: '2' :: '5' :: cs.flatMap escapeChar) =
        '%' :: '2' :: '5' :: cs.flatMap escapePercent
      rw [Text.substituteChars, if_neg (by simp [hfront]),
        Text.substituteChars_cons_of_ne (by decide), Text.substituteChars_cons_of_ne (by decide), ih]
    · by_cases hpoint : c = '.'
      · subst hpoint
        exact (Text.substituteChars_word (cs.flatMap escapeChar)).trans (congrArg ('.' :: ·) ih)
      · have hplain : escapeChar c = [c] := by simp [escapeChar, hpercent, hpoint]
        have hplain' : escapePercent c = [c] := if_neg hpercent
        rw [hplain, hplain', List.singleton_append, List.singleton_append,
          Text.substituteChars_cons_of_ne (Ne.symm hpercent), ih]

theorem substitute_percents (cs : List Char) :
    Text.substituteChars '%' ['2', '5'] ['%'] (cs.flatMap escapePercent) = cs := by
  induction cs with
  | nil => simp [Text.substituteChars]
  | cons c cs ih =>
    rw [List.flatMap_cons]
    by_cases hpercent : c = '%'
    · subst hpercent
      exact (Text.substituteChars_word (cs.flatMap escapePercent)).trans (congrArg ('%' :: ·) ih)
    · have hplain : escapePercent c = [c] := if_neg hpercent
      rw [hplain, List.singleton_append, Text.substituteChars_cons_of_ne (Ne.symm hpercent), ih]

theorem toLevel_escape (level : String) : toLevel (escape level) = level := by
  have hpoints : Text.substitute "%2E" "." (escape level) =
      String.ofList (level.toList.flatMap escapePercent) := by
    show String.ofList (Text.substituteChars '%' ['2', 'E'] ['.'] (escape level).toList) = _
    rw [escape, String.toList_ofList, substitute_points]
  rw [toLevel, hpoints]
  show String.ofList (Text.substituteChars '%' ['2', '5'] ['%'] (String.ofList _).toList) = level
  rw [String.toList_ofList, substitute_percents, String.ofList_toList]

theorem toLevel_ofLevel (level : String) : toLevel (ofLevel level) = starred level := by
  rw [ofLevel_eq, toLevel_escape]

theorem escape_injective : Function.Injective escape := fun a b h => by
  rw [← toLevel_escape a, ← toLevel_escape b, h]

theorem point_not_mem_escape (level : String) : '.' ∉ (escape level).toList := by
  rw [escape, String.toList_ofList, List.mem_flatMap]
  rintro ⟨c, -, hc⟩
  by_cases hpercent : c = '%'
  · simp [escapeChar, hpercent] at hc
  · by_cases hpoint : c = '.'
    · simp [escapeChar, hpoint] at hc
    · simp [escapeChar, hpercent, hpoint, Ne.symm hpoint] at hc

/-! ### Keys -/

theorem words_ofTopic (topic : String) :
    Text.split '.' (ofTopic topic) = (Topic.levels topic).map ofLevel := by
  refine Text.split_join_map fun level _ => ?_
  rw [ofLevel_eq]
  exact point_not_mem_escape (starred level)

theorem toTopic_ofTopic (topic : String) :
    toTopic (ofTopic topic) = Text.join "/" ((Topic.levels topic).map starred) := by
  rw [toTopic, words_ofTopic, List.map_map]
  exact congrArg (Text.join "/") (List.map_congr_left fun level _ => toLevel_ofLevel level)

theorem toTopic_ofTopic_of_not_mem (h : Topic.anyLevel ∉ Topic.levels topic) :
    toTopic (ofTopic topic) = topic := by
  have hsame : (Topic.levels topic).map starred = Topic.levels topic := by
    refine (List.map_congr_left fun level hlevel => ?_).trans (List.map_id _)
    have hne : level ≠ Topic.anyLevel := fun heq => h (heq ▸ hlevel)
    exact if_neg hne
  rw [toTopic_ofTopic, hsame]
  exact Text.join_split '/' topic

/-- A key leads back to its topic, with `*` in place of each level `+`. So topics without such levels
are the same again and share no key, and a key has as many words as its topic has levels. -/
theorem key_leads_back (topic : String) :
    toTopic (ofTopic topic) = Text.join "/" ((Topic.levels topic).map starred) ∧
      (Topic.anyLevel ∉ Topic.levels topic → toTopic (ofTopic topic) = topic) ∧
      (∀ other, Topic.anyLevel ∉ Topic.levels topic → Topic.anyLevel ∉ Topic.levels other →
        ofTopic topic = ofTopic other → topic = other) ∧
      (Text.split '.' (ofTopic topic)).length = (Topic.levels topic).length := by
  refine ⟨toTopic_ofTopic topic, toTopic_ofTopic_of_not_mem, fun other htopic hother hkey => ?_, ?_⟩
  · rw [← toTopic_ofTopic_of_not_mem htopic, hkey, toTopic_ofTopic_of_not_mem hother]
  · rw [words_ofTopic, List.length_map]

theorem key_leads_back_sample :
    Topic.anyLevel ∉ Topic.levels "%2E./%25/*" ∧ toTopic (ofTopic "%2E./%25/*") = "%2E./%25/*" := by
  have hplain : Topic.anyLevel ∉ Topic.levels "%2E./%25/*" := by decide +kernel
  exact ⟨hplain, (key_leads_back "%2E./%25/*").2.1 hplain⟩

example : ofTopic "%2E./+/#" = "%252E%2E.*.#" ∧ toTopic "%252E%2E.*.#" = "%2E./*/#" := by
  decide +kernel

end RoutingKey

end OrderedRelay
