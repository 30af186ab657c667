import OrderedRelay.Proofs.Text.Split
import OrderedRelay.Topic.Identity

/-!
# Which patterns a slot topic matches

The topics of a bus share the levels of its domain and part at the level after them. So a slot topic
matches slot patterns only, none of those for broadcasts, signals, heartbeats and log entries.
-/

namespace OrderedRelay

namespace Topic

/-! ### Escaped ids -/

theorem toList_escape (id : String) :
    (escape id).toList = id.toList.map fun c => if c = '/' then '|' else c :=
  Text.toList_exchange '/' '|' id

theorem slash_not_mem_escape (id : String) : '/' ∉ (escape id).toList := by
  rw [toList_escape, List.mem_map]
  rintro ⟨c, -, hc⟩
  split_ifs at hc with h
  · revert hc
    decide
  · exact h hc

theorem unescape_escape {id : String} (h : '|' ∉ id.toList) : unescape (escape id) = id := by
  have hchars : (unescape (escape id)).toList = id.toList := by
    rw [unescape, Text.toList_exchange, toList_escape, List.map_map]
    refine (List.map_congr_left fun c hc => ?_).trans (List.map_id id.toList)
    have hbar : c ≠ '|' := fun heq => h (heq ▸ hc)
    by_cases hslash : c = '/' <;> simp [hslash, hbar]
  exact String.toList_inj.mp hchars

/-- A level without a slash is the level of the id that it is read as. -/
theorem escape_unescape {level : String} (h : '/' ∉ level.toList) : escape (unescape level) = level := by
  have hchars : (escape (unescape level)).toList = level.toList := by
    rw [toList_escape, unescape, Text.toList_exchange, List.map_map]
    refine (List.map_congr_left fun c hc => ?_).trans (List.map_id level.toList)
    have hslash : c ≠ '/' := fun heq => h (heq ▸ hc)
    by_cases hbar : c = '|' <;> simp [hslash, hbar]
  exact String.toList_inj.mp hchars

theorem escape_inj {a b : String} (ha : '|' ∉ a.toList) (hb : '|' ∉ b.toList)
    (h : escape a = escape b) : a = b := by
  rw [← unescape_escape ha, ← unescape_escape hb, h]

/-! ### Levels -/

theorem levels_append (s t : String) : levels (s ++ "/" ++ t) = levels s ++ levels t :=
  Text.split_append '/' s t

theorem levels_of_not_mem {s : String} (h : '/' ∉ s.toList) : levels s = [s] :=
  Text.split_of_not_mem h

/-- Neither wildcard is a level of the domain. -/
def Plain (domain : String) : Prop := ∀ level ∈ levels domain, level ≠ anyLevel ∧ level ≠ anyRest

instance (domain : String) : Decidable (Plain domain) :=
  inferInstanceAs (Decidable (∀ level ∈ levels domain, level ≠ anyLevel ∧ level ≠ anyRest))

theorem matchLevels_append {xs : List String} (h : ∀ x ∈ xs, x ≠ anyRest) (ps ts : List String) :
    matchLevels (xs ++ ps) (xs ++ ts) = matchLevels ps ts := by
  induction xs with
  | nil => rfl
  | cons x xs ih =>
    have hx : x ≠ anyRest := h x (List.mem_cons_self ..)
    have hrest := ih fun y hy => h y (List.mem_cons_of_mem x hy)
    simp [matchLevels, hx, hrest]

theorem matchLevels_cons {p : String} (hp : p ≠ anyLevel ∧ p ≠ anyRest) (t : String)
    (ps ts : List String) : matchLevels (p :: ps) (t :: ts) = (p = t && matchLevels ps ts) := by
  simp [matchLevels, hp.1, hp.2]

end Topic

namespace Identity

open Topic

variable {i : Identity}

theorem levels_slotTopic (i : Identity) (id : String) :
    levels (i.slotTopic id) = levels i.domain ++ [slotsLevel, escape id] := by
  rw [slotTopic, levels_append, levels_append, levels_of_not_mem (slash_not_mem_escape id),
    List.append_assoc]
  rfl

theorem levels_globalSlotsTopic (i : Identity) :
    levels i.globalSlotsTopic = levels i.domain ++ [globalSlotsLevel] :=
  levels_append i.domain globalSlotsLevel

theorem levels_logTopic (i : Identity) : levels i.logTopic = levels i.domain ++ [logLevel] :=
  levels_append i.domain logLevel

theorem levels_signalTopic (i : Identity) (producer name : String) :
    levels (i.signalTopic producer name) =
      levels i.domain ++ signalsLevel :: escape producer :: levels name := by
  rw [signalTopic, levels_append, levels_append, levels_append,
    levels_of_not_mem (slash_not_mem_escape producer), List.append_assoc, List.append_assoc]
  rfl

theorem levels_heartbeatPattern (i : Identity) :
    levels i.heartbeatPattern = levels i.domain ++ [signalsLevel, anyLevel, heartbeatSignal] := by
  rw [heartbeatPattern, levels_append, levels_append, levels_append, List.append_assoc,
    List.append_assoc]
  rfl

theorem not_isMatch_slotTopic {pattern p : String} {ps : List String} (hdomain : Plain i.domain)
    (hlevels : levels pattern = levels i.domain ++ p :: ps) (hp : p ≠ anyLevel ∧ p ≠ anyRest)
    (hne : p ≠ slotsLevel) (id : String) : isMatch pattern (i.slotTopic id) = false := by
  rw [isMatch, hlevels, levels_slotTopic, matchLevels_append fun x hx => (hdomain x hx).2,
    matchLevels_cons hp]
  simp [hne]

end Identity

end OrderedRelay
