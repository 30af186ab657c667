import OrderedRelay.Proofs.Text.Split
import OrderedRelay.Topic.Pattern
import Mathlib.Data.List.Forall2

/-!
# What a pattern matches

The rules for patterns are about levels: without a rest wildcard a pattern and a topic go together level
by level, and with one as the last level the others go together with the first levels of the topic. The
match that walks along both keeps these rules, whatever the levels are, empty ones and wildcards in the
topic included. A pattern without wildcards matches itself only.
-/

namespace OrderedRelay.Topic

variable {ps qs ts : List String} {pattern topic : String}

/-- A level of a pattern stands for a level of a topic. -/
def LevelMatch (p t : String) : Prop := p = anyLevel ∨ p = t

/-! ### Levels -/

theorem levels_injective : Function.Injective levels := by
  intro s t h
  rw [← Text.join_split '/' s, ← Text.join_split '/' t]
  exact congrArg (Text.join (String.singleton '/')) h

theorem matchLevels_cons_cons {p : String} (hp : p ≠ anyRest) (ps : List String) (t : String)
    (ts : List String) :
    matchLevels (p :: ps) (t :: ts) = true ↔ LevelMatch p t ∧ matchLevels ps ts = true := by
  simp [matchLevels, hp, LevelMatch]

theorem not_matchLevels_cons_nil {p : String} (hp : p ≠ anyRest) (ps : List String) :
    ¬ matchLevels (p :: ps) [] = true := by
  simp [matchLevels, hp]

/-- Without a rest wildcard the levels go together one by one, and neither side has more of them. -/
theorem matchLevels_of_not_mem (h : anyRest ∉ ps) :
    matchLevels ps ts = true ↔ List.Forall₂ LevelMatch ps ts := by
  induction ps generalizing ts with
  | nil => cases ts <;> simp [matchLevels]
  | cons p ps ih =>
    obtain ⟨hp, hps⟩ := not_or.mp (mt List.mem_cons.mpr h)
    cases ts with
    | nil => simp [not_matchLevels_cons_nil (Ne.symm hp)]
    | cons t ts => rw [matchLevels_cons_cons (Ne.symm hp), ih hps, List.forall₂_cons]

theorem exists_front_cons (p : String) (ps : List String) (t : String) (ts : List String) :
    (∃ front, front <+: t :: ts ∧ List.Forall₂ LevelMatch (p :: ps) front) ↔
      LevelMatch p t ∧ ∃ front, front <+: ts ∧ List.Forall₂ LevelMatch ps front := by
  constructor
  · rintro ⟨front, hfront, hmatch⟩
    obtain ⟨u, us, hpu, hrest, rfl⟩ := List.forall₂_cons_left_iff.mp hmatch
    obtain ⟨rfl, hus⟩ := List.cons_prefix_cons.mp hfront
    exact ⟨hpu, us, hus, hrest⟩
  · rintro ⟨hpt, front, hfront, hrest⟩
    exact ⟨t :: front, List.cons_prefix_cons.mpr ⟨rfl, hfront⟩, .cons hpt hrest⟩

/-- At the first rest wildcard all depends on whether levels of the pattern follow it. -/
theorem matchLevels_append_rest (h : anyRest ∉ qs) :
    matchLevels (qs ++ anyRest :: ps) ts = true ↔
      ps = [] ∧ ∃ front, front <+: ts ∧ List.Forall₂ LevelMatch qs front := by
  induction qs generalizing ts with
  | nil => simp [matchLevels]
  | cons q qs ih =>
    obtain ⟨hq, hqs⟩ := not_or.mp (mt List.mem_cons.mpr h)
    cases ts with
    | nil => simp [not_matchLevels_cons_nil (Ne.symm hq), List.prefix_nil]
    | cons t ts =>
      rw [List.cons_append, matchLevels_cons_cons (Ne.symm hq), ih hqs, exists_front_cons]
      tauto

/-! ### Patterns -/

theorem isPattern_eq_false_iff :
    isPattern pattern = false ↔ ∀ level ∈ levels pattern, level ≠ anyLevel ∧ level ≠ anyRest := by
  simp [isPattern]

theorem forall₂_levelMatch_iff_eq (h : ∀ level ∈ ps, level ≠ anyLevel) :
    List.Forall₂ LevelMatch ps ts ↔ ps = ts := by
  induction ps generalizing ts with
  | nil => cases ts <;> simp
  | cons p ps ih =>
    obtain ⟨hp, hps⟩ := List.forall_mem_cons.mp h
    cases ts with
    | nil => simp
    | cons t ts => simp [ih hps, LevelMatch, hp]

theorem isMatch_iff_eq (h : isPattern pattern = false) :
    isMatch pattern topic = true ↔ pattern = topic := by
  have hplain := isPattern_eq_false_iff.mp h
  have hrest : anyRest ∉ levels pattern := fun hmem => (hplain anyRest hmem).2 rfl
  rw [isMatch, matchLevels_of_not_mem hrest,
    forall₂_levelMatch_iff_eq fun level hlevel => (hplain level hlevel).1, levels_injective.eq_iff]

theorem isMatch_of_rest_not_last (h : anyRest ∈ (levels pattern).dropLast) :
    isMatch pattern topic = false := by
  -- The pattern is cut at its first rest wildcard, which is not its last level.
  obtain ⟨qs, ps, hcut, hqs⟩ := List.eq_append_cons_of_mem ((List.dropLast_sublist _).subset h)
  have hps : ps ≠ [] := by
    rintro rfl
    rw [hcut, List.dropLast_concat] at h
    exact hqs h
  rw [Bool.eq_false_iff, ne_eq, isMatch, hcut, matchLevels_append_rest hqs]
  exact fun hmatch => hps hmatch.1

/-- The rules for patterns, for all texts. Either no level of the pattern is the rest wildcard and the
levels go together one by one; or only the last one is, and those before it go together with the first
levels of the topic, possibly with all of them. A rest wildcard before the last level matches nothing,
and a text without wildcard levels matches itself only. -/
theorem isMatch_iff_rules (pattern topic : String) :
    (isMatch pattern topic = true ↔
      (anyRest ∉ levels pattern ∧ List.Forall₂ LevelMatch (levels pattern) (levels topic)) ∨
      ∃ qs, levels pattern = qs ++ [anyRest] ∧ anyRest ∉ qs ∧
        ∃ front, front <+: levels topic ∧ List.Forall₂ LevelMatch qs front) ∧
    (anyRest ∈ (levels pattern).dropLast → isMatch pattern topic = false) ∧
    (isPattern pattern = false → (isMatch pattern topic = true ↔ pattern = topic)) := by
  refine ⟨⟨fun hmatch => ?_, ?_⟩, isMatch_of_rest_not_last, isMatch_iff_eq⟩
  · by_cases hrest : anyRest ∈ levels pattern
    · obtain ⟨qs, ps, hcut, hqs⟩ := List.eq_append_cons_of_mem hrest
      rw [isMatch, hcut, matchLevels_append_rest hqs] at hmatch
      obtain ⟨rfl, hfront⟩ := hmatch
      exact Or.inr ⟨qs, hcut, hqs, hfront⟩
    · exact Or.inl ⟨hrest, (matchLevels_of_not_mem hrest).mp hmatch⟩
  · rintro (⟨hrest, hall⟩ | ⟨qs, hcut, hqs, hfront⟩)
    · exact (matchLevels_of_not_mem hrest).mpr hall
    · rw [isMatch, hcut]
      exact (matchLevels_append_rest hqs).mpr ⟨rfl, hfront⟩

example : isMatch "+/#" "" = true ∧ isMatch "a/#" "a/" = true ∧ isMatch "a/+" "a/#" = true ∧
    isMatch "a/+" "a" = false := by decide +kernel

end OrderedRelay.Topic
