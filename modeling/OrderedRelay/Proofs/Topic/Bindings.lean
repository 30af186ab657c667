import OrderedRelay.Proofs.Text.Spelling
import OrderedRelay.Proofs.Topic.Matching
import OrderedRelay.Proofs.Topic.RoutingKeys
import OrderedRelay.Transport.Amqp

/-!
# What a binding selects

A topic exchange compares the words of a binding with those of a key: `*` stands for one word, `#` for
any number of them, and any other word for itself. Between the levels of a pattern and of a topic this
is the match of patterns, but for two kinds of levels. A level `*` of the pattern means `*` alone where
patterns are matched, and a level `#` before the last one makes a pattern that matches nothing. The
exchange takes the first for `+` and lets the second stand for any number of levels, and what it
delivers is not matched again.
-/

namespace OrderedRelay

open Topic

variable {ps ts : List String} {p t pattern topic : String}

namespace RoutingKey

/-! ### Words -/

/-- A word of a binding stands for words of a key. -/
def Stands (word : String) (part : List String) : Prop :=
  word = "#" ∨ ∃ w, part = [w] ∧ (word = "*" ∨ word = w)

/-- A topic exchange passes a message with the key on by the binding. An empty key is one empty word. -/
def Selects (binding key : String) : Prop :=
  Text.Spells Stands (Text.split '.' binding) (Text.split '.' key)

/-- A level of a pattern stands for levels of a topic once both are words. -/
def LevelStands (level : String) (part : List String) : Prop :=
  level = anyRest ∨ ∃ t, part = [t] ∧ (level = anyLevel ∨ level = "*" ∨ level = t)

theorem starred_eq_star_iff : starred p = "*" ↔ p = anyLevel ∨ p = "*" := by
  by_cases hone : p = anyLevel <;> simp [starred, hone]

theorem ofLevel_eq_hash_iff : ofLevel p = "#" ↔ p = anyRest := by
  rw [ofLevel_eq]
  show escape (starred p) = escape anyRest ↔ p = anyRest
  rw [escape_injective.eq_iff]
  by_cases hone : p = anyLevel
  · simp [starred, hone, anyRest, anyLevel]
  · simp [starred, hone]

theorem ofLevel_eq_star_iff : ofLevel p = "*" ↔ p = anyLevel ∨ p = "*" := by
  rw [ofLevel_eq]
  show escape (starred p) = escape "*" ↔ p = anyLevel ∨ p = "*"
  rw [escape_injective.eq_iff, starred_eq_star_iff]

/-- Only `+` and `*` become the same word, and as a sign that word stands for either. -/
theorem stands_or_eq_iff (p t : String) :
    (ofLevel p = "*" ∨ ofLevel p = ofLevel t) ↔ (p = anyLevel ∨ p = "*" ∨ p = t) := by
  rw [ofLevel_eq_star_iff, ofLevel_eq p, ofLevel_eq t, escape_injective.eq_iff]
  by_cases hp : p = anyLevel ∨ p = "*"
  · tauto
  · obtain ⟨hone, hstar⟩ := not_or.mp hp
    by_cases ht : t = anyLevel <;> simp [starred, hone, hstar, ht]

theorem stands_ofLevel_iff (level : String) (part : List String) :
    Stands (ofLevel level) (part.map ofLevel) ↔ LevelStands level part := by
  unfold Stands LevelStands
  rw [ofLevel_eq_hash_iff]
  refine or_congr Iff.rfl ⟨?_, ?_⟩
  · rintro ⟨w, hpart, hw⟩
    obtain ⟨t, rfl, rfl⟩ := List.map_eq_singleton_iff.mp hpart
    exact ⟨t, rfl, (stands_or_eq_iff level t).mp hw⟩
  · rintro ⟨t, rfl, ht⟩
    exact ⟨ofLevel t, rfl, (stands_or_eq_iff level t).mpr ht⟩

/-- The exchange does on words what the levels say. -/
theorem selects_ofTopic_iff (pattern topic : String) :
    Selects (ofTopic pattern) (ofTopic topic) ↔
      Text.Spells LevelStands (levels pattern) (levels topic) := by
  rw [Selects, words_ofTopic, words_ofTopic, Text.spells_map]
  exact Text.spells_congr fun level _ part => stands_ofLevel_iff level part

/-! ### Levels -/

theorem levelStands_of_ne (hp : p ≠ anyRest) (part : List String) :
    LevelStands p part ↔ ∃ t, part = [t] ∧ (p = anyLevel ∨ p = "*" ∨ p = t) := by
  simp [LevelStands, hp]

theorem spells_cons_level (hp : p ≠ anyRest) :
    Text.Spells LevelStands (p :: ps) ts ↔
      ∃ t rest, ts = t :: rest ∧ (p = anyLevel ∨ p = "*" ∨ p = t) ∧
        Text.Spells LevelStands ps rest :=
  Text.spells_cons_one (levelStands_of_ne hp)

/-- The exchange misses nothing. -/
theorem spells_of_matchLevels (h : matchLevels ps ts = true) : Text.Spells LevelStands ps ts := by
  induction ps generalizing ts with
  | nil =>
    cases ts with
    | nil => rfl
    | cons t ts => simp [matchLevels] at h
  | cons p ps ih =>
    by_cases hp : p = anyRest
    · have hlast : ps = [] := by simpa [matchLevels, hp] using h
      subst hlast
      exact ⟨ts, [], (List.append_nil ts).symm, Or.inl hp, rfl⟩
    · cases ts with
      | nil => exact absurd h (not_matchLevels_cons_nil hp ps)
      | cons t ts =>
        obtain ⟨hpt, hrest⟩ := (matchLevels_cons_cons hp ps t ts).mp h
        exact (spells_cons_level hp).mpr ⟨t, ts, rfl, hpt.imp_right Or.inr, ih hrest⟩

theorem matchLevels_of_spells (hstar : "*" ∉ ps) (hrest : anyRest ∉ ps.dropLast)
    (h : Text.Spells LevelStands ps ts) : matchLevels ps ts = true := by
  induction ps generalizing ts with
  | nil =>
    rw [Text.spells_nil.mp h]
    rfl
  | cons p ps ih =>
    obtain ⟨hp, hps⟩ := not_or.mp (mt List.mem_cons.mpr hstar)
    -- Only the last level may be `#`, for any rest; every other one stands for a level as in a match.
    by_cases hlast : ps = []
    · subst hlast
      by_cases hhash : p = anyRest
      · simp [matchLevels, hhash]
      · obtain ⟨t, rest, rfl, hpt, hnil⟩ := (spells_cons_level hhash).mp h
        refine (matchLevels_cons_cons hhash [] t rest).mpr ⟨?_, ?_⟩
        · exact hpt.imp_right fun hor => hor.resolve_left (Ne.symm hp)
        · rw [Text.spells_nil.mp hnil]
          rfl
    · rw [List.dropLast_cons_of_ne_nil hlast] at hrest
      obtain ⟨hhash, hrest⟩ := not_or.mp (mt List.mem_cons.mpr hrest)
      obtain ⟨t, rest, rfl, hpt, htail⟩ := (spells_cons_level (Ne.symm hhash)).mp h
      refine (matchLevels_cons_cons (Ne.symm hhash) ps t rest).mpr ⟨?_, ih hps hrest htail⟩
      exact hpt.imp_right fun hor => hor.resolve_left (Ne.symm hp)

/-! ### Where they part -/

/-- A level that no sign is, and that stands under every sign. -/
def filler : String := "x"

def filled (level : String) : String :=
  if level = anyLevel ∨ level = "*" ∨ level = anyRest then filler else level

theorem levelStands_filled (p : String) : LevelStands p [filled p] := by
  by_cases hhash : p = anyRest
  · exact Or.inl hhash
  · refine Or.inr ⟨filled p, rfl, ?_⟩
    by_cases hsign : p = anyLevel ∨ p = "*"
    · tauto
    · have hsame : filled p = p := by
        refine if_neg ?_
        tauto
      exact Or.inr (Or.inr hsame.symm)

theorem spells_filled (ps : List String) : Text.Spells LevelStands ps (ps.map filled) := by
  refine Text.spells_of_forall₂ (List.forall₂_map_right_iff.mpr ?_)
  exact List.forall₂_same.mpr fun p _ => levelStands_filled p

theorem star_not_mem_of_matchLevels_filled (h : matchLevels ps (ps.map filled) = true) :
    "*" ∉ ps := by
  induction ps with
  | nil => exact List.not_mem_nil
  | cons p ps ih =>
    by_cases hhash : p = anyRest
    · have hlast : ps = [] := by simpa [matchLevels, hhash] using h
      simp [hlast, hhash, anyRest]
    · obtain ⟨hpt, hrest⟩ := (matchLevels_cons_cons hhash ps (filled p) (ps.map filled)).mp h
      have hstar : "*" ≠ p := by
        rintro rfl
        exact absurd hpt (by simp [LevelMatch, filled, filler, anyLevel])
      exact not_or.mpr ⟨hstar, ih hrest⟩ ∘ List.mem_cons.mp

/-- The topic of the levels of a pattern, with a plain level in place of each sign. -/
def sampleOf (pattern : String) : String := Text.join "/" ((levels pattern).map filled)

theorem levels_sampleOf (pattern : String) :
    levels (sampleOf pattern) = (levels pattern).map filled := by
  refine Text.split_join_map fun level hlevel => ?_
  by_cases hsign : level = anyLevel ∨ level = "*" ∨ level = anyRest
  · rw [filled, if_pos hsign]
    decide
  · rw [filled, if_neg hsign]
    exact Text.not_mem_of_mem_split hlevel

theorem isPattern_sampleOf (pattern : String) : isPattern (sampleOf pattern) = false := by
  rw [isPattern_eq_false_iff, levels_sampleOf]
  intro level hlevel
  obtain ⟨original, -, rfl⟩ := List.mem_map.mp hlevel
  by_cases hsign : original = anyLevel ∨ original = "*" ∨ original = anyRest
  · rw [filled, if_pos hsign]
    decide
  · rw [filled, if_neg hsign]
    tauto

theorem selects_iff_isMatch (hstar : "*" ∉ levels pattern)
    (hrest : anyRest ∉ (levels pattern).dropLast) (topic : String) :
    Selects (ofTopic pattern) (ofTopic topic) ↔ isMatch pattern topic = true := by
  rw [selects_ofTopic_iff]
  exact ⟨matchLevels_of_spells hstar hrest, spells_of_matchLevels⟩

/-- The exchange and the match of patterns agree on all plain topics exactly for the patterns without a
level `*` and without a level `#` before the last. -/
theorem agree_iff (pattern : String) :
    (∀ topic, isPattern topic = false →
        (Selects (ofTopic pattern) (ofTopic topic) ↔ isMatch pattern topic = true)) ↔
      "*" ∉ levels pattern ∧ anyRest ∉ (levels pattern).dropLast := by
  constructor
  · intro hagree
    have hselects : Selects (ofTopic pattern) (ofTopic (sampleOf pattern)) := by
      rw [selects_ofTopic_iff, levels_sampleOf]
      exact spells_filled (levels pattern)
    have hmatch := (hagree (sampleOf pattern) (isPattern_sampleOf pattern)).mp hselects
    constructor
    · rw [isMatch, levels_sampleOf] at hmatch
      exact star_not_mem_of_matchLevels_filled hmatch
    · intro hrest
      rw [isMatch_of_rest_not_last hrest] at hmatch
      cases hmatch
  · rintro ⟨hstar, hrest⟩ topic -
    exact selects_iff_isMatch hstar hrest topic

end RoutingKey

namespace Amqp

open RoutingKey

variable {κ : Type}

/-- What comes by a binding goes to all who have it, under the topic that it was published on. -/
theorem arrive_ofTopic (c : Amqp κ) (binding : String) (h : isPattern topic = false)
    (payload : List UInt8) :
    c.arrive binding (ofTopic topic) payload =
      (c.bound binding).map fun entry => ⟨entry.2.subscriber, topic, arrival topic payload⟩ := by
  have hplain : anyLevel ∉ levels topic := fun hmem => (isPattern_eq_false_iff.mp h _ hmem).1 rfl
  rw [arrive, toTopic_ofTopic_of_not_mem hplain]

/-- On a plain topic the binding of a pattern selects as its levels stand, `*` for one level like `+` and
`#` for any number of them wherever it is; so it selects whatever the pattern matches. The two agree on
all plain topics exactly if the pattern has no level `*` and no level `#` before the last. What has been
selected reaches every live subscription by the binding, matched or not. -/
theorem binding_selects_as_levels_stand (pattern : String) (h : isPattern topic = false) :
    (Selects (ofTopic pattern) (ofTopic topic) ↔
        Text.Spells LevelStands (levels pattern) (levels topic)) ∧
      (isMatch pattern topic = true → Selects (ofTopic pattern) (ofTopic topic)) ∧
      ((∀ other, isPattern other = false →
          (Selects (ofTopic pattern) (ofTopic other) ↔ isMatch pattern other = true)) ↔
        "*" ∉ levels pattern ∧ anyRest ∉ (levels pattern).dropLast) ∧
      ∀ (c : Amqp κ) (payload : List UInt8),
        c.arrive (ofTopic pattern) (ofTopic topic) payload =
          (c.bound (ofTopic pattern)).map fun entry =>
            ⟨entry.2.subscriber, topic, arrival topic payload⟩ := by
  have hstand := selects_ofTopic_iff pattern topic
  refine ⟨hstand, fun hmatch => ?_, agree_iff pattern, fun c => c.arrive_ofTopic _ h⟩
  exact hstand.mpr (spells_of_matchLevels hmatch)

/-- A broker that grants everything. -/
def granting : Ask Unit AmqpRequest := fun b _ _ => (b, .accepted "q1")

/-- A client with one subscription that a broker has granted. -/
def sampleClient (pattern : String) : Amqp String :=
  (Amqp.subscribe granting
    { urls := ["amqp://b"], exchange := "exchange", tag := "S", session := some "amqp://b" } ()
    pattern "reader").client

theorem binding_selects_sample :
    isPattern "a/b" = false ∧ isMatch "+/#" "a/b" = true ∧
      Selects (ofTopic "+/#") (ofTopic "a/b") ∧
      ((sampleClient "+/#").arrive (ofTopic "+/#") (ofTopic "a/b") []).map Delivery.topic =
        ["a/b"] := by
  have hplain : isPattern "a/b" = false := by decide +kernel
  have hmatch : isMatch "+/#" "a/b" = true := by decide +kernel
  obtain ⟨-, hselects, -, harrive⟩ := binding_selects_as_levels_stand (κ := String) "+/#" hplain
  refine ⟨hplain, hmatch, hselects hmatch, ?_⟩
  rw [harrive]
  decide +kernel

/-- A level `*` takes what only `+` should, and a `#` in the middle of a pattern, which then matches
nothing, takes levels; the subscribers are told of both. -/
theorem binding_selects_unmatched :
    (isPattern "a/b" = false ∧ isMatch "a/*" "a/b" = false ∧
        Selects (ofTopic "a/*") (ofTopic "a/b") ∧
        ((sampleClient "a/*").arrive (ofTopic "a/*") (ofTopic "a/b") []).map Delivery.topic =
          ["a/b"]) ∧
      isPattern "a/x/b" = false ∧ isMatch "a/#/b" "a/x/b" = false ∧
        Selects (ofTopic "a/#/b") (ofTopic "a/x/b") ∧
        ((sampleClient "a/#/b").arrive (ofTopic "a/#/b") (ofTopic "a/x/b") []).map Delivery.topic =
          ["a/x/b"] := by
  have hsame : ∀ level, LevelStands level [level] := fun level => Or.inr ⟨level, rfl, by simp⟩
  have hone : LevelStands "*" ["b"] := Or.inr ⟨"b", rfl, by simp⟩
  have hany : LevelStands "#" ["x"] := Or.inl rfl
  have hstar : Text.Spells LevelStands ["a", "*"] ["a", "b"] :=
    Text.spells_of_forall₂ (.cons (hsame "a") (.cons hone .nil))
  have hrest : Text.Spells LevelStands ["a", "#", "b"] ["a", "x", "b"] :=
    Text.spells_of_forall₂ (.cons (hsame "a") (.cons hany (.cons (hsame "b") .nil)))
  refine ⟨⟨by decide +kernel, by decide +kernel, ?_, by decide +kernel⟩, by decide +kernel,
    by decide +kernel, ?_, by decide +kernel⟩
  · exact (selects_ofTopic_iff "a/*" "a/b").mpr hstar
  · exact (selects_ofTopic_iff "a/#/b" "a/x/b").mpr hrest

end Amqp

end OrderedRelay
