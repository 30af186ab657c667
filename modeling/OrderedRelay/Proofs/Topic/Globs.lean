import OrderedRelay.Proofs.Text.Spelling
import OrderedRelay.Proofs.Topic.Matching
import OrderedRelay.Transport.Redis

/-!
# What a glob accepts

In a glob `*` stands for any characters, `?` for one, brackets for one of a class, and a character after
a backslash for itself, as do all others. A subscription by a pattern asks for the glob of its levels and
matches again what it is sent. As long as no level has a bracket or a backslash, the glob accepts what
the pattern matches, except where a rest wildcard stands for no level at all: the slash before it is
asked for then as well. In a class brackets and backslashes no longer stand for themselves, so a pattern
with these can miss more.
-/

namespace OrderedRelay

namespace Glob

/-! ### Globs -/

/-- What a glob is made of. A class is a list of ranges, taken in or left out. -/
inductive Item where
  | run
  | one
  | among (leftOut : Bool) (ranges : List (Char × Char))
  | char (c : Char)
deriving DecidableEq

/-- Reads a glob; within brackets, with the class as far as it has been read. A class without its closing
bracket ends with the glob. -/
def items : Option (Bool × List (Char × Char)) → List Char → List Item
  | none, [] => []
  | none, '*' :: cs => .run :: items none cs
  | none, '?' :: cs => .one :: items none cs
  | none, '[' :: '^' :: cs => items (some (true, [])) cs
  | none, '[' :: cs => items (some (false, [])) cs
  | none, '\\' :: c :: cs => .char c :: items none cs
  | none, c :: cs => .char c :: items none cs
  | some (leftOut, ranges), [] => [.among leftOut ranges]
  | some (leftOut, ranges), '\\' :: c :: cs => items (some (leftOut, (c, c) :: ranges)) cs
  | some (leftOut, ranges), ']' :: cs => .among leftOut ranges :: items none cs
  | some (leftOut, ranges), a :: '-' :: b :: cs =>
    items (some (leftOut, (if a ≤ b then (a, b) else (b, a)) :: ranges)) cs
  | some (leftOut, ranges), c :: cs => items (some (leftOut, (c, c) :: ranges)) cs

def Item.Stands : Item → List Char → Prop
  | run, _ => True
  | one, part => ∃ c, part = [c]
  | among leftOut ranges, part =>
    ∃ c, part = [c] ∧ (ranges.any fun range => decide (range.1 ≤ c ∧ c ≤ range.2)) = !leftOut
  | char c, part => part = [c]

/-- A server passes a message on a topic on by the glob. -/
def Accepts (glob topic : String) : Prop :=
  Text.Spells Item.Stands (items none glob.toList) topic.toList

/-! ### Globs without brackets and backslashes -/

def Item.ofChar (c : Char) : Item := if c = '*' then run else if c = '?' then one else char c

theorem items_of_plain {cs : List Char} (h : '[' ∉ cs ∧ '\\' ∉ cs) :
    items none cs = cs.map Item.ofChar := by
  induction cs with
  | nil => rfl
  | cons c cs ih =>
    obtain ⟨hbracket, hrest⟩ := not_or.mp (mt List.mem_cons.mpr h.1)
    obtain ⟨hquote, hrest'⟩ := not_or.mp (mt List.mem_cons.mpr h.2)
    have htail := ih ⟨hrest, hrest'⟩
    rw [List.map_cons, ← htail]
    by_cases hrun : c = '*'
    · simp [hrun, items, Item.ofChar]
    · by_cases hone : c = '?'
      · simp [hone, items, Item.ofChar]
      · simp [items, Item.ofChar, hrun, hone, Ne.symm hbracket, Ne.symm hquote]

theorem stands_ofChar_self (c : Char) : (Item.ofChar c).Stands [c] := by
  by_cases hrun : c = '*'
  · simp [Item.ofChar, hrun, Item.Stands]
  · by_cases hone : c = '?' <;> simp [Item.ofChar, hrun, hone, Item.Stands]

/-- Such a text, as a glob, accepts itself. -/
theorem spells_self (cs : List Char) : Text.Spells Item.Stands (cs.map Item.ofChar) cs := by
  refine Text.spells_of_forall₂ (List.forall₂_map_left_iff.mpr ?_)
  exact List.forall₂_same.mpr fun c _ => stands_ofChar_self c

theorem count_le_of_spells {c : Char} {is : List Item} {cs : List Char}
    (h : Text.Spells Item.Stands is cs) : is.count (.char c) ≤ cs.count c := by
  induction is generalizing cs with
  | nil => simp
  | cons i is ih =>
    obtain ⟨part, rest, rfl, hi, hrest⟩ := h
    have hone : [i].count (.char c) ≤ part.count c := by
      by_cases heq : i = .char c
      · subst heq
        have hpart : part = [c] := hi
        simp [hpart]
      · simp [heq]
    have hmore := ih hrest
    rw [List.count_append, ← List.singleton_append, List.count_append]
    omega

theorem count_map_ofChar {c : Char} (hrun : c ≠ '*') (hone : c ≠ '?') (cs : List Char) :
    (cs.map Item.ofChar).count (.char c) = cs.count c := by
  rw [List.count, List.countP_map, List.count]
  refine List.countP_congr fun x _ => ?_
  by_cases hx : x = '*'
  · simp [Item.ofChar, hx, Ne.symm hrun]
  · by_cases hx' : x = '?' <;> simp [Item.ofChar, hx, hx', Ne.symm hone]

/-! ### Globs of patterns -/

variable {ps ts : List String} {pattern topic : String}

/-- The piece of a glob for a level. -/
def ofLevel (level : String) : String :=
  if level = Topic.anyLevel ∨ level = Topic.anyRest then "*" else level

theorem ofPattern_eq (pattern : String) :
    ofPattern pattern = Text.join (String.singleton '/') ((Topic.levels pattern).map ofLevel) := rfl

/-- No level has a bracket or a backslash, which globs do not take as they are. -/
def Plain (pattern : String) : Prop := '[' ∉ pattern.toList ∧ '\\' ∉ pattern.toList

instance (pattern : String) : Decidable (Plain pattern) :=
  inferInstanceAs (Decidable ('[' ∉ pattern.toList ∧ '\\' ∉ pattern.toList))

theorem mem_ofLevel {level : String} {x : Char} (h : x ∈ (ofLevel level).toList) :
    x = '*' ∨ x ∈ level.toList := by
  by_cases hsign : level = Topic.anyLevel ∨ level = Topic.anyRest
  · rw [ofLevel, if_pos hsign] at h
    exact Or.inl (by simpa using h)
  · rw [ofLevel, if_neg hsign] at h
    exact Or.inr h

theorem plain_ofPattern (h : Plain pattern) : Plain (ofPattern pattern) := by
  have hsub : ∀ x ∈ (ofPattern pattern).toList, x = '/' ∨ x = '*' ∨ x ∈ pattern.toList := by
    intro x hx
    rw [ofPattern_eq] at hx
    rcases Text.mem_join hx with hslash | ⟨piece, hpiece, hxp⟩
    · exact Or.inl hslash
    · obtain ⟨level, hlevel, rfl⟩ := List.mem_map.mp hpiece
      exact Or.inr ((mem_ofLevel hxp).imp_right (Text.mem_of_mem_split hlevel))
  constructor
  · intro hx
    exact h.1 (by simpa using hsub '[' hx)
  · intro hx
    exact h.2 (by simpa using hsub '\\' hx)

theorem slash_not_mem_ofLevel {level : String} (h : level ∈ Topic.levels pattern) :
    '/' ∉ (ofLevel level).toList := by
  intro hx
  rcases mem_ofLevel hx with hstar | hlevel
  · exact absurd hstar (by decide)
  · exact Text.not_mem_of_mem_split h hlevel

theorem spells_run (cs : List Char) : Text.Spells Item.Stands [.run] cs :=
  ⟨cs, [], (List.append_nil cs).symm, trivial, rfl⟩

theorem spells_ofLevel {p t : String} (hp : p ≠ Topic.anyRest) (h : Topic.LevelMatch p t) :
    Text.Spells Item.Stands ((ofLevel p).toList.map Item.ofChar) t.toList := by
  by_cases hone : p = Topic.anyLevel
  · rw [ofLevel, if_pos (Or.inl hone)]
    exact spells_run t.toList
  · rw [ofLevel, if_neg (not_or.mpr ⟨hone, hp⟩), h.resolve_left hone]
    exact spells_self t.toList

/-- Levels that match give characters that the glob accepts, if there are enough of them for the slashes
of the glob. -/
theorem spells_of_matchLevels (hne : ps ≠ []) (h : Topic.matchLevels ps ts = true)
    (hlength : ps.length ≤ ts.length) :
    Text.Spells Item.Stands
      ((Text.join (String.singleton '/') (ps.map ofLevel)).toList.map Item.ofChar)
      (Text.join (String.singleton '/') ts).toList := by
  induction ps generalizing ts with
  | nil => exact absurd rfl hne
  | cons p ps ih =>
    by_cases hrest : p = Topic.anyRest
    · have hlast : ps = [] := by simpa [Topic.matchLevels, hrest] using h
      have hglob : Text.join (String.singleton '/') ((p :: ps).map ofLevel) = "*" := by
        simp [Text.join, hlast, hrest, ofLevel]
      rw [hglob]
      exact spells_run _
    · cases ts with
      | nil => exact absurd h (Topic.not_matchLevels_cons_nil hrest ps)
      | cons t ts =>
        obtain ⟨hpt, htail⟩ := (Topic.matchLevels_cons_cons hrest ps t ts).mp h
        have hlevel := spells_ofLevel hrest hpt
        -- A slash follows the level in the glob unless it is the last, and then so in the topic.
        cases ps with
        | nil =>
          have hend : ts = [] := by simpa [Topic.matchLevels] using htail
          simpa [Text.join, hend] using hlevel
        | cons q ps =>
          cases ts with
          | nil => simp at hlength
          | cons u us =>
            have hmore := ih (List.cons_ne_nil q ps) htail (by simpa using hlength)
            rw [List.map_cons, List.map_cons, Text.toList_join_cons, Text.toList_join_cons,
              List.map_append, List.map_cons]
            have hslash := hmore.cons (stands_ofChar_self '/')
            exact hlevel.append hslash

/-- Every slash of a glob needs one in the topic. -/
theorem length_levels_le (hplain : Plain pattern) (h : Accepts (ofPattern pattern) topic) :
    (Topic.levels pattern).length ≤ (Topic.levels topic).length := by
  have hsplit : Text.split '/' (ofPattern pattern) = (Topic.levels pattern).map ofLevel :=
    Text.split_join_map fun _ hlevel => slash_not_mem_ofLevel hlevel
  have hglob : (Topic.levels pattern).length = (ofPattern pattern).toList.count '/' + 1 := by
    rw [← Text.length_split, hsplit, List.length_map]
  rw [Accepts, items_of_plain (plain_ofPattern hplain)] at h
  have hcount := count_le_of_spells (c := '/') h
  rw [count_map_ofChar (by decide) (by decide)] at hcount
  rw [hglob, Topic.levels, Text.length_split]
  omega

theorem accepts_iff (hplain : Plain pattern) (hmatch : Topic.isMatch pattern topic = true) :
    Accepts (ofPattern pattern) topic ↔
      (Topic.levels pattern).length ≤ (Topic.levels topic).length := by
  refine ⟨length_levels_le hplain, fun hlength => ?_⟩
  have hspells := spells_of_matchLevels (Text.split_ne_nil '/' pattern) hmatch hlength
  rw [Accepts, items_of_plain (plain_ofPattern hplain), ofPattern_eq]
  rwa [Topic.levels, Text.join_split] at hspells

end Glob

namespace Redis

open Topic

variable {κ : Type} {pattern topic : String}

/-- A rest wildcard ends the pattern and stands for no level: those before it match the whole topic. -/
def EndsInNothing (pattern topic : String) : Prop :=
  ∃ qs, levels pattern = qs ++ [anyRest] ∧ List.Forall₂ LevelMatch qs (levels topic)

theorem length_levels_le_iff (h : isMatch pattern topic = true) :
    (levels pattern).length ≤ (levels topic).length ↔ ¬ EndsInNothing pattern topic := by
  by_cases hrest : anyRest ∈ levels pattern
  · obtain ⟨qs, ps, hcut, hqs⟩ := List.eq_append_cons_of_mem hrest
    rw [isMatch, hcut, matchLevels_append_rest hqs] at h
    obtain ⟨rfl, front, hfront, hmatch⟩ := h
    have hlength := hmatch.length_eq
    have hends : EndsInNothing pattern topic ↔ front = levels topic := by
      constructor
      · rintro ⟨qs', hcut', hmatch'⟩
        rw [hcut, List.append_left_inj] at hcut'
        subst hcut'
        exact hfront.eq_of_length (hlength.symm.trans hmatch'.length_eq)
      · rintro rfl
        exact ⟨qs, hcut, hmatch⟩
    rw [hends, hcut, List.length_append, List.length_singleton]
    have hle := hfront.length_le
    constructor
    · rintro hlt rfl
      omega
    · intro hne
      have hlt : front.length ≠ (levels topic).length := fun heq => hne (hfront.eq_of_length heq)
      omega
  · have hall := (matchLevels_of_not_mem hrest).mp h
    have hends : ¬ EndsInNothing pattern topic := by
      rintro ⟨qs, hcut, -⟩
      exact hrest (by simp [hcut])
    exact ⟨fun _ => hends, fun _ => Nat.le_of_eq hall.length_eq⟩

end Redis

/-- A server sends what is published on a topic to the connection that made the request. -/
def RedisRequest.Selects (topic : String) : RedisRequest → Prop
  | subscribe channel => channel = topic
  | subscribeGlob glob => Glob.Accepts glob topic
  | _ => False

namespace Redis

open Topic

variable {κ : Type} {pattern topic : String}

/-- What reaches a subscription goes to its subscriber if the pattern matches the topic. -/
theorem mem_arrive_iff (c : Redis κ) (name topic : String) (payload : List UInt8) (d : Delivery κ) :
    d ∈ c.arrive name topic payload ↔ ∃ entry ∈ c.reached name,
      isMatch entry.1 topic = true ∧ d = ⟨entry.2.subscriber, topic, arrival topic payload⟩ := by
  simp only [arrive, List.mem_map, List.mem_filter, and_assoc]
  constructor
  · rintro ⟨entry, hentry, hmatch, rfl⟩
    exact ⟨entry, hentry, hmatch, rfl⟩
  · rintro ⟨entry, hentry, hmatch, rfl⟩
    exact ⟨entry, hentry, hmatch, rfl⟩

/-- If no level of a pattern has a bracket or a backslash, the request for it brings all topics that it
matches but those for which its last level `#` would have to stand for nothing. What else it brings is
not passed on. -/
theorem subscription_misses_empty_rest (topic : String)
    (hplain : isPattern pattern = true → Glob.Plain pattern) :
    (isMatch pattern topic = true →
        ((subscription pattern).Selects topic ↔ ¬ EndsInNothing pattern topic)) ∧
      ∀ (c : Redis κ) (name : String) (payload : List UInt8) (d : Delivery κ),
        d ∈ c.arrive name topic payload ↔ ∃ entry ∈ c.reached name,
          isMatch entry.1 topic = true ∧
            d = ⟨entry.2.subscriber, topic, arrival topic payload⟩ := by
  refine ⟨fun hmatch => ?_, fun c name payload d => mem_arrive_iff c name topic payload d⟩
  rw [← length_levels_le_iff hmatch]
  by_cases hpattern : isPattern pattern = true
  · rw [subscription, if_pos hpattern]
    exact Glob.accepts_iff (hplain hpattern) hmatch
  · have heq : pattern = topic := (isMatch_iff_eq (Bool.eq_false_iff.mpr hpattern)).mp hmatch
    rw [subscription, if_neg hpattern, heq]
    exact ⟨fun _ => Nat.le_refl _, fun _ => rfl⟩

theorem subscription_misses_empty_rest_sample :
    Glob.Plain "a*/+/#" ∧ isMatch "a*/+/#" "a*/b/c" = true ∧
      (subscription "a*/+/#").Selects "a*/b/c" := by
  have hplain : Glob.Plain "a*/+/#" := by decide +kernel
  have hmatch : isMatch "a*/+/#" "a*/b/c" = true := by decide +kernel
  have hlength : (levels "a*/+/#").length ≤ (levels "a*/b/c").length := by decide +kernel
  refine ⟨hplain, hmatch, ?_⟩
  refine ((subscription_misses_empty_rest (κ := Unit) "a*/b/c" fun _ => hplain).1 hmatch).mpr ?_
  exact (length_levels_le_iff hmatch).mp hlength

/-- A topic is missed because of the slash before a `#` that stands for nothing, because of a bracket,
and because of a backslash. -/
theorem subscription_misses_match :
    (isPattern "a/#" = true ∧ isMatch "a/#" "a" = true ∧ ¬ (subscription "a/#").Selects "a") ∧
      (isPattern "a[b]/+" = true ∧ isMatch "a[b]/+" "a[b]/c" = true ∧
        ¬ (subscription "a[b]/+").Selects "a[b]/c") ∧
      isPattern "a\\b/+" = true ∧ isMatch "a\\b/+" "a\\b/c" = true ∧
        ¬ (subscription "a\\b/+").Selects "a\\b/c" := by
  refine ⟨⟨by decide +kernel, by decide +kernel, ?_⟩, ⟨by decide +kernel, by decide +kernel, ?_⟩,
    by decide +kernel, by decide +kernel, ?_⟩
  · intro h
    exact absurd (Glob.length_levels_le (by decide +kernel) h) (by decide +kernel)
  · -- The class stands for `b`, where the topic has a bracket.
    rintro ⟨-, rest, hcut, rfl, -, rest', hcut', ⟨c, rfl, hc⟩, -⟩
    obtain ⟨-, rfl⟩ := List.cons.inj hcut
    obtain ⟨rfl, -⟩ := List.cons.inj hcut'
    exact absurd hc (by decide)
  · -- The backslash is not asked for.
    rintro ⟨-, rest, hcut, rfl, -, rest', hcut', rfl, -⟩
    obtain ⟨-, rfl⟩ := List.cons.inj hcut
    exact absurd (List.cons.inj hcut').1 (by decide)

end Redis

end OrderedRelay
