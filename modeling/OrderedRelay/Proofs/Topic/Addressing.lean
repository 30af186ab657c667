import OrderedRelay.Proofs.Topic.Slots
import Mathlib.Data.List.Forall2

/-!
# Who is addressed by a topic

An id is a level of a topic once its slashes are bars. So an instance shares its topics with those whose
ids differ from its own in slashes and bars only, and an id that is a wildcard is one in a pattern too.
All other ids are kept apart.
-/

namespace OrderedRelay

namespace Topic

variable {a b : String}

/-! ### Ids that are one level -/

/-- The ids differ at most in a bar here and a slash there. -/
def Akin (a b : String) : Prop :=
  List.Forall₂ (fun x y => x = y ∨ (x = '/' ∨ x = '|') ∧ (y = '/' ∨ y = '|')) a.toList b.toList

instance (a b : String) : Decidable (Akin a b) := by
  unfold Akin
  infer_instance

theorem escape_eq_escape_iff : escape a = escape b ↔ Akin a b := by
  have hchar : ∀ x y : Char, (if x = '/' then '|' else x) = (if y = '/' then '|' else y) ↔
      x = y ∨ (x = '/' ∨ x = '|') ∧ (y = '/' ∨ y = '|') := by
    intro x y
    grind
  rw [← String.toList_inj, toList_escape, toList_escape, Akin, ← List.forall₂_eq_eq_eq,
    List.forall₂_map_left_iff, List.forall₂_map_right_iff]
  simp only [hchar]

/-- Ids without bars share no level. -/
theorem akin_iff_eq (ha : '|' ∉ a.toList) (hb : '|' ∉ b.toList) : Akin a b ↔ a = b := by
  rw [← escape_eq_escape_iff]
  exact ⟨escape_inj ha hb, congrArg escape⟩

theorem escape_of_not_mem (h : '/' ∉ a.toList) : escape a = a := by
  rw [← String.toList_inj, toList_escape]
  refine (List.map_congr_left fun c hc => ?_).trans (List.map_id a.toList)
  have hslash : c ≠ '/' := fun heq => h (heq ▸ hc)
  exact if_neg hslash

/-- Only the id that is a level without slashes and bars becomes that level. -/
theorem escape_eq_iff {level : String} (hbar : '|' ∉ level.toList) (hslash : '/' ∉ level.toList) :
    escape a = level ↔ a = level := by
  constructor
  · intro h
    have hplain : '/' ∉ a.toList := by
      intro hmem
      refine hbar ?_
      rw [← h, toList_escape]
      exact List.mem_map.mpr ⟨'/', hmem, rfl⟩
    rwa [escape_of_not_mem hplain] at h
  · rintro rfl
    exact escape_of_not_mem hslash

/-! ### Topics against themselves -/

theorem Plain.anyRest_not_mem {domain : String} (h : Plain domain) : anyRest ∉ levels domain :=
  fun hmem => (h anyRest hmem).2 rfl

/-- Levels match themselves unless one before the last stands for the rest. -/
theorem matchLevels_self (ls : List String) :
    matchLevels ls ls = true ↔ anyRest ∉ ls.dropLast := by
  induction ls with
  | nil => simp [matchLevels]
  | cons p ps ih =>
    by_cases hp : p = anyRest
    · cases ps <;> simp [matchLevels, hp]
    · have hstep : matchLevels (p :: ps) (p :: ps) = matchLevels ps ps := by
        simp [matchLevels, hp]
      rw [hstep, ih]
      cases ps with
      | nil => simp
      | cons q qs => simp [Ne.symm hp]

/-- The level of an id in a pattern, before the levels `ps`, against that of another id. -/
theorem matchLevels_escape (ps ts : List String) :
    matchLevels (escape a :: ps) (escape b :: ts) = true ↔
      (a = anyRest ∧ ps = []) ∨
        a ≠ anyRest ∧ (a = anyLevel ∨ Akin a b) ∧ matchLevels ps ts = true := by
  have hone : escape a = anyLevel ↔ a = anyLevel := escape_eq_iff (by decide) (by decide)
  have hrest : escape a = anyRest ↔ a = anyRest := escape_eq_iff (by decide) (by decide)
  rw [← hone, ne_eq, ← hrest, ← escape_eq_escape_iff]
  by_cases ha : escape a = anyRest <;> simp [matchLevels, ha]

end Topic

namespace Identity

open Topic

variable {i : Identity} {a b p q : String}

theorem matchLevels_below (hdomain : anyRest ∉ levels i.domain) {level : String}
    (hlevel : level ≠ anyLevel ∧ level ≠ anyRest) (ps ts : List String) :
    matchLevels (levels i.domain ++ level :: ps) (levels i.domain ++ level :: ts) =
      matchLevels ps ts := by
  have hplain : ∀ x ∈ levels i.domain, x ≠ anyRest := fun x hx heq => hdomain (heq ▸ hx)
  rw [matchLevels_append hplain, matchLevels_cons hlevel, decide_eq_true rfl, Bool.true_and]

theorem isMatch_slotTopic_iff (hdomain : anyRest ∉ levels i.domain) :
    isMatch (i.slotTopic a) (i.slotTopic b) = true ↔ a = anyLevel ∨ a = anyRest ∨ Akin a b := by
  rw [isMatch, levels_slotTopic, levels_slotTopic, matchLevels_below hdomain (by decide),
    matchLevels_escape]
  by_cases ha : a = anyRest <;> simp [matchLevels, ha]

/-- The slot pattern of an instance that is no wildcard matches its own slot topic only. -/
theorem isMatch_slotTopic_bare (hdomain : anyRest ∉ levels i.domain)
    (ha : a ≠ anyLevel ∧ a ≠ anyRest) (hbare : '|' ∉ a.toList) (hbare' : '|' ∉ b.toList) :
    isMatch (i.slotTopic a) (i.slotTopic b) = true ↔ a = b := by
  rw [isMatch_slotTopic_iff hdomain, akin_iff_eq hbare hbare']
  simp [ha]

theorem isMatch_signalTopic_iff (hdomain : anyRest ∉ levels i.domain) (name : String) :
    isMatch (i.signalTopic p name) (i.signalTopic q name) = true ↔
      p ≠ anyRest ∧ (p = anyLevel ∨ Akin p q) ∧ anyRest ∉ (levels name).dropLast := by
  have hname : levels name ≠ [] := Text.split_ne_nil '/' name
  rw [isMatch, levels_signalTopic, levels_signalTopic, matchLevels_below hdomain (by decide),
    matchLevels_escape, matchLevels_self]
  simp [hname]

/-- In a domain without a level `#` the slot pattern of an instance matches, besides its own slot topic,
those of the ids that differ in slashes and bars only, and as a wildcard all of them; the same holds of
the topics of a signal, of which `#` matches none. Ids without bars do not merge. -/
theorem addressing_up_to_bars (hdomain : anyRest ∉ levels i.domain) (a b name : String) :
    (isMatch (i.slotTopic a) (i.slotTopic b) = true ↔ a = anyLevel ∨ a = anyRest ∨ Akin a b) ∧
      (isMatch (i.signalTopic a name) (i.signalTopic b name) = true ↔
        a ≠ anyRest ∧ (a = anyLevel ∨ Akin a b) ∧ anyRest ∉ (levels name).dropLast) ∧
      ('|' ∉ a.toList → '|' ∉ b.toList → (Akin a b ↔ a = b)) :=
  ⟨isMatch_slotTopic_iff hdomain, isMatch_signalTopic_iff hdomain name, akin_iff_eq⟩

theorem addressing_up_to_bars_sample :
    isMatch ((⟨"bus", "S"⟩ : Identity).slotTopic "a/+") ((⟨"bus", "S"⟩ : Identity).slotTopic "a/b") =
        false ∧
      isMatch ((⟨"bus", "S"⟩ : Identity).signalTopic "#" "moved/#")
        ((⟨"bus", "S"⟩ : Identity).signalTopic "#" "moved/#") = false := by
  have hdomain : anyRest ∉ levels (⟨"bus", "S"⟩ : Identity).domain := by decide +kernel
  constructor
  · have hslot := (addressing_up_to_bars hdomain "a/+" "a/b" "moved").1
    rw [Bool.eq_false_iff, ne_eq, hslot]
    decide +kernel
  · have hsignal := (addressing_up_to_bars hdomain "#" "#" "moved/#").2.1
    rw [Bool.eq_false_iff, ne_eq, hsignal]
    decide +kernel

/-- Two instances share a slot, and an instance named by a wildcard gets the traffic of another. -/
theorem addressing_merges_ids :
    '/' ∉ "bus".toList ∧ "bus" ≠ anyLevel ∧ "bus" ≠ anyRest ∧
      "a/b" ≠ "a|b" ∧ "+" ≠ "b" ∧
      isMatch ((⟨"bus", "S"⟩ : Identity).slotTopic "a/b") ((⟨"bus", "S"⟩ : Identity).slotTopic "a|b") =
        true ∧
      isMatch ((⟨"bus", "S"⟩ : Identity).slotTopic "+") ((⟨"bus", "S"⟩ : Identity).slotTopic "b") =
        true ∧
      isMatch ((⟨"bus", "S"⟩ : Identity).signalTopic "+" "moved")
        ((⟨"bus", "S"⟩ : Identity).signalTopic "b" "moved") = true := by
  decide +kernel

end Identity

end OrderedRelay
