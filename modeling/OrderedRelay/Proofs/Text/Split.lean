import OrderedRelay.Text.Blank
import OrderedRelay.Text.Split
import Mathlib.Tactic.SplitIfs

/-!
# Laws of splitting and trimming

Joining undoes splitting, and splitting undoes joining as long as no piece holds the separator. A
joined text is made of separators and what its pieces are made of. What follows a beginning is the rest
of the text. A text without blank characters at its ends is its own trimmed form.
-/

namespace OrderedRelay.Text

variable {c : Char} {s t : String} {pieces : List String}

/-! ### Splitting -/

theorem split_of_not_mem (h : c ∉ s.toList) : split c s = [s] := by
  simp [split, List.splitOn_eq_singleton h]

theorem split_append (c : Char) (s t : String) :
    split c (s ++ String.singleton c ++ t) = split c s ++ split c t := by
  have hlist : (s ++ String.singleton c ++ t).toList = s.toList ++ c :: t.toList := by simp
  rw [split, hlist, List.splitOn_append_cons_self, List.map_append]
  rfl

theorem length_splitOn (c : Char) (cs : List Char) : (cs.splitOn c).length = cs.count c + 1 := by
  induction cs with
  | nil => simp
  | cons x xs ih =>
    rw [List.splitOn_cons_eq_if_modifyHead, List.count_cons]
    by_cases hx : x = c <;> simp [hx, ih]

theorem length_split (c : Char) (s : String) : (split c s).length = s.toList.count c + 1 := by
  rw [split, List.length_map, length_splitOn]

theorem split_join (hne : pieces ≠ []) (h : ∀ p ∈ pieces, c ∉ p.toList) :
    split c (join (String.singleton c) pieces) = pieces := by
  have hlist : (join (String.singleton c) pieces).toList =
      [c].intercalate (pieces.map String.toList) := by
    simp [join]
  rw [split, hlist, List.splitOn_intercalate, List.map_map]
  · simp
  · intro l hl
    obtain ⟨p, hp, rfl⟩ := List.mem_map.mp hl
    exact h p hp
  · simpa using hne

/-- The pieces of a text may be joined in another form, and by another separator. -/
theorem split_join_map {d : Char} {f : String → String} (h : ∀ p ∈ split c s, d ∉ (f p).toList) :
    split d (join (String.singleton d) ((split c s).map f)) = (split c s).map f :=
  split_join (mt List.map_eq_nil_iff.mp (split_ne_nil c s)) (List.forall_mem_map.mpr h)

theorem join_split (c : Char) (s : String) : join (String.singleton c) (split c s) = s := by
  have hlist : (join (String.singleton c) (split c s)).toList = [c].intercalate (s.toList.splitOn c) := by
    simp [join, split, Function.comp_def]
  rw [← String.toList_inj, hlist, List.intercalate_splitOn]

theorem not_mem_of_mem_split {p : String} (h : p ∈ split c s) : c ∉ p.toList := by
  obtain ⟨l, hl, rfl⟩ := List.mem_map.mp h
  have key : ∀ cs : List Char, ∀ l ∈ cs.splitOn c, c ∉ l := by
    intro cs
    induction cs with
    | nil => simp
    | cons x xs ih =>
      rw [List.splitOn_cons_eq_if_modifyHead]
      split_ifs with hx
      · intro l hl
        rcases List.mem_cons.mp hl with rfl | hl
        · simp
        · exact ih l hl
      · obtain ⟨head, tail, hcut⟩ := List.exists_cons_of_ne_nil (List.splitOn_ne_nil c xs)
        rw [hcut] at ih ⊢
        intro l hl
        rcases List.mem_cons.mp hl with rfl | hl
        · have hne : c ≠ x := fun h => hx (by simp [h])
          simp [hne, ih head (by simp)]
        · exact ih l (List.mem_cons_of_mem head hl)
  simpa using key s.toList l hl

/-! ### Characters of joined texts -/

theorem toList_join_cons (c : Char) (a b : String) (rest : List String) :
    (join (String.singleton c) (a :: b :: rest)).toList =
      a.toList ++ c :: (join (String.singleton c) (b :: rest)).toList := by
  simp [join]

theorem mem_join {x : Char} (h : x ∈ (join (String.singleton c) pieces).toList) :
    x = c ∨ ∃ piece ∈ pieces, x ∈ piece.toList := by
  induction pieces with
  | nil => simp [join] at h
  | cons a rest ih =>
    cases rest with
    | nil =>
      have ha : x ∈ a.toList := by simpa [join] using h
      exact Or.inr ⟨a, List.mem_cons_self .., ha⟩
    | cons b rest =>
      rw [toList_join_cons] at h
      rcases List.mem_append.mp h with ha | hrest
      · exact Or.inr ⟨a, List.mem_cons_self .., ha⟩
      · rcases List.mem_cons.mp hrest with rfl | hrest
        · exact Or.inl rfl
        · exact (ih hrest).imp_right fun ⟨piece, hpiece, hx⟩ =>
            ⟨piece, List.mem_cons_of_mem a hpiece, hx⟩

theorem mem_join_of_mem {x : Char} {piece : String} (hpiece : piece ∈ pieces)
    (hx : x ∈ piece.toList) : x ∈ (join (String.singleton c) pieces).toList := by
  induction pieces with
  | nil => cases hpiece
  | cons a rest ih =>
    cases rest with
    | nil =>
      rw [List.mem_singleton.mp hpiece] at hx
      simpa [join] using hx
    | cons b rest =>
      rw [toList_join_cons]
      rcases List.mem_cons.mp hpiece with rfl | hrest
      · exact List.mem_append_left _ hx
      · exact List.mem_append_right _ (List.mem_cons_of_mem c (ih hrest))

theorem mem_of_mem_split {x : Char} {piece s : String} (hpiece : piece ∈ split c s)
    (hx : x ∈ piece.toList) : x ∈ s.toList := by
  rw [← join_split c s]
  exact mem_join_of_mem hpiece hx

/-! ### What follows a beginning -/

theorem after?_eq_some_iff {start rest : String} :
    after? start s = some rest ↔ s = start ++ rest := by
  unfold after?
  constructor
  · intro h
    split_ifs at h with hstart
    obtain ⟨cs, hcs⟩ := List.isPrefixOf_iff_prefix.mp hstart
    rw [← hcs, List.drop_left] at h
    rw [← String.toList_inj, ← hcs, ← Option.some.inj h, String.toList_append, String.toList_ofList]
  · rintro rfl
    have hstart : start.toList.isPrefixOf (start ++ rest).toList = true := by simp
    rw [if_pos hstart, String.toList_append, List.drop_left, String.ofList_toList]

/-! ### Trimming -/

theorem dropWhile_isBlank_of_forall {cs : List Char} (h : ∀ c ∈ cs, isBlank c = false) :
    cs.dropWhile isBlank = cs := by
  cases cs with
  | nil => rfl
  | cons c cs => simp [h c (List.mem_cons_self ..)]

theorem trim_of_forall (h : ∀ c ∈ s.toList, isBlank c = false) : trim s = s := by
  have hrev : ∀ c ∈ s.toList.reverse, isBlank c = false := fun c hc => h c (List.mem_reverse.mp hc)
  rw [trim, trimChars, dropWhile_isBlank_of_forall h, dropWhile_isBlank_of_forall hrev,
    List.reverse_reverse, String.ofList_toList]

end OrderedRelay.Text
