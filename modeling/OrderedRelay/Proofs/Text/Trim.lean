import OrderedRelay.Proofs.Text.Split
import Mathlib.Data.List.TakeWhile

/-!
# Laws of trimming

A text is its trimmed form with blank characters on both sides, and blank characters added at an end
make no difference to the trimmed form. So the pieces of a text, trimmed, are the pieces of the trimmed
text, trimmed: a separator that is not blank stands at the same places in both.
-/

namespace OrderedRelay.Text

variable {c : Char} {cs bs : List Char}

/-! ### Blank ends -/

/-- All characters are white space. -/
def Blank (cs : List Char) : Prop := ∀ c ∈ cs, isBlank c = true

theorem Blank.not_mem (h : Blank cs) (hc : isBlank c = false) : c ∉ cs := by
  intro hmem
  rw [h c hmem] at hc
  cases hc

theorem trimChars_append_left (h : Blank bs) (cs : List Char) :
    trimChars (bs ++ cs) = trimChars cs := by
  rw [trimChars, List.dropWhile_append_of_pos h, trimChars]

theorem trimChars_append_right (h : Blank bs) (cs : List Char) :
    trimChars (cs ++ bs) = trimChars cs := by
  have hback : Blank bs.reverse := fun c hc => h c (List.mem_reverse.mp hc)
  rw [trimChars, trimChars, List.dropWhile_append]
  split_ifs with hnone
  · rw [List.isEmpty_iff.mp hnone, List.dropWhile_eq_nil_iff.mpr h]
  · rw [List.reverse_append, List.dropWhile_append_of_pos hback]

theorem exists_blank_ends (cs : List Char) :
    ∃ front back, Blank front ∧ Blank back ∧ cs = front ++ trimChars cs ++ back := by
  refine ⟨cs.takeWhile isBlank, ((cs.dropWhile isBlank).reverse.takeWhile isBlank).reverse,
    fun c hc => List.mem_takeWhile_imp hc,
    fun c hc => List.mem_takeWhile_imp (List.mem_reverse.mp hc), ?_⟩
  rw [List.append_assoc, trimChars, ← List.reverse_append, List.takeWhile_append_dropWhile,
    List.reverse_reverse, List.takeWhile_append_dropWhile]

/-! ### Pieces of a text with more at its ends -/

theorem splitOn_append_left (h : c ∉ bs) (cs : List Char) :
    ∃ first rest, cs.splitOn c = first :: rest ∧ (bs ++ cs).splitOn c = (bs ++ first) :: rest := by
  induction bs with
  | nil =>
    obtain ⟨first, rest, hcut⟩ := List.exists_cons_of_ne_nil (List.splitOn_ne_nil c cs)
    exact ⟨first, rest, hcut, hcut⟩
  | cons b bs ih =>
    obtain ⟨hb, hbs⟩ := List.ne_and_not_mem_of_not_mem_cons h
    obtain ⟨first, rest, hcut, hlonger⟩ := ih hbs
    refine ⟨first, rest, hcut, ?_⟩
    rw [List.cons_append, List.splitOn_cons_eq_if_modifyHead, if_neg (by simpa using hb.symm), hlonger]
    rfl

theorem splitOn_append_right (h : c ∉ bs) (cs : List Char) :
    ∃ init last, cs.splitOn c = init ++ [last] ∧ (cs ++ bs).splitOn c = init ++ [last ++ bs] := by
  induction cs with
  | nil => exact ⟨[], [], by simp, by simp [List.splitOn_eq_singleton h]⟩
  | cons x cs ih =>
    obtain ⟨init, last, hcut, hlonger⟩ := ih
    rw [List.cons_append, List.splitOn_cons_eq_if_modifyHead, List.splitOn_cons_eq_if_modifyHead, hcut,
      hlonger]
    by_cases hx : x = c
    · exact ⟨[] :: init, last, by simp [hx], by simp [hx]⟩
    -- The character joins the first piece, which may also be the last.
    · cases init with
      | nil => exact ⟨[], x :: last, by simp [hx], by simp [hx]⟩
      | cons first init => exact ⟨(x :: first) :: init, last, by simp [hx], by simp [hx]⟩

theorem map_trim_splitOn (hc : isBlank c = false) (cs : List Char) :
    ((trimChars cs).splitOn c).map trimChars = (cs.splitOn c).map trimChars := by
  obtain ⟨front, back, hfront, hback, hcut⟩ := exists_blank_ends cs
  obtain ⟨first, rest, hpieces, hleft⟩ := splitOn_append_left (hfront.not_mem hc) (trimChars cs)
  obtain ⟨init, last, hpieces', hright⟩ :=
    splitOn_append_right (hback.not_mem hc) (front ++ trimChars cs)
  rw [← hcut] at hright
  calc ((trimChars cs).splitOn c).map trimChars
      = ((front ++ trimChars cs).splitOn c).map trimChars := by
        rw [hpieces, hleft, List.map_cons, List.map_cons, trimChars_append_left hfront]
    _ = (cs.splitOn c).map trimChars := by
        rw [hpieces', hright, List.map_append, List.map_append, List.map_singleton,
          List.map_singleton, trimChars_append_right hback]

/-- Trimming the text first makes no difference to its pieces, trimmed. -/
theorem map_trim_split (hc : isBlank c = false) (s : String) :
    (split c (trim s)).map trim = (split c s).map trim := by
  have hlists : ∀ cs : List Char, ((cs.splitOn c).map String.ofList).map trim =
      ((cs.splitOn c).map trimChars).map String.ofList := by
    intro cs
    simp [trim, Function.comp_def]
  rw [split, split, hlists, hlists, toList_trim, map_trim_splitOn hc]

end OrderedRelay.Text
