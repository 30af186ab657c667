import OrderedRelay.Json.Printer
import OrderedRelay.Json.Reader
import Mathlib.Tactic.SplitIfs

/-!
# Texts read back

Each character of a text is written by itself, as an escape of one letter or as an escape of four
digits, and is read back as one piece whatever follows it.
-/

namespace OrderedRelay.Json

/-- The control characters with an escape of one letter. -/
def shortEscapes : List Char := ['\x08', '\x0c', '\n', '\r', '\t']

/-- The piece that is read for a character as it is written. -/
def written (c : Char) : Piece :=
  if c.toNat < 0x20 ∧ c ∉ shortEscapes then .unit c.toNat else .char c

theorem hexUnit?_hexDigit {n : Nat} (h : n < 0x20) :
    hexUnit? '0' '0' (hexDigit (n / 16)) (hexDigit (n % 16)) = some n := by
  have hall : ∀ m < 0x20,
      hexUnit? '0' '0' (hexDigit (m / 16)) (hexDigit (m % 16)) = some m := by decide +kernel
  exact hall n h

/-! ### Pieces -/

theorem scanText_plain {c : Char} (cs : List Char) (hquote : c ≠ '"') (hslash : c ≠ '\\')
    (hprint : ¬ c.toNat < 0x20) :
    scanText (c :: cs) = (scanText cs).map fun (ps, after) => (.char c :: ps, after) := by
  rw [scanText.eq_def]
  split
  · simp_all
  · simp_all
  · simp_all
  · simp_all
  · rename_i heq
    obtain ⟨rfl, rfl⟩ := List.cons.inj heq
    rw [if_neg hprint]

theorem scanText_escape {e c : Char} (cs : List Char) (h : escaped? e = some c) :
    scanText ('\\' :: e :: cs) = (scanText cs).map fun (ps, after) => (.char c :: ps, after) := by
  have hu : e ≠ 'u' := by
    rintro rfl
    simp [escaped?] at h
  rw [scanText.eq_def]
  cases hrest : scanText cs <;> simp_all

theorem scanText_unit {a b c d : Char} {n : Nat} (cs : List Char) (h : hexUnit? a b c d = some n) :
    scanText ('\\' :: 'u' :: a :: b :: c :: d :: cs) =
      (scanText cs).map fun (ps, after) => (.unit n :: ps, after) := by
  rw [scanText, h]
  cases scanText cs <;> rfl

theorem scanText_escapeChar (c : Char) (cs : List Char) :
    scanText (escapeChar c ++ cs) =
      (scanText cs).map fun (ps, after) => (written c :: ps, after) := by
  unfold escapeChar
  split_ifs with h₁ h₂ h₃ h₄ h₅ h₆ h₇ h₈
  · subst h₁
    exact scanText_escape cs rfl
  · subst h₂
    exact scanText_escape cs rfl
  · subst h₃
    exact scanText_escape cs rfl
  · subst h₄
    exact scanText_escape cs rfl
  · subst h₅
    exact scanText_escape cs rfl
  · subst h₆
    exact scanText_escape cs rfl
  · subst h₇
    exact scanText_escape cs rfl
  · have hwritten : written c = .unit c.toNat := by simp [written, shortEscapes, *]
    rw [hwritten]
    exact scanText_unit cs (hexUnit?_hexDigit h₈)
  · have hwritten : written c = .char c := by simp [written, h₈]
    rw [hwritten]
    exact scanText_plain cs h₁ h₂ h₈

/-! ### Texts -/

theorem scanText_escaped (cs rest : List Char) :
    scanText (cs.flatMap escapeChar ++ '"' :: rest) = some (cs.map written, rest) := by
  induction cs with
  | nil => simp [scanText]
  | cons c cs ih =>
    rw [List.flatMap_cons, List.append_assoc, scanText_escapeChar, ih]
    rfl

theorem assemble_written (c : Char) (ps : List Piece) :
    assemble (written c :: ps) = (assemble ps).map (c :: ·) := by
  unfold written
  split_ifs with h
  · have hlow := h.1
    have hnoHigh : ¬ (0xD800 ≤ c.toNat ∧ c.toNat < 0xDC00) := by omega
    have hnoLow : ¬ (0xDC00 ≤ c.toNat ∧ c.toNat < 0xE000) := by omega
    rw [assemble.eq_def]
    simp only [hnoHigh, hnoLow, if_false, Char.ofNat_toNat]
  · rw [assemble]

theorem assemble_map_written (cs : List Char) : assemble (cs.map written) = some cs := by
  induction cs with
  | nil => rfl
  | cons c cs ih => rw [List.map_cons, assemble_written, ih, Option.map_some]

theorem assembleText_written (s : String) : assembleText (s.toList.map written) = some s := by
  rw [assembleText, assemble_map_written, Option.map_some, String.ofList_toList]

/-- A text without anything to escape is written between its quotes as it is. -/
theorem renderText_plain {cs : List Char} (h : ∀ c ∈ cs, escapeChar c = [c]) :
    renderText (String.ofList cs) = '"' :: (cs ++ ['"']) := by
  have hsame : cs.flatMap escapeChar = cs := by
    induction cs with
    | nil => rfl
    | cons c cs ih =>
      have hrest := ih fun d hd => h d (List.mem_cons_of_mem c hd)
      rw [List.flatMap_cons, h c (List.mem_cons_self ..), hrest, List.singleton_append]
  rw [renderText, String.toList_ofList, hsame]

theorem scanText_renderText (s : String) (rest : List Char) :
    ∃ cs, renderText s ++ rest = '"' :: cs ∧ scanText cs = some (s.toList.map written, rest) := by
  refine ⟨s.toList.flatMap escapeChar ++ '"' :: rest, ?_, scanText_escaped s.toList rest⟩
  simp [renderText]

end OrderedRelay.Json
