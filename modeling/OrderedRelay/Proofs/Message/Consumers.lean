import OrderedRelay.Message.Consumers
import OrderedRelay.Proofs.Text.Split

/-!
# Laws of consumer lists

The ids of a list are the runs of characters between its bars, so bars at its ends make no difference
to them. Taking the frame off is another reading: it drops no more than one bar at each end.
-/

namespace OrderedRelay.Consumers

variable {raw id : String} {c : Char} {cs : List Char}

/-! ### Runs between bars -/

def runs (cs : List Char) : List (List Char) := (cs.splitOn '|').filter (· ≠ [])

theorem runs_cons_bar (cs : List Char) : runs ('|' :: cs) = runs cs := by
  have hsplit := List.splitOn_append_cons_self (a := '|') [] cs
  rw [List.nil_append] at hsplit
  simp [runs, hsplit]

theorem runs_append_bar (cs : List Char) : runs (cs ++ ['|']) = runs cs := by
  simp [runs, List.splitOn_append_cons_self]

theorem runs_dropBar (cs : List Char) : runs (dropBar cs) = runs cs := by
  fun_cases dropBar cs with
  | case1 cs => exact (runs_cons_bar cs).symm
  | case2 => rfl

theorem runs_reverse_dropBar (cs : List Char) : runs (dropBar cs).reverse = runs cs.reverse := by
  fun_cases dropBar cs with
  | case1 cs => rw [List.reverse_cons, runs_append_bar]
  | case2 => rfl

theorem pieces_eq_runs (raw : String) :
    (Text.split '|' raw).filter (· ≠ "") = (runs raw.toList).map String.ofList := by
  have hempty : ∀ l : List Char, String.ofList l = "" ↔ l = [] := by
    intro l
    rw [← String.toList_inj, String.toList_ofList, String.toList_empty]
  rw [Text.split, List.filter_map, runs]
  simp only [Function.comp_def, ne_eq, hempty]

/-- The bars of the frame make no difference to the ids. -/
theorem decode_eq (raw : String) : decode raw = (runs raw.toList).map String.ofList := by
  have hruns : runs (unframed raw).toList = runs raw.toList := by
    rw [unframed, String.toList_ofList, runs_reverse_dropBar, List.reverse_reverse, runs_dropBar]
  rw [← hruns, decode, pieces_eq_runs]

theorem bar_not_mem_of_mem_decode (h : id ∈ decode raw) : '|' ∉ id.toList :=
  Text.not_mem_of_mem_split (List.mem_filter.mp h).1

theorem ne_empty_of_mem_decode (h : id ∈ decode raw) : id ≠ "" := by
  simpa using (List.mem_filter.mp h).2

theorem runs_cons (hc : c ≠ '|') (cs : List Char) :
    ∃ run rest, runs (c :: cs) = (c :: run) :: rest ∧ (runs cs = [] ↔ run = [] ∧ rest = []) := by
  obtain ⟨run, rest, hsplit⟩ := List.exists_cons_of_ne_nil (List.splitOn_ne_nil '|' cs)
  have hcons : (c :: cs).splitOn '|' = (c :: run) :: rest := by
    rw [List.splitOn_cons_eq_if_modifyHead, if_neg (by simpa using hc), hsplit]
    rfl
  refine ⟨run, rest.filter (· ≠ []), by simp [runs, hcons], ?_⟩
  by_cases hrun : run = [] <;> simp [runs, hsplit, hrun]

theorem runs_eq_nil (h : runs cs = []) : ∃ n, cs = List.replicate n '|' := by
  induction cs with
  | nil => exact ⟨0, rfl⟩
  | cons c cs ih =>
    by_cases hc : c = '|'
    · rw [hc, runs_cons_bar] at h
      obtain ⟨n, rfl⟩ := ih h
      exact ⟨n + 1, by rw [hc, List.replicate_succ]⟩
    · obtain ⟨run, rest, hruns, -⟩ := runs_cons hc cs
      rw [hruns] at h
      cases h

/-! ### Bars around an id -/

/-- An id with so many bars before it and behind it. -/
def barred (before behind : Nat) (id : String) : String :=
  String.ofList (List.replicate before '|' ++ id.toList ++ List.replicate behind '|')

theorem exists_barred (h : runs cs = [[c]]) (hc : c ≠ '|') :
    ∃ a b, cs = List.replicate a '|' ++ c :: List.replicate b '|' := by
  induction cs with
  | nil => cases h
  | cons x cs ih =>
    by_cases hx : x = '|'
    · rw [hx, runs_cons_bar] at h
      obtain ⟨a, b, rfl⟩ := ih h
      exact ⟨a + 1, b, by rw [hx, List.replicate_succ, List.cons_append]⟩
    · obtain ⟨run, rest, hruns, hrest⟩ := runs_cons hx cs
      rw [hruns] at h
      obtain ⟨⟨rfl, rfl⟩, rfl⟩ : (x = c ∧ run = []) ∧ rest = [] := by simpa using h
      obtain ⟨b, rfl⟩ := runs_eq_nil (hrest.mpr ⟨rfl, rfl⟩)
      exact ⟨0, b, rfl⟩

theorem runs_replicate_append (n : Nat) (cs : List Char) :
    runs (List.replicate n '|' ++ cs) = runs cs := by
  induction n with
  | zero => rfl
  | succ n ih => rw [List.replicate_succ, List.cons_append, runs_cons_bar, ih]

theorem runs_append_replicate (cs : List Char) (n : Nat) :
    runs (cs ++ List.replicate n '|') = runs cs := by
  induction n with
  | zero => rw [List.replicate_zero, List.append_nil]
  | succ n ih => rw [List.replicate_succ', ← List.append_assoc, runs_append_bar, ih]

/-- What lists one id of one character is this id between bars. -/
theorem decode_eq_singleton_iff (hid : id.toList = [c]) (hc : c ≠ '|') :
    decode raw = [id] ↔ ∃ a b, raw = barred a b id := by
  constructor
  · intro h
    have hruns : runs raw.toList = [[c]] := by
      rw [decode_eq] at h
      have hlists := congrArg (List.map String.toList) h
      simpa [hid, Function.comp_def] using hlists
    obtain ⟨a, b, hraw⟩ := exists_barred hruns hc
    refine ⟨a, b, ?_⟩
    rw [← String.toList_inj, barred, String.toList_ofList, hraw, hid, List.append_assoc,
      List.singleton_append]
  · rintro ⟨a, b, rfl⟩
    obtain ⟨run, rest, hruns, hrest⟩ := runs_cons hc []
    obtain ⟨rfl, rfl⟩ := hrest.mp rfl
    rw [decode_eq, barred, String.toList_ofList, runs_append_replicate, runs_replicate_append, hid,
      hruns, List.map_singleton, ← hid, String.ofList_toList]

theorem dropBar_replicate_append (hc : c ≠ '|') (n : Nat) (cs : List Char) :
    dropBar (List.replicate n '|' ++ c :: cs) = List.replicate (n - 1) '|' ++ c :: cs := by
  cases n with
  | zero => simp [dropBar, hc]
  | succ n => rfl

theorem unframed_barred (hid : id.toList = [c]) (hc : c ≠ '|') (a b : Nat) :
    unframed (barred a b id) = barred (a - 1) (b - 1) id := by
  have hfront := dropBar_replicate_append hc a (List.replicate b '|')
  have hback := dropBar_replicate_append hc b (List.replicate (a - 1) '|')
  have hturned : (List.replicate (a - 1) '|' ++ c :: List.replicate b '|').reverse =
      List.replicate b '|' ++ c :: List.replicate (a - 1) '|' := by
    simp
  rw [unframed, barred, barred, String.toList_ofList, hid, List.append_assoc, List.singleton_append,
    hfront, hturned, hback]
  simp

/-- The frame is that of the id alone if there is at most one bar at each end. -/
theorem unframed_barred_eq_iff (hid : id.toList = [c]) (hc : c ≠ '|') (a b : Nat) :
    unframed (barred a b id) = id ↔ a ≤ 1 ∧ b ≤ 1 := by
  rw [unframed_barred hid hc]
  constructor
  · intro h
    have hlength := congrArg (fun s => s.toList.length) h
    simp only [barred, String.toList_ofList, List.length_append, List.length_replicate] at hlength
    omega
  · rintro ⟨ha, hb⟩
    rw [Nat.sub_eq_zero_of_le ha, Nat.sub_eq_zero_of_le hb, barred]
    simp

theorem decode_of_unframed (hid : id.toList = [c]) (hc : c ≠ '|') (h : unframed raw = id) :
    decode raw = [id] := by
  have hbar : '|' ∉ id.toList := by simpa [hid] using hc.symm
  have hne : id ≠ "" := fun heq => by simp [heq] at hid
  rw [decode, h, Text.split_of_not_mem hbar]
  simp [hne]

end OrderedRelay.Consumers
