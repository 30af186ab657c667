import OrderedRelay.Proofs.Json.Numeral
import OrderedRelay.Proofs.Json.Text
import OrderedRelay.Proofs.Table

/-!
# Values read back

What is written for a well-formed value is read as that value, whatever follows that cannot continue a
numeral. About floating-point numbers this only says that each one that occurs reads back by itself:
their digits may leave white space or more to be skipped, and so what remains is known up to white
space.
-/

namespace OrderedRelay.Json

mutual

/-- The floating-point numbers in a value. -/
def reals : Json → List Binary64
  | .real x => [x]
  | .array items => realsItems items
  | .object fields => realsFields fields
  | _ => []

def realsItems : List Json → List Binary64
  | [] => []
  | j :: js => reals j ++ realsItems js

def realsFields : List (String × Json) → List Binary64
  | [] => []
  | (_, j) :: rest => reals j ++ realsFields rest

end

/-- A floating-point number that reads as it was written. -/
def ReadsBack (x : Binary64) : Prop := parse? 0 (render (.real x)) = some (.real x)

instance (x : Binary64) : Decidable (ReadsBack x) := inferInstanceAs (Decidable (_ = _))

/-- The characters are read as the value, whatever follows. -/
def Reads (cs : List Char) (j : Json) : Prop :=
  ∀ fuel rest, cs.length < fuel → Ends rest →
    ∃ raw after, scanRaw fuel (cs ++ rest) = some (raw, after) ∧ skipSpace after = skipSpace rest ∧
      ∀ levels, j.depth ≤ levels → raw.value? levels = some j

/-- The items are read up to the bracket after them. -/
def ReadsItems (js : List Json) : Prop :=
  ∀ fuel rest, (renderItems js).length + 1 < fuel →
    ∃ raws, scanItems fuel (renderItems js ++ ']' :: rest) = some (raws, rest) ∧
      ∀ levels, depthItems js ≤ levels → valueItems? levels raws = some js

/-- The fields are read up to the brace after them. -/
def ReadsFields (fields : List (String × Json)) : Prop :=
  ∀ fuel rest, (renderFields fields).length + 1 < fuel →
    ∃ raws, scanFields fuel (renderFields fields ++ '\x7d' :: rest) = some (raws, rest) ∧
      ∀ levels, depthFields fields ≤ levels → valueFields? levels raws = some fields

variable {cs after rest : List Char} {c : Char} {fuel : Nat} {raw : Raw}

/-! ### White space -/

theorem skipSpace_cons (cs : List Char) (h : isSpace c = false) : skipSpace (c :: cs) = c :: cs := by
  simp [skipSpace, h]

theorem skipSpace_append (rest : List Char) (h : skipSpace cs ≠ []) :
    skipSpace (cs ++ rest) = skipSpace cs ++ rest := by
  have hne : (cs.dropWhile isSpace).isEmpty = false := by simpa [skipSpace] using h
  simp [skipSpace, List.dropWhile_append, hne]

theorem skipSpace_append_of_nil (rest : List Char) (h : skipSpace cs = []) :
    skipSpace (cs ++ rest) = skipSpace rest := by
  have hnil : (cs.dropWhile isSpace).isEmpty = true := by simpa [skipSpace] using h
  simp only [skipSpace, List.dropWhile_append, hnil, if_true]

/-! ### One value -/

theorem scanRaw_text (fuel : Nat) (s : String) (rest : List Char) :
    scanRaw (fuel + 1) (renderText s ++ rest) = some (.text (s.toList.map written), rest) := by
  obtain ⟨cs, hcs, hscan⟩ := scanText_renderText s rest
  rw [hcs, scanRaw, skipSpace_cons cs (by decide)]
  simp [hscan]

theorem numeral_start {result : Numeral × List Char} (h : scanNumeral (c :: cs) = some result) :
    c = '-' ∨ c.isDigit = true := by
  by_cases hminus : c = '-'
  · exact Or.inl hminus
  · rw [scanNumeral_unsigned cs hminus] at h
    have hne := (canonical_of_scanUnsigned h).1
    refine Or.inr ?_
    by_contra hdigit
    exact hne (by simp [spanDigits, hdigit])

/-- What starts none of the other values is read as a numeral. -/
theorem scanRaw_other (fuel : Nat) (hstart : skipSpace cs = rest)
    (hother : ∀ c ∈ rest.head?, c ∉ ['"', '[', '\x7b', 'n', 't', 'f']) :
    scanRaw (fuel + 1) cs = (scanNumeral rest).map fun (n, after) => (.number n, after) := by
  rw [scanRaw, hstart]
  split
  · exact absurd (by simp) (hother _ rfl)
  · exact absurd (by simp) (hother _ rfl)
  · exact absurd (by simp) (hother _ rfl)
  · exact absurd (by simp) (hother _ rfl)
  · exact absurd (by simp) (hother _ rfl)
  · exact absurd (by simp) (hother _ rfl)
  · rfl

theorem scanRaw_numeral {n : Numeral} (fuel : Nat) (h : scanNumeral (skipSpace cs) = some (n, after)) :
    scanRaw (fuel + 1) cs = some (.number n, after) := by
  have hother : ∀ c ∈ (skipSpace cs).head?, c ∉ ['"', '[', '\x7b', 'n', 't', 'f'] := by
    intro c hc hmem
    obtain ⟨tail, htail⟩ := List.head?_eq_some_iff.mp hc
    rw [htail] at h
    have hstart := numeral_start h
    simp only [List.mem_cons, List.not_mem_nil, or_false] at hmem
    rcases hmem with rfl | rfl | rfl | rfl | rfl | rfl <;> revert hstart <;> decide
  rw [scanRaw_other fuel rfl hother, h]
  rfl

theorem scanNumeral_of_scanRaw {n : Numeral} (h : scanRaw (fuel + 1) cs = some (.number n, after)) :
    scanNumeral (skipSpace cs) = some (n, after) := by
  rw [scanRaw] at h
  split at h
  · simp at h
  · split at h <;> simp at h
  · split at h <;> simp at h
  · simp at h
  · simp at h
  · simp at h
  · simpa using h

theorem ne_bracket_of_scanRaw {result : Raw × List Char} (h : scanRaw fuel cs = some result)
    (rest : List Char) : skipSpace cs ≠ ']' :: rest := by
  intro hstart
  cases fuel with
  | zero => simp [scanRaw] at h
  | succ fuel =>
    rw [scanRaw_other fuel hstart (by simp)] at h
    obtain ⟨result, hscan, -⟩ := Option.map_eq_some_iff.mp h
    have hbracket := numeral_start hscan
    revert hbracket
    decide

/-! ### Values without parts -/

theorem skipSpace_numeral {result : Numeral × List Char} (h : scanNumeral cs = some result) :
    skipSpace cs = cs := by
  cases cs with
  | nil => rfl
  | cons c cs =>
    have hspace : isSpace c = false := by
      by_contra hspace
      have hstart := numeral_start h
      simp only [Bool.not_eq_false, isSpace, Bool.or_eq_true, beq_iff_eq] at hspace
      rcases hspace with ((rfl | rfl) | rfl) | rfl <;> revert hstart <;> decide
    exact skipSpace_cons cs hspace

theorem reads_word {cs : List Char} {j : Json} (raw : Raw)
    (hscan : ∀ fuel rest, scanRaw (fuel + 1) (cs ++ rest) = some (raw, rest))
    (hvalue : ∀ levels, raw.value? levels = some j) : Reads cs j := by
  intro fuel rest hfuel _
  cases fuel with
  | zero => exact absurd hfuel (Nat.not_lt_zero _)
  | succ fuel => exact ⟨raw, rest, hscan fuel rest, rfl, fun levels _ => hvalue levels⟩

theorem reads_null : Reads "null".toList .null := by
  refine reads_word .null (fun fuel rest => ?_) fun _ => rfl
  rw [show "null".toList = ['n', 'u', 'l', 'l'] by decide]
  rfl

theorem reads_bool (b : Bool) : Reads (if b then "true".toList else "false".toList) (.bool b) := by
  refine reads_word (.bool b) (fun fuel rest => ?_) fun _ => rfl
  cases b with
  | false =>
    rw [show "false".toList = ['f', 'a', 'l', 's', 'e'] by decide]
    rfl
  | true =>
    rw [show "true".toList = ['t', 'r', 'u', 'e'] by decide]
    rfl

theorem reads_text (s : String) : Reads (renderText s) (.text s) := by
  refine reads_word _ (fun fuel rest => scanRaw_text fuel s rest) fun levels => ?_
  rw [Raw.value?, assembleText_written, Option.map_some]

theorem reads_integer {i : Int} (h : (Json.integer i).WellFormed) :
    Reads (renderInteger i) (.integer i) := by
  intro fuel rest hfuel hends
  cases fuel with
  | zero => exact absurd hfuel (Nat.not_lt_zero _)
  | succ fuel =>
    have hscan := scanNumeral_renderInteger i hends
    have hspace := skipSpace_numeral hscan
    refine ⟨_, rest, scanRaw_numeral fuel (by rw [hspace]; exact hscan), rfl, fun _ _ => ?_⟩
    exact value?_integer h

theorem number_of_readsBack {x : Binary64} (h : ReadsBack x) :
    ∃ n after, scanNumeral (skipSpace (renderReal x)) = some (n, after) ∧ skipSpace after = [] ∧
      n.value? = some (.real x) := by
  unfold ReadsBack parse? Raw.parse? render at h
  rw [String.toList_ofList] at h
  obtain ⟨raw, hraw, hvalue⟩ := Option.bind_eq_some_iff.mp h
  split at hraw
  · rename_i raw' after hscan
    split_ifs at hraw with hspace
    obtain rfl := Option.some.inj hraw
    -- Nothing but a numeral has a floating-point number as its value.
    cases raw' with
    | number n => exact ⟨n, after, scanNumeral_of_scanRaw hscan, hspace, hvalue⟩
    | null => cases hvalue
    | bool b => cases hvalue
    | text ps => simp [Raw.value?] at hvalue
    | array items => simp [Raw.value?] at hvalue
    | object fields => simp [Raw.value?] at hvalue
  · cases hraw

/-- A number that reads by itself also reads where something follows. -/
theorem reads_real {x : Binary64} (h : ReadsBack x) : Reads (renderReal x) (.real x) := by
  intro fuel rest hfuel hends
  obtain ⟨n, after, hscan, hspace, hvalue⟩ := number_of_readsBack h
  have hne : skipSpace (renderReal x) ≠ [] := by
    intro hnil
    rw [hnil] at hscan
    cases hscan
  cases fuel with
  | zero => exact absurd hfuel (Nat.not_lt_zero _)
  | succ fuel =>
    have hlonger := scanNumeral_append hends hscan
    rw [← skipSpace_append rest hne] at hlonger
    exact ⟨_, after ++ rest, scanRaw_numeral fuel hlonger, skipSpace_append_of_nil rest hspace,
      fun _ _ => hvalue⟩

/-! ### Arrays -/

theorem scanRaw_bracket (fuel : Nat) (cs : List Char) :
    scanRaw (fuel + 1) ('[' :: cs) = match skipSpace cs with
      | ']' :: after => some (.array [], after)
      | _ => (scanItems fuel cs).map fun (items, after) => (.array items, after) := by
  rw [scanRaw, skipSpace_cons cs (by decide)]
  rfl

theorem scanRaw_array {raws : List Raw} (h : scanItems fuel cs = some (raws, after)) :
    scanRaw (fuel + 1) ('[' :: cs) = some (.array raws, after) := by
  have hopen : ∀ rest, skipSpace cs ≠ ']' :: rest := by
    cases fuel with
    | zero => simp [scanItems] at h
    | succ fuel =>
      rw [scanItems] at h
      cases hfirst : scanRaw fuel cs with
      | none =>
        rw [hfirst] at h
        cases h
      | some result => exact ne_bracket_of_scanRaw hfirst
  rw [scanRaw_bracket]
  split
  · rename_i heq
    exact absurd heq (hopen _)
  · rw [h]
    rfl

theorem readsItems_single {j : Json} (h : Reads (renderChars j) j) : ReadsItems [j] := by
  intro fuel rest hfuel
  rw [renderItems] at hfuel
  cases fuel with
  | zero => exact absurd hfuel (Nat.not_lt_zero _)
  | succ fuel =>
    obtain ⟨raw, after, hscan, hspace, hvalue⟩ :=
      h fuel (']' :: rest) (by omega) (ends_cons rest (by decide))
    rw [skipSpace_cons rest (by decide)] at hspace
    refine ⟨[raw], ?_, fun levels hlevels => ?_⟩
    · rw [renderItems, scanItems, hscan]
      simp [hspace]
    · rw [depthItems] at hlevels
      simp [valueItems?, hvalue levels (by omega)]

theorem readsItems_cons {j k : Json} {js : List Json} (h : Reads (renderChars j) j)
    (hrest : ReadsItems (k :: js)) : ReadsItems (j :: k :: js) := by
  intro fuel rest hfuel
  have hchars : renderItems (j :: k :: js) = renderChars j ++ ',' :: renderItems (k :: js) := by
    rw [renderItems]
    nofun
  rw [hchars, List.length_append, List.length_cons] at hfuel
  cases fuel with
  | zero => exact absurd hfuel (Nat.not_lt_zero _)
  | succ fuel =>
    obtain ⟨raw, after, hscan, hspace, hvalue⟩ :=
      h fuel (',' :: (renderItems (k :: js) ++ ']' :: rest)) (by omega) (ends_cons _ (by decide))
    obtain ⟨raws, hscans, hvalues⟩ := hrest fuel rest (by omega)
    rw [skipSpace_cons _ (by decide)] at hspace
    refine ⟨raw :: raws, ?_, fun levels hlevels => ?_⟩
    · rw [hchars, List.append_assoc, List.cons_append, scanItems, hscan]
      simp [hspace, hscans]
    · rw [depthItems] at hlevels
      rw [valueItems?, hvalue levels (by omega), hvalues levels (by omega)]

theorem reads_array {js : List Json} (h : js ≠ [] → ReadsItems js) :
    Reads (renderChars (.array js)) (.array js) := by
  intro fuel rest hfuel _
  rw [renderChars, List.length_cons, List.length_append, List.length_singleton] at hfuel
  rw [renderChars, List.cons_append, List.append_assoc, List.singleton_append]
  cases fuel with
  | zero => exact absurd hfuel (Nat.not_lt_zero _)
  | succ fuel =>
    cases js with
    | nil =>
      refine ⟨.array [], rest, ?_, rfl, fun levels hlevels => ?_⟩
      · rw [renderItems, List.nil_append, scanRaw_bracket, skipSpace_cons rest (by decide)]
        rfl
      · rw [depth, depthItems] at hlevels
        rw [Raw.value?, if_neg (by omega)]
        rfl
    | cons j js =>
      obtain ⟨raws, hscan, hvalues⟩ := h (List.cons_ne_nil _ _) fuel rest (by omega)
      refine ⟨.array raws, rest, scanRaw_array hscan, rfl, fun levels hlevels => ?_⟩
      rw [depth] at hlevels
      rw [Raw.value?, if_neg (by omega), hvalues (levels - 1) (by omega), Option.map_some]

/-! ### Objects -/

theorem scanRaw_brace (fuel : Nat) (cs : List Char) :
    scanRaw (fuel + 1) ('\x7b' :: cs) = match skipSpace cs with
      | '\x7d' :: after => some (.object [], after)
      | _ => (scanFields fuel cs).map fun (fields, after) => (.object fields, after) := by
  rw [scanRaw, skipSpace_cons cs (by decide)]
  rfl

theorem scanRaw_object {fields : List (List Piece × Raw)}
    (h : scanFields fuel cs = some (fields, after)) :
    scanRaw (fuel + 1) ('\x7b' :: cs) = some (.object fields, after) := by
  have hopen : ∀ rest, skipSpace cs ≠ '\x7d' :: rest := by
    intro rest hbrace
    cases fuel with
    | zero => simp [scanFields] at h
    | succ fuel =>
      rw [scanFields, hbrace] at h
      cases h
  rw [scanRaw_brace]
  split
  · rename_i heq
    exact absurd heq (hopen _)
  · rw [h]
    rfl

theorem readsFields_single {k : String} {j : Json} (h : Reads (renderChars j) j) :
    ReadsFields [(k, j)] := by
  intro fuel rest hfuel
  rw [renderFields, List.length_append, List.length_cons] at hfuel
  cases fuel with
  | zero => exact absurd hfuel (Nat.not_lt_zero _)
  | succ fuel =>
    obtain ⟨raw, after, hscan, hspace, hvalue⟩ :=
      h fuel ('\x7d' :: rest) (by omega) (ends_cons rest (by decide))
    obtain ⟨cs, hcs, hkey⟩ := scanText_renderText k (':' :: (renderChars j ++ '\x7d' :: rest))
    have hcolon := skipSpace_cons (c := ':') (renderChars j ++ '\x7d' :: rest) (by decide)
    rw [skipSpace_cons rest (by decide)] at hspace
    refine ⟨[(k.toList.map written, raw)], ?_, fun levels hlevels => ?_⟩
    · rw [renderFields, List.append_assoc, List.cons_append, hcs, scanFields,
        skipSpace_cons cs (by decide)]
      simp [hkey, hcolon, hscan, hspace]
    · rw [depthFields] at hlevels
      simp [valueFields?, assembleText_written, hvalue levels (by omega)]

theorem readsFields_cons {k : String} {j : Json} {field : String × Json}
    {fields : List (String × Json)} (h : Reads (renderChars j) j)
    (hrest : ReadsFields (field :: fields)) : ReadsFields ((k, j) :: field :: fields) := by
  intro fuel rest hfuel
  have hchars : renderFields ((k, j) :: field :: fields) =
      renderText k ++ ':' :: (renderChars j ++ ',' :: renderFields (field :: fields)) := by
    rw [renderFields]
    nofun
  rw [hchars, List.length_append, List.length_cons, List.length_append, List.length_cons] at hfuel
  cases fuel with
  | zero => exact absurd hfuel (Nat.not_lt_zero _)
  | succ fuel =>
    obtain ⟨raws, hscans, hvalues⟩ := hrest fuel rest (by omega)
    generalize hlater : renderFields (field :: fields) ++ '\x7d' :: rest = later at hscans
    obtain ⟨raw, after, hscan, hspace, hvalue⟩ :=
      h fuel (',' :: later) (by omega) (ends_cons later (by decide))
    obtain ⟨cs, hcs, hkey⟩ := scanText_renderText k (':' :: (renderChars j ++ ',' :: later))
    have hcolon := skipSpace_cons (c := ':') (renderChars j ++ ',' :: later) (by decide)
    rw [skipSpace_cons later (by decide)] at hspace
    refine ⟨(k.toList.map written, raw) :: raws, ?_, fun levels hlevels => ?_⟩
    · rw [hchars, List.append_assoc, List.cons_append, List.append_assoc, List.cons_append, hlater,
        hcs, scanFields, skipSpace_cons cs (by decide)]
      simp [hkey, hcolon, hscan, hspace, hscans]
    · rw [depthFields] at hlevels
      rw [valueFields?, assembleText_written, hvalue levels (by omega), hvalues levels (by omega)]

theorem reads_object {fields : List (String × Json)} (hsorted : Table.Sorted fields)
    (h : fields ≠ [] → ReadsFields fields) :
    Reads (renderChars (.object fields)) (.object fields) := by
  intro fuel rest hfuel _
  rw [renderChars, List.length_cons, List.length_append, List.length_singleton] at hfuel
  rw [renderChars, List.cons_append, List.append_assoc, List.singleton_append]
  cases fuel with
  | zero => exact absurd hfuel (Nat.not_lt_zero _)
  | succ fuel =>
    cases fields with
    | nil =>
      refine ⟨.object [], rest, ?_, rfl, fun levels hlevels => ?_⟩
      · rw [renderFields, List.nil_append, scanRaw_brace, skipSpace_cons rest (by decide)]
        rfl
      · rw [depth, depthFields] at hlevels
        rw [Raw.value?, if_neg (by omega)]
        rfl
    | cons field fields =>
      obtain ⟨raws, hscan, hvalues⟩ := h (List.cons_ne_nil _ _) fuel rest (by omega)
      refine ⟨.object raws, rest, scanRaw_object hscan, rfl, fun levels hlevels => ?_⟩
      rw [depth] at hlevels
      rw [Raw.value?, if_neg (by omega), hvalues (levels - 1) (by omega), Option.map_some,
        Table.ofList_of_sorted hsorted]

/-! ### All values -/

mutual

theorem reads_renderChars : (j : Json) → j.WellFormed → (∀ x ∈ j.reals, ReadsBack x) →
    Reads (renderChars j) j
  | .null, _, _ => reads_null
  | .bool b, _, _ => reads_bool b
  | .integer _, h, _ => reads_integer h
  | .real x, _, hreals => reads_real (hreals x (List.mem_singleton_self x))
  | .text s, _, _ => reads_text s
  | .array js, h, hreals => reads_array fun hne => readsItems js hne h hreals
  | .object fields, h, hreals =>
    reads_object h.1 fun hne => readsFields fields hne h.2 hreals

theorem readsItems : (js : List Json) → js ≠ [] → WellFormedItems js →
    (∀ x ∈ realsItems js, ReadsBack x) → ReadsItems js
  | [], hne, _, _ => absurd rfl hne
  | [j], _, h, hreals =>
    readsItems_single (reads_renderChars j h.1 fun x hx => hreals x (List.mem_append_left _ hx))
  | j :: k :: js, _, h, hreals =>
    readsItems_cons (reads_renderChars j h.1 fun x hx => hreals x (List.mem_append_left _ hx))
      (readsItems (k :: js) nofun h.2 fun x hx => hreals x (List.mem_append_right _ hx))

theorem readsFields : (fields : List (String × Json)) → fields ≠ [] → WellFormedFields fields →
    (∀ x ∈ realsFields fields, ReadsBack x) → ReadsFields fields
  | [], hne, _, _ => absurd rfl hne
  | [(_, j)], _, h, hreals =>
    readsFields_single (reads_renderChars j h.1 fun x hx => hreals x (List.mem_append_left _ hx))
  | (_, j) :: field :: fields, _, h, hreals =>
    readsFields_cons (reads_renderChars j h.1 fun x hx => hreals x (List.mem_append_left _ hx))
      (readsFields (field :: fields) nofun h.2 fun x hx => hreals x (List.mem_append_right _ hx))

end

/-- A value is read back where its nesting is allowed. -/
theorem parse?_render {j : Json} {levels : Nat} (h : j.WellFormed)
    (hreals : ∀ x ∈ j.reals, ReadsBack x) (hlevels : j.depth ≤ levels) :
    parse? levels (render j) = some j := by
  obtain ⟨raw, after, hscan, hspace, hvalue⟩ := reads_renderChars j h hreals
    ((renderChars j).length + 1) [] (Nat.lt_succ_self _) ends_nil
  have hend : skipSpace after = [] := hspace
  rw [List.append_nil] at hscan
  rw [parse?, render, String.toList_ofList, Raw.parse?, hscan]
  simp [hend, hvalue levels hlevels]

end OrderedRelay.Json
