import OrderedRelay.Message.OrderNumbers
import OrderedRelay.Proofs.Text.Split

/-!
# Order numbers read back

What is written for a list of order numbers is read as the same list, and whatever is read has 64 bits.
-/

namespace OrderedRelay

namespace Decimal

theorem isBlank_of_isDigit {c : Char} (h : c.isDigit = true) : Text.isBlank c = false := by
  simp only [Char.isDigit, Bool.and_eq_true, decide_eq_true_eq] at h
  have hlow : 48 ≤ c.toNat := h.1
  have hhigh : c.toNat ≤ 57 := h.2
  simp only [Text.isBlank]
  grind

theorem isDigit_of_mem_render {n : Nat} {c : Char} (h : c ∈ (render n).toList) :
    c.isDigit = true := by
  simp only [render, String.toList_ofList] at h
  exact Nat.isDigit_of_mem_toDigits (by omega) (by omega) h

theorem comma_not_mem_render (n : Nat) : ',' ∉ (render n).toList := by
  intro h
  have hdigit := isDigit_of_mem_render h
  revert hdigit
  decide

theorem toList_render_ne_nil (n : Nat) : (render n).toList ≠ [] := by
  simp [render, Nat.toDigits_ne_nil]

theorem unsigned_of_isDigit {cs : List Char} (h : ∀ c ∈ cs, c.isDigit = true) :
    unsigned cs = cs := by
  cases cs with
  | nil => rfl
  | cons c cs =>
    have hc := h c (List.mem_cons_self ..)
    have hne : c ≠ '+' := by
      rintro rfl
      revert hc
      decide
    simp [unsigned, hne]

theorem parse_render {n bound : Nat} (h : n < bound) : parse? bound (render n) = some n := by
  have hunsigned := unsigned_of_isDigit fun c (hc : c ∈ (render n).toList) =>
    isDigit_of_mem_render hc
  have hdigits : ofDigits? (render n).toList = some n := by
    simp only [render, String.toList_ofList]
    exact ofDigits?_toDigits n
  simp [parse?, hunsigned, hdigits, h]

theorem lt_of_parse? {n bound : Nat} {s : String} (h : parse? bound s = some n) : n < bound :=
  of_decide_eq_true (Option.filter_eq_some_iff.mp h).2

end Decimal

namespace OrderNumbers

theorem readToken_render {n : Nat} (h : n < Decimal.bound64) :
    readToken (Decimal.render n) = .ok n := by
  have htrim : Text.trim (Decimal.render n) = Decimal.render n :=
    Text.trim_of_forall fun c hc => Decimal.isBlank_of_isDigit (Decimal.isDigit_of_mem_render hc)
  simp [readToken, htrim, Decimal.parse_render h]

theorem readTokens_render {ns : List Nat} (h : ∀ n ∈ ns, n < Decimal.bound64) :
    readTokens (ns.map Decimal.render) = .ok ns := by
  induction ns with
  | nil => rfl
  | cons n rest ih =>
    have hrest := ih fun m hm => h m (List.mem_cons_of_mem n hm)
    rw [List.map_cons, readTokens, readToken_render (h n (List.mem_cons_self ..)), hrest]
    rfl

theorem isBlank_of_mem_encode {ns : List Nat} {c : Char} (h : c ∈ (encode ns).toList) :
    Text.isBlank c = false := by
  induction ns with
  | nil => simp [encode, Text.join] at h
  | cons n rest ih =>
    cases rest with
    | nil =>
      simp only [encode, Text.join, List.map_cons, List.map_nil, String.intercalate_singleton] at h
      exact Decimal.isBlank_of_isDigit (Decimal.isDigit_of_mem_render h)
    | cons m rest =>
      have hsplit : encode (n :: m :: rest) = Decimal.render n ++ "," ++ encode (m :: rest) := by
        simp [encode, Text.join]
      rw [hsplit, String.toList_append, String.toList_append] at h
      rcases List.mem_append.mp h with h | h
      · rcases List.mem_append.mp h with h | h
        · exact Decimal.isBlank_of_isDigit (Decimal.isDigit_of_mem_render h)
        · have hcomma : c = ',' := by simpa using h
          rw [hcomma]
          decide
      · exact ih h

theorem encode_ne_empty {ns : List Nat} (h : ns ≠ []) : encode ns ≠ "" := by
  intro hempty
  obtain ⟨n, rest, rfl⟩ := List.exists_cons_of_ne_nil h
  have hnil : (encode (n :: rest)).toList = [] := by simp [hempty]
  cases rest with
  | nil =>
    simp only [encode, Text.join, List.map_cons, List.map_nil, String.intercalate_singleton] at hnil
    exact Decimal.toList_render_ne_nil n hnil
  | cons m rest => simp [encode, Text.join] at hnil

/-- Reading undoes writing. -/
theorem decode_encode {ns : List Nat} (h : ∀ n ∈ ns, n < Decimal.bound64) :
    decode (encode ns) = .ok ns := by
  have htrim : Text.trim (encode ns) = encode ns :=
    Text.trim_of_forall fun c hc => isBlank_of_mem_encode hc
  unfold decode
  rw [htrim]
  by_cases hns : ns = []
  · rw [hns]
    rfl
  · have hcut : Text.split ',' (encode ns) = ns.map Decimal.render := by
      refine Text.split_join (c := ',') (by simpa using hns) fun p hp => ?_
      obtain ⟨n, -, rfl⟩ := List.mem_map.mp hp
      exact Decimal.comma_not_mem_render n
    simp only [encode_ne_empty hns, if_false, hcut, readTokens_render h]

/-! ### The range of what is read -/

theorem lt_of_readToken {piece : String} {n : Nat} (h : readToken piece = .ok n) :
    n < Decimal.bound64 := by
  simp only [readToken] at h
  split at h
  · rename_i m hm
    cases h
    exact Decimal.lt_of_parse? hm
  · cases h

theorem lt_of_mem_readTokens {pieces : List String} {ns : List Nat}
    (h : readTokens pieces = .ok ns) : ∀ n ∈ ns, n < Decimal.bound64 := by
  induction pieces generalizing ns with
  | nil =>
    cases h
    exact nofun
  | cons piece rest ih =>
    simp only [readTokens, bind, Except.bind] at h
    cases hfirst : readToken piece with
    | error token => simp [hfirst] at h
    | ok n =>
      cases hrest : readTokens rest with
      | error token => simp [hfirst, hrest] at h
      | ok ms =>
        simp only [hfirst, hrest] at h
        cases h
        exact List.forall_mem_cons.mpr ⟨lt_of_readToken hfirst, ih hrest⟩

theorem lt_of_mem_decode {raw : String} {ns : List Nat} (h : decode raw = .ok ns) :
    ∀ n ∈ ns, n < Decimal.bound64 := by
  simp only [decode] at h
  split_ifs at h
  · cases h
    exact nofun
  · exact lt_of_mem_readTokens h

end OrderNumbers

end OrderedRelay
