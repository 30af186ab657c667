import OrderedRelay.Json.Reader
import OrderedRelay.Proofs.Binary64.Range
import OrderedRelay.Proofs.Table

/-!
# What a reader gives

Whatever is written, a value that is read from it is well formed and nests no deeper than was allowed,
and it stays the same when more is allowed. A numeral never stands for an infinite number.
-/

namespace OrderedRelay.Json

/-! ### Numerals -/

theorem one_le_powers : ∀ k ≤ 308, (Binary64.ofNat (Nat.pow 10 k)).denominator * 2 ^ 0 ≤
    (Binary64.ofNat (Nat.pow 10 k)).numerator := by decide +kernel

theorem large_power : (Binary64.ofNat (Nat.pow 10 308)).denominator * 2 ^ 26 ≤
    (Binary64.ofNat (Nat.pow 10 308)).numerator := by decide +kernel

theorem exponentField_divPower (f : Binary64) (k : Nat) (h : f.exponentField ≤ 25 + 1075) :
    (divPower f k).exponentField ≤ 1926 := by
  induction f, k using divPower.induct with
  | case1 f k hk =>
    rw [divPower, if_pos hk]
    exact (Binary64.exponentField_div h (one_le_powers k hk) (by decide) (by decide)).trans (by decide)
  | case2 f k hk hzero =>
    rw [divPower, if_neg hk, if_pos hzero]
    omega
  | case3 f k hk hzero ih =>
    rw [divPower, if_neg hk, if_neg hzero]
    -- A division by `10 ^ 308` takes off more than rounding can add, so the bound holds for the next.
    exact ih ((Binary64.exponentField_div h large_power (by decide) (by decide)).trans (by decide))

theorem absorb_lt {significand : Nat} (ds : List Char) (h : significand < 0x10000000000000000) :
    (absorb significand ds).1 < 0x10000000000000000 := by
  induction ds generalizing significand with
  | nil => exact h
  | cons d ds ih =>
    rw [absorb]
    split_ifs with hnext
    · exact ih hnext
    · exact h

theorem isFinite_of_scaled? {significand : Nat} {e : Int} {x : Binary64}
    (hsignificand : significand < 0x10000000000000000) (h : scaled? significand e = some x) :
    x.isFinite = true := by
  have hfield : (Binary64.ofNat significand).exponentField ≤ 25 + 1075 :=
    (Binary64.exponentField_ofRatio false (k := 64) Nat.one_pos (by omega) (by decide)
      (by decide)).trans (by decide)
  unfold scaled? at h
  dsimp only at h
  split_ifs at h with hneg hsmall hfinite hzero
  · obtain rfl := Option.some.inj h
    exact Binary64.isFinite_of_exponentField (exponentField_divPower _ _ hfield)
  · obtain rfl := Option.some.inj h
    exact hfinite
  · obtain rfl := Option.some.inj h
    exact Binary64.isFinite_of_exponentField (by omega)

/-- A value without parts that is well formed. -/
def Plain (j : Json) : Prop := j.WellFormed ∧ j.depth = 0

theorem plain_real? {n : Numeral} {j : Json} (h : n.real? = some j) : Plain j := by
  obtain ⟨x, hx, rfl⟩ := Option.map_eq_some_iff.mp h
  have hfinite := isFinite_of_scaled? (absorb_lt n.fraction (absorb_lt n.whole (by decide))) hx
  refine ⟨?_, rfl⟩
  show Binary64.isFinite _ = true
  split_ifs
  · rwa [Binary64.isFinite_neg]
  · exact hfinite

theorem plain_value? {n : Numeral} {j : Json} (h : n.value? = some j) : Plain j := by
  unfold Numeral.value? at h
  dsimp only at h
  split_ifs at h with hreal hneg hlow hhigh
  · exact plain_real? h
  · obtain rfl := Option.some.inj h
    exact ⟨⟨by omega, by omega⟩, rfl⟩
  · exact plain_real? h
  · obtain rfl := Option.some.inj h
    exact ⟨⟨by omega, by omega⟩, rfl⟩
  · exact plain_real? h

/-! ### Fields -/

variable {fields : List (String × Json)} {levels : Nat}

theorem wellFormedFields_iff :
    WellFormedFields fields ↔ ∀ field ∈ fields, field.2.WellFormed := by
  induction fields with
  | nil => simp [WellFormedFields]
  | cons field rest ih => simp [WellFormedFields, ih]

theorem depthFields_le_iff :
    depthFields fields ≤ levels ↔ ∀ field ∈ fields, field.2.depth ≤ levels := by
  induction fields with
  | nil => simp [depthFields]
  | cons field rest ih => simp [depthFields, ih]

/-! ### Values -/

/-- A value that reading may give where so many levels are allowed. -/
structure Within (levels : Nat) (j : Json) : Prop where
  wellFormed : j.WellFormed
  depth : j.depth ≤ levels

mutual

theorem within_of_value? : (r : Raw) → {levels : Nat} → {j : Json} → r.value? levels = some j →
    Within levels j
  | .null, _, _, h => by
    rw [Raw.value?] at h
    obtain rfl := Option.some.inj h
    exact ⟨trivial, Nat.zero_le _⟩
  | .bool b, _, _, h => by
    rw [Raw.value?] at h
    obtain rfl := Option.some.inj h
    exact ⟨trivial, Nat.zero_le _⟩
  | .number n, _, _, h => by
    rw [Raw.value?] at h
    obtain ⟨hwf, hdepth⟩ := plain_value? h
    exact ⟨hwf, hdepth ▸ Nat.zero_le _⟩
  | .text ps, _, _, h => by
    rw [Raw.value?] at h
    obtain ⟨s, -, rfl⟩ := Option.map_eq_some_iff.mp h
    exact ⟨trivial, Nat.zero_le _⟩
  | .array items, levels, _, h => by
    rw [Raw.value?] at h
    split_ifs at h with hlevels
    obtain ⟨js, hjs, rfl⟩ := Option.map_eq_some_iff.mp h
    obtain ⟨hwf, hdepth⟩ := within_of_valueItems? items hjs
    refine ⟨hwf, ?_⟩
    rw [depth]
    omega
  | .object fields, levels, _, h => by
    rw [Raw.value?] at h
    split_ifs at h with hlevels
    obtain ⟨pairs, hpairs, rfl⟩ := Option.map_eq_some_iff.mp h
    have hall := within_of_valueFields? fields hpairs
    have hkept : ∀ field ∈ Table.ofList pairs, Within (levels - 1) field.2 :=
      fun field hfield => hall field (Table.mem_of_mem_ofList hfield)
    refine ⟨⟨Table.sorted_ofList pairs, ?_⟩, ?_⟩
    · exact wellFormedFields_iff.mpr fun field hfield => (hkept field hfield).wellFormed
    · have hdepth : depthFields (Table.ofList pairs) ≤ levels - 1 :=
        depthFields_le_iff.mpr fun field hfield => (hkept field hfield).depth
      rw [depth]
      omega

theorem within_of_valueItems? : (rs : List Raw) → {levels : Nat} → {js : List Json} →
    valueItems? levels rs = some js → WellFormedItems js ∧ depthItems js ≤ levels
  | [], _, _, h => by
    rw [valueItems?] at h
    obtain rfl := Option.some.inj h
    exact ⟨trivial, Nat.zero_le _⟩
  | r :: rs, _, _, h => by
    rw [valueItems?] at h
    split at h
    · rename_i j js hj hjs
      obtain rfl := Option.some.inj h
      obtain ⟨hwf, hdepth⟩ := within_of_value? r hj
      obtain ⟨hwfs, hdepths⟩ := within_of_valueItems? rs hjs
      exact ⟨⟨hwf, hwfs⟩, Nat.max_le.mpr ⟨hdepth, hdepths⟩⟩
    · cases h

theorem within_of_valueFields? : (fs : List (List Piece × Raw)) → {levels : Nat} →
    {pairs : List (String × Json)} → valueFields? levels fs = some pairs →
    ∀ field ∈ pairs, Within levels field.2
  | [], _, _, h => by
    rw [valueFields?] at h
    obtain rfl := Option.some.inj h
    nofun
  | (k, r) :: rest, _, _, h => by
    rw [valueFields?] at h
    split at h
    · rename_i key j pairs hkey hj hpairs
      obtain rfl := Option.some.inj h
      intro field hfield
      rcases List.mem_cons.mp hfield with rfl | hfield
      · exact within_of_value? r hj
      · exact within_of_valueFields? rest hpairs field hfield
    · cases h

end

mutual

/-- More levels than needed change nothing. -/
theorem value?_mono : (r : Raw) → {levels more : Nat} → {j : Json} → levels ≤ more →
    r.value? levels = some j → r.value? more = some j
  | .null, _, _, _, _, h | .bool _, _, _, _, _, h | .number _, _, _, _, _, h
  | .text _, _, _, _, _, h => by
    rw [Raw.value?] at h ⊢
    exact h
  | .array items, levels, more, _, hle, h => by
    rw [Raw.value?] at h ⊢
    split_ifs at h with hlevels
    obtain ⟨js, hjs, rfl⟩ := Option.map_eq_some_iff.mp h
    rw [if_neg (by omega), valueItems?_mono items (Nat.sub_le_sub_right hle 1) hjs, Option.map_some]
  | .object fields, levels, more, _, hle, h => by
    rw [Raw.value?] at h ⊢
    split_ifs at h with hlevels
    obtain ⟨pairs, hpairs, rfl⟩ := Option.map_eq_some_iff.mp h
    rw [if_neg (by omega), valueFields?_mono fields (Nat.sub_le_sub_right hle 1) hpairs,
      Option.map_some]

theorem valueItems?_mono : (rs : List Raw) → {levels more : Nat} → {js : List Json} →
    levels ≤ more → valueItems? levels rs = some js → valueItems? more rs = some js
  | [], _, _, _, _, h => h
  | r :: rs, _, _, _, hle, h => by
    rw [valueItems?] at h ⊢
    split at h
    · rename_i j js hj hjs
      rw [value?_mono r hle hj, valueItems?_mono rs hle hjs]
      exact h
    · cases h

theorem valueFields?_mono : (fs : List (List Piece × Raw)) → {levels more : Nat} →
    {pairs : List (String × Json)} → levels ≤ more → valueFields? levels fs = some pairs →
    valueFields? more fs = some pairs
  | [], _, _, _, _, h => h
  | (k, r) :: rest, _, _, _, hle, h => by
    rw [valueFields?] at h ⊢
    split at h
    · rename_i key j pairs hkey hj hpairs
      rw [hkey, value?_mono r hle hj, valueFields?_mono rest hle hpairs]
      exact h
    · cases h

end

/-- A value that is read where just enough levels are allowed is read exactly where as many are. -/
theorem value?_of_depth {r : Raw} {j : Json} (h : r.value? j.depth = some j) (levels : Nat) :
    r.value? levels = if j.depth ≤ levels then some j else none := by
  split_ifs with hle
  · exact value?_mono r hle h
  · -- A value read with fewer levels would be the same one, and would nest less deep than it does.
    rw [Option.eq_none_iff_forall_ne_some]
    intro k hk
    have hkj := value?_mono r (Nat.le_of_not_le hle) hk
    obtain rfl := Option.some.inj (hkj.symm.trans h)
    exact hle (within_of_value? r hk).depth

end OrderedRelay.Json
