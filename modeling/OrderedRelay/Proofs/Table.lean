import OrderedRelay.Table
import Mathlib.Order.Basic
import Mathlib.Data.List.Induction
import Mathlib.Data.String.Basic

/-!
# Tables in order

Inserting and erasing keep a table in order, and a table in order is what its own entries make when
they are inserted one after another.
-/

namespace OrderedRelay.Table

variable {α : Type} {key : String} {value : α} {t : Table α} {e : String × α}

instance (t : Table α) : Decidable (Sorted t) :=
  inferInstanceAs (Decidable (t.Pairwise fun a b => a.1 < b.1))

theorem mem_of_get? (h : t.get? key = some value) : (key, value) ∈ t := by
  induction t with
  | nil => cases h
  | cons entry rest ih => grind [get?]

theorem has_iff {k : String} : t.has k = true ↔ ∃ v, (k, v) ∈ t := by
  constructor
  · intro h
    obtain ⟨v, hv⟩ := Option.isSome_iff_exists.mp h
    exact ⟨v, mem_of_get? hv⟩
  · rintro ⟨v, hv⟩
    induction t with
    | nil => cases hv
    | cons entry rest ih => grind [has, get?]

theorem mem_mapValues {β : Type} {f : α → β} {x : String × β} :
    x ∈ t.mapValues f ↔ ∃ v, (x.1, v) ∈ t ∧ f v = x.2 := by
  constructor
  · intro hx
    obtain ⟨⟨k, v⟩, hkv, rfl⟩ := List.mem_map.mp hx
    exact ⟨v, hkv, rfl⟩
  · rintro ⟨v, hv, hf⟩
    exact List.mem_map.mpr ⟨(x.1, v), hv, by rw [hf]⟩

theorem mapValues_mapValues {β δ : Type} (f : α → β) (g : β → δ) (t : Table α) :
    (t.mapValues f).mapValues g = t.mapValues fun v => g (f v) := by
  simp [mapValues]

theorem has_insert (key k : String) (value : α) (t : Table α) :
    (t.insert key value).has k = (decide (k = key) || t.has k) := by
  rw [has, get?_insert]
  split_ifs with hk
  · simp [hk]
  · simp [hk, has]

theorem has_erase_of_ne {k : String} (hk : k ≠ key) (t : Table α) :
    (t.erase key).has k = t.has k := by
  rw [has, get?_erase, if_neg hk]
  rfl

theorem has_mapValues {β : Type} (f : α → β) (k : String) (t : Table α) :
    (t.mapValues f).has k = t.has k := by
  induction t with
  | nil => rfl
  | cons entry rest ih =>
    have hhead : (mapValues f (entry :: rest)).has k =
        if entry.1 = k then true else (mapValues f rest).has k := by
      by_cases hk : entry.1 = k <;> simp [mapValues, has, get?, hk]
    rw [hhead, ih]
    by_cases hk : entry.1 = k <;> simp [has, get?, hk]

theorem mem_insert (h : e ∈ t.insert key value) : e = (key, value) ∨ e ∈ t := by
  induction t with
  | nil => exact Or.inl (List.mem_singleton.mp h)
  | cons entry rest ih => grind [insert]

theorem erase_insert (key : String) (value : α) (t : Table α) :
    (t.insert key value).erase key = t.erase key := by
  induction t with
  | nil => simp [insert, erase]
  | cons entry rest ih =>
    obtain ⟨k, v⟩ := entry
    simp only [insert]
    split_ifs with hlt heq
    · simp [erase]
    · simp [erase, heq]
    · simp only [erase, List.filter_cons] at ih ⊢
      rw [ih]

theorem erase_eq_self (h : t.has key = false) : t.erase key = t := by
  refine List.filter_eq_self.mpr fun entry hentry => decide_eq_true fun heq => ?_
  rw [has_iff.mpr ⟨entry.2, heq ▸ hentry⟩] at h
  cases h

theorem mem_of_mem_erase (h : e ∈ t.erase key) : e ∈ t := List.mem_of_mem_filter h

theorem Sorted.insert (key : String) (value : α) (h : t.Sorted) :
    (t.insert key value).Sorted := by
  induction t with
  | nil => exact List.pairwise_singleton ..
  | cons entry rest ih =>
    obtain ⟨k, v⟩ := entry
    obtain ⟨hhead, htail⟩ := List.pairwise_cons.mp h
    unfold Table.insert
    split_ifs with hlt heq
    · refine List.pairwise_cons.mpr ⟨?_, h⟩
      intro e he
      rcases List.mem_cons.mp he with rfl | he
      · exact hlt
      · exact lt_trans hlt (hhead e he)
    · subst heq
      exact List.pairwise_cons.mpr ⟨hhead, htail⟩
    · have hgt : k < key := lt_of_le_of_ne (not_lt.mp hlt) heq
      refine List.pairwise_cons.mpr ⟨?_, ih htail⟩
      intro e he
      rcases mem_insert he with rfl | he
      · exact hgt
      · exact hhead e he

theorem Sorted.erase (key : String) (h : t.Sorted) : (t.erase key).Sorted :=
  List.Pairwise.filter _ h

theorem insert_of_forall_lt (value : α) (h : ∀ e ∈ t, e.1 < key) :
    t.insert key value = t ++ [(key, value)] := by
  induction t with
  | nil => rfl
  | cons entry rest ih =>
    have hentry := h entry (List.mem_cons_self ..)
    have hrest := ih fun e he => h e (List.mem_cons_of_mem entry he)
    rw [insert, if_neg (not_lt.mpr hentry.le), if_neg hentry.ne, hrest, List.cons_append]

theorem foldl_insert_of_sorted {acc pairs : Table α} (h : Sorted (acc ++ pairs)) :
    pairs.foldl (fun t entry => insert entry.1 entry.2 t) acc = acc ++ pairs := by
  induction pairs generalizing acc with
  | nil => simp
  | cons entry rest ih =>
    have hlast : acc.insert entry.1 entry.2 = acc ++ [entry] :=
      insert_of_forall_lt entry.2 fun e he =>
        (List.pairwise_append.mp h).2.2 e he entry (List.mem_cons_self ..)
    have hsplit : acc ++ entry :: rest = (acc ++ [entry]) ++ rest := by simp
    rw [List.foldl_cons, hlast, hsplit]
    exact ih (hsplit ▸ h)

theorem ofList_of_sorted (h : Sorted t) : ofList t = t :=
  foldl_insert_of_sorted (show Sorted ([] ++ t) from h)

theorem sorted_ofList (pairs : List (String × α)) : Sorted (ofList pairs) := by
  induction pairs using List.reverseRecOn with
  | nil => exact List.Pairwise.nil
  | append_singleton pairs entry ih =>
    rw [ofList, List.foldl_append]
    exact ih.insert entry.1 entry.2

theorem mem_of_mem_ofList {pairs : List (String × α)} (h : e ∈ ofList pairs) : e ∈ pairs := by
  induction pairs using List.reverseRecOn with
  | nil => exact h
  | append_singleton pairs entry ih =>
    rw [ofList, List.foldl_append] at h
    rcases mem_insert h with rfl | hold
    · exact List.mem_append_right _ (List.mem_singleton_self _)
    · exact List.mem_append_left _ (ih hold)

end OrderedRelay.Table
