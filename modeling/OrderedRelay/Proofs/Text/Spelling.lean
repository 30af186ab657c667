import Mathlib.Data.List.Forall2

/-!
# Signs for parts of a list

A pattern in the widest sense is a list of signs, each of which stands for some lists. It fits a list
that can be cut into consecutive parts, one for each sign in turn. Bindings of a topic exchange are such
patterns over words, and globs over characters.
-/

namespace OrderedRelay.Text

variable {α β γ δ : Type} {stands : α → List β → Prop} {a : α} {as as' : List α} {bs bs' : List β}

/-- The signs, one after another, stand for consecutive parts of the list. -/
def Spells (stands : α → List β → Prop) : List α → List β → Prop
  | [], bs => bs = []
  | a :: as, bs => ∃ part rest, bs = part ++ rest ∧ stands a part ∧ Spells stands as rest

theorem spells_nil : Spells stands [] bs ↔ bs = [] := Iff.rfl

theorem Spells.cons {part : List β} (ha : stands a part) (h : Spells stands as bs) :
    Spells stands (a :: as) (part ++ bs) := ⟨part, bs, rfl, ha, h⟩

theorem Spells.append (h : Spells stands as bs) (h' : Spells stands as' bs') :
    Spells stands (as ++ as') (bs ++ bs') := by
  induction as generalizing bs with
  | nil =>
    rw [spells_nil.mp h]
    exact h'
  | cons a as ih =>
    obtain ⟨part, rest, rfl, ha, hrest⟩ := h
    rw [List.append_assoc]
    exact (ih hrest).cons ha

theorem spells_of_forall₂ (h : List.Forall₂ (fun a b => stands a [b]) as bs) :
    Spells stands as bs := by
  induction h with
  | nil => rfl
  | cons ha _ ih => exact ih.cons ha

theorem spells_cons_one {fits : β → Prop} (ha : ∀ part, stands a part ↔ ∃ b, part = [b] ∧ fits b) :
    Spells stands (a :: as) bs ↔ ∃ b rest, bs = b :: rest ∧ fits b ∧ Spells stands as rest := by
  constructor
  · rintro ⟨part, rest, rfl, hpart, hrest⟩
    obtain ⟨b, rfl, hb⟩ := (ha part).mp hpart
    exact ⟨b, rest, rfl, hb, hrest⟩
  · rintro ⟨b, rest, rfl, hb, hrest⟩
    exact hrest.cons ((ha [b]).mpr ⟨b, rfl, hb⟩)

theorem spells_map (f : γ → α) (g : δ → β) {cs : List γ} {ds : List δ} :
    Spells stands (cs.map f) (ds.map g) ↔
      Spells (fun c part => stands (f c) (part.map g)) cs ds := by
  induction cs generalizing ds with
  | nil => exact List.map_eq_nil_iff
  | cons c cs ih =>
    constructor
    · rintro ⟨part, rest, hcut, hc, hrest⟩
      obtain ⟨part, rest, rfl, rfl, rfl⟩ := List.map_eq_append_iff.mp hcut
      exact (ih.mp hrest).cons hc
    · rintro ⟨part, rest, rfl, hc, hrest⟩
      rw [List.map_append]
      exact (ih.mpr hrest).cons hc

theorem spells_congr {stands' : α → List β → Prop}
    (h : ∀ a ∈ as, ∀ part, stands a part ↔ stands' a part) :
    Spells stands as bs ↔ Spells stands' as bs := by
  induction as generalizing bs with
  | nil => exact Iff.rfl
  | cons a as ih =>
    obtain ⟨ha, has⟩ := List.forall_mem_cons.mp h
    simp only [Spells, ha, ih has]

end OrderedRelay.Text
