import OrderedRelay.Proofs.Sequencing.Consecutive
import OrderedRelay.Transport.Lossy

/-!
# Batches of a window

A layer that drops nothing lets publications leave batch by batch: each batch holds every publication
offered since the last one, once or twice, in any order. If some publications carry the numbers 1, 2
and so on in the order in which they are offered, then at no point on the way out are as many of them
ahead of the first gap as the window is wide, however a last copy may overfill the batch.
-/

namespace OrderedRelay

theorem arrange_perm {α : Type} (draws : List Nat) (l : List α) : (arrange draws l).Perm l := by
  induction draws generalizing l with
  | nil => cases l <;> simp [arrange]
  | cons d draws ih =>
    cases l with
    | nil => simp [arrange]
    | cons x xs =>
      have hlt : d % (x :: xs).length < (x :: xs).length := Nat.mod_lt _ (by simp)
      have hrest := ih ((x :: xs).eraseIdx (d % (x :: xs).length))
      simp only [arrange, List.getElem?_eq_getElem hlt, Option.toList_some, List.singleton_append]
      exact (hrest.cons _).trans (List.getElem_cons_eraseIdx_perm hlt)

def labels (number : Publication → Option Nat) (ps : List Publication) : Finset Nat :=
  (ps.filterMap number).toFinset

namespace Lossy

variable {number : Publication → Option Nat} {window m n : Nat} {l : Lossy} {p : Publication}
  {offered out held batch : List Publication}

theorem labels_append (number : Publication → Option Nat) (xs ys : List Publication) :
    labels number (xs ++ ys) = labels number xs ∪ labels number ys := by
  simp [labels]

theorem labels_perm {xs ys : List Publication} (h : xs.Perm ys) :
    labels number xs = labels number ys := List.toFinset_eq_of_perm _ _ (h.filterMap number)

theorem labels_mono {xs ys : List Publication} (h : ∀ p ∈ xs, p ∈ ys) :
    labels number xs ⊆ labels number ys := by
  intro k hk
  obtain ⟨p, hp, hnumber⟩ := List.mem_filterMap.mp (List.mem_toFinset.mp hk)
  exact List.mem_toFinset.mpr (List.mem_filterMap.mpr ⟨p, h p hp, hnumber⟩)

theorem hits_of_atMost_zero {rate : Binary64} (h : rate.atMost .zero = true) (draw : Binary64) :
    LossyConfig.hits rate draw = false := by
  simp [LossyConfig.hits, h]

theorem copies_of_no_drops {c : LossyConfig} (hdrop : c.dropRate.atMost .zero = true)
    (chance : Chance) (p : Publication) : copies c chance p = [p] ∨ copies c chance p = [p, p] := by
  unfold copies
  rw [hits_of_atMost_zero hdrop, if_neg (by decide)]
  by_cases hdup : LossyConfig.hits c.duplicateRate chance.duplicateDraw = true
  · exact Or.inr (if_pos hdup)
  · exact Or.inl (if_neg hdup)

/-- What a layer has let out of what was offered: of the numbers up to `n`, those up to `m`, never far
ahead of the first gap; the others are held. -/
structure Batched (number : Publication → Option Nat) (window : Nat)
    (offered out held : List Publication) (m n : Nat) : Prop where
  gone : labels number out = Finset.Icc 1 m
  kept : labels number held = Finset.Ioc m n
  le : m ≤ n
  few : n ≤ m + held.length
  room : held.length < max window 1
  near : ∀ part, part <+: out → (ahead (labels number part)).card ≤ window - 1
  mem : ∀ p ∈ out ++ held, p ∈ offered

theorem batched_nil (number : Publication → Option Nat) (window : Nat) :
    Batched number window [] [] [] 0 0 where
  gone := rfl
  kept := rfl
  le := le_rfl
  few := le_rfl
  room := by simp
  near := by
    intro part hpart
    rw [List.prefix_nil.mp hpart]
    exact Nat.zero_le _
  mem := by simp

theorem Batched.leave (h : Batched number window offered out held m n) {all : List Publication}
    {total : Nat} (hbatch : labels number batch = Finset.Ioc m total) (hle : m ≤ total)
    (hwindow : total ≤ m + max window 1) (hout : ∀ p ∈ offered, p ∈ all)
    (hmem : ∀ p ∈ batch, p ∈ all) :
    Batched number window all (out ++ batch) [] total total where
  gone := by
    rw [labels_append, h.gone, hbatch]
    ext k
    simp only [Finset.mem_union, Finset.mem_Icc, Finset.mem_Ioc]
    omega
  kept := by simp [labels]
  le := le_rfl
  few := le_rfl
  room := by simp
  near := by
    intro part hpart
    -- Before the batch nothing has changed; within it all numbers up to `m` are out already.
    rcases List.prefix_or_prefix_of_prefix hpart (List.prefix_append out batch) with hold | ⟨b, rfl⟩
    · exact h.near part hold
    · rw [List.prefix_append_right_inj] at hpart
      have hsub : labels number b ⊆ Finset.Ioc m total := by
        rw [← hbatch]
        exact labels_mono fun p hp => hpart.subset hp
      have hreach : ∀ k ∈ labels number (out ++ b), k ≤ total := by
        intro k hk
        rw [labels_append, h.gone, Finset.mem_union, Finset.mem_Icc] at hk
        rcases hk with hk | hk
        · omega
        · exact (Finset.mem_Ioc.mp (hsub hk)).2
      have hm : m ≤ completeUpTo (labels number (out ++ b)) := by
        have hgrow : Finset.Icc 1 m ⊆ labels number (out ++ b) := by
          rw [labels_append, h.gone]
          exact Finset.subset_union_left
        have hmono := completeUpTo_mono hgrow
        rwa [completeUpTo_Icc] at hmono
      have hcard := card_ahead_le hreach
      omega
  mem := by
    intro p hp
    rw [List.append_nil, List.mem_append] at hp
    rcases hp with hp | hp
    · exact hout p (h.mem p (List.mem_append_left _ hp))
    · exact hmem p hp

/-- Publications are numbered in the order in which they are offered. -/
def Follows (number : Publication → Option Nat) (p : Publication) (n n' : Nat) : Prop :=
  (number p = none ∧ n' = n) ∨ (number p = some (n + 1) ∧ n' = n + 1)

theorem Follows.labels_copies {n' : Nat} (h : Follows number p n n') {copies : List Publication}
    (hcopies : copies = [p] ∨ copies = [p, p]) : labels number copies = Finset.Ioc n n' := by
  rcases h with ⟨hnone, rfl⟩ | ⟨hsome, rfl⟩
  · rcases hcopies with rfl | rfl <;> simp [labels, hnone]
  · have hone : Finset.Ioc n (n + 1) = {n + 1} := by
      ext k
      simp only [Finset.mem_Ioc, Finset.mem_singleton]
      omega
    rcases hcopies with rfl | rfl <;> simp [labels, hsome, hone]

theorem Follows.le {n' : Nat} (h : Follows number p n n') : n ≤ n' ∧ n' ≤ n + 1 := by
  rcases h with ⟨-, rfl⟩ | ⟨-, rfl⟩ <;> omega

/-- With the copies of the next publication, what is held carries the numbers up to its number. -/
theorem Batched.joined {n' : Nat} (h : Batched number window offered out held m n)
    (hp : Follows number p n n') {copies : List Publication}
    (hcopies : copies = [p] ∨ copies = [p, p]) :
    labels number (held ++ copies) = Finset.Ioc m n' ∧ ∀ q ∈ held ++ copies, q ∈ offered ++ [p] := by
  constructor
  · obtain ⟨hle, -⟩ := hp.le
    have hm := h.le
    rw [labels_append, h.kept, hp.labels_copies hcopies]
    ext k
    simp only [Finset.mem_union, Finset.mem_Ioc]
    omega
  · intro q hq
    rcases List.mem_append.mp hq with hq | hq
    · exact List.mem_append_left _ (h.mem q (List.mem_append_right _ hq))
    · rcases hcopies with rfl | rfl <;> simp_all

theorem Batched.offer {n' : Nat} (hdrop : l.config.dropRate.atMost .zero = true)
    (h : Batched number l.config.window offered out l.held m n) (hp : Follows number p n n')
    (chance : Chance) :
    ∃ m', Batched number l.config.window (offered ++ [p]) (out ++ (l.offer chance p).2)
      (l.offer chance p).1.held m' n' := by
  have hcopies := copies_of_no_drops hdrop chance p
  obtain ⟨hjoin, hall⟩ := h.joined hp hcopies
  obtain ⟨hle, hone⟩ := hp.le
  have hbound := h.few
  have hroom := h.room
  have hm := h.le
  have hold : ∀ q ∈ offered, q ∈ offered ++ [p] := fun q hq => List.mem_append_left _ hq
  have hsome : (copies l.config chance p).isEmpty = false := by
    rcases hcopies with heq | heq <;> simp [heq]
  have hlength : 1 ≤ (copies l.config chance p).length := by
    rcases hcopies with heq | heq <;> simp [heq]
  simp only [Lossy.offer, hsome, Bool.false_eq_true, if_false]
  split_ifs with hnarrow hfits
  -- With a window of at most one nothing is held, and the copies leave at once.
  · have hempty : l.held = [] := by
      rw [← List.length_eq_zero_iff]
      omega
    rw [hempty, List.nil_append] at hjoin hall
    rw [hempty, List.length_nil] at hbound
    exact ⟨n', hempty ▸ h.leave hjoin (by omega) (by omega) hold hall⟩
  · refine ⟨m, ?_⟩
    dsimp only
    rw [List.append_nil]
    refine { h with kept := hjoin, le := by omega, few := ?_, room := ?_, mem := fun q hq => ?_ }
    · rw [List.length_append]
      omega
    · omega
    · rcases List.mem_append.mp hq with hq | hq
      · exact hold q (h.mem q (List.mem_append_left _ hq))
      · exact hall q hq
  -- The batch is full. A second copy may make it one longer than the window, but adds no number.
  · have hperm := arrange_perm chance.order (l.held ++ copies l.config chance p)
    refine ⟨n', h.leave ((labels_perm hperm).trans hjoin) (by omega) (by omega) hold ?_⟩
    exact fun q hq => hall q (hperm.subset hq)

theorem Batched.flush (h : Batched number l.config.window offered out l.held m n)
    (order : List Nat) :
    Batched number l.config.window offered (out ++ (l.flush order).2) [] n n := by
  have hperm := arrange_perm order l.held
  have hfew := h.few
  have hroom := h.room
  refine h.leave ((labels_perm hperm).trans h.kept) h.le (by omega) (fun p hp => hp) fun p hp => ?_
  exact h.mem p (List.mem_append_right _ (hperm.subset hp))

theorem flush_of_empty (hempty : l.held = []) (order : List Nat) : (l.flush order).2 = [] := by
  have hperm := arrange_perm order l.held
  rw [hempty, List.perm_nil] at hperm
  show arrange order l.held = []
  rw [hempty, hperm]

theorem offer_config (l : Lossy) (chance : Chance) (p : Publication) :
    (l.offer chance p).1.config = l.config := by
  simp only [Lossy.offer]
  split_ifs <;> rfl

/-- Offers publications one after another, each with its draws; gives what leaves. -/
def offerAll (l : Lossy) : List (Chance × Publication) → Lossy × List Publication
  | [] => (l, [])
  | (chance, p) :: rest =>
    let (l, leaving) := l.offer chance p
    let (l, more) := l.offerAll rest
    (l, leaving ++ more)

theorem offerAll_append (l : Lossy) (xs ys : List (Chance × Publication)) :
    l.offerAll (xs ++ ys) =
      (((l.offerAll xs).1.offerAll ys).1,
        (l.offerAll xs).2 ++ ((l.offerAll xs).1.offerAll ys).2) := by
  induction xs generalizing l with
  | nil => rfl
  | cons x rest ih => simp [offerAll, ih]

theorem offerAll_config (l : Lossy) (xs : List (Chance × Publication)) :
    (l.offerAll xs).1.config = l.config := by
  induction xs generalizing l with
  | nil => rfl
  | cons x rest ih => exact (ih _).trans (offer_config l x.1 x.2)

/-- Publications that carry 1, 2 and so on, apart from those that carry no number. -/
def Ascending (number : Publication → Option Nat) (ps : List Publication) : Prop :=
  ps.filterMap number = List.range' 1 (ps.filterMap number).length

theorem Ascending.of_append {xs : List Publication} (h : Ascending number (xs ++ [p])) :
    Ascending number xs ∧ Follows number p (xs.filterMap number).length
      ((xs ++ [p]).filterMap number).length := by
  unfold Ascending at h
  cases hp : number p with
  | none =>
    have hsame : (xs ++ [p]).filterMap number = xs.filterMap number := by
      simp [hp]
    rw [hsame] at h ⊢
    exact ⟨h, Or.inl ⟨hp, rfl⟩⟩
  | some k =>
    have hsplit : (xs ++ [p]).filterMap number = xs.filterMap number ++ [k] := by
      simp [hp]
    rw [hsplit, List.length_append, List.length_singleton, List.range'_1_concat] at h
    obtain ⟨hold, hlast⟩ := List.append_inj' h rfl
    have hk : k = (xs.filterMap number).length + 1 := by
      rw [List.singleton_inj.mp hlast, Nat.add_comm]
    refine ⟨hold, Or.inr ⟨hk ▸ hp, ?_⟩⟩
    rw [hsplit]
    simp

theorem batched_offerAll (hdrop : l.config.dropRate.atMost .zero = true) (hempty : l.held = [])
    {offers : List (Chance × Publication)} (hasc : Ascending number (offers.map Prod.snd)) :
    ∃ m, Batched number l.config.window (offers.map Prod.snd) (l.offerAll offers).2
      (l.offerAll offers).1.held m ((offers.map Prod.snd).filterMap number).length := by
  induction offers using List.reverseRecOn with
  | nil =>
    refine ⟨0, ?_⟩
    show Batched number l.config.window [] [] l.held 0 0
    rw [hempty]
    exact batched_nil number l.config.window
  | append_singleton past x ih =>
    rw [List.map_append] at hasc ⊢
    obtain ⟨hpast, hfollows⟩ := hasc.of_append
    obtain ⟨m, hm⟩ := ih hpast
    have hconfig := offerAll_config l past
    rw [← hconfig] at hm hdrop
    obtain ⟨m', hm'⟩ := hm.offer hdrop hfollows x.1
    rw [hconfig] at hm'
    refine ⟨m', ?_⟩
    rw [offerAll_append]
    simpa [offerAll] using hm'

/-- Once an empty layer without a drop rate has let everything out, all numbers are out, and at no point
on the way were as many of them ahead of the first gap as the window is wide. -/
theorem offerAll_flush (hdrop : l.config.dropRate.atMost .zero = true) (hempty : l.held = [])
    {offers : List (Chance × Publication)} (hasc : Ascending number (offers.map Prod.snd))
    (order : List Nat) :
    labels number ((l.offerAll offers).2 ++ ((l.offerAll offers).1.flush order).2) =
        Finset.Icc 1 ((offers.map Prod.snd).filterMap number).length ∧
      (∀ part, part <+: (l.offerAll offers).2 ++ ((l.offerAll offers).1.flush order).2 →
        (ahead (labels number part)).card ≤ l.config.window - 1) ∧
      ∀ p ∈ (l.offerAll offers).2 ++ ((l.offerAll offers).1.flush order).2,
        p ∈ offers.map Prod.snd := by
  obtain ⟨m, hm⟩ := batched_offerAll hdrop hempty hasc
  rw [← offerAll_config l offers] at hm
  have hend := hm.flush order
  refine ⟨hend.gone, ?_, fun p hp => hend.mem p (List.mem_append_left _ hp)⟩
  intro part hpart
  have hnear := hend.near part hpart
  rwa [offerAll_config] at hnear

end Lossy

end OrderedRelay
