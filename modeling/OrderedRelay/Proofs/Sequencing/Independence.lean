import OrderedRelay.Proofs.Sequencing.Answers
import Mathlib.Data.List.InsertIdx

/-!
# Producers apart from one another

A run of an engine falls apart by producers: the answers to the messages in the order of one of them are
those of the run of these messages alone. A message outside of any order, or for everyone, comes out at
once wherever it is put into a run, and nothing else in the run changes.
-/

namespace OrderedRelay

/-- The header has a place in the order of the producer, whether it can be made out or not: it states
all there is to a place, and not for everyone. A producer of another kind than text counts as empty. -/
def Header.isOrderedBy (producer : String) (h : Header) : Bool :=
  h.isSequenced && !h.consumers.contains Header.everyone && h.producer?.getD "" == producer

namespace Header

variable {h : Header} {producer : String}

theorem isOrderedBy_iff :
    h.isOrderedBy producer = true ↔ h.placement.producer? = some producer := by
  unfold isOrderedBy placement
  cases hsequenced : h.isSequenced with
  | false => simp [Placement.producer?]
  | true =>
    by_cases hall : everyone ∈ h.consumers
    · simp [Placement.producer?, hall]
    · cases htime : h.timestamp? <;> simp [Placement.producer?, hall]

theorem placement_of_bypass (hbypass : h.has producerField = false ∨ h.has consumersField = false ∨
    h.has orderNumbersField = false ∨ everyone ∈ h.consumers) : h.placement = .none := by
  unfold placement isSequenced
  rcases hbypass with hnone | hnone | hnone | hall
  · simp [hnone]
  · simp [hnone]
  · simp [hnone]
  · simp [hall]

end Header

namespace Engine

variable {α : Type} {e f : Engine α} {producer : String} {c : Header × α}

/-- The calls of a run with the answer to each. -/
def exchanges (e : Engine α) (calls : List (Header × α)) :
    List ((Header × α) × Verdict α) := calls.zip (e.run calls).2

theorem exchanges_cons (e : Engine α) (c : Header × α) (rest : List (Header × α)) :
    e.exchanges (c :: rest) = (c, (e.check c.1 c.2).2) :: (e.check c.1 c.2).1.exchanges rest := rfl

theorem run_cons_fst (e : Engine α) (c : Header × α) (rest : List (Header × α)) :
    (e.run (c :: rest)).1 = ((e.check c.1 c.2).1.run rest).1 := rfl

/-- Of two engines that know the same of a producer, one may be given the producer's messages alone. -/
theorem exchanges_apart (hconsumer : e.consumer = f.consumer) (hpolicy : e.policy = f.policy)
    (ht : e.tracking? producer = f.tracking? producer) (calls : List (Header × α)) :
    (e.exchanges calls).filter (fun x => x.1.1.isOrderedBy producer) =
        f.exchanges (calls.filter fun c => c.1.isOrderedBy producer) ∧
      (e.run calls).1.tracking? producer =
        (f.run (calls.filter fun c => c.1.isOrderedBy producer)).1.tracking? producer := by
  induction calls generalizing e f with
  | nil => exact ⟨rfl, ht⟩
  | cons c rest ih =>
    obtain ⟨hec, hep⟩ := check_consumer e c.1 c.2
    rw [exchanges_cons]
    cases hown : c.1.isOrderedBy producer with
    -- Both engines are given the message: they answer alike and go on alike.
    | true =>
      obtain ⟨hfc, hfp⟩ := check_consumer f c.1 c.2
      obtain ⟨hanswer, hafter⟩ := check_congr hconsumer hpolicy (h := c.1) (fun p hp => by
        rw [Header.isOrderedBy_iff.mp hown] at hp
        obtain rfl := Option.some.inj hp
        exact tracking_congr ht) c.2
      obtain ⟨hrest, hend⟩ := ih (hec.trans (hconsumer.trans hfc.symm))
        (hep.trans (hpolicy.trans hfp.symm)) (hafter producer ht)
      simp only [List.filter_cons, hown, if_true]
      rw [exchanges_cons, hanswer, hrest]
      exact ⟨rfl, hend⟩
    -- The message is kept from the second engine, and leaves what the first knows of the producer.
    | false =>
      have hother : c.1.placement.producer? ≠ some producer := by
        intro hp
        rw [Header.isOrderedBy_iff.mpr hp] at hown
        cases hown
      obtain ⟨hrest, hend⟩ := ih (hec.trans hconsumer) (hep.trans hpolicy)
        ((tracking?_check_other hother c.2).trans ht)
      simp only [List.filter_cons, hown, Bool.false_eq_true, if_false]
      exact ⟨hrest, hend⟩

theorem exchanges_insertIdx (hplace : c.1.placement = .none) (e : Engine α)
    (calls : List (Header × α)) (i : Nat) :
    e.exchanges (calls.insertIdx i c) = (e.exchanges calls).insertIdx i (c, .ok [c.2]) ∧
      (e.run (calls.insertIdx i c)).1 = (e.run calls).1 := by
  induction calls generalizing e i with
  | nil =>
    cases i with
    | zero =>
      rw [List.insertIdx_zero, exchanges_cons, run_cons_fst, check_of_none hplace]
      exact ⟨rfl, rfl⟩
    | succ i => exact ⟨rfl, rfl⟩
  | cons d rest ih =>
    cases i with
    | zero =>
      rw [List.insertIdx_zero, List.insertIdx_zero, exchanges_cons, run_cons_fst,
        check_of_none hplace]
      exact ⟨rfl, rfl⟩
    | succ i =>
      obtain ⟨hexchanges, hend⟩ := ih (e.check d.1 d.2).1 i
      rw [List.insertIdx_succ_cons, exchanges_cons, exchanges_cons, List.insertIdx_succ_cons,
        hexchanges]
      exact ⟨rfl, hend⟩

/-- The messages in the order of a producer are answered, and leave its tracking, as if they had come
without the others. A message outside of any order or for everyone, put in at any point of a run,
releases itself at once; all other answers and every tracking are as without it. -/
theorem producers_do_not_interfere (e : Engine α) (calls : List (Header × α)) :
    (∀ producer,
      (e.exchanges calls).filter (fun x => x.1.1.isOrderedBy producer) =
          e.exchanges (calls.filter fun c => c.1.isOrderedBy producer) ∧
        (e.run calls).1.tracking? producer =
          (e.run (calls.filter fun c => c.1.isOrderedBy producer)).1.tracking? producer) ∧
    ∀ c : Header × α, c.1.has Header.producerField = false ∨ c.1.has Header.consumersField = false ∨
        c.1.has Header.orderNumbersField = false ∨ Header.everyone ∈ c.1.consumers →
      ∀ i, e.exchanges (calls.insertIdx i c) = (e.exchanges calls).insertIdx i (c, .ok [c.2]) ∧
        (e.run (calls.insertIdx i c)).1 = (e.run calls).1 := by
  refine ⟨fun producer => exchanges_apart rfl rfl rfl calls, fun c hbypass i => ?_⟩
  exact exchanges_insertIdx (Header.placement_of_bypass hbypass) e calls i

/-- Number 2 waits while a message for everyone from the same producer comes, then number 1. -/
theorem producers_do_not_interfere_sample :
    let toEveryone : Header × Char := (.ofList [(Header.producerField, .text "P"),
      (Header.consumersField, .text "|*|"), (Header.orderNumbersField, .text "1")], 'x')
    let calls := [sampleCall 5 "2" 'b', sampleCall 5 "1" 'a']
    ((fresh "C" .default).exchanges (calls.insertIdx 1 toEveryone)).map Prod.snd =
      [.ok [], .ok ['x'], .ok ['a', 'b']] := by
  intro toEveryone calls
  have hall : Header.everyone ∈ toEveryone.1.consumers := by decide +kernel
  obtain ⟨-, hbypass⟩ := producers_do_not_interfere (fresh "C" .default) calls
  rw [(hbypass toEveryone (Or.inr (Or.inr (Or.inr hall))) 1).1]
  decide +kernel

end Engine

end OrderedRelay
