import OrderedRelay.Proofs.Message.OrderNumbers
import OrderedRelay.Proofs.Sequencing.Arrivals
import OrderedRelay.Sequencing.Counters

/-!
# Stamped headers

A stamped header states the numbers it was given: every other field is as it was, and each of its
consumers finds its own number in its seat.
-/

namespace OrderedRelay

namespace Header

variable {h : Header} {ns : List Nat} {incarnation : Binary64} {consumer producer raw key : String}

/-- A header with order numbers and the incarnation of its producer. -/
def numbered (h : Header) (ns : List Nat) (incarnation : Binary64) : Header :=
  (h.set orderNumbersField (.text (OrderNumbers.encode ns))).set timestampField
    (.ofBinary64 incarnation)

theorem get?_numbered (h : Header) (ns : List Nat) (incarnation : Binary64) (key : String) :
    (h.numbered ns incarnation).get? key =
      if key = timestampField then some (.ofBinary64 incarnation)
      else if key = orderNumbersField then some (.text (OrderNumbers.encode ns))
      else h.get? key := by
  rw [numbered, get?_set, get?_set]

theorem text?_numbered (hts : key ≠ timestampField) (hns : key ≠ orderNumbersField) :
    (h.numbered ns incarnation).text? key = h.text? key := by
  rw [text?, get?_numbered, if_neg hts, if_neg hns, text?]

theorem producer?_numbered (h : Header) (ns : List Nat) (incarnation : Binary64) :
    (h.numbered ns incarnation).producer? = h.producer? :=
  text?_numbered (by decide) (by decide)

theorem consumersText?_numbered (h : Header) (ns : List Nat) (incarnation : Binary64) :
    (h.numbered ns incarnation).consumersText? = h.consumersText? :=
  text?_numbered (by decide) (by decide)

theorem orderNumbersText?_numbered (h : Header) (ns : List Nat) (incarnation : Binary64) :
    (h.numbered ns incarnation).orderNumbersText? = some (OrderNumbers.encode ns) := by
  rw [orderNumbersText?, text?, get?_numbered, if_neg (by decide), if_pos rfl]
  rfl

theorem timestamp?_numbered (h : Header) (ns : List Nat) (hfinite : incarnation.isFinite = true) :
    (h.numbered ns incarnation).timestamp? = some incarnation := by
  rw [timestamp?, binary64?, get?_numbered, if_pos rfl, Json.ofBinary64, if_pos hfinite]
  rfl

theorem has_of_text? {t : String} (h' : h.text? key = some t) : h.has key = true := by
  unfold text? get? at h'
  unfold has Table.has
  cases hget : Table.get? key h.fields with
  | none =>
    rw [hget] at h'
    cases h'
  | some v => rfl

theorem isSequenced_numbered (hproducer : h.producer? = some producer)
    (hconsumers : h.consumersText? = some raw) : (h.numbered ns incarnation).isSequenced = true := by
  have h₁ := has_of_text? ((producer?_numbered h ns incarnation).trans hproducer)
  have h₂ := has_of_text? ((consumersText?_numbered h ns incarnation).trans hconsumers)
  have h₃ := has_of_text? (orderNumbersText?_numbered h ns incarnation)
  simp [isSequenced, h₁, h₂, h₃]

theorem placement_numbered (hproducer : h.producer? = some producer)
    (hconsumers : h.consumersText? = some raw) (hnobody : everyone ∉ Consumers.decode raw)
    (hfinite : incarnation.isFinite = true) :
    (h.numbered ns incarnation).placement =
      .numbered producer incarnation (Consumers.decode raw) (OrderNumbers.encode ns) := by
  have hlist : (h.numbered ns incarnation).consumers = Consumers.decode raw := by
    rw [consumers, consumersText?_numbered, hconsumers]
  have hnot : (Consumers.decode raw).contains everyone = false := by simpa using hnobody
  unfold placement
  rw [isSequenced_numbered hproducer hconsumers, hlist, hnot, timestamp?_numbered h ns hfinite,
    producer?_numbered, hproducer, orderNumbersText?_numbered]
  rfl

theorem seat?_numbered (hproducer : h.producer? = some producer)
    (hconsumers : h.consumersText? = some raw) (hnobody : everyone ∉ Consumers.decode raw)
    (hlength : ns.length = (Consumers.decode raw).length)
    (hbound : ∀ n ∈ ns, n < Decimal.bound64) (hfinite : incarnation.isFinite = true)
    (consumer : String) :
    (h.numbered ns incarnation).seat? consumer =
      if Engine.numberFor consumer (Consumers.decode raw) ns ≠ 0
      then some ⟨producer, incarnation, Engine.numberFor consumer (Consumers.decode raw) ns⟩
      else none := by
  rw [seat?, placement_numbered hproducer hconsumers hnobody hfinite]
  simp only [OrderNumbers.decode_encode hbound, hlength, true_and]

end Header

end OrderedRelay
