import OrderedRelay.Network.Basic
import OrderedRelay.Proofs.Message.Envelope
import OrderedRelay.Proofs.Relay.Prepare
import OrderedRelay.Proofs.Sequencing.Range

/-!
# Published headers as receivers take them

Whatever header a caller hands in, what goes out is a header that no engine refuses: without a place in
an order if the route has none, and otherwise with one number for each consumer that a receiver reads
off the list and with the incarnation of the sender. A network that carries envelopes changes nothing
about that.
-/

namespace OrderedRelay

/-- What receivers can rely on in a header that was published on a route. -/
structure Header.Understood (h : Header) (route : Route) (incarnation : Binary64) : Prop where
  unrefused : ∀ {α : Type} (e : Engine α) (item : α) fault, (e.check h item).2 ≠ .error fault
  accepted : ∀ {α : Type} (consumer : String) (policy : Policy) (calls : List (Header × α)) (item : α),
    let e := ((Engine.fresh consumer policy).run calls).1
    (∀ producer, (e.tracking producer).last ≠ topNumber) → ∃ items, (e.check h item).2 = .ok items
  unnumbered : route.sequenceFor = none →
    ∀ {α : Type} (e : Engine α) (item : α), e.check h item = (e, .ok [item])
  numbered : ∀ cs, route.sequenceFor = some cs → h.consumers = cs ∧
    h.timestamp? = some incarnation ∧ ∃ raw ns, h.orderNumbersText? = some raw ∧
      OrderNumbers.decode raw = .ok ns ∧ ns.length = cs.length

/-! ### Headers -/

namespace Header

variable {α : Type} {h : Header} {ns : List Nat} {incarnation : Binary64} {producer raw : String}
  {route : Route} {cs : List String}

theorem placement_everyone (hall : everyone ∈ h.consumers) : h.placement = .none := by
  simp [placement, hall]

theorem check_unsequenced (hplain : h.isSequenced = false) (e : Engine α) (item : α) :
    e.check h item = (e, .ok [item]) := by
  have hnone : h.placement = .none := by simp [placement, hplain]
  rw [Engine.check, hnone]

theorem not_isFaulty_unsequenced (hplain : h.isSequenced = false) : h.isFaulty = false := by
  simp [isFaulty, placement, hplain]

/-- A header with a number for each of its consumers has a place that can be made out. -/
theorem not_isFaulty_numbered (hproducer : h.producer? = some producer)
    (htext : h.consumersText? = some raw) (hlength : ns.length = (Consumers.decode raw).length)
    (hbound : ∀ n ∈ ns, n < Decimal.bound64) (hfinite : incarnation.isFinite = true) :
    (h.numbered ns incarnation).isFaulty = false := by
  by_cases hall : everyone ∈ Consumers.decode raw
  · have hlisted : everyone ∈ (h.numbered ns incarnation).consumers := by
      rw [consumers, consumersText?_numbered, htext]
      exact hall
    rw [isFaulty, placement_everyone hlisted]
  · rw [isFaulty, placement_numbered hproducer htext hall hfinite]
    simp [OrderNumbers.decode_encode hbound, hlength]

theorem unrefused_of_not_isFaulty (hh : h.isFaulty = false) (e : Engine α) (item : α)
    (fault : SequenceFault) : (e.check h item).2 ≠ .error fault := by
  intro hrefused
  have hfaulty := ((Engine.check_fails_iff e h item).mp ⟨fault, hrefused⟩).1
  rw [hh] at hfaulty
  cases hfaulty

theorem accepted_of_not_isFaulty (hh : h.isFaulty = false) (consumer : String) (policy : Policy)
    (calls : List (Header × α)) (item : α)
    (hlow : ∀ producer,
      (((Engine.fresh consumer policy).run calls).1.tracking producer).last ≠ topNumber) :
    ∃ items, (((Engine.fresh consumer policy).run calls).1.check h item).2 = .ok items :=
  Engine.check_accepts ((Engine.inRange_fresh consumer policy).run calls).fits hlow hh item

theorem understood_unnumbered (hplain : h.isSequenced = false) (hroute : route.sequenceFor = none) :
    h.Understood route incarnation where
  unrefused := unrefused_of_not_isFaulty (not_isFaulty_unsequenced hplain)
  accepted := accepted_of_not_isFaulty (not_isFaulty_unsequenced hplain)
  unnumbered _ _ e item := check_unsequenced hplain e item
  numbered cs hcs := by
    rw [hroute] at hcs
    cases hcs

theorem understood_numbered (hroute : route.sequenceFor = some cs)
    (hproducer : h.producer? = some producer) (htext : h.consumersText? = some raw)
    (hcs : cs = Consumers.decode raw) (hlength : ns.length = cs.length)
    (hbound : ∀ n ∈ ns, n < Decimal.bound64) (hfinite : incarnation.isFinite = true) :
    (h.numbered ns incarnation).Understood route incarnation where
  unrefused := unrefused_of_not_isFaulty
    (not_isFaulty_numbered hproducer htext (hcs ▸ hlength) hbound hfinite)
  accepted := accepted_of_not_isFaulty
    (not_isFaulty_numbered hproducer htext (hcs ▸ hlength) hbound hfinite)
  unnumbered hnone := by
    rw [hroute] at hnone
    cases hnone
  numbered ds hds := by
    obtain rfl := Option.some.inj (hroute.symm.trans hds)
    refine ⟨?_, timestamp?_numbered h ns hfinite, _, ns, orderNumbersText?_numbered h ns incarnation,
      OrderNumbers.decode_encode hbound, hlength⟩
    rw [consumers, consumersText?_numbered, htext, hcs]

theorem Portable.numbered (hh : h.Portable) (ns : List Nat) (hfinite : incarnation.isFinite = true)
    (hreads : Json.ReadsBack incarnation) : (h.numbered ns incarnation).Portable := by
  have hbelow : 0 < Envelope.headerLevels := by decide
  have htext : (Json.text (OrderNumbers.encode ns)).Portable := ⟨trivial, hbelow, nofun⟩
  have hreal : (Json.ofBinary64 incarnation).Portable := by
    rw [Json.ofBinary64, if_pos hfinite]
    refine ⟨hfinite, hbelow, fun x hx => ?_⟩
    obtain rfl : x = incarnation := List.mem_singleton.mp hx
    exact hreads
  exact (hh.set htext).set hreal

end Header

/-! ### Writes -/

namespace Write

variable {i : Identity} {w : Write} {route : Route} {ns : List Nat} {incarnation : Binary64}

theorem understood_published (hroute : i.route w.target w.header = .ok route)
    (hlength : ns.length = route.takers.length) (hbound : ∀ n ∈ ns, n < Decimal.bound64)
    (hfinite : incarnation.isFinite = true) :
    (w.published route ns incarnation).message.header.Understood route incarnation := by
  cases hcs : route.sequenceFor with
  | none =>
    simp only [published, hcs]
    exact Header.understood_unnumbered (Relay.not_isSequenced_header w) hcs
  | some cs =>
    obtain ⟨hproducer, raw, htext, hlist⟩ := Identity.fields_of_route hroute hcs
    simp only [published, hcs]
    rw [Route.takers, hcs, Option.getD_some] at hlength
    exact Header.understood_numbered hcs hproducer htext hlist hlength hbound hfinite

theorem portable_published (hportable : w.message.header.Portable) (route : Route) (ns : List Nat)
    (hfinite : incarnation.isFinite = true) (hreads : Json.ReadsBack incarnation) :
    (w.published route ns incarnation).message.header.Portable := by
  have hheader : w.header.Portable := hportable.remove
  cases hcs : route.sequenceFor with
  | none =>
    simp only [published, hcs]
    exact hheader
  | some cs =>
    simp only [published, hcs]
    exact hheader.numbered ns hfinite hreads

end Write

namespace Network

/-- What a connected relay publishes for a write is understood by every receiver, as it is and after
it has travelled in an envelope. -/
theorem write_understood {n : Network} {i : Nat} {r : Relay} {w : Write} {route : Route}
    (hr : n.relay? i = some r) (hconnected : n.isConnected i = true)
    (hroute : r.identity.route w.target w.header = .ok route)
    (hfinite : r.incarnation.isFinite = true) :
    ∃ r' p, n.write i w.chance w.target w.message w.priority w.ttl =
        ((n.updateRelay i fun _ => r').onRelayLink i fun l m => l.publish m w.chance p) ∧
      p.topic = route.topic ∧ p.message.body = w.message.body ∧
      p.message.header.Understood route r.incarnation ∧
      (w.message.header.Portable → Json.ReadsBack r.incarnation →
        Envelope.decode (Envelope.payload p.message) = .ok p.message) := by
  refine ⟨(r.prepare w.target w.message w.priority w.ttl).1,
    w.published route (r.counters.nextAll route.takers).2 r.incarnation, ?_, rfl, rfl,
    Write.understood_published hroute (Counters.length_nextAll r.counters _)
      (fun n => Counters.lt_of_mem_nextAll) hfinite,
    fun hportable hreads =>
      Envelope.decode_payload (Write.portable_published hportable route _ hfinite hreads)⟩
  rw [write, hr, hconnected]
  simp only [Relay.prepare_ok hroute]

/-- A relay over a transport for rehearsals, connected. -/
def sampleRehearsal : Network where
  links := [{ carrier := .mock { connected := true } }]
  nodes := [some ⟨0, .create { domain := "bus", instanceId := "S" } (.ofInt 7)⟩]

/-- A signal with numbers and a timestamp that are not the sender's to give. -/
def sampleSignal : Write where
  target := "bus"
  message := ⟨.ofList [(Header.producerField, .text "S"), (Header.verbField, .text "moved"),
    (Header.consumersField, .text "|R||X|"), (Header.orderNumbersField, .text "9"),
    (Header.timestampField, .integer 3)], [1, 2]⟩
  chance := ⟨.zero, .zero, []⟩

theorem write_understood_sample :
    ∃ r' p, sampleRehearsal.write 0 sampleSignal.chance "bus" sampleSignal.message 0 0 =
        ((sampleRehearsal.updateRelay 0 fun _ => r').onRelayLink 0
          fun l m => l.publish m sampleSignal.chance p) ∧
      p.message.header.Understood ⟨"bus/signals/S/moved", some ["R", "X"]⟩ (.ofInt 7) ∧
      Envelope.decode (Envelope.payload p.message) = .ok p.message := by
  have hroute : (Relay.create { domain := "bus", instanceId := "S" } (.ofInt 7)).identity.route
      sampleSignal.target sampleSignal.header =
        .ok ⟨"bus/signals/S/moved", some ["R", "X"]⟩ := by decide +kernel
  have hportable : sampleSignal.message.header.Portable := by
    refine ⟨⟨by decide +kernel, ?_⟩, by decide +kernel, by decide +kernel⟩
    exact ⟨trivial, ⟨by decide, by decide⟩, trivial, trivial, trivial, trivial⟩
  obtain ⟨r', p, hwrite, -, -, hunderstood, htravels⟩ := write_understood
    (show sampleRehearsal.relay? 0 = some _ from rfl) (show sampleRehearsal.isConnected 0 = true by rfl)
    hroute (by decide +kernel)
  exact ⟨r', p, hwrite, hunderstood, htravels hportable (by decide +kernel)⟩

end Network

end OrderedRelay
