import OrderedRelay.Proofs.Message.Consumers
import OrderedRelay.Proofs.Sequencing.Stamp
import OrderedRelay.Proofs.Topic.Routes
import Mathlib.Control.Monad.Basic

/-!
# Calls to everyone

A list that names everyone and nobody else is a star with bars around it. Those who read the list take a
call with it as a call to everyone, however many bars there are. The sender does so if there is at most
one bar at each end; with more of them the call is numbered and goes to the slot of an instance that is
named by the star.
-/

namespace OrderedRelay

namespace Header

variable {h : Header} {producer raw : String}

/-- A numbered header has no place in an order exactly if it lists everyone. -/
theorem placement_numbered_eq_none_iff (hproducer : h.producer? = some producer)
    (htext : h.consumersText? = some raw) (ns : List Nat) (incarnation : Binary64) :
    (h.numbered ns incarnation).placement = .none ↔ everyone ∈ Consumers.decode raw := by
  have hlist : (h.numbered ns incarnation).consumers = Consumers.decode raw := by
    rw [consumers, consumersText?_numbered, htext]
  unfold placement
  rw [isSequenced_numbered hproducer htext, hlist]
  by_cases hall : everyone ∈ Consumers.decode raw
  · simp [hall]
  · simp only [Bool.not_true, Bool.false_or, List.contains_eq_mem, hall, decide_false,
      Bool.false_eq_true, if_false, iff_false]
    split <;> simp

end Header

namespace Identity

variable {i : Identity} {h : Header} {raw : String} {route : Route}

/-- A call goes to everyone if the framed text names everyone, else to the one slot it names. -/
theorem VerbRoute.call_cases (htaken : i.VerbRoute .call raw route) :
    ∃ consumer, Consumers.decode raw = [consumer] ∧
      ((Consumers.unframed raw = Header.everyone ∧ consumer = Header.everyone ∧
          route = ⟨i.globalSlotsTopic, none⟩) ∨
        Consumers.unframed raw ≠ Header.everyone ∧ route = ⟨i.slotTopic consumer, some [consumer]⟩) := by
  cases htaken with
  | broadcast heveryone =>
    have hdecode := Consumers.decode_of_unframed (c := '*') rfl (by decide) heveryone
    exact ⟨_, hdecode, Or.inl ⟨heveryone, rfl, rfl⟩⟩
  | direct _ hnamed hdecode => exact ⟨_, hdecode, Or.inr ⟨hnamed rfl, rfl⟩⟩

theorem VerbRoute.call_barred {a b : Nat}
    (htaken : i.VerbRoute .call (Consumers.barred a b Header.everyone) route) :
    route = if a ≤ 1 ∧ b ≤ 1 then ⟨i.globalSlotsTopic, none⟩
      else ⟨i.slotTopic Header.everyone, some [Header.everyone]⟩ := by
  have hframe : Consumers.unframed (Consumers.barred a b Header.everyone) = Header.everyone ↔
      a ≤ 1 ∧ b ≤ 1 := Consumers.unframed_barred_eq_iff (c := '*') rfl (by decide) a b
  have hdecode : Consumers.decode (Consumers.barred a b Header.everyone) = [Header.everyone] :=
    (Consumers.decode_eq_singleton_iff rfl (by decide)).mpr ⟨a, b, rfl⟩
  obtain ⟨consumer, hone, ⟨heveryone, -, hroute⟩ | ⟨hnamed, hroute⟩⟩ := htaken.call_cases
  · rw [hroute, if_pos (hframe.mp heveryone)]
  · obtain rfl := List.singleton_inj.mp (hdecode.symm.trans hone)
    rw [hroute, if_neg fun hbars => hnamed (hframe.mpr hbars)]

theorem ordinary_of_route (hdomain : i.domain ≠ Topic.debugChannel)
    (hmark : h.text? Header.targetField ≠ some Topic.logLevel)
    (hroute : i.route i.domain h = .ok route) :
    ∃ verb raw, i.Ordinary h verb raw ∧ i.VerbRoute verb raw route := by
  cases accepted_of_route hroute with
  | heartbeat hbeats =>
    -- The heartbeat target is longer than the domain.
    have hlength := congrArg (fun s => s.toList.length) hbeats
    simp [beatsTarget] at hlength
  | debug _ hdebug => exact absurd hdebug hdomain
  | log _ hlog => exact absurd hlog hmark
  | ordinary _ hordinary htaken => exact ⟨_, _, hordinary, htaken⟩

/-- Sender and receivers mean the same by a call to everyone exactly if the star has at most one bar at
each end. With other lists no call is for everyone. -/
theorem call_to_everyone_by_bars (hdomain : i.domain ≠ Topic.debugChannel)
    (hmark : h.text? Header.targetField ≠ some Topic.logLevel) (hcall : h.verb? = some .call)
    (htext : h.consumersText? = some raw) (hroute : i.route i.domain h = .ok route) :
    ((route = ⟨i.globalSlotsTopic, none⟩ ↔ Consumers.decode raw = [Header.everyone]) ↔
        ∀ a b, raw = Consumers.barred a b Header.everyone → a ≤ 1 ∧ b ≤ 1) ∧
      (∀ a b, raw = Consumers.barred a b Header.everyone → route =
        if a ≤ 1 ∧ b ≤ 1 then ⟨i.globalSlotsTopic, none⟩
        else ⟨i.slotTopic Header.everyone, some [Header.everyone]⟩) ∧
      (∀ consumer, consumer ≠ Header.everyone → Consumers.decode raw = [consumer] →
        route = ⟨i.slotTopic consumer, some [consumer]⟩) ∧
      ∀ ns incarnation, (h.numbered ns incarnation).placement = .none ↔
        Consumers.decode raw = [Header.everyone] := by
  obtain ⟨verb, raw', hordinary, htaken⟩ := ordinary_of_route hdomain hmark hroute
  obtain rfl := Option.some.inj (hcall.symm.trans hordinary.verb)
  obtain rfl := Option.some.inj (htext.symm.trans hordinary.consumers)
  have hstar : Consumers.decode raw = [Header.everyone] ↔
      ∃ a b, raw = Consumers.barred a b Header.everyone :=
    Consumers.decode_eq_singleton_iff rfl (by decide)
  have hbarred : ∀ a b, raw = Consumers.barred a b Header.everyone → route =
      if a ≤ 1 ∧ b ≤ 1 then ⟨i.globalSlotsTopic, none⟩
      else ⟨i.slotTopic Header.everyone, some [Header.everyone]⟩ := by
    rintro a b rfl
    exact htaken.call_barred
  obtain ⟨consumer, hone, hcases⟩ := htaken.call_cases
  refine ⟨⟨fun hagree a b hraw => ?_, fun hfew => ⟨fun hglobal => ?_, fun hdecode => ?_⟩⟩, hbarred,
    fun other hother hdecode => ?_, fun ns incarnation => ?_⟩
  · by_contra hmany
    have hglobal := hagree.mpr (hstar.mpr ⟨a, b, hraw⟩)
    rw [hbarred a b hraw, if_neg hmany] at hglobal
    cases congrArg Route.sequenceFor hglobal
  · rcases hcases with ⟨-, rfl, -⟩ | ⟨-, hslot⟩
    · exact hone
    · rw [hslot] at hglobal
      cases congrArg Route.sequenceFor hglobal
  · obtain ⟨a, b, hraw⟩ := hstar.mp hdecode
    rw [hbarred a b hraw, if_pos (hfew a b hraw)]
  · obtain rfl := List.singleton_inj.mp (hdecode.symm.trans hone)
    rcases hcases with ⟨-, heveryone, -⟩ | ⟨-, hslot⟩
    · exact absurd heveryone hother
    · exact hslot
  · rw [Header.placement_numbered_eq_none_iff hordinary.producer htext, hone]
    simp [eq_comm]

def sampleCall : Header :=
  .ofList [(Header.producerField, .text "S"), (Header.verbField, .text "__call__"),
    (Header.consumersField, .text "||*||")]

theorem route_sampleCall : (⟨"bus", "S"⟩ : Identity).route "bus" sampleCall =
    .ok ⟨"bus/slots/*", some [Header.everyone]⟩ := by
  decide +kernel

theorem call_to_everyone_by_bars_sample :
    Consumers.barred 2 2 Header.everyone = "||*||" ∧
      (∀ ns incarnation, (sampleCall.numbered ns incarnation).placement = .none) ∧
      ¬ ((⟨"bus/slots/*", some ["*"]⟩ : Route) = ⟨"bus/global_slots", none⟩ ↔
        Consumers.decode "||*||" = ["*"]) := by
  have hraw : Consumers.barred 2 2 Header.everyone = "||*||" := by decide +kernel
  have hdecode : Consumers.decode "||*||" = [Header.everyone] := by decide +kernel
  have htext : sampleCall.consumersText? = some "||*||" := by decide +kernel
  obtain ⟨hexact, -, -, hreceiver⟩ := call_to_everyone_by_bars (i := ⟨"bus", "S"⟩) (h := sampleCall)
    (by decide) (by decide +kernel) (by decide +kernel) htext route_sampleCall
  refine ⟨hraw, fun ns incarnation => (hreceiver ns incarnation).mpr hdecode, fun hagree => ?_⟩
  obtain ⟨hfew, -⟩ := hexact.mp hagree 2 2 hraw.symm
  omega

/-- The route and the list of a call disagree: receivers take it as one for everyone. -/
theorem call_to_everyone_numbered :
    (⟨"bus", "S"⟩ : Identity).route "bus" sampleCall = .ok ⟨"bus/slots/*", some [Header.everyone]⟩ ∧
      sampleCall.verb? = some .call ∧ sampleCall.consumers = [Header.everyone] ∧
      (sampleCall.numbered [1] .one).placement = .none := by
  refine ⟨route_sampleCall, ?_, ?_, ?_⟩
  · decide +kernel
  · decide +kernel
  · decide +kernel

end Identity

end OrderedRelay
