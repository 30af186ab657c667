import OrderedRelay.Proofs.Message.Envelope

/-!
# Messages and their wire texts

A message is read from its own wire text exactly if its header nests no deeper than a reader allows, and
is refused otherwise. A reader accepts more texts than are ever written, but what it makes of any of
them has a header within the limit, and so has a wire text that is read as the same message. About
floating-point numbers it is only asked that each one in the message reads as it is written.
-/

namespace OrderedRelay

/-- The floating-point numbers of the header read as they are written. -/
def Message.ReadsBack (m : Message) : Prop := ∀ x ∈ m.header.toJson.reals, Json.ReadsBack x

namespace Header

variable {h : Header}

theorem shallow_iff :
    h.toJson.depth ≤ Envelope.headerLevels ↔ ∀ field ∈ h.fields, field.2.depth ≤ 125 := by
  rw [← Json.depthFields_le_iff]
  exact Nat.succ_le_succ_iff

end Header

namespace Envelope

variable {m : Message} {bs : List UInt8}

theorem within_of_header? {raw : Json.Raw} {h : Header} (hraw : header? raw = some h) :
    Json.Within headerLevels h.toJson := by
  unfold header? at hraw
  split at hraw
  · rename_i fields hvalue
    obtain rfl := Option.some.inj hraw
    exact Json.within_of_value? raw hvalue
  · cases hraw

/-- Whatever payload a message is read from, its header is well formed and within the limit. -/
theorem within_of_decode (h : decode bs = .ok m) : Json.Within headerLevels m.header.toJson := by
  unfold decode at h
  split at h
  · cases h
  · split at h
    · rename_i header text hheader htext
      split at h
      · obtain rfl := Except.ok.inj h
        exact within_of_header? hheader
      · cases h
    · cases h

theorem portable_of_decode (h : decode bs = .ok m) (hreads : m.ReadsBack) : m.header.Portable := by
  obtain ⟨hwf, hdepth⟩ := within_of_decode h
  exact ⟨hwf, hdepth, hreads⟩

theorem eq_of_payload_eq {a b : Message} (ha : a.header.Portable) (hb : b.header.Portable)
    (h : payload a = payload b) : a = b := by
  have hread : decode (payload a) = .ok b := by rw [h, decode_payload hb]
  exact Except.ok.inj ((decode_payload ha).symm.trans hread)

theorem payload_read_iff (hwf : m.header.WellFormed) (hreads : m.ReadsBack) :
    decode (payload m) = .ok m ↔ ∀ field ∈ m.header.fields, field.2.depth ≤ 125 := by
  rw [decode_payload_eq hwf hreads, ← Header.shallow_iff]
  split_ifs with hshallow <;> simp [hshallow]

theorem payload_refused (hwf : m.header.WellFormed) (hreads : m.ReadsBack)
    (hdeep : ∃ field ∈ m.header.fields, 125 < field.2.depth) :
    decode (payload m) = .error .form := by
  have hnot : ¬ m.header.toJson.depth ≤ headerLevels := by
    rw [Header.shallow_iff]
    intro hall
    obtain ⟨field, hfield, hdepth⟩ := hdeep
    exact absurd (hall field hfield) (Nat.not_le_of_lt hdepth)
  rw [decode_payload_eq hwf hreads, if_neg hnot]

/-- A wire text is read as the message it was written for exactly within the limit on nesting, and it
belongs to no other message; what is read from any payload has a wire text that is read so too. -/
theorem wire_text_round_trip :
    (∀ m : Message, m.header.WellFormed → m.ReadsBack →
      (decode (payload m) = .ok m ↔ ∀ field ∈ m.header.fields, field.2.depth ≤ 125) ∧
      ((∃ field ∈ m.header.fields, 125 < field.2.depth) → decode (payload m) = .error .form)) ∧
    (∀ a b : Message, a.header.WellFormed → b.header.WellFormed → a.ReadsBack → b.ReadsBack →
      (∀ field ∈ a.header.fields, field.2.depth ≤ 125) →
      (∀ field ∈ b.header.fields, field.2.depth ≤ 125) → payload a = payload b → a = b) ∧
    ∀ (bs : List UInt8) (m : Message), decode bs = .ok m → m.ReadsBack →
      decode (payload m) = .ok m := by
  refine ⟨fun m hwf hreads => ⟨payload_read_iff hwf hreads, payload_refused hwf hreads⟩, ?_, ?_⟩
  · intro a b hwfa hwfb ha hb hshallowa hshallowb heq
    exact eq_of_payload_eq ⟨hwfa, Header.shallow_iff.mpr hshallowa, ha⟩
      ⟨hwfb, Header.shallow_iff.mpr hshallowb, hb⟩ heq
  · intro bs m hdecode hreads
    exact decode_payload (portable_of_decode hdecode hreads)

/-- Arrays inside one another. -/
def nested : Nat → Json
  | 0 => .null
  | levels + 1 => .array [nested levels]

theorem nested_wellFormed (levels : Nat) : (nested levels).WellFormed ∧ (nested levels).reals = [] := by
  induction levels with
  | zero => exact ⟨trivial, rfl⟩
  | succ levels ih => exact ⟨⟨ih.1, trivial⟩, by simp [nested, Json.reals, Json.realsItems, ih.2]⟩

/-- A header with a number of each kind, an escaped text and so many arrays inside one another. -/
def sampleHeader (levels : Nat) : Header where
  fields := [("a", .array [.real ⟨0x3FF8000000000000⟩, .object [("k", .text "\"\n")]]),
    ("b", .integer (-7)), ("c", nested levels)]

theorem sampleHeader_wellFormed (levels : Nat) : (sampleHeader levels).WellFormed := by
  have hkeys : ("a" < "b" ∧ "a" < "c") ∧ "b" < "c" := by decide +kernel
  have hreal : (Binary64.mk 0x3FF8000000000000).isFinite = true := by decide +kernel
  refine ⟨by simpa [sampleHeader, Table.Sorted] using hkeys, ?_⟩
  exact ⟨⟨hreal, ⟨List.pairwise_singleton .., trivial, trivial⟩, trivial⟩,
    ⟨by decide, by decide⟩, (nested_wellFormed levels).1, trivial⟩

theorem sampleHeader_readsBack (levels : Nat) (body : List UInt8) :
    Message.ReadsBack ⟨sampleHeader levels, body⟩ := by
  intro x hx
  have hreals : (sampleHeader levels).toJson.reals = [⟨0x3FF8000000000000⟩] := by
    simp [sampleHeader, Header.toJson, Json.reals, Json.realsFields, Json.realsItems,
      (nested_wellFormed levels).2]
  rw [hreals, List.mem_singleton] at hx
  subst hx
  decide +kernel

/-- A header at the limit travels and one past it is refused; an array with a doubled key and without a
body is read as a message that travels. -/
theorem wire_text_round_trip_sample :
    decode (payload ⟨sampleHeader 125, [0, 159]⟩) = .ok ⟨sampleHeader 125, [0, 159]⟩ ∧
      decode (payload ⟨sampleHeader 126, [0, 159]⟩) = .error .form ∧
      payload ⟨sampleHeader 125, [0, 159]⟩ ≠ payload ⟨sampleHeader 125, [0]⟩ ∧
      ∃ m, decode (Text.bytes "[\x7b\"a\":1,\"a\":25e-1\x7d]") = .ok m ∧ decode (payload m) = .ok m := by
  obtain ⟨hread, hunique, hagain⟩ := wire_text_round_trip
  have hwf := sampleHeader_wellFormed
  have hreads := sampleHeader_readsBack
  have hshallow : ∀ field ∈ (sampleHeader 125).fields, field.2.depth ≤ 125 := by decide +kernel
  have hdeep : ∃ field ∈ (sampleHeader 126).fields, 125 < field.2.depth := by decide +kernel
  refine ⟨(hread _ (hwf 125) (hreads 125 _)).1.mpr hshallow,
    (hread _ (hwf 126) (hreads 126 _)).2 hdeep, fun heq => ?_, ?_⟩
  · have hbodies := hunique _ _ (hwf 125) (hwf 125) (hreads 125 _) (hreads 125 _) hshallow hshallow heq
    exact absurd (congrArg Message.body hbodies) (by decide)
  · have hdecode : decode (Text.bytes "[\x7b\"a\":1,\"a\":25e-1\x7d]") =
        .ok ⟨⟨[("a", .real ⟨0x4004000000000000⟩)]⟩, []⟩ := by
      decide +kernel
    refine ⟨_, hdecode, hagain _ _ hdecode ?_⟩
    intro x hx
    obtain rfl : x = ⟨0x4004000000000000⟩ := List.mem_singleton.mp hx
    decide +kernel

end Envelope

end OrderedRelay
