import OrderedRelay.Message.Envelope
import OrderedRelay.Proofs.Base64
import OrderedRelay.Proofs.Json.Reading
import OrderedRelay.Proofs.Json.RoundTrip

/-!
# Envelopes read back

An envelope is written as an object of two fields, the second of which holds base64, where nothing is
escaped. A message whose header nests no deeper than a reader allows is read from its envelope as the
same message.
-/

namespace OrderedRelay

/-! ### Headers that travel -/

namespace Json

variable {fields : List (String × Json)}

theorem mem_realsFields {x : Binary64} :
    x ∈ realsFields fields ↔ ∃ field ∈ fields, x ∈ field.2.reals := by
  induction fields with
  | nil => simp [realsFields]
  | cons field rest ih => simp [realsFields, ih]

/-- A value that can be a field of a header that travels. -/
structure Portable (j : Json) : Prop where
  wellFormed : j.WellFormed
  shallow : j.depth < Envelope.headerLevels
  readsBack : ∀ x ∈ j.reals, ReadsBack x

end Json

namespace Header

variable {h : Header} {key : String} {value : Json}

/-- A header that a reader of its envelope can take: it nests no deeper than allowed, and its
floating-point numbers read as they were written. -/
structure Portable (h : Header) : Prop where
  wellFormed : h.WellFormed
  shallow : h.toJson.depth ≤ Envelope.headerLevels
  readsBack : ∀ x ∈ h.toJson.reals, Json.ReadsBack x

theorem portable_iff :
    h.Portable ↔ Table.Sorted h.fields ∧ ∀ field ∈ h.fields, field.2.Portable := by
  constructor
  · rintro ⟨⟨hsorted, hfields⟩, hshallow, hreads⟩
    have hdepth : Json.depthFields h.fields ≤ 125 := Nat.le_of_succ_le_succ hshallow
    refine ⟨hsorted, fun field hfield => ⟨?_, ?_, ?_⟩⟩
    · exact Json.wellFormedFields_iff.mp hfields field hfield
    · exact Nat.lt_succ_of_le (Json.depthFields_le_iff.mp hdepth field hfield)
    · exact fun x hx => hreads x (Json.mem_realsFields.mpr ⟨field, hfield, hx⟩)
  · rintro ⟨hsorted, hfields⟩
    refine ⟨⟨hsorted, ?_⟩, ?_, fun x hx => ?_⟩
    · exact Json.wellFormedFields_iff.mpr fun field hfield => (hfields field hfield).wellFormed
    · exact Nat.succ_le_succ (Json.depthFields_le_iff.mpr fun field hfield =>
        Nat.le_of_lt_succ (hfields field hfield).shallow)
    · obtain ⟨field, hfield, hx⟩ := Json.mem_realsFields.mp hx
      exact (hfields field hfield).readsBack x hx

theorem Portable.set (hh : h.Portable) (hvalue : value.Portable) : (h.set key value).Portable := by
  rw [portable_iff] at hh ⊢
  refine ⟨hh.1.insert key value, fun field hfield => ?_⟩
  rcases Table.mem_insert hfield with rfl | hfield
  · exact hvalue
  · exact hh.2 field hfield

theorem Portable.remove (hh : h.Portable) : (h.remove key).Portable := by
  rw [portable_iff] at hh ⊢
  exact ⟨hh.1.erase key, fun field hfield => hh.2 field (Table.mem_of_mem_erase hfield)⟩

end Header

/-! ### The text of an envelope -/

namespace Envelope

theorem escapeChar_of_mem_base64 {bs : List UInt8} {c : Char} (h : c ∈ Base64.encode bs) :
    Json.escapeChar c = [c] := by
  rcases Base64.mem_encode h with rfl | ⟨n, hn, rfl⟩
  · decide
  · have hall : ∀ n < 64, Json.escapeChar (Base64.digit n) = [Base64.digit n] := by decide +kernel
    exact hall n hn

/-- The fields of an envelope. -/
def fieldsOf (m : Message) : List (String × Json) :=
  [("header", m.header.toJson), ("body", .text (String.ofList (Base64.encode m.body)))]

theorem renderFields_fieldsOf (m : Message) :
    Json.renderFields (fieldsOf m) = Json.renderText "header" ++ ':' ::
      (m.header.toJson.renderChars ++ ',' ::
        (Json.renderText "body" ++ ':' :: '"' :: (Base64.encode m.body ++ ['"']))) := by
  have hbody : Json.renderChars (.text (String.ofList (Base64.encode m.body))) =
      '"' :: (Base64.encode m.body ++ ['"']) :=
    Json.renderText_plain fun c => escapeChar_of_mem_base64
  rw [fieldsOf, Json.renderFields, Json.renderFields, hbody]
  exact List.cons_ne_nil _ _

theorem toList_encode (m : Message) :
    (encode m).toList = '\x7b' :: (Json.renderFields (fieldsOf m) ++ ['\x7d']) := by
  have hjoin : ∀ opening middle closing : List Char,
      opening = '\x7b' :: (Json.renderText "header" ++ [':']) →
      middle = ',' :: (Json.renderText "body" ++ [':', '"']) → closing = ['"', '\x7d'] →
      opening ++ m.header.toJson.renderChars ++ middle ++ Base64.encode m.body ++ closing =
        '\x7b' :: (Json.renderFields (fieldsOf m) ++ ['\x7d']) := by
    rintro _ _ _ rfl rfl rfl
    rw [renderFields_fieldsOf]
    simp only [List.append_assoc, List.cons_append, List.nil_append]
  exact String.toList_ofList.trans (hjoin _ _ _ (by decide) (by decide) (by decide))

theorem characters_payload (m : Message) : characters (payload m) = (encode m).toList := by
  rw [characters, payload, Text.ofBytes?_bytes]

theorem eq_nil_of_valueFields {levels : Nat} {raws : List (List Json.Piece × Json.Raw)}
    (h : Json.valueFields? levels raws = some []) : raws = [] := by
  cases raws with
  | nil => rfl
  | cons field raws =>
    rw [Json.valueFields?] at h
    split at h <;> cases h

theorem cons_of_valueFields {levels : Nat} {raws : List (List Json.Piece × Json.Raw)} {k : String}
    {j : Json} {fields : List (String × Json)}
    (h : Json.valueFields? levels raws = some ((k, j) :: fields)) :
    ∃ key raw later, raws = (key, raw) :: later ∧ Json.assembleText key = some k ∧
      raw.value? levels = some j ∧ Json.valueFields? levels later = some fields := by
  cases raws with
  | nil => cases h
  | cons field raws =>
    obtain ⟨key, raw⟩ := field
    rw [Json.valueFields?] at h
    split at h
    · rename_i hkey hvalue hlater
      obtain ⟨⟨rfl, rfl⟩, rfl⟩ : (_ = k ∧ _ = j) ∧ _ = fields := by simpa using h
      exact ⟨key, raw, raws, rfl, hkey, hvalue, hlater⟩
    · cases h

/-- An envelope reads as an object of its two fields, whose values are those written if the header may
nest as deep as it does. -/
theorem parse?_encode {m : Message} (hwf : m.header.WellFormed)
    (hreads : ∀ x ∈ m.header.toJson.reals, Json.ReadsBack x) :
    ∃ headerKey header bodyKey body,
      Json.Raw.parse? (encode m).toList = some (.object [(headerKey, header), (bodyKey, body)]) ∧
      Json.assembleText headerKey = some "header" ∧ Json.assembleText bodyKey = some "body" ∧
      header.value? m.header.toJson.depth = some m.header.toJson ∧
      body.value? m.header.toJson.depth = some (.text (String.ofList (Base64.encode m.body))) := by
  have hfields : Json.ReadsFields (fieldsOf m) := by
    refine Json.readsFields _ nofun ⟨hwf, trivial, trivial⟩ fun x hx => ?_
    simp only [fieldsOf, Json.realsFields, Json.reals, List.append_nil] at hx
    exact hreads x hx
  have hdepth : Json.depthFields (fieldsOf m) ≤ m.header.toJson.depth :=
    Nat.max_le.mpr ⟨le_rfl, Nat.zero_le _⟩
  obtain ⟨raws, hscan, hvalues⟩ :=
    hfields ((Json.renderFields (fieldsOf m)).length + 2) [] (Nat.lt_succ_self _)
  obtain ⟨headerKey, header, later, rfl, hheaderKey, hheader, hlater⟩ :=
    cons_of_valueFields (hvalues _ hdepth)
  obtain ⟨bodyKey, body, last, rfl, hbodyKey, hbody, hlast⟩ := cons_of_valueFields hlater
  obtain rfl := eq_nil_of_valueFields hlast
  refine ⟨headerKey, header, bodyKey, body, ?_, hheaderKey, hbodyKey, hheader, hbody⟩
  rw [Json.Raw.parse?, toList_encode, List.length_cons, List.length_append, List.length_singleton,
    Json.scanRaw_object hscan]
  rfl

theorem text_of_value? {raw : Json.Raw} {levels : Nat} {s : String}
    (h : raw.value? levels = some (.text s)) :
    ∃ ps, raw = .text ps ∧ Json.assembleText ps = some s := by
  cases raw with
  | text ps =>
    obtain ⟨t, ht, heq⟩ := Option.map_eq_some_iff.mp h
    obtain rfl := Json.text.inj heq
    exact ⟨ps, rfl, ht⟩
  | null => cases h
  | bool b => cases h
  | number n =>
    rw [Json.Raw.value?] at h
    simp only [Json.Numeral.value?, Json.Numeral.real?] at h
    split_ifs at h <;> simp at h
  | array items =>
    rw [Json.Raw.value?] at h
    split_ifs at h
    simp at h
  | object fields =>
    rw [Json.Raw.value?] at h
    split_ifs at h
    simp at h

/-- A message is read from its envelope as it was, unless its header nests too deep. -/
theorem decode_payload_eq {m : Message} (hwf : m.header.WellFormed)
    (hreads : ∀ x ∈ m.header.toJson.reals, Json.ReadsBack x) :
    decode (payload m) =
      if m.header.toJson.depth ≤ headerLevels then .ok m else .error .form := by
  obtain ⟨headerKey, header, bodyKey, body, hparse, hheaderKey, hbodyKey, hheader, hbody⟩ :=
    parse?_encode hwf hreads
  obtain ⟨ps, rfl, hps⟩ := text_of_value? hbody
  have hparts : parts? (.object [(headerKey, header), (bodyKey, .text ps)]) =
      some (header, some (.text ps)) := by
    simp [parts?, single?, hheaderKey, hbodyKey]
  have hvalue := Json.value?_of_depth hheader headerLevels
  rw [decode, characters_payload, hparse, Option.bind_some, hparts]
  split_ifs at hvalue ⊢ with hshallow
  · simp [header?, hvalue, Header.toJson, bodyText?, hps, Base64.decode_encode]
  · simp [header?, hvalue]

theorem decode_payload {m : Message} (h : m.header.Portable) : decode (payload m) = .ok m := by
  rw [decode_payload_eq h.wellFormed h.readsBack, if_pos h.shallow]

end Envelope

end OrderedRelay
