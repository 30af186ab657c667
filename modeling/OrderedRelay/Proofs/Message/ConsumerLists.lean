import OrderedRelay.Proofs.Message.Consumers
import Mathlib.Data.List.Basic

/-!
# Consumer lists read back

The bars that are written around an id part it from its neighbours, so what is written for several ids
reads as what each of them reads as by itself. An id reads as itself if it is not empty and holds no bar,
and only such ids are ever read.
-/

namespace OrderedRelay.Consumers

variable {id raw : String} {ids : List String}

/-! ### Ids between bars -/

theorem encode_cons (id : String) (ids : List String) :
    encode (id :: ids) = "|" ++ id ++ "|" ++ encode ids := by
  cases ids with
  | nil => simp [encode, Text.join]
  | cons next rest => simp [encode, Text.join]

theorem runs_append_barred (cs ds : List Char) : runs (cs ++ '|' :: ds) = runs cs ++ runs ds := by
  rw [runs, List.splitOn_append_cons_self, List.filter_append, runs, runs]

theorem decode_encode_eq (ids : List String) : decode (encode ids) = ids.flatMap decode := by
  induction ids with
  | nil => rfl
  | cons id ids ih =>
    have hcut : (encode (id :: ids)).toList = '|' :: (id.toList ++ '|' :: (encode ids).toList) := by
      simp [encode_cons]
    rw [decode_eq, hcut, runs_cons_bar, runs_append_barred, List.map_append, ← decode_eq, ← decode_eq,
      ih, List.flatMap_cons]

theorem decode_eq_pieces (raw : String) : decode raw = (Text.split '|' raw).filter (· ≠ "") := by
  rw [decode_eq, pieces_eq_runs]

theorem decode_unframed (raw : String) : decode (unframed raw) = decode raw := by
  rw [decode_eq_pieces, decode]

/-! ### Ids that read as themselves -/

/-- There is something to read, and no bar parts it. -/
def Whole (id : String) : Prop := id ≠ "" ∧ '|' ∉ id.toList

theorem whole_of_mem_decode (h : id ∈ decode raw) : Whole id :=
  ⟨ne_empty_of_mem_decode h, bar_not_mem_of_mem_decode h⟩

theorem decode_of_whole (h : Whole id) : decode id = [id] := by
  rw [decode_eq_pieces, Text.split_of_not_mem h.2]
  simp [h.1]

theorem decode_encode_eq_iff : decode (encode ids) = ids ↔ ∀ id ∈ ids, Whole id := by
  constructor
  · intro h id hid
    rw [← h] at hid
    exact whole_of_mem_decode hid
  · intro h
    calc decode (encode ids)
        = ids.flatMap decode := decode_encode_eq ids
      _ = ids.flatMap fun id => [id] := List.flatMap_congr fun id hid => decode_of_whole (h id hid)
      _ = ids := List.flatMap_singleton' ids

/-- Lists of whole ids and no others read back. Any text reads as its non-empty pieces between bars,
whether or not its frame is taken off first, and these are whole, so they read back. -/
theorem whole_ids_and_only_they (ids : List String) (raw : String) :
    (decode (encode ids) = ids ↔ ∀ id ∈ ids, Whole id) ∧
      decode raw = (Text.split '|' raw).filter (· ≠ "") ∧
      decode (unframed raw) = decode raw ∧
      (∀ id ∈ decode raw, Whole id) ∧
      decode (encode (decode raw)) = decode raw := by
  have hwhole : ∀ id ∈ decode raw, Whole id := fun id => whole_of_mem_decode
  exact ⟨decode_encode_eq_iff, decode_eq_pieces raw, decode_unframed raw, hwhole,
    decode_encode_eq_iff.mpr hwhole⟩

/-- Bars may be missing at the ends and repeated anywhere. -/
example : decode "||a|||b/c" = ["a", "b/c"] ∧ encode ["a", "b/c"] = "|a||b/c|" ∧
    decode (encode ["a|b", ""]) = ["a", "b"] := by
  decide +kernel

end OrderedRelay.Consumers
