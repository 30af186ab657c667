/-!
# Text as bytes

The UTF-8 bytes of a text and back. Bytes that are not the bytes of a text can still be laid out as
characters, with a mark in place of each byte that belongs to none.
-/

namespace OrderedRelay.Text

def bytes (s : String) : List UInt8 := s.toByteArray.data.toList

def ofBytes? (bs : List UInt8) : Option String := String.fromUTF8? ⟨bs.toArray⟩

theorem ofBytes?_bytes (s : String) : ofBytes? (bytes s) = some s := by
  have h : (⟨(bytes s).toArray⟩ : ByteArray) = s.toByteArray := by simp [bytes]
  simp [ofBytes?, h, String.fromUTF8?, s.isValidUTF8, String.fromUTF8]

end OrderedRelay.Text
