import OrderedRelay.Base64
import OrderedRelay.Json.Printer
import OrderedRelay.Json.Reader
import OrderedRelay.Message.Basic
import OrderedRelay.Text.Bytes

/-!
# Wire envelopes

A message travels over a network as a JSON object with its header and its body in base64. Reading also
takes an array of the two in place of the object, a missing body for an empty one, and passes over
other fields whatever they hold, as long as they have the form of JSON.
-/

namespace OrderedRelay.Envelope

inductive Fault where
  | form
  | body
deriving DecidableEq, Repr

/-- The report on a fault; what exactly is wrong with the text is left open. -/
def Fault.message : Fault → String
  | form => "Failed to decode message: <library text>"
  | body => "Invalid body encoding: <library text>"

/-- How deep the header may nest, itself included. -/
def headerLevels : Nat := 126

def encode (m : Message) : String :=
  String.ofList <| "\x7b\"header\":".toList ++ m.header.toJson.renderChars ++
    ",\"body\":\"".toList ++ Base64.encode m.body ++ "\"\x7d".toList

def payload (m : Message) : List UInt8 := Text.bytes (encode m)

/-- The characters of bytes from position `i` on. A byte that belongs to no character reads as the
escape of a lone surrogate, which no text that is kept may hold; after an open escape it reads as an
escape that does not exist. -/
def spell (b : ByteArray) (i : Nat) (escaping : Bool) : List Char :=
  if i < b.size then
    match b.utf8DecodeChar? i with
    | some c => c :: spell b (i + c.utf8Size) (c == '\\' && !escaping)
    | none =>
      (if escaping then ['x'] else ['\\', 'u', 'd', 'c', '0', '0']) ++ spell b (i + 1) false
  else []
termination_by b.size - i
decreasing_by
  · have := Char.utf8Size_pos c
    omega
  · omega

def characters (bs : List UInt8) : List Char :=
  match Text.ofBytes? bs with
  | some s => s.toList
  | none => spell ⟨bs.toArray⟩ 0 false

/-- The value of the one field with the given name; none if there are two. -/
def single? (name : String) (fields : List (List Json.Piece × Json.Raw)) :
    Option (Option Json.Raw) :=
  match fields.filter fun field => Json.assembleText field.1 = some name with
  | [] => some none
  | [field] => some (some field.2)
  | _ => none

def parts? : Json.Raw → Option (Json.Raw × Option Json.Raw)
  | .object fields =>
    if fields.all fun field => (Json.assembleText field.1).isSome then
      match single? "header" fields, single? "body" fields with
      | some (some header), some body => some (header, body)
      | _, _ => none
    else none
  | .array [header] => some (header, none)
  | .array [header, body] => some (header, some body)
  | _ => none

def header? (raw : Json.Raw) : Option Header :=
  match raw.value? headerLevels with
  | some (.object fields) => some ⟨fields⟩
  | _ => none

def bodyText? : Option Json.Raw → Option String
  | none => some ""
  | some (.text ps) => Json.assembleText ps
  | some _ => none

def decode (bs : List UInt8) : Except Fault Message :=
  match (Json.Raw.parse? (characters bs)).bind parts? with
  | none => .error .form
  | some (header, body) =>
    match header? header, bodyText? body with
    | some h, some text =>
      match Base64.decode text.toList with
      | some bytes => .ok ⟨h, bytes⟩
      | none => .error .body
    | _, _ => .error .form

end OrderedRelay.Envelope
