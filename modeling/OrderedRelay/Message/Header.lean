import OrderedRelay.Json.Basic
import OrderedRelay.Text.Split

/-!
# Message headers

A header is a table of JSON values. Six of its fields direct a message: who sent it, what it means, to
whom it goes, with which order numbers, in which incarnation of the sender, and whether it is a log
entry. Those are read here; a field of another kind than expected counts as absent.
-/

namespace OrderedRelay

structure Header where
  fields : Table Json := []
deriving DecidableEq, Inhabited

namespace Header

/-! ### Field names -/

def producerField : String := "signalInstanceId"
def verbField : String := "signalFunction"
def consumersField : String := "slotInstanceIds"
def orderNumbersField : String := "orderNumbers"
/-- Tells the incarnation of the producer: a time in milliseconds. -/
def timestampField : String := "producerTimestamp"
def targetField : String := "target"

/-- The consumer that stands for every instance; never sequenced. -/
def everyone : String := "*"

/-! ### Fields -/

def set (h : Header) (key : String) (value : Json) : Header := ⟨h.fields.insert key value⟩

def remove (h : Header) (key : String) : Header := ⟨h.fields.erase key⟩

def has (h : Header) (key : String) : Bool := h.fields.has key

def get? (h : Header) (key : String) : Option Json := h.fields.get? key

def text? (h : Header) (key : String) : Option String := (h.get? key).bind Json.text?

def binary64? (h : Header) (key : String) : Option Binary64 := (h.get? key).bind Json.binary64?

def ofList (pairs : List (String × Json)) : Header := ⟨Table.ofList pairs⟩

def keys (h : Header) : List String := h.fields.keys

def size (h : Header) : Nat := h.fields.length

def toJson (h : Header) : Json := .object h.fields

def WellFormed (h : Header) : Prop := h.toJson.WellFormed

/-! ### The fields that direct a message -/

def producer? (h : Header) : Option String := h.text? producerField

def consumersText? (h : Header) : Option String := h.text? consumersField

def orderNumbersText? (h : Header) : Option String := h.text? orderNumbersField

def timestamp? (h : Header) : Option Binary64 := h.binary64? timestampField

/-- Whether the header states a place in an order: it has a producer, consumers and order numbers, of
whatever kind. The timestamp is not asked for, since a message with a place but without one is at
fault. -/
def isSequenced (h : Header) : Bool :=
  h.has producerField && h.has consumersField && h.has orderNumbersField

theorem get?_set (h : Header) (key k : String) (value : Json) :
    (h.set key value).get? k = if k = key then some value else h.get? k :=
  Table.get?_insert key k value h.fields

theorem get?_remove (h : Header) (key k : String) :
    (h.remove key).get? k = if k = key then none else h.get? k :=
  Table.get?_erase key k h.fields

end Header

end OrderedRelay
