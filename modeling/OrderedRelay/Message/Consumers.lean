import OrderedRelay.Message.Header

/-!
# Consumer lists as text

Consumer ids are written between bars, `|a||b|`. Reading takes every non-empty piece between bars, so
a missing frame and repeated bars make no difference.
-/

namespace OrderedRelay.Consumers

def dropBar : List Char → List Char
  | '|' :: cs => cs
  | cs => cs

/-- Text without one bar at each end, where there is one. -/
def unframed (raw : String) : String :=
  String.ofList (dropBar (dropBar raw.toList).reverse).reverse

def encode (ids : List String) : String := Text.join "" (ids.map fun id => "|" ++ id ++ "|")

def decode (raw : String) : List String :=
  (Text.split '|' (unframed raw)).filter (· ≠ "")

end OrderedRelay.Consumers

namespace OrderedRelay.Header

def consumers (h : Header) : List String :=
  match h.consumersText? with
  | some raw => Consumers.decode raw
  | none => []

/-- Whether the framed text names everyone and nobody else. -/
def isBroadcast (h : Header) : Bool :=
  match h.consumersText? with
  | some raw => Consumers.unframed raw == everyone
  | none => false

end OrderedRelay.Header
