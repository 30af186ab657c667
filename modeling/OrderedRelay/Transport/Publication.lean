import OrderedRelay.Message.Basic
import OrderedRelay.Transport.Error
import OrderedRelay.Transport.Options

/-!
# What goes out and what comes in

A publication is a message on its way to a topic. A delivery is what one subscriber is told: a message
that arrived on a topic, or that its subscription failed.
-/

namespace OrderedRelay

structure Publication where
  topic : String
  message : Message
  options : PublishOptions := {}
deriving DecidableEq

/-- What one subscriber is told. Subscribers are known by a name of type `κ`. -/
structure Delivery (κ : Type) where
  subscriber : κ
  topic : String
  content : Except TransportError Message

end OrderedRelay
