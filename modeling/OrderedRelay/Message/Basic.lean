import OrderedRelay.Message.Consumers
import OrderedRelay.Message.OrderNumbers
import OrderedRelay.Message.Verb

/-!
# Messages

A message is a header and a body of bytes that nothing here looks into.
-/

namespace OrderedRelay

structure Message where
  header : Header
  body : List UInt8 := []
deriving DecidableEq, Inhabited

end OrderedRelay
