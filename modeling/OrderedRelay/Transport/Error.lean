/-!
# Failures of a transport

Each failure has one cause and one wording.
-/

namespace OrderedRelay

inductive TransportError where
  | notConnected
  | connection (message : String)
  | subscribe (topic message : String)
  | unsubscribe (topic message : String)
  | publish (topic message : String)
  | malformed (topic message : String)
  | delivery (message : String)
deriving DecidableEq, Repr

namespace TransportError

def message : TransportError → String
  | notConnected => "Not connected to broker"
  | connection m => "Connection failed: " ++ m
  | subscribe topic m => "Subscribe to '" ++ topic ++ "' failed: " ++ m
  | unsubscribe topic m => "Unsubscribe from '" ++ topic ++ "' failed: " ++ m
  | publish topic m => "Publish to '" ++ topic ++ "' failed: " ++ m
  | malformed topic m => "Malformed delivery on '" ++ topic ++ "': " ++ m
  | delivery m => "Delivery failed: " ++ m

/-- Whether trying again may help: the broker was not reached, or refused a publish. -/
def isRetryable : TransportError → Bool
  | connection _ => true
  | publish _ _ => true
  | _ => false

end TransportError

end OrderedRelay
