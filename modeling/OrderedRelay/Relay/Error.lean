import OrderedRelay.Sequencing.Engine
import OrderedRelay.Topic.Route
import OrderedRelay.Transport.Error

/-!
# Failures of a relay

A relay refuses what breaks the protocol or its own rules of use, and passes on what its transport
reports.
-/

namespace OrderedRelay

inductive LogicFault where
  | route (fault : RouteFault)
  | sequence (fault : SequenceFault)
  | signalBeforeReading (signal producer : String)
  | notReading
deriving DecidableEq, Repr

def LogicFault.message : LogicFault → String
  | route fault => fault.message
  | sequence fault => fault.message
  | signalBeforeReading signal producer =>
    "Cannot subscribe to '" ++ signal ++ "' of '" ++ producer ++ "' before start_reading"
  | notReading => "check_order called while not reading"

/-- Why an operation fails, or stops without a result. -/
inductive RelayError where
  | logic (fault : LogicFault)
  | notConnected
  | timeout (seconds : Nat)
  | transport (e : TransportError)
  | stopped (trap : Trap)
deriving DecidableEq, Repr

/-- A duration in whole seconds; none at all is shown in the smallest unit. -/
def durationText (seconds : Nat) : String :=
  if seconds = 0 then "0ns" else Decimal.render seconds ++ "s"

def RelayError.message : RelayError → String
  | logic fault => "Logic error: " ++ fault.message
  | notConnected => "Not connected to broker"
  | timeout seconds => "Operation timed out after " ++ durationText seconds
  | transport e => "Transport error: " ++ e.message
  | stopped trap => trap.message

end OrderedRelay
