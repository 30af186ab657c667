import OrderedRelay.Sequencing.Tracking
import OrderedRelay.Text.Quoted

/-!
# Order of arrival to order of release

An engine serves one consumer and tracks every producer apart. An arrival is judged by its header: one
without a place in an order, or for everyone, is released at once; one with a place for this consumer
goes through the tracking of its producer; one whose place cannot be made out is refused. The item that
arrives with a header is carried along and not looked into.
-/

namespace OrderedRelay

inductive SequenceFault where
  | missingTimestamp (producer : String)
  | badOrderNumber (producer : String) (token : OrderNumbers.BadToken)
  | lengthMismatch (numbers : String) (consumers : List String) (producer : String) (next : Nat)
deriving DecidableEq, Repr

def SequenceFault.message : SequenceFault → String
  | missingTimestamp producer =>
    "Message from '" ++ producer ++ "' lacks '" ++ Header.timestampField ++ "'"
  | badOrderNumber producer token => "Message from '" ++ producer ++ "': " ++ token.message
  | lengthMismatch numbers consumers producer next =>
    "Length of orderNumbers [" ++ numbers ++ "] does not match slotInstanceIds " ++
      Text.quotedList consumers ++ " from '" ++ producer ++ "' (next expected " ++
      Decimal.render next ++ ")"

/-- What a check comes to: what the message releases, a refusal, or no end. -/
inductive Verdict (α : Type) where
  | ok (released : List α)
  | error (fault : SequenceFault)
  | stopped (trap : Trap)
deriving DecidableEq, Repr

/-- `stops` is what has kept checks from coming to an end. -/
structure Engine (α : Type) where
  consumer : String
  policy : Policy
  producers : Table (Tracking α) := []
  stops : List Trap := []
deriving DecidableEq

def Policy.default : Policy := .strict 256 16

/-- The place in an order that a header states; an `untimed` one has no timestamp. -/
inductive Placement where
  | none
  | numbered (producer : String) (timestamp : Binary64) (consumers : List String) (numbers : String)
  | untimed (producer : String)
deriving DecidableEq

/-- The place that a header states. A producer or order numbers of another kind than text count as
empty. -/
def Header.placement (h : Header) : Placement :=
  if !h.isSequenced || h.consumers.contains Header.everyone then .none
  else
    let producer := h.producer?.getD ""
    match h.timestamp? with
    | some timestamp => .numbered producer timestamp h.consumers (h.orderNumbersText?.getD "")
    | Option.none => .untimed producer

namespace Engine

variable {α : Type}

def tracking? (e : Engine α) (producer : String) : Option (Tracking α) := e.producers.get? producer

def tracking (e : Engine α) (producer : String) : Tracking α :=
  (e.tracking? producer).getD {}

def track (e : Engine α) (producer : String) (t : Tracking α) : Engine α :=
  { e with producers := e.producers.insert producer t }

/-- The number at the place of a consumer in a list, 0 if it is not among those listed. -/
def numberFor? (consumer : String) (consumers : List String) (numbers : List Nat) :
    Except Trap Nat :=
  match consumers.idxOf? consumer with
  | some i => Trap.elementAt numbers i
  | none => .ok 0

def place? (e : Engine α) (producer : String) (timestamp : Binary64) (consumers : List String)
    (raw : String) (item : α) : Except Trap (Engine α × Verdict α) :=
  let t := e.tracking producer
  let seen := e.track producer t
  match OrderNumbers.decode raw with
  | .error token => .ok (seen, .error (.badOrderNumber producer token))
  | .ok numbers =>
    if numbers.length ≠ consumers.length then do
      let next ← t.nextExpected?
      return (seen, .error (.lengthMismatch raw consumers producer next))
    else do
      let number ← numberFor? e.consumer consumers numbers
      if number = 0 then return (seen, .ok [])
      else
        let (t, released) ← t.accept? e.policy timestamp number item
        return (e.track producer t, .ok released)

/-- Takes in an arrival. A check that stops does so before it has changed anything that is tracked. -/
def check (e : Engine α) (h : Header) (item : α) : Engine α × Verdict α :=
  match h.placement with
  | .none => (e, .ok [item])
  | .untimed producer => (e, .error (.missingTimestamp producer))
  | .numbered producer timestamp consumers raw =>
    match e.place? producer timestamp consumers raw item with
    | .ok outcome => outcome
    | .error trap => ({ e with stops := e.stops ++ [trap] }, .stopped trap)

def report? (e : Engine α) (producer : String) : Except Trap (Option Tracking.Report) :=
  match e.tracking? producer with
  | none => .ok none
  | some t => do
    let report ← t.report?
    return some report

end Engine

end OrderedRelay
