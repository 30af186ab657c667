import OrderedRelay.Message.Envelope
import OrderedRelay.Transport.Publication

/-!
# Effects of a transport operation

An operation of a client changes the client and what it is connected to, tells subscribers things on
the way, and succeeds or fails. Brokers answer requests; the answers are an argument, a function on the
state of the brokers, so that a statement about a client can speak of every broker.
-/

namespace OrderedRelay

/-- How a request to a broker ends: accepted, with what the broker gives back, refused, cut off with the
connection, or never handed over to it. -/
inductive Reply where
  | accepted (given : String)
  | refused
  | dropped
  | unsent
deriving DecidableEq, Repr

/-- Asks the broker at an address; `β` is the state of the brokers and `ρ` the kind of requests. -/
abbrev Ask (β ρ : Type) := β → String → ρ → β × Reply

/-- The state after an operation, what subscribers were told, in order, and how it ended. -/
structure Effect (γ β κ α : Type) where
  client : γ
  line : β
  told : List (Delivery κ) := []
  result : Except TransportError α

namespace Effect

variable {γ δ β κ α ε : Type}

def andThen (e : Effect γ β κ α) (next : γ → β → α → Effect γ β κ ε) : Effect γ β κ ε :=
  match e.result with
  | .ok a =>
    let e' := next e.client e.line a
    { e' with told := e.told ++ e'.told }
  | .error failure => { e with result := .error failure }

def mapClient (e : Effect γ β κ α) (f : γ → δ) : Effect δ β κ α := { e with client := f e.client }

end Effect

/-- Opens addresses in turn until one does; otherwise fails as the last one did, or as given if there
are none. -/
def openFirst {γ β κ : Type} (attempt : γ → β → String → Effect γ β κ Unit) :
    List String → TransportError → γ → β → Effect γ β κ String
  | [], failure, c, b => { client := c, line := b, result := .error failure }
  | url :: rest, _, c, b =>
    let e := attempt c b url
    match e.result with
    | .ok () => { e with result := .ok url }
    | .error failure =>
      let e' := openFirst attempt rest failure e.client e.line
      { e' with told := e.told ++ e'.told }

/-- The text that stands for what brokers and codecs give as the cause of a failure. -/
def undisclosed : String := "<library text>"

def arrival (topic : String) (payload : List UInt8) : Except TransportError Message :=
  match Envelope.decode payload with
  | .ok m => .ok m
  | .error fault => .error (.malformed topic fault.message)

end OrderedRelay
