import OrderedRelay.Dispatcher
import OrderedRelay.Relay.Error
import OrderedRelay.Transport.Publication

/-!
# The receiving side of a relay

Subscriptions feed one of three streams: messages, which are put in order, heartbeats and log entries.
Each stream has a reader or none. What an arrival releases is posted for the reader's handler, and what
goes wrong for its notifier, on one dispatcher, so that both are called in the order of release.
-/

namespace OrderedRelay

inductive Stream where
  | messages
  | heartbeats
  | logs
deriving DecidableEq, Repr

inductive ReadErrorKind where
  | drop
  | protocol
deriving DecidableEq, Repr

def ReadErrorKind.name : ReadErrorKind → String
  | drop => "Drop"
  | protocol => "Protocol"

structure ReadError where
  kind : ReadErrorKind
  topic : String
  message : String
deriving DecidableEq, Repr

def ReadError.text (e : ReadError) : String :=
  e.kind.name ++ " on '" ++ e.topic ++ "': " ++ e.message

/-- A reader: the name of its handler, and whether it has a notifier. -/
structure Reader where
  handler : String
  notifies : Bool := true
deriving DecidableEq, Repr

/-- A call of a reader: its handler with a message, or its notifier with an error. -/
inductive Call where
  | handle (handler : String) (m : Message)
  | notify (handler : String) (e : ReadError)
deriving DecidableEq

structure Inbound where
  engine : Engine Message
  messages : Option Reader := none
  heartbeats : Option Reader := none
  logs : Option Reader := none
  dispatcher : Dispatcher Call

namespace Inbound

def reader? (i : Inbound) : Stream → Option Reader
  | .messages => i.messages
  | .heartbeats => i.heartbeats
  | .logs => i.logs

def setReader (i : Inbound) (stream : Stream) (reader : Option Reader) : Inbound :=
  match stream with
  | .messages => { i with messages := reader }
  | .heartbeats => { i with heartbeats := reader }
  | .logs => { i with logs := reader }

def stop (i : Inbound) : Inbound := { i with messages := none, heartbeats := none, logs := none }

def post (i : Inbound) (c : Call) : Inbound := { i with dispatcher := i.dispatcher.post c }

def postMessage (r : Reader) (i : Inbound) (m : Message) : Inbound := i.post (.handle r.handler m)

def report (i : Inbound) (r : Reader) (e : ReadError) : Inbound :=
  if r.notifies then i.post (.notify r.handler e) else i

/-- Puts a message in its order and posts what it releases; a fault is reported and given back. If the
check stops nothing is posted or reported. -/
def sequence (i : Inbound) (r : Reader) (topic : String) (m : Message) :
    Inbound × Except RelayError Unit :=
  match i.engine.check m.header m with
  | (engine, .ok released) => (released.foldl (postMessage r) { i with engine }, .ok ())
  | (engine, .error fault) =>
    let e := RelayError.logic (.sequence fault)
    ({ i with engine }.report r ⟨.protocol, topic, e.message⟩, .error e)
  | (engine, .stopped trap) => ({ i with engine }, .error (.stopped trap))

/-- Takes in what a subscription of a stream is told; without a reader it is ignored. -/
def receive (i : Inbound) (stream : Stream) (topic : String)
    (content : Except TransportError Message) : Inbound :=
  match i.reader? stream, content with
  | none, _ => i
  | some r, .error e => i.report r ⟨.drop, topic, e.message⟩
  | some r, .ok m =>
    match stream with
    | .messages => (i.sequence r topic m).1
    | .heartbeats | .logs => postMessage r i m

def check (i : Inbound) (topic : String) (m : Message) : Inbound × Except RelayError Unit :=
  match i.messages with
  | none => (i, .error (.logic .notReading))
  | some r => i.sequence r topic m

end Inbound

end OrderedRelay
