import OrderedRelay.Message.Basic
import OrderedRelay.Topic.Identity

/-!
# Routing of writes

A write names a target: the domain for ordinary traffic, the heartbeat target or the debug channel.
Ordinary traffic goes by the header. Its verb selects the topic, and its consumers are those against
whom the message is numbered; heartbeats, broadcasts, log entries and debug messages are not numbered.
-/

namespace OrderedRelay

structure Route where
  topic : String
  sequenceFor : Option (List String)
deriving DecidableEq, Repr

inductive RouteFault where
  | unknownTarget (target : String)
  | missingField (field : String)
  | foreignProducer (verb : Verb) (producer own : String)
  | noConsumer (verb : Verb) (raw : String)
  | severalConsumers (verb : Verb) (raw : String)
  | signalWithoutConsumers (verb : Verb)
deriving DecidableEq, Repr

def RouteFault.message : RouteFault → String
  | unknownTarget target => "Attempt to write to unknown target '" ++ target ++ "'"
  | missingField field => "Header has to define '" ++ field ++ "'"
  | foreignProducer verb producer own =>
    "Cannot publish '" ++ verb.text ++ "' from '" ++ producer ++
      "': the signalInstanceId should be '" ++ own ++ "'"
  | noConsumer verb raw => "'" ++ verb.text ++ "' needs a slot instance id, got '" ++ raw ++ "'"
  | severalConsumers verb raw =>
    "'" ++ verb.text ++ "' addresses exactly one instance, got '" ++ raw ++ "'"
  | signalWithoutConsumers verb => "Signal '" ++ verb.text ++ "' has no slot instance ids"

namespace Identity

def routeVerb (i : Identity) (verb : Verb) (raw : String) : Except RouteFault Route :=
  if verb = .call ∧ Consumers.unframed raw = Header.everyone then
    .ok ⟨i.globalSlotsTopic, none⟩
  else
    match verb.isPointToPoint, Consumers.decode raw with
    | true, [consumer] => .ok ⟨i.slotTopic consumer, some [consumer]⟩
    | true, [] => .error (.noConsumer verb raw)
    | true, _ => .error (.severalConsumers verb raw)
    | false, [] => .error (.signalWithoutConsumers verb)
    | false, consumers => .ok ⟨i.signalTopic i.instanceId verb.text, some consumers⟩

/-- The route of ordinary traffic. A header without a verb, consumers or producer is refused, in this
order, and then one whose producer is another instance. -/
def routeOrdinary (i : Identity) (h : Header) : Except RouteFault Route :=
  match h.verb?, h.consumersText?, h.producer? with
  | none, _, _ => .error (.missingField Header.verbField)
  | _, none, _ => .error (.missingField Header.consumersField)
  | _, _, none => .error (.missingField Header.producerField)
  | some verb, some raw, some producer =>
    if producer = i.instanceId then i.routeVerb verb raw
    else .error (.foreignProducer verb producer i.instanceId)

def route (i : Identity) (target : String) (h : Header) : Except RouteFault Route :=
  if target = i.beatsTarget then
    .ok ⟨i.signalTopic i.instanceId Topic.heartbeatSignal, none⟩
  else if target = Topic.debugChannel then .ok ⟨Topic.debugChannel, none⟩
  else if target ≠ i.domain then .error (.unknownTarget target)
  else if h.text? Header.targetField = some Topic.logLevel then .ok ⟨i.logTopic, none⟩
  else i.routeOrdinary h

end Identity

end OrderedRelay
