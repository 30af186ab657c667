import OrderedRelay.Topic.Pattern

/-!
# Topics of a bus

An instance is known by its domain, the bus it is on, and its id. Under the domain each instance has
a slot topic for what is sent to it and a topic for each signal it emits; broadcasts, heartbeats and
log entries have topics of their own. An id is one level of a topic, so a slash in it becomes a bar.
`classify` reads the meaning of a topic back.
-/

namespace OrderedRelay

structure Identity where
  domain : String
  instanceId : String
deriving DecidableEq, Repr

namespace Topic

/-- The topic of debug messages, and the write target that stands for it. -/
def debugChannel : String := "debugChannel"
def heartbeatSignal : String := "signalHeartbeat"

def slotsLevel : String := "slots"
def globalSlotsLevel : String := "global_slots"
def signalsLevel : String := "signals"
def logLevel : String := "log"

def escape (id : String) : String := Text.exchange '/' '|' id

/-- The instance id of a topic level; a bar always stands for a slash. -/
def unescape (level : String) : String := Text.exchange '|' '/' level

inductive Kind where
  | slots (instanceId : String)
  | globalSlots
  | signal (producer name : String)
  | heartbeat (producer : String)
  | log
  | debug
  | other
deriving DecidableEq, Repr

def Kind.className : Kind → String
  | slots _ => "slots"
  | globalSlots => "global_slots"
  | signal _ _ => "signals"
  | heartbeat _ => "heartbeats"
  | log => "log"
  | debug => "debug"
  | other => "other"

def Kind.ofLevels : List String → Kind
  | [head] =>
    if head = globalSlotsLevel then globalSlots
    else if head = logLevel then log
    else other
  | [head, id] => if head = slotsLevel ∧ id ≠ "" then slots (unescape id) else other
  | [head, producer, name] =>
    if head = signalsLevel then
      if name = heartbeatSignal then heartbeat (unescape producer)
      else if producer ≠ "" ∧ name ≠ "" then signal (unescape producer) name
      else other
    else other
  | _ => other

end Topic

namespace Identity

def beatsTarget (i : Identity) : String := i.domain ++ "_beats"

def slotTopic (i : Identity) (id : String) : String :=
  i.domain ++ "/" ++ Topic.slotsLevel ++ "/" ++ Topic.escape id

def ownSlotTopic (i : Identity) : String := i.slotTopic i.instanceId

def globalSlotsTopic (i : Identity) : String := i.domain ++ "/" ++ Topic.globalSlotsLevel

def signalTopic (i : Identity) (producer name : String) : String :=
  i.domain ++ "/" ++ Topic.signalsLevel ++ "/" ++ Topic.escape producer ++ "/" ++ name

def heartbeatPattern (i : Identity) : String :=
  i.domain ++ "/" ++ Topic.signalsLevel ++ "/" ++ Topic.anyLevel ++ "/" ++ Topic.heartbeatSignal

def logTopic (i : Identity) : String := i.domain ++ "/" ++ Topic.logLevel

/-- The meaning of a topic; what lies outside the domain is `other`, the debug channel apart. -/
def classify (i : Identity) (topic : String) : Topic.Kind :=
  if topic = Topic.debugChannel then .debug
  else match Text.after? (i.domain ++ "/") topic with
    | none => .other
    | some rest => .ofLevels (Topic.levels rest)

end Identity

end OrderedRelay
