import OrderedRelay.Topic.Route
import Mathlib.Tactic.SplitIfs

/-!
# Accepted writes

A write that is accepted is a heartbeat, a debug message, a log entry, a call to everyone, a message to
one slot instance or a signal. Each of these has its own route, and what is known of the target and the
header of such a write is said here once.
-/

namespace OrderedRelay

theorem Verb.eq_emit {verb : Verb} (h : verb.isPointToPoint = false) : ∃ name, verb = .emit name := by
  cases verb with
  | emit name => exact ⟨name, rfl⟩
  | call | request | requestNoWait | reply | replyNoWait => cases h

namespace Identity

variable {i : Identity} {target : String} {h : Header} {route : Route} {verb : Verb} {raw : String}

/-- The target is the domain, and the domain is not taken for another target. -/
structure Normal (i : Identity) (target : String) : Prop where
  domain : target = i.domain
  beats : target ≠ i.beatsTarget
  debug : target ≠ Topic.debugChannel

/-- A header of the instance itself, with a verb and a list of consumers, that marks no log entry. -/
structure Ordinary (i : Identity) (h : Header) (verb : Verb) (raw : String) : Prop where
  mark : h.text? Header.targetField ≠ some Topic.logLevel
  verb : h.verb? = some verb
  consumers : h.consumersText? = some raw
  producer : h.producer? = some i.instanceId

/-- The route of a verb to its consumers: to everyone, to one slot instance, or to the subscribers of a
signal. -/
inductive VerbRoute (i : Identity) : Verb → String → Route → Prop
  | broadcast {raw : String} (everyone : Consumers.unframed raw = Header.everyone) :
    VerbRoute i .call raw ⟨i.globalSlotsTopic, none⟩
  | direct {verb : Verb} {raw consumer : String} (direct : verb.isPointToPoint = true)
    (named : verb = .call → Consumers.unframed raw ≠ Header.everyone)
    (decoded : Consumers.decode raw = [consumer]) :
    VerbRoute i verb raw ⟨i.slotTopic consumer, some [consumer]⟩
  | signal {name raw : String} (consumers : Consumers.decode raw ≠ []) :
    VerbRoute i (.emit name) raw
      ⟨i.signalTopic i.instanceId name, some (Consumers.decode raw)⟩

/-- A write and the route on which it is accepted. -/
inductive Accepted (i : Identity) (target : String) (h : Header) : Route → Prop
  | heartbeat (beats : target = i.beatsTarget) :
    Accepted i target h ⟨i.signalTopic i.instanceId Topic.heartbeatSignal, none⟩
  | debug (beats : target ≠ i.beatsTarget) (debug : target = Topic.debugChannel) :
    Accepted i target h ⟨Topic.debugChannel, none⟩
  | log (normal : i.Normal target) (mark : h.text? Header.targetField = some Topic.logLevel) :
    Accepted i target h ⟨i.logTopic, none⟩
  | ordinary {verb : Verb} {raw : String} {route : Route} (normal : i.Normal target)
    (ordinary : i.Ordinary h verb raw) (taken : i.VerbRoute verb raw route) :
    Accepted i target h route

theorem verbRoute_of_routeVerb (hroute : i.routeVerb verb raw = .ok route) :
    i.VerbRoute verb raw route := by
  unfold routeVerb at hroute
  split_ifs at hroute with hall
  · obtain rfl := Except.ok.inj hroute
    obtain ⟨rfl, heveryone⟩ := hall
    exact .broadcast heveryone
  · split at hroute
    · rename_i consumer hdirect hone
      obtain rfl := Except.ok.inj hroute
      exact .direct hdirect (fun hcall heveryone => hall ⟨hcall, heveryone⟩) hone
    · cases hroute
    · cases hroute
    · cases hroute
    · rename_i hemit hsome
      obtain rfl := Except.ok.inj hroute
      obtain ⟨name, rfl⟩ := Verb.eq_emit hemit
      exact .signal hsome

theorem ordinary_of_routeOrdinary (hmark : h.text? Header.targetField ≠ some Topic.logLevel)
    (hroute : i.routeOrdinary h = .ok route) :
    ∃ verb raw, i.Ordinary h verb raw ∧ i.VerbRoute verb raw route := by
  unfold routeOrdinary at hroute
  split at hroute
  · cases hroute
  · cases hroute
  · cases hroute
  · rename_i verb raw producer hverb hraw hproducer
    split_ifs at hroute with hown
    exact ⟨verb, raw, ⟨hmark, hverb, hraw, hown ▸ hproducer⟩, verbRoute_of_routeVerb hroute⟩

theorem accepted_of_route (hroute : i.route target h = .ok route) : i.Accepted target h route := by
  unfold Identity.route at hroute
  split_ifs at hroute with hbeats hdebug hdomain hmark
  · obtain rfl := Except.ok.inj hroute
    exact .heartbeat hbeats
  · obtain rfl := Except.ok.inj hroute
    exact .debug hbeats hdebug
  · obtain rfl := Except.ok.inj hroute
    exact .log ⟨Decidable.not_not.mp hdomain, hbeats, hdebug⟩ hmark
  · obtain ⟨verb, raw, hordinary, htaken⟩ := ordinary_of_routeOrdinary hmark hroute
    exact .ordinary ⟨Decidable.not_not.mp hdomain, hbeats, hdebug⟩ hordinary htaken

end Identity

end OrderedRelay
