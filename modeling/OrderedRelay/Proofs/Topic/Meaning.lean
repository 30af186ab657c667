import OrderedRelay.Proofs.Message.Consumers
import OrderedRelay.Proofs.Topic.Routes
import OrderedRelay.Proofs.Topic.Slots
import Mathlib.Control.Monad.Basic

/-!
# What a topic means

The meaning of a topic is that of the writes that go to it, and it tells the topic again. So no two
topics of a bus have one meaning.
-/

namespace OrderedRelay

open Topic

/-- A signal is named by one level that is not the name of heartbeats. -/
def Topic.Kind.Named : Kind → Prop
  | signal _ name => name ≠ "" ∧ '/' ∉ name.toList ∧ name ≠ heartbeatSignal
  | _ => True

namespace Identity

variable {i : Identity} {id producer name topic target : String} {h : Header} {route : Route}

/-! ### Meanings -/

/-- What a verb means with a list of consumers that is for everyone or not. -/
def verbMeaning? (i : Identity) : Verb → Bool → List String → Option Kind
  | .call, true, _ => some .globalSlots
  | .emit name, _, _ => some (.signal i.instanceId name)
  | _, _, [consumer] => some (.slots consumer)
  | _, _, _ => none

/-- What a write of the instance means by its target and header. -/
def meaning? (i : Identity) (target : String) (h : Header) : Option Kind :=
  if target = i.beatsTarget then some (.heartbeat i.instanceId)
  else if target = debugChannel then some .debug
  else if h.text? Header.targetField = some logLevel then some .log
  else h.verb?.bind fun verb => i.verbMeaning? verb h.isBroadcast h.consumers

/-- The topic of a meaning, none for what lies outside the bus. -/
def topicOf? (i : Identity) : Kind → Option String
  | .slots id => some (i.slotTopic id)
  | .globalSlots => some i.globalSlotsTopic
  | .signal producer name => some (i.signalTopic producer name)
  | .heartbeat producer => some (i.signalTopic producer heartbeatSignal)
  | .log => some i.logTopic
  | .debug => some debugChannel
  | .other => none

/-! ### From topics to meanings -/

/-- A topic below the domain means what its levels there mean. -/
theorem classify_below (i : Identity) (rest : String) :
    i.classify (i.domain ++ "/" ++ rest) = .ofLevels (levels rest) := by
  have hdebug : i.domain ++ "/" ++ rest ≠ debugChannel := by
    intro heq
    have hslash : '/' ∈ (i.domain ++ "/" ++ rest).toList := by simp
    rw [heq] at hslash
    revert hslash
    decide
  rw [classify, if_neg hdebug, Text.after?_eq_some_iff.mpr rfl]

theorem classify_globalSlotsTopic (i : Identity) : i.classify i.globalSlotsTopic = .globalSlots :=
  classify_below i globalSlotsLevel

theorem classify_logTopic (i : Identity) : i.classify i.logTopic = .log :=
  classify_below i logLevel

theorem escape_eq_empty_iff : escape id = "" ↔ id = "" := by
  rw [← String.toList_inj, toList_escape]
  simp

theorem classify_slotTopic (hne : id ≠ "") (hbar : '|' ∉ id.toList) :
    i.classify (i.slotTopic id) = .slots id := by
  have hrest : i.slotTopic id = i.domain ++ "/" ++ (slotsLevel ++ "/" ++ escape id) := by
    simp [slotTopic, String.append_assoc]
  have hlevels : levels (slotsLevel ++ "/" ++ escape id) = [slotsLevel, escape id] := by
    rw [levels_append, levels_of_not_mem (slash_not_mem_escape id)]
    rfl
  rw [hrest, classify_below, hlevels, Kind.ofLevels, if_pos ⟨rfl, fun heq => hne (escape_eq_empty_iff.mp heq)⟩,
    unescape_escape hbar]

theorem classify_signalTopic (hbar : '|' ∉ producer.toList) (hslash : '/' ∉ name.toList) :
    i.classify (i.signalTopic producer name) =
      if name = heartbeatSignal then .heartbeat producer
      else if producer ≠ "" ∧ name ≠ "" then .signal producer name else .other := by
  have hrest : i.signalTopic producer name =
      i.domain ++ "/" ++ (signalsLevel ++ "/" ++ escape producer ++ "/" ++ name) := by
    simp [signalTopic, String.append_assoc]
  have hlevels : levels (signalsLevel ++ "/" ++ escape producer ++ "/" ++ name) =
      [signalsLevel, escape producer, name] := by
    rw [levels_append, levels_append, levels_of_not_mem (slash_not_mem_escape producer),
      levels_of_not_mem hslash]
    rfl
  rw [hrest, classify_below, hlevels, Kind.ofLevels, if_pos rfl, unescape_escape hbar]
  simp only [ne_eq, escape_eq_empty_iff]

/-! ### From meanings to topics -/

theorem topicOf?_ofLevels (i : Identity) {ls : List String} (hslash : ∀ l ∈ ls, '/' ∉ l.toList) :
    Kind.ofLevels ls = .other ∨
      i.topicOf? (.ofLevels ls) = some (i.domain ++ "/" ++ Text.join "/" ls) := by
  fun_cases Kind.ofLevels ls with
  | case1 => exact Or.inr rfl
  | case2 => exact Or.inr rfl
  | case4 head id hslots =>
    obtain ⟨rfl, -⟩ := hslots
    have hid := escape_unescape (hslash id (by simp))
    right
    simp [topicOf?, slotTopic, hid, Text.join, String.append_assoc]
  | case6 producer =>
    have hproducer := escape_unescape (hslash producer (by simp))
    right
    simp [topicOf?, signalTopic, hproducer, Text.join, String.append_assoc]
  | case7 producer name =>
    have hproducer := escape_unescape (hslash producer (by simp))
    right
    simp [topicOf?, signalTopic, hproducer, Text.join, String.append_assoc]
  | case3 | case5 | case8 | case9 | case10 => exact Or.inl rfl

/-- Every topic with a meaning is the topic of its meaning. -/
theorem topicOf?_classify (hne : i.classify topic ≠ .other) :
    i.topicOf? (i.classify topic) = some topic := by
  unfold classify at hne ⊢
  by_cases hdebug : topic = debugChannel
  · rw [if_pos hdebug, hdebug]
    rfl
  · rw [if_neg hdebug] at hne ⊢
    cases hrest : Text.after? (i.domain ++ "/") topic with
    | none =>
      rw [hrest] at hne
      exact absurd rfl hne
    | some rest =>
      rw [hrest] at hne
      have hslash : ∀ l ∈ levels rest, '/' ∉ l.toList := fun l hl => Text.not_mem_of_mem_split hl
      have htopic := (topicOf?_ofLevels i hslash).resolve_left hne
      have hlevels : Text.join "/" (levels rest) = rest := Text.join_split '/' rest
      rw [hlevels, ← Text.after?_eq_some_iff.mp hrest] at htopic
      exact htopic

/-! ### From writes to meanings -/

theorem meaning?_of_ordinary {verb : Verb} {raw : String} (hnormal : i.Normal target)
    (hordinary : i.Ordinary h verb raw) :
    i.meaning? target h =
      i.verbMeaning? verb (Consumers.unframed raw == Header.everyone) (Consumers.decode raw) := by
  have hconsumers : h.consumers = Consumers.decode raw := by
    rw [Header.consumers, hordinary.consumers]
  have hbroadcast : h.isBroadcast = (Consumers.unframed raw == Header.everyone) := by
    rw [Header.isBroadcast, hordinary.consumers]
  rw [meaning?, if_neg hnormal.beats, if_neg hnormal.debug, if_neg hordinary.mark, hordinary.verb,
    hconsumers, hbroadcast]
  rfl

theorem classify_of_verbRoute {verb : Verb} {raw : String} (hne : i.instanceId ≠ "")
    (hbar : '|' ∉ i.instanceId.toList) (htaken : i.VerbRoute verb raw route) :
    ∃ kind, i.verbMeaning? verb (Consumers.unframed raw == Header.everyone)
        (Consumers.decode raw) = some kind ∧ (kind.Named → i.classify route.topic = kind) := by
  cases htaken with
  | broadcast heveryone =>
    refine ⟨.globalSlots, ?_, fun _ => classify_globalSlotsTopic i⟩
    rw [heveryone]
    rfl
  | @direct _ _ consumer hdirect hnamed hdecode =>
    have hmem : consumer ∈ Consumers.decode raw := by simp [hdecode]
    refine ⟨.slots consumer, ?_, fun _ => classify_slotTopic
      (Consumers.ne_empty_of_mem_decode hmem) (Consumers.bar_not_mem_of_mem_decode hmem)⟩
    rw [hdecode]
    cases verb with
    | call => simp [verbMeaning?, hnamed rfl]
    | request | requestNoWait | reply | replyNoWait => rfl
    | emit name => cases hdirect
  | @signal name hsome =>
    refine ⟨.signal i.instanceId name, rfl, fun hname => ?_⟩
    obtain ⟨hname, hslash, hbeat⟩ := hname
    rw [classify_signalTopic hbar hslash, if_neg hbeat, if_pos ⟨hne, hname⟩]

theorem classify_of_accepted (hne : i.instanceId ≠ "") (hbar : '|' ∉ i.instanceId.toList)
    (haccepted : i.Accepted target h route) :
    ∃ kind, i.meaning? target h = some kind ∧ (kind.Named → i.classify route.topic = kind) := by
  cases haccepted with
  | heartbeat hbeats =>
    refine ⟨.heartbeat i.instanceId, if_pos hbeats, fun _ => ?_⟩
    rw [classify_signalTopic hbar (by decide), if_pos rfl]
  | debug hbeats hdebug =>
    refine ⟨.debug, ?_, fun _ => if_pos rfl⟩
    rw [meaning?, if_neg hbeats, if_pos hdebug]
  | log hnormal hmark =>
    refine ⟨.log, ?_, fun _ => classify_logTopic i⟩
    rw [meaning?, if_neg hnormal.beats, if_neg hnormal.debug, if_pos hmark]
  | ordinary hnormal hordinary htaken =>
    rw [meaning?_of_ordinary hnormal hordinary]
    exact classify_of_verbRoute hne hbar htaken

/-- The topic of an accepted write means what the write means, provided that a signal has a name of its
own; and a topic with a meaning is the topic of that meaning and the only one. -/
theorem topics_and_meanings_invert (i : Identity) :
    (i.instanceId ≠ "" → '|' ∉ i.instanceId.toList → ∀ target h route,
      i.route target h = .ok route →
      ∃ kind, i.meaning? target h = some kind ∧ (kind.Named → i.classify route.topic = kind)) ∧
    (∀ topic, i.classify topic ≠ .other → i.topicOf? (i.classify topic) = some topic) ∧
    ∀ topic topic', i.classify topic ≠ .other → i.classify topic = i.classify topic' →
      topic = topic' := by
  refine ⟨fun hne hbar target h route hroute => ?_, fun topic hkind => topicOf?_classify hkind,
    fun topic topic' hkind hsame => ?_⟩
  · exact classify_of_accepted hne hbar (accepted_of_route hroute)
  · have hback := topicOf?_classify hkind
    rw [hsame, topicOf?_classify (hsame ▸ hkind)] at hback
    exact (Option.some.inj hback).symm

def sampleDevice : Identity := ⟨"bus/1", "dev/1"⟩

/-- A reply to one instance whose id has a slash, in an odd frame. -/
def sampleReply : Header :=
  .ofList [(Header.producerField, .text "dev/1"), (Header.verbField, .text "__reply__"),
    (Header.consumersField, .text "||x/y")]

theorem topics_and_meanings_invert_sample :
    sampleDevice.classify "bus/1/slots/x|y" = .slots "x/y" ∧
      sampleDevice.topicOf? (.slots "x/y") = some "bus/1/slots/x|y" ∧
      ∀ topic, sampleDevice.classify topic = .slots "x/y" → topic = "bus/1/slots/x|y" := by
  obtain ⟨hmeaning, htopic, hunique⟩ := topics_and_meanings_invert sampleDevice
  have hroute : sampleDevice.route "bus/1" sampleReply = .ok ⟨"bus/1/slots/x|y", some ["x/y"]⟩ := by
    decide +kernel
  have hkind : sampleDevice.meaning? "bus/1" sampleReply = some (.slots "x/y") := by decide +kernel
  have hclassify : sampleDevice.classify "bus/1/slots/x|y" = .slots "x/y" := by
    obtain ⟨kind, hkind', hnamed⟩ := hmeaning (by decide) (by decide) _ _ _ hroute
    obtain rfl := Option.some.inj (hkind.symm.trans hkind')
    exact hnamed trivial
  have hne : sampleDevice.classify "bus/1/slots/x|y" ≠ .other := by
    rw [hclassify]
    decide
  refine ⟨hclassify, ?_, fun topic hsame => ?_⟩
  · rw [← hclassify]
    exact htopic _ hne
  · exact (hunique _ _ hne (hclassify.trans hsame.symm)).symm

end Identity

end OrderedRelay
