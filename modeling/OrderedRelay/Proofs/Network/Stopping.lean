import OrderedRelay.Proofs.Network.Protocol
import OrderedRelay.Proofs.Network.Receiving

/-!
# After reading has stopped

Subscriptions can outlive the readers they were made for, when the transport fails to end them. What
closes a stream is that it has no reader: until it is given one again, whatever else is done to the
network, nothing that comes for it is taken in.
-/

namespace OrderedRelay

namespace Network

variable {n : Network} {i : Nat} {relay : Relay} {stream : Stream}

/-! ### Streams without a reader -/

theorem updateInbound_eq_self {f : Inbound → Inbound}
    (hf : ∀ node, n.node? i = some node → f node.relay.inbound = node.relay.inbound) :
    n.updateInbound i f = n := by
  have hnodes : (n.updateInbound i f).nodes = n.nodes := by
    refine List.ext_getElem? fun k => ?_
    simp only [updateInbound, updateRelay, List.getElem?_modify]
    by_cases hk : i = k
    · subst hk
      rcases hget : n.nodes[i]? with _ | _ | node
      · rfl
      · simp
      · have hnode : n.node? i = some node := by rw [node?, hget, Option.getD_some]
        simp [hf node hnode]
    · simp [hk]
  exact congrArg (fun nodes => { n with nodes }) hnodes

theorem deliver_of_no_reader
    (hnone : ∀ node, n.node? i = some node → node.relay.inbound.reader? stream = none)
    (topic : String) (content : Except TransportError Message) :
    n.deliver ⟨.relay i stream, topic, content⟩ = n := by
  show (n.updateInbound i fun inbound => inbound.receive stream topic content) = n
  refine updateInbound_eq_self fun node hnode => ?_
  unfold Inbound.receive
  rw [hnone node hnode]

theorem check_of_no_reader (hrelay : n.relay? i = some relay)
    (hnone : relay.inbound.messages = none) (topic : String) (m : Message) :
    n.check i topic m = (n, .error (.logic .notReading)) := by
  have hsame : (n.updateInbound i fun _ => relay.inbound) = n := by
    obtain ⟨link, hnode⟩ := node?_of_relay? hrelay
    refine updateInbound_eq_self fun node hnode' => ?_
    rw [Option.some.inj (hnode'.symm.trans hnode)]
  simp only [check, hrelay, Inbound.check, hnone, hsame]

theorem subscribeSignal_of_no_reader (hrelay : n.relay? i = some relay)
    (hnone : relay.inbound.messages = none) (producer signal : String) :
    n.subscribeSignal i producer signal =
      (n, .error (.logic (.signalBeforeReading signal producer))) := by
  rw [subscribeSignal, hrelay]
  simp only [hnone, Option.isNone_none, if_true]

/-! ### The guarantee -/

/-- A stream of a relay takes nothing in, and what the relay had posted stays posted. `readers` are those
that its streams have had since. -/
structure Closed (n : Network) (i : Nat) (stream : Stream) (old : Relay)
    (readers : Stream → Reader → Prop) : Prop where
  /-- A callback of the stream that is still registered changes nothing. -/
  deliver : ∀ topic content, n.deliver ⟨.relay i stream, topic, content⟩ = n
  check : stream = .messages → ∀ relay, n.relay? i = some relay →
    ∀ topic m, n.check i topic m = (n, .error (.logic .notReading))
  signal : stream = .messages → ∀ relay, n.relay? i = some relay →
    ∀ producer signal, n.subscribeSignal i producer signal =
      (n, .error (.logic (.signalBeforeReading signal producer)))
  tracking : stream = .messages → ∀ relay, n.relay? i = some relay →
    relay.inbound.engine = old.inbound.engine
  /-- What has been posted since is for readers of other streams. -/
  posted : ∀ relay, n.relay? i = some relay → ∃ new,
    relay.inbound.dispatcher.posted = old.inbound.dispatcher.posted ++ new ∧
      ∀ c ∈ new, ∃ other reader, other ≠ stream ∧ readers other reader ∧ c.handler = reader.handler
  ran : ∀ relay, n.relay? i = some relay →
    old.inbound.dispatcher.ran <+: relay.inbound.dispatcher.ran
  /-- All that has been posted runs in order. -/
  runs : ∀ relay, n.relay? i = some relay → ∃ relay', n.runAll.relay? i = some relay' ∧
    relay'.inbound.dispatcher.ran = relay.inbound.dispatcher.posted

theorem relay?_runAll (h : n.relay? i = some relay) :
    n.runAll.relay? i = some { relay with inbound :=
      { relay.inbound with dispatcher := relay.inbound.dispatcher.flush } } := by
  obtain ⟨link, hnode⟩ := node?_of_relay? h
  rw [relay?, node?_runAll, hnode]
  rfl

theorem closed_of_follows {inbound : Inbound} {may : Stream → Reader → Prop}
    (h : n.Holds i (inbound.Follows may)) (hengine : inbound.engine = relay.inbound.engine)
    (hdispatcher : inbound.dispatcher = relay.inbound.dispatcher)
    (hnot : ∀ reader, ¬ may stream reader) : n.Closed i stream relay may := by
  -- The relay may be gone by now: then there is nothing to show about it.
  have hinbound : ∀ relay', n.relay? i = some relay' →
      inbound.Follows may relay'.inbound := by
    intro relay' hrelay'
    obtain ⟨link, hnode⟩ := node?_of_relay? hrelay'
    exact h.inbound _ hnode
  have hnone : ∀ relay', n.relay? i = some relay' → relay'.inbound.reader? stream = none := by
    intro relay' hrelay'
    cases hreader : relay'.inbound.reader? stream with
    | none => rfl
    | some reader => exact absurd ((hinbound relay' hrelay').readers _ _ hreader) (hnot reader)
  exact {
    deliver := deliver_of_no_reader fun node hnode => hnone node.relay (by rw [relay?, hnode]; rfl)
    check := by
      rintro rfl relay' hrelay'
      exact check_of_no_reader hrelay' (hnone relay' hrelay')
    signal := by
      rintro rfl relay' hrelay'
      exact subscribeSignal_of_no_reader hrelay' (hnone relay' hrelay')
    tracking := by
      rintro rfl relay' hrelay'
      exact ((hinbound relay' hrelay').engine hnot).trans hengine
    posted := by
      intro relay' hrelay'
      obtain ⟨new, hposted, hcalls⟩ := (hinbound relay' hrelay').posted
      refine ⟨new, hdispatcher ▸ hposted, fun c hc => ?_⟩
      obtain ⟨other, reader, hmay, hhandler⟩ := hcalls c hc
      exact ⟨other, reader, fun hsame => hnot reader (hsame ▸ hmay), hmay, hhandler⟩
    ran := fun relay' hrelay' => hdispatcher ▸ (hinbound relay' hrelay').ran
    runs := fun relay' hrelay' => ⟨_, relay?_runAll hrelay', rfl⟩ }

theorem holds_follows {node : Node} {may : Stream → Reader → Prop} (hnode : n.node? i = some node)
    (hmay : ∀ other reader, node.relay.inbound.reader? other = some reader → may other reader) :
    n.Holds i (node.relay.inbound.Follows may) where
  known := lt_of_node? hnode
  inbound := by
    intro node' hnode'
    obtain rfl := Option.some.inj (hnode.symm.trans hnode')
    exact .refl hmay

/-- Once a relay has stopped reading, a stream stays closed through all that is done until it is read
again. It makes no difference how the transport ends the subscriptions, what it tells meanwhile, and
whether it succeeds, fails or is given up. -/
theorem stop_reading_final {ops : List Operation} (hrelay : n.relay? i = some relay)
    (hnot : ∀ reader, .startReading i stream reader ∉ ops) (pace : Pace) :
    (ops.foldl perform (n.stopReading i pace).1).Closed i stream relay
      fun other reader => .startReading i other reader ∈ ops := by
  obtain ⟨link, hnode⟩ := node?_of_relay? hrelay
  have hnode' : (n.updateInbound i Inbound.stop).node? i =
      some ⟨link, { relay with inbound := relay.inbound.stop }⟩ := by
    rw [node?_updateInbound, if_pos rfl, hnode]
    rfl
  have hstable := relay.inbound.stop.follows_stable
    fun other reader => .startReading i other reader ∈ ops
  -- No stream has a reader yet, so none has one that is not allowed.
  have hstopped : (n.updateInbound i Inbound.stop).Holds i (relay.inbound.stop.Follows
      fun other reader => .startReading i other reader ∈ ops) :=
    holds_follows hnode' fun other reader hreader => by
      rw [Inbound.reader?_stop] at hreader
      cases hreader
  have hafter := (hstopped.stopReading hstable pace).performAll hstable fun _ _ h => h
  exact closed_of_follows hafter rfl rfl hnot

/-- A relay that reads messages and has had one, whose handler has not been called yet. -/
def sampleReading : Network :=
  [.startReading 0 .messages ⟨"h", true⟩, .rehearse 0 "bus/slots/S" (.ok ⟨{}, [1]⟩)].foldl perform
    sampleRehearsal

/-- It reads heartbeats, of which one comes, while messages still come. -/
def sampleAfterwards : List Operation :=
  [.startReading 0 .heartbeats ⟨"b", true⟩, .rehearse 0 "bus/slots/S" (.ok ⟨{}, [2]⟩),
    .rehearse 0 "bus/signals/P/signalHeartbeat" (.ok ⟨{}, [3]⟩)]

/-- A transport that keeps every subscription. -/
def sampleFailure (l : Link Subscriber) (m : Medium Subscriber) : Link.Outcome Subscriber Unit where
  client := l
  line := m
  result := .error .notConnected

/-- The relay has stopped reading and lost patience. -/
def sampleStopped : Network := (sampleReading.stopReading 0 (.givenUp sampleFailure)).1

theorem stop_reading_final_sample :
    ∃ relay, sampleReading.relay? 0 = some relay ∧
      (sampleAfterwards.foldl perform sampleStopped).calls =
        [(0, .handle "h" ⟨{}, [1]⟩), (0, .handle "b" ⟨{}, [3]⟩)] ∧
      (sampleAfterwards.foldl perform sampleStopped).Closed 0 .messages relay
        fun other reader => .startReading 0 other reader ∈ sampleAfterwards := by
  have hcalls : (sampleAfterwards.foldl perform sampleStopped).calls =
      [(0, .handle "h" ⟨{}, [1]⟩), (0, .handle "b" ⟨{}, [3]⟩)] := by decide +kernel
  obtain ⟨relay, hrelay⟩ : ∃ relay, sampleReading.relay? 0 = some relay :=
    Option.isSome_iff_exists.mp (by decide +kernel)
  have hnot : ∀ reader, .startReading 0 .messages reader ∉ sampleAfterwards := by
    intro reader hmem
    simp [sampleAfterwards] at hmem
  exact ⟨relay, hrelay, hcalls, stop_reading_final hrelay hnot (.givenUp sampleFailure)⟩

end Network

end OrderedRelay
