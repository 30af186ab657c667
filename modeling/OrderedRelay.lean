import OrderedRelay.Interval
import OrderedRelay.Network.Factory
import OrderedRelay.Settings.Load
import OrderedRelay.Proofs.Binary64.Equality
import OrderedRelay.Proofs.Binary64.Range
import OrderedRelay.Proofs.Sequencing.Accept
import OrderedRelay.Proofs.Sequencing.Arrivals
import OrderedRelay.Proofs.Sequencing.Consecutive
import OrderedRelay.Proofs.Sequencing.Reassembly
import OrderedRelay.Proofs.Sequencing.Epoch
import OrderedRelay.Proofs.Sequencing.Restart
import OrderedRelay.Proofs.Text.Split
import OrderedRelay.Proofs.Message.OrderNumbers
import OrderedRelay.Proofs.Sequencing.Stamp
import OrderedRelay.Proofs.Sequencing.Counters
import OrderedRelay.Proofs.Sequencing.InTurn
import OrderedRelay.Proofs.Sequencing.Waiting
import OrderedRelay.Proofs.Topic.Slots
import OrderedRelay.Proofs.Transport.Batches
import OrderedRelay.Proofs.Transport.Subscribing
import OrderedRelay.Proofs.Base64
import OrderedRelay.Proofs.Table
import OrderedRelay.Proofs.Json.Text
import OrderedRelay.Proofs.Json.Numeral
import OrderedRelay.Proofs.Json.RoundTrip
import OrderedRelay.Proofs.Json.Reading
import OrderedRelay.Proofs.Message.Envelope
import OrderedRelay.Proofs.Message.WireText
import OrderedRelay.Proofs.Relay.Writes
import OrderedRelay.Proofs.Relay.Answer
import OrderedRelay.Proofs.Relay.Inbound
import OrderedRelay.Proofs.Relay.Session
import OrderedRelay.Proofs.Relay.Observed
import OrderedRelay.Proofs.Relay.Readers
import OrderedRelay.Proofs.Relay.Prepare
import OrderedRelay.Proofs.Relay.Writers
import OrderedRelay.Proofs.Relay.Interleaving
import OrderedRelay.Proofs.Network.Deliveries
import OrderedRelay.Proofs.Network.Writes
import OrderedRelay.Proofs.Network.Subscriptions
import OrderedRelay.Proofs.Network.Reception
import OrderedRelay.Proofs.Network.EndToEnd
import OrderedRelay.Proofs.Network.Reachable
import OrderedRelay.Proofs.Network.Protocol
import OrderedRelay.Proofs.Network.FailedWrites
import OrderedRelay.Proofs.Network.Receiving
import OrderedRelay.Proofs.Network.Stopping
import OrderedRelay.Proofs.Network.Starting
import OrderedRelay.Proofs.Sequencing.Answers
import OrderedRelay.Proofs.Sequencing.Independence
import OrderedRelay.Proofs.Sequencing.Likeness
import OrderedRelay.Proofs.Sequencing.Renewal
import OrderedRelay.Proofs.Sequencing.Placing
import OrderedRelay.Proofs.Sequencing.Upkeep
import OrderedRelay.Proofs.Topic.Meaning
import OrderedRelay.Proofs.Topic.Addressing
import OrderedRelay.Proofs.Topic.Everyone
import OrderedRelay.Proofs.Transport.Membership
import OrderedRelay.Proofs.Sequencing.Checked
import OrderedRelay.Proofs.Sequencing.Range
import OrderedRelay.Proofs.Transport.Contract
import OrderedRelay.Proofs.Transport.Lawful
import OrderedRelay.Proofs.Transport.Reconnecting
import OrderedRelay.Proofs.Transport.FailedSubscribes
import OrderedRelay.Proofs.Transport.Ledger
import OrderedRelay.Proofs.Transport.Requests
import OrderedRelay.Proofs.Transport.Waiters
import OrderedRelay.Proofs.Transport.Acknowledgements
import OrderedRelay.Proofs.Topic.Matching
import OrderedRelay.Proofs.Sequencing.Runs
import OrderedRelay.Proofs.Sequencing.StrictSteps
import OrderedRelay.Proofs.Sequencing.LateJoin
import OrderedRelay.Proofs.Sequencing.LegacySteps
import OrderedRelay.Proofs.Text.Spelling
import OrderedRelay.Proofs.Topic.RoutingKeys
import OrderedRelay.Proofs.Topic.Bindings
import OrderedRelay.Proofs.Topic.Globs
import OrderedRelay.Proofs.Network.Losses
import OrderedRelay.Proofs.Text.Trim
import OrderedRelay.Proofs.Text.Signed
import OrderedRelay.Proofs.Message.NumberLists
import OrderedRelay.Proofs.Message.ConsumerLists
import OrderedRelay.Proofs.Sequencing.Loops
import OrderedRelay.Proofs.Binary64.Plain
import OrderedRelay.Proofs.Settings.Identity
import OrderedRelay.Proofs.Transport.Retries
