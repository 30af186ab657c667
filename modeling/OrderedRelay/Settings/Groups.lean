import OrderedRelay.Settings.Basic
import OrderedRelay.Settings.Value

/-!
# Groups of settings

The relay, its ordering and the transport read from values. A field that is absent keeps its default;
one that is there and does not convert makes the whole group unsuitable.
-/

namespace OrderedRelay

def PolicyName.options : List (String × PolicyName) := [("strict", strict), ("legacy", legacy)]

def TransportKind.options : List (String × TransportKind) :=
  [("channel", channel), ("redis", redis), ("amqp", amqp), ("mqtt", mqtt)]

def OrderingSettings.ofValue? (v : SettingValue) : Option OrderingSettings := do
  let default : OrderingSettings := {}
  let fields ← v.fields? ["policy", "max_pending", "resync_after"]
  return {
    policy := ← fields.fieldOr (SettingValue.toOption? PolicyName.options) default.policy "policy"
    maxPending := ← fields.fieldOr SettingValue.toNat? default.maxPending "max_pending"
    resyncAfter := ← fields.fieldOr SettingValue.toNat? default.resyncAfter "resync_after" }

def RelaySettings.ofValue? (base : RelaySettings) (v : SettingValue) : Option RelaySettings := do
  let fields ← v.fields?
    ["domain", "instance_id", "consume_broadcasts", "subscribe_timeout_secs", "ordering"]
  return {
    domain := ← fields.fieldOr SettingValue.toText? base.domain "domain"
    instanceId := ← fields.fieldOr SettingValue.toText? base.instanceId "instance_id"
    consumeBroadcasts :=
      ← fields.fieldOr SettingValue.toBool? base.consumeBroadcasts "consume_broadcasts"
    subscribeTimeout :=
      ← fields.fieldOr SettingValue.toNat? base.subscribeTimeout "subscribe_timeout_secs"
    ordering := ← fields.fieldOr OrderingSettings.ofValue? base.ordering "ordering" }

def TransportSettings.ofValue? (v : SettingValue) : Option TransportSettings := do
  let default : TransportSettings := {}
  let fields ← v.fields? ["type", "urls", "exchange", "keep_alive_secs"]
  return {
    kind := ← fields.fieldOr (SettingValue.toOption? TransportKind.options) default.kind "type"
    urls := ← fields.fieldOr SettingValue.toTexts? default.urls "urls"
    exchange := ← fields.fieldOr SettingValue.toText? default.exchange "exchange"
    keepAlive := ← fields.fieldOr SettingValue.toNat? default.keepAlive "keep_alive_secs" }

def Settings.ofEntries? (base : Settings) (entries : Table SettingValue) : Option Settings := do
  return {
    relay := ← entries.fieldOr (RelaySettings.ofValue? base.relay) base.relay "relay"
    transport := ← entries.fieldOr TransportSettings.ofValue? base.transport "transport" }

end OrderedRelay
