import OrderedRelay.Network.Carrier
import OrderedRelay.Proofs.Transport.Hub

/-!
# Members of a hub

Members join a hub and call their transports, in any order. Then the hub holds the subscriptions that they
have made and that nothing has ended since, in the order in which they were made. A member ends its own
subscriptions only: one by subscribing to its pattern again or unsubscribing from it, all of them by
unsubscribing from everything or disconnecting.
-/

namespace OrderedRelay

namespace Hub

variable {κ : Type}

/-! ### Steps -/

inductive Call (κ : Type) where
  | connect
  | disconnect
  | subscribe (pattern : String) (subscriber : κ)
  | unsubscribe (pattern : String)
  | unsubscribeAll
  | publish (p : Publication)

namespace Call

def run (m : Medium κ) (owner : Nat) : Call κ → Carrier.Outcome κ Unit
  | connect => (Carrier.channel owner).connect m
  | disconnect => (Carrier.channel owner).disconnect m
  | subscribe pattern subscriber => (Carrier.channel owner).subscribe m pattern subscriber
  | unsubscribe pattern => (Carrier.channel owner).unsubscribe m pattern
  | unsubscribeAll => (Carrier.channel owner).unsubscribeAll m
  | publish p => (Carrier.channel owner).publish m p

/-- Whether only a connected member can do it. -/
def needsConnection : Call κ → Bool
  | subscribe .. | unsubscribe _ | publish _ => true
  | connect | disconnect | unsubscribeAll => false

end Call

inductive Step (κ : Type) where
  | join
  | call (owner : Nat) (c : Call κ)

namespace Step

def after (m : Medium κ) : Step κ → Medium κ
  | join => { m with hub := m.hub.join.1 }
  | call owner c => (c.run m owner).line

def isJoin : Step κ → Bool
  | join => true
  | call .. => false

/-- Whether a step connects or disconnects a member. -/
def turns (owner : Nat) : Step κ → Option Bool
  | call o .connect => if o = owner then some true else none
  | call o .disconnect => if o = owner then some false else none
  | _ => none

/-- The subscription that a step makes: that of a subscribe that succeeds. -/
def made (m : Medium κ) : Step κ → List (HubSubscription κ)
  | call owner (.subscribe pattern subscriber) =>
    if ((Call.subscribe pattern subscriber).run m owner).result.isOk then
      [⟨owner, pattern, subscriber⟩]
    else []
  | _ => []

/-- Whether a step ends a subscription. Its member subscribes to the pattern again and succeeds,
unsubscribes from it, unsubscribes from everything, or disconnects when it is connected. -/
def ends (m : Medium κ) (s : HubSubscription κ) : Step κ → Bool
  | call owner (.subscribe pattern subscriber) =>
    isFor owner pattern s && ((Call.subscribe pattern subscriber).run m owner).result.isOk
  | call owner (.unsubscribe pattern) => isFor owner pattern s
  | call owner .unsubscribeAll => s.owner == owner
  | call owner .disconnect => s.owner == owner && m.hub.isConnected owner
  | _ => false

end Step

def after (m : Medium κ) (steps : List (Step κ)) : Medium κ := steps.foldl Step.after m

def endedIn (s : HubSubscription κ) : Medium κ → List (Step κ) → Bool
  | _, [] => false
  | m, step :: later => step.ends m s || endedIn s (step.after m) later

/-- The subscriptions that the steps make, in that order, without those that a later step ends. -/
def standing : Medium κ → List (Step κ) → List (HubSubscription κ)
  | _, [] => []
  | m, step :: later =>
    ((step.made m).filter fun s => !endedIn s (step.after m) later) ++ standing (step.after m) later

def ownedBy (h : Hub κ) (owner : Nat) : List (HubSubscription κ) :=
  h.subscriptions.filter fun s => s.owner == owner

/-- Only connected members have subscriptions. -/
def Owned (h : Hub κ) : Prop := ∀ s ∈ h.subscriptions, h.isConnected s.owner = true

/-- What a member has at most one subscription for. -/
def key (s : HubSubscription κ) : Nat × String := (s.owner, s.pattern)

/-! ### One step -/

section

variable {m : Medium κ} {step : Step κ} {c : Call κ}

/-- A call that needs a connection is refused without one; all others succeed. -/
theorem Call.result_run (c : Call κ) (m : Medium κ) (owner : Nat) :
    (c.run m owner).result =
      if c.needsConnection && !m.hub.isConnected owner then .error .notConnected else .ok () := by
  cases hconnected : m.hub.isConnected owner <;> cases c <;>
    simp [run, needsConnection, Carrier.connect, Carrier.disconnect, Carrier.subscribe,
      Carrier.unsubscribe, Carrier.unsubscribeAll, Carrier.publish, Carrier.done, Hub.subscribe,
      Hub.unsubscribe, Hub.publish, hconnected]

theorem Call.isOk_subscribe (m : Medium κ) (owner : Nat) (pattern : String) (subscriber : κ) :
    ((Call.subscribe pattern subscriber).run m owner).result.isOk = m.hub.isConnected owner := by
  rw [result_run]
  cases m.hub.isConnected owner <;> rfl

/-- A step keeps the subscriptions that it does not end, and puts the one it makes last. -/
theorem Step.subscriptions_after (howned : m.hub.Owned) (step : Step κ) :
    (step.after m).hub.subscriptions =
      (m.hub.subscriptions.filter fun s => !step.ends m s) ++ step.made m := by
  cases step with
  | join => simp [after, Hub.join, ends, made]
  | call owner c =>
    cases c with
    | connect =>
      have hkept := subscriptions_connect m.hub owner
      simpa [ends, made, after, Call.run, Carrier.connect, Carrier.done] using hkept
    | disconnect =>
      simp only [ends, made, List.append_nil]
      exact subscriptions_disconnect m.hub owner
    | subscribe pattern subscriber =>
      simp only [ends, made, Call.isOk_subscribe]
      exact subscriptions_subscribe m.hub owner pattern subscriber
    | unsubscribe pattern =>
      simp only [ends, made, List.append_nil]
      refine (subscriptions_unsubscribe m.hub owner pattern).trans (List.filter_congr fun s hs => ?_)
      -- A member that is not connected has nothing that its unsubscribe would fail to end.
      by_cases howner : s.owner = owner
      · simp [← howner, howned s hs]
      · simp [isFor, howner]
    | unsubscribeAll =>
      simp [after, Call.run, Carrier.unsubscribeAll, Carrier.done, leave, ends, made, beq_eq_decide]
    | publish p => simp [after, Call.run, Carrier.publish, ends, made]

theorem Step.isConnected_after (m : Medium κ) (step : Step κ) (owner : Nat) :
    (step.after m).hub.isConnected owner =
      (step.turns owner).getD (m.hub.isConnected owner) := by
  cases step with
  | join => rfl
  | call o c =>
    cases c with
    | connect =>
      refine (isConnected_connect m.hub o owner).trans ?_
      by_cases heq : o = owner <;> simp [turns, heq]
    | disconnect =>
      refine (isConnected_disconnect m.hub o owner).trans ?_
      by_cases heq : o = owner <;> simp [turns, heq]
    | subscribe pattern subscriber =>
      simp only [after, Call.run, Carrier.subscribe, Carrier.done, Hub.subscribe]
      split_ifs <;> rfl
    | unsubscribe pattern =>
      simp only [after, Call.run, Carrier.unsubscribe, Carrier.done, Hub.unsubscribe]
      split_ifs <;> rfl
    | unsubscribeAll => rfl
    | publish p => rfl

theorem Call.members_run (c : Call κ) (m : Medium κ) (owner : Nat) :
    (c.run m owner).line.hub.members = m.hub.members := by
  cases c with
  | connect =>
    show (m.hub.connect owner).members = _
    unfold Hub.connect
    split_ifs <;> rfl
  | disconnect =>
    show (m.hub.disconnect owner).members = _
    unfold Hub.disconnect
    split_ifs <;> rfl
  | subscribe pattern subscriber =>
    show (m.hub.subscribe owner pattern subscriber).1.members = _
    unfold Hub.subscribe
    split_ifs <;> rfl
  | unsubscribe pattern =>
    show (m.hub.unsubscribe owner pattern).1.members = _
    unfold Hub.unsubscribe
    split_ifs <;> rfl
  | unsubscribeAll | publish => rfl

theorem Step.eq_call_of_mem_made {s : HubSubscription κ} (hs : s ∈ step.made m) :
    step = .call s.owner (.subscribe s.pattern s.subscriber) ∧
      m.hub.isConnected s.owner = true := by
  unfold made at hs
  split at hs
  · rw [Call.isOk_subscribe] at hs
    split_ifs at hs with hconnected
    · obtain rfl := List.mem_singleton.mp hs
      exact ⟨rfl, hconnected⟩
    · cases hs
  · cases hs

theorem Step.owner_of_ends {owner : Nat} {s : HubSubscription κ}
    (h : (Step.call owner c).ends m s = true) : s.owner = owner := by
  cases c <;> simp_all [ends, isFor]

theorem Step.eq_disconnect_of_turns {owner : Nat} (h : step.turns owner = some false) :
    step = .call owner .disconnect := by
  unfold turns at h
  split at h
  · split_ifs at h
    cases h
  · split_ifs at h with howner
    rw [howner]
  · cases h

theorem Step.nodup_made (m : Medium κ) (step : Step κ) : ((step.made m).map key).Nodup := by
  unfold made
  split
  · split_ifs
    · exact by simp
    · exact List.nodup_nil
  · exact List.nodup_nil

theorem Step.owned_after (howned : m.hub.Owned) (step : Step κ) : (step.after m).hub.Owned := by
  intro s hs
  rw [subscriptions_after howned, List.mem_append] at hs
  rw [isConnected_after]
  rcases hs with hkept | hnew
  · obtain ⟨hs, hends⟩ := List.mem_filter.mp hkept
    rcases hturns : step.turns s.owner with _ | connected
    · exact howned s hs
    · cases connected with
      | true => rfl
      | false =>
        -- The disconnect of the member has ended the subscription.
        rw [eq_disconnect_of_turns hturns] at hends
        simp [ends, howned s hs] at hends
  · obtain ⟨rfl, hconnected⟩ := eq_call_of_mem_made hnew
    exact hconnected

theorem Step.nodup_after (howned : m.hub.Owned) (hnodup : (m.hub.subscriptions.map key).Nodup)
    (step : Step κ) : ((step.after m).hub.subscriptions.map key).Nodup := by
  rw [subscriptions_after howned, List.map_append, List.nodup_append]
  refine ⟨hnodup.sublist (List.filter_sublist.map _), step.nodup_made m, ?_⟩
  rintro a ha b hb rfl
  obtain ⟨s, hs, rfl⟩ := List.mem_map.mp ha
  obtain ⟨t, ht, hkey⟩ := List.mem_map.mp hb
  obtain ⟨hs, hends⟩ := List.mem_filter.mp hs
  obtain ⟨rfl, hconnected⟩ := eq_call_of_mem_made ht
  -- A kept subscription of the same key would have been ended by the new one.
  obtain ⟨howner, hpattern⟩ := Prod.mk.inj hkey
  have hended : isFor t.owner t.pattern s = true := by simp [isFor, howner, hpattern]
  simp [ends, Call.isOk_subscribe, hended, hconnected] at hends

theorem Call.ownedBy_run (howned : m.hub.Owned) {owner other : Nat} (hne : other ≠ owner)
    (c : Call κ) : (c.run m owner).line.hub.ownedBy other = m.hub.ownedBy other := by
  have hsubscriptions := Step.subscriptions_after howned (.call owner c)
  have hnew : ((Step.call owner c).made m).filter (fun s => s.owner == other) = [] := by
    refine List.filter_eq_nil_iff.mpr fun s hs howner => hne ?_
    obtain ⟨hcall, -⟩ := Step.eq_call_of_mem_made hs
    rw [← beq_iff_eq.mp howner, (Step.call.inj hcall).1]
  have hkept : ∀ s : HubSubscription κ,
      (s.owner == other && !(Step.call owner c).ends m s) = (s.owner == other) := by
    intro s
    by_cases howner : s.owner = other
    · have hends : (Step.call owner c).ends m s = false := by
        rw [← Bool.not_eq_true]
        exact fun h => hne (howner ▸ Step.owner_of_ends h)
      rw [hends, Bool.not_false, Bool.and_true]
    · simp [howner]
  unfold ownedBy
  rw [show (c.run m owner).line.hub.subscriptions = _ from hsubscriptions, List.filter_append, hnew,
    List.append_nil, List.filter_filter]
  simp only [hkept]

theorem Call.run_of_refused {owner : Nat} (h : (c.run m owner).result = .error .notConnected) :
    (c.run m owner).line = m ∧ (c.run m owner).told = [] := by
  rw [result_run] at h
  split_ifs at h with hrefused
  obtain ⟨hneeds, hconnected⟩ := Bool.and_eq_true_iff.mp hrefused
  rw [Bool.not_eq_true'] at hconnected
  cases c with
  | connect | disconnect | unsubscribeAll => cases hneeds
  | subscribe pattern subscriber =>
    simp [run, Carrier.subscribe, Carrier.done, Hub.subscribe, hconnected]
  | unsubscribe pattern => simp [run, Carrier.unsubscribe, Carrier.done, Hub.unsubscribe, hconnected]
  | publish p => simp [run, Carrier.publish, Hub.publish, hconnected]

end

/-! ### Any steps -/

section

variable {m : Medium κ}

theorem after_append (m : Medium κ) (before later : List (Step κ)) :
    after m (before ++ later) = after (after m before) later := List.foldl_append

theorem owned_after (howned : m.hub.Owned) (steps : List (Step κ)) : (after m steps).hub.Owned := by
  induction steps generalizing m with
  | nil => exact howned
  | cons step later ih => exact ih (step.owned_after howned)

theorem nodup_after (howned : m.hub.Owned) (hnodup : (m.hub.subscriptions.map key).Nodup)
    (steps : List (Step κ)) : ((after m steps).hub.subscriptions.map key).Nodup := by
  induction steps generalizing m with
  | nil => exact hnodup
  | cons step later ih => exact ih (step.owned_after howned) (step.nodup_after howned hnodup)

theorem subscriptions_after (howned : m.hub.Owned) (steps : List (Step κ)) :
    (after m steps).hub.subscriptions =
      (m.hub.subscriptions.filter fun s => !endedIn s m steps) ++ standing m steps := by
  induction steps generalizing m with
  | nil => simp [after, endedIn, standing]
  | cons step later ih =>
    -- The later steps end some of what there was and some of what this step makes.
    have hlater := ih (step.owned_after howned)
    rw [step.subscriptions_after howned, List.filter_append, List.filter_filter] at hlater
    refine hlater.trans ?_
    simp only [endedIn, standing, Bool.not_or, Bool.and_comm, List.append_assoc]

theorem isConnected_after (m : Medium κ) (steps : List (Step κ)) (owner : Nat) :
    (after m steps).hub.isConnected owner =
      ((steps.filterMap (Step.turns owner)).getLast?).getD (m.hub.isConnected owner) := by
  induction steps generalizing m with
  | nil => rfl
  | cons step later ih =>
    refine (ih (step.after m)).trans ?_
    rw [step.isConnected_after, List.filterMap_cons]
    cases step.turns owner with
    | none => rfl
    | some connected => simp [List.getLast?_cons]

theorem members_after (m : Medium κ) (steps : List (Step κ)) :
    (after m steps).hub.members = m.hub.members + steps.countP Step.isJoin := by
  induction steps generalizing m with
  | nil => rfl
  | cons step later ih =>
    refine (ih (step.after m)).trans ?_
    rw [List.countP_cons]
    cases step with
    | join => simp [Step.after, Hub.join, Step.isJoin]; omega
    | call owner c =>
      rw [show ((Step.call owner c).after m).hub.members = _ from c.members_run m owner]
      rfl

theorem mem_of_mem_standing {s : HubSubscription κ} {steps : List (Step κ)}
    (hs : s ∈ standing m steps) : .call s.owner (.subscribe s.pattern s.subscriber) ∈ steps := by
  induction steps generalizing m with
  | nil => cases hs
  | cons step later ih =>
    rcases List.mem_append.mp hs with hmade | hstanding
    · obtain ⟨hcall, -⟩ := Step.eq_call_of_mem_made (List.mem_filter.mp hmade).1
      exact hcall ▸ List.mem_cons_self
    · exact List.mem_cons_of_mem _ (ih hstanding)

theorem ownedBy_after_disconnect (howned : m.hub.Owned) {owner : Nat} {later : List (Step κ)}
    (hlater : ∀ pattern subscriber, .call owner (.subscribe pattern subscriber) ∉ later) :
    (after m (.call owner .disconnect :: later)).hub.ownedBy owner = [] := by
  have hgone := (Step.call owner .disconnect).owned_after howned
  have hoff : ((Step.call owner .disconnect).after m).hub.isConnected owner = false := by
    rw [Step.isConnected_after]
    simp [Step.turns]
  refine List.filter_eq_nil_iff.mpr fun s hs howner => ?_
  obtain rfl := beq_iff_eq.mp howner
  rw [show after m (_ :: later) = after _ later from rfl, subscriptions_after hgone,
    List.mem_append] at hs
  -- Nothing is left of what it had, and what is made later is for members that subscribe.
  rcases hs with hold | hnew
  · exact Bool.noConfusion (hoff.symm.trans (hgone s (List.mem_filter.mp hold).1))
  · exact hlater _ _ (mem_of_mem_standing hnew)

end

/-- What is true of a hub after any steps, from the beginning. -/
structure Keeps (steps : List (Step κ)) : Prop where
  /-- The hub holds what was made and not ended, in the order in which it was made. -/
  subscriptions : (after {} steps).hub.subscriptions = standing {} steps
  distinct : ((after {} steps).hub.subscriptions.map key).Nodup
  owned : (after {} steps).hub.Owned
  /-- A member is connected if its latest connect or disconnect is a connect. -/
  connected : ∀ owner, (after {} steps).hub.isConnected owner =
    ((steps.filterMap (Step.turns owner)).getLast?).getD false
  /-- Members are numbered as they join. -/
  numbered : (after {} steps).hub.join.2 = steps.countP Step.isJoin
  answered : ∀ owner (c : Call κ), (c.run (after {} steps) owner).result =
    if c.needsConnection && !(after {} steps).hub.isConnected owner then .error .notConnected
    else .ok ()
  refused : ∀ owner (c : Call κ), (c.run (after {} steps) owner).result = .error .notConnected →
    (c.run (after {} steps) owner).line = after {} steps ∧ (c.run (after {} steps) owner).told = []
  apart : ∀ owner (c : Call κ) other, other ≠ owner →
    (c.run (after {} steps) owner).line.hub.ownedBy other = (after {} steps).hub.ownedBy other
  published : ∀ owner p, (after {} steps).hub.isConnected owner = true →
    ((Call.publish p).run (after {} steps) owner).line = after {} steps ∧
      ((Call.publish p).run (after {} steps) owner).told =
        ((standing {} steps).filter fun s => Topic.isMatch s.pattern p.topic).map fun s =>
          ⟨s.subscriber, p.topic, .ok p.message⟩
  /-- Whether it connects again or not, a member that disconnects has nothing until it subscribes. -/
  anew : ∀ before owner later, steps = before ++ .call owner .disconnect :: later →
    (∀ pattern subscriber, .call owner (.subscribe pattern subscriber) ∉ later) →
    (after {} steps).hub.ownedBy owner = []

/-- Whatever members do, in any order, a hub holds for each of them the subscriptions that it made last
and nothing has ended, and tells exactly those that match. -/
theorem keeps_subscriptions (steps : List (Step κ)) : Keeps steps := by
  have hempty : ({} : Medium κ).hub.Owned := nofun
  have hsubscriptions : (after {} steps).hub.subscriptions = standing {} steps :=
    subscriptions_after hempty steps
  exact {
    subscriptions := hsubscriptions
    distinct := nodup_after hempty List.nodup_nil steps
    owned := owned_after hempty steps
    connected := isConnected_after {} steps
    numbered := (members_after {} steps).trans (Nat.zero_add _)
    answered := fun owner c => c.result_run _ owner
    refused := fun owner c => c.run_of_refused
    apart := fun owner c other hne => c.ownedBy_run (owned_after hempty steps) hne
    published := fun owner p hconnected => by
      rw [← hsubscriptions]
      simp [Call.run, Carrier.publish, Hub.publish, Hub.deliveries, hconnected]
    anew := fun before owner later hsteps hlater => by
      rw [hsteps, after_append]
      exact ownedBy_after_disconnect (owned_after hempty before) hlater }

/-- A subscription that is made again moves to the end, and goes only with its own member. -/
example :
    let steps : List (Step String) := [.join, .join, .call 0 .connect, .call 1 .connect,
      .call 0 (.subscribe "a/+" "x"), .call 1 (.subscribe "a/+" "y"), .call 0 (.subscribe "a/+" "z")]
    standing {} steps = [⟨1, "a/+", "y"⟩, ⟨0, "a/+", "z"⟩] ∧
      standing {} (steps ++ [.call 1 .disconnect, .call 1 .connect]) = [⟨0, "a/+", "z"⟩] := by
  decide

end Hub

end OrderedRelay
