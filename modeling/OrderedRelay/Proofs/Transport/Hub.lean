import OrderedRelay.Transport.Hub
import Mathlib.Data.List.Basic
import Mathlib.Tactic.SplitIfs

/-!
# Laws of the hub

What each operation makes of the subscriptions and of who is connected. A subscribe or unsubscribe touches
the member's own subscription for its pattern at most, and nothing unless the member is connected.
-/

namespace OrderedRelay

namespace Hub

variable {κ : Type}

/-! ### Subscriptions -/

theorem subscriptions_connect (h : Hub κ) (owner : Nat) :
    (h.connect owner).subscriptions = h.subscriptions := by
  unfold connect
  split_ifs <;> rfl

theorem subscriptions_disconnect (h : Hub κ) (owner : Nat) :
    (h.disconnect owner).subscriptions =
      h.subscriptions.filter fun s => !(s.owner == owner && h.isConnected owner) := by
  unfold disconnect
  split_ifs with hconnected
  · simp [leave, hconnected, beq_eq_decide]
  · simp [hconnected]

theorem subscriptions_subscribe (h : Hub κ) (owner : Nat) (pattern : String) (subscriber : κ) :
    (h.subscribe owner pattern subscriber).1.subscriptions =
      (h.subscriptions.filter fun s => !(isFor owner pattern s && h.isConnected owner)) ++
        if h.isConnected owner then [⟨owner, pattern, subscriber⟩] else [] := by
  unfold subscribe
  split_ifs with hconnected
  · simp [hconnected]
  · simp [hconnected]

theorem subscriptions_unsubscribe (h : Hub κ) (owner : Nat) (pattern : String) :
    (h.unsubscribe owner pattern).1.subscriptions =
      h.subscriptions.filter fun s => !(isFor owner pattern s && h.isConnected owner) := by
  unfold unsubscribe
  split_ifs with hconnected
  · simp [hconnected]
  · simp [hconnected]

theorem mem_subscribe {h : Hub κ} {owner : Nat} {pattern : String} {subscriber : κ}
    {x : HubSubscription κ} (hx : x ∈ (h.subscribe owner pattern subscriber).1.subscriptions) :
    x ∈ h.subscriptions ∨ (x.pattern = pattern ∧ x.subscriber = subscriber) := by
  rw [subscriptions_subscribe, List.mem_append] at hx
  rcases hx with hold | hnew
  · exact Or.inl (List.mem_filter.mp hold).1
  · split_ifs at hnew
    · obtain rfl := List.mem_singleton.mp hnew
      exact Or.inr ⟨rfl, rfl⟩
    · cases hnew

theorem isSubscribed_subscribe {h : Hub κ} {owner : Nat} (hconnected : h.isConnected owner = true)
    (topic t : String) (subscriber : κ) :
    (h.subscribe owner topic subscriber).1.isSubscribed owner t =
      (decide (t = topic) || h.isSubscribed owner t) := by
  rw [subscribe, if_pos hconnected]
  simp only [isSubscribed, List.any_append, List.any_filter, List.any_cons, List.any_nil, Bool.or_false]
  by_cases ht : t = topic
  · simp [ht, isFor]
  · have hother : ∀ s : HubSubscription κ,
        (!isFor owner topic s && isFor owner t s) = isFor owner t s := by
      intro s
      by_cases hs : s.pattern = t
      · simp [isFor, hs, ht]
      · simp [isFor, hs]
    have hnew : isFor owner t (⟨owner, topic, subscriber⟩ : HubSubscription κ) = false := by
      simp [isFor, Ne.symm ht]
    simp only [hother, hnew, decide_eq_false ht, Bool.or_false, Bool.false_or]

/-! ### Connections -/

theorem isConnected_connect (h : Hub κ) (owner other : Nat) :
    (h.connect owner).isConnected other = (decide (owner = other) || h.isConnected other) := by
  unfold connect
  split_ifs with hconnected
  · by_cases heq : owner = other
    · simp [← heq, hconnected]
    · simp [heq]
  · simp [isConnected, eq_comm (a := other)]

theorem isConnected_disconnect (h : Hub κ) (owner other : Nat) :
    (h.disconnect owner).isConnected other = (!decide (owner = other) && h.isConnected other) := by
  unfold disconnect
  split_ifs with hconnected
  · simp [isConnected, Bool.and_comm, eq_comm (a := other)]
  · by_cases heq : owner = other
    · simp [← heq, hconnected]
    · simp [heq]

end Hub

end OrderedRelay
