import OrderedRelay.Proofs.Sequencing.Likeness
import OrderedRelay.Proofs.Sequencing.Range

/-!
# Restart of a producer

When a producer comes back with another timestamp, an engine takes its messages as one does that has
never seen it. The two engines are compared call by call: until the first message of the new incarnation
has a seat their trackings become alike only by entering the timestamp, afterwards they are alike. What
waited from before is dropped on the way and never released.
-/

namespace OrderedRelay

variable {α : Type}

namespace Tracking

variable {t u : Tracking α} {policy : Policy} {timestamp incarnation : Binary64} {number : Nat}
  {item : α}

/-- On entering the incarnation the trackings become alike. -/
def Renews (incarnation : Binary64) (t u : Tracking α) : Prop :=
  ∀ timestamp, timestamp.equals incarnation = true → (t.enter timestamp).Like (u.enter timestamp)

theorem Like.renews (h : t.Like u) (incarnation : Binary64) : Renews incarnation t u :=
  fun _ hts => h.enter (Binary64.equals_self_left hts)

theorem Sound.renews_fresh (hs : t.Sound policy) (hne : t.incarnation.equals incarnation = false) :
    Renews incarnation t {} := by
  intro timestamp hts
  rw [hs.enter_of_ne ((Binary64.equals_congr_right _ hts).trans hne)]
  by_cases hzero : (Tracking.incarnation ({} : Tracking α)).equals timestamp = true
  · rw [enter_of_equals hzero]
    exact ⟨rfl, Binary64.equals_symm hzero, .nil⟩
  · rw [(sound_fresh policy).enter_of_ne (Bool.eq_false_iff.mpr hzero)]
    exact ⟨rfl, Binary64.equals_self_left hts, .nil⟩

/-- What an arrival releases, or leaves waiting, waited already or is the arrival. -/
theorem Sound.item_accept (hs : t.Sound policy) (htop : number < topNumber)
    (hself : timestamp.equals timestamp = true) {x : α}
    (hx : x ∈ (Tracking.accept policy t timestamp number item).2 ∨
      x ∈ (Tracking.accept policy t timestamp number item).1.buffer.map Early.item) :
    x = item ∨ x ∈ (t.enter timestamp).buffer.map Early.item := by
  obtain ⟨out, hlaw⟩ := accept_law hs htop hself item
  have hmem : x ∈ ((t.enter timestamp).stock policy
      ⟨number, (t.enter timestamp).incarnation, item⟩).map Early.item := by
    rw [← hlaw.split, List.map_append, List.mem_append, ← hlaw.released_eq]
    exact hx
  obtain ⟨y, hy, rfl⟩ := List.mem_map.mp hmem
  rcases mem_stock (hs.enter timestamp) hy with rfl | hwaiting
  · exact Or.inl rfl
  · exact Or.inr (List.mem_map_of_mem hwaiting)

end Tracking

namespace Engine

variable {e f : Engine α} {consumer producer : String} {policy : Policy} {incarnation : Binary64}
  {c : Header × α} {past before calls : List (Header × α)}

theorem toOption_check_of_no_seat {h : Header} (hseat : h.seat? e.consumer = none) (item : α) :
    (e.check h item).2.toOption = if h.isFaulty then none else some (released (e.check h item).2) := by
  unfold Header.seat? at hseat
  cases hplace : h.placement with
  | none => simp [check_of_none hplace, Header.isFaulty, hplace, Verdict.toOption, released]
  | untimed p => simp [check_of_untimed hplace, Header.isFaulty, hplace, Verdict.toOption]
  | numbered p timestamp consumers raw =>
    simp only [hplace] at hseat
    simp only [check, hplace, place?, Header.isFaulty]
    cases hnumbers : OrderNumbers.decode raw with
    | error token => simp [Verdict.toOption]
    | ok numbers =>
      simp only [hnumbers, ite_eq_right_iff, reduceCtorEq, imp_false, not_and, not_not] at hseat
      by_cases hlength : numbers.length = consumers.length
      · simp [hlength, numberFor?_eq e.consumer hlength, hseat hlength, bind, Except.bind, pure,
          Except.pure, Verdict.toOption, released]
      · simp only [hlength, ne_eq, not_false_eq_true, if_true, bind, Except.bind, decide_true]
        cases (e.tracking p).nextExpected? <;> rfl

/-- A seat that the call has is one of the producer, in the incarnation. -/
def KeepsTo (consumer producer : String) (incarnation : Binary64) (c : Header × α) : Prop :=
  ∀ s, c.1.seat? consumer = some s → s.producer = producer ∧ s.timestamp.equals incarnation = true

instance (consumer producer : String) (incarnation : Binary64) (c : Header × α) :
    Decidable (KeepsTo consumer producer incarnation c) :=
  inferInstanceAs (Decidable (∀ s ∈ c.1.seat? consumer,
    s.producer = producer ∧ s.timestamp.equals incarnation = true))

/-- How two engines stand that have taken in the same calls since a restart: on entering the incarnation
their trackings become alike, they are alike once a call had a seat, and nothing is kept in the
incarnation but what these calls brought. -/
structure InStep (producer : String) (incarnation : Binary64) (past : List (Header × α))
    (e f : Engine α) : Prop where
  consumer : e.consumer = f.consumer
  policy : e.policy = f.policy
  sound : (e.tracking producer).Sound e.policy
  sound_other : (f.tracking producer).Sound f.policy
  renews : (e.tracking producer).Renews incarnation (f.tracking producer)
  like : (∃ c ∈ past, (c.1.seat? e.consumer).isSome = true) →
    (e.tracking producer).Like (f.tracking producer)
  brought : ∀ timestamp, timestamp.equals incarnation = true →
    ∀ x ∈ ((e.tracking producer).enter timestamp).buffer, x.item ∈ past.map Prod.snd

/-- The engines answer a call alike, release nothing but what has come, and stay in step. -/
structure StayInStep (producer : String) (incarnation : Binary64) (past : List (Header × α))
    (c : Header × α) (e f : Engine α) : Prop where
  inStep : InStep producer incarnation (past ++ [c]) (e.check c.1 c.2).1 (f.check c.1 c.2).1
  answer_eq : (e.check c.1 c.2).2.toOption = (f.check c.1 c.2).2.toOption
  given : ∀ x ∈ released (e.check c.1 c.2).2, x ∈ (past ++ [c]).map Prod.snd

theorem InStep.unseated (h : InStep producer incarnation past e f)
    (hseat : c.1.seat? e.consumer = none) : StayInStep producer incarnation past c e f := by
  obtain ⟨hec, hep⟩ := check_consumer e c.1 c.2
  obtain ⟨hfc, hfp⟩ := check_consumer f c.1 c.2
  have hseat' : c.1.seat? f.consumer = none := h.consumer ▸ hseat
  obtain ⟨hekept, hereleased⟩ := check_of_no_seat hseat c.2
  obtain ⟨hfkept, hfreleased⟩ := check_of_no_seat hseat' c.2
  refine ⟨⟨?_, ?_, ?_, ?_, ?_, ?_, ?_⟩, ?_, ?_⟩
  · rw [hec, hfc, h.consumer]
  · rw [hep, hfp, h.policy]
  · rw [hekept, hep]
    exact h.sound
  · rw [hfkept, hfp]
    exact h.sound_other
  · rw [hekept, hfkept]
    exact h.renews
  · rintro ⟨d, hd, hsome⟩
    rw [hec] at hsome
    rw [hekept, hfkept]
    rcases List.mem_append.mp hd with hd | hd
    · exact h.like ⟨d, hd, hsome⟩
    · rw [List.mem_singleton.mp hd, hseat] at hsome
      cases hsome
  · intro timestamp hts x hx
    rw [hekept] at hx
    rw [List.map_append]
    exact List.mem_append_left _ (h.brought timestamp hts x hx)
  · rw [toOption_check_of_no_seat hseat, toOption_check_of_no_seat hseat', hereleased, hfreleased]
  · intro x hx
    rw [hereleased] at hx
    split_ifs at hx
    · rw [List.mem_singleton.mp hx]
      simp
    · cases hx

theorem InStep.seated {s : Seat} (h : InStep producer incarnation past e f)
    (hseat : c.1.seat? e.consumer = some s) (htop : s.number < topNumber)
    (hown : s.producer = producer) (hts : s.timestamp.equals incarnation = true) :
    StayInStep producer incarnation past c e f := by
  subst hown
  have hseat' : c.1.seat? f.consumer = some s := h.consumer ▸ hseat
  have hother := h.policy ▸ h.sound_other
  obtain ⟨hlike, hreleased⟩ := (h.renews s.timestamp hts).accept h.sound hother htop c.2
  have hself := Binary64.equals_self_left hts
  obtain ⟨out, hlaw⟩ := Tracking.accept_law h.sound htop hself c.2
  have hcur : ((e.tracking s.producer).accept e.policy s.timestamp s.number c.2).1.incarnation.equals
      incarnation = true := by
    rw [hlaw.incarnation_eq]
    exact Binary64.equals_trans (Tracking.enter_incarnation_equals _ hself) hts
  -- What waits or leaves now had waited in this incarnation, or has just come.
  have hitems : ∀ x, x ∈ ((e.tracking s.producer).accept e.policy s.timestamp s.number c.2).2 ∨
      x ∈ ((e.tracking s.producer).accept e.policy s.timestamp s.number c.2).1.buffer.map
        Early.item → x ∈ (past ++ [c]).map Prod.snd := by
    intro x hx
    rw [List.map_append, List.mem_append]
    rcases h.sound.item_accept htop hself hx with rfl | hwaiting
    · exact Or.inr (List.mem_singleton_self _)
    · obtain ⟨y, hy, rfl⟩ := List.mem_map.mp hwaiting
      exact Or.inl (h.brought s.timestamp hts y hy)
  have he := check_of_sound hseat h.sound htop c.2
  have hf := check_of_sound hseat' h.sound_other htop c.2
  rw [← h.policy, ← hreleased] at hf
  constructor <;> rw [he]
  case answer_eq => rw [hf]
  case given => exact fun x hx => hitems x (Or.inl hx)
  rw [hf]
  refine ⟨h.consumer, h.policy, ?_, ?_, ?_, ?_, ?_⟩
  · rw [tracking_track, if_pos rfl]
    exact hlaw.sound
  · rw [tracking_track, if_pos rfl]
    exact h.policy ▸ hother.accept htop
  · rw [tracking_track, tracking_track, if_pos rfl, if_pos rfl]
    exact hlike.renews incarnation
  · rw [tracking_track, tracking_track, if_pos rfl, if_pos rfl]
    exact fun _ => hlike
  · intro timestamp hother x hx
    rw [tracking_track, if_pos rfl, Tracking.enter_of_equals
      (Binary64.equals_trans hcur (Binary64.equals_symm hother))] at hx
    exact hitems x.item (Or.inr (List.mem_map_of_mem hx))

theorem InStep.check (h : InStep producer incarnation past e f) (htop : BelowTop e.consumer c)
    (hkeeps : KeepsTo e.consumer producer incarnation c) :
    StayInStep producer incarnation past c e f := by
  cases hseat : c.1.seat? e.consumer with
  | none => exact h.unseated hseat
  | some s =>
    obtain ⟨hown, hts⟩ := hkeeps s hseat
    exact h.seated hseat (htop s hseat) hown hts

theorem InStep.run (h : InStep producer incarnation [] e f)
    (htop : ∀ c ∈ calls, BelowTop e.consumer c)
    (hcalls : ∀ c ∈ calls, KeepsTo e.consumer producer incarnation c) :
    InStep producer incarnation calls (e.run calls).1 (f.run calls).1 ∧
      (e.run calls).2.map Verdict.toOption = (f.run calls).2.map Verdict.toOption ∧
      ∀ x ∈ e.releases calls, x ∈ calls.map Prod.snd := by
  induction calls using List.reverseRecOn with
  | nil => exact ⟨h, rfl, nofun⟩
  | append_singleton past c ih =>
    obtain ⟨hpast, hresults, hitems⟩ := ih (fun d hd => htop d (List.mem_append_left _ hd))
      fun d hd => hcalls d (List.mem_append_left _ hd)
    have hconsumer := (run_consumer e past).1
    have hstep : StayInStep producer incarnation past c (e.run past).1 (f.run past).1 := by
      apply hpast.check
      · rw [hconsumer]
        exact htop c (by simp)
      · rw [hconsumer]
        exact hcalls c (by simp)
    obtain ⟨hafter, hresult, hgiven⟩ := hstep
    rw [run_append, run_append]
    refine ⟨hafter, ?_, fun x hx => ?_⟩
    · simp only [Engine.run, List.map_append, List.map_cons, List.map_nil]
      rw [hresults, hresult]
    · rw [releases_append, releases_singleton, List.mem_append] at hx
      rcases hx with hx | hx
      · rw [List.map_append]
        exact List.mem_append_left _ (hitems x hx)
      · exact hgiven x hx

theorem inStep_of_restart (hs : (e.tracking producer).Sound e.policy)
    (hother : ∀ t, e.tracking? producer = some t → t.incarnation.equals incarnation = false)
    (hconsumer : e.consumer = f.consumer) (hpolicy : e.policy = f.policy)
    (hnew : f.tracking? producer = none) : InStep producer incarnation [] e f := by
  have hstart : (e.tracking producer).Renews incarnation {} ∧
      ∀ timestamp, timestamp.equals incarnation = true →
        ((e.tracking producer).enter timestamp).buffer = [] := by
    cases hseen : e.tracking? producer with
    | none =>
      rw [tracking_of_unseen hseen]
      exact ⟨Tracking.like_fresh.renews incarnation,
        fun timestamp _ => (Tracking.enter_fresh timestamp).2⟩
    | some t =>
      have hne : (e.tracking producer).incarnation.equals incarnation = false := by
        rw [tracking, hseen]
        exact hother t hseen
      refine ⟨hs.renews_fresh hne, fun timestamp hts => ?_⟩
      rw [hs.enter_of_ne ((Binary64.equals_congr_right _ hts).trans hne)]
  refine ⟨hconsumer, hpolicy, hs, ?_, ?_, by simp, fun timestamp hts x hx => ?_⟩
  · rw [tracking_of_unseen hnew]
    exact Tracking.sound_fresh f.policy
  · rw [tracking_of_unseen hnew]
    exact hstart.1
  · rw [hstart.2 timestamp hts] at hx
    cases hx

/-- After a restart a reachable engine does with the messages of the producer what an engine does that
has never seen it: it refuses the same of them and releases the same items at each, and from the first
message with a seat on it waits for the same number and keeps the same numbers. Nothing that waited
before the restart is released. -/
theorem restart_equals_fresh_start (htop : ∀ c ∈ before ++ calls, BelowTop consumer c)
    (hother : ∀ t, ((fresh consumer policy).run before).1.tracking? producer = some t →
      t.incarnation.equals incarnation = false)
    (hcalls : ∀ c ∈ calls, KeepsTo consumer producer incarnation c)
    (hconsumer : f.consumer = consumer) (hpolicy : f.policy = policy)
    (hnew : f.tracking? producer = none) :
    let e := ((fresh consumer policy).run before).1
    (e.run calls).2.map Verdict.toOption = (f.run calls).2.map Verdict.toOption ∧
    (∀ verdict ∈ (e.run calls).2, ∀ trap, verdict ≠ .stopped trap) ∧
    (∀ part, part <+: calls → (∃ c ∈ part, (c.1.seat? consumer).isSome = true) →
      ((e.run part).1.tracking producer).nextExpected =
          ((f.run part).1.tracking producer).nextExpected ∧
        ((e.run part).1.tracking producer).pending = ((f.run part).1.tracking producer).pending) ∧
    ∀ x ∈ e.releases calls, x ∈ calls.map Prod.snd := by
  intro e
  obtain ⟨hec, hep⟩ := run_consumer (fresh consumer policy) before
  have hsound : (e.tracking producer).Sound e.policy := by
    rw [hep]
    exact sound_run (fun c hc => htop c (List.mem_append_left _ hc)) policy producer
  have hbegin : InStep producer incarnation [] e f :=
    inStep_of_restart hsound hother (hec.trans hconsumer.symm) (hep.trans hpolicy.symm) hnew
  have hsteps : ∀ part, part <+: calls →
      InStep producer incarnation part (e.run part).1 (f.run part).1 ∧
        (e.run part).2.map Verdict.toOption = (f.run part).2.map Verdict.toOption ∧
        ∀ x ∈ e.releases part, x ∈ part.map Prod.snd := by
    intro part hpart
    apply hbegin.run
    · intro c hc
      rw [hec]
      exact htop c (List.mem_append_right _ (hpart.subset hc))
    · intro c hc
      rw [hec]
      exact hcalls c (hpart.subset hc)
  obtain ⟨-, hresults, hitems⟩ := hsteps calls List.prefix_rfl
  have hends := run_never_stops htop policy
  rw [run_append] at hends
  refine ⟨hresults, fun verdict hv => hends verdict (List.mem_append_right _ hv),
    fun part hpart hseated => ?_, hitems⟩
  obtain ⟨hpart, -⟩ := hsteps part hpart
  have hlike := hpart.like (by rwa [(run_consumer e part).1, hec])
  exact ⟨hlike.nextExpected_eq, hlike.pending_eq⟩

/-- Number 3 of incarnation 5 waits when incarnation 6 begins with a message for somebody else and goes
on with its numbers 2 and 1. -/
theorem restart_equals_fresh_start_sample :
    let before := [sampleCall 5 "1" 'x', sampleCall 5 "3" 'y']
    let calls := [sampleCall 6 "0" 'o', sampleCall 6 "2" 'b', sampleCall 6 "1" 'a']
    let e := ((fresh "C" (.strict 8 2)).run before).1
    (e.tracking "P").pending = [3] ∧
      (e.run calls).2.map Verdict.toOption = [some [], some [], some ['a', 'b']] ∧
      ((e.run calls).1.tracking "P").pending = [] := by
  intro before calls e
  have htop : ∀ c ∈ before ++ calls, BelowTop "C" c := by decide +kernel
  have hother : ∀ t ∈ e.tracking? "P", t.incarnation.equals (.ofInt 6) = false := by decide +kernel
  have hcalls : ∀ c ∈ calls, KeepsTo "C" "P" (.ofInt 6) c := by decide +kernel
  obtain ⟨hresults, -, hlater, -⟩ :=
    restart_equals_fresh_start htop hother hcalls (f := fresh "C" (.strict 8 2)) rfl rfl rfl
  have hseated : ∃ c ∈ calls, (c.1.seat? "C").isSome = true := by decide +kernel
  refine ⟨by decide +kernel, hresults.trans (by decide +kernel), ?_⟩
  exact (hlater calls List.prefix_rfl hseated).2.trans (by decide +kernel)

end Engine

end OrderedRelay
