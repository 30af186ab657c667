import OrderedRelay.Proofs.Relay.Answer

/-!
# Deliveries beside the worker

A relay takes in one delivery after another while the worker of its dispatcher makes the calls that
earlier ones posted. A delivery goes through the engine in one step and then posts its calls one by one.
In between, the worker takes up what is next in its queue, a call or a flush, and calls end as they
like: they return, fail or panic. Nothing is said about which of the two moves next.
-/

namespace OrderedRelay

/-- How a call ends. -/
inductive Ending where
  | returned
  | failed (reason : String)
  | panicked (payload : String)

/-- A flush that has returned: the calls posted before it, and those that had ended when it returned. -/
structure Flushed where
  posted : List Call
  ended : List (Call × Ending)

structure Session where
  inbound : Inbound
  /-- What the delivery under way has still to post. -/
  due : List Call := []
  running : Option Call := none
  ended : List (Call × Ending) := []
  /-- For each flush that waits, the calls posted before it: its place in the queue. -/
  flushes : List (List Call) := []
  flushed : List Flushed := []

namespace Session

inductive Event where
  | deliver (d : Delivery Stream)
  | post
  | register (stream : Stream) (reader : Option Reader)
  | flush
  | take
  | finish (ending : Ending)

def start (i : Inbound) : Session := { inbound := i }

/-- The calls made so far: a handler or a notifier has been invoked for each. -/
def made (s : Session) : List Call := s.inbound.dispatcher.ran

def posted (s : Session) : List Call := s.inbound.dispatcher.posted

def invoke (s : Session) : Option Session :=
  match s.inbound.dispatcher.waiting with
  | [] => none
  | c :: _ => some { s with
      inbound := { s.inbound with dispatcher := s.inbound.dispatcher.step }
      running := some c }

/-- The worker takes up what is next in its queue. -/
def take (s : Session) : Option Session :=
  match s.flushes with
  | [] => s.invoke
  | posted :: rest =>
    if posted.length = s.made.length then
      some { s with flushes := rest, flushed := s.flushed ++ [⟨posted, s.ended⟩] }
    else s.invoke

/-- A step, if it can be taken. Readers change only between deliveries, and the worker makes one call at
a time. -/
def step (s : Session) : Event → Option Session
  | .deliver d =>
    if s.due = [] then
      let received := s.inbound.receive d.subscriber d.topic d.content
      some { s with
        inbound := { s.inbound with engine := received.engine }
        due := received.dispatcher.waiting.drop s.inbound.dispatcher.waiting.length }
    else none
  | .post =>
    match s.due with
    | [] => none
    | c :: rest => some { s with inbound := s.inbound.post c, due := rest }
  | .register stream reader =>
    if s.due = [] then some { s with inbound := s.inbound.setReader stream reader } else none
  | .flush => some { s with flushes := s.flushes ++ [s.posted] }
  | .take => if s.running = none then s.take else none
  | .finish ending =>
    match s.running with
    | none => none
    | some c => some { s with running := none, ended := s.ended ++ [(c, ending)] }

def run (s : Session) (events : List Event) : Option Session := events.foldlM step s

theorem run_cons (s : Session) (e : Event) (rest : List Event) :
    s.run (e :: rest) = (s.step e).bind fun s => s.run rest := rfl

theorem run_cons_some {s s' : Session} {e : Event} {rest : List Event}
    (h : s.run (e :: rest) = some s') : ∃ mid, s.step e = some mid ∧ mid.run rest = some s' :=
  Option.bind_eq_some_iff.mp (run_cons s e rest ▸ h)

/-! ### What a step can do -/

/-- The steps, with what allows them. -/
inductive Steps (s : Session) : Event → Session → Prop where
  | deliver (d : Delivery Stream) (idle : s.due = []) :
    Steps s (.deliver d) { s with
      inbound := { s.inbound with
        engine := (Inbound.answer s.inbound.engine (s.inbound.reader? d.subscriber) d).1 }
      due := (Inbound.answer s.inbound.engine (s.inbound.reader? d.subscriber) d).2 }
  | post {c : Call} {rest : List Call} (next : s.due = c :: rest) :
    Steps s .post { s with inbound := s.inbound.post c, due := rest }
  | register (stream : Stream) (reader : Option Reader) (idle : s.due = []) :
    Steps s (.register stream reader) { s with inbound := s.inbound.setReader stream reader }
  | flush : Steps s .flush { s with flushes := s.flushes ++ [s.posted] }
  | answerFlush {posted : List Call} {rest : List (List Call)} (free : s.running = none)
      (next : s.flushes = posted :: rest) (reached : posted.length = s.made.length) :
    Steps s .take { s with flushes := rest, flushed := s.flushed ++ [⟨posted, s.ended⟩] }
  | invoke {c : Call} {rest : List Call} (free : s.running = none)
      (next : s.inbound.dispatcher.waiting = c :: rest)
      (ahead : ∀ posted ∈ s.flushes.head?, posted.length ≠ s.made.length) :
    Steps s .take { s with
      inbound := { s.inbound with
        dispatcher := { s.inbound.dispatcher with waiting := rest, ran := s.made ++ [c] } }
      running := some c }
  | finish {c : Call} (ending : Ending) (busy : s.running = some c) :
    Steps s (.finish ending) { s with running := none, ended := s.ended ++ [(c, ending)] }

variable {s s' : Session} {e : Event}

theorem posted_next {c : Call} {rest : List Call} (next : s.inbound.dispatcher.waiting = c :: rest) :
    s.posted = s.made ++ c :: rest := congrArg (s.made ++ ·) next

theorem invokes_of_invoke (free : s.running = none)
    (ahead : ∀ posted ∈ s.flushes.head?, posted.length ≠ s.made.length)
    (h : s.invoke = some s') : Steps s .take s' := by
  unfold invoke at h
  split at h
  · cases h
  · rename_i c rest hwaiting
    rw [Dispatcher.step, hwaiting] at h
    cases h
    exact .invoke free hwaiting ahead

theorem step_deliver (idle : s.due = []) (d : Delivery Stream) :
    s.step (.deliver d) = some { s with
      inbound := { s.inbound with
        engine := (Inbound.answer s.inbound.engine (s.inbound.reader? d.subscriber) d).1 }
      due := (Inbound.answer s.inbound.engine (s.inbound.reader? d.subscriber) d).2 } := by
  simp only [step, if_pos idle, Inbound.receive_posted, Inbound.posted, List.drop_left]

theorem steps_of_step (h : s.step e = some s') : Steps s e s' := by
  cases e with
  | deliver d =>
    by_cases idle : s.due = []
    · obtain rfl := Option.some.inj ((step_deliver idle d).symm.trans h)
      exact .deliver d idle
    · rw [step, if_neg idle] at h
      cases h
  | post =>
    simp only [step] at h
    split at h
    · cases h
    · rename_i c rest next
      cases h
      exact .post next
  | register stream reader =>
    simp only [step] at h
    split_ifs at h with idle
    cases h
    exact .register stream reader idle
  | flush =>
    cases h
    exact .flush
  | take =>
    simp only [step] at h
    split_ifs at h with free
    unfold take at h
    split at h
    · rename_i hflushes
      refine invokes_of_invoke free (fun posted hposted => ?_) h
      rw [hflushes] at hposted
      cases hposted
    · rename_i posted rest hflushes
      split_ifs at h with reached
      · cases h
        exact .answerFlush free hflushes reached
      · refine invokes_of_invoke free (fun posted' hposted => ?_) h
        rw [hflushes] at hposted
        obtain rfl := Option.some.inj hposted
        exact reached
  | finish ending =>
    simp only [step] at h
    split at h
    · cases h
    · rename_i c busy
      cases h
      exact .finish ending busy

/-! ### What a run keeps -/

/-- Calls end before the next one is made, no call overtakes a flush, and a flush that returned had the
calls posted before it ended and no others. -/
structure Kept (past : List Call) (s : Session) : Prop where
  ended : past ++ s.ended.map Prod.fst ++ s.running.toList = s.made
  behind : ∀ posted ∈ s.flushes, s.made <+: posted
  ahead : ∀ posted ∈ s.flushes, posted <+: s.posted
  inTurn : s.flushes.Pairwise (· <+: ·)
  flushed : ∀ f ∈ s.flushed, past ++ f.ended.map Prod.fst = f.posted ∧ f.posted <+: s.made

variable {past : List Call}

/-- What lies between a list and a longer one that goes on with some entry has that entry. -/
theorem concat_prefix {xs posted rest : List Call} {c : Call} (hbehind : xs <+: posted)
    (hahead : posted <+: xs ++ c :: rest) (hlength : posted.length ≠ xs.length) :
    xs ++ [c] <+: posted := by
  obtain ⟨more, rfl⟩ := hbehind
  rw [List.prefix_append_right_inj] at hahead
  cases more with
  | nil => exact absurd (congrArg List.length (List.append_nil xs)) hlength
  | cons d more =>
    obtain ⟨rfl, -⟩ := List.cons_prefix_cons.mp hahead
    exact ⟨more, List.append_assoc ..⟩

theorem Kept.step (h : s.Kept past) (hsteps : Steps s e s') : s'.Kept past := by
  cases hsteps with
  | deliver d idle => exact { h with }
  | @post c rest next =>
    have hposted : s.posted <+: s.made ++ (s.inbound.dispatcher.waiting ++ [c]) := by
      rw [← List.append_assoc]
      exact List.prefix_append ..
    exact { h with ahead := fun posted hmem => (h.ahead posted hmem).trans hposted }
  | register stream reader idle =>
    cases stream <;> exact { h with }
  | flush =>
    have hmade : s.made <+: s.posted := List.prefix_append ..
    exact { h with
      behind := List.forall_mem_append.mpr ⟨h.behind, List.forall_mem_singleton.mpr hmade⟩
      ahead := List.forall_mem_append.mpr ⟨h.ahead, List.forall_mem_singleton.mpr List.prefix_rfl⟩
      inTurn := List.pairwise_append.mpr ⟨h.inTurn, List.pairwise_singleton ..,
        fun posted hold => List.forall_mem_singleton.mpr (h.ahead posted hold)⟩ }
  | @answerFlush posted rest free next reached =>
    have hmem : posted ∈ s.flushes := next ▸ List.mem_cons_self ..
    have hmade : s.made = posted := (h.behind posted hmem).eq_of_length reached.symm
    have hended : past ++ s.ended.map Prod.fst = s.made := by
      have hall := h.ended
      rwa [free, Option.toList_none, List.append_nil] at hall
    have hrest : ∀ f ∈ rest, f ∈ s.flushes := fun f hf => next ▸ List.mem_cons_of_mem _ hf
    exact { h with
      behind := fun f hf => h.behind f (hrest f hf)
      ahead := fun f hf => h.ahead f (hrest f hf)
      inTurn := (List.pairwise_cons.mp (next ▸ h.inTurn)).2
      flushed := List.forall_mem_append.mpr ⟨h.flushed,
        List.forall_mem_singleton.mpr ⟨hended.trans hmade, hmade ▸ List.prefix_rfl⟩⟩ }
  | @invoke c rest free next ahead =>
    have hsame : s.made ++ [c] ++ rest = s.posted := by
      rw [posted_next next, List.append_assoc]
      rfl
    -- The first flush that waits has not been reached, so the call lies before it and all later ones.
    have hbehind : ∀ f ∈ s.flushes, s.made ++ [c] <+: f := by
      cases hflushes : s.flushes with
      | nil => exact fun f hf => nomatch hf
      | cons first others =>
        have hfirst : first ∈ s.flushes := hflushes ▸ List.mem_cons_self ..
        have hnext : s.made ++ [c] <+: first :=
          concat_prefix (h.behind first hfirst) (posted_next next ▸ h.ahead first hfirst)
            (ahead first (by rw [hflushes]; rfl))
        have horder := (List.pairwise_cons.mp (hflushes ▸ h.inTurn)).1
        rintro f (_ | ⟨_, hf⟩)
        · exact hnext
        · exact hnext.trans (horder f hf)
    exact {
      ended := by
        have hall := h.ended
        rw [free, Option.toList_none, List.append_nil] at hall
        exact congrArg (· ++ [c]) hall
      behind := hbehind
      ahead := fun f hf => by
        show f <+: s.made ++ [c] ++ rest
        rw [hsame]
        exact h.ahead f hf
      inTurn := h.inTurn
      flushed := fun f hf =>
        ⟨(h.flushed f hf).1, (h.flushed f hf).2.trans (List.prefix_append ..)⟩ }
  | @finish c ending busy =>
    have hended : past ++ (s.ended ++ [(c, ending)]).map Prod.fst ++ [] = s.made := by
      rw [← h.ended, busy, List.map_append, List.append_nil, List.append_assoc]
      rfl
    exact { h with ended := hended }

theorem kept_start (i : Inbound) : (start i).Kept i.dispatcher.ran where
  ended := by simp [start, made]
  behind := by simp [start]
  ahead := by simp [start]
  inTurn := .nil
  flushed := by simp [start]

theorem Kept.run {events : List Event} (h : s.Kept past) (hrun : s.run events = some s') :
    s'.Kept past := by
  induction events generalizing s with
  | nil =>
    obtain rfl := Option.some.inj hrun
    exact h
  | cons e rest ih =>
    obtain ⟨mid, hstep, hrest⟩ := run_cons_some hrun
    exact ih (h.step (steps_of_step hstep)) hrest

/-! ### The worker goes on -/

def Event.ofWorker : Event → Bool
  | .take | .finish _ => true
  | _ => false

/-- All that waits is done, and each call has ended as the list says. -/
structure Drained (s : Session) (endings : List Ending) (s' : Session) : Prop where
  inbound : s'.inbound = { s.inbound with dispatcher := s.inbound.dispatcher.flush }
  due : s'.due = s.due
  free : s'.running = none
  flushes : s'.flushes = []
  ended : s'.ended = s.ended ++ (s.running.toList ++ s.inbound.dispatcher.waiting).zip endings

theorem take_flush {posted : List Call} {rest : List (List Call)} (free : s.running = none)
    (next : s.flushes = posted :: rest) (reached : posted.length = s.made.length) :
    s.step .take =
      some { s with flushes := rest, flushed := s.flushed ++ [⟨posted, s.ended⟩] } := by
  simp only [step, take, free, next, if_pos reached, if_true]

theorem take_call {c : Call} {rest : List Call} (free : s.running = none)
    (next : s.inbound.dispatcher.waiting = c :: rest)
    (ahead : ∀ posted ∈ s.flushes.head?, posted.length ≠ s.made.length) :
    s.step .take = some { s with
      inbound := { s.inbound with
        dispatcher := { s.inbound.dispatcher with waiting := rest, ran := s.made ++ [c] } }
      running := some c } := by
  have hinvoke : s.take = s.invoke := by
    unfold take
    cases hflushes : s.flushes with
    | nil => rfl
    | cons posted others => exact if_neg (ahead posted (by rw [hflushes]; rfl))
  simp only [step, free, if_true, hinvoke, invoke, next, Dispatcher.step]
  rfl

theorem finish_busy {c : Call} (busy : s.running = some c) (ending : Ending) :
    s.step (.finish ending) =
      some { s with running := none, ended := s.ended ++ [(c, ending)] } := by
  simp only [step, busy]

/-- The worker is never stuck: what is next for it is a flush that the calls have reached or a call. -/
theorem Kept.next (h : s.Kept past)
    (hjobs : s.flushes.length + s.inbound.dispatcher.waiting.length ≠ 0) :
    (∃ posted rest, s.flushes = posted :: rest ∧ posted.length = s.made.length) ∨
      ∃ c rest, s.inbound.dispatcher.waiting = c :: rest ∧
        ∀ posted ∈ s.flushes.head?, posted.length ≠ s.made.length := by
  cases hflushes : s.flushes with
  | nil =>
    rw [hflushes, List.length_nil, Nat.zero_add] at hjobs
    obtain ⟨c, rest, hwaiting⟩ := List.exists_cons_of_length_pos (Nat.pos_of_ne_zero hjobs)
    exact .inr ⟨c, rest, hwaiting, nofun⟩
  | cons posted others =>
    have hmem : posted ∈ s.flushes := hflushes ▸ List.mem_cons_self ..
    by_cases reached : posted.length = s.made.length
    · exact .inl ⟨posted, others, rfl, reached⟩
    · -- More was posted before the flush than has been called, so a call waits.
      cases hwaiting : s.inbound.dispatcher.waiting with
      | nil =>
        have hposted : s.posted = s.made :=
          (congrArg (s.made ++ ·) hwaiting).trans (List.append_nil _)
        have hlength : posted.length ≤ s.made.length := hposted ▸ (h.ahead posted hmem).length_le
        exact absurd (Nat.le_antisymm hlength (h.behind posted hmem).length_le) reached
      | cons c rest =>
        exact .inr ⟨c, rest, rfl, fun first hfirst => Option.some.inj hfirst ▸ reached⟩

theorem drains_free {n : Nat} {endings : List Ending} (h : s.Kept past) (free : s.running = none)
    (hlength : endings.length = s.inbound.dispatcher.waiting.length)
    (hjobs : s.flushes.length + s.inbound.dispatcher.waiting.length = n) :
    ∃ work s', (∀ e ∈ work, e.ofWorker = true) ∧ s.run work = some s' ∧ Drained s endings s' := by
  induction n generalizing s endings with
  | zero =>
    obtain ⟨hflushes, hwaiting⟩ := Nat.add_eq_zero_iff.mp hjobs
    have hnone := List.length_eq_zero_iff.mp hwaiting
    refine ⟨[], s, by simp, rfl, ?_, rfl, free, List.length_eq_zero_iff.mp hflushes, ?_⟩
    · rw [Dispatcher.flush, hnone, List.append_nil, ← hnone]
    · rw [free, hnone]
      simp
  | succ n ih =>
    rcases h.next (by omega) with ⟨posted, rest, hflushes, reached⟩ | ⟨c, rest, hwaiting, ahead⟩
    · have htake := take_flush free hflushes reached
      have hcount : rest.length + s.inbound.dispatcher.waiting.length = n := by
        rw [hflushes, List.length_cons] at hjobs
        omega
      obtain ⟨work, s', hwork, hrun, hdrained⟩ :=
        ih (h.step (steps_of_step htake)) free hlength hcount
      refine ⟨.take :: work, s', by simpa [Event.ofWorker] using hwork, ?_, { hdrained with }⟩
      rw [run_cons, htake]
      exact hrun
    · rw [hwaiting] at hlength hjobs
      obtain ⟨ending, others, rfl⟩ := List.exists_cons_of_length_eq_add_one hlength
      have htake := take_call free hwaiting ahead
      have hcalled := h.step (steps_of_step htake)
      have hfinish := finish_busy (s := { s with
        inbound := { s.inbound with
          dispatcher := { s.inbound.dispatcher with waiting := rest, ran := s.made ++ [c] } }
        running := some c }) rfl ending
      have hcount : s.flushes.length + rest.length = n := by
        rw [List.length_cons] at hjobs
        omega
      obtain ⟨work, s', hwork, hrun, hdrained⟩ :=
        ih (hcalled.step (steps_of_step hfinish)) rfl (Nat.succ.inj hlength) hcount
      refine ⟨.take :: .finish ending :: work, s', by simpa [Event.ofWorker] using hwork, ?_, {
        inbound := ?_
        due := hdrained.due
        free := hdrained.free
        flushes := hdrained.flushes
        ended := ?_ }⟩
      · rw [run_cons, htake, Option.bind_some, run_cons, hfinish]
        exact hrun
      · rw [hdrained.inbound]
        simp only [Dispatcher.flush, made, hwaiting, List.append_assoc, List.singleton_append]
      · rw [hdrained.ended, free, hwaiting]
        simp

/-- However the calls end, the worker gets through all that waits. -/
theorem drains {endings : List Ending} (h : s.Kept past)
    (hlength : endings.length = (s.running.toList ++ s.inbound.dispatcher.waiting).length) :
    ∃ work s', (∀ e ∈ work, e.ofWorker = true) ∧ s.run work = some s' ∧ Drained s endings s' := by
  cases hrunning : s.running with
  | none =>
    rw [hrunning] at hlength
    exact drains_free h hrunning hlength rfl
  | some c =>
    rw [hrunning, Option.toList_some, List.singleton_append, List.length_cons] at hlength
    obtain ⟨ending, others, rfl⟩ := List.exists_cons_of_length_eq_add_one hlength
    have hfinish := finish_busy hrunning ending
    obtain ⟨work, s', hwork, hrun, hdrained⟩ :=
      drains_free (h.step (steps_of_step hfinish)) rfl (Nat.succ.inj hlength) rfl
    refine ⟨.finish ending :: work, s', by simpa [Event.ofWorker] using hwork, ?_, {
      hdrained with
      ended := ?_ }⟩
    · rw [run_cons, hfinish]
      exact hrun
    · rw [hdrained.ended, hrunning]
      simp

end Session

end OrderedRelay
