import OrderedRelay.Network.Link
import OrderedRelay.Proofs.Transport.Batches

/-!
# What a lossy layer owes

A layer counts what is offered to it, in 64 bits, and lets every publication that is not dropped through,
once or twice. What its carrier is asked to publish and what it still holds make up these copies, unless a
publish of the carrier has failed, which loses the rest of a batch, or the layer has been told to forget.
Less than a window is held. Without a window the copies leave at once and in order, and if nothing is
dropped or repeated either, nobody can tell the link from its bare carrier.
-/

namespace OrderedRelay

namespace Lossy

variable {c : LossyConfig} {l : Lossy} {chance : Chance} {p : Publication}
  {offers : List (Chance × Publication)}

/-! ### Copies -/

def isDropped (c : LossyConfig) (offer : Chance × Publication) : Bool :=
  LossyConfig.hits c.dropRate offer.1.dropDraw

def isRepeated (c : LossyConfig) (offer : Chance × Publication) : Bool :=
  !isDropped c offer && LossyConfig.hits c.duplicateRate offer.1.duplicateDraw

/-- The publications that are not dropped, and those of them that leave a second time. -/
def kept (c : LossyConfig) (offers : List (Chance × Publication)) : List Publication :=
  (offers.filter fun offer => !isDropped c offer).map Prod.snd

def repeated (c : LossyConfig) (offers : List (Chance × Publication)) : List Publication :=
  (offers.filter (isRepeated c)).map Prod.snd

/-- All copies that pass, in the order of the offers. -/
def passing (c : LossyConfig) (offers : List (Chance × Publication)) : List Publication :=
  offers.flatMap fun offer => copies c offer.1 offer.2

theorem copies_eq (c : LossyConfig) (offer : Chance × Publication) :
    copies c offer.1 offer.2 =
      (if isDropped c offer then [] else [offer.2]) ++ if isRepeated c offer then [offer.2] else [] := by
  cases hdrop : isDropped c offer with
  | true => simp_all [copies, isRepeated, isDropped]
  | false =>
    cases hdup : LossyConfig.hits c.duplicateRate offer.1.duplicateDraw <;>
      simp_all [copies, isRepeated, isDropped]

theorem passing_cons (c : LossyConfig) (offer : Chance × Publication)
    (offers : List (Chance × Publication)) :
    passing c (offer :: offers) = copies c offer.1 offer.2 ++ passing c offers := List.flatMap_cons

theorem passing_append (c : LossyConfig) (offers more : List (Chance × Publication)) :
    passing c (offers ++ more) = passing c offers ++ passing c more := List.flatMap_append

theorem passing_perm (c : LossyConfig) (offers : List (Chance × Publication)) :
    (passing c offers).Perm (kept c offers ++ repeated c offers) := by
  induction offers with
  | nil => exact .refl []
  | cons offer offers ih =>
    rw [passing_cons, copies_eq]
    have hkept : kept c (offer :: offers) =
        (if isDropped c offer then [] else [offer.2]) ++ kept c offers := by
      cases hdrop : isDropped c offer <;> simp [kept, hdrop]
    have hrepeated : repeated c (offer :: offers) =
        (if isRepeated c offer then [offer.2] else []) ++ repeated c offers := by
      cases hdup : isRepeated c offer <;> simp [repeated, hdup]
    rw [hkept, hrepeated, List.append_assoc, List.append_assoc]
    refine List.Perm.append_left _ ((ih.append_left _).trans ?_)
    rw [← List.append_assoc, ← List.append_assoc]
    exact List.perm_append_comm.append_right _

theorem length_passing (c : LossyConfig) (offers : List (Chance × Publication)) :
    (passing c offers).length + offers.countP (isDropped c) =
      offers.length + offers.countP (isRepeated c) := by
  have hperm := (passing_perm c offers).length_eq
  have hkept : (kept c offers).length = offers.countP fun offer => !isDropped c offer := by
    rw [kept, List.length_map, List.countP_eq_length_filter]
  have hrepeated : (repeated c offers).length = offers.countP (isRepeated c) := by
    rw [repeated, List.length_map, List.countP_eq_length_filter]
  have htotal := offers.length_eq_countP_add_countP (isDropped c)
  simp only [Bool.not_eq_true, Bool.decide_eq_false] at htotal
  rw [List.length_append] at hperm
  omega

theorem copies_of_no_loss (hdrop : c.dropRate.atMost .zero = true)
    (hdup : c.duplicateRate.atMost .zero = true) (chance : Chance) (p : Publication) :
    copies c chance p = [p] := by
  simp [copies, hits_of_atMost_zero hdrop, hits_of_atMost_zero hdup]

/-! ### One offer -/

theorem offer_stats (l : Lossy) (chance : Chance) (p : Publication) :
    (l.offer chance p).1.stats = count l.stats (copies l.config chance p).length := by
  simp only [offer]
  split_ifs <;> rfl

/-- What leaves at an offer and what is held after it are what was held before and the copies. -/
theorem offer_perm (l : Lossy) (chance : Chance) (p : Publication)
    (hroom : l.held.length < max l.config.window 1) :
    ((l.offer chance p).2 ++ (l.offer chance p).1.held).Perm
      (l.held ++ copies l.config chance p) := by
  simp only [offer]
  split_ifs with hnone hnarrow hfits
  · rw [List.isEmpty_iff.mp hnone, List.append_nil]
    exact .refl _
  · have hempty : l.held = [] := by
      rw [← List.length_eq_zero_iff]
      omega
    simp [hempty]
  · exact .refl _
  · rw [List.append_nil]
    exact arrange_perm chance.order _

theorem offer_room (l : Lossy) (chance : Chance) (p : Publication)
    (hroom : l.held.length < max l.config.window 1) :
    (l.offer chance p).1.held.length < max l.config.window 1 := by
  simp only [offer]
  split_ifs with hnone hnarrow hfits
  · exact hroom
  · exact hroom
  · exact Nat.lt_of_lt_of_le hfits (Nat.le_max_left _ _)
  · exact Nat.lt_of_lt_of_le Nat.zero_lt_one (Nat.le_max_right _ _)

theorem offer_narrow (hwindow : l.config.window ≤ 1) (chance : Chance) (p : Publication) :
    (l.offer chance p).2 = copies l.config chance p := by
  simp only [offer]
  split_ifs with hnone
  · exact (List.isEmpty_iff.mp hnone).symm
  · rfl

/-- What a layer has counted of what has been offered to it, and that less than a window is held. -/
structure Counts (c : LossyConfig) (offers : List (Chance × Publication)) (l : Lossy) : Prop where
  config : l.config = c
  total : l.stats.total = .ofNat offers.length
  dropped : l.stats.dropped = .ofNat (offers.countP (isDropped c))
  duplicated : l.stats.duplicated = .ofNat (offers.countP (isRepeated c))
  passed : l.stats.passed = .ofNat (passing c offers).length
  room : l.held.length < max c.window 1

theorem counts_new (c : LossyConfig) : Counts c [] { config := c } where
  config := rfl
  total := rfl
  dropped := rfl
  duplicated := rfl
  passed := rfl
  room := Nat.lt_of_lt_of_le Nat.zero_lt_one (Nat.le_max_right _ _)

theorem Counts.emptied (h : Counts c offers l) : Counts c offers { l with held := [] } :=
  { h with room := Nat.lt_of_le_of_lt (Nat.zero_le _) h.room }

theorem Counts.held_eq_nil (h : Counts c offers l) (hwindow : c.window ≤ 1) : l.held = [] := by
  have hroom := h.room
  rw [← List.length_eq_zero_iff]
  omega

theorem Counts.offer (h : Counts c offers l) (chance : Chance) (p : Publication) :
    Counts c (offers ++ [(chance, p)]) (l.offer chance p).1 := by
  have hconfig := h.config
  subst hconfig
  have hstats := offer_stats l chance p
  have hcopies := copies_eq l.config (chance, p)
  have hpassing : passing l.config [(chance, p)] = copies l.config chance p := List.flatMap_singleton _ _
  -- Two copies pass of a publication that is repeated, none of one that is dropped, else one.
  have hrepeated : isDropped l.config (chance, p) = true → isRepeated l.config (chance, p) = false :=
    fun hdrop => by simp [isRepeated, hdrop]
  constructor
  · exact offer_config l chance p
  · rw [hstats, List.length_append, UInt64.ofNat_add, ← h.total]
    rfl
  · rw [hstats, List.countP_append, UInt64.ofNat_add, ← h.dropped]
    cases hdrop : isDropped l.config (chance, p) <;>
      cases hdup : isRepeated l.config (chance, p) <;> simp_all [count]
  · rw [hstats, List.countP_append, UInt64.ofNat_add, ← h.duplicated]
    cases hdrop : isDropped l.config (chance, p) <;>
      cases hdup : isRepeated l.config (chance, p) <;> simp_all [count]
  · rw [hstats, passing_append, List.length_append, UInt64.ofNat_add, ← h.passed, hpassing]
    rfl
  · exact offer_room l chance p h.room

/-- The counts of a layer balance, also after they have overflowed. -/
theorem Counts.balance (h : Counts c offers l) :
    l.stats.passed = l.stats.total - l.stats.dropped + l.stats.duplicated := by
  have hlength := congrArg UInt64.ofNat (length_passing c offers)
  rw [UInt64.ofNat_add, UInt64.ofNat_add, ← h.passed, ← h.dropped, ← h.total, ← h.duplicated] at hlength
  calc l.stats.passed = l.stats.passed + l.stats.dropped - l.stats.dropped := by
        rw [UInt64.add_sub_cancel]
    _ = l.stats.total + l.stats.duplicated - l.stats.dropped := by rw [hlength]
    _ = l.stats.total - l.stats.dropped + l.stats.duplicated := by
        rw [UInt64.sub_eq_add_neg, UInt64.sub_eq_add_neg, UInt64.add_assoc,
          UInt64.add_comm l.stats.duplicated, ← UInt64.add_assoc]

end Lossy

namespace Carrier

variable {κ : Type}

/-- What is handed to a carrier of what is to be published on it: all up to the first that fails. -/
def handed : List Publication → Medium κ → Carrier κ → List Publication
  | [], _, _ => []
  | p :: rest, m, c =>
    p :: match (c.publish m p).result with
      | .ok () => handed rest (c.publish m p).line (c.publish m p).client
      | .error _ => []

theorem handed_sublist (ps : List Publication) (m : Medium κ) (c : Carrier κ) :
    (handed ps m c).Sublist ps := by
  induction ps generalizing m c with
  | nil => exact List.Sublist.refl []
  | cons p rest ih =>
    rw [handed]
    refine List.Sublist.cons_cons p ?_
    cases (c.publish m p).result with
    | ok => exact ih _ _
    | error => exact List.nil_sublist rest

theorem handed_of_ok {ps : List Publication} {m : Medium κ} {c : Carrier κ}
    (h : (publishEach ps m c).result = .ok ()) : handed ps m c = ps := by
  induction ps generalizing m c with
  | nil => rfl
  | cons p rest ih =>
    rw [publishEach, Effect.andThen] at h
    rw [handed]
    cases hresult : (c.publish m p).result with
    | error => simp [hresult] at h
    | ok =>
      simp only [hresult] at h
      rw [ih h]

theorem handed_of_length_le_one {ps : List Publication} (h : ps.length ≤ 1) (m : Medium κ)
    (c : Carrier κ) : handed ps m c = ps := by
  match ps with
  | [] => rfl
  | [p] =>
    rw [handed]
    cases (c.publish m p).result <;> rfl

/-- Publishes all, whatever becomes of each; it ends as the last one does. -/
def publishAll : List Publication → Medium κ → Carrier κ → Outcome κ Unit
  | [], m, c => done c m (.ok ())
  | [p], m, c => c.publish m p
  | p :: q :: rest, m, c =>
    let e := c.publish m p
    let e' := publishAll (q :: rest) e.line e.client
    { e' with told := e.told ++ e'.told }

/-- Up to the first failure all is published, and after it nothing. -/
theorem publishEach_eq (ps : List Publication) (m : Medium κ) (c : Carrier κ) :
    publishEach ps m c = publishAll (handed ps m c) m c := by
  induction ps generalizing m c with
  | nil => rfl
  | cons p rest ih =>
    rw [publishEach, Effect.andThen, handed]
    cases hresult : (c.publish m p).result with
    | error => simp [publishAll, ← hresult]
    | ok =>
      simp only [ih]
      cases handed rest (c.publish m p).line (c.publish m p).client with
      | nil => simp [publishAll, done, ← hresult]
      | cons q more => rfl

theorem publishEach_singleton (p : Publication) (m : Medium κ) (c : Carrier κ) :
    publishEach [p] m c = c.publish m p := by
  rw [publishEach_eq, handed_of_length_le_one le_rfl]
  rfl

/-- What someone who uses a carrier by itself asks of it: to publish some, or anything else. -/
inductive Request (κ : Type) where
  | publish (ps : List Publication)
  | call (op : Carrier κ → Medium κ → Outcome κ Unit)

def Request.publications : Request κ → List Publication
  | publish ps => ps
  | call _ => []

def Request.run (c : Carrier κ) (m : Medium κ) : Request κ → Outcome κ Unit
  | publish ps => publishAll ps m c
  | call op => op c m

/-- A carrier by itself, with what has been told and answered on each request. -/
structure Alone (κ : Type) where
  carrier : Carrier κ
  medium : Medium κ
  answers : List (List (Delivery κ) × Except TransportError Unit) := []

namespace Alone

def step (a : Alone κ) (r : Request κ) : Alone κ :=
  let e := r.run a.carrier a.medium
  { carrier := e.client, medium := e.line, answers := a.answers ++ [(e.told, e.result)] }

def after (a : Alone κ) (requests : List (Request κ)) : Alone κ := requests.foldl step a

theorem after_concat (a : Alone κ) (requests : List (Request κ)) (r : Request κ) :
    a.after (requests ++ [r]) = (a.after requests).step r := by
  rw [after, List.foldl_append]
  rfl

end Alone

end Carrier

/-! ### Links in use -/

/-- What is done with a link. Besides what concerns its layer this may be any other call, and whatever
becomes of the carrier and of what it is connected to. -/
inductive Link.Step (κ : Type) where
  | publish (chance : Chance) (p : Publication)
  | flush (order : List Nat)
  | disconnect
  | other (op : Carrier κ → Medium κ → Carrier.Outcome κ Unit)

namespace Link

variable {κ : Type}

def Step.offers : Step κ → List (Chance × Publication)
  | publish chance p => [(chance, p)]
  | _ => []

/-- No publish of the carrier has failed, and the link was not told to disconnect. -/
def Step.isSmooth (result : Except TransportError Unit) : Step κ → Bool
  | publish _ _ => result.isOk
  | flush _ => result.isOk
  | disconnect => false
  | other _ => true

def perform (l : Link κ) (m : Medium κ) : Step κ → Outcome κ Unit
  | .publish chance p => l.publish m chance p
  | .flush order => l.flush m order
  | .disconnect => l.disconnect m
  | .other op => l.onCarrier (op l.carrier m)

/-- A link in use: what its user and subscribers have been told at each step, and whether all has gone
smoothly so far. -/
structure Use (κ : Type) where
  link : Link κ
  medium : Medium κ
  answers : List (List (Delivery κ) × Except TransportError Unit) := []
  smooth : Bool := true

namespace Use

def step (u : Use κ) (s : Step κ) : Use κ :=
  let e := u.link.perform u.medium s
  { link := e.client
    medium := e.line
    answers := u.answers ++ [(e.told, e.result)]
    smooth := u.smooth && s.isSmooth e.result }

def after (u : Use κ) (steps : List (Step κ)) : Use κ := steps.foldl step u

/-- The same without the layer. -/
def bare (u : Use κ) : Use κ := { u with link := { u.link with layer := none } }

/-- All but the layer. -/
def outside (u : Use κ) : Carrier.Alone κ := ⟨u.link.carrier, u.medium, u.answers⟩

end Use

/-- What a step asks of the carrier. How much a publish or a flush lets out is up to the layer; with
anything else the layer adds nothing. -/
inductive Step.Asks : Step κ → Carrier.Request κ → Prop where
  | publish (chance : Chance) (p : Publication) (ps : List Publication) :
      Asks (publish chance p) (.publish ps)
  | flush (order : List Nat) (ps : List Publication) : Asks (flush order) (.publish ps)
  | disconnect : Asks disconnect (.call fun c m => c.disconnect m)
  | other (op : Carrier κ → Medium κ → Carrier.Outcome κ Unit) : Asks (other op) (.call op)

open Carrier Lossy

variable {c : LossyConfig} {offers : List (Chance × Publication)} {requests : List (Request κ)}
  {start : Alone κ} {u : Use κ} {layer layer' : Lossy} {s : Step κ}

/-- What a carrier has been handed. -/
def sent (requests : List (Request κ)) : List Publication := requests.flatMap Request.publications

theorem sent_concat (requests : List (Request κ)) (r : Request κ) :
    sent (requests ++ [r]) = sent requests ++ r.publications := by
  rw [sent, List.flatMap_append, List.flatMap_singleton]
  rfl

/-- A layer without a window, drops and repeats is passed through as if it were not there. -/
structure Through (c : LossyConfig) : Prop where
  window : c.window ≤ 1
  keeps : c.dropRate.atMost .zero = true
  single : c.duplicateRate.atMost .zero = true

/-- The layer has counted the offers, and the copies that pass have been sent or are held. To everyone
outside, the link is its carrier, used by itself. -/
structure Accounted (c : LossyConfig) (offers : List (Chance × Publication)) (start : Alone κ)
    (requests : List (Request κ)) (u : Use κ) (layer : Lossy) : Prop where
  present : u.link.layer = some layer
  counts : layer.Counts c offers
  outside : u.outside = start.after requests
  whole : u.smooth = true → (sent requests ++ layer.held).Perm (passing c offers)
  sublist : c.window ≤ 1 → (sent requests).Sublist (passing c offers)
  inOrder : c.window ≤ 1 → u.smooth = true → sent requests = passing c offers
  same : Through c → sent requests = offers.map Prod.snd

theorem outside_step {l : Link κ} {r : Request κ}
    (h : u.link.perform u.medium s = l.onCarrier (r.run u.link.carrier u.medium)) :
    (u.step s).outside = u.outside.step r := by
  rw [Use.outside, Use.step, h]
  rfl

theorem smooth_step {l : Link κ} {e : Carrier.Outcome κ Unit}
    (h : u.link.perform u.medium s = l.onCarrier e) (hsmooth : ∀ r, s.isSmooth r = r.isOk) :
    (u.step s).smooth = true ↔ u.smooth = true ∧ e.result = .ok () := by
  rw [Use.step, h, Bool.and_eq_true, hsmooth]
  refine and_congr_right fun _ => ?_
  show e.result.isOk = true ↔ _
  cases e.result <;> simp [Except.isOk, Except.toBool]

/-! ### One step -/

/-- A publish or a flush: of the batch that leaves the layer, the carrier is handed all up to the first
publication that fails. -/
theorem Accounted.leave (h : Accounted c offers start requests u layer) (batch : List Publication)
    (more : List (Chance × Publication))
    (hperform : u.link.perform u.medium s = { u.link with layer := some layer' }.onCarrier
      (publishEach batch u.medium u.link.carrier))
    (hasks : ∀ ps, s.Asks (.publish ps)) (hsmooth : ∀ r, s.isSmooth r = r.isOk)
    (hcounts : layer'.Counts c (offers ++ more))
    (hperm : (batch ++ layer'.held).Perm (layer.held ++ passing c more))
    (hnarrow : c.window ≤ 1 → batch = passing c more)
    (hsame : Through c → batch = more.map Prod.snd) (hfew : more.length ≤ 1) :
    ∃ request, s.Asks request ∧
      Accounted c (offers ++ more) start (requests ++ [request]) (u.step s) layer' := by
  set gone := handed batch u.medium u.link.carrier with hgone
  refine ⟨.publish gone, hasks gone, ?_⟩
  have hsent : sent (requests ++ [.publish gone]) = sent requests ++ gone := sent_concat ..
  -- A step that goes smoothly hands on the whole batch.
  have hall : (u.step s).smooth = true → u.smooth = true ∧ gone = batch := by
    intro hs
    obtain ⟨hsu, hresult⟩ := (smooth_step hperform hsmooth).mp hs
    exact ⟨hsu, handed_of_ok hresult⟩
  constructor
  · rw [Use.step, hperform]
    rfl
  · exact hcounts
  · rw [publishEach_eq] at hperform
    rw [Alone.after_concat, ← h.outside]
    exact outside_step hperform
  · intro hs
    obtain ⟨hsu, heq⟩ := hall hs
    rw [hsent, heq, passing_append, List.append_assoc]
    have hjoin := hperm.append_left (sent requests)
    rw [← List.append_assoc (sent requests) layer.held] at hjoin
    exact hjoin.trans ((h.whole hsu).append_right _)
  · intro hwindow
    rw [hsent, passing_append, ← hnarrow hwindow]
    exact (h.sublist hwindow).append (handed_sublist batch _ _)
  · intro hwindow hs
    obtain ⟨hsu, heq⟩ := hall hs
    rw [hsent, heq, passing_append, h.inOrder hwindow hsu, hnarrow hwindow]
  · intro hc
    have hone : batch.length ≤ 1 := by
      rw [hsame hc, List.length_map]
      exact hfew
    rw [hsent, hgone, handed_of_length_le_one hone, h.same hc, hsame hc, List.map_append]

/-- Anything else: the layer hands nothing on, and at most forgets what it holds. -/
theorem Accounted.call (h : Accounted c offers start requests u layer)
    {op : Carrier κ → Medium κ → Carrier.Outcome κ Unit} (hasks : s.Asks (.call op))
    (hperform : u.link.perform u.medium s =
      { u.link with layer := some layer' }.onCarrier (op u.link.carrier u.medium))
    (hcounts : layer'.Counts c offers)
    (hsmooth : (u.step s).smooth = true → u.smooth = true ∧ layer'.held = layer.held) :
    ∃ request, s.Asks request ∧
      Accounted c offers start (requests ++ [request]) (u.step s) layer' := by
  refine ⟨.call op, hasks, ?_⟩
  have hsent : sent (requests ++ [.call op]) = sent requests :=
    (sent_concat ..).trans (List.append_nil _)
  constructor
  · rw [Use.step, hperform]
    rfl
  · exact hcounts
  · rw [Alone.after_concat, ← h.outside]
    exact outside_step hperform
  · intro hs
    obtain ⟨hsu, hheld⟩ := hsmooth hs
    rw [hsent, hheld]
    exact h.whole hsu
  · rw [hsent]
    exact h.sublist
  · intro hwindow hs
    rw [hsent]
    exact h.inOrder hwindow (hsmooth hs).1
  · rw [hsent]
    exact h.same

theorem Through.offer (hc : Through layer.config) (chance : Chance) (p : Publication) :
    (layer.offer chance p).2 = [p] := by
  rw [offer_narrow hc.window, copies_of_no_loss hc.keeps hc.single]

theorem Accounted.step (h : Accounted c offers start requests u layer) (s : Step κ) :
    ∃ layer' request, s.Asks request ∧
      Accounted c (offers ++ s.offers) start (requests ++ [request]) (u.step s) layer' := by
  have hlayer := h.present
  obtain rfl := h.counts.config
  cases s with
  | publish chance p =>
    have hpassing : passing layer.config [(chance, p)] = copies layer.config chance p :=
      List.flatMap_singleton _ _
    refine ⟨(layer.offer chance p).1, h.leave (layer.offer chance p).2 [(chance, p)] ?_
      (.publish chance p) (fun _ => rfl) (h.counts.offer chance p) ?_ (fun hwindow => ?_)
      (fun hc => hc.offer chance p) le_rfl⟩
    · simp only [perform, Link.publish, hlayer]
    · rw [hpassing]
      exact offer_perm layer chance p h.counts.room
    · rw [hpassing]
      exact offer_narrow hwindow chance p
  | flush order =>
    have hperm : (layer.flush order).2.Perm layer.held := arrange_perm order layer.held
    have hnarrow : layer.config.window ≤ 1 → (layer.flush order).2 = [] := fun hwindow =>
      flush_of_empty (h.counts.held_eq_nil hwindow) order
    refine ⟨(layer.flush order).1, h.leave (layer.flush order).2 [] ?_
      (.flush order) (fun _ => rfl) ?_ ?_ hnarrow (fun hc => hnarrow hc.window) (Nat.zero_le 1)⟩
    · simp only [perform, Link.flush, hlayer]
    · rw [List.append_nil]
      exact h.counts.emptied
    · simpa [Lossy.flush, passing] using hperm
  | disconnect =>
    rw [show (Step.disconnect : Step κ).offers = [] from rfl, List.append_nil]
    refine ⟨layer.discard, h.call .disconnect ?_ h.counts.emptied ?_⟩
    · simp [perform, Link.disconnect, hlayer]
    · intro hs
      rw [Use.step, Step.isSmooth, Bool.and_false] at hs
      cases hs
  | other op =>
    rw [show (Step.other op).offers = [] from rfl, List.append_nil]
    refine ⟨layer, h.call (.other op) ?_ h.counts ?_⟩
    · rw [perform, ← hlayer]
    · intro hs
      rw [Use.step, Step.isSmooth, Bool.and_true] at hs
      exact ⟨hs, rfl⟩

theorem Accounted.after (h : Accounted c offers start requests u layer) (steps : List (Step κ)) :
    ∃ layer' more, List.Forall₂ Step.Asks steps more ∧
      Accounted c (offers ++ steps.flatMap Step.offers) start (requests ++ more) (u.after steps)
        layer' := by
  induction steps generalizing u offers requests layer with
  | nil =>
    refine ⟨layer, [], .nil, ?_⟩
    rw [List.flatMap_nil, List.append_nil, List.append_nil]
    exact h
  | cons s steps ih =>
    obtain ⟨layer₁, request, hasks, hstep⟩ := h.step s
    obtain ⟨layer', more, hmore, hafter⟩ := ih hstep
    refine ⟨layer', request :: more, .cons hasks hmore, ?_⟩
    rw [List.flatMap_cons, ← List.append_assoc, ← List.singleton_append, ← List.append_assoc requests]
    exact hafter

/-! ### Layers that change nothing -/

theorem Accounted.bare_step (h : Accounted c offers start requests u layer) (hc : Through c)
    (s : Step κ) : (u.step s).bare = u.bare.step s := by
  have hlayer := h.present
  obtain rfl := h.counts.config
  cases s with
  | publish chance p =>
    simp [Use.step, Use.bare, perform, Link.publish, hlayer, hc.offer, onCarrier, Effect.mapClient,
      publishEach_singleton, Step.isSmooth]
  | flush order =>
    have hleaving : (layer.flush order).2 = [] :=
      flush_of_empty (h.counts.held_eq_nil hc.window) order
    simp [Use.step, Use.bare, perform, Link.flush, hlayer, hleaving, onCarrier, Effect.mapClient,
      publishEach, Carrier.done, Step.isSmooth]
  | disconnect => rfl
  | other op => rfl

theorem Accounted.bare_after (h : Accounted c offers start requests u layer) (hc : Through c)
    (steps : List (Step κ)) : (u.after steps).bare = u.bare.after steps := by
  induction steps generalizing u offers requests layer with
  | nil => rfl
  | cons s steps ih =>
    obtain ⟨layer', request, -, hstep⟩ := h.step s
    show ((u.step s).after steps).bare = (u.bare.step s).after steps
    rw [ih hstep, h.bare_step hc]

/-! ### The account -/

/-- A carrier behind a new layer, or without one. -/
def newUse (carrier : Carrier κ) (medium : Medium κ) (layer : Option Lossy) : Use κ :=
  { link := { carrier, layer }, medium }

theorem accounted_new (carrier : Carrier κ) (medium : Medium κ) (c : LossyConfig) :
    Accounted c [] ⟨carrier, medium, []⟩ [] (newUse carrier medium (some { config := c }))
      { config := c } where
  present := rfl
  counts := counts_new c
  outside := rfl
  whole _ := .refl []
  sublist _ := List.nil_sublist []
  inOrder _ _ := rfl
  same _ := rfl

/-- After any steps a new layer has counted the offers, those it dropped and those it repeated, and the
copies that passed, all in 64 bits; it holds less than a window. Its carrier and whoever it is connected
to are as if the carrier had been used by itself, with requests to publish at the publishes and flushes.
If all went smoothly, these requests were for exactly the publications that were not dropped and once
more those repeated, but for those still held. Without a window nothing is held, and they were in order.
If nothing is dropped or repeated either, the link is its bare carrier to everyone, and that is asked for
what is published. -/
theorem layer_accounts_for_offers (carrier : Carrier κ) (medium : Medium κ) (c : LossyConfig)
    (steps : List (Step κ)) :
    let u := (newUse carrier medium (some { config := c })).after steps
    let offers := steps.flatMap Step.offers
    ∃ layer requests, u.link.layer = some layer ∧
      List.Forall₂ Step.Asks steps requests ∧
      u.outside = Alone.after ⟨carrier, medium, []⟩ requests ∧
      layer.stats.total = .ofNat offers.length ∧
      layer.stats.dropped = .ofNat (offers.countP (isDropped c)) ∧
      layer.stats.duplicated = .ofNat (offers.countP (isRepeated c)) ∧
      layer.stats.passed = layer.stats.total - layer.stats.dropped + layer.stats.duplicated ∧
      layer.held.length < max c.window 1 ∧
      (u.smooth = true →
        (sent requests ++ layer.held).Perm (kept c offers ++ repeated c offers) ∧
          (sent requests ++ layer.held).length + offers.countP (isDropped c) =
            offers.length + offers.countP (isRepeated c) ∧
          layer.stats.passed = .ofNat (sent requests ++ layer.held).length) ∧
      (c.window ≤ 1 → layer.held = [] ∧ (sent requests).Sublist (passing c offers) ∧
        (u.smooth = true → sent requests = passing c offers)) ∧
      (Through c → u.bare = (newUse carrier medium none).after steps ∧
        sent requests = offers.map Prod.snd) := by
  intro u offers
  have hnew := accounted_new carrier medium c
  obtain ⟨layer, requests, hasks, h⟩ := hnew.after steps
  have hcounts : layer.Counts c offers := h.counts
  refine ⟨layer, requests, h.present, hasks, h.outside, hcounts.total, hcounts.dropped,
    hcounts.duplicated, hcounts.balance, hcounts.room, fun hsmooth => ?_, fun hwindow => ?_,
    fun hc => ?_⟩
  · have hwhole : (sent requests ++ layer.held).Perm (passing c offers) := h.whole hsmooth
    refine ⟨hwhole.trans (passing_perm c offers), ?_, ?_⟩
    · rw [hwhole.length_eq]
      exact length_passing c offers
    · rw [hwhole.length_eq]
      exact hcounts.passed
  · exact ⟨hcounts.held_eq_nil hwindow, h.sublist hwindow, h.inOrder hwindow⟩
  · exact ⟨hnew.bare_after hc steps, h.same hc⟩

def sampleConfig : LossyConfig := { duplicateRate := .one, window := 3 }

def samplePublication (topic : String) : Publication := { topic, message := default }

/-- Two publications, each repeated, and a flush: the second fills the window. -/
def sampleSteps : List (Step Unit) :=
  [.publish ⟨.zero, .zero, []⟩ (samplePublication "a"),
    .publish ⟨.zero, .zero, [2, 0]⟩ (samplePublication "b"), .flush []]

def sampleUse : Use Unit :=
  (newUse (.mock { connected := true }) {} (some { config := sampleConfig })).after sampleSteps

/-- The rehearsal transport has kept what its layer let through. -/
theorem layer_accounts_for_offers_sample :
    sampleUse.smooth = true ∧
      (sampleUse.link.carrier.mock?.map Mock.published).map (List.map Publication.topic) =
        some ["b", "a", "a", "b"] ∧
      ∃ layer requests, sampleUse.link.layer = some layer ∧
        sampleUse.outside = Alone.after ⟨.mock { connected := true }, {}, []⟩ requests ∧
        (sent requests ++ layer.held).Perm
          [samplePublication "a", samplePublication "b", samplePublication "a",
            samplePublication "b"] := by
  have hsmooth : sampleUse.smooth = true := by decide +kernel
  have hpublished : (sampleUse.link.carrier.mock?.map Mock.published).map
      (List.map Publication.topic) = some ["b", "a", "a", "b"] := by decide +kernel
  obtain ⟨layer, requests, hlayer, -, houtside, -, -, -, -, -, hwhole, -⟩ :=
    layer_accounts_for_offers (.mock { connected := true }) {} sampleConfig sampleSteps
  exact ⟨hsmooth, hpublished, layer, requests, hlayer, houtside, (hwhole hsmooth).1⟩

end Link

end OrderedRelay
