import OrderService.Proof.Confluence

/-!
# Violation reports

What `apply_event` reports is suppressed for a redelivery and only kept if the guard of `save` accepts
the fold. Both tests are of the sequence against the stored one, so a delivery either advances the
fold and reports what `apply_event` finds, or leaves the fold and reports nothing (`wp_deliver_exact`).
What a stream reports of an order is then what `apply_event` reports of the events that advanced it
(`run_reports`), which is nothing exactly if these follow the lifecycle (`reportsOf_eq_nil_iff`).
-/

namespace OrderService

open Eff

/-! ## What a stream of events gives rise to -/

/-- The violations found in events of one order, each folded into what the ones before it left. -/
def reportsOf : Option OrderFold → List LifecycleEvent → List Violation
  | _, [] => []
  | current, e :: es => (applyEvent current e).2 ++ reportsOf (some (applyEvent current e).1) es

/-- What events of one order leave of a fold, if none is a redelivery. -/
def foldAll (current : Option OrderFold) (es : List LifecycleEvent) : Option OrderFold :=
  es.foldl (fun current e => some (applyEvent current e).1) current

theorem reportsOf_concat (current : Option OrderFold) (es : List LifecycleEvent) (e : LifecycleEvent) :
    reportsOf current (es ++ [e]) =
      reportsOf current es ++ (applyEvent (foldAll current es) e).2 := by
  induction es generalizing current with
  | nil => simp [reportsOf, foldAll]
  | cons x es ih =>
    rw [List.cons_append, reportsOf, ih, reportsOf, List.append_assoc]
    rfl

/-- An order's events, in their order. -/
def lifecycleStages : List (Nat × EventType) :=
  [(1, .orderCreated), (2, .packed), (3, .shipped), (4, .delivered)]

/-- The stored sequence and state of a fold, as `apply_event` reads them. -/
def standing (current : Option OrderFold) : Nat × Option OrderState :=
  ((current.map OrderFold.lastSequence).getD 0, current.bind OrderFold.state)

@[simp] theorem standing_none : standing none = (0, none) := rfl

@[simp] theorem standing_some (f : OrderFold) : standing (some f) = (f.lastSequence, f.state) := rfl

/-- Which violations an event gives rise to: a gap unless its sequence is the next one, an illegal
transition unless its type is the legal successor. -/
theorem applyEvent_types (current : Option OrderFold) (e : LifecycleEvent) :
    (applyEvent current e).2.map Violation.type =
      (if e.sequence ≠ (standing current).1 + 1 then [.sequenceGap] else []) ++
        if expectedNextEvent (standing current).2 ≠ some e.eventType then [.illegalTransition]
        else [] := by
  have hstanding : ∀ f : OrderFold, (applyEvent (some f) e).2.map Violation.type =
      (if e.sequence ≠ f.lastSequence + 1 then [.sequenceGap] else []) ++
        if expectedNextEvent f.state ≠ some e.eventType then [.illegalTransition] else [] := by
    intro f
    simp only [applyEvent, Option.getD_some, List.map_append]
    congr 1
    · split <;> rfl
    · by_cases hlegal : legalPredecessor e.eventType = f.state
      · simp [isLegalTransition, hlegal, expectedNextEvent_eq_some.2 hlegal]
      · simp [isLegalTransition, hlegal, mt expectedNextEvent_eq_some.1 hlegal]
  cases current with
  | none => exact hstanding { orderId := e.orderId }
  | some f => exact hstanding f

theorem applyEvent_names (current : Option OrderFold) (e : LifecycleEvent) :
    ∀ v ∈ (applyEvent current e).2, v.orderId = e.orderId ∧ v.sequence = e.sequence := by
  intro v hv
  simp only [applyEvent] at hv
  rcases List.mem_append.1 hv with hv | hv
  · split at hv
    · rw [List.mem_singleton.1 hv]
      exact ⟨rfl, rfl⟩
    · cases hv
  · split at hv
    · rw [List.mem_singleton.1 hv]
      exact ⟨rfl, rfl⟩
    · cases hv

theorem standing_applyEvent (current : Option OrderFold) (e : LifecycleEvent) :
    standing (some (applyEvent current e).1) = (e.sequence, some (resultingState e.eventType)) := rfl

theorem applyEvent_silent {current : Option OrderFold} {e : LifecycleEvent} :
    (applyEvent current e).2 = [] ↔
      e.sequence = (standing current).1 + 1 ∧
        legalPredecessor e.eventType = (standing current).2 := by
  rw [← List.map_eq_nil_iff (f := Violation.type), applyEvent_types, List.append_eq_nil_iff,
    ← expectedNextEvent_eq_some]
  constructor
  · rintro ⟨hgap, hillegal⟩
    refine ⟨Decidable.byContradiction fun h => ?_, Decidable.byContradiction fun h => ?_⟩
    · simp [h] at hgap
    · simp [h] at hillegal
  · rintro ⟨hseq, hnext⟩
    simp [hseq, hnext]

/-- The sequence and the type of an event, which is what the lifecycle fixes of it. -/
def LifecycleEvent.stage (e : LifecycleEvent) : Nat × EventType := (e.sequence, e.eventType)

/-- The state an order is in after its first `n` events. -/
def stateAfter : Nat → Option OrderState
  | 0 => none
  | 1 => some .created
  | 2 => some .packed
  | 3 => some .shipped
  | _ => some .delivered

/-- After `n` events of the lifecycle, exactly the next one of it is silent. -/
theorem silent_iff_next {current : Option OrderFold} {n : Nat} (hn : n ≤ 4)
    (h : standing current = (n, stateAfter n)) (e : LifecycleEvent) :
    (applyEvent current e).2 = [] ↔ lifecycleStages.drop n = e.stage :: lifecycleStages.drop (n + 1) := by
  rw [applyEvent_silent, h]
  obtain ⟨id, k, seq, type, hseq⟩ := e
  have hcases : n = 0 ∨ n = 1 ∨ n = 2 ∨ n = 3 ∨ n = 4 := by omega
  rcases hcases with rfl | rfl | rfl | rfl | rfl <;> cases type <;>
    simp [lifecycleStages, stateAfter, legalPredecessor, LifecycleEvent.stage, eq_comm]

/-- The fold after the next event of the lifecycle. -/
theorem standing_next (current : Option OrderFold) {n : Nat} (hn : n ≤ 4) {e : LifecycleEvent}
    (h : lifecycleStages.drop n = e.stage :: lifecycleStages.drop (n + 1)) :
    n + 1 ≤ 4 ∧ standing (some (applyEvent current e).1) = (n + 1, stateAfter (n + 1)) := by
  rw [standing_applyEvent]
  obtain ⟨id, k, seq, type, hseq⟩ := e
  have hcases : n = 0 ∨ n = 1 ∨ n = 2 ∨ n = 3 ∨ n = 4 := by omega
  rcases hcases with rfl | rfl | rfl | rfl | rfl <;>
    simp [lifecycleStages, LifecycleEvent.stage] at h <;>
    simp [← h, stateAfter, resultingState]

/-- After `n` events of the lifecycle, events report nothing exactly if they go on with it. -/
theorem reportsOf_eq_nil_iff_drop {es : List LifecycleEvent} : ∀ {current : Option OrderFold} {n : Nat},
    n ≤ 4 → standing current = (n, stateAfter n) →
      (reportsOf current es = [] ↔ es.map LifecycleEvent.stage <+: lifecycleStages.drop n) := by
  induction es with
  | nil => simp [reportsOf]
  | cons e es ih =>
    intro current n hn h
    rw [reportsOf, List.append_eq_nil_iff, silent_iff_next hn h e, List.map_cons]
    constructor
    · rintro ⟨hdrop, hrest⟩
      obtain ⟨hn', hnext⟩ := standing_next current hn hdrop
      rw [hdrop, List.cons_prefix_cons]
      exact ⟨rfl, (ih hn' hnext).1 hrest⟩
    · intro hprefix
      have hdrop : lifecycleStages.drop n = e.stage :: lifecycleStages.drop (n + 1) := by
        obtain ⟨rest, hrest⟩ := hprefix
        rw [List.cons_append] at hrest
        have htail := congrArg List.tail hrest
        rw [List.tail_cons, List.tail_drop] at htail
        rw [← hrest, htail]
      obtain ⟨hn', hnext⟩ := standing_next current hn hdrop
      rw [hdrop, List.cons_prefix_cons] at hprefix
      exact ⟨hdrop, (ih hn' hnext).2 hprefix.2⟩

/-- **Events report nothing exactly if they are a prefix of the lifecycle.** -/
theorem reportsOf_eq_nil_iff {es : List LifecycleEvent} :
    reportsOf none es = [] ↔ es.map LifecycleEvent.stage <+: lifecycleStages :=
  reportsOf_eq_nil_iff_drop (n := 0) (by omega) rfl

/-! ## One delivery -/

variable {c : Service} {p : Nat} {k : String} {w t : World}

theorem lastSequence_eq (w : World) (p : Nat) (k : String) :
    lastSequence w p k = (standing (w.store.fold p k)).1 := by
  unfold lastSequence LocalStore.fold standing
  cases w.store.table p k <;> rfl

/-- The event does not exceed the sequence stored of its order. -/
def Redelivered (w : World) (p : Nat) (e : LifecycleEvent) : Prop :=
  e.sequence ≤ lastSequence w p e.orderId

instance {e : LifecycleEvent} : Decidable (Redelivered w p e) := inferInstanceAs (Decidable (_ ≤ _))

theorem redelivered_iff {e : LifecycleEvent} :
    Redelivered w p e ↔ e.sequence ≤ (standing (w.store.fold p e.orderId)).1 := by
  rw [← lastSequence_eq]
  rfl

/-- The test for a redelivery is the one of the guard: an order that is not stored is at 0. -/
theorem reportOf_eq (e : LifecycleEvent) : reportOf (w.store.fold p e.orderId) e =
    if Redelivered w p e then [] else (applyEvent (w.store.fold p e.orderId) e).2 := by
  have hpos := e.one_le_sequence
  have hiff := redelivered_iff (w := w) (p := p) (e := e)
  cases hfold : w.store.fold p e.orderId with
  | none =>
    rw [hfold, standing_none] at hiff
    rw [if_neg (mt hiff.1 (Nat.not_le.2 hpos))]
    rfl
  | some f =>
    rw [hfold, standing_some] at hiff
    by_cases hnew : e.sequence ≤ f.lastSequence
    · rw [if_pos (hiff.2 hnew)]
      simp [reportOf, hnew]
    · rw [if_neg (mt hiff.1 hnew)]
      simp [reportOf, hnew]

theorem wp_commit_reported {env : Env} {m : Message} {R : Unit → World → Prop}
    (hok : ∀ t, t.reported = w.reported → R ⟨⟩ t) :
    wp (ServiceConsumer.commit c env m) R (fun _ _ => True) w := by
  unfold ServiceConsumer.commit ServiceConsumer.commits buildCommitStrategy
  split
  · exact wp_note (fun _ => trivial) (fun _ _ _ _ => trivial) (fun _ => hok _ rfl)
      fun _ _ _ _ => hok _ rfl
  · exact wp_directNote trivial (fun _ _ => hok _ rfl) fun _ _ => hok _ rfl

theorem wp_persistAndCommit_reported {env : Env} {m : Message} {event : LifecycleEvent}
    {fold : OrderFold} {i : Nat} {groupId : String} :
    wp (ServiceConsumer.persistAndCommit c (localStateStore c.toDeployment groupId env) env m event
      fold i) (fun _ t => t.reported = w.reported) (fun _ _ => True) w := by
  refine wp_persistAndCommit_keeps (fun t ht => ?_) (fun t ht => ?_)
    (fun t ht => wp_commit_reported fun _ hu => hu.trans ht) (fun _ _ => trivial) rfl
  · simp only [ServiceConsumer.saveFold, localStateStore, wp_bind]
    exact wp_save rfl rfl (fun _ _ _ _ _ _ _ => trivial) (fun _ _ _ _ _ _ => trivial)
      fun _ _ _ _ _ _ _ _ => ht
  · exact wp_storeFlush trivial (fun _ _ _ _ _ _ _ => trivial) fun _ _ _ _ _ _ _ => ht

/-- What a delivery reports. -/
theorem wp_deliver_reported {x : Delivery} (hp : x.message.partition = p)
    (hh : ServiceConsumer.runHandler c x.env x.event x.attempt = .ok ()) :
    wp (deliver c x) (fun _ (t : World) => t.reported = w.reported ++
      if Redelivered w p x.event then []
      else (applyEvent (w.store.fold p x.event.orderId) x.event).2) (fun _ _ => True) w := by
  subst hp
  refine wp_handleEvent_reports (fun _ => trivial) fun _ => ?_
  refine wp_load (fun _ _ _ => trivial) fun n s _ => ?_
  refine wp_dispatch (fun _ _ _ => trivial) (fun exc herr _ => ?_) fun _ => ?_
  · rw [hh] at herr
    cases herr
  · refine wp_mono wp_persistAndCommit_reported (fun _ t ht => ?_) fun _ _ _ => trivial
    exact ht.trans (congrArg (w.reported ++ ·) (reportOf_eq x.event))

/-- The fold of an order after a delivery of one of its events. -/
theorem fold_deliver (w : World) (p : Nat) (e : LifecycleEvent) :
    some ((Row.deliver (w.store.table p e.orderId) e).decode e.orderId).fold =
      if Redelivered w p e then w.store.fold p e.orderId
      else some (applyEvent (w.store.fold p e.orderId) e).1 := by
  have hpos := e.one_le_sequence
  have hiff := redelivered_iff (w := w) (p := p) (e := e)
  unfold LocalStore.fold at *
  cases hrow : w.store.table p e.orderId with
  | none =>
    rw [hrow, Option.map_none, standing_none] at hiff
    rw [if_neg (mt hiff.1 (Nat.not_le.2 hpos))]
    rfl
  | some r =>
    rw [hrow, Option.map_some, standing_some] at hiff
    rw [Row.deliver_some]
    by_cases hnew : r.lastSequence < e.sequence
    · rw [if_pos hnew, if_neg (mt hiff.1 (by simpa [Row.decode] using hnew))]
      rfl
    · rw [if_neg hnew, if_pos (hiff.2 (by simpa [Row.decode] using hnew))]
      rfl

/-! ## Runs -/

/-- `_handle_message`, on the message of a delivery. -/
def consume (c : Service) (x : Delivery) : M Unit :=
  ServiceConsumer.handleMessage c (localStateStore c.toDeployment c.groupId x.env) x.env x.message

/-- The delivery is of an event for this service, on partition `p`, whose handler succeeds. -/
structure Delivery.Succeeds (c : Service) (p : Nat) (x : Delivery) : Prop where
  partition_eq : x.message.partition = p
  decodes : ∃ value, x.message.value = some value ∧ c.decode value = .event x.event
  not_skipped : ¬ Skipped c x.message
  attempt_eq : x.attempt = attemptOf c.std (decodeHeaders x.message)
  handled : ServiceConsumer.runHandler c x.env x.event x.attempt = .ok ()

theorem Delivery.Succeeds.consume_eq {x : Delivery} (h : x.Succeeds c p) :
    consume c x = deliver c x := by
  obtain ⟨value, hvalue, hdecode⟩ := h.decodes
  have hne : x.message.value ≠ none := by simp [hvalue]
  have htopic : x.message.topic ≠ c.settings.orderSnapshotTopic :=
    fun htopic => h.not_skipped ⟨hne, .inl htopic⟩
  have hforeign : ¬ ServiceConsumer.isForeignRetry c (decodeHeaders x.message) = true :=
    fun hforeign => h.not_skipped ⟨hne, .inr hforeign⟩
  unfold consume deliver ServiceConsumer.handleMessage
  rw [hvalue]
  simp only [htopic, hforeign, if_false, decode_eq_ok.2 hdecode, h.attempt_eq]
  rfl

/-- The events of order `k` that exceed the sequence stored of it when they are delivered. -/
def advancing (c : Service) (p : Nat) (k : String) : List Delivery → World → List LifecycleEvent
  | [], _ => []
  | x :: l, w =>
    (if x.event.orderId = k ∧ ¬ Redelivered w p x.event then [x.event] else []) ++
      advancing c p k l ((consume c x).exec w).2

/-- The violations of order `k`. -/
def violationsOf (k : String) (reports : List Violation) : List Violation :=
  reports.filter (·.orderId = k)

/-- What a delivery reports, and where it leaves the fold of any order. -/
theorem wp_deliver_exact {x : Delivery} (hp : x.message.partition = p)
    (hh : ServiceConsumer.runHandler c x.env x.event x.attempt = .ok ()) :
    wp (deliver c x) (fun _ (t : World) =>
      (t.reported = w.reported ++ if Redelivered w p x.event then []
        else (applyEvent (w.store.fold p x.event.orderId) x.event).2) ∧
      ∀ k, t.store.fold p k = if x.event.orderId = k ∧ ¬ Redelivered w p x.event then
        some (applyEvent (w.store.fold p k) x.event).1 else w.store.fold p k) (fun _ _ => True) w := by
  refine wp_mono (wp_and (wp_deliver_reported hp hh) (wp_deliver hp hh)) ?_ fun _ _ _ => trivial
  rintro _ t ⟨hreported, htable⟩
  refine ⟨hreported, fun k => ?_⟩
  unfold LocalStore.fold at *
  rw [htable]
  by_cases hk : x.event.orderId = k
  · subst hk
    rw [Function.update_self, Option.map_some, fold_deliver]
    by_cases hnew : Redelivered w p x.event
    · rw [if_pos hnew, if_neg (fun h => h.2 hnew)]
      rfl
    · rw [if_neg hnew, if_pos ⟨rfl, hnew⟩]
      rfl
  · rw [Function.update_of_ne (Ne.symm hk), if_neg (fun h => hk h.1)]

theorem consume_exact {x : Delivery} (hx : x.Succeeds c p)
    (hrun : (consume c x).exec w = (.ok ⟨⟩, t)) :
    (t.reported = w.reported ++ if Redelivered w p x.event then []
      else (applyEvent (w.store.fold p x.event.orderId) x.event).2) ∧
    ∀ k, t.store.fold p k = if x.event.orderId = k ∧ ¬ Redelivered w p x.event then
      some (applyEvent (w.store.fold p k) x.event).1 else w.store.fold p k := by
  rw [hx.consume_eq] at hrun
  exact exec_of_wp (wp_deliver_exact hx.partition_eq hx.handled) hrun

/-- What a delivery reports of one order. -/
theorem violationsOf_delivery (w : World) (p : Nat) (k : String) (e : LifecycleEvent) :
    violationsOf k (if Redelivered w p e then []
      else (applyEvent (w.store.fold p e.orderId) e).2) =
      if e.orderId = k ∧ ¬ Redelivered w p e then (applyEvent (w.store.fold p k) e).2 else [] := by
  by_cases hnew : Redelivered w p e
  · rw [if_pos hnew, if_neg (fun h => h.2 hnew)]
    rfl
  · rw [if_neg hnew]
    unfold violationsOf
    by_cases hk : e.orderId = k
    · subst hk
      rw [if_pos ⟨rfl, hnew⟩, List.filter_eq_self]
      intro v hv
      simpa using (applyEvent_names _ e v hv).1
    · rw [if_neg (fun h => hk h.1), List.filter_eq_nil_iff]
      intro v hv
      simpa [(applyEvent_names _ e v hv).1] using hk

/-- **What a run reports of an order** is what `apply_event` reports of the events that advanced it. -/
theorem run_reports {l : List Delivery} (k : String) (hl : ∀ x ∈ l, x.Succeeds c p)
    (hrun : (l.forM (consume c)).exec w = (.ok ⟨⟩, t)) :
    ∃ reports, t.reported = w.reported ++ reports ∧
      violationsOf k reports = reportsOf (w.store.fold p k) (advancing c p k l w) := by
  induction l generalizing w with
  | nil =>
    cases hrun
    exact ⟨[], by simp, rfl⟩
  | cons x l ih =>
    obtain ⟨u, hx, hrest⟩ := exec_forM_cons hrun
    obtain ⟨reports, hreports, hk⟩ := ih (fun y hy => hl y (.tail _ hy)) hrest
    obtain ⟨hreported, hfold⟩ := consume_exact (hl x (.head _)) hx
    refine ⟨_, by rw [hreports, hreported, List.append_assoc], ?_⟩
    rw [violationsOf, List.filter_append, ← violationsOf, ← violationsOf, violationsOf_delivery, hk,
      hfold, advancing, hx]
    split <;> simp [reportsOf]

/-- **What a run leaves of an order's fold** is what the events that advanced it leave. -/
theorem run_fold {l : List Delivery} (k : String) (hl : ∀ x ∈ l, x.Succeeds c p)
    (hrun : (l.forM (consume c)).exec w = (.ok ⟨⟩, t)) :
    t.store.fold p k = foldAll (w.store.fold p k) (advancing c p k l w) := by
  induction l generalizing w with
  | nil =>
    cases hrun
    rfl
  | cons x l ih =>
    obtain ⟨u, hx, hrest⟩ := exec_forM_cons hrun
    obtain ⟨-, hfold⟩ := consume_exact (hl x (.head _)) hx
    rw [ih (fun y hy => hl y (.tail _ hy)) hrest, hfold, advancing, hx]
    split <;> rfl

/-- Events in the order of their sequences all advance the fold. -/
theorem advancing_of_increasing {l : List Delivery} (hl : ∀ x ∈ l, x.Succeeds c p)
    (hrun : (l.forM (consume c)).exec w = (.ok ⟨⟩, t))
    (hincreasing : (eventsOf k l).Pairwise (·.sequence < ·.sequence))
    (habove : ∀ e ∈ eventsOf k l, lastSequence w p k < e.sequence) :
    advancing c p k l w = eventsOf k l := by
  induction l generalizing w with
  | nil => rfl
  | cons x l ih =>
    obtain ⟨u, hx, hrest⟩ := exec_forM_cons hrun
    obtain ⟨-, hfold⟩ := consume_exact (hl x (.head _)) hx
    have hcons : eventsOf k (x :: l) =
        if x.event.orderId = k then x.event :: eventsOf k l else eventsOf k l := by
      unfold eventsOf
      rw [List.map_cons, List.filter_cons]
      simp only [decide_eq_true_eq]
    rw [hcons] at hincreasing habove ⊢
    rw [advancing, hx]
    by_cases hk : x.event.orderId = k
    · rw [if_pos hk] at hincreasing habove ⊢
      obtain ⟨hfirst, hincreasing⟩ := List.pairwise_cons.1 hincreasing
      have hnew : ¬ Redelivered w p x.event := by
        have := habove x.event (.head _)
        subst hk
        exact Nat.not_le.2 this
      rw [if_pos ⟨hk, hnew⟩, List.singleton_append, ih (fun y hy => hl y (.tail _ hy)) hrest hincreasing]
      intro e he
      rw [lastSequence_eq, hfold, if_pos ⟨hk, hnew⟩, standing_applyEvent]
      exact hfirst e he
    · rw [if_neg hk] at hincreasing habove ⊢
      rw [if_neg (fun h => hk h.1), List.nil_append]
      refine ih (fun y hy => hl y (.tail _ hy)) hrest hincreasing fun e he => ?_
      rw [lastSequence_eq, hfold, if_neg (fun h => hk h.1), ← lastSequence_eq]
      exact habove e he

/-- `new` is what an event of an order gives rise to, `current` being stored of the order: a sequence
gap unless its sequence is the next one, an illegal transition unless its type is the legal successor
of the state. -/
structure Exact (current : Option OrderFold) (e : LifecycleEvent) (new : List Violation) : Prop where
  names : ∀ r ∈ new, r.orderId = e.orderId ∧ r.sequence = e.sequence
  once : (new.map Violation.type).Nodup
  gap_iff : .sequenceGap ∈ new.map Violation.type ↔ e.sequence ≠ (standing current).1 + 1
  illegal_iff : .illegalTransition ∈ new.map Violation.type ↔
    expectedNextEvent (standing current).2 ≠ some e.eventType

theorem exact_applyEvent (current : Option OrderFold) (e : LifecycleEvent) :
    Exact current e (applyEvent current e).2 := by
  refine ⟨applyEvent_names current e, ?_, ?_, ?_⟩ <;> rw [applyEvent_types]
  · split <;> split <;> simp
  · split <;> split <;> simp_all
  · split <;> split <;> simp_all

/-- **Violation reports are exact.** Of an order that is not stored when a stream begins, nothing is
reported exactly if the events that advance its fold are a prefix of the lifecycle; each of these is
reported by what is stored when it comes, and no other event is reported or changes a fold. -/
theorem violations_exact (c : Service) (p : Nat) (k : String) (l : List Delivery) (w t : World)
    (hl : ∀ x ∈ l, x.Succeeds c p) (hw : w.store.table p k = none)
    (hrun : (l.forM (consume c)).exec w = (.ok ⟨⟩, t)) :
    (∃ reports, t.reported = w.reported ++ reports ∧
      violationsOf k reports = reportsOf none (advancing c p k l w) ∧
      (violationsOf k reports = [] ↔
        (advancing c p k l w).map LifecycleEvent.stage <+: lifecycleStages)) ∧
    ∀ pre x post, l = pre ++ x :: post → ∃ u v new,
      (pre.forM (consume c)).exec w = (.ok ⟨⟩, u) ∧ (consume c x).exec u = (.ok ⟨⟩, v) ∧
      v.reported = u.reported ++ new ∧
      (¬ Redelivered u p x.event → Exact (u.store.fold p x.event.orderId) x.event new) ∧
      (Redelivered u p x.event → new = [] ∧ v.store.fold p = u.store.fold p) := by
  constructor
  · obtain ⟨reports, hreports, hk⟩ := run_reports k hl hrun
    have hnone : w.store.fold p k = none := by
      unfold LocalStore.fold
      rw [hw, Option.map_none]
    rw [hnone] at hk
    refine ⟨reports, hreports, hk, ?_⟩
    rw [hk]
    exact reportsOf_eq_nil_iff
  · rintro pre x post rfl
    obtain ⟨u, hpre, hrest⟩ := exec_forM_split hrun
    obtain ⟨v, hx, -⟩ := exec_forM_cons hrest
    obtain ⟨hreported, hfold⟩ := consume_exact (hl x (by simp)) hx
    refine ⟨u, v, _, hpre, hx, hreported, fun hnew => ?_, fun hold => ⟨if_pos hold, ?_⟩⟩
    · rw [if_neg hnew]
      exact exact_applyEvent _ _
    · funext k
      rw [hfold, if_neg (fun h => h.2 hold)]

/-! An order whose second event overtakes its first one. -/

def stocking : Service where
  toDeployment := .onePartition {} fun value =>
    if value.size = 1 then .event createdEvent else .event packedEvent
  name := "stocking"
  handlers := []

def arrivalOf (event : LifecycleEvent) (value : ByteArray) (offset : Nat) : Delivery where
  env := { servedByFlush := [⟨"order-fold.stocking-service", 0⟩] }
  message := { topic := "order-lifecycle", partition := 0, offset, key := none, value := some value }
  event := event
  attempt := 1

def overtaken : List Delivery :=
  [arrivalOf packedEvent ⟨#[1, 1]⟩ 0, arrivalOf createdEvent ⟨#[1]⟩ 1, arrivalOf packedEvent ⟨#[1, 1]⟩ 2]

theorem violations_exact_overtaken :
    violationsOf "a" ((overtaken.forM (consume stocking)).exec {}).2.reported ≠ [] := by
  have hsucceeds : ∀ x ∈ overtaken, x.Succeeds stocking 0 := by
    intro x hx
    simp only [overtaken, List.mem_cons, List.not_mem_nil, or_false] at hx
    rcases hx with rfl | rfl | rfl
    · exact ⟨rfl, ⟨_, rfl, rfl⟩, by decide, by decide, rfl⟩
    · exact ⟨rfl, ⟨_, rfl, rfl⟩, by decide, by decide, rfl⟩
    · exact ⟨rfl, ⟨_, rfl, rfl⟩, by decide, by decide, rfl⟩
  obtain ⟨⟨reports, hreports, -, hiff⟩, -⟩ := violations_exact stocking 0 "a" overtaken {} _ hsucceeds
    rfl (exec_eq_of_ok (by decide +kernel))
  rw [hreports, List.nil_append, ne_eq, hiff]
  decide +kernel

end OrderService
