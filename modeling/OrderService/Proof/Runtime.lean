import OrderService.Proof.Committer
import OrderService.Proof.Store

/-!
# Rules for the exits of a message

`handleMessage` ends in one of four ways: a tombstone, a skip, a failure route or a fold
(`wp_handleMessage`). A failure route publishes a copy and notes the message, or fails to and seeks
back (`wp_routeFailure`).
-/

namespace OrderService

open Eff KeyedLog

variable {c : Service} {env : Env} {w : World} {m : Message}
variable {R : Unit → World → Prop} {E : Exn → World → Prop}

/-! ## The failure router -/

/-- The at-least-once publication of `q` will be acknowledged: it is taken, its report carries no
error, and the flush leaves nothing queued. -/
structure Acknowledged (d : Deployment) (env : Env) (p : ProducerState) (q : Queued) : Prop where
  direct : d.settings.exactlyOnce = false
  taken : env.produce = none
  fate_eq : q.fate = none
  drained : unreported (p.enqueue q).queue env.servedByFlush = []

/-- The producer takes no record: its `produce` fails, or there is no transaction to join. -/
def CannotPublish (env : Env) (p : ProducerState) : Prop := env.produce ≠ none ∨ p.txn = none

theorem wp_routerPublish {d : Deployment} {topic : String} {headers : List (String × String)}
    {q : Queued} (hq : q = FailureRouter.copyOf d env topic m headers) (hcrash : E .crash w)
    (hrefused : ∀ text n, CannotPublish env w.producer → ¬ Acknowledged d env w.producer q → E (.failurePublishFailed text) { w with
      crashIn := n, trace := w.trace ++ [.produce q false] })
    (hunacked : ∀ e n b p pos, d.settings.exactlyOnce = false →
      e = .crash ∨ (∃ text, e = .failurePublishFailed text) ∧ ¬ Acknowledged d env w.producer q →
      Published d q w.broker w.producer b p [.produce q true] → E e { w with
        broker := b, producer := p, store := { w.store with position := pos }, crashIn := n
        trace := w.trace ++ [.produce q true] })
    (hok : ∀ n b p pos, Published d q w.broker w.producer b p [.produce q true] →
      (d.settings.exactlyOnce = false → p.queue = [] ∧ q.fate = none) → R ⟨⟩ { w with
        broker := b, producer := p, store := { w.store with position := pos }, crashIn := n
        trace := w.trace ++ [.produce q true] }) :
    wp (FailureRouter.publish d env topic m headers) R E w := by
  subst hq
  generalize hq : FailureRouter.copyOf d env topic m headers = q at *
  simp only [FailureRouter.publish, hq, wp_bind, wp_tryCatch]
  refine wp_produce hcrash (fun e n he => ?_) fun n _ htxn => ?_
  · cases he with
    | buffer h | kafka _ h =>
      exact hrefused _ n (.inl (by simp [h])) fun hacked => by cases hacked.taken.symm.trans h
    | noTransaction _ hx hnone =>
      exact hrefused _ n (.inr hnone) fun hacked => by cases hacked.direct.symm.trans hx
  · have hpub : Published d q w.broker w.producer w.broker (w.producer.enqueue q)
        [.produce q true] :=
      ⟨⟨[], w.broker, w.producer, _, .refl _ _, htxn, .refl _ _⟩, [], by simp, rfl⟩
    split
    · rename_i heo
      rw [wp_pure]
      exact hok n _ _ w.store.position hpub fun h => absurd heo (by simp [h])
    · rename_i heo
      replace heo : d.settings.exactlyOnce = false := by simpa using heo
      rw [wp_bind]
      refine wp_flush (hunacked _ n _ _ w.store.position heo (.inl rfl) hpub) ?_
      intro n rs b p pos hs hqueue
      have hserved : Published d q w.broker w.producer b p [.produce q true] :=
        ⟨⟨[], w.broker, w.producer, _, .refl _ _, htxn, hs⟩, hpub.calls_eq⟩
      simp only [wp_bind, wp_get]
      split
      · rename_i hleft
        refine hunacked _ n b p pos heo (.inr ⟨⟨_, rfl⟩, fun hacked => ?_⟩) hserved
        have hempty : p.queue = [] := hqueue.trans hacked.drained
        simp [hempty] at hleft
      · rename_i hdone
        split
        · rename_i hfate
          refine hunacked _ n b p pos heo (.inr ⟨⟨_, rfl⟩, fun hacked => ?_⟩) hserved
          cases hacked.fate_eq.symm.trans hfate
        · rename_i hfate
          rw [wp_pure]
          refine hok n b p pos hserved fun _ => ⟨?_, hfate⟩
          simp only [Bool.or_eq_true, decide_eq_true_eq, not_or, ne_eq, Decidable.not_not] at hdone
          exact List.eq_nil_of_length_eq_zero hdone.1

/-- A copy `_route_failure` publishes of `m`. -/
def IsFailureCopy (c : Service) (env : Env) (m : Message) (q : Queued) : Prop :=
  ∃ topic headers, (topic = c.settings.retryTopic ∨ topic = c.settings.dlqTopic) ∧
    q = FailureRouter.copyOf c.toDeployment env topic m headers

theorem IsFailureCopy.isFold {q : Queued} (h : IsFailureCopy c env m q) : q.isFold = false := by
  obtain ⟨topic, headers, -, rfl⟩ := h
  rfl

theorem IsFailureCopy.source {q : Queued} (h : IsFailureCopy c env m q) : q.source = m.id := by
  obtain ⟨topic, headers, -, rfl⟩ := h
  rfl

/-- The headers of a copy put on the retry topic. -/
def retryHeaders (d : Deployment) (env : Env) (origin : Origin) (service groupId : String)
    (attempt : Int) (error : Exn) : List (String × String) :=
  FailureRouter.provenance origin service groupId ++
    [(hdrAttempt, toString attempt),
      (hdrRetryAt, d.std.isoformat (env.now + d.settings.backoffForAttempt attempt)),
      (hdrErrorClass, (describeError error).1),
      (hdrErrorMessage, (describeError error).2),
      (hdrFailedAt, d.std.isoformat env.now)]

/-- The headers of a copy put on the dead-letter topic. -/
def deadLetterHeaders (d : Deployment) (env : Env) (origin : Origin) (service groupId : String)
    (attemptsMade : Int) (error : Exn) : List (String × String) :=
  FailureRouter.provenance origin service groupId ++
    [(hdrAttemptsMade, toString attemptsMade),
      (hdrErrorClass, (describeError error).1),
      (hdrErrorMessage, (describeError error).2),
      (hdrFailedAt, d.std.isoformat env.now)]

/-- The failure is to be tried again. -/
def Retries (c : Service) (exc : Exn) (attempt : Int) : Prop :=
  exc.isRetryable = true ∧ attempt < c.settings.retryMaxAttempts

instance {exc : Exn} {attempt : Int} : Decidable (Retries c exc attempt) :=
  inferInstanceAs (Decidable (_ ∧ _))

/-- The copy `_route_failure` publishes, `m` being from `origin`. -/
def failureCopy (c : Service) (env : Env) (m : Message) (exc : Exn) (origin : Origin) (attempt : Int) :
    Queued :=
  if Retries c exc attempt then
    FailureRouter.copyOf c.toDeployment env c.settings.retryTopic m
      (retryHeaders c.toDeployment env origin c.name c.groupId (attempt + 1) exc)
  else
    FailureRouter.copyOf c.toDeployment env c.settings.dlqTopic m
      (deadLetterHeaders c.toDeployment env origin c.name c.groupId attempt exc)

/-- `q` is the copy that `_route_failure` publishes of `m`. -/
def RoutedCopy (c : Service) (env : Env) (m : Message) (exc : Exn) (attempt : Int) (q : Queued) : Prop :=
  ∃ origin, Origin.fromMessage c.std m = .ok origin ∧ q = failureCopy c env m exc origin attempt

theorem RoutedCopy.isFailureCopy {exc : Exn} {attempt : Int} {q : Queued}
    (h : RoutedCopy c env m exc attempt q) : IsFailureCopy c env m q := by
  obtain ⟨origin, -, rfl⟩ := h
  unfold failureCopy
  split
  · exact ⟨_, _, .inl rfl, rfl⟩
  · exact ⟨_, _, .inr rfl, rfl⟩

/-- **The failure route**: nothing happens if the message's time has no text, or its copy is refused,
or not acknowledged, or published. -/
theorem wp_routeFailure_exits {exc : Exn} {attempt : Int}
    (hraise : ∀ e, Origin.fromMessage c.std m = .error e → E e w) (hcrash : E .crash w)
    (hdied : ∀ q n b p pos, RoutedCopy c env m exc attempt q →
      Published c.toDeployment q w.broker w.producer b p [.produce q true] → E .crash { w with
        broker := b, producer := p, store := { w.store with position := pos }, crashIn := n
        trace := w.trace ++ [.produce q true] })
    (hrefused : ∀ q n, CannotPublish env w.producer →
      ¬ Acknowledged c.toDeployment env w.producer q → RoutedCopy c env m exc attempt q →
      wp (ServiceConsumer.rewind env m) R E { w with
        crashIn := n, trace := w.trace ++ [.produce q false] })
    (hunacked : ∀ q n b p pos, ¬ Acknowledged c.toDeployment env w.producer q →
      RoutedCopy c env m exc attempt q → c.settings.exactlyOnce = false →
      Published c.toDeployment q w.broker w.producer b p [.produce q true] →
      wp (ServiceConsumer.rewind env m) R E { w with
        broker := b, producer := p, store := { w.store with position := pos }, crashIn := n
        trace := w.trace ++ [.produce q true] })
    (hok : ∀ q n b p pos, RoutedCopy c env m exc attempt q →
      Published c.toDeployment q w.broker w.producer b p [.produce q true] →
      (c.settings.exactlyOnce = false → p.queue = [] ∧ q.fate = none) →
      wp (ServiceConsumer.commit c env m) R E { w with
        broker := b, producer := p, store := { w.store with position := pos }, crashIn := n
        trace := w.trace ++ [.produce q true] }) :
    wp (ServiceConsumer.routeFailure c env m exc attempt) R E w := by
  simp only [ServiceConsumer.routeFailure, wp_bind, wp_tryCatch]
  cases horigin : Origin.fromMessage c.std m with
  | error e => exact hraise e horigin
  | ok origin =>
    simp only [ofExcept, wp_pure]
    have hpublish : ∀ topic headers (handler : Exn → M Bool),
        (∀ text, handler (.failurePublishFailed text) = pure false) → handler .crash = throw .crash →
        RoutedCopy c env m exc attempt (FailureRouter.copyOf c.toDeployment env topic m headers) →
        wp (FailureRouter.publish c.toDeployment env topic m headers)
          (fun _ t => wp (ServiceConsumer.commit c env m) R E t)
          (fun e t => wp (handler e)
            (fun published t => wp (if published then ServiceConsumer.commit c env m
              else ServiceConsumer.rewind env m) R E t) E t) w := by
      intro topic headers handler hfailed hdead hcopy
      refine wp_routerPublish rfl (by rw [hdead]; exact hcrash) (fun text n hcannot hne => ?_) ?_ ?_
      · rw [hfailed]
        exact hrefused _ n hcannot hne hcopy
      · rintro e n b p pos heo (rfl | ⟨⟨text, rfl⟩, hne⟩) hpub
        · rw [hdead]
          exact hdied _ n b p pos hcopy hpub
        · rw [hfailed]
          exact hunacked _ n b p pos hne hcopy heo hpub
      · exact fun n b p pos hpub hdone => hok _ n b p pos hcopy hpub hdone
    have hcopy : ∀ q, q = failureCopy c env m exc origin attempt → RoutedCopy c env m exc attempt q :=
      fun q hq => ⟨origin, horigin, hq⟩
    unfold ServiceConsumer.publishFailure
    by_cases hretries : Retries c exc attempt
    · rw [if_pos (by simpa [Retries] using hretries)]
      simp only [FailureRouter.toRetry, wp_bind, wp_pure]
      exact hpublish _ _ _ (fun _ => rfl) rfl (hcopy _ (by rw [failureCopy, if_pos hretries]; rfl))
    · rw [if_neg (by simpa [Retries] using hretries)]
      simp only [FailureRouter.toDeadLetter]
      exact hpublish _ _ _ (fun _ => rfl) rfl (hcopy _ (by rw [failureCopy, if_neg hretries]; rfl))

theorem wp_routeFailure {exc : Exn} {attempt : Int} (hraise : ∀ e, E e w)
    (hcrash : ∀ q n b p pos, IsFailureCopy c env m q →
      Published c.toDeployment q w.broker w.producer b p [.produce q true] → E .crash { w with
        broker := b, producer := p, store := { w.store with position := pos }, crashIn := n
        trace := w.trace ++ [.produce q true] })
    (hrefused : ∀ q n, CannotPublish env w.producer → IsFailureCopy c env m q →
      wp (ServiceConsumer.rewind env m) R E { w with
        crashIn := n, trace := w.trace ++ [.produce q false] })
    (hunacked : ∀ q n b p pos, IsFailureCopy c env m q → c.settings.exactlyOnce = false →
      Published c.toDeployment q w.broker w.producer b p [.produce q true] →
      wp (ServiceConsumer.rewind env m) R E { w with
        broker := b, producer := p, store := { w.store with position := pos }, crashIn := n
        trace := w.trace ++ [.produce q true] })
    (hok : ∀ q n b p pos, IsFailureCopy c env m q →
      Published c.toDeployment q w.broker w.producer b p [.produce q true] →
      (c.settings.exactlyOnce = false → p.queue = [] ∧ q.fate = none) →
      wp (ServiceConsumer.commit c env m) R E { w with
        broker := b, producer := p, store := { w.store with position := pos }, crashIn := n
        trace := w.trace ++ [.produce q true] }) :
    wp (ServiceConsumer.routeFailure c env m exc attempt) R E w :=
  wp_routeFailure_exits (fun e _ => hraise e) (hraise _)
    (fun q n b p pos hq => hcrash q n b p pos hq.isFailureCopy)
    (fun q n hcannot _ hq => hrefused q n hcannot hq.isFailureCopy)
    (fun q n b p pos _ hq => hunacked q n b p pos hq.isFailureCopy)
    (fun q n b p pos hq => hok q n b p pos hq.isFailureCopy)

/-! ## Rewinding -/

theorem wp_rewind (hcrash : E .crash w)
    (hfail : ∀ n, env.seek m.tp ≠ none → R ⟨⟩ { w with
      crashIn := n, trace := w.trace ++ [.seek m.tp m.offset false] })
    (hok : ∀ n, R ⟨⟩ { w with
      position := Function.update w.position m.tp m.offset, crashIn := n
      trace := w.trace ++ [.seek m.tp m.offset true] }) :
    wp (ServiceConsumer.rewind env m) R E w := by
  simp only [ServiceConsumer.rewind, wp_tryCatch]
  exact wp_seek hcrash (fun _ n h => hfail n h) fun n _ => hok n

/-! ## The exits -/

variable {groupId : String}

/-- What a service knows of an order. -/
def LocalStore.fold (s : LocalStore) (i : Nat) (orderId : String) : Option OrderFold :=
  (s.table i orderId).map fun r => (r.decode orderId).fold

/-- The error is one `_handle_message` routes. -/
def Exn.isRouted : Exn → Bool
  | .crash | .stateStoreUnavailable _ => false
  | _ => true

/-- The end of a decoded message: its handler raises what is not a failure, or fails, or returns. -/
theorem wp_dispatch {store : StateStore} {event : LifecycleEvent} {updated : OrderFold} {attempt : Int}
    (hfatal : ∀ e, ServiceConsumer.runHandler c env event attempt = .error e →
      e.isRouted = false → E e w)
    (hfail : ∀ exc, ServiceConsumer.runHandler c env event attempt = .error exc →
      exc.isRouted = true → wp (ServiceConsumer.routeFailure c env m exc attempt) R E w)
    (hfold : ServiceConsumer.runHandler c env event attempt = .ok () →
      wp (ServiceConsumer.persistAndCommit c store env m event updated m.partition) R E w) :
    wp (ServiceConsumer.dispatch c store env m event updated attempt) R E w := by
  unfold ServiceConsumer.dispatch
  split
  · exact hfatal _ ‹_› rfl
  · exact hfatal _ ‹_› rfl
  · rename_i exc hcrash hstore hraised
    refine hfail exc hraised ?_
    cases exc with
    | crash => exact absurd rfl hcrash
    | stateStoreUnavailable text => exact absurd rfl (hstore text)
    | _ => rfl
  · exact hfold ‹_›

/-- The key is absent or is UTF-8. -/
def KeyDecodes (m : Message) : Prop := ∀ bytes, m.key = some bytes → (String.fromUTF8? bytes).isSome = true

/-- What a delivery logs, `current` being stored: nothing if it is a redelivery. -/
def reportOf (current : Option OrderFold) (event : LifecycleEvent) : List Violation :=
  if (match current with
      | none => false
      | some fold => decide (event.sequence ≤ fold.lastSequence)) = true then []
  else (applyEvent current event).2

theorem wp_handleEvent_reports {store : StateStore} {event : LifecycleEvent} {attempt : Int}
    (hkey : ¬ KeyDecodes m → E .unicodeDecode w)
    (hload : KeyDecodes m → wp (store.load m.partition event.orderId) (fun current t =>
      wp (ServiceConsumer.dispatch c store env m event (applyEvent current event).1 attempt) R E
        { t with reported := t.reported ++ reportOf current event }) E w) :
    wp (ServiceConsumer.handleEvent c store env m event attempt) R E w := by
  have hrest : KeyDecodes m → wp (do
      let current ← store.load m.partition event.orderId
      if (match current with
          | none => false
          | some fold => decide (event.sequence ≤ fold.lastSequence)) = true then
        ServiceConsumer.dispatch c store env m event (applyEvent current event).1 attempt
      else do
        modify fun w => { w with reported := w.reported ++ (applyEvent current event).2 }
        ServiceConsumer.dispatch c store env m event (applyEvent current event).1 attempt) R E w := by
    intro hdecodes
    rw [wp_bind]
    refine wp_mono (hload hdecodes) (fun current t ht => ?_) fun _ _ he => he
    unfold reportOf at ht
    rw [wp_ite]
    constructor
    · intro hredelivered
      rwa [if_pos hredelivered, List.append_nil] at ht
    · intro hnew
      rw [wp_bind, wp_modify]
      rwa [if_neg hnew] at ht
  unfold ServiceConsumer.handleEvent
  cases hm : m.key with
  | none => exact hrest fun _ h => by cases hm.symm.trans h
  | some bytes =>
    rw [wp_ite]
    constructor
    · intro hnone
      refine hkey fun h => ?_
      have hsome := h bytes hm
      rw [Option.isNone_iff_eq_none.1 hnone] at hsome
      cases hsome
    · intro hsome
      refine hrest fun bytes' h => ?_
      cases hm.symm.trans h
      simpa [Option.isSome_iff_ne_none] using hsome

theorem wp_handleEvent_exits {store : StateStore} {event : LifecycleEvent} {attempt : Int}
    (hkey : ¬ KeyDecodes m → E .unicodeDecode w)
    (hload : KeyDecodes m → wp (store.load m.partition event.orderId) (fun current t => ∀ reported,
      wp (ServiceConsumer.dispatch c store env m event (applyEvent current event).1 attempt) R E
        { t with reported := reported }) E w) :
    wp (ServiceConsumer.handleEvent c store env m event attempt) R E w :=
  wp_handleEvent_reports hkey fun hdecodes =>
    wp_mono (hload hdecodes) (fun _ _ ht => ht _) fun _ _ he => he

/-- The messages that are committed and otherwise ignored. -/
def Skipped (c : Service) (m : Message) : Prop := m.value ≠ none ∧
  (m.topic = c.settings.orderSnapshotTopic ∨
    ServiceConsumer.isForeignRetry c (decodeHeaders m) = true)

instance : Decidable (Skipped c m) := inferInstanceAs (Decidable (_ ∧ _))

/-- The message fails with `exc`: it does not decode, or its handler raises. -/
def FailsWith (c : Service) (env : Env) (m : Message) (exc : Exn) : Prop := ∃ value,
  m.value = some value ∧
  ((∃ text, ServiceConsumer.decode c value = .error (.nonRetryable text) ∧ exc = .nonRetryable text) ∨
    ∃ event, ServiceConsumer.decode c value = .ok event ∧
      ServiceConsumer.runHandler c env event (attemptOf c.std (decodeHeaders m)) = .error exc)

/-- The message fails: it does not decode, or its handler raises. -/
def Fails (c : Service) (env : Env) (m : Message) : Prop := ∃ value, m.value = some value ∧
  ((∃ text, ServiceConsumer.decode c value = .error (.nonRetryable text)) ∨
    ∃ event exc, ServiceConsumer.decode c value = .ok event ∧
      ServiceConsumer.runHandler c env event (attemptOf c.std (decodeHeaders m)) = .error exc)

theorem FailsWith.fails {exc : Exn} (h : FailsWith c env m exc) : Fails c env m := by
  obtain ⟨value, hvalue, ⟨text, hdecode, -⟩ | ⟨event, hdecode, hraised⟩⟩ := h
  · exact ⟨value, hvalue, .inl ⟨text, hdecode⟩⟩
  · exact ⟨value, hvalue, .inr ⟨event, exc, hdecode, hraised⟩⟩

theorem decode_eq_ok {value : ByteArray} {event : LifecycleEvent} :
    ServiceConsumer.decode c value = .ok event ↔ c.decode value = .event event := by
  unfold ServiceConsumer.decode
  cases c.decode value <;> simp

/-- **The exits of a message**, on any store. -/
theorem wp_handleMessage_exits {store : StateStore}
    (htombstone : m.value = none → wp (ServiceConsumer.handleTombstone c store env m m.partition) R E w)
    (hskip : Skipped c m → wp (ServiceConsumer.commit c env m) R E w)
    (hundecodable : ∀ value e, m.value = some value → ¬ Skipped c m →
      ServiceConsumer.decode c value = .error e → (∀ text, e ≠ .nonRetryable text) → E e w)
    (hinvalid : ∀ value text, m.value = some value → ¬ Skipped c m →
      ServiceConsumer.decode c value = .error (.nonRetryable text) →
      wp (ServiceConsumer.routeFailure c env m (.nonRetryable text)
        (attemptOf c.std (decodeHeaders m))) R E w)
    (hevent : ∀ value event, m.value = some value → ¬ Skipped c m → c.decode value = .event event →
      wp (ServiceConsumer.handleEvent c store env m event (attemptOf c.std (decodeHeaders m))) R E w) :
    wp (ServiceConsumer.handleMessage c store env m) R E w := by
  unfold ServiceConsumer.handleMessage
  split
  · exact htombstone ‹_›
  · rename_i value hvalue
    have hne : m.value ≠ none := by simp [hvalue]
    split
    · exact hskip ⟨hne, .inl ‹_›⟩
    · rename_i htopic
      simp only []
      split
      · exact hskip ⟨hne, .inr ‹_›⟩
      · rename_i hforeign
        have hns : ¬ Skipped c m := fun h => h.2.elim htopic hforeign
        split
        · exact hinvalid value _ hvalue hns ‹_›
        · rename_i e hne hdecode
          refine hundecodable value e hvalue hns hdecode fun text he => ?_
          exact hne text he
        · exact hevent value _ hvalue hns (decode_eq_ok.1 ‹_›)

theorem wp_handleEvent {event : LifecycleEvent} {attempt : Int}
    (hraise : ∀ e n s reported, E e { w with store := s, reported := reported, crashIn := n })
    (hfail : ∀ exc n s reported, Opened m.partition w.store s →
      ServiceConsumer.runHandler c env event attempt = .error exc →
      wp (ServiceConsumer.routeFailure c env m exc attempt) R E
        { w with store := s, reported := reported, crashIn := n })
    (hfold : ∀ n s reported, Opened m.partition w.store s →
      ServiceConsumer.runHandler c env event attempt = .ok () →
      wp (ServiceConsumer.persistAndCommit c (localStateStore c.toDeployment groupId env) env m event
          (applyEvent (w.store.fold m.partition event.orderId) event).1 m.partition) R E
        { w with store := s, reported := reported, crashIn := n }) :
    wp (ServiceConsumer.handleEvent c (localStateStore c.toDeployment groupId env) env m event
      attempt) R E w := by
  refine wp_handleEvent_exits (fun _ => hraise _ w.crashIn w.store w.reported) fun _ => ?_
  refine wp_load (fun e n s => hraise e n s w.reported) fun n s hs reported => ?_
  refine wp_dispatch (fun e _ _ => hraise e n s reported) (fun exc hraised _ => ?_) fun hh => ?_
  · exact hfail exc n s reported hs hraised
  · exact hfold n s reported hs hh

/-- **The exits of a message**, on the durable store. -/
theorem wp_handleMessage
    (hraise : ∀ e n s reported, E e { w with store := s, reported := reported, crashIn := n })
    (htombstone : m.value = none →
      wp (ServiceConsumer.handleTombstone c (localStateStore c.toDeployment groupId env) env m
        m.partition) R E w)
    (hskip : Skipped c m → wp (ServiceConsumer.commit c env m) R E w)
    (hfail : ∀ exc attempt n s reported, ¬ Skipped c m → Fails c env m →
      s = w.store ∨ Opened m.partition w.store s →
      wp (ServiceConsumer.routeFailure c env m exc attempt) R E
        { w with store := s, reported := reported, crashIn := n })
    (hfold : ∀ value event attempt n s reported, m.value = some value → ¬ Skipped c m →
      c.decode value = .event event → Opened m.partition w.store s →
      ServiceConsumer.runHandler c env event attempt = .ok () →
      wp (ServiceConsumer.persistAndCommit c (localStateStore c.toDeployment groupId env) env m event
          (applyEvent (w.store.fold m.partition event.orderId) event).1 m.partition) R E
        { w with store := s, reported := reported, crashIn := n }) :
    wp (ServiceConsumer.handleMessage c (localStateStore c.toDeployment groupId env) env m) R E w := by
  refine wp_handleMessage_exits htombstone hskip
    (fun _ e _ _ _ _ => hraise e w.crashIn w.store w.reported) (fun value text hvalue hns hdecode => ?_) ?_
  · exact hfail _ _ w.crashIn w.store w.reported hns ⟨value, hvalue, .inl ⟨text, hdecode⟩⟩ (.inl rfl)
  · intro value event hvalue hns hdecode
    refine wp_handleEvent hraise (fun exc n s r hs hraised => ?_) fun n s r hs hh => ?_
    · have hfails : Fails c env m := ⟨value, hvalue, .inr ⟨event, exc, decode_eq_ok.2 hdecode, hraised⟩⟩
      exact hfail exc _ n s r hns hfails (.inr hs)
    · exact hfold value event _ n s r hvalue hns hdecode hs hh

/-- **The fold write**, in each of its three orders, keeps what its parts keep. -/
theorem wp_persistAndCommit_keeps {store : StateStore} {I : World → Prop} {event : LifecycleEvent}
    {fold : OrderFold} {i : Nat}
    (hsave : ∀ t, I t → wp (ServiceConsumer.saveFold store event fold i) (fun _ => I) E t)
    (hflush : ∀ t, I t → wp store.flush (fun _ => I) E t)
    (hcommit : ∀ t, I t → wp (ServiceConsumer.commit c env m) (fun _ => I) E t)
    (hcrash : ∀ t, I t → E .crash { t with crashIn := some 0 }) (h : I w) :
    wp (ServiceConsumer.persistAndCommit c store env m event fold i) (fun _ => I) E w := by
  have hlever : ∀ point t, I t → wp (ServiceConsumer.crashIfConfigured c point) (fun _ => I) E t := by
    intro point t ht
    unfold ServiceConsumer.crashIfConfigured
    split
    · simp only [wp_bind, wp_modify, wp_throw]
      exact hcrash t ht
    · exact ht
  unfold ServiceConsumer.persistAndCommit
  split
  · simp only [wp_bind]
    refine wp_mono (hsave w h) (fun _ t ht => ?_) fun _ _ he => he
    exact wp_mono (hcommit t ht) (fun _ u hu => hlever _ u hu) fun _ _ he => he
  split
  · simp only [wp_bind]
    refine wp_mono (hcommit w h) (fun _ t ht => ?_) fun _ _ he => he
    exact wp_mono (hlever _ t ht) (fun _ u hu => hsave u hu) fun _ _ he => he
  · simp only [wp_bind]
    refine wp_mono (hsave w h) (fun _ t ht => ?_) fun _ _ he => he
    refine wp_mono (hflush t ht) (fun _ u hu => ?_) fun _ _ he => he
    exact wp_mono (hlever _ u hu) (fun _ v hv => hcommit v hv) fun _ _ he => he

/-! ## What no exit touches -/

/-- The stores, the folds and the assignment are as they were. -/
structure Untouched (w t : World) : Prop where
  stores_eq : t.store.stores = w.store.stores
  disk_eq : t.store.disk = w.store.disk
  memory_eq : t.memory = w.memory
  assignment_eq : t.assignment = w.assignment

theorem Untouched.refl (w : World) : Untouched w w := ⟨rfl, rfl, rfl, rfl⟩

theorem Untouched.after {w t u : World} (h' : Untouched t u) (h : Untouched w t) : Untouched w u :=
  ⟨h'.stores_eq.trans h.stores_eq, h'.disk_eq.trans h.disk_eq, h'.memory_eq.trans h.memory_eq,
    h'.assignment_eq.trans h.assignment_eq⟩

theorem Untouched.table_eq {w t : World} (h : Untouched w t) (i : Nat) :
    t.store.table i = w.store.table i := by
  unfold LocalStore.table
  rw [h.disk_eq]

theorem wp_commit_untouched (hE : ∀ e t, E e t) (hok : ∀ t, Untouched w t → R ⟨⟩ t) :
    wp (ServiceConsumer.commit c env m) R E w := by
  unfold ServiceConsumer.commit ServiceConsumer.commits buildCommitStrategy
  split
  · exact wp_note (fun _ => hE _ _) (fun _ _ _ _ => hE _ _) (fun _ => hok _ ⟨rfl, rfl, rfl, rfl⟩)
      (fun _ _ _ _ => hok _ ⟨rfl, rfl, rfl, rfl⟩)
  · exact wp_directNote (hE _ _) (fun _ _ => hok _ ⟨rfl, rfl, rfl, rfl⟩)
      (fun _ _ => hok _ ⟨rfl, rfl, rfl, rfl⟩)

theorem wp_routeFailure_untouched {exc : Exn} {attempt : Int} (hE : ∀ e t, E e t)
    (hok : ∀ t, Untouched w t → R ⟨⟩ t) :
    wp (ServiceConsumer.routeFailure c env m exc attempt) R E w := by
  have hrewind : ∀ t, Untouched w t → wp (ServiceConsumer.rewind env m) R E t := fun t ht =>
    wp_rewind (hE _ _) (fun _ _ => hok _ ⟨ht.stores_eq, ht.disk_eq, ht.memory_eq, ht.assignment_eq⟩)
      (fun _ => hok _ ⟨ht.stores_eq, ht.disk_eq, ht.memory_eq, ht.assignment_eq⟩)
  refine wp_routeFailure (fun e => hE e _) (fun _ _ _ _ _ _ _ => hE _ _) ?_ ?_ ?_
  · exact fun _ _ _ _ => hrewind _ ⟨rfl, rfl, rfl, rfl⟩
  · exact fun _ _ _ _ _ _ _ _ => hrewind _ ⟨rfl, rfl, rfl, rfl⟩
  · exact fun _ _ _ _ _ _ _ _ => wp_commit_untouched hE
      fun t ht => hok t (ht.after ⟨rfl, rfl, rfl, rfl⟩)

/-- The row of one order was written, and nothing else of what `Untouched` names. -/
structure WroteOnly (i : Nat) (k : String) (v : Option Row) (w t : World) : Prop where
  wrote : Wrote i k v w.store t.store
  memory_eq : t.memory = w.memory
  assignment_eq : t.assignment = w.assignment

theorem Untouched.wrote {i : Nat} {k : String} {v : Option Row} {w t u : World}
    (h' : Untouched t u) (h : WroteOnly i k v w t) : WroteOnly i k v w u where
  wrote := ⟨fun j => by rw [h'.stores_eq, h.wrote.mem_stores], by rw [h'.table_eq, h.wrote.table_eq],
    fun j hj => by rw [h'.table_eq, h.wrote.table_ne j hj]⟩
  memory_eq := h'.memory_eq.trans h.memory_eq
  assignment_eq := h'.assignment_eq.trans h.assignment_eq

theorem WroteOnly.after {i : Nat} {k : String} {v : Option Row} {w t u : World}
    (h : Untouched w t) (h' : WroteOnly i k v t u) : WroteOnly i k v w u where
  wrote := ⟨fun j => by rw [h'.wrote.mem_stores, h.stores_eq],
    by rw [h'.wrote.table_eq, h.table_eq], fun j hj => by rw [h'.wrote.table_ne j hj, h.table_eq]⟩
  memory_eq := h'.memory_eq.trans h.memory_eq
  assignment_eq := h'.assignment_eq.trans h.assignment_eq

theorem wp_handleTombstone_wrote (hE : ∀ e t, E e t)
    (hok : ∀ t, WroteOnly m.partition (keyOf m) none w t → R ⟨⟩ t) :
    wp (ServiceConsumer.handleTombstone c (localStateStore c.toDeployment groupId env) env m
      m.partition) R E w := by
  simp only [ServiceConsumer.handleTombstone, localStateStore, wp_bind]
  refine wp_delete rfl (fun _ _ _ _ _ _ _ => hE _ _) (fun _ _ _ _ _ _ => hE _ _) ?_
  exact fun _ _ _ _ _ hs _ _ => wp_commit_untouched hE
    fun t ht => hok t (ht.wrote ⟨hs, rfl, rfl⟩)

/-- Whatever the guarantee and the order of the writes, a fold write that returns has written the
fold, under the guard. -/
theorem wp_persistAndCommit_wrote {event : LifecycleEvent} {fold : OrderFold} {i : Nat}
    (hE : ∀ e t, E e t)
    (hok : ∀ t, WroteOnly i event.orderId (some (Row.next event.orderId
      (w.store.table i event.orderId) fold event.eventId)) w t → R ⟨⟩ t) :
    wp (ServiceConsumer.persistAndCommit c (localStateStore c.toDeployment groupId env) env m event
      fold i) R E w := by
  have hsave : ∀ (w : World) (R : Unit → World → Prop),
      (∀ t, WroteOnly i event.orderId (some (Row.next event.orderId
        (w.store.table i event.orderId) fold event.eventId)) w t → R ⟨⟩ t) →
      wp (ServiceConsumer.saveFold (localStateStore c.toDeployment groupId env) event fold i) R E w := by
    intro w R hR
    simp only [ServiceConsumer.saveFold, localStateStore, wp_bind]
    refine wp_save rfl rfl (fun _ _ _ _ _ _ _ => hE _ _) (fun _ _ _ _ _ _ => hE _ _) ?_
    exact fun _ _ _ _ _ _ hs _ => hR _ ⟨hs, rfl, rfl⟩
  have hcrash : ∀ point (t : World) (R : Unit → World → Prop), R ⟨⟩ t →
      wp (ServiceConsumer.crashIfConfigured c point) R E t := by
    intro point t R hR
    unfold ServiceConsumer.crashIfConfigured
    split
    · exact hE _ _
    · exact hR
  unfold ServiceConsumer.persistAndCommit
  split
  · simp only [wp_bind]
    refine hsave w _ fun t ht => wp_commit_untouched hE fun u hu => ?_
    exact hcrash _ _ _ (hok u (hu.wrote ht))
  split
  · simp only [wp_bind]
    refine wp_commit_untouched hE fun t ht => hcrash _ _ _ ?_
    refine hsave t _ fun u hu => hok u (.after ht ?_)
    rwa [ht.table_eq] at hu
  · simp only [wp_bind]
    refine hsave w _ fun t ht => ?_
    refine wp_storeFlush (hE _ _) (fun _ _ _ _ _ _ _ => hE _ _) ?_
    intro n rs b p pos _ _
    refine hcrash _ _ _ (wp_commit_untouched hE fun u hu => ?_)
    exact hok u (hu.wrote ⟨⟨ht.wrote.mem_stores, ht.wrote.table_eq, ht.wrote.table_ne⟩,
      ht.memory_eq, ht.assignment_eq⟩)

/-! ## Steps -/

namespace ServiceConsumer

/-- **A step on the durable store**: a revocation and a loss are one release, with two reasons, and an
error either ends the loop or is passed over. -/
theorem wp_localStep {l : Label}
    (hassign : ∀ tps, l = .assign tps →
      wp (LocalStateStore.restore c.toDeployment c.groupId env (tps.map (·.partition)))
        (fun _ t => R ⟨⟩ (t.assign tps)) E { w with crashIn := env.crashIn })
    (hrelease : ∀ tps reason, l = .revoke tps ∨ l = .lost tps →
      wp (do
        let _ ← (commits c env).abort reason
        forget (localStateStore c.toDeployment c.groupId env) tps
        modify fun w => w.unassign tps) R E { w with crashIn := env.crashIn })
    (hidle : l = .idle → wp (settle c (localStateStore c.toDeployment c.groupId env) env) R E
      { w with crashIn := env.crashIn })
    (herror : ∀ e fatal, l = .error e fatal →
      R ⟨⟩ { w with crashIn := env.crashIn } ∧ E (.kafka e) { w with crashIn := env.crashIn })
    (hmessage : ∀ m, l = .message m →
      wp (handleMessage c (localStateStore c.toDeployment c.groupId env) env m)
        (fun _ t => wp (settle c (localStateStore c.toDeployment c.groupId env) env) R E t) E { w with
          position := Function.update w.position m.tp (m.offset + 1), handling := m.id
          crashIn := env.crashIn, trace := w.trace ++ [.poll m.id] }) :
    wp (localStep c (env, l)) R E w := by
  simp only [localStep, step, wp_bind, wp_modify]
  cases l with
  | assign tps =>
    simp only [onAssign, localStateStore, wp_bind]
    exact hassign tps rfl
  | revoke tps =>
    have hrevoked := hrelease tps "partitions revoked" (.inl rfl)
    simp only [onRevoke, wp_bind] at hrevoked ⊢
    exact hrevoked
  | lost tps =>
    have hlost := hrelease tps "partitions lost" (.inr rfl)
    simp only [onLost, wp_bind] at hlost ⊢
    exact hlost
  | idle => exact hidle rfl
  | error e fatal =>
    simp only [handleError, wp_ite, wp_pure, wp_throw]
    have hboth := herror e fatal rfl
    exact ⟨fun _ => hboth.1, fun _ => ⟨fun _ => hboth.2, fun _ => hboth.1⟩⟩
  | message m =>
    simp only [receive, wp_bind, wp_modify, wp_record]
    exact hmessage m rfl

end ServiceConsumer

/-! ## Runs -/

/-- A process that has called nothing yet. -/
structure Built (w : World) : Prop where
  producer_eq : w.producer = {}
  committer_eq : w.committer = {}
  assignment_eq : w.assignment = []
  stores_eq : w.store.stores = []
  trace_eq : w.trace = []

/-- What the client does: a partition is assigned once, and a message is delivered from an assigned
partition, at or after its read position. -/
def ServiceConsumer.Contract (w : World) : Env × ServiceConsumer.Label → Prop
  | (_, .assign tps) => ∀ tp ∈ tps, tp ∉ w.assignment
  | (_, .message m) => m.tp ∈ w.assignment ∧ w.position m.tp ≤ m.offset
  | _ => True

end OrderService
