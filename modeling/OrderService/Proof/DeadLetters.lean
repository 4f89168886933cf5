import OrderService.Proof.Copies
import OrderService.Proof.Hops
import OrderService.Proof.Restore
import OrderService.Proof.Services

/-!
# What a registered service dead-letters

With the failure lever off, a service puts nothing on the retry topic, and on the dead-letter topic only
messages that are no events (`only_undecodable_dead_lettered`): in any run under its container, whatever
the environment does.
-/

namespace OrderService

open Eff ServiceConsumer

section
variable {c : Service} {backend : StateBackend} {env : Env} {d : Deployment} {groupId : String} {w t : World}

/-! ## Steps that publish no copy -/

theorem wp_settle_noCopy {store : StateStore} (h : NoCopy w t) :
    wp (settle c store env) (fun _ => NoCopy w) (fun _ => NoCopy w) t := by
  have hfailed : ∀ {n p calls}, CommitFailed t.committer.offsets t.producer p calls → NoCopy w { t with
      producer := p, committer := {}, crashIn := n, trace := t.trace ++ calls } := by
    intro n p calls hp
    refine h.trans (.add ?_ rfl)
    cases hp with
    | unsent hcalls => obtain rfl | rfl := hcalls <;> rfl
    | sent _ hcalls => obtain rfl | rfl := hcalls <;> rfl
  refine wp_settle h (fun _ _ _ _ _ _ hp => hfailed hp) (fun _ _ _ _ _ hp => hfailed hp) ?_
  exact fun _ _ _ _ _ _ _ => h.trans (.add rfl rfl)

theorem wp_abort_noCopy {reason : String} (h : NoCopy w t) :
    wp ((commits c env).abort reason) (fun _ => NoCopy w) (fun _ => NoCopy w) t := by
  unfold commits buildCommitStrategy
  split
  · change wp (TransactionalCommitter.abort _ _ _ reason) _ _ _
    refine wp_abort (fun _ => h) (fun _ _ calls _ _ hcalls => ?_) (fun _ _ _ => ?_) fun _ _ _ _ _ => ?_
    · have hnil : copiesIn calls = [] := by obtain rfl | rfl := hcalls <;> rfl
      exact h.trans (.add hnil rfl)
    · exact h.trans (.add rfl rfl)
    · exact h.trans (.add rfl rfl)
  · exact h

theorem wp_restore_noCopy {ps : List Nat} (h : NoCopy w t) :
    wp ((buildStateStore backend d groupId env).restore ps) (fun _ => NoCopy w) (fun _ => NoCopy w) t := by
  cases backend with
  | memory => exact h
  | «local» => exact wp_restore (fun _ _ _ => h.trans (.add rfl rfl)) fun _ _ _ => h.trans (.add rfl rfl)

theorem wp_forget_noCopy {ps : List Nat} (h : NoCopy w t) :
    wp ((buildStateStore backend d groupId env).forget ps) (fun _ => NoCopy w) (fun _ => NoCopy w) t := by
  cases backend with
  | memory => exact h
  | «local» => exact wp_forget (fun _ => h) h (fun _ _ _ _ _ _ _ => h) fun _ _ _ _ _ _ _ => h

/-- What a step publishes: nothing, or one copy, of the message it was given. -/
def StepCopied (c : Service) (l : Env × Label) (w t : World) : Prop :=
  NoCopy w t ∨ ∃ m q, l.2 = .message m ∧ FailureOf c l.1 m q ∧ copiesIn t.trace = copiesIn w.trace ++ [q]

theorem wp_lifeStep_copied (l : Env × Label) :
    wp (lifeStep c backend l) (fun _ => StepCopied c l w) (fun _ _ => False) w := by
  obtain ⟨env, l⟩ := l
  have hset : NoCopy w { w with crashIn := env.crashIn } := rfl
  simp only [lifeStep, wp_tryCatch, wp_modify, step, wp_bind]
  cases l with
  | assign tps =>
    simp only [onAssign, wp_bind, wp_modify]
    exact wp_mono (wp_restore_noCopy hset) (fun _ _ ht => .inl ht) fun _ _ ht => .inl ht
  | revoke tps =>
    simp only [onRevoke, ServiceConsumer.forget, wp_bind, wp_modify]
    refine wp_mono (wp_abort_noCopy hset) (fun _ t ht => ?_) fun _ _ ht => .inl ht
    exact wp_mono (wp_forget_noCopy ht) (fun _ _ hu => .inl hu) fun _ _ hu => .inl hu
  | lost tps =>
    simp only [onLost, ServiceConsumer.forget, wp_bind, wp_modify]
    refine wp_mono (wp_abort_noCopy hset) (fun _ t ht => ?_) fun _ _ ht => .inl ht
    exact wp_mono (wp_forget_noCopy ht) (fun _ _ hu => .inl hu) fun _ _ hu => .inl hu
  | idle => exact wp_mono (wp_settle_noCopy hset) (fun _ _ ht => .inl ht) fun _ _ ht => .inl ht
  | error e fatal =>
    simp only [handleError, wp_ite, wp_pure, wp_throw]
    exact ⟨fun _ => .inl rfl, fun _ => ⟨fun _ => .inl rfl, fun _ => .inl rfl⟩⟩
  | message m =>
    simp only [receive, wp_bind, wp_modify, wp_record]
    have hcopied : ∀ {u t : World}, u.trace = w.trace ++ [.poll m.id] → Copied (FailureOf c env m) u t →
        StepCopied c (env, .message m) w t := by
      intro u t hu ht
      have hpoll : NoCopy w u := .add rfl hu
      obtain ht | ⟨q, hq, ht⟩ := ht
      · exact .inl (hpoll.trans ht)
      · refine .inr ⟨m, q, rfl, hq, ?_⟩
        rw [ht, show copiesIn u.trace = copiesIn w.trace from hpoll]
    refine wp_mono (wp_handleMessage_copied _) (fun _ t ht => ?_) fun _ _ ht => hcopied rfl ht
    refine wp_mono (wp_settle_noCopy rfl) (fun _ u hu => ?_) fun _ u hu => ?_
    · exact hcopied rfl (ht.then_noCopy hu)
    · exact hcopied rfl (ht.then_noCopy hu)

/-- In a run every copy is that of a failure at one of its messages. -/
theorem copies_of_run {P : Queued → Prop} {ls : List (Env × Label)}
    (hP : ∀ env m q, (env, .message m) ∈ ls → FailureOf c env m q → P q) (hw : ∀ q ∈ copiesIn w.trace, P q) :
    Throughout (lifeStep c backend) (fun t => ∀ q ∈ copiesIn t.trace, P q) ls w := by
  have hstep : ∀ t l, (∀ q ∈ copiesIn t.trace, P q) → l ∈ ls →
      wp (lifeStep c backend l) (fun _ u => ∀ q ∈ copiesIn u.trace, P q) (fun _ _ => False) t := by
    intro t l ht hl
    refine wp_mono (wp_lifeStep_copied l) (fun _ u hu => ?_) fun _ _ hu => hu
    obtain hu | ⟨m, q, hm, hq, hu⟩ := hu
    · rw [hu]
      exact ht
    · rw [hu]
      refine List.forall_mem_append.2 ⟨ht, List.forall_mem_singleton.2 (hP l.1 m q ?_ hq)⟩
      rw [← hm]
      exact hl
  exact throughout_of_invariant (G := fun _ l => l ∈ ls) hstep (fun _ h => h) hw (along_of_mem fun _ _ hl => hl)

end

/-! ## The registered services -/

section
variable {py : Interpreter} {pd : Pydantic} {defaults : WireEvent.Defaults}

/-- The handler that a turn runs is the service's own, on the event it has read. -/
def RunsHandler (py : Interpreter) (pd : Pydantic) (defaults : WireEvent.Defaults) (r : RegisteredService) :
    Env × Label → Prop
  | (env, .message m) => ∀ value e, m.value = some value →
      readEvent py pd defaults value.data.toList = .ok e →
        ∃ counts, env.handler = (r.handle py counts e).map fun _ => ()
  | _ => True

/-- The message is no event. -/
def Undecodable (py : Interpreter) (pd : Pydantic) (defaults : WireEvent.Defaults) (m : Message) : Prop :=
  ∃ value, m.value = some value ∧ readEvent py pd defaults value.data.toList = .error .valueError

/-- What the service decodes is what is read. -/
theorem decode_service {r : RegisteredService} {settings : Settings} {partitioner : Option ByteArray → Nat}
    {value : ByteArray} :
    (∀ event, decode (r.service py settings defaults partitioner pd) value = .ok event →
      ∃ e, readEvent py pd defaults value.data.toList = .ok e ∧ e.toLifecycleEvent = event) ∧
    ∀ text, decode (r.service py settings defaults partitioner pd) value = .error (.nonRetryable text) →
      readEvent py pd defaults value.data.toList = .error .valueError := by
  unfold decode RegisteredService.service decoder
  dsimp only
  cases hread : readEvent py pd defaults value.data.toList with
  | ok e =>
    constructor
    · intro event h
      cases h
      exact ⟨e, rfl, rfl⟩
    · intro text h
      cases h
  | error e =>
    constructor
    · intro event h
      cases e <;> cases h
    · intro text h
      cases e with
      | valueError => rfl
      | _ => cases h

/-- With the lever off, a registered service fails at a message only if it is no event. -/
theorem FailureOf.undecodable (hdigits : pd.KeepsDigits py.limits) {r : RegisteredService} {settings : Settings}
    {partitioner : Option ByteArray → Nat} (hlever : settings.handlerFailureMode = .none) {env : Env}
    {m : Message} {q : Queued} (hrun : RunsHandler py pd defaults r (env, .message m))
    (h : FailureOf (r.service py settings defaults partitioner pd) env m q) :
    q.topic = settings.dlqTopic ∧ Undecodable py pd defaults m := by
  obtain ⟨-, exc, ⟨value, hvalue, hfails⟩, origin, -, rfl⟩ := h
  obtain ⟨text, hdecode, rfl⟩ | ⟨event, hdecode, hraised⟩ := hfails
  · refine ⟨?_, value, hvalue, decode_service.2 text hdecode⟩
    have hretries : ¬ Retries (r.service py settings defaults partitioner pd) (.nonRetryable text)
        (attemptOf py.toStdlib (decodeHeaders m)) := fun hretry => Bool.false_ne_true hretry.1
    unfold failureCopy
    exact congrArg Queued.topic (if_neg hretries)
  · obtain ⟨e, hread, rfl⟩ := decode_service.1 event hdecode
    obtain ⟨counts, hhandler⟩ := hrun value e hvalue hread
    obtain ⟨lines, counts', hok⟩ := handle_ok hdigits hread r counts
    have hquiet : env.handler = .ok () := by
      rw [hhandler, hok]
      rfl
    have hlever' : maybeFail settings e.toLifecycleEvent (attemptOf py.toStdlib (decodeHeaders m)) = .ok () :=
      if_pos hlever
    unfold runHandler at hraised
    change (do
      maybeFail settings e.toLifecycleEvent (attemptOf py.toStdlib (decodeHeaders m))
      if e.eventType ∈ r.handlers then env.handler) = _ at hraised
    rw [hlever', hquiet] at hraised
    split at hraised <;> cases hraised

/-- **The retry ladder is for the lever alone**: with it off, in any run of a registered service under its
container, whatever the environment does, every copy it publishes goes to the dead-letter topic, and is that
of a message of the run that is no event. -/
theorem only_undecodable_dead_lettered (py : Interpreter) (pd : Pydantic) (defaults : WireEvent.Defaults)
    (r : RegisteredService) (settings : Settings) (partitioner : Option ByteArray → Nat)
    (backend : StateBackend) (ls : List (Env × Label)) (w : World) (hdigits : pd.KeepsDigits py.limits)
    (hlever : settings.handlerFailureMode = .none) (hrun : ∀ l ∈ ls, RunsHandler py pd defaults r l)
    (hw : copiesIn w.trace = []) :
    Throughout (lifeStep (r.service py settings defaults partitioner pd) backend)
      (fun t => ∀ q ∈ copiesIn t.trace, q.topic = settings.dlqTopic ∧ ∃ env m, (env, .message m) ∈ ls ∧
        Undecodable py pd defaults m ∧ ∃ headers, q.payload = .copy m.key m.value headers) ls w := by
  refine copies_of_run (fun env m q hm hq => ?_) (by rw [hw]; exact List.forall_mem_nil _)
  obtain ⟨htopic, hundecodable⟩ := hq.undecodable hdigits hlever (hrun _ hm)
  exact ⟨htopic, env, m, hm, hundecodable, hq.payload_eq⟩

/-- A message that is no event. -/
def noEvent : Message where
  topic := "order-lifecycle"
  partition := 0
  offset := 0
  key := some "ord-1".toUTF8
  value := some "order".toUTF8
  headers := []
  timestamp := 0

theorem runsHandler_noEvent (r : RegisteredService) (env : Env) :
    RunsHandler cpython plain ⟨"", .naive 0⟩ r (env, .message noEvent) := by
  intro value e hvalue hread
  cases hvalue
  have hfault : readEvent cpython plain ⟨"", .naive 0⟩ "order".toUTF8.data.toList = .error .valueError := by rfl
  rw [hfault] at hread
  cases hread

theorem only_undecodable_dead_lettered_noEvent : Throughout
    (lifeStep (RegisteredService.inventory.service cpython {} ⟨"", .naive 0⟩ (fun _ => 0) plain) .local)
    (fun t => ∀ q ∈ copiesIn t.trace, q.topic = "order-lifecycle.dlq")
    [({}, .assign [noEvent.tp]), ({}, .message noEvent)] {} := by
  refine (only_undecodable_dead_lettered cpython plain ⟨"", .naive 0⟩ .inventory {} (fun _ => 0) .local
    [({}, .assign [noEvent.tp]), ({}, .message noEvent)] {} plain_keepsDigits rfl ?_ rfl).mono
    fun t ht q hq => (ht q hq).1
  intro l hl
  simp only [List.mem_cons, List.not_mem_nil, or_false] at hl
  obtain rfl | rfl := hl
  · trivial
  · exact runsHandler_noEvent .inventory {}

end

end OrderService
