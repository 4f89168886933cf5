import OrderService.Proof.NoPoison
import OrderService.Proof.RetryLoss

/-!
# What the headers of a retry can do

A turn of the retry worker settles its message if it defers it, or publishes one copy of it and then
commits. With every client call succeeding it does so exactly if the message is `Readable`
(`handleMessage_settles_iff`); what is not raises out of the loop, and the restarted worker meets it
again.
-/

namespace OrderService

open Eff

namespace RetryWorker

variable {c : Worker} {env : Env} {w t : World} {m : Message}
variable {R : Unit → World → Prop} {E : Exn → World → Prop}

/-- The message waits: its partition is paused and sought back to, and nothing else was called. -/
structure Deferred (m : Message) (w t : World) : Prop where
  paused : t.paused m.tp = true
  position : t.position m.tp = m.offset
  deferred : t.deferred m.tp ≠ none
  trace_eq : t.trace = w.trace ++ [.seek m.tp m.offset true]

/-- One copy of the message was acknowledged on its source topic or on the dead-letter topic, and then
its offset committed. -/
structure MovedOn (c : Worker) (m : Message) (w t : World) : Prop where
  committed : t.broker.committed = Function.update w.broker.committed m.tp (some (m.offset + 1))
  calls : ∃ q, IsMove c m q ∧ q ∈ t.broker.delivered ∧
    t.trace = w.trace ++ [.produce q true, .commit m.tp (m.offset + 1) true]

/-- The turn from `w` to `t` deferred the message or moved it on. -/
def Settled (c : Worker) (m : Message) (w t : World) : Prop := Deferred m w t ∨ MovedOn c m w t

/-- The topics a copy of the message may go to. -/
def IsDestination (c : Worker) (m : Message) (topic : String) : Prop :=
  topic = c.settings.dlqTopic ∨
    ∃ origin, Origin.fromHeaders c.std (decodeHeaders m) m = .ok origin ∧ topic = origin.topic

/-- Every client call succeeds: nothing is refused, and a flush serves what is queued. The worker begins
no transaction. -/
structure Healthy (c : Worker) (env : Env) (m : Message) (w : World) : Prop where
  alive : w.crashIn = none
  produce : env.produce = none
  fate : env.fate = none
  commit : env.commit = none
  pause : env.pause = none
  seek : env.seek m.tp = none
  txn_eq : w.producer.txn = none
  drains : ∀ topic headers, IsDestination c m topic →
    unreported (w.producer.enqueue (FailureRouter.copyOf c.toDeployment env topic m headers)).queue
      env.servedByFlush = []

/-- The message is not due yet. -/
def Waits (c : Worker) (env : Env) (m : Message) : Prop :=
  ∃ due, timeHeader c.std (decodeHeaders m) hdrRetryAt = some (.aware due) ∧ env.now < due

/-- An integer header is absent or is an integer. -/
def IntOrAbsent (std : Stdlib) (text : Option String) : Prop := ∀ s, text = some s → (std.int s).isSome = true

/-- The headers can be read: `x-original-partition` and `x-original-offset` are integers where
`x-original-topic` is there, the message's own time has a text where it is not, `x-retry-at` is not a
time without an offset. A message that is due is not one whose value makes the decoder raise something
else than the two exceptions that are caught, and its publication is not left to a transaction. -/
structure Readable (c : Worker) (env : Env) (m : Message) : Prop where
  origin : decodeHeaders m hdrOriginalTopic ≠ none →
    IntOrAbsent c.std (decodeHeaders m hdrOriginalPartition) ∧
      IntOrAbsent c.std (decodeHeaders m hdrOriginalOffset)
  timestamp : decodeHeaders m hdrOriginalTopic = none → ∃ text, messageTimestamp c.std m = .ok text
  retryAt : ∀ reading, timeHeader c.std (decodeHeaders m) hdrRetryAt ≠ some (.naive reading)
  value : ¬ Waits c env m → (decodeHeaders m hdrService).getD "" ∈ c.specs →
    ∀ e, c.decodeJson m.value ≠ .raises e
  direct : ¬ Waits c env m → c.settings.exactlyOnce = false

/-! ## The plan of a message -/

theorem intOrMinusOne_ok {std : Stdlib} {text : Option String} :
    (∃ n, intOrMinusOne std text = .ok n) ↔ IntOrAbsent std text := by
  cases text with
  | none => simp [intOrMinusOne, IntOrAbsent]
  | some s => cases h : std.int s <;> simp [intOrMinusOne, IntOrAbsent, h]

theorem fromMessage_ok {std : Stdlib} :
    (∃ origin, Origin.fromMessage std m = .ok origin) ↔ ∃ text, messageTimestamp std m = .ok text := by
  unfold Origin.fromMessage
  cases messageTimestamp std m with
  | ok text => exact ⟨fun _ => ⟨text, rfl⟩, fun _ => ⟨_, rfl⟩⟩
  | error e => exact ⟨fun h => (nomatch h), fun h => (nomatch h)⟩

theorem fromHeaders_ok {std : Stdlib} {headers : Headers} :
    (∃ origin, Origin.fromHeaders std headers m = .ok origin) ↔
      (headers hdrOriginalTopic ≠ none → IntOrAbsent std (headers hdrOriginalPartition) ∧
        IntOrAbsent std (headers hdrOriginalOffset)) ∧
      (headers hdrOriginalTopic = none → ∃ text, messageTimestamp std m = .ok text) := by
  unfold Origin.fromHeaders
  cases headers hdrOriginalTopic with
  | none =>
    rw [fromMessage_ok]
    exact ⟨fun h => ⟨fun hne => absurd rfl hne, fun _ => h⟩, fun h => h.2 rfl⟩
  | some topic =>
    rw [← intOrMinusOne_ok, ← intOrMinusOne_ok]
    cases intOrMinusOne std (headers hdrOriginalPartition) with
    | error e =>
      refine ⟨fun ⟨_, h⟩ => (nomatch h), fun h => ?_⟩
      obtain ⟨⟨n, hn⟩, -⟩ := h.1 (by simp)
      cases hn
    | ok p =>
      cases intOrMinusOne std (headers hdrOriginalOffset) with
      | error e =>
        refine ⟨fun ⟨_, h⟩ => (nomatch h), fun h => ?_⟩
        obtain ⟨-, n, hn⟩ := h.1 (by simp)
        cases hn
      | ok o => exact ⟨fun _ => ⟨fun _ => ⟨⟨p, rfl⟩, o, rfl⟩, nofun⟩, fun _ => ⟨_, rfl⟩⟩

/-! ## The calls of a turn -/

theorem wp_commit_movedOn {q : Queued} (hw : Healthy c env m w) (hcrash : t.crashIn = none)
    (hmove : IsMove c m q) (hdelivered : q ∈ t.broker.delivered)
    (hcommitted : t.broker.committed = w.broker.committed)
    (htrace : t.trace = w.trace ++ [.produce q true]) :
    wp (commit env m) (fun _ u => MovedOn c m w u) (fun _ _ => False) t := by
  simp only [commit, wp_tryCatch, commitOffset, wp_bind, wp_tick_alive hcrash, hw.commit, wp_modify,
    wp_record]
  refine ⟨by rw [hcommitted], q, hmove, hdelivered, ?_⟩
  rw [htrace, List.append_assoc]
  rfl

/-- A publication that the client takes: it is acknowledged. -/
theorem wp_publish_movedOn {topic : String} {headers : List (String × String)} (hw : Healthy c env m w)
    (hx : c.settings.exactlyOnce = false) (htopic : IsDestination c m topic) :
    wp (FailureRouter.publish c.toDeployment env topic m headers)
      (fun _ t => wp (commit env m) (fun _ u => MovedOn c m w u) (fun _ _ => False) t)
      (fun _ _ => False) w := by
  have hmove : IsMove c m (FailureRouter.copyOf c.toDeployment env topic m headers) :=
    ⟨rfl, ⟨_, rfl⟩, htopic⟩
  refine wp_routerPublish_sound hw.alive hw.produce hw.fate (fun h => by cases hx.symm.trans h)
    (hw.drains topic headers htopic) rfl fun b p pos hp hempty => ?_
  refine wp_commit_movedOn hw hw.alive hmove ?_ hp.committed_eq rfl
  exact hp.delivered hw.txn_eq (hempty hx) hw.fate

theorem wp_defer_deferred {due : Int} (hw : Healthy c env m w) :
    wp (defer env m (.aware due)) (fun _ t => Settled c m w t) (fun _ _ => False) w := by
  simp only [defer, wp_bind, wp_tryCatch, OrderService.pause, OrderService.seek, wp_tick_alive hw.alive,
    hw.pause, hw.seek, wp_modify, wp_record, wp_pure]
  rw [wp_tick_alive (by exact hw.alive)]
  refine .inl ⟨?_, ?_, ?_, rfl⟩
  · exact Function.update_self _ _ _
  · exact Function.update_self _ _ _
  · change Function.update w.deferred m.tp (some due) m.tp ≠ none
    simp

/-- Under `exactly_once` the worker has no transaction to publish in. -/
theorem wp_publish_refused {topic : String} {headers : List (String × String)} {E : Exn → World → Prop}
    (hw : Healthy c env m w) (hx : c.settings.exactlyOnce = true) (hE : ∀ e t, (∀ text, e ≠ .failurePublishFailed text) → E e t)
    (hfailed : ∀ text q n, E (.failurePublishFailed text)
      { w with crashIn := n, trace := w.trace ++ [.produce q false] }) :
    wp (FailureRouter.publish c.toDeployment env topic m headers) R E w := by
  refine wp_routerPublish rfl (hE _ _ nofun) (fun text n _ _ => hfailed text _ n) ?_ ?_
  · intro e n b p pos hdirect
    cases hdirect.symm.trans hx
  · intro n b p pos hp
    exact absurd hw.txn_eq (hp.txn_ne_none hx)

/-- A turn whose first call was refused did not settle its message. -/
theorem not_settled (q : Queued) (calls : List Call)
    (h : t.trace = w.trace ++ .produce q false :: calls) : ¬ Settled c m w t := by
  rintro (hdeferred | hmoved)
  · have heq := h.symm.trans hdeferred.trace_eq
    rw [List.append_cancel_left_eq] at heq
    cases heq
  · obtain ⟨q', -, -, htrace⟩ := hmoved.calls
    have heq := h.symm.trans htrace
    rw [List.append_cancel_left_eq] at heq
    cases heq

theorem wp_rewind_unsettled {q : Queued} (h : t.trace = w.trace ++ [.produce q false]) :
    wp (rewind env m) (fun _ u => ¬ Settled c m w u) (fun _ _ => True) t := by
  simp only [rewind, wp_tryCatch]
  refine wp_seek trivial (fun k n _ => ?_) fun n _ => ?_
  · refine not_settled q [.seek m.tp m.offset false] ?_
    rw [h, List.append_assoc]
    rfl
  · refine not_settled q [.seek m.tp m.offset true] ?_
    rw [h, List.append_assoc]
    rfl

theorem release_moves {service : String} {origin : Origin} {attempt : Int} (hw : Healthy c env m w)
    (hx : c.settings.exactlyOnce = false)
    (horigin : Origin.fromHeaders c.std (decodeHeaders m) m = .ok origin) :
    wp (release c env m service origin attempt) (fun _ t => MovedOn c m w t) (fun _ _ => False) w := by
  simp only [release, published, FailureRouter.toSource, wp_bind, wp_tryCatch, wp_pure]
  exact wp_mono (wp_publish_movedOn hw hx (.inr ⟨origin, horigin, rfl⟩)) (fun _ _ h => h)
    fun _ _ h => h.elim

theorem giveUp_moves {service : String} {origin : Origin} {attempt : Int} {exc : Exn}
    (hw : Healthy c env m w) (hx : c.settings.exactlyOnce = false) :
    wp (giveUp c env m origin service attempt exc) (fun _ t => MovedOn c m w t) (fun _ _ => False) w := by
  simp only [giveUp, published, FailureRouter.toDeadLetter, wp_bind, wp_tryCatch, wp_pure]
  exact wp_mono (wp_publish_movedOn hw hx (.inl rfl)) (fun _ _ h => h) fun _ _ h => h.elim

/-- A message that is due is moved on, if its decoder does not raise and its publication is not left to a
transaction. -/
theorem handleDue_moves {origin : Origin} (hw : Healthy c env m w)
    (horigin : Origin.fromHeaders c.std (decodeHeaders m) m = .ok origin)
    (hvalue : (decodeHeaders m hdrService).getD "" ∈ c.specs → ∀ e, c.decodeJson m.value ≠ .raises e)
    (hx : c.settings.exactlyOnce = false) :
    wp (handleDue c env m (decodeHeaders m) origin) (fun _ t => MovedOn c m w t) (fun _ _ => False) w := by
  unfold handleDue
  simp only []
  split
  · exact giveUp_moves hw hx
  · rename_i hservice
    cases hdecode : c.decodeJson m.value with
    | invalid text => exact giveUp_moves hw hx
    | raises e => exact absurd hdecode (hvalue (not_not.1 hservice) e)
    | event event => exact release_moves hw hx horigin

theorem release_settles_iff {service : String} {origin : Origin} {attempt : Int} (hw : Healthy c env m w)
    (horigin : Origin.fromHeaders c.std (decodeHeaders m) m = .ok origin) :
    wp (release c env m service origin attempt) (fun _ t => Settled c m w t) (fun _ _ => False) w ↔
      c.settings.exactlyOnce = false := by
  cases hx : c.settings.exactlyOnce with
  | true =>
    refine iff_of_false (fun h => ?_) (by simp)
    have hleft : wp (release c env m service origin attempt) (fun _ t => ¬ Settled c m w t)
        (fun _ _ => True) w := by
      simp only [release, published, FailureRouter.toSource, wp_bind, wp_tryCatch, wp_pure]
      refine wp_publish_refused hw hx (fun e t hne => ?_) fun text q n => ?_
      · cases e with
        | failurePublishFailed text => exact absurd rfl (hne text)
        | _ => trivial
      · exact not_settled q [] rfl
    exact wp_absurd h hleft
  | false => exact iff_of_true (wp_mono (release_moves hw hx horigin) (fun _ _ => .inr) fun _ _ h => h) rfl

theorem giveUp_settles_iff {service : String} {origin : Origin} {attempt : Int} {exc : Exn}
    (hw : Healthy c env m w) :
    wp (giveUp c env m origin service attempt exc) (fun _ t => Settled c m w t) (fun _ _ => False) w ↔
      c.settings.exactlyOnce = false := by
  cases hx : c.settings.exactlyOnce with
  | true =>
    refine iff_of_false (fun h => ?_) (by simp)
    have hleft : wp (giveUp c env m origin service attempt exc) (fun _ t => ¬ Settled c m w t)
        (fun _ _ => True) w := by
      simp only [giveUp, published, FailureRouter.toDeadLetter, wp_bind, wp_tryCatch, wp_pure]
      refine wp_publish_refused hw hx (fun e t hne => ?_) fun text q n => ?_
      · cases e with
        | failurePublishFailed text => exact absurd rfl (hne text)
        | _ => trivial
      · exact wp_rewind_unsettled rfl
    exact wp_absurd h hleft
  | false => exact iff_of_true (wp_mono (giveUp_moves hw hx) (fun _ _ => .inr) fun _ _ h => h) rfl

/-- A message that is due is settled exactly if its decoder does not raise and its publication is not
left to a transaction. -/
theorem handleDue_settles_iff {origin : Origin} (hw : Healthy c env m w)
    (horigin : Origin.fromHeaders c.std (decodeHeaders m) m = .ok origin) :
    wp (handleDue c env m (decodeHeaders m) origin) (fun _ t => Settled c m w t) (fun _ _ => False) w ↔
      ((decodeHeaders m hdrService).getD "" ∈ c.specs → ∀ e, c.decodeJson m.value ≠ .raises e) ∧
        c.settings.exactlyOnce = false := by
  unfold handleDue
  simp only []
  split
  · rename_i hservice
    rw [giveUp_settles_iff hw]
    exact ⟨fun hx => ⟨fun h => absurd h hservice, hx⟩, And.right⟩
  · rename_i hservice
    replace hservice := not_not.1 hservice
    cases hdecode : c.decodeJson m.value with
    | invalid text =>
      simp only []
      rw [giveUp_settles_iff hw]
      exact ⟨fun hx => ⟨fun _ _ => nofun, hx⟩, And.right⟩
    | raises e => exact iff_of_false id fun h => h.1 hservice e rfl
    | event event =>
      simp only []
      rw [release_settles_iff hw horigin]
      exact ⟨fun hx => ⟨fun _ _ => nofun, hx⟩, And.right⟩

/-- A message that does not wait is handled as one that is due. -/
theorem wp_handleMessage_due {origin : Origin}
    (horigin : Origin.fromHeaders c.std (decodeHeaders m) m = .ok origin)
    (hnaive : ∀ reading, timeHeader c.std (decodeHeaders m) hdrRetryAt ≠ some (.naive reading))
    (hnow : ¬ Waits c env m) :
    wp (handleMessage c env m) R E w ↔ wp (handleDue c env m (decodeHeaders m) origin) R E w := by
  simp only [handleMessage, wp_bind]
  rw [horigin, wp_ofExcept_ok]
  rcases htime : timeHeader c.std (decodeHeaders m) hdrRetryAt with _ | due | reading
  · exact Iff.rfl
  · simp only [isAfterNow, wp_bind, wp_ofExcept_ok]
    rw [if_neg]
    intro hlater
    exact hnow ⟨due, htime, by simpa using hlater⟩
  · exact absurd htime (hnaive reading)

/-- **What the headers of a retry can do.** With every client call succeeding, a turn of the worker
settles its message exactly if the message can be read. -/
theorem handleMessage_settles_iff (c : Worker) (env : Env) (m : Message) (w : World)
    (hw : Healthy c env m w) :
    wp (handleMessage c env m) (fun _ t => Settled c m w t) (fun _ _ => False) w ↔ Readable c env m := by
  cases horigin : Origin.fromHeaders c.std (decodeHeaders m) m with
  | error e =>
    simp only [handleMessage, wp_bind, horigin]
    refine iff_of_false id fun h => ?_
    obtain ⟨origin, hok⟩ := fromHeaders_ok.2 ⟨h.origin, h.timestamp⟩
    cases horigin.symm.trans hok
  | ok origin =>
    obtain ⟨hints, htimestamp⟩ := fromHeaders_ok.1 ⟨origin, horigin⟩
    by_cases hnaive : ∀ reading, timeHeader c.std (decodeHeaders m) hdrRetryAt ≠ some (.naive reading)
    · by_cases hwaits : Waits c env m
      · refine iff_of_true ?_
          ⟨hints, htimestamp, hnaive, fun h => absurd hwaits h, fun h => absurd hwaits h⟩
        obtain ⟨due, htime, hlater⟩ := hwaits
        simp only [handleMessage, wp_bind]
        rw [horigin, wp_ofExcept_ok, htime]
        simp only [isAfterNow, wp_bind, wp_ofExcept_ok]
        rw [if_pos (by simpa using hlater)]
        exact wp_defer_deferred hw
      · rw [wp_handleMessage_due horigin hnaive hwaits, handleDue_settles_iff hw horigin]
        exact ⟨fun h => ⟨hints, htimestamp, hnaive, fun _ => h.1, fun _ => h.2⟩,
          fun h => ⟨h.value hwaits, h.direct hwaits⟩⟩
    · refine iff_of_false (fun h => ?_) fun h => hnaive h.retryAt
      obtain ⟨reading, htime⟩ := by simpa using hnaive
      simp only [handleMessage, wp_bind] at h
      rw [horigin, wp_ofExcept_ok, htime] at h
      simp only [isAfterNow, wp_bind, wp_ofExcept_error] at h

/-! Two messages of the retry topic. -/

/-- The flush serves the topics the worker publishes to. -/
def serving : Env where
  servedByFlush := [⟨"order-lifecycle.retry", 0⟩, ⟨"order-lifecycle.dlq", 0⟩, ⟨"order-lifecycle", 0⟩]

/-- A message without any header. -/
def bareMessage : Message where
  topic := "order-lifecycle.retry"
  partition := 0
  offset := 0
  key := none
  value := some "v".toUTF8
  headers := []
  timestamp := 0

/-- A retry of an event of `order-lifecycle`, due at a time without an offset. -/
def zonelessMessage : Message := { bareMessage with headers := [
  (hdrService, some "inventory".toUTF8), (hdrOriginalTopic, some "order-lifecycle".toUTF8),
  (hdrRetryAt, some "2026-01-01T00:00:00".toUTF8)] }

/-- A worker whose `fromisoformat` knows that time. -/
def zonelessWorker : Worker := { inventoryWorker with
  std := { inventoryWorker.std with
    fromisoformat := fun text =>
      if text = "2026-01-01T00:00:00" then some (.naive 1767225600000000) else none } }

theorem handleMessage_settles_iff_bare :
    wp (handleMessage inventoryWorker serving bareMessage)
      (fun _ t => Settled inventoryWorker bareMessage {} t) (fun _ _ => False) {} := by
  have horigin : Origin.fromHeaders inventoryWorker.std (decodeHeaders bareMessage) bareMessage =
      .ok ⟨"order-lifecycle.retry", 0, 0, "unknown"⟩ := rfl
  have hw : Healthy inventoryWorker serving bareMessage {} := by
    refine ⟨rfl, rfl, rfl, rfl, rfl, rfl, rfl, fun topic headers htopic => unreported_singleton ?_⟩
    obtain rfl | ⟨origin, h, rfl⟩ := htopic
    · exact .tail _ (.head _)
    · cases horigin.symm.trans h
      exact .head _
  refine (handleMessage_settles_iff inventoryWorker serving bareMessage {} hw).2 ?_
  refine ⟨fun h => absurd rfl h, fun _ => ⟨_, rfl⟩, fun reading h => ?_, fun _ _ e h => ?_, fun _ => rfl⟩
  · cases h
  · cases h

/-- A message whose `x-retry-at` has no offset is not settled: it raises. -/
theorem zoneless_raises :
    Healthy zonelessWorker serving zonelessMessage {} ∧
      ¬ wp (handleMessage zonelessWorker serving zonelessMessage)
        (fun _ t => Settled zonelessWorker zonelessMessage {} t) (fun _ _ => False) {} := by
  have horigin : ∀ origin, Origin.fromHeaders zonelessWorker.std (decodeHeaders zonelessMessage)
      zonelessMessage = .ok origin → origin.topic = "order-lifecycle" := by
    intro origin h
    have htopic : (Origin.fromHeaders zonelessWorker.std (decodeHeaders zonelessMessage)
        zonelessMessage).toOption.map Origin.topic = some "order-lifecycle" := by decide +kernel
    rw [h] at htopic
    exact Option.some.inj htopic
  have htime : timeHeader zonelessWorker.std (decodeHeaders zonelessMessage) hdrRetryAt =
      some (.naive 1767225600000000) := by decide +kernel
  refine ⟨⟨rfl, rfl, rfl, rfl, rfl, rfl, rfl, fun topic headers htopic => unreported_singleton ?_⟩,
    fun h => ?_⟩
  · obtain rfl | ⟨origin, h, rfl⟩ := htopic
    · exact .tail _ (.head _)
    · rw [horigin origin h]
      exact .tail _ (.tail _ (.head _))
  · simp only [handleMessage, wp_bind] at h
    cases hok : Origin.fromHeaders zonelessWorker.std (decodeHeaders zonelessMessage) zonelessMessage with
    | error e => rwa [hok, wp_ofExcept_error] at h
    | ok origin => rwa [hok, wp_ofExcept_ok, htime] at h

end RetryWorker

end OrderService
