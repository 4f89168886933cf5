import OrderService.Proof.Invariance
import OrderService.Proof.Rebalance

/-!
# Where an order's rows are

`Sited`: a changelog partition, what the producer still has for it and the store of its number have rows
of the orders of that partition only. Every step of a member keeps it (`wp_localStep_sited`), also one that
raises, if its message is on its order's partition.
-/

namespace OrderService

open Eff KeyedLog

variable {d : Deployment} {groupId : String} {c : Service} {env : Env} {w : World} {m : Message}
  {b b' : Broker} {p p' : ProducerState} {i : Nat} {k : String}

/-! ## What was written -/

theorem mem_entriesOn {qs : List Queued} {e : Entry String Row} :
    e ∈ entriesOn i qs ↔ ∃ q ∈ qs, q.entryOn i = some e := List.mem_filterMap

theorem entriesOn_mono {qs rs : List Queued} (h : ∀ q ∈ qs, q ∈ rs) {e : Entry String Row}
    (he : e ∈ entriesOn i qs) : e ∈ entriesOn i rs := by
  obtain ⟨q, hq, hentry⟩ := mem_entriesOn.1 he
  exact mem_entriesOn.2 ⟨q, h q hq, hentry⟩

theorem mem_written {e : Entry String Row} : e ∈ written b p i ↔
    e ∈ (b.changelog i).entries ∨ e ∈ entriesOn i p.queue ∨
      e ∈ entriesOn i ((p.txn.map (·.records)).getD []) := by
  unfold written ProducerState.records
  rw [List.mem_append, entriesOn_append, List.mem_append]

theorem Served.mem_written {rs : List Queued} (h : Served b p rs b' p') {e : Entry String Row}
    (he : e ∈ OrderService.written b' p' i) : e ∈ OrderService.written b p i := by
  rw [OrderService.mem_written, h.changelog_eq, entries_foldl_append, h.txn_eq, List.mem_append] at he
  rw [OrderService.mem_written]
  obtain (he | he) | he | he := he
  · exact .inl he
  · exact .inr (.inl (entriesOn_mono (fun q hq => h.reports_mem q (List.mem_filter.1 hq).1) he))
  · exact .inr (.inl (entriesOn_mono (fun q hq => h.sublist.subset hq) he))
  · exact .inr (.inr he)

theorem Published.mem_written {q : Queued} {calls : List Call} (h : Published d q b p b' p' calls)
    {e : Entry String Row} (he : e ∈ OrderService.written b' p' i) :
    e ∈ OrderService.written b p i ∨ q.entryOn i = some e := by
  obtain ⟨rs₁, b₁, p₁, rs₂, h₁, -, h₂⟩ := h.served
  have he := h₂.mem_written he
  rw [written_enqueue, List.mem_append] at he
  obtain he | he := he
  · exact .inl (h₁.mem_written he)
  · obtain ⟨r, hr, hentry⟩ := mem_entriesOn.1 he
    rw [List.mem_singleton.1 hr] at hentry
    exact .inr hentry

theorem Committed.mem_written {t : Transaction} (h : Committed b t b')
    (htxn : p.txn.map (·.records) = some t.records) {e : Entry String Row}
    (he : e ∈ OrderService.written b' { p with txn := none } i) : e ∈ OrderService.written b p i := by
  rw [OrderService.mem_written, h.changelog_eq, entries_skip, entries_foldl_append, List.mem_append] at he
  rw [OrderService.mem_written, htxn]
  obtain (he | he) | he | he := he
  · exact .inl he
  · exact .inr (.inr he)
  · exact .inr (.inl he)
  · cases he

/-! ## The invariant -/

/-- Each changelog partition and each store has rows of its own orders only. -/
structure Sited (d : Deployment) (w : World) : Prop where
  written : ∀ i, ∀ e ∈ written w.broker w.producer i, d.partitionOf e.1 = i
  table : ∀ i k, w.store.table i k ≠ none → d.partitionOf k = i

theorem Sited.served {rs : List Queued} (h : Sited d w) (hs : Served w.broker w.producer rs b p)
    {s : LocalStore} (htable : ∀ i, s.table i = w.store.table i) :
    Sited d { w with broker := b, producer := p, store := s } where
  written i e he := h.written i e (hs.mem_written he)
  table i k hk := h.table i k (by rwa [← htable])

theorem stable_sited (d : Deployment) : Stable (Sited d) where
  crashIn _ _ h := ⟨h.written, h.table⟩
  record _ _ _ _ h := ⟨h.written, h.table⟩
  report w tp h := by
    obtain ⟨rs, b, p, pos, hserved, heq⟩ := report_eq w tp
    rw [heq]
    exact h.served hserved fun _ => rfl

/-! ## The committer -/

theorem wp_commit_sited (h : Sited d w) :
    wp (ServiceConsumer.commit c env m) (fun _ => Sited d) (fun _ => Sited d) w := by
  unfold ServiceConsumer.commit ServiceConsumer.commits buildCommitStrategy
  split
  · refine wp_note (fun _ => h) (fun _ _ _ _ => ⟨h.written, h.table⟩) (fun _ => ⟨h.written, h.table⟩) ?_
    intro n at' _ htxn
    refine ⟨fun i e he => h.written i e ?_, h.table⟩
    rw [mem_written] at he ⊢
    rw [htxn]
    exact he
  · exact wp_directNote h (fun _ _ => ⟨h.written, h.table⟩) fun _ _ => ⟨h.written, h.table⟩

theorem CommitFailed.producerRecords_eq {offsets : TopicPartition → Option Nat} {calls : List Call}
    (h : CommitFailed offsets p p' calls) : p'.records = p.records := by
  unfold ProducerState.records
  rw [h.queue_eq, h.records_eq]

theorem wp_settle_sited {store : StateStore} (h : Sited d w) :
    wp (ServiceConsumer.settle c store env) (fun _ => Sited d) (fun _ => Sited d) w := by
  have hfailed : ∀ {n p calls}, CommitFailed w.committer.offsets w.producer p calls → Sited d { w with
      producer := p, committer := {}, crashIn := n, trace := w.trace ++ calls } := by
    intro n p calls hp
    refine ⟨fun i e he => h.written i e ?_, h.table⟩
    unfold written at he ⊢
    rwa [hp.producerRecords_eq] at he
  refine wp_settle h (fun _ _ _ _ _ _ hp => hfailed hp) (fun _ _ _ _ _ hp => hfailed hp) ?_
  intro n t b pos _ htxn hb
  exact ⟨fun i e he => h.written i e (hb.mem_written (by rw [htxn]; rfl) he), h.table⟩

theorem wp_abort_sited {reason : String} (h : Sited d w) :
    wp ((ServiceConsumer.commits c env).abort reason) (fun _ => Sited d) (fun _ => Sited d) w := by
  unfold ServiceConsumer.commits buildCommitStrategy
  split
  · change wp (TransactionalCommitter.abort _ _ _ reason) _ _ _
    refine wp_abort (fun _ => h) (fun _ _ _ _ _ _ => ⟨h.written, h.table⟩)
      (fun _ _ _ => ⟨h.written, h.table⟩) ?_
    intro n t gap _ _
    refine ⟨fun i e he => h.written i e ?_, h.table⟩
    rw [mem_written] at he ⊢
    obtain he | he | he := he
    · exact .inl he
    · exact .inr (.inl he)
    · cases he
  · exact h

/-! ## The stores -/

theorem wp_forget_sited {ps : List Nat} (h : Sited d w) :
    wp (LocalStateStore.forget env ps) (fun _ => Sited d) (fun _ => Sited d) w := by
  unfold LocalStateStore.forget
  split
  · exact h
  · rw [wp_bind]
    refine wp_mono ((stable_sited d).flush h _) (fun _ t ht => ?_) fun _ _ he => he
    refine wp_forM ht fun p _ u hu => ?_
    have hshut : ∀ {s n}, Shut p u.store s → Sited d { u with store := s, crashIn := n } := by
      intro s n hs
      exact ⟨hu.written, fun i k hk => hu.table i k (by rwa [hs.table_eq] at hk)⟩
    exact wp_forgetOne_each (fun _ _ hs => hshut hs) fun _ hs => hshut hs

theorem replay_ne_none {t : Table} {es : List (Entry String Row)} (h : replay t es k ≠ none) :
    t k ≠ none ∨ ∃ e ∈ es, e.1 = k := by
  by_cases hmem : ∃ e ∈ es, e.1 = k
  · exact .inr hmem
  · rw [replay_of_not_mem fun e he heq => hmem ⟨e, he, heq⟩] at h
    exact .inl h

theorem wp_restore_sited {ps : List Nat} (h : Sited d w) :
    wp (LocalStateStore.restore d groupId env ps) (fun _ => Sited d) (fun _ => Sited d) w := by
  simp only [LocalStateStore.restore, wp_bind, wp_record]
  have hw : Sited d { w with trace := w.trace ++ [.restore ps] } := ⟨h.written, h.table⟩
  refine wp_forM hw fun i _ t ht => ?_
  have hkept : ∀ k, keptTable d t.store i k ≠ none → d.partitionOf k = i := by
    intro k hk
    unfold keptTable at hk
    cases hkept : keptCheckpoint d t.store i with
    | none =>
      rw [hkept] at hk
      exact absurd rfl hk
    | some n =>
      rw [hkept] at hk
      exact ht.table i k hk
  -- whatever was replayed by then is in the changelog
  have hrebuilt : ∀ {s T done n pos}, (∀ k, T k ≠ none → d.partitionOf k = i) →
      (∀ r ∈ done, r ∈ (t.broker.changelog i).records) → Rebuilding i T done t.store s →
      Sited d { t with store := { s with position := pos }, crashIn := n } := by
    intro s T done n pos hT hdone hs
    refine ⟨ht.written, fun j k hk => ?_⟩
    obtain rfl | hj := eq_or_ne j i
    · have hk : s.table j k ≠ none := hk
      rw [hs.table_eq] at hk
      obtain hk | ⟨e, he, rfl⟩ := replay_ne_none hk
      · exact hT k hk
      · obtain ⟨r, hr, rfl⟩ := List.mem_map.1 he
        exact ht.written j _ (mem_written.2 (.inl (List.mem_map_of_mem (hdone r hr))))
    · have hk : s.table j k ≠ none := hk
      rw [hs.table_ne j hj] at hk
      exact ht.table j k hk
  refine wp_restoreOne_each (fun e n s hs => ?_) (fun e n s done rest hdelta hs => ?_) fun n s _ hs => ?_
  · exact hrebuilt (ht.table i) (fun _ hr => by cases hr) hs
  · refine hrebuilt hkept (fun r hr => ?_) hs
    exact (delta_sublist d t.store _).subset (hdelta ▸ List.mem_append_left _ hr)
  · exact hrebuilt hkept (fun r hr => (delta_sublist d t.store _).subset hr) hs

/-! ## The exits of a message -/

theorem Sited.opened {s : LocalStore} (h : Sited d w) (hs : Opened i w.store s) :
    Sited d { w with store := s } :=
  ⟨h.written, fun j k hk => h.table j k (by rwa [hs.table_eq j] at hk)⟩

theorem Sited.put {v : Option Row} {s : LocalStore} {n : Option Nat} (h : Sited d w)
    (hk : d.partitionOf k = i) (hs : Put i k v w.store s) :
    Sited d { w with store := s, crashIn := n } := by
  refine ⟨h.written, fun j k' hrow => ?_⟩
  have hrow : s.table j k' ≠ none := hrow
  obtain rfl | hj := eq_or_ne j i
  · obtain rfl | hk' := eq_or_ne k' k
    · exact hk
    · rw [hs.table_eq, Function.update_of_ne hk'] at hrow
      exact h.table j k' hrow
  · rw [hs.table_ne j hj] at hrow
    exact h.table j k' hrow

theorem Sited.enqueue {q : Queued} (h : Sited d w)
    (hq : ∀ i e, q.entryOn i = some e → d.partitionOf e.1 = i) :
    Sited d { w with producer := w.producer.enqueue q } := by
  refine ⟨fun i e he => ?_, h.table⟩
  have he : e ∈ OrderService.written w.broker (w.producer.enqueue q) i := he
  rw [written_enqueue, List.mem_append] at he
  obtain he | he := he
  · exact h.written i e he
  · obtain ⟨r, hr, hentry⟩ := mem_entriesOn.1 he
    rw [List.mem_singleton.1 hr] at hentry
    exact hq i e hentry

/-- A changelog record goes to the partition of its order. -/
theorem entryOn_changelogRecord {handling : MessageId} {v : Option Row} {e : Entry String Row}
    (h : (LocalStateStore.changelogRecord d groupId env handling k v).entryOn i = some e) :
    d.partitionOf e.1 = i := by
  have hmem : e ∈ entriesOn i [LocalStateStore.changelogRecord d groupId env handling k v] :=
    mem_entriesOn.2 ⟨_, .head _, h⟩
  rw [entriesOn_changelogRecord] at hmem
  split at hmem
  · rename_i hpart
    rw [List.mem_singleton.1 hmem]
    exact hpart
  · cases hmem

theorem Sited.changelogRecord {v : Option Row} (h : Sited d w) (handling : MessageId) : Sited d { w with
    producer := w.producer.enqueue (LocalStateStore.changelogRecord d groupId env handling k v) } :=
  h.enqueue fun _ _ => entryOn_changelogRecord

theorem Sited.published {q : Queued} {calls : List Call} {pos : Nat → Option Nat} {n : Option Nat}
    {trace : List Call} (h : Sited d w) (hp : Published d q w.broker w.producer b p calls)
    (hq : q.isFold = false) : Sited d { w with
      broker := b, producer := p, store := { w.store with position := pos }, crashIn := n
      trace := trace } := by
  refine ⟨fun i e he => ?_, h.table⟩
  obtain he | hentry := hp.mem_written he
  · exact h.written i e he
  · cases (isFold_of_entryOn hentry).1.symm.trans hq

theorem wp_rewind_sited (h : Sited d w) :
    wp (ServiceConsumer.rewind env m) (fun _ => Sited d) (fun _ => Sited d) w :=
  wp_rewind h (fun _ _ => ⟨h.written, h.table⟩) fun _ => ⟨h.written, h.table⟩

theorem wp_routeFailure_sited {exc : Exn} {attempt : Int} (h : Sited c.toDeployment w) :
    wp (ServiceConsumer.routeFailure c env m exc attempt) (fun _ => Sited c.toDeployment)
      (fun _ => Sited c.toDeployment) w := by
  refine wp_routeFailure (fun _ => h) ?_ ?_ ?_ ?_
  · exact fun q n b p pos hq hp => h.published hp hq.isFold
  · exact fun q n _ _ => wp_rewind_sited ⟨h.written, h.table⟩
  · exact fun q n b p pos hq _ hp => wp_rewind_sited (h.published hp hq.isFold)
  · exact fun q n b p pos hq hp _ => wp_commit_sited (h.published hp hq.isFold)

variable {event : LifecycleEvent}

theorem wp_handleTombstone_sited (hk : c.partitionOf (keyOf m) = m.partition)
    (h : Sited c.toDeployment w) :
    wp (ServiceConsumer.handleTombstone c (localStateStore c.toDeployment groupId env) env m m.partition)
      (fun _ => Sited c.toDeployment) (fun _ => Sited c.toDeployment) w := by
  simp only [ServiceConsumer.handleTombstone, localStateStore, wp_bind]
  have hdelete : wp (LocalStateStore.delete c.toDeployment groupId env m.partition (keyOf m))
      (fun _ => Sited c.toDeployment) (fun _ => Sited c.toDeployment) w := by
    refine (stable_sited _).delete (fun _ _ => ⟨h.written, h.table⟩) (fun _ n s hs => ?_)
      (fun n s hs => h.put hk hs) (fun _ h' handling => h'.changelogRecord handling) fun _ _ ht => ht
    exact ⟨(h.opened hs).written, (h.opened hs).table⟩
  exact wp_mono hdelete (fun _ t ht => wp_commit_sited ht) fun _ _ he => he

theorem wp_persistAndCommit_sited {fold : OrderFold} (hk : c.partitionOf event.orderId = m.partition)
    (h : Sited c.toDeployment w) :
    wp (ServiceConsumer.persistAndCommit c (localStateStore c.toDeployment groupId env) env m event fold
      m.partition) (fun _ => Sited c.toDeployment) (fun _ => Sited c.toDeployment) w := by
  refine wp_persistAndCommit_keeps (fun t ht => ?_) (fun t ht => (stable_sited _).storeFlush ht)
    (fun t ht => wp_commit_sited ht) (fun _ ht => ⟨ht.written, ht.table⟩) h
  simp only [ServiceConsumer.saveFold, localStateStore, wp_bind]
  refine (stable_sited _).save rfl (fun _ _ => ⟨ht.written, ht.table⟩) (fun _ n s hs => ?_)
    (fun n s hs => ht.put hk hs) (fun _ h' handling => h'.changelogRecord handling) fun _ _ hu => hu
  exact ⟨(ht.opened hs).written, (ht.opened hs).table⟩

theorem wp_handleMessage_sited (hpart : OnItsPartition c m) (h : Sited c.toDeployment w) :
    wp (ServiceConsumer.handleMessage c (localStateStore c.toDeployment groupId env) env m)
      (fun _ => Sited c.toDeployment) (fun _ => Sited c.toDeployment) w := by
  refine wp_handleMessage_exits (fun hnone => ?_) (fun _ => wp_commit_sited h)
    (fun _ _ _ _ _ _ => h) (fun _ _ _ _ _ => wp_routeFailure_sited h) fun value event hvalue _ hdecode => ?_
  · exact wp_handleTombstone_sited (hpart.1 hnone) h
  · refine wp_handleEvent_exits (fun _ => h) fun _ => ?_
    refine wp_mono ((stable_sited c.toDeployment).load (fun _ _ h' hs => h'.opened hs) h)
      (fun _ t ht reported => ?_) fun _ _ he => he
    have ht : Sited c.toDeployment { t with reported := reported } := ⟨ht.written, ht.table⟩
    refine wp_dispatch (fun _ _ _ => ht) (fun _ _ _ => wp_routeFailure_sited ht) fun _ => ?_
    exact wp_persistAndCommit_sited (hpart.2 value event hvalue hdecode) ht

/-! ## Steps -/

theorem wp_release_sited (env : Env) (tps : List TopicPartition) (reason : String)
    (h : Sited c.toDeployment w) :
    wp (do
      let _ ← (ServiceConsumer.commits c env).abort reason
      ServiceConsumer.forget (localStateStore c.toDeployment c.groupId env) tps
      modify fun w => w.unassign tps) (fun _ => Sited c.toDeployment) (fun _ => Sited c.toDeployment) w := by
  simp only [wp_bind]
  refine wp_mono (wp_abort_sited h) (fun _ t ht => ?_) fun _ _ he => he
  exact wp_mono (wp_forget_sited ht) (fun _ u hu => ⟨hu.written, hu.table⟩) fun _ _ he => he

/-- The message, if the step is one, is on its order's partition. -/
def DeliversOnPartition (c : Service) : Env × ServiceConsumer.Label → Prop
  | (_, .message m) => OnItsPartition c m
  | _ => True

theorem wp_localStep_sited {l : Env × ServiceConsumer.Label} (hl : DeliversOnPartition c l)
    (h : Sited c.toDeployment w) :
    wp (ServiceConsumer.localStep c l) (fun _ => Sited c.toDeployment) (fun _ => Sited c.toDeployment)
      w := by
  obtain ⟨env, l⟩ := l
  have hset : Sited c.toDeployment { w with crashIn := env.crashIn } := ⟨h.written, h.table⟩
  refine ServiceConsumer.wp_localStep (fun tps _ => ?_) (fun tps reason _ => ?_) (fun _ => ?_)
    (fun _ _ _ => ⟨hset, hset⟩) fun m hm => ?_
  · exact wp_mono (wp_restore_sited hset) (fun _ t ht => ⟨ht.written, ht.table⟩) fun _ _ he => he
  · exact wp_release_sited env tps reason hset
  · exact wp_settle_sited hset
  · subst hm
    refine wp_mono (wp_handleMessage_sited hl ?_) (fun _ t ht => wp_settle_sited ht) fun _ _ he => he
    exact ⟨hset.written, hset.table⟩

/-- A new process finds the directories and the changelog as they were. -/
theorem Sited.restart (h : Sited d w) : Sited d (ServiceConsumer.restart w) := by
  refine ⟨fun i e he => h.written i e ?_, h.table⟩
  rw [OrderService.mem_written] at he ⊢
  obtain he | he | he := he
  · exact .inl he
  · cases he
  · cases he

/-- What is written stays on its partition when another member moved the broker on. -/
theorem Sited.of_broker {t : World} (h : Sited d { w with broker := b }) (ht : Sited d t) :
    Sited d { w with broker := t.broker } := by
  refine ⟨fun i e he => ?_, h.table⟩
  obtain he | he := OrderService.mem_written.1 he
  · exact ht.written i e (OrderService.mem_written.2 (.inl he))
  · exact h.written i e (OrderService.mem_written.2 (.inr he))

end OrderService
