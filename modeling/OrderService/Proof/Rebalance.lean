import OrderService.Proof.Changelog
import OrderService.Proof.Enclosed
import OrderService.Proof.Ownership

/-!
# Rebalances under `exactly_once`

`Synced`: the store of each owned partition is its committed changelog followed by the open
transaction, and reading resumes right after what was noted. A rebalance aborts the whole transaction
but releases only the partitions it names, and an assignment rebuilds a partition from the committed
changelog alone; both keep `Synced` as long as they leave no partition behind that the transaction
wrote to (`synced_throughout`), and lose it otherwise (`kept_partition_dirty`).
-/

namespace OrderService

open Eff KeyedLog

variable {c : Service} {env : Env} {w : World} {m : Message} {b b' : Broker} {p p' : ProducerState}

/-! ## The transaction -/

/-- The records of the transaction currently open. -/
def ProducerState.openRecords (p : ProducerState) : List Queued := (p.txn.map (·.records)).getD []

/-- With nothing queued there is nothing to report. -/
theorem Served.idle {rs : List Queued} (h : Served b p rs b' p') (hqueue : p.queue = []) :
    b' = b ∧ p' = p := by
  have hrs : rs = [] := List.eq_nil_iff_forall_not_mem.2 fun q hq => by
    have hmem := h.reports_mem q hq
    rw [hqueue] at hmem
    cases hmem
  subst hrs
  constructor
  · obtain ⟨changelog, delivered, committed⟩ := b
    obtain ⟨changelog', delivered', committed'⟩ := b'
    have hchangelog : changelog' = changelog := funext h.changelog_eq
    have hdelivered : delivered' = delivered := by simpa using h.delivered_eq
    have hcommitted : committed' = committed := h.committed_eq
    rw [hchangelog, hdelivered, hcommitted]
  · obtain ⟨queue, txn⟩ := p
    obtain ⟨queue', txn'⟩ := p'
    have htxn : txn' = txn := h.txn_eq
    have hsub : queue'.Sublist queue := h.sublist
    obtain rfl : queue = [] := hqueue
    rw [htxn, List.sublist_nil.1 hsub]

/-- Under `exactly_once` a publication only makes the transaction longer. -/
theorem Published.joined {d : Deployment} {q : Queued} {calls : List Call}
    (h : Published d q b p b' p' calls) (hx : d.settings.exactlyOnce = true)
    (hqueue : p.queue = []) : b' = b ∧ ∃ t, p.txn = some t ∧
      p' = { p with txn := some { t with records := t.records ++ [q] } } := by
  obtain ⟨rs₁, b₁, p₁, rs₂, h₁, hopen, h₂⟩ := h.served
  obtain ⟨rfl, rfl⟩ := h₁.idle hqueue
  obtain ⟨t, ht⟩ := Option.ne_none_iff_exists'.1 (hopen hx)
  have hjoined : p₁.enqueue q = { p₁ with txn := some { t with records := t.records ++ [q] } } := by
    unfold ProducerState.enqueue
    rw [ht]
  rw [hjoined] at h₂
  obtain ⟨rfl, rfl⟩ := h₂.idle hqueue
  exact ⟨rfl, t, ht, rfl⟩

/-! ## The invariant -/

/-- Where reading resumes: right after what the open transaction noted, else at the committed
offset. -/
def World.resumeAt (w : World) (tp : TopicPartition) : Nat :=
  ((w.committer.offsets tp).or (w.broker.committed tp)).getD 0

/-- `log tp o`: there is a message at offset `o` of `tp`. Two positions are the same place if the same
messages are still to come. -/
def SamePlace (log : TopicPartition → Nat → Prop) (tp : TopicPartition) (i j : Nat) : Prop :=
  ∀ o, log tp o → (i ≤ o ↔ j ≤ o)

/-- What holds between steps of each partition still held. -/
structure Synced (log : TopicPartition → Nat → Prop) (w : World) : Prop where
  store_eq : ∀ i, Owned w i → w.store.table i =
    replay (w.broker.changelog i).table (entriesOn i w.producer.openRecords)
  next_eq : ∀ tp ∈ w.assignment, SamePlace log tp (w.position tp) (w.resumeAt tp)

/-- The invariant, with the positions given: while a message is handled, those before it was read. -/
structure Coherent (log : TopicPartition → Nat → Prop) (position : TopicPartition → Nat)
    (w : World) : Prop where
  store_eq : ∀ i, Owned w i → w.store.table i =
    replay (w.broker.changelog i).table (entriesOn i w.producer.openRecords)
  next_eq : ∀ tp ∈ w.assignment, SamePlace log tp (position tp) (w.resumeAt tp)
  open_iff : w.committer.isOpen = true ↔ w.producer.txn ≠ none
  queue_eq : w.producer.queue = []
  unsent : ∀ t, w.producer.txn = some t → t.offsets = fun _ => none
  noted : ∀ tp, w.committer.offsets tp ≠ none → w.committer.isOpen = true ∧ tp ∈ w.assignment

theorem Coherent.synced {log : TopicPartition → Nat → Prop} (h : Coherent log w.position w) :
    Synced log w := ⟨h.store_eq, h.next_eq⟩

/-- While `m` is being handled, as if it were still to be read. -/
structure InHand (log : TopicPartition → Nat → Prop) (m : Message) (w : World) : Prop where
  coherent : Coherent log (Function.update w.position m.tp m.offset) w
  position_eq : w.position m.tp = m.offset + 1
  assigned : m.tp ∈ w.assignment
  handling : w.handling = m.id

variable {log : TopicPartition → Nat → Prop}

theorem InHand.opened {s : LocalStore} {reported : List Violation} {n : Option Nat}
    {trace : List Call} (h : InHand log m w) (hs : ∀ i, s.table i = w.store.table i) :
    InHand log m { w with store := s, reported := reported, crashIn := n, trace := trace } :=
  { h with
    coherent := { h.coherent with
      store_eq := fun i hi => (hs i).trans (h.coherent.store_eq i hi) } }

/-- The open transaction got one more record, and the store what it says. -/
theorem InHand.joined {q : Queued} {t : Transaction} {s : LocalStore} {n : Option Nat}
    {trace : List Call} (h : InHand log m w) (ht : w.producer.txn = some t)
    (hs : ∀ i, Owned w i → s.table i = replay (w.store.table i) (entriesOn i [q])) :
    InHand log m { w with
      producer := { w.producer with txn := some { t with records := t.records ++ [q] } }
      store := s, crashIn := n, trace := trace } where
  coherent := {
    store_eq := fun i hi => by
      have hstore := h.coherent.store_eq i hi
      unfold ProducerState.openRecords at hstore ⊢
      rw [ht] at hstore
      change s.table i = replay _ (entriesOn i (t.records ++ [q]))
      rw [entriesOn_append, replay_append, hs i hi, hstore]
      rfl
    next_eq := h.coherent.next_eq
    open_iff := by
      rw [h.coherent.open_iff, ht]
      simp
    queue_eq := h.coherent.queue_eq
    unsent := fun t' ht' => by
      obtain rfl := Option.some.inj ht'
      exact h.coherent.unsent t ht
    noted := h.coherent.noted }
  position_eq := h.position_eq
  assigned := h.assigned
  handling := h.handling

/-! ## The exits of a message -/

theorem wp_commit_coherent (hx : c.settings.exactlyOnce = true) (h : InHand log m w) :
    wp (ServiceConsumer.commit c env m) (fun _ t => Coherent log t.position t) (fun _ _ => True) w := by
  have hnext : ∀ tp ∈ w.assignment, SamePlace log tp (w.position tp)
      (((Function.update w.committer.offsets m.tp (some (m.offset + 1)) tp).or
        (w.broker.committed tp)).getD 0) := by
    intro tp htp
    by_cases heq : tp = m.tp
    · subst heq
      rw [Function.update_self, h.position_eq]
      exact fun _ _ => Iff.rfl
    · have hother := h.coherent.next_eq tp htp
      rw [Function.update_of_ne heq] at hother ⊢
      exact hother
  have hnoted : ∀ tp, Function.update w.committer.offsets m.tp (some (m.offset + 1)) tp ≠ none →
      tp ∈ w.assignment := by
    intro tp hne
    by_cases heq : tp = m.tp
    · rw [heq]
      exact h.assigned
    · rw [Function.update_of_ne heq] at hne
      exact (h.coherent.noted tp hne).2
  unfold ServiceConsumer.commit ServiceConsumer.commits buildCommitStrategy
  rw [if_pos hx]
  refine wp_note (fun _ => trivial) (fun _ _ _ _ => trivial) (fun hopen => ?_) fun n at' hclosed htxn => ?_
  · exact {
      store_eq := h.coherent.store_eq
      next_eq := hnext
      open_iff := h.coherent.open_iff
      queue_eq := h.coherent.queue_eq
      unsent := h.coherent.unsent
      noted := fun tp hne => ⟨hopen, hnoted tp hne⟩ }
  · exact {
      store_eq := fun i hi => by
        have hstore := h.coherent.store_eq i hi
        unfold ProducerState.openRecords at hstore ⊢
        rw [htxn] at hstore
        exact hstore
      next_eq := hnext
      open_iff := ⟨fun _ => by simp, fun _ => rfl⟩
      queue_eq := h.coherent.queue_eq
      unsent := fun t ht => by
        obtain rfl := Option.some.inj ht
        rfl
      noted := fun tp hne => ⟨rfl, hnoted tp hne⟩ }

theorem wp_rewind_coherent (hseek : env.seek m.tp = none) (h : InHand log m w) :
    wp (ServiceConsumer.rewind env m) (fun _ t => Coherent log t.position t) (fun _ _ => True) w :=
  wp_rewind trivial (fun _ hfail => absurd hseek hfail) fun _ =>
    ⟨h.coherent.store_eq, h.coherent.next_eq, h.coherent.open_iff, h.coherent.queue_eq,
      h.coherent.unsent, h.coherent.noted⟩

theorem wp_routeFailure_coherent {exc : Exn} {attempt : Int} (hx : c.settings.exactlyOnce = true)
    (hseek : CannotPublish env w.producer → env.seek m.tp = none) (h : InHand log m w) :
    wp (ServiceConsumer.routeFailure c env m exc attempt) (fun _ t => Coherent log t.position t)
      (fun _ _ => True) w := by
  refine wp_routeFailure (fun _ => trivial) (fun _ _ _ _ _ _ _ => trivial) ?_ ?_ ?_
  · intro q n hcannot _
    have hrefused : InHand log m { w with crashIn := n, trace := w.trace ++ [.produce q false] } :=
      h.opened fun _ => rfl
    exact wp_rewind_coherent (hseek hcannot) hrefused
  · intro q n b p pos _ hdirect
    cases hdirect.symm.trans hx
  · intro q n b p pos hq hp _
    obtain ⟨rfl, t, ht, rfl⟩ := hp.joined hx h.coherent.queue_eq
    refine wp_commit_coherent hx (h.joined ht fun i _ => ?_)
    have hnil : entriesOn i [q] = [] := by
      rcases hentry : q.entryOn i with _ | e
      · simp [entriesOn, hentry]
      · cases (isFold_of_entryOn hentry).1.symm.trans hq.isFold
    rw [hnil]
    rfl

/-- A write of a row and its record, on the partition of its message. -/
theorem InHand.wrote {k : String} {v : Option Row} {s : LocalStore} {calls : List Call}
    {n : Option Nat} (hx : c.settings.exactlyOnce = true) (h : InHand log m w)
    (hk : c.partitionOf k = m.partition) (hs : Wrote m.partition k v w.store s)
    (hp : Published c.toDeployment
      (LocalStateStore.changelogRecord c.toDeployment c.groupId env w.handling k v) w.broker
      w.producer b p calls) :
    InHand log m { w with
      broker := b, producer := p, store := s, crashIn := n, trace := w.trace ++ calls } := by
  obtain ⟨rfl, t, ht, rfl⟩ := hp.joined hx h.coherent.queue_eq
  refine h.joined ht fun i _ => ?_
  rw [entriesOn_changelogRecord, hk]
  by_cases heq : m.partition = i
  · subst heq
    rw [if_pos rfl, hs.table_eq]
    rfl
  · rw [if_neg heq, hs.table_ne i (Ne.symm heq)]
    rfl

/-- The topics are co-partitioned: what the message says of an order goes to the changelog partition
of its number. -/
def OnItsPartition (c : Service) (m : Message) : Prop :=
  (m.value = none → c.partitionOf (keyOf m) = m.partition) ∧
    ∀ value event, m.value = some value → c.decode value = .event event →
      c.partitionOf event.orderId = m.partition

theorem wp_handleMessage_coherent (hx : c.settings.exactlyOnce = true) (hpart : OnItsPartition c m)
    (hseek : Fails c env m → CannotPublish env w.producer → env.seek m.tp = none)
    (h : InHand log m w) :
    wp (ServiceConsumer.handleMessage c (localStateStore c.toDeployment c.groupId env) env m)
      (fun _ t => Coherent log t.position t) (fun _ _ => True) w := by
  refine wp_handleMessage (fun _ _ _ _ => trivial) (fun hnone => ?_)
    (fun _ => wp_commit_coherent hx h) ?_ ?_
  · simp only [ServiceConsumer.handleTombstone, localStateStore, wp_bind]
    refine wp_delete rfl (fun _ _ _ _ _ _ _ => trivial) (fun _ _ _ _ _ _ => trivial) ?_
    exact fun n s b p calls hs hp _ => wp_commit_coherent hx (h.wrote hx (hpart.1 hnone) hs hp)
  · intro exc attempt n s reported _ hfails hs
    have hopened : InHand log m { w with store := s, reported := reported, crashIn := n } := by
      refine h.opened fun i => ?_
      rcases hs with rfl | hs
      · rfl
      · exact hs.table_eq i
    exact wp_routeFailure_coherent hx (hseek hfails) hopened
  · intro value event attempt n s reported hvalue _ hdecode hs _
    have hopened : InHand log m { w with store := s, reported := reported, crashIn := n } :=
      h.opened hs.table_eq
    unfold ServiceConsumer.persistAndCommit
    rw [if_pos hx]
    simp only [ServiceConsumer.saveFold, localStateStore, wp_bind]
    refine wp_save rfl rfl (fun _ _ _ _ _ _ _ => trivial) (fun _ _ _ _ _ _ => trivial) ?_
    intro _ n s' b p calls hs' hp
    rw [wp_pure]
    have hwrote := hopened.wrote (n := n) hx (hpart.2 value event hvalue hdecode) hs' hp
    refine wp_mono (wp_commit_coherent hx hwrote) (fun _ t ht => ?_) fun _ _ he => he
    unfold ServiceConsumer.crashIfConfigured
    split
    · trivial
    · exact ht

/-! ## Commits and aborts -/

/-- A committed transaction's records are applied to the table. -/
theorem Committed.table_eq {t : Transaction} (h : Committed b t b') (i : Nat) :
    (b'.changelog i).table = replay (b.changelog i).table (entriesOn i t.records) := by
  unfold table
  rw [h.changelog_eq, entries_skip, entries_foldl_append, replay_append]

/-- The open transaction is committed, with what was noted. -/
theorem Coherent.committed {t : Transaction} {pos : Nat → Option Nat} {n : Option Nat} {trace : List Call}
    (h : Coherent log w.position w) (htxn : w.producer.txn = some t)
    (hb : Committed w.broker
      { t with offsets := fun tp => (w.committer.offsets tp).or (t.offsets tp) } b) :
    Coherent log w.position { w with
      broker := b, producer := { w.producer with txn := none }
      store := { w.store with position := pos }, committer := {}, crashIn := n, trace := trace } where
  store_eq i hi := by
    have hstore := h.store_eq i hi
    unfold ProducerState.openRecords at hstore
    rw [htxn] at hstore
    change LocalStore.table { w.store with position := pos } i = replay (b.changelog i).table []
    rw [hb.table_eq]
    exact hstore
  next_eq tp htp := by
    have hnext := h.next_eq tp htp
    unfold World.resumeAt at hnext ⊢
    change SamePlace log tp (w.position tp) (((none : Option Nat).or (b.committed tp)).getD 0)
    rw [hb.committed_eq, h.unsent t htxn]
    simpa using hnext
  open_iff := ⟨fun hopen => (nomatch hopen), fun hne => absurd rfl hne⟩
  queue_eq := h.queue_eq
  unsent t ht := by cases ht
  noted tp hne := absurd rfl hne

theorem wp_settle_coherent {store : StateStore} (hcommit : ¬ RefusesCommit env)
    (h : Coherent log w.position w) :
    wp (ServiceConsumer.settle c store env) (fun _ t => Coherent log t.position t)
      (fun _ _ => True) w := by
  refine wp_settle h (fun _ _ _ _ _ _ _ => trivial) (fun _ _ _ hopen hrefuses _ => ?_) ?_
  · exact absurd (hrefuses (h.open_iff.1 hopen)) hcommit
  · exact fun n t b pos _ htxn hb => h.committed htxn hb

/-- The transaction is gone, if there was one, and with it what was noted; nothing else changed that
is read here. -/
structure Withdrawn (w t : World) : Prop where
  table_eq : ∀ i, (t.broker.changelog i).table = (w.broker.changelog i).table
  committed_eq : t.broker.committed = w.broker.committed
  producer_eq : t.producer = { w.producer with txn := none }
  committer_eq : t.committer.isOpen = false ∧ ∀ tp, t.committer.offsets tp = none
  store_eq : t.store = w.store
  assignment_eq : t.assignment = w.assignment
  position_eq : t.position = w.position

theorem wp_abort_withdrawn (env : Env) (reason : String) (hx : c.settings.exactlyOnce = true)
    (habort : ¬ RefusesAbort env) (h : Coherent log w.position w) :
    wp ((ServiceConsumer.commits c env).abort reason) (fun _ t => Withdrawn w t)
      (fun _ _ => True) w := by
  unfold ServiceConsumer.commits buildCommitStrategy
  rw [if_pos hx]
  change wp (TransactionalCommitter.abort _ _ _ reason) _ _ _
  refine wp_abort (fun hclosed => ?_) (fun _ _ _ _ _ _ => trivial) (fun _ hopen hrefuses => ?_) ?_
  · have hnone : w.producer.txn = none := by
      by_contra hne
      cases hclosed.symm.trans (h.open_iff.2 hne)
    refine ⟨fun _ => rfl, rfl, ?_, ⟨hclosed, fun tp => ?_⟩, rfl, rfl, rfl⟩
    · rw [← hnone]
    · by_contra hne
      cases hclosed.symm.trans (h.noted tp hne).1
  · exact absurd (hrefuses (h.open_iff.1 hopen)) habort
  · exact fun n t gap _ _ => ⟨fun _ => rfl, rfl, rfl, ⟨rfl, fun _ => rfl⟩, rfl, rfl, rfl⟩

/-- The open transaction neither wrote to nor noted anything of a partition that is kept. -/
def LeavesKept (w : World) (tps : List TopicPartition) : Prop :=
  ∀ tp ∈ w.assignment, tp ∉ tps →
    entriesOn tp.partition w.producer.openRecords = [] ∧ w.committer.offsets tp = none

theorem Withdrawn.coherent {tps : List TopicPartition} {s : LocalStore} {t : World} {n : Option Nat}
    (ht : Withdrawn w t) (h : Coherent log w.position w) (hkept : LeavesKept w tps)
    (hs : ∀ i, s.table i = t.store.table i) :
    Coherent log t.position (World.unassign { t with store := s, crashIn := n } tps) where
  store_eq := by
    rintro _ ⟨tp, htp, rfl⟩
    obtain ⟨hassigned, hnot⟩ := List.mem_filter.1 htp
    rw [ht.assignment_eq] at hassigned
    have hnot : tp ∉ tps := by simpa using hnot
    change s.table tp.partition =
      replay (t.broker.changelog tp.partition).table (entriesOn tp.partition t.producer.openRecords)
    have hnil : t.producer.openRecords = [] := by
      unfold ProducerState.openRecords
      rw [ht.producer_eq]
      rfl
    rw [hs, ht.store_eq, hnil, ht.table_eq, h.store_eq _ ⟨tp, hassigned, rfl⟩,
      (hkept tp hassigned hnot).1]
    rfl
  next_eq tp htp := by
    obtain ⟨hassigned, hnot⟩ := List.mem_filter.1 htp
    rw [ht.assignment_eq] at hassigned
    have hnext := h.next_eq tp hassigned
    unfold World.resumeAt at hnext ⊢
    rw [(hkept tp hassigned (by simpa using hnot)).2] at hnext
    change SamePlace log tp (t.position tp)
      (((t.committer.offsets tp).or (t.broker.committed tp)).getD 0)
    rw [ht.committer_eq.2, ht.committed_eq, ht.position_eq]
    exact hnext
  open_iff := by
    change t.committer.isOpen = true ↔ t.producer.txn ≠ none
    rw [ht.committer_eq.1, ht.producer_eq]
    simp
  queue_eq := by
    change t.producer.queue = []
    rw [ht.producer_eq]
    exact h.queue_eq
  unsent t' ht' := by
    change t.producer.txn = some t' at ht'
    rw [ht.producer_eq] at ht'
    cases ht'
  noted tp hne := absurd (ht.committer_eq.2 tp) hne

/-- A rebalance that takes away all that the open transaction wrote to and noted. -/
theorem wp_release_coherent (env : Env) (tps : List TopicPartition) (reason : String)
    (hx : c.settings.exactlyOnce = true) (habort : ¬ RefusesAbort env)
    (h : Coherent log w.position w) (hkept : LeavesKept w tps) :
    wp (do
      let _ ← (ServiceConsumer.commits c env).abort reason
      ServiceConsumer.forget (localStateStore c.toDeployment c.groupId env) tps
      modify fun w => w.unassign tps) (fun _ t => Coherent log t.position t) (fun _ _ => True) w := by
  simp only [wp_bind]
  refine wp_mono (wp_abort_withdrawn env reason hx habort h) (fun _ t ht => ?_) fun _ _ _ => trivial
  refine wp_forget (fun _ => ?_) trivial (fun _ _ _ _ _ _ _ => trivial) fun n s rs b p hp hs => ?_
  · exact ht.coherent (n := t.crashIn) h hkept fun _ => rfl
  · have hqueue : t.producer.queue = [] := by
      rw [ht.producer_eq]
      exact h.queue_eq
    obtain ⟨rfl, rfl⟩ := hp.idle hqueue
    exact ht.coherent h hkept hs.table_eq

/-- Partitions that are assigned are rebuilt from the committed changelog, to which the open
transaction must have nothing to add. -/
theorem Coherent.assign {tps : List TopicPartition} {s : LocalStore} {n : Option Nat}
    {trace : List Call} (h : Coherent log w.position w) (hfull : c.settings.stateRebuild = .full)
    (hnew : ∀ tp ∈ tps, tp ∉ w.assignment)
    (hclean : ∀ tp ∈ tps, entriesOn tp.partition w.producer.openRecords = [])
    (hs : Restored c.toDeployment w.broker (tps.map (·.partition)) w.store s) :
    let t := World.assign { w with store := s, crashIn := n, trace := trace } tps
    Coherent log t.position t where
  store_eq i hi := by
    change s.table i = replay (w.broker.changelog i).table (entriesOn i w.producer.openRecords)
    by_cases hmem : i ∈ tps.map (·.partition)
    · rw [hs.table_eq hfull i hmem]
      obtain ⟨tp, htp, rfl⟩ := List.mem_map.1 hmem
      rw [hclean tp htp]
      rfl
    · rw [hs.table_ne i hmem]
      obtain ⟨tp, htp, rfl⟩ := hi
      rcases List.mem_append.1 htp with htp | htp
      · exact h.store_eq _ ⟨tp, htp, rfl⟩
      · exact absurd (List.mem_map_of_mem htp) hmem
  next_eq tp htp := by
    change SamePlace log tp (if tp ∈ tps then (w.broker.committed tp).getD 0 else w.position tp)
      (w.resumeAt tp)
    split
    · rename_i hmem
      have hnone : w.committer.offsets tp = none := by
        by_contra hne
        exact hnew tp hmem (h.noted tp hne).2
      unfold World.resumeAt
      rw [hnone]
      exact fun _ _ => Iff.rfl
    · rename_i hmem
      exact h.next_eq tp ((List.mem_append.1 htp).resolve_right hmem)
  open_iff := h.open_iff
  queue_eq := h.queue_eq
  unsent := h.unsent
  noted tp hne := ⟨(h.noted tp hne).1, List.mem_append_left _ (h.noted tp hne).2⟩

/-! ## Runs -/

/-- The client: a partition is assigned once, and what is delivered is the next message of an
assigned partition; the topics are co-partitioned. -/
def DeliversNext (c : Service) (log : TopicPartition → Nat → Prop) (w : World) :
    Env × ServiceConsumer.Label → Prop
  | (_, .assign tps) => ∀ tp ∈ tps, tp ∉ w.assignment
  | (_, .message m) => m.tp ∈ w.assignment ∧ w.position m.tp ≤ m.offset ∧
      (∀ o, w.position m.tp ≤ o → o < m.offset → ¬ log m.tp o) ∧ OnItsPartition c m
  | _ => True

/-- The open transaction is not in the way of a rebalance, no commit or abort is refused, and a failed
message that could not be published is sought back to. -/
def Undisturbed (c : Service) (w : World) : Env × ServiceConsumer.Label → Prop
  | (_, .assign tps) => ∀ tp ∈ tps, entriesOn tp.partition w.producer.openRecords = []
  | (env, .revoke tps) | (env, .lost tps) => LeavesKept w tps ∧ ¬ RefusesAbort env
  | (env, .message m) => ¬ RefusesCommit env ∧
      (Fails c env m → CannotPublish env w.producer → env.seek m.tp = none)
  | (env, .idle) => ¬ RefusesCommit env
  | _ => True

theorem Coherent.receive (h : Coherent log w.position w) (hassigned : m.tp ∈ w.assignment)
    (hle : w.position m.tp ≤ m.offset)
    (hgap : ∀ o, w.position m.tp ≤ o → o < m.offset → ¬ log m.tp o) :
    InHand log m { w with
      position := Function.update w.position m.tp (m.offset + 1), handling := m.id
      trace := w.trace ++ [.poll m.id] } where
  coherent := {
    store_eq := h.store_eq
    next_eq := fun tp htp => by
      have hnext := h.next_eq tp htp
      change SamePlace log tp (Function.update (Function.update w.position m.tp (m.offset + 1)) m.tp
        m.offset tp) (w.resumeAt tp)
      by_cases heq : tp = m.tp
      · subst heq
        rw [Function.update_self]
        intro o ho
        have hiff := hnext o ho
        have hskip : w.position m.tp ≤ o → m.offset ≤ o := fun hpos =>
          Nat.not_lt.1 fun hlt => hgap o hpos hlt ho
        omega
      · rw [Function.update_of_ne heq, Function.update_of_ne heq]
        exact hnext
    open_iff := h.open_iff
    queue_eq := h.queue_eq
    unsent := h.unsent
    noted := h.noted }
  position_eq := Function.update_self ..
  assigned := hassigned
  handling := rfl

/-- **One undisturbed step**, if it returns, leaves the stores and the positions as they should be. -/
theorem wp_localStep_coherent (hx : c.settings.exactlyOnce = true)
    (l : Env × ServiceConsumer.Label) (h : Coherent log w.position w)
    (hl : DeliversNext c log w l ∧ Undisturbed c w l) :
    wp (ServiceConsumer.localStep c l) (fun _ t => Coherent log t.position t) (fun _ _ => True) w := by
  obtain ⟨env, l⟩ := l
  obtain ⟨hclient, hcalm⟩ := hl
  have hset : Coherent log w.position { w with crashIn := env.crashIn } :=
    ⟨h.store_eq, h.next_eq, h.open_iff, h.queue_eq, h.unsent, h.noted⟩
  have hfull := c.settings.rebuild_full_of_exactlyOnce hx
  refine ServiceConsumer.wp_localStep (fun tps htps => ?_) (fun tps reason htps => ?_) (fun hidle => ?_)
    (fun _ _ _ => ⟨hset, trivial⟩) fun m hm => ?_
  · subst htps
    exact wp_restore (fun _ _ _ => trivial) fun n s hs => hset.assign hfull hclient hcalm hs
  · have hkept : LeavesKept w tps ∧ ¬ RefusesAbort env := by
      obtain rfl | rfl := htps
      · exact hcalm
      · exact hcalm
    exact wp_release_coherent env tps reason hx hkept.2 hset hkept.1
  · subst hidle
    exact wp_settle_coherent hcalm hset
  · subst hm
    obtain ⟨hassigned, hle, hgap, hpart⟩ := hclient
    have hhand := Coherent.receive (w := { w with crashIn := env.crashIn }) hset hassigned hle hgap
    refine wp_mono (wp_handleMessage_coherent hx hpart hcalm.2 hhand) (fun _ t ht => ?_) fun _ _ he => he
    exact wp_settle_coherent hcalm.1 ht

/-- **Stores and positions stay in step with the transaction** in every run whose rebalances leave no
partition behind that the open transaction wrote to or noted, and rebuild none. -/
theorem synced_throughout (c : Service) (log : TopicPartition → Nat → Prop)
    (ls : List (Env × ServiceConsumer.Label)) (w : World) (hx : c.settings.exactlyOnce = true)
    (hw : Built w)
    (hl : Along (ServiceConsumer.localStep c) (fun w l => DeliversNext c log w l ∧ Undisturbed c w l) ls w) :
    Throughout (ServiceConsumer.localStep c) (Synced log) ls w := by
  have hstart : Coherent log w.position w := {
    store_eq := fun i => by
      rintro ⟨tp, htp, -⟩
      rw [hw.assignment_eq] at htp
      cases htp
    next_eq := fun tp htp => by
      rw [hw.assignment_eq] at htp
      cases htp
    open_iff := by
      rw [hw.committer_eq, hw.producer_eq]
      simp
    queue_eq := by rw [hw.producer_eq]
    unsent := fun t ht => by
      rw [hw.producer_eq] at ht
      cases ht
    noted := fun tp hne => by
      rw [hw.committer_eq] at hne
      exact absurd rfl hne }
  exact throughout_of_invariant (I := fun w => Coherent log w.position w)
    (fun _ l h hl => wp_localStep_coherent hx l h hl) (fun _ h => h.synced) hstart hl

/-- Every offset holds a message. -/
def dense : TopicPartition → Nat → Prop := fun _ _ => True

/-- A fold is committed, and then everything is revoked. -/
def committedFirst : List (Env × ServiceConsumer.Label) :=
  [assignBoth, ({}, .message (snapshotMessage 0)), ({}, .message (lifecycleMessage 0)),
    ({ monotonic := 200 }, .idle),
    ({}, .revoke [⟨"order-lifecycle", 0⟩, ⟨"order-snapshot", 0⟩])]

theorem not_refusesCommit (hsend : env.sendOffsets = none) (hcommit : env.commitTransaction = none) :
    ¬ RefusesCommit env := by
  rintro ⟨k, hk | hk, -⟩
  · cases hsend.symm.trans hk
  · cases hcommit.symm.trans hk

theorem not_refusesAbort (habort : env.abortTransaction = none) : ¬ RefusesAbort env := by
  rintro ⟨k, hk, -⟩
  cases habort.symm.trans hk

theorem synced_throughout_committedFirst :
    Throughout (ServiceConsumer.localStep packer) (Synced dense) committedFirst {} := by
  refine synced_throughout packer dense committedFirst {} rfl ⟨rfl, rfl, rfl, rfl, rfl⟩ ?_
  have hpart : ∀ m, OnItsPartition packer m ↔ m.partition = 0 := fun m => by
    constructor
    · intro h
      rcases hvalue : m.value with _ | value
      · exact (h.1 hvalue).symm
      · exact (h.2 value _ hvalue rfl).symm
    · exact fun h => ⟨fun _ => h.symm, fun _ _ _ _ => h.symm⟩
  have hnone : ∀ o i : Nat, i ≤ o → o < 0 → ¬ True := fun o i _ hlt => absurd hlt (Nat.not_lt_zero o)
  refine .cons ⟨fun _ _ h => (nomatch h), fun _ _ => rfl⟩
    (.cons ⟨⟨?_, ?_, fun o => hnone o _, (hpart _).2 rfl⟩, not_refusesCommit rfl rfl, fun _ _ => rfl⟩
    (.cons ⟨⟨?_, ?_, fun o => hnone o _, (hpart _).2 rfl⟩, not_refusesCommit rfl rfl, fun _ _ => rfl⟩
    (.cons ⟨trivial, not_refusesCommit rfl rfl⟩
    (.cons ⟨trivial, ?_, not_refusesAbort rfl⟩ trivial))))
  · decide +kernel
  · decide +kernel
  · decide +kernel
  · decide +kernel
  · unfold LeavesKept
    decide +kernel

def otherLane : TopicPartition := ⟨"order-lifecycle", 1⟩

/-- Partition 1 is revoked while the open transaction holds a fold of partition 0. -/
def foldThenRevoke : List (Env × ServiceConsumer.Label) :=
  [({}, .assign [⟨"order-lifecycle", 0⟩, ⟨"order-snapshot", 0⟩, otherLane]),
    ({}, .message (snapshotMessage 0)), ({}, .message (lifecycleMessage 0)), ({}, .revoke [otherLane])]

/-- The abort withdraws the fold of partition 0; its store keeps it, and the message is not read
again. -/
theorem kept_partition_dirty :
    Along (ServiceConsumer.localStep packer) (DeliversNext packer dense) foldThenRevoke {} ∧
    ∃ t, (foldThenRevoke.forM (ServiceConsumer.localStep packer)).exec {} = (.ok ⟨⟩, t) ∧
      ¬ Synced dense t ∧
      (t.store.table 0 "o").isSome = true ∧ (t.broker.changelog 0).table "o" = none ∧
      t.producer.txn.isNone = true ∧ t.position ⟨"order-lifecycle", 0⟩ = 1 ∧
      t.broker.committed ⟨"order-lifecycle", 0⟩ = none := by
  have hnone : ∀ o i : Nat, i ≤ o → o < 0 → ¬ True := fun o i _ hlt => absurd hlt (Nat.not_lt_zero o)
  refine ⟨?_, _, exec_eq_of_ok (by decide +kernel), fun h => ?_, ?_⟩
  · refine .cons (fun _ _ h => (nomatch h))
      (.cons ⟨?_, ?_, fun o => hnone o _, fun _ => rfl, fun _ _ _ _ => rfl⟩
      (.cons ⟨?_, ?_, fun o => hnone o _, fun _ => rfl, fun _ _ _ _ => rfl⟩ (.cons trivial trivial)))
    all_goals decide +kernel
  · have hnext := h.next_eq ⟨"order-lifecycle", 0⟩ (by decide +kernel) 0 trivial
    revert hnext
    decide +kernel
  · decide +kernel

end OrderService
