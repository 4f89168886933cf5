import OrderService.Consumer.StoreRun
import OrderService.Lib.Run
import OrderService.Proof.Changelog
import OrderService.Proof.Invariance

/-!
# A rebuild from a checkpoint and a full rebuild

A partition is held in turn by the members of a group; from one member's side the holds of the others
are the records they append. Between its own holds a member keeps a table and a checkpoint `c`, and
`CatchesUp` says that the records since `c` are all its table misses: the two rebuilds then agree
(`rebuildsAlike_iff`). Appended records keep it, the cleaner does not always: a deletion that was
removed together with the records it superseded is never seen by a member that still has the row.
-/

namespace OrderService

open Eff KeyedLog

variable {d : Deployment} {groupId : String} {env : Env} {w : World} {p : Nat}

/-! ## The two rebuilds -/

/-- Whatever `STATE_REBUILD` is, a process started on this disk that meets no error rebuilds the same
table. -/
def RebuildsAlike (d : Deployment) (groupId : String) (w : World) (p : Nat) : Prop :=
  ∀ env u, u.broker = w.broker → u.store.disk = w.store.disk →
    u.store.checkpoint = w.store.checkpoint → Sound env u → env.reader p = {} →
    ∃ T, ∀ rebuild, wp (LocalStateStore.restore (d.rebuilding rebuild) groupId env [p])
      (fun _ t => t.store.table p = T) (fun _ _ => False) u

theorem rebuilding_stateRebuild (hx : d.settings.exactlyOnce = false) (rebuild : StateRebuild) :
    (d.rebuilding rebuild).settings.stateRebuild = rebuild := by
  have hne : d.settings.processingGuarantee ≠ .exactlyOnce := by
    simpa [Settings.exactlyOnce] using hx
  simp only [Deployment.rebuilding, Settings.rebuilding, dif_neg hne]

theorem visible_max (log : KeyedLog String Row) (c : Nat) : visible log (max c log.low) = log.since c := by
  refine List.filter_congr fun r hr => ?_
  have := (log.bounded r hr).1
  simp only [decide_eq_decide]
  omega

/-- The table and the checkpoint on disk lack nothing that is not in the log since. -/
def OnDisk (s : LocalStore) (b : Broker) (p : Nat) : Prop :=
  ∀ c, s.checkpoint p = some c → (b.changelog p).CatchesUp (s.table p) c

theorem OnDisk.congr {s s' : LocalStore} {b b' : Broker} (h : OnDisk s b p)
    (hcheckpoint : s'.checkpoint p = s.checkpoint p) (htable : s'.table p = s.table p)
    (hlog : b'.changelog p = b.changelog p) : OnDisk s' b' p := by
  intro c hc
  rw [hlog, htable]
  exact h c (hcheckpoint ▸ hc)

/-- From such a disk, whatever the rebuild keeps, it ends with the table of the log. -/
theorem replay_delta {s : LocalStore} {b : Broker} (d : Deployment) (h : OnDisk s b p) :
    replay (keptTable d s p) ((delta d s p (b.changelog p)).map LogRecord.entry) =
      (b.changelog p).table := by
  unfold keptTable delta
  cases hkept : keptCheckpoint d s p with
  | none =>
    simp only [visible_low]
    rfl
  | some c =>
    simp only [visible_max]
    exact h c (checkpoint_of_kept hkept)

/-- What a rebuild from a checkpoint leaves. -/
theorem replay_delta_of_checkpoint (hmode : d.settings.stateRebuild = .checkpoint) {s : LocalStore}
    {c : Nat} (hc : s.checkpoint p = some c) (log : KeyedLog String Row) :
    replay (keptTable d s p) ((delta d s p log).map LogRecord.entry) =
      replay (s.table p) ((log.since c).map LogRecord.entry) := by
  have hkept : keptCheckpoint d s p = some c := by
    unfold keptCheckpoint
    rw [hmode]
    exact hc
  unfold keptTable delta
  rw [hkept]
  simp only [visible_max]

theorem wp_unique {α β : Type} {x : M α} {f : World → β} {a b : β}
    (ha : wp x (fun _ t => f t = a) (fun _ _ => False) w)
    (hb : wp x (fun _ t => f t = b) (fun _ _ => False) w) : a = b := by
  by_contra hne
  refine wp_absurd ha (wp_mono hb (fun _ t ht heq => hne ?_) fun _ _ _ => trivial)
  rw [← heq, ht]

/-- **The rebuilds agree exactly if the disk can catch up.** -/
theorem rebuildsAlike_iff (hx : d.settings.exactlyOnce = false)
    (hkept : (w.broker.changelog p).LastKept) :
    RebuildsAlike d groupId w p ↔ OnDisk w.store w.broker p := by
  constructor
  · intro h c hc
    obtain ⟨T, hT⟩ := h {} { broker := w.broker, store := w.store } rfl rfl rfl ⟨rfl, fun _ => rfl⟩ rfl
    have hsound : Sound {} { broker := w.broker, store := w.store } := ⟨rfl, fun _ => rfl⟩
    have hfull : wp (LocalStateStore.restore (d.rebuilding .full) groupId {} [p]) _ _ _ :=
      wp_restore_returns (rebuilding_stateRebuild hx .full) hsound rfl hkept
    have hdelta : wp (LocalStateStore.restore (d.rebuilding .checkpoint) groupId {} [p]) _ _ _ :=
      wp_restore_complete hsound rfl hkept
    rw [replay_delta_of_checkpoint (rebuilding_stateRebuild hx .checkpoint) hc] at hdelta
    exact (wp_unique hdelta (hT .checkpoint)).trans (wp_unique (hT .full) hfull)
  · intro h env u hbroker hdisk hcheckpoint hsound hreader
    have htable : u.store.table p = w.store.table p := by
      unfold LocalStore.table
      rw [hdisk]
    have hdisk' : OnDisk u.store u.broker p := h.congr (by rw [hcheckpoint]) htable (by rw [hbroker])
    refine ⟨(u.broker.changelog p).table, fun rebuild => ?_⟩
    rw [← replay_delta (d.rebuilding rebuild) hdisk']
    exact wp_restore_complete hsound hreader (hbroker ▸ hkept)

/-! ## Holding a partition in turn -/

/-- What a member keeps to that holds each partition in turn with the others: a hold begins with a
restore, its writes are of the partition's orders and acknowledged, and it ends with `forget`. Others
append only between the holds; the cleaner may come at any time and keeps the last record. -/
def DiskOp.InTurn (d : Deployment) (w : World) (l : Env × DiskOp) : Prop :=
  match l.2 with
  | .start => w.store.stores = []
  | .restore _ ps => ∀ p ∈ ps, p ∉ w.store.stores
  | .load p _ => p ∈ w.store.stores
  | .save p k _ _ | .delete p k => p ∈ w.store.stores ∧ d.partitionOf k = p ∧ l.1.fate = none
  | .flush => True
  | .forget ps => ∀ p ∈ ps, entriesOn p (unreported w.producer.queue l.1.servedByFlush) = []
  | .close => ∀ p ∈ w.store.stores,
    entriesOn p (unreported w.producer.queue l.1.servedByFlush) = []
  | .discard _ => False
  | .others p _ => p ∉ w.store.stores
  | .clean p log => Compacted (w.broker.changelog p) log ∧ log.LastKept

/-- The cleaner keeps a record at or above the checkpoint of each deleted order that a partition not
held still has on this disk. -/
def DiskOp.KeepsDeleted (w : World) (l : Env × DiskOp) : Prop :=
  match l.2 with
  | .clean p log => p ∉ w.store.stores → ∀ c, w.store.checkpoint p = some c →
    ∀ k, w.store.table p k ≠ none → (w.broker.changelog p).table k = none →
      ∃ r ∈ log.records, c ≤ r.offset ∧ r.key = k
  | _ => True

/-- A held partition has what was written to its changelog, and nothing is on its way to the changelog
of another. -/
structure Handed (T : String) (s : LocalStore) (b : Broker) (p : ProducerState) : Prop where
  txn_eq : p.txn = none
  foldsOn : FoldsOn T p.queue
  held : ∀ i ∈ s.stores, s.table i = replay (fun _ => none) (written b p i)
  idle : ∀ i, i ∉ s.stores → entriesOn i p.queue = []
  position_le : PositionsBelow s b
  checkpoint_le : ∀ i c, s.checkpoint i = some c → c ≤ (b.changelog i).high
  kept : ∀ i, (b.changelog i).LastKept

/-- `b'` has the logs of `b` with something appended, on idle partitions nothing. -/
def Appended (idle : Nat → Prop) (b b' : Broker) : Prop :=
  ∀ i, ∃ es, b'.changelog i = es.foldl KeyedLog.append (b.changelog i) ∧ (idle i → es = [])

section

variable {T : String} {s s' : LocalStore} {b b' : Broker} {q q' : ProducerState} {i : Nat}

theorem served_idle {rs : List Queued} (h : Served b q rs b' q')
    (hidle : entriesOn i q.queue = []) : entriesOn i rs = [] ∧ entriesOn i q'.queue = [] := by
  have hnone : ∀ r ∈ q.queue, r.entryOn i = none := by
    simpa [entriesOn, List.filterMap_eq_nil_iff] using hidle
  constructor
  · exact List.filterMap_eq_nil_iff.2 fun r hr => hnone r (h.reports_mem r hr)
  · exact List.filterMap_eq_nil_iff.2 fun r hr => hnone r (h.sublist.subset hr)

theorem appended_of_served {rs : List Queued} (h : Served b q rs b' q') :
    Appended (fun i => entriesOn i q.queue = []) b b' := by
  intro i
  refine ⟨_, h.changelog_eq i, fun hidle => ?_⟩
  exact List.sublist_nil.1 ((served_idle h hidle).1 ▸ entriesOn_sublist List.filter_sublist)

section

variable {idle idle' : Nat → Prop}

theorem Appended.trans {b₁ : Broker} (h : Appended idle b b₁) (h' : Appended idle' b₁ b') :
    Appended (fun i => idle i ∧ idle' i) b b' := by
  intro i
  obtain ⟨es, hes, hnone⟩ := h i
  obtain ⟨es', hes', hnone'⟩ := h' i
  refine ⟨es ++ es', by rw [List.foldl_append, ← hes, hes'], fun hi => ?_⟩
  rw [hnone hi.1, hnone' hi.2]
  rfl

theorem Appended.changelog_eq (h : Appended idle b b') (hidle : idle i) :
    b'.changelog i = b.changelog i := by
  obtain ⟨es, hes, hnone⟩ := h i
  rw [hes, hnone hidle]
  rfl

theorem Appended.checkpoint_le (h : Appended idle b b') {c : Nat} (hc : c ≤ (b.changelog i).high) :
    c ≤ (b'.changelog i).high := by
  obtain ⟨es, hes, -⟩ := h i
  rw [hes]
  exact Nat.le_trans hc (high_le_appends _ es)

theorem Appended.kept (h : Appended idle b b') (hkept : (b.changelog i).LastKept) :
    (b'.changelog i).LastKept := by
  obtain ⟨es, hes, -⟩ := h i
  rw [hes]
  exact hkept.appends es

end

/-- A publication leaves the other idle partitions idle. -/
theorem Published.appended {r : Queued} {calls : List Call} (h : Published d r b q b' q' calls) :
    Appended (fun i => entriesOn i q.queue = [] ∧ entriesOn i [r] = []) b b' ∧
      ∀ i, entriesOn i q.queue = [] → entriesOn i [r] = [] → entriesOn i q'.queue = [] := by
  obtain ⟨rs₁, b₁, q₁, rs₂, h₁, -, h₂⟩ := h.served
  have hqueue : ∀ i, entriesOn i q.queue = [] → entriesOn i [r] = [] →
      entriesOn i (q₁.enqueue r).queue = [] := by
    intro i hi hr
    have h₁i := (served_idle h₁ hi).2
    rw [ProducerState.queue_enqueue]
    split
    · exact h₁i
    · rw [entriesOn_append, h₁i, hr]
      rfl
  refine ⟨fun i => ?_, fun i hi hr => (served_idle h₂ (hqueue i hi hr)).2⟩
  obtain ⟨es, hes, hnone⟩ := (appended_of_served h₁).trans (appended_of_served h₂) i
  exact ⟨es, hes, fun hi => hnone ⟨hi.1, hqueue i hi.1 hi.2⟩⟩

theorem Handed.served {rs : List Queued} (h : Handed T s b q) (hs : Served b q rs b' q')
    (hstores : ∀ j, j ∈ s'.stores ↔ j ∈ s.stores) (htable : ∀ j, s'.table j = s.table j)
    (hcheckpoint : s'.checkpoint = s.checkpoint) (hposition : PositionsBelow s' b') :
    Handed T s' b' q' where
  txn_eq := hs.txn_eq.trans h.txn_eq
  foldsOn := hs.foldsOn h.foldsOn
  held j hj := by
    rw [htable, hs.written h.foldsOn, h.held j ((hstores j).1 hj)]
  idle j hj := (served_idle hs (h.idle j (mt (hstores j).2 hj))).2
  position_le := hposition
  checkpoint_le j c hc := (appended_of_served hs).checkpoint_le (h.checkpoint_le j c (hcheckpoint ▸ hc))
  kept j := (appended_of_served hs).kept (h.kept j)

/-- One write of a held partition. -/
theorem Handed.wrote {k : String} {v : Option Row} {handling : MessageId} {calls : List Call}
    (h : Handed (LocalStateStore.topic d groupId) s b q) (hi : i ∈ s.stores) (hk : d.partitionOf k = i)
    (hfate : env.fate = none) (hs : Wrote i k v s s')
    (hp : Published d (LocalStateStore.changelogRecord d groupId env handling k v) b q b' q' calls)
    (hcheckpoint : s'.checkpoint = s.checkpoint) (hposition : PositionsBelow s' b') :
    Handed (LocalStateStore.topic d groupId) s' b' q' := by
  have hstores : ∀ j, j ∈ s'.stores ↔ j ∈ s.stores := fun j => by
    rw [hs.mem_stores]
    exact or_iff_right_of_imp fun hj => hj ▸ hi
  obtain ⟨hfolds, hwritten⟩ := hp.written h.foldsOn fun _ => ⟨rfl, hfate⟩
  obtain ⟨happended, hidle⟩ := hp.appended
  refine ⟨?_, hfolds, fun j hj => ?_, fun j hj => ?_, hposition, fun j c hc => ?_, fun j =>
    happended.kept (h.kept j)⟩
  · rw [hp.txn_eq, h.txn_eq]
    rfl
  · rw [hwritten, entriesOn_changelogRecord]
    obtain rfl | hne := eq_or_ne j i
    · rw [if_pos hk, replay_concat, hs.table_eq, h.held j hi]
    · rw [if_neg (fun he => hne (he.symm.trans hk)), List.append_nil, hs.table_ne j hne,
        h.held j ((hstores j).1 hj)]
  · have hclosed := mt (hstores j).2 hj
    refine hidle j (h.idle j hclosed) ?_
    rw [entriesOn_changelogRecord, if_neg]
    intro he
    exact hclosed (he.symm.trans hk ▸ hi)
  · exact happended.checkpoint_le (h.checkpoint_le j c (hcheckpoint ▸ hc))

end

/-! ## One operation -/

/-- The invariant, and a disk that can catch up with every partition not held. -/
structure HeldInTurn (T : String) (w : World) : Prop where
  handed : Handed T w.store w.broker w.producer
  onDisk : ∀ i, i ∉ w.store.stores → OnDisk w.store w.broker i

variable {k : String} {T : String}

/-- Delivery reports are of held partitions only. -/
theorem HeldInTurn.served {rs : List Queued} {t : World} (h : HeldInTurn T w)
    (hs : Served w.broker w.producer rs t.broker t.producer)
    (hstores : ∀ j, j ∈ t.store.stores ↔ j ∈ w.store.stores)
    (htable : ∀ j, t.store.table j = w.store.table j)
    (hcheckpoint : t.store.checkpoint = w.store.checkpoint)
    (hposition : PositionsBelow t.store t.broker) : HeldInTurn T t where
  handed := h.handed.served hs hstores htable hcheckpoint hposition
  onDisk i hi := by
    have hclosed := mt (hstores i).2 hi
    refine (h.onDisk i hclosed).congr (by rw [hcheckpoint]) (htable i) ?_
    exact (appended_of_served hs).changelog_eq (h.handed.idle i hclosed)

/-- A store is closed once nothing of it is on its way. -/
theorem HeldInTurn.shut {s : LocalStore} (h : HeldInTurn T w) (hs : Shut p w.store s)
    (hidle : entriesOn p w.producer.queue = []) (n : Option Nat) :
    HeldInTurn T { w with store := s, crashIn := n } where
  handed := by
    obtain ⟨htxn, hfolds, hheld, hothers, hposition, hcheckpoint, hkept⟩ := h.handed
    refine ⟨htxn, hfolds, fun i hi => ?_, fun i hi => ?_, ?_, fun i c hc => ?_, hkept⟩
    · rw [hs.table_eq]
      exact hheld i ((hs.mem_stores i).1 hi).2
    · obtain rfl | hne := eq_or_ne i p
      · exact hidle
      · exact hothers i fun hopen => hi ((hs.mem_stores i).2 ⟨hne, hopen⟩)
    · intro i m hm
      rw [hs.position_eq] at hm
      exact hposition i m hm
    · obtain heq | ⟨m, -, hm, heq⟩ := hs.checkpoint_eq
      · exact hcheckpoint i c (heq ▸ hc)
      · rw [heq] at hc
        obtain rfl | hne := eq_or_ne i p
        · rw [Function.update_self] at hc
          cases hc
          exact hposition i _ hm
        · rw [Function.update_of_ne hne] at hc
          exact hcheckpoint i c hc
  onDisk i hi := by
    obtain rfl | hne := eq_or_ne i p
    · by_cases hopen : i ∈ w.store.stores
      · -- the held table is the log's, from which any checkpoint catches up
        have htable : s.table i = (w.broker.changelog i).table := by
          rw [hs.table_eq, h.handed.held i hopen]
          unfold written ProducerState.records
          rw [h.handed.txn_eq, entriesOn_append, hidle]
          simp only [Option.map_none, Option.getD_none, entriesOn_nil, List.append_nil]
          rfl
        intro c _
        change (w.broker.changelog i).CatchesUp (s.table i) c
        rw [htable]
        exact catchesUp_table _ c
      · refine (h.onDisk i hopen).congr ?_ (by rw [hs.table_eq]) rfl
        obtain heq | ⟨m, hopen', -⟩ := hs.checkpoint_eq
        · exact congrFun heq i
        · exact absurd hopen' hopen
    · have hclosed : i ∉ w.store.stores := fun hopen => hi ((hs.mem_stores i).2 ⟨hne, hopen⟩)
      refine (h.onDisk i hclosed).congr ?_ (by rw [hs.table_eq]) rfl
      obtain heq | ⟨m, -, -, heq⟩ := hs.checkpoint_eq
      · exact congrFun heq i
      · change s.checkpoint i = _
        rw [heq, Function.update_of_ne hne]

/-- A partition that was not held is rebuilt and held. -/
theorem HeldInTurn.restored {s : LocalStore} (h : HeldInTurn T w) (hp : p ∉ w.store.stores)
    (hopen : p ∈ s.stores) (hs : Rebuilding p (keptTable d w.store p)
      (delta d w.store p (w.broker.changelog p)) w.store s) (n : Option Nat) :
    HeldInTurn T { w with
      store := { s with position := Function.update s.position p (some (w.broker.changelog p).high) }
      crashIn := n } := by
  have hmem : ∀ i, i ∈ s.stores ↔ i = p ∨ i ∈ w.store.stores := by
    intro i
    obtain rfl | hne := eq_or_ne i p
    · exact iff_of_true hopen (.inl rfl)
    · exact (hs.mem_stores i hne).trans (or_iff_right hne).symm
  refine ⟨⟨h.handed.txn_eq, h.handed.foldsOn, fun i hi => ?_, fun i hi => ?_, fun i m hm => ?_,
    fun i c hc => ?_, h.handed.kept⟩, fun i hi => ?_⟩
  · obtain rfl | hne := eq_or_ne i p
    · have hwritten : written w.broker w.producer i = (w.broker.changelog i).entries := by
        unfold written ProducerState.records
        rw [h.handed.txn_eq, entriesOn_append, h.handed.idle i hp]
        simp
      change s.table i = replay _ (written w.broker w.producer i)
      rw [hwritten, hs.table_eq, replay_delta d (h.onDisk i hp)]
      rfl
    · change s.table i = _
      rw [hs.table_ne i hne]
      exact h.handed.held i (((hmem i).1 hi).resolve_left hne)
  · exact h.handed.idle i fun hopen => hi ((hmem i).2 (.inr hopen))
  · change Function.update s.position p _ i = some m at hm
    obtain rfl | hne := eq_or_ne i p
    · rw [Function.update_self] at hm
      cases hm
      exact Nat.le_refl _
    · rw [Function.update_of_ne hne, hs.position_eq] at hm
      exact h.handed.position_le i m hm
  · change s.checkpoint i = some c at hc
    rw [hs.checkpoint_eq] at hc
    exact h.handed.checkpoint_le i c hc
  · have hne : i ≠ p := fun he => hi ((hmem i).2 (.inl he))
    have hclosed : i ∉ w.store.stores := fun hopen => hi ((hmem i).2 (.inr hopen))
    exact (h.onDisk i hclosed).congr (congrFun hs.checkpoint_eq i) (hs.table_ne i hne) rfl

/-- A write to a held partition leaves the others as they are. -/
theorem HeldInTurn.wrote {v : Option Row} {handling : MessageId} {calls : List Call} {t : World}
    (h : HeldInTurn (LocalStateStore.topic d groupId) w) (hp : p ∈ w.store.stores)
    (hk : d.partitionOf k = p) (hfate : env.fate = none) (hs : Wrote p k v w.store t.store)
    (hq : Published d (LocalStateStore.changelogRecord d groupId env handling k v) w.broker w.producer
      t.broker t.producer calls)
    (hcheckpoint : t.store.checkpoint = w.store.checkpoint)
    (hposition : PositionsBelow t.store t.broker) :
    HeldInTurn (LocalStateStore.topic d groupId) t where
  handed := h.handed.wrote hp hk hfate hs hq hcheckpoint hposition
  onDisk i hi := by
    have hclosed : i ∉ w.store.stores := fun hopen => hi ((hs.mem_stores i).2 (.inr hopen))
    have hne : i ≠ p := fun he => hclosed (he ▸ hp)
    refine (h.onDisk i hclosed).congr (by rw [hcheckpoint]) (hs.table_ne i hne) ?_
    refine hq.appended.1.changelog_eq ⟨h.handed.idle i hclosed, ?_⟩
    rw [entriesOn_changelogRecord, if_neg (fun he => hne (he.symm.trans hk))]

theorem positionsBelow_checkpoint_stable (c : Nat → Option Nat) :
    Stable fun w => PositionsBelow w.store w.broker ∧ w.store.checkpoint = c :=
  stable_positionsBelow.and (stable_checkpoint c)

theorem PositionsBelow.put {v : Option Row} {s s' : LocalStore} {b : Broker}
    (h : PositionsBelow s b) (hs : Put p k v s s') : PositionsBelow s' b := by
  intro i n hn
  rw [hs.position_eq] at hn
  exact h i n hn

theorem wp_save_inTurn {fold : OrderFold} {eventId : String}
    (h : HeldInTurn (LocalStateStore.topic d groupId) w) (hp : p ∈ w.store.stores)
    (hk : d.partitionOf k = p) (hfate : env.fate = none) :
    wp (LocalStateStore.save d groupId env p k fold eventId)
      (fun _ => HeldInTurn (LocalStateStore.topic d groupId)) (fun _ _ => True) w := by
  have hexact : wp (LocalStateStore.save d groupId env p k fold eventId)
      (fun _ t => Wrote p k (some (Row.next k (w.store.table p k) fold eventId)) w.store t.store ∧
        ∃ handling calls, Published d (LocalStateStore.changelogRecord d groupId env handling k
          (some (Row.next k (w.store.table p k) fold eventId))) w.broker w.producer t.broker t.producer
            calls) (fun _ _ => True) w :=
    wp_save rfl rfl (fun _ _ _ _ _ _ _ => trivial) (fun _ _ _ _ _ _ => trivial)
      fun _ _ _ _ _ calls hs hq => ⟨hs, _, calls, hq⟩
  have hstable : wp (LocalStateStore.save d groupId env p k fold eventId)
      (fun _ t => PositionsBelow t.store t.broker ∧ t.store.checkpoint = w.store.checkpoint)
      (fun _ _ => True) w :=
    (positionsBelow_checkpoint_stable _).save rfl (fun _ _ => trivial) (fun _ _ _ _ => trivial)
      (fun n s hs => ⟨h.handed.position_le.put hs, hs.checkpoint_eq⟩) (fun _ hI _ => hI)
      fun _ _ _ => trivial
  refine wp_mono (wp_and hexact hstable) (fun _ t ht => ?_) fun _ _ _ => trivial
  obtain ⟨⟨hs, handling, calls, hq⟩, hposition, hcheckpoint⟩ := ht
  exact h.wrote hp hk hfate hs hq hcheckpoint hposition

theorem wp_delete_inTurn
    (h : HeldInTurn (LocalStateStore.topic d groupId) w) (hp : p ∈ w.store.stores)
    (hk : d.partitionOf k = p) (hfate : env.fate = none) :
    wp (LocalStateStore.delete d groupId env p k)
      (fun _ => HeldInTurn (LocalStateStore.topic d groupId)) (fun _ _ => True) w := by
  have hexact : wp (LocalStateStore.delete d groupId env p k)
      (fun _ t => Wrote p k none w.store t.store ∧
        ∃ handling calls, Published d (LocalStateStore.changelogRecord d groupId env handling k none)
          w.broker w.producer t.broker t.producer calls) (fun _ _ => True) w :=
    wp_delete rfl (fun _ _ _ _ _ _ _ => trivial) (fun _ _ _ _ _ _ => trivial)
      fun _ _ _ _ calls hs hq _ => ⟨hs, _, calls, hq⟩
  have hstable : wp (LocalStateStore.delete d groupId env p k)
      (fun _ t => PositionsBelow t.store t.broker ∧ t.store.checkpoint = w.store.checkpoint)
      (fun _ _ => True) w :=
    (positionsBelow_checkpoint_stable _).delete (fun _ _ => trivial) (fun _ _ _ _ => trivial)
      (fun n s hs => ⟨h.handed.position_le.put hs, hs.checkpoint_eq⟩) (fun _ hI _ => hI)
      fun _ _ _ => trivial
  refine wp_mono (wp_and hexact hstable) (fun _ t ht => ?_) fun _ _ _ => trivial
  obtain ⟨⟨hs, handling, calls, hq⟩, hposition, hcheckpoint⟩ := ht
  exact h.wrote hp hk hfate hs hq hcheckpoint hposition

theorem wp_load_inTurn (h : HeldInTurn T w) (hp : p ∈ w.store.stores) :
    wp (LocalStateStore.load d groupId env p k) (fun _ => HeldInTurn T) (fun _ _ => True) w := by
  refine wp_load (fun _ _ _ => trivial) fun n s hs => ?_
  refine h.served (.refl _ _) (fun j => ?_) hs.table_eq hs.checkpoint_eq fun i m hm => ?_
  · rw [hs.mem_stores]
    exact or_iff_right_of_imp fun hj => hj ▸ hp
  · rw [hs.position_eq] at hm
    exact h.handed.position_le i m hm

theorem wp_flush_inTurn (h : HeldInTurn T w) (lanes : List TopicPartition) :
    wp (OrderService.flush lanes) (fun _ t => HeldInTurn T t ∧ t.store.stores = w.store.stores ∧
      t.producer.queue = unreported w.producer.queue lanes) (fun _ _ => True) w := by
  have hexact : wp (OrderService.flush lanes) (fun _ t => ∃ rs, Served w.broker w.producer rs
      t.broker t.producer ∧ t.producer.queue = unreported w.producer.queue lanes ∧
      t.store.stores = w.store.stores ∧ t.store.disk = w.store.disk) (fun _ _ => True) w :=
    wp_flush trivial fun n rs b q pos hs hqueue => ⟨rs, hs, hqueue, rfl, rfl⟩
  have hstable := (positionsBelow_checkpoint_stable w.store.checkpoint).flush
    ⟨h.handed.position_le, rfl⟩ lanes
  refine wp_mono (wp_and hexact hstable) (fun _ t ht => ?_) fun _ _ _ => trivial
  obtain ⟨⟨rs, hs, hqueue, hstores, hdisk⟩, hposition, hcheckpoint⟩ := ht
  refine ⟨h.served hs (fun j => by rw [hstores]) (fun j => ?_) hcheckpoint hposition, hstores, hqueue⟩
  unfold LocalStore.table
  rw [hdisk]

theorem wp_forget_inTurn {ps : List Nat} (h : HeldInTurn T w)
    (hacked : ∀ p ∈ ps, entriesOn p (unreported w.producer.queue env.servedByFlush) = []) :
    wp (LocalStateStore.forget env ps) (fun _ => HeldInTurn T) (fun _ _ => True) w := by
  unfold LocalStateStore.forget
  split
  · exact h
  · rw [wp_bind]
    refine wp_mono (wp_flush_inTurn h _) (fun _ t ht => ?_) fun _ _ _ => trivial
    obtain ⟨ht, -, hqueue⟩ := ht
    have hall : wp ((sortedSet ps).forM (LocalStateStore.forgetOne env))
        (fun _ u => HeldInTurn T u ∧ u.producer = t.producer) (fun _ _ => True) t := by
      refine wp_forM ⟨ht, rfl⟩ fun i hi u hu => ?_
      obtain ⟨hu, hproducer⟩ := hu
      refine wp_forgetOne_each (fun n s hs => ⟨hu.shut hs ?_ n, hproducer⟩) fun _ _ => trivial
      rw [hproducer, hqueue]
      exact hacked i (mem_sortedSet.1 hi)
    exact wp_mono hall (fun _ _ hu => hu.1) fun _ _ _ => trivial

theorem wp_restore_inTurn {ps : List Nat} (h : HeldInTurn T w) (hps : ∀ p ∈ ps, p ∉ w.store.stores) :
    wp (LocalStateStore.restore d groupId env ps) (fun _ => HeldInTurn T) (fun _ _ => True) w := by
  simp only [LocalStateStore.restore, wp_bind, wp_record]
  have hall : wp ((sortedSet ps).forM (LocalStateStore.restoreOne d groupId env))
      (fun _ t => HeldInTurn T t ∧ ∀ i, i ∈ t.store.stores → i ∈ sortedSet ps ∨ i ∈ w.store.stores)
      (fun _ _ => True) { w with trace := w.trace ++ [.restore ps] } := by
    refine wp_forM_prefix (I := fun pre t => HeldInTurn T t ∧
        ∀ i, i ∈ t.store.stores → i ∈ pre ∨ i ∈ w.store.stores)
      ⟨⟨h.handed, h.onDisk⟩, fun i hi => .inr hi⟩ fun pre p post hsplit t ht => ?_
    obtain ⟨ht, hstores⟩ := ht
    obtain ⟨hmem, hnot⟩ := sortedSet_next hsplit
    have hclosed : p ∉ t.store.stores := by
      intro hp
      obtain hpre | hheld := hstores p hp
      · exact hnot hpre
      · exact hps p hmem hheld
    refine wp_restoreOne_each (fun _ _ _ _ => trivial) (fun _ _ _ _ _ _ _ => trivial) ?_
    intro n s hopen hs
    refine ⟨ht.restored hclosed hopen hs n, fun i hi => ?_⟩
    change i ∈ s.stores at hi
    rw [List.mem_append, List.mem_singleton]
    obtain rfl | hne := eq_or_ne i p
    · exact .inl (.inr rfl)
    · exact (hstores i ((hs.mem_stores i hne).1 hi)).imp_left .inl
  exact wp_mono hall (fun _ _ ht => ht.1) fun _ _ _ => trivial

/-- A new process, once everything is handed back. -/
theorem HeldInTurn.restart (h : HeldInTurn T w) (hstores : w.store.stores = []) :
    HeldInTurn T (ServiceConsumer.restart w) where
  handed := by
    refine ⟨rfl, fun q hq => ?_, fun i hi => ?_, fun _ _ => rfl, fun i n hn => ?_,
      h.handed.checkpoint_le, h.handed.kept⟩
    · cases hq
    · cases hi
    · cases hn
  onDisk i _ := h.onDisk i (by rw [hstores]; exact List.not_mem_nil)

/-- Records of another member's hold. -/
theorem HeldInTurn.others (h : HeldInTurn T w) (hp : p ∉ w.store.stores)
    (es : List (Entry String Row)) :
    HeldInTurn T (w.setLog p (es.foldl KeyedLog.append (w.broker.changelog p))) := by
  have hlog : ∀ i, (w.setLog p (es.foldl KeyedLog.append (w.broker.changelog p))).broker.changelog i =
      if i = p then es.foldl KeyedLog.append (w.broker.changelog p) else w.broker.changelog i := by
    intro i
    exact Function.update_apply _ _ _ _
  have hhigh : ∀ i, (w.broker.changelog i).high ≤
      ((w.setLog p (es.foldl KeyedLog.append (w.broker.changelog p))).broker.changelog i).high := by
    intro i
    rw [hlog]
    split
    · subst i
      exact high_le_appends _ es
    · exact Nat.le_refl _
  refine ⟨⟨h.handed.txn_eq, h.handed.foldsOn, fun i hi => ?_, h.handed.idle, fun i n hn => ?_,
    fun i c hc => ?_, fun i => ?_⟩, fun i hi => ?_⟩
  · have hne : i ≠ p := fun he => hp (he ▸ hi)
    rw [written, hlog, if_neg hne]
    exact h.handed.held i hi
  · exact Nat.le_trans (h.handed.position_le i n hn) (hhigh i)
  · exact Nat.le_trans (h.handed.checkpoint_le i c hc) (hhigh i)
  · rw [hlog]
    split
    · exact (h.handed.kept p).appends es
    · exact h.handed.kept i
  · intro c hc
    rw [hlog]
    split
    · subst i
      exact (h.onDisk p hp c hc).appends es (h.handed.checkpoint_le p c hc)
    · exact h.onDisk i hi c hc

/-- A compacted log changes nothing that is held; a disk of a partition that is not held stays one that
catches up exactly if the deleted orders it still has kept a record. -/
theorem HeldInTurn.clean (env : Env) (h : HeldInTurn T w) {log : KeyedLog String Row}
    (hlog : Compacted (w.broker.changelog p) log) (hkept : log.LastKept) :
    Handed T w.store (w.setLog p log).broker w.producer ∧
      ((∀ i, i ∉ w.store.stores → OnDisk w.store (w.setLog p log).broker i) ↔
        DiskOp.KeepsDeleted w (env, .clean p log)) := by
  have heq : ∀ i, (w.setLog p log).broker.changelog i =
      if i = p then log else w.broker.changelog i := fun i => Function.update_apply _ _ _ _
  have hhigh : ∀ i, ((w.setLog p log).broker.changelog i).high = (w.broker.changelog i).high := by
    intro i
    rw [heq]
    split
    · subst i
      exact hlog.high_eq
    · rfl
  have htable : ∀ i, replay (fun _ => none) ((w.setLog p log).broker.changelog i).entries =
      replay (fun _ => none) (w.broker.changelog i).entries := by
    intro i
    rw [heq]
    split
    · subst i
      exact hlog.table_eq
    · rfl
  refine ⟨⟨h.handed.txn_eq, h.handed.foldsOn, fun i hi => ?_, h.handed.idle, fun i n hn => ?_,
    fun i c hc => ?_, fun i => ?_⟩, ?_⟩
  · rw [written, replay_append, htable, ← replay_append]
    exact h.handed.held i hi
  · rw [hhigh]
    exact h.handed.position_le i n hn
  · rw [hhigh]
    exact h.handed.checkpoint_le i c hc
  · rw [heq]
    split
    · exact hkept
    · exact h.handed.kept i
  · constructor
    · intro hdisk hp c hc
      have hcatches := hdisk p hp c hc
      rw [heq, if_pos rfl] at hcatches
      exact (hlog.catchesUp_iff (h.onDisk p hp c hc)).1 hcatches
    · intro hkeeps i hi c hc
      rw [heq]
      split
      · subst i
        exact (hlog.catchesUp_iff (h.onDisk p hi c hc)).2 (hkeeps hi c hc)
      · exact h.onDisk i hi c hc

/-- **One operation** keeps the invariant, and keeps the disk one that catches up exactly if the cleaner
keeps what it has to. -/
theorem wp_call_inTurn (l : Env × DiskOp) (h : HeldInTurn (LocalStateStore.topic d groupId) w)
    (hl : DiskOp.InTurn d w l) :
    wp (DiskOp.call d groupId l) (fun _ t =>
      Handed (LocalStateStore.topic d groupId) t.store t.broker t.producer ∧
        ((∀ i, i ∉ t.store.stores → OnDisk t.store t.broker i) ↔ DiskOp.KeepsDeleted w l))
      (fun _ _ => True) w := by
  obtain ⟨env, op⟩ := l
  have h' : HeldInTurn (LocalStateStore.topic d groupId) { w with crashIn := env.crashIn } :=
    ⟨h.handed, h.onDisk⟩
  have hkeep : ∀ {x : M Unit}, DiskOp.KeepsDeleted w (env, op) →
      wp x (fun _ => HeldInTurn (LocalStateStore.topic d groupId)) (fun _ _ => True)
        { w with crashIn := env.crashIn } →
      wp x (fun _ t => Handed (LocalStateStore.topic d groupId) t.store t.broker t.producer ∧
        ((∀ i, i ∉ t.store.stores → OnDisk t.store t.broker i) ↔ DiskOp.KeepsDeleted w (env, op)))
        (fun _ _ => True) { w with crashIn := env.crashIn } := fun hk hx =>
    wp_mono hx (fun _ t ht => ⟨ht.handed, iff_of_true ht.onDisk hk⟩) fun _ _ _ => trivial
  simp only [DiskOp.call, wp_bind, wp_modify]
  cases op with
  | start => exact hkeep trivial (h'.restart hl)
  | restore rebuild ps => exact hkeep trivial (wp_restore_inTurn h' hl)
  | load p k =>
    refine hkeep trivial ?_
    simp only [DiskOp.run, wp_bind, wp_pure]
    exact wp_load_inTurn h' hl
  | save p k fold eventId =>
    refine hkeep trivial ?_
    simp only [DiskOp.run, wp_bind, wp_pure]
    exact wp_save_inTurn h' hl.1 hl.2.1 hl.2.2
  | delete p k =>
    refine hkeep trivial ?_
    simp only [DiskOp.run, wp_bind, wp_pure]
    exact wp_delete_inTurn h' hl.1 hl.2.1 hl.2.2
  | flush =>
    refine hkeep trivial ?_
    simp only [DiskOp.run, LocalStateStore.flush, wp_bind]
    refine wp_mono (wp_flush_inTurn h' _) (fun _ t ht => ?_) fun _ _ _ => trivial
    rw [wp_ite]
    exact ⟨fun _ => trivial, fun _ => ht.1⟩
  | forget ps => exact hkeep trivial (wp_forget_inTurn h' hl)
  | discard ps => exact hl.elim
  | close =>
    refine hkeep trivial ?_
    simp only [DiskOp.run, LocalStateStore.close, wp_bind, wp_get]
    exact wp_forget_inTurn h' hl
  | others p es => exact hkeep trivial (h'.others hl es)
  | clean p log => exact h'.clean env hl.1 hl.2

/-! ## Runs -/

/-- A process whose store was never used, on logs that kept their last records. -/
structure Fresh (w : World) : Prop where
  store_eq : w.store = {}
  producer_eq : w.producer = {}
  kept : ∀ p, (w.broker.changelog p).LastKept

theorem Fresh.handed (h : Fresh w) (T : String) : Handed T w.store w.broker w.producer := by
  rw [h.store_eq, h.producer_eq]
  refine ⟨rfl, fun q hq => ?_, fun i hi => ?_, fun _ _ => rfl, fun i n hn => ?_, fun i c hc => ?_, h.kept⟩
  · cases hq
  · cases hi
  · cases hn
  · cases hc

/-- **Checkpoint rebuilds agree with full rebuilds** on every partition that is not held, throughout a
run that holds each in turn, exactly if the cleaner keeps, of the deleted orders that the store on disk
still has, a record at or above its checkpoint. -/
theorem rebuilds_agree_iff (d : Deployment) (groupId : String) (ls : List (Env × DiskOp)) (w t : World)
    (hx : d.settings.exactlyOnce = false) (hw : Fresh w)
    (hl : Along (DiskOp.call d groupId) (DiskOp.InTurn d) ls w)
    (hrun : (ls.forM (DiskOp.call d groupId)).exec w = (.ok ⟨⟩, t)) :
    Throughout (DiskOp.call d groupId)
        (fun w => ∀ p, p ∉ w.store.stores → RebuildsAlike d groupId w p) ls w ↔
      Along (DiskOp.call d groupId) DiskOp.KeepsDeleted ls w := by
  let I : World → Prop := fun w => Handed (LocalStateStore.topic d groupId) w.store w.broker w.producer
  have hproperty : ∀ w, I w → ((∀ p, p ∉ w.store.stores → RebuildsAlike d groupId w p) ↔
      ∀ p, p ∉ w.store.stores → OnDisk w.store w.broker p) := fun w hI =>
    forall_congr' fun p => imp_congr_right fun _ => rebuildsAlike_iff hx (hI.kept p)
  have hcall : ∀ w l, I w → (∀ p, p ∉ w.store.stores → RebuildsAlike d groupId w p) →
      DiskOp.InTurn d w l → wp (DiskOp.call d groupId l) (fun _ t => I t ∧
        ((∀ p, p ∉ t.store.stores → OnDisk t.store t.broker p) ↔ DiskOp.KeepsDeleted w l))
        (fun _ _ => True) w := fun w l hI hP hl =>
    wp_call_inTurn l ⟨hI, (hproperty w hI).1 hP⟩ hl
  refine throughout_iff_along_of_invariant (I := I) (E := fun _ _ => True) (fun w l hI hP hl => ?_)
    (fun w l t hI hP hl ht => ?_) (hw.handed _) (fun p _ => ?_) hl hrun
  · exact wp_mono (hcall w l hI hP hl) (fun _ _ ht => ht.1) fun _ _ he => he
  · obtain ⟨hIt, hiff⟩ := exec_of_wp (hcall w l hI hP hl) ht
    exact (hproperty t hIt).trans hiff
  · refine (rebuildsAlike_iff hx (hw.kept p)).2 fun c hc => ?_
    rw [hw.store_eq] at hc
    cases hc

/-! ## An order deleted during another member's hold -/

def oneStore : Deployment := .onePartition {} fun _ => .invalid ""

/-- A log that holds the order `o`. -/
def foldedLog : KeyedLog String Row := KeyedLog.empty.append ("o", some ⟨1, some .created, "e1", 1⟩)

def foldedWorld : World := { broker := { changelog := fun _ => foldedLog } }

/-- A member rebuilds the partition and hands it back; another one deletes `o` and folds `o2`; then the
cleaner comes. -/
def deletedElsewhere (log : KeyedLog String Row) : List (Env × DiskOp) :=
  [({}, .restore .full [0]), ({}, .forget [0]),
    ({}, .others 0 [("o", none), ("o2", some ⟨1, some .created, "e2", 1⟩)]), ({}, .clean 0 log)]

def deletedLog : KeyedLog String Row :=
  (foldedLog.append ("o", none)).append ("o2", some ⟨1, some .created, "e2", 1⟩)

/-- The deletion is kept. -/
def deletionKept : KeyedLog String Row where
  low := 0
  high := 3
  records := [⟨1, "o", none⟩, ⟨2, "o2", some ⟨1, some .created, "e2", 1⟩⟩]
  low_le := by decide
  sorted := by simp
  bounded := by simp

/-- The deletion went once the row it superseded had. -/
def deletionRemoved : KeyedLog String Row where
  low := 0
  high := 3
  records := [⟨2, "o2", some ⟨1, some .created, "e2", 1⟩⟩]
  low_le := by decide
  sorted := by simp
  bounded := by simp

theorem compacted_deletionKept : Compacted deletedLog deletionKept where
  cleans := .single (.superseded [] _ _ ⟨_, .head _, rfl⟩)
  high_eq := rfl
  low_le := Nat.le_refl _

theorem compacted_deletionRemoved : Compacted deletedLog deletionRemoved where
  cleans := compacted_deletionKept.cleans.tail (.deletion [] _ _ rfl (by simp))
  high_eq := rfl
  low_le := Nat.le_refl _

theorem fresh_foldedWorld : Fresh foldedWorld := ⟨rfl, rfl, fun _ => lastKept_append _ _⟩

theorem inTurn_deletedElsewhere {log : KeyedLog String Row} (h : Compacted deletedLog log)
    (hkept : log.LastKept) :
    Along (DiskOp.call oneStore "g") (DiskOp.InTurn oneStore) (deletedElsewhere log) foldedWorld := by
  refine .cons (fun _ _ => List.not_mem_nil) (.cons (fun _ _ => rfl) (.cons ?_ (.cons ?_ trivial)))
  · exact List.not_mem_nil
  · exact ⟨h, hkept⟩

theorem rebuilds_agree_deletionKept :
    let t := ((deletedElsewhere deletionKept).forM (DiskOp.call oneStore "g")).exec foldedWorld
    t.1 = .ok ⟨⟩ ∧ t.2.store.table 0 "o" = some ⟨1, some .created, "e1", 1⟩ ∧
      RebuildsAlike oneStore "g" t.2 0 := by
  have hin : Along (DiskOp.call oneStore "g") (DiskOp.InTurn oneStore)
      (deletedElsewhere deletionKept) foldedWorld :=
    inTurn_deletedElsewhere compacted_deletionKept (.inr ⟨_, .tail _ (.head _), rfl⟩)
  have hrun := exec_eq_of_ok
    (x := (deletedElsewhere deletionKept).forM (DiskOp.call oneStore "g")) (s := foldedWorld) rfl
  have hkeeps : Along (DiskOp.call oneStore "g") DiskOp.KeepsDeleted
      (deletedElsewhere deletionKept) foldedWorld := by
    refine .cons trivial (.cons trivial (.cons trivial (.cons ?_ trivial)))
    intro _ c hc k hk _
    cases hc
    obtain rfl | hne := eq_or_ne k "o"
    · exact ⟨_, .head _, Nat.le_refl _, rfl⟩
    · refine absurd ?_ hk
      exact Function.update_of_ne hne _ _
  have hagree := (rebuilds_agree_iff oneStore "g" _ foldedWorld _ rfl fresh_foldedWorld hin hrun).2 hkeeps
  exact ⟨rfl, rfl, hagree.last hrun 0 List.not_mem_nil⟩

/-- The order is deleted from the changelog, and the rebuild from the checkpoint still has it. -/
theorem removed_deletion_resurrects :
    let t := ((deletedElsewhere deletionRemoved).forM (DiskOp.call oneStore "g")).exec foldedWorld
    let rebuilt := fun rebuild =>
      (LocalStateStore.restore (oneStore.rebuilding rebuild) "g" {} [0]).exec t.2
    Along (DiskOp.call oneStore "g") (DiskOp.InTurn oneStore) (deletedElsewhere deletionRemoved)
        foldedWorld ∧
      t.1 = .ok ⟨⟩ ∧ 0 ∉ t.2.store.stores ∧
      (rebuilt .checkpoint).2.store.table 0 "o" = some ⟨1, some .created, "e1", 1⟩ ∧
      (rebuilt .full).2.store.table 0 "o" = none ∧ ¬ RebuildsAlike oneStore "g" t.2 0 := by
  refine ⟨inTurn_deletedElsewhere compacted_deletionRemoved (.inr ⟨_, .head _, rfl⟩), rfl,
    List.not_mem_nil, rfl, rfl, fun h => ?_⟩
  obtain ⟨T, hT⟩ := h {} _ rfl rfl rfl ⟨rfl, fun _ => rfl⟩ rfl
  have hcheckpoint : T "o" = some ⟨1, some .created, "e1", 1⟩ := by
    rw [← show _ = T from hT .checkpoint]
    rfl
  have hfull : T "o" = none := by
    rw [← show _ = T from hT .full]
    rfl
  cases hfull.symm.trans hcheckpoint

end OrderService
