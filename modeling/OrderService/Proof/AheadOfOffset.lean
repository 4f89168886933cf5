import OrderService.Proof.Changelog
import OrderService.Proof.Ownership

/-!
# The changelog ahead of the committed offset

At least once, with the state written first: when an offset is committed, every changelog record
produced for a message below it has been acknowledged, so a rebuild after a crash finds it. A fold
flushes before it commits. A tombstone does not: it is safe when the `poll(0)` after its record
happens to bring the acknowledgement (`changelog_ahead`), and lost otherwise (`tombstone_unflushed`).

`Ledger` is what holds at every moment: the changelogs are what they began with and what was
acknowledged since, values rise, and each record produced was acknowledged or is queued.
-/

namespace OrderService

open Eff KeyedLog

variable {c : Service} {env : Env} {w : World} {m : Message} {b₀ b b' : Broker}
variable {p p' : ProducerState} {past calls : List Call} {topic : String} {i : Nat}

/-! ## The ledger -/

/-- What was written to changelog partition `i` since the start, acknowledged or not. -/
def logged (b : Broker) (p : ProducerState) (i : Nat) : List (Entry String Row) :=
  entriesOn i b.delivered ++ entriesOn i p.queue

structure Ledger (topic : String) (past : List Call) (b₀ b : Broker) (p : ProducerState)
    (calls : List Call) : Prop where
  txn_eq : p.txn = none
  foldsOn : FoldsOn topic p.queue
  entries_eq : ∀ i, (b.changelog i).entries = (b₀.changelog i).entries ++ entriesOn i b.delivered
  kept : ∀ i, entriesOn i b.delivered ≠ [] → (b.changelog i).LastKept
  rising : ∀ i, Rising (·.lastSequence) (b₀.changelog i).table (logged b p i)
  produced : ∀ q, .produce q true ∈ calls → q.isFold = true → q ∈ b.delivered ∨ q ∈ p.queue
  past_subset : past ⊆ calls

theorem Served.mem_queue {rs : List Queued} (h : Served b p rs b' p') {q : Queued}
    (hq : q ∈ p.queue) : q ∈ rs ∨ q ∈ p'.queue := by
  have hlane : q ∈ p.queue.filter (·.lane = q.lane) := List.mem_filter.2 ⟨hq, by simp⟩
  rw [h.lane_eq, List.mem_append] at hlane
  exact hlane.imp (fun h => (List.mem_filter.1 h).1) fun h => (List.mem_filter.1 h).1

theorem Ledger.logged_served {rs : List Queued} (h : Ledger topic past b₀ b p calls)
    (hp : Served b p rs b' p') (i : Nat) : logged b' p' i = logged b p i := by
  unfold logged
  rw [hp.delivered_eq, entriesOn_append, List.append_assoc, ← hp.entriesOn h.foldsOn]

/-- Delivery reports keep the ledger. -/
theorem Ledger.served {rs : List Queued} (h : Ledger topic past b₀ b p calls)
    (hp : Served b p rs b' p') : Ledger topic past b₀ b' p' calls where
  txn_eq := hp.txn_eq.trans h.txn_eq
  foldsOn := hp.foldsOn h.foldsOn
  entries_eq i := by
    rw [hp.changelog_eq, entries_foldl_append, h.entries_eq, hp.delivered_eq, entriesOn_append,
      List.append_assoc]
  kept i := by
    rw [hp.changelog_eq, hp.delivered_eq, entriesOn_append]
    intro hne
    by_cases hnil : entriesOn i (rs.filter (·.fate.isNone)) = []
    · rw [hnil, List.append_nil] at hne
      rw [hnil]
      exact h.kept i hne
    · exact lastKept_appends hnil
  rising i := by
    rw [h.logged_served hp]
    exact h.rising i
  produced q hq hfold := by
    rcases h.produced q hq hfold with hq | hq
    · exact .inl (hp.delivered_mono hq)
    · rcases hp.mem_queue hq with hreport | hleft
      · refine .inl ?_
        rw [hp.delivered_eq]
        refine List.mem_append_right _ (List.mem_filter.2 ⟨hreport, ?_⟩)
        rw [(h.foldsOn q hq hfold).2]
        rfl
      · exact .inr hleft
  past_subset := h.past_subset

theorem Ledger.quiet {call : Call} (h : Ledger topic past b₀ b p calls)
    (hcall : ∀ q, call ≠ .produce q true) : Ledger topic past b₀ b p (calls ++ [call]) :=
  { h with
    produced := fun q hq hfold => by
      rcases List.mem_append.1 hq with hq | hq
      · exact h.produced q hq hfold
      · exact absurd (List.mem_singleton.1 hq).symm (hcall q)
    past_subset := fun _ hcall => List.mem_append_left _ (h.past_subset hcall) }

theorem Ledger.refused {q : Queued} {more : List Call} (h : Ledger topic past b₀ b p calls)
    (hmore : ∀ call ∈ more, call = .produce q false) : Ledger topic past b₀ b p (calls ++ more) :=
  { h with
    produced := fun r hr hfold => by
      rcases List.mem_append.1 hr with hr | hr
      · exact h.produced r hr hfold
      · cases hmore _ hr
    past_subset := fun _ hcall => List.mem_append_left _ (h.past_subset hcall) }

theorem logged_enqueue (htxn : p.txn = none) (q : Queued) (i : Nat) :
    logged b (p.enqueue q) i = logged b p i ++ entriesOn i [q] := by
  unfold logged
  rw [ProducerState.queue_enqueue, htxn]
  simp

/-- A record is queued; a changelog record must not fall behind the value it replaces. -/
theorem Ledger.enqueue {q : Queued} (h : Ledger topic past b₀ b p calls)
    (hq : q.isFold = true → q.topic = topic ∧ q.fate = none)
    (hrising : ∀ k row row₀, q.payload = .fold k (some row) →
      replay (b₀.changelog q.partition).table (logged b p q.partition) k = some row₀ →
      row₀.lastSequence ≤ row.lastSequence) :
    Ledger topic past b₀ b (p.enqueue q) (calls ++ [.produce q true]) where
  txn_eq := by rw [ProducerState.txn_enqueue, h.txn_eq]; rfl
  foldsOn := foldsOn_enqueue h.foldsOn hq
  entries_eq := h.entries_eq
  kept := h.kept
  rising i := by
    rw [logged_enqueue h.txn_eq]
    rcases hentry : q.entryOn i with _ | ⟨k, v⟩
    · have hnil : entriesOn i [q] = [] := by simp [entriesOn, hentry]
      rw [hnil, List.append_nil]
      exact h.rising i
    · have hone : entriesOn i [q] = [(k, v)] := by simp [entriesOn, hentry]
      obtain ⟨hpayload, rfl⟩ := payload_of_entryOn hentry
      rw [hone]
      exact (h.rising _).concat fun row hv row₀ hrow₀ => hrising k row row₀ (hv ▸ hpayload) hrow₀
  produced r hr hfold := by
    have hqueue : (p.enqueue q).queue = p.queue ++ [q] := by
      rw [ProducerState.queue_enqueue, h.txn_eq]
      rfl
    rw [hqueue, List.mem_append, List.mem_singleton]
    rcases List.mem_append.1 hr with hr | hr
    · exact (h.produced r hr hfold).imp_right .inl
    · cases List.mem_singleton.1 hr
      exact .inr (.inr rfl)
  past_subset := fun _ hcall => List.mem_append_left _ (h.past_subset hcall)

/-- A publication adds its record to the ledger. -/
theorem Ledger.published {d : Deployment} {q : Queued} {more : List Call}
    (h : Ledger topic past b₀ b p calls) (hp : Published d q b p b' p' more)
    (hq : q.isFold = true → q.topic = topic ∧ q.fate = none)
    (hrising : ∀ k row row₀, q.payload = .fold k (some row) →
      replay (b₀.changelog q.partition).table (logged b p q.partition) k = some row₀ →
      row₀.lastSequence ≤ row.lastSequence) :
    Ledger topic past b₀ b' p' (calls ++ more) ∧ ∀ i, logged b' p' i = logged b p i ++ entriesOn i [q] := by
  obtain ⟨rs₁, b₁, p₁, rs₂, h₁, -, h₂⟩ := hp.served
  obtain ⟨failed, hfailed, rfl⟩ := hp.calls_eq
  have hbefore := (h.served h₁).refused hfailed
  have hqueued := hbefore.enqueue hq fun k row row₀ hpayload hrow₀ =>
    hrising k row row₀ hpayload (by rwa [h.logged_served h₁] at hrow₀)
  rw [List.append_assoc] at hqueued
  refine ⟨hqueued.served h₂, fun i => ?_⟩
  rw [hqueued.logged_served h₂, logged_enqueue (h₁.txn_eq.trans h.txn_eq), h.logged_served h₁]

/-! ## Between steps and within them -/

/-- At every moment, crashes included: a changelog record still queued is for a message at or above
the committed offset. -/
structure Ahead (c : Service) (past : List Call) (b₀ : Broker) (w : World) : Prop where
  ledger : Ledger (LocalStateStore.topic c.toDeployment c.groupId) past b₀ w.broker w.producer w.trace
  uncovered : ∀ q ∈ w.producer.queue, q.isFold = true →
    (w.broker.committed q.source.tp).getD 0 ≤ q.source.offset

/-- On the orders whose records are on partition `i`, `T` is at or ahead of `t`. -/
def AtOrAhead (c : Service) (i : Nat) (T t : Table) : Prop :=
  ∀ k, c.partitionOf k = i → ∀ row₀, t k = some row₀ →
    ∃ row, T k = some row ∧ row₀.lastSequence ≤ row.lastSequence

/-- The store of an owned number is at or ahead of what was written to its changelog. -/
def InStep (c : Service) (b₀ : Broker) (w : World) : Prop := ∀ i, Owned w i →
  AtOrAhead c i (w.store.table i) (replay (b₀.changelog i).table (logged w.broker w.producer i))

/-- Between steps: no changelog record is queued. -/
structure Steady (c : Service) (past : List Call) (b₀ : Broker) (w : World) : Prop where
  ledger : Ledger (LocalStateStore.topic c.toDeployment c.groupId) past b₀ w.broker w.producer w.trace
  flushed : ∀ q ∈ w.producer.queue, q.isFold = false
  inStep : InStep c b₀ w
  committed_le : ∀ tp ∈ w.assignment, (w.broker.committed tp).getD 0 ≤ w.position tp

/-- While `m` is being handled: the changelog records queued are its own. -/
structure Turn (c : Service) (past : List Call) (b₀ : Broker) (m : Message) (w : World) : Prop where
  ledger : Ledger (LocalStateStore.topic c.toDeployment c.groupId) past b₀ w.broker w.producer w.trace
  own : ∀ q ∈ w.producer.queue, q.isFold = true → q.source = m.id
  inStep : InStep c b₀ w
  committed_le : ∀ tp ∈ w.assignment, (w.broker.committed tp).getD 0 ≤ w.position tp
  low : (w.broker.committed m.tp).getD 0 ≤ m.offset
  position_eq : w.position m.tp = m.offset + 1
  assigned : m.tp ∈ w.assignment
  handling : w.handling = m.id

theorem Steady.ahead (h : Steady c past b₀ w) : Ahead c past b₀ w :=
  ⟨h.ledger, fun q hq hfold => by cases (h.flushed q hq).symm.trans hfold⟩

theorem Turn.ahead (h : Turn c past b₀ m w) : Ahead c past b₀ w :=
  ⟨h.ledger, fun q hq hfold => by rw [h.own q hq hfold]; exact h.low⟩

theorem Steady.receive (h : Steady c past b₀ w) (hassigned : m.tp ∈ w.assignment)
    (hle : w.position m.tp ≤ m.offset) : Turn c past b₀ m { w with
      position := Function.update w.position m.tp (m.offset + 1), handling := m.id
      trace := w.trace ++ [.poll m.id] } where
  ledger := h.ledger.quiet fun q => by simp
  own q hq hfold := by cases (h.flushed q hq).symm.trans hfold
  inStep := h.inStep
  committed_le tp htp := by
    have hcommitted := h.committed_le tp htp
    change (w.broker.committed tp).getD 0 ≤ Function.update w.position m.tp (m.offset + 1) tp
    by_cases heq : tp = m.tp
    · subst heq
      rw [Function.update_self]
      omega
    · rw [Function.update_of_ne heq]
      exact hcommitted
  low := Nat.le_trans (h.committed_le _ hassigned) hle
  position_eq := Function.update_self ..
  assigned := hassigned
  handling := rfl

theorem Turn.opened {s : LocalStore} {reported : List Violation} {n : Option Nat}
    (h : Turn c past b₀ m w) (hs : ∀ i, s.table i = w.store.table i) :
    Turn c past b₀ m { w with store := s, reported := reported, crashIn := n } :=
  { h with
    inStep := fun i hi => by
      change AtOrAhead c i (s.table i) _
      rw [hs]
      exact h.inStep i hi }

theorem Turn.served {rs : List Queued} {s : LocalStore} (h : Turn c past b₀ m w)
    (hp : Served w.broker w.producer rs b p) (hs : ∀ i, s.table i = w.store.table i)
    (n : Option Nat) :
    Turn c past b₀ m { w with broker := b, producer := p, store := s, crashIn := n } where
  ledger := h.ledger.served hp
  own q hq := h.own q (hp.sublist.subset hq)
  inStep i hi := by
    change AtOrAhead c i (s.table i) (replay _ (logged b p i))
    rw [h.ledger.logged_served hp, hs]
    exact h.inStep i hi
  committed_le := by
    change ∀ tp ∈ w.assignment, (b.committed tp).getD 0 ≤ w.position tp
    rw [hp.committed_eq]
    exact h.committed_le
  low := by
    change (b.committed m.tp).getD 0 ≤ m.offset
    rw [hp.committed_eq]
    exact h.low
  position_eq := h.position_eq
  assigned := h.assigned
  handling := h.handling

theorem Published.mem_queue {d : Deployment} {q r : Queued} (hp : Published d q b p b' p' calls)
    (htxn : p.txn = none) (hr : r ∈ p'.queue) : r ∈ p.queue ∨ r = q := by
  obtain ⟨rs₁, b₁, p₁, rs₂, h₁, -, h₂⟩ := hp.served
  have hr := h₂.sublist.subset hr
  rw [ProducerState.queue_enqueue, h₁.txn_eq, htxn] at hr
  rcases List.mem_append.1 hr with hr | hr
  · exact .inl (h₁.sublist.subset hr)
  · exact .inr (List.mem_singleton.1 hr)

/-- A publication on behalf of `m`, whatever it did to the stores. -/
theorem Turn.published {q : Queued} {s : LocalStore} (h : Turn c past b₀ m w)
    (hp : Published c.toDeployment q w.broker w.producer b p calls) (hq : q.source = m.id)
    (hledger : Ledger (LocalStateStore.topic c.toDeployment c.groupId) past b₀ b p (w.trace ++ calls))
    (hs : InStep c b₀ { w with broker := b, producer := p, store := s }) (n : Option Nat) :
    Turn c past b₀ m { w with
      broker := b, producer := p, store := s, crashIn := n, trace := w.trace ++ calls } where
  ledger := hledger
  own r hr hfold := by
    rcases hp.mem_queue h.ledger.txn_eq hr with hr | rfl
    · exact h.own r hr hfold
    · exact hq
  inStep := hs
  committed_le := by
    change ∀ tp ∈ w.assignment, (b.committed tp).getD 0 ≤ w.position tp
    rw [hp.committed_eq]
    exact h.committed_le
  low := by
    change (b.committed m.tp).getD 0 ≤ m.offset
    rw [hp.committed_eq]
    exact h.low
  position_eq := h.position_eq
  assigned := h.assigned
  handling := h.handling

theorem Turn.ahead_published {q : Queued} (h : Turn c past b₀ m w)
    (hp : Published c.toDeployment q w.broker w.producer b p calls) (hq : q.source = m.id)
    (hledger : Ledger (LocalStateStore.topic c.toDeployment c.groupId) past b₀ b p (w.trace ++ calls))
    (s : LocalStore) (n : Option Nat) : Ahead c past b₀ { w with
      broker := b, producer := p, store := s, crashIn := n, trace := w.trace ++ calls } where
  ledger := hledger
  uncovered r hr hfold := by
    change (b.committed r.source.tp).getD 0 ≤ r.source.offset
    have hsource : r.source = m.id := by
      rcases hp.mem_queue h.ledger.txn_eq hr with hr | rfl
      · exact h.own r hr hfold
      · exact hq
    rw [hp.committed_eq, hsource]
    exact h.low

/-- A copy of a message is no changelog record. -/
theorem Turn.published_copy {q : Queued} {s : LocalStore} (h : Turn c past b₀ m w)
    (hp : Published c.toDeployment q w.broker w.producer b p calls) (hq : q.source = m.id)
    (hcopy : q.isFold = false) (hs : ∀ i, s.table i = w.store.table i) (n : Option Nat) :
    Turn c past b₀ m { w with
      broker := b, producer := p, store := s, crashIn := n, trace := w.trace ++ calls } := by
  have hnil : ∀ i, entriesOn i [q] = [] := by
    intro i
    rcases hentry : q.entryOn i with _ | e
    · simp [entriesOn, hentry]
    · cases (isFold_of_entryOn hentry).1.symm.trans hcopy
  obtain ⟨hledger, hlogged⟩ := h.ledger.published hp (fun hfold => by cases hfold.symm.trans hcopy)
    fun k row row₀ hpayload _ => by simp [Queued.isFold, hpayload] at hcopy
  refine h.published hp hq hledger (fun i hi => ?_) n
  change AtOrAhead c i (s.table i) (replay _ (logged b p i))
  rw [hs, hlogged, hnil, List.append_nil]
  exact h.inStep i hi

/-- One write of a row and its record; a deletion's may be on another partition than the store. -/
theorem Turn.wrote {k : String} {v : Option Row} (h : Turn c past b₀ m w)
    (hk : v ≠ none → c.partitionOf k = m.partition) (hfate : env.fate = none)
    (hv : ∀ row, v = some row → ∀ row₀, w.store.table m.partition k = some row₀ →
      row₀.lastSequence ≤ row.lastSequence)
    (hp : Published c.toDeployment
      (LocalStateStore.changelogRecord c.toDeployment c.groupId env w.handling k v) w.broker
      w.producer b p calls)
    (n : Option Nat) :
    (∀ s : LocalStore, Wrote m.partition k v w.store s → Turn c past b₀ m { w with
      broker := b, producer := p, store := s, crashIn := n, trace := w.trace ++ calls }) ∧
    ∀ s, Ahead c past b₀ { w with
      broker := b, producer := p, store := s, crashIn := n, trace := w.trace ++ calls } := by
  have howned : Owned w m.partition := ⟨m.tp, h.assigned, rfl⟩
  obtain ⟨hledger, hlogged⟩ := h.ledger.published hp (fun _ => ⟨rfl, hfate⟩) (by
    intro k' row row₀ hpayload hrow₀
    cases hpayload
    have hpart := hk (by simp)
    change replay (b₀.changelog (c.partitionOf k)).table
      (logged w.broker w.producer (c.partitionOf k)) k = some row₀ at hrow₀
    rw [hpart] at hrow₀
    obtain ⟨row₁, hrow₁, hle⟩ := h.inStep _ howned k hpart row₀ hrow₀
    exact Nat.le_trans hle (hv row rfl row₁ hrow₁))
  refine ⟨fun s hs => h.published hp h.handling hledger ?_ n,
    fun s => h.ahead_published hp h.handling hledger s n⟩
  intro i hi k' hk' row₀ hrow₀
  change replay (b₀.changelog i).table (logged b p i) k' = some row₀ at hrow₀
  show ∃ row, s.table i k' = some row ∧ _
  rw [hlogged, entriesOn_changelogRecord] at hrow₀
  by_cases hkey : k' = k
  · subst hkey
    rw [if_pos hk', replay_concat, Function.update_self] at hrow₀
    subst hrow₀
    obtain rfl : i = m.partition := hk'.symm.trans (hk (by simp))
    exact ⟨row₀, by rw [hs.table_eq, Function.update_self], Nat.le_refl _⟩
  · have hrow₀ : replay (b₀.changelog i).table (logged w.broker w.producer i) k' = some row₀ := by
      split at hrow₀
      · rwa [replay_concat, Function.update_of_ne hkey] at hrow₀
      · rwa [List.append_nil] at hrow₀
    have hrow : s.table i k' = w.store.table i k' := by
      by_cases hpart : i = m.partition
      · subst hpart
        rw [hs.table_eq, Function.update_of_ne hkey]
      · rw [hs.table_ne i hpart]
    rw [hrow]
    exact h.inStep i hi k' hk' row₀ hrow₀

theorem Turn.unpublished {q : Queued} (h : Turn c past b₀ m w)
    (hp : Unpublished q w.broker w.producer b p calls) (s : LocalStore) (n : Option Nat) :
    Ahead c past b₀ { w with
      broker := b, producer := p, store := s, crashIn := n, trace := w.trace ++ calls } := by
  obtain ⟨rs, hserved⟩ := hp.served
  refine ⟨(h.ledger.served hserved).refused hp.calls_eq, fun r hr hfold => ?_⟩
  change (b.committed r.source.tp).getD 0 ≤ r.source.offset
  rw [hserved.committed_eq, h.own r (hserved.sublist.subset hr) hfold]
  exact h.low

/-- The commit of a message none of whose changelog records is queued. -/
theorem Turn.committed (h : Turn c past b₀ m w) (hflushed : ∀ q ∈ w.producer.queue, q.isFold = false)
    (n : Option Nat) : Steady c past b₀ { w with
      broker := { w.broker with
        committed := Function.update w.broker.committed m.tp (some (m.offset + 1)) }
      crashIn := n, trace := w.trace ++ [.commit m.tp (m.offset + 1) true] } where
  ledger :=
    have hledger : Ledger _ past b₀ w.broker w.producer
        (w.trace ++ [.commit m.tp (m.offset + 1) true]) := h.ledger.quiet fun q => by simp
    ⟨hledger.txn_eq, hledger.foldsOn, hledger.entries_eq, hledger.kept, hledger.rising,
      hledger.produced, hledger.past_subset⟩
  flushed := hflushed
  inStep := h.inStep
  committed_le tp htp := by
    change (Function.update w.broker.committed m.tp (some (m.offset + 1)) tp).getD 0 ≤ w.position tp
    by_cases heq : tp = m.tp
    · subst heq
      rw [Function.update_self, h.position_eq]
      exact Nat.le_refl _
    · rw [Function.update_of_ne heq]
      exact h.committed_le tp htp

/-- A turn that ends without a commit. -/
theorem Turn.left {position : TopicPartition → Nat} {call : Call} (h : Turn c past b₀ m w)
    (hflushed : ∀ q ∈ w.producer.queue, q.isFold = false) (hcall : ∀ q, call ≠ .produce q true)
    (hle : m.offset ≤ position m.tp) (hne : ∀ tp, tp ≠ m.tp → position tp = w.position tp)
    (n : Option Nat) : Steady c past b₀ { w with
      position := position, crashIn := n, trace := w.trace ++ [call] } where
  ledger := h.ledger.quiet hcall
  flushed := hflushed
  inStep := h.inStep
  committed_le tp htp := by
    change (w.broker.committed tp).getD 0 ≤ position tp
    by_cases heq : tp = m.tp
    · subst heq
      exact Nat.le_trans h.low hle
    · rw [hne tp heq]
      exact h.committed_le tp htp

/-! ## The exits of a message -/

theorem wp_commit_steady (hx : c.settings.exactlyOnce = false) (h : Turn c past b₀ m w)
    (hflushed : ∀ q ∈ w.producer.queue, q.isFold = false) :
    wp (ServiceConsumer.commit c env m) (fun _ => Steady c past b₀) (fun _ => Ahead c past b₀) w := by
  unfold ServiceConsumer.commit ServiceConsumer.commits buildCommitStrategy
  rw [if_neg (by simp [hx])]
  refine wp_directNote h.ahead (fun n _ => ?_) fun n _ => h.committed hflushed n
  exact h.left hflushed (fun q => by simp) (by rw [h.position_eq]; omega) (fun _ _ => rfl) n

theorem wp_rewind_steady (h : Turn c past b₀ m w) (hflushed : ∀ q ∈ w.producer.queue, q.isFold = false) :
    wp (ServiceConsumer.rewind env m) (fun _ => Steady c past b₀) (fun _ => Ahead c past b₀) w := by
  refine wp_rewind h.ahead (fun n _ => ?_) fun n => ?_
  · exact h.left hflushed (fun q => by simp) (by rw [h.position_eq]; omega) (fun _ _ => rfl) n
  · exact h.left hflushed (fun q => by simp) (by rw [Function.update_self])
      (fun tp htp => Function.update_of_ne htp ..) n

/-- A failure route produces no changelog record. -/
theorem wp_routeFailure_steady {exc : Exn} {attempt : Int} (hx : c.settings.exactlyOnce = false)
    (h : Turn c past b₀ m w) (hflushed : ∀ q ∈ w.producer.queue, q.isFold = false) :
    wp (ServiceConsumer.routeFailure c env m exc attempt) (fun _ => Steady c past b₀)
      (fun _ => Ahead c past b₀) w := by
  have hcopy : ∀ {q : Queued} {b p}, IsFailureCopy c env m q →
      Published c.toDeployment q w.broker w.producer b p [.produce q true] →
      ∀ r ∈ p.queue, r.isFold = false := by
    intro q b p hq hp r hr
    rcases hp.mem_queue h.ledger.txn_eq hr with hr | rfl
    · exact hflushed r hr
    · exact hq.isFold
  have hturn : ∀ {q : Queued} {n b p pos}, IsFailureCopy c env m q →
      Published c.toDeployment q w.broker w.producer b p [.produce q true] →
      Turn c past b₀ m { w with
        broker := b, producer := p, store := { w.store with position := pos }, crashIn := n
        trace := w.trace ++ [.produce q true] } := by
    intro q n b p pos hq hp
    have hsame : ∀ i, LocalStore.table { w.store with position := pos } i = w.store.table i :=
      fun _ => rfl
    exact h.published_copy hp hq.source hq.isFold hsame n
  refine wp_routeFailure (fun _ => h.ahead) ?_ ?_ ?_ ?_
  · exact fun q n b p pos hq hp => (hturn hq hp).ahead
  · intro q n _ hq
    have hrefused : Turn c past b₀ m { w with crashIn := n, trace := w.trace ++ [.produce q false] } :=
      { h with ledger := h.ledger.quiet fun r => by simp }
    exact wp_rewind_steady hrefused hflushed
  · exact fun q n b p pos hq _ hp => wp_rewind_steady (hturn hq hp) (hcopy hq hp)
  · exact fun q n b p pos hq hp _ => wp_commit_steady hx (hturn hq hp) (hcopy hq hp)

/-- The records of an event's order are on the partition number of the message. -/
def CoPartitioned (c : Service) (m : Message) : Prop :=
  ∀ value event, m.value = some value → c.decode value = .event event →
    c.partitionOf event.orderId = m.partition

/-- The `poll(0)` after a tombstone's record brings its acknowledgement. -/
def TombstoneAcked (c : Service) (env : Env) (p : ProducerState) (m : Message) : Prop :=
  m.value = none → ∀ q ∈ queueAfter env p
    (LocalStateStore.changelogRecord c.toDeployment c.groupId env m.id (keyOf m) none),
    q.isFold = false

/-- **Each exit of the handler commits with the changelog ahead.** -/
theorem wp_handleMessage_steady (hx : c.settings.exactlyOnce = false)
    (horder : c.settings.stateWriteOrder = .stateFirst) (h : Turn c past b₀ m w)
    (hflushed : ∀ q ∈ w.producer.queue, q.isFold = false) (hfate : env.fate = none)
    (hpart : CoPartitioned c m) (hacked : TombstoneAcked c env w.producer m) :
    wp (ServiceConsumer.handleMessage c (localStateStore c.toDeployment c.groupId env) env m)
      (fun _ => Steady c past b₀) (fun _ => Ahead c past b₀) w := by
  refine wp_handleMessage ?_ (fun hnone => ?_) (fun _ => wp_commit_steady hx h hflushed) ?_ ?_
  · exact fun _ n s r => ⟨h.ahead.ledger, h.ahead.uncovered⟩
  · simp only [ServiceConsumer.handleTombstone, localStateStore, wp_bind]
    have hwrote := fun {b p calls} n (hp : Published c.toDeployment _ w.broker w.producer b p calls) =>
      h.wrote (k := keyOf m) (v := none) (fun hne => absurd rfl hne) hfate
        (fun row hrow => by cases hrow) hp n
    refine wp_delete rfl (fun _ n s b p calls hp => h.unpublished hp s n)
      (fun n s b p calls hp => (hwrote n hp).2 s) ?_
    intro n s b p calls hs hp hqueue
    refine wp_commit_steady hx ((hwrote n hp).1 s hs) fun q hq => hacked hnone q ?_
    rw [← h.handling, ← hqueue]
    exact hq
  · intro exc attempt n s r _ _ hs
    have hopened : Turn c past b₀ m { w with store := s, reported := r, crashIn := n } := by
      refine h.opened fun i => ?_
      rcases hs with rfl | hs
      · rfl
      · exact hs.table_eq i
    exact wp_routeFailure_steady hx hopened hflushed
  · intro value event attempt n s r hvalue _ hdecode hs _
    have hopened : Turn c past b₀ m { w with store := s, reported := r, crashIn := n } :=
      h.opened hs.table_eq
    have hwrote := fun {b p calls row} n hrow
        (hp : Published c.toDeployment _ w.broker w.producer b p calls) =>
      hopened.wrote (k := event.orderId) (v := some row)
        (fun _ => hpart value event hvalue hdecode) hfate hrow hp n
    unfold ServiceConsumer.persistAndCommit
    rw [if_neg (by simp [hx]), if_neg (by simp [horder])]
    simp only [ServiceConsumer.saveFold, localStateStore, wp_bind]
    have hrising : ∀ row, some (Row.next event.orderId (s.table m.partition event.orderId)
          (applyEvent (w.store.fold m.partition event.orderId) event).1 event.eventId) = some row →
        ∀ row₀, s.table m.partition event.orderId = some row₀ →
        row₀.lastSequence ≤ row.lastSequence := by
      intro row hrow row₀ hrow₀
      obtain rfl := Option.some.inj hrow
      rw [hrow₀]
      exact Row.lastSequence_le_next _ _ _ _
    refine wp_save rfl rfl (fun _ n s b p calls hp => hopened.unpublished hp s n)
      (fun n s b p calls hp => (hwrote n hrising hp).2 s) ?_
    intro _ n s' b p calls hs' hp
    rw [wp_pure]
    have hturn := (hwrote n hrising hp).1 s' hs'
    refine wp_storeFlush hturn.ahead ?_ ?_
    · exact fun _ n rs b p pos hserved =>
        (hturn.served hserved (s := { s' with position := pos }) (fun _ => rfl) n).ahead
    · intro n rs b p pos hserved hempty
      have hsaved := hturn.served hserved (s := { s' with position := pos }) (fun _ => rfl) n
      unfold ServiceConsumer.crashIfConfigured
      split
      · exact ⟨hsaved.ahead.ledger, hsaved.ahead.uncovered⟩
      · refine wp_commit_steady hx hsaved fun q hq => ?_
        change q ∈ p.queue at hq
        rw [hempty] at hq
        cases hq

/-! ## Rebalances -/

/-- Delivery reports between steps. -/
theorem Steady.served {rs : List Queued} {s : LocalStore} (h : Steady c past b₀ w)
    (hp : Served w.broker w.producer rs b p) (hs : ∀ i, s.table i = w.store.table i)
    (n : Option Nat) :
    Steady c past b₀ { w with broker := b, producer := p, store := s, crashIn := n } where
  ledger := h.ledger.served hp
  flushed q hq := h.flushed q (hp.sublist.subset hq)
  inStep i hi := by
    change AtOrAhead c i (s.table i) (replay _ (logged b p i))
    rw [h.ledger.logged_served hp, hs]
    exact h.inStep i hi
  committed_le := by
    change ∀ tp ∈ w.assignment, (b.committed tp).getD 0 ≤ w.position tp
    rw [hp.committed_eq]
    exact h.committed_le

/-- With nothing queued for it, a changelog holds what was written to it. -/
theorem Steady.changelog_table (h : Steady c past b₀ w) (i : Nat) : (w.broker.changelog i).table =
    replay (b₀.changelog i).table (logged w.broker w.producer i) := by
  have hnil : entriesOn i w.producer.queue = [] := by
    refine List.filterMap_eq_nil_iff.2 fun q hq => ?_
    by_contra hne
    obtain ⟨e, he⟩ := Option.ne_none_iff_exists'.1 hne
    cases (isFold_of_entryOn he).1.symm.trans (h.flushed q hq)
  unfold logged table
  rw [hnil, List.append_nil, h.ledger.entries_eq, replay_append]

/-- Partitions that are assigned are rebuilt first. -/
theorem Steady.assign {tps : List TopicPartition} {s : LocalStore} (h : Steady c past b₀ w)
    (hfull : c.settings.stateRebuild = .full)
    (hs : Restored c.toDeployment w.broker (tps.map (·.partition)) w.store s) (n : Option Nat) :
    Steady c past b₀ (World.assign { w with
      store := s, crashIn := n, trace := w.trace ++ [.restore (tps.map (·.partition))] } tps) where
  ledger := h.ledger.quiet fun q => by simp
  flushed := h.flushed
  inStep i hi := by
    change AtOrAhead c i (s.table i) (replay _ (logged w.broker w.producer i))
    by_cases hmem : i ∈ tps.map (·.partition)
    · rw [hs.table_eq hfull i hmem, h.changelog_table]
      exact fun k _ row₀ hrow₀ => ⟨row₀, hrow₀, Nat.le_refl _⟩
    · rw [hs.table_ne i hmem]
      obtain ⟨tp, htp, rfl⟩ := hi
      rcases List.mem_append.1 htp with htp | htp
      · exact h.inStep _ ⟨tp, htp, rfl⟩
      · exact absurd (List.mem_map_of_mem htp) hmem
  committed_le tp htp := by
    change (w.broker.committed tp).getD 0 ≤
      if tp ∈ tps then (w.broker.committed tp).getD 0 else w.position tp
    split
    · exact Nat.le_refl _
    · rename_i hnot
      exact h.committed_le tp ((List.mem_append.1 htp).resolve_right hnot)

theorem Steady.unassign (h : Steady c past b₀ w) (tps : List TopicPartition) :
    Steady c past b₀ (w.unassign tps) where
  ledger := h.ledger
  flushed := h.flushed
  inStep i := by
    rintro ⟨tp, htp, rfl⟩
    exact h.inStep _ ⟨tp, (List.mem_filter.1 htp).1, rfl⟩
  committed_le tp htp := h.committed_le tp (List.mem_filter.1 htp).1

theorem wp_release_steady (env : Env) (tps : List TopicPartition) (reason : String)
    (hx : c.settings.exactlyOnce = false) (h : Steady c past b₀ w) :
    wp (do
      let _ ← (ServiceConsumer.commits c env).abort reason
      ServiceConsumer.forget (localStateStore c.toDeployment c.groupId env) tps
      modify fun w => w.unassign tps) (fun _ => Steady c past b₀) (fun _ => Ahead c past b₀) w := by
  have hnothing : (ServiceConsumer.commits c env).abort reason = pure [] := by
    unfold ServiceConsumer.commits buildCommitStrategy
    rw [if_neg (by simp [hx])]
    rfl
  simp only [hnothing, wp_bind, wp_pure]
  refine wp_forget (fun _ => h.unassign tps) h.ahead ?_ fun n s rs b p hp hs => ?_
  · intro _ n s rs b p hp
    have hserved := (h.served hp (s := w.store) (fun _ => rfl) n).ahead
    exact ⟨hserved.ledger, hserved.uncovered⟩
  · exact (h.served hp hs.table_eq n).unassign tps

/-! ## Runs -/

/-- The steps considered: the client keeps its contract, the topics are co-partitioned, delivery
reports carry no error, and tombstones are acknowledged as they are produced. -/
def Acknowledging (c : Service) (w : World) (l : Env × ServiceConsumer.Label) : Prop :=
  ServiceConsumer.Contract w l ∧ l.1.fate = none ∧
    ∀ m, l.2 = .message m → CoPartitioned c m ∧ TombstoneAcked c l.1 w.producer m

/-- At least once there is nothing to settle. -/
theorem wp_settle_direct {store : StateStore} {R : Unit → World → Prop} {E : Exn → World → Prop}
    (hx : c.settings.exactlyOnce = false) (h : R ⟨⟩ w) :
    wp (ServiceConsumer.settle c store env) R E w := by
  simp only [ServiceConsumer.settle, ServiceConsumer.commits, buildCommitStrategy, hx,
    Bool.false_eq_true, if_false, directCommitter, wp_tryCatch, wp_pure]
  exact h

/-- **One step** leaves the changelog ahead of the offset, and so does one that dies. -/
theorem wp_localStep_steady (hx : c.settings.exactlyOnce = false)
    (horder : c.settings.stateWriteOrder = .stateFirst) (hfull : c.settings.stateRebuild = .full)
    (l : Env × ServiceConsumer.Label) (h : Steady c past b₀ w) (hl : Acknowledging c w l) :
    wp (ServiceConsumer.localStep c l) (fun _ => Steady c past b₀) (fun _ => Ahead c past b₀) w := by
  obtain ⟨env, l⟩ := l
  obtain ⟨hcontract, hfate, hmessage⟩ := hl
  have hset : Steady c past b₀ { w with crashIn := env.crashIn } :=
    ⟨h.ledger, h.flushed, h.inStep, h.committed_le⟩
  refine ServiceConsumer.wp_localStep (fun tps _ => ?_) (fun tps reason _ => ?_) (fun _ => ?_)
    (fun _ _ _ => ⟨hset, hset.ahead⟩) fun m hm => ?_
  · refine wp_restore (fun _ n s => ?_) fun n s hs => hset.assign hfull hs n
    exact ⟨hset.ledger.quiet fun q => by simp, hset.ahead.uncovered⟩
  · exact wp_release_steady env tps reason hx hset
  · exact wp_settle_direct hx hset
  · subst hm
    obtain ⟨hassigned, hle⟩ := hcontract
    obtain ⟨hpart, hacked⟩ := hmessage m rfl
    refine wp_mono (wp_handleMessage_steady hx horder (hset.receive hassigned hle) h.flushed hfate
      hpart hacked) (fun _ _ ht => wp_settle_direct hx ht) fun _ _ he => he

/-! ## What a crash leaves -/

/-- A fold acknowledged at sequence `n` is in the table at `n` or later, unless a later
acknowledged record deletes the order. -/
def Present (log : KeyedLog String Row) (T : Table) (k : String) (n : Nat) : Prop :=
  (∃ row, T k = some row ∧ n ≤ row.lastSequence) ∨
    ∃ pre row post, log.entries = pre ++ (k, some row) :: post ∧ n ≤ row.lastSequence ∧
      (k, none) ∈ post

/-- An acknowledged deletion holds, unless a later acknowledged record recreates the order. -/
def Absent (log : KeyedLog String Row) (T : Table) (k : String) : Prop :=
  T k = none ∨
    ∃ pre row post, log.entries = pre ++ (k, none) :: post ∧ (k, some row) ∈ post

def Recovered (log : KeyedLog String Row) (T : Table) (k : String) : Option Row → Prop
  | some row => Present log T k row.lastSequence
  | none => Absent log T k

/-- A new process that rebuilds the partition of `q` from what is acknowledged recovers it. -/
def Rebuilds (c : Service) (q : Queued) (w : World) : Prop :=
  ∀ env u, u.broker = w.broker → Sound env u → env.reader q.partition = {} →
    wp (LocalStateStore.restore c.toDeployment c.groupId env [q.partition])
      (fun _ t => ∀ k v, q.payload = .fold k v →
        Recovered (w.broker.changelog q.partition) (t.store.table q.partition) k v)
      (fun _ _ => False) u

/-- Each changelog record produced for a message below the committed offset is acknowledged, and
survives a crash. -/
def ChangelogAhead (c : Service) (w : World) : Prop :=
  ∀ q, .produce q true ∈ w.trace → q.isFold = true →
    q.source.offset < (w.broker.committed q.source.tp).getD 0 →
    q ∈ w.broker.delivered ∧ Rebuilds c q w

theorem Ahead.acknowledged (h : Ahead c past b₀ w) {q : Queued} (hq : .produce q true ∈ w.trace)
    (hfold : q.isFold = true) (hlt : q.source.offset < (w.broker.committed q.source.tp).getD 0) :
    q ∈ w.broker.delivered := by
  rcases h.ledger.produced q hq hfold with hdelivered | hqueued
  · exact hdelivered
  · exact absurd hlt (Nat.not_lt.2 (h.uncovered q hqueued hfold))

/-- The table of a changelog recovers each record acknowledged on it. -/
theorem Ledger.recovered {q : Queued} {k : String} {v : Option Row}
    (h : Ledger topic past b₀ b p calls) (hq : q ∈ b.delivered) (hpayload : q.payload = .fold k v) :
    Recovered (b.changelog q.partition) (b.changelog q.partition).table k v := by
  let i := q.partition
  have hentry : q.entryOn i = some (k, v) := by simp [i, Queued.entryOn, hpayload]
  obtain ⟨pre, post, hes⟩ := List.append_of_mem (List.mem_filterMap.2 ⟨q, hq, hentry⟩)
  change entriesOn i b.delivered = _ at hes
  have hlog : (b.changelog i).entries = ((b₀.changelog i).entries ++ pre) ++ (k, v) :: post := by
    rw [h.entries_eq, hes, List.append_assoc]
  have htable : (b.changelog i).table =
      replay (b₀.changelog i).table (pre ++ (k, v) :: post) := by
    rw [← hes]
    unfold table
    rw [h.entries_eq, replay_append]
  cases v with
  | some row =>
    have hrising : Rising (·.lastSequence) (b₀.changelog i).table (pre ++ (k, some row) :: post) :=
      hes ▸ (h.rising i).of_append
    rcases hrising.survives with hdeleted | ⟨row', hrow', hle⟩
    · exact .inr ⟨_, row, post, hlog, Nat.le_refl _, hdeleted⟩
    · exact .inl ⟨row', by rw [htable]; exact hrow', hle⟩
  | none =>
    rcases replay_deleted (t := (b₀.changelog i).table) (k := k) pre post with ⟨row, hrow⟩ | hnone
    · exact .inr ⟨_, row, post, hlog, hrow⟩
    · exact .inl (by rw [htable]; exact hnone)

theorem Ahead.changelogAhead (hfull : c.settings.stateRebuild = .full) (h : Ahead c past b₀ w) :
    ChangelogAhead c w := by
  intro q hq hfold hlt
  have hdelivered := h.acknowledged hq hfold hlt
  refine ⟨hdelivered, fun env u hbroker hsound hreader => ?_⟩
  obtain ⟨e, hentry⟩ : ∃ e, q.entryOn q.partition = some e := by
    unfold Queued.isFold at hfold
    split at hfold
    · rename_i k v hpayload
      exact ⟨(k, v), by simp [Queued.entryOn, hpayload]⟩
    · cases hfold
  have hkept : (w.broker.changelog q.partition).LastKept := by
    refine h.ledger.kept _ (List.ne_nil_of_mem (a := e) ?_)
    exact List.mem_filterMap.2 ⟨q, hdelivered, hentry⟩
  rw [← hbroker] at hkept
  refine wp_mono (wp_restore_returns hfull hsound hreader hkept) (fun _ t ht k v hpayload => ?_)
    fun _ _ he => he
  rw [ht, hbroker]
  exact h.ledger.recovered hdelivered hpayload

/-! ## What a handled message leaves -/

/-- The message is an event that this service folds. -/
structure Folds (c : Service) (env : Env) (m : Message) (event : LifecycleEvent) : Prop where
  decoded : ∃ value, m.value = some value ∧ c.decode value = .event event
  handled : ¬ Skipped c m
  succeeds : ServiceConsumer.runHandler c env event (attemptOf c.std (decodeHeaders m)) = .ok ()

/-- The record of a fold or of a deletion on behalf of `m`. -/
def recordOf (c : Service) (env : Env) (m : Message) (k : String) (v : Option Row) : Queued :=
  LocalStateStore.changelogRecord c.toDeployment c.groupId env m.id k v

theorem wp_handleMessage_folds {event : LifecycleEvent} (hx : c.settings.exactlyOnce = false)
    (horder : c.settings.stateWriteOrder = .stateFirst) (h : Folds c env m event)
    (hw : w.handling = m.id) :
    wp (ServiceConsumer.handleMessage c (localStateStore c.toDeployment c.groupId env) env m)
      (fun _ t => ∃ row, event.sequence ≤ row.lastSequence ∧
        .produce (recordOf c env m event.orderId (some row)) true ∈ t.trace) (fun _ _ => True) w := by
  obtain ⟨⟨value, hvalue, hdecode⟩, hns, hsucceeds⟩ := h
  have htopic : m.topic ≠ c.settings.orderSnapshotTopic := fun heq => hns ⟨by simp [hvalue], .inl heq⟩
  have hforeign : ¬ ServiceConsumer.isForeignRetry c (decodeHeaders m) = true :=
    fun heq => hns ⟨by simp [hvalue], .inr heq⟩
  have hevent : ServiceConsumer.decode c value = .ok event := by
    unfold ServiceConsumer.decode
    rw [hdecode]
  unfold ServiceConsumer.handleMessage
  rw [hvalue]
  simp only [if_neg htopic, if_neg hforeign, hevent]
  refine wp_handleEvent (fun _ _ _ _ => trivial) (fun exc _ _ _ _ hfails => ?_) ?_
  · cases hsucceeds.symm.trans hfails
  intro n s r hs _
  unfold ServiceConsumer.persistAndCommit
  rw [if_neg (by simp [hx]), if_neg (by simp [horder])]
  simp only [ServiceConsumer.saveFold, localStateStore, wp_bind]
  refine wp_save rfl rfl (fun _ _ _ _ _ _ _ => trivial) (fun _ _ _ _ _ _ => trivial) ?_
  intro _ n t b p calls _ hp
  obtain ⟨failed, -, rfl⟩ := hp.calls_eq
  have hrow : event.sequence ≤ (Row.next event.orderId (s.table m.partition event.orderId)
      (applyEvent (w.store.fold m.partition event.orderId) event).1 event.eventId).lastSequence :=
    Row.fold_le_next _ _ (applyEvent (w.store.fold m.partition event.orderId) event).1 _
  rw [wp_pure]
  refine wp_storeFlush trivial (fun _ _ _ _ _ _ _ => trivial) fun n rs b p pos _ _ => ?_
  unfold ServiceConsumer.crashIfConfigured
  split
  · trivial
  unfold ServiceConsumer.commit ServiceConsumer.commits buildCommitStrategy
  rw [if_neg (by simp [hx])]
  unfold recordOf
  rw [← hw]
  exact wp_directNote trivial (fun _ _ => ⟨_, hrow, by simp⟩) fun _ _ => ⟨_, hrow, by simp⟩

theorem wp_handleMessage_deletes (hx : c.settings.exactlyOnce = false) (hm : m.value = none)
    (hw : w.handling = m.id) :
    wp (ServiceConsumer.handleMessage c (localStateStore c.toDeployment c.groupId env) env m)
      (fun _ t => .produce (recordOf c env m (keyOf m) none) true ∈ t.trace) (fun _ _ => True) w := by
  unfold ServiceConsumer.handleMessage
  rw [hm]
  simp only [ServiceConsumer.handleTombstone, localStateStore, wp_bind]
  refine wp_delete rfl (fun _ _ _ _ _ _ _ => trivial) (fun _ _ _ _ _ _ => trivial) ?_
  intro n s b p calls _ hp _
  obtain ⟨failed, -, rfl⟩ := hp.calls_eq
  unfold ServiceConsumer.commit ServiceConsumer.commits buildCommitStrategy
  rw [if_neg (by simp [hx])]
  unfold recordOf
  rw [← hw]
  exact wp_directNote trivial (fun _ _ => by simp) fun _ _ => by simp

/-- What `m` did to the stores is in what a crash leaves, once its offset is committed. -/
structure Accounted (c : Service) (env : Env) (m : Message) (w : World) : Prop where
  folded : ∀ event, Folds c env m event → m.offset < (w.broker.committed m.tp).getD 0 →
    ∃ row, event.sequence ≤ row.lastSequence ∧
      recordOf c env m event.orderId (some row) ∈ w.broker.delivered ∧
      Rebuilds c (recordOf c env m event.orderId (some row)) w
  deleted : m.value = none → m.offset < (w.broker.committed m.tp).getD 0 →
    recordOf c env m (keyOf m) none ∈ w.broker.delivered ∧
      Rebuilds c (recordOf c env m (keyOf m) none) w

/-- What the trace shows of a message that was handled. -/
def Recorded (c : Service) (env : Env) (m : Message) (calls : List Call) : Prop :=
  (∀ event, Folds c env m event → ∃ row, event.sequence ≤ row.lastSequence ∧
    .produce (recordOf c env m event.orderId (some row)) true ∈ calls) ∧
  (m.value = none → .produce (recordOf c env m (keyOf m) none) true ∈ calls)

theorem wp_localStep_recorded (hx : c.settings.exactlyOnce = false)
    (horder : c.settings.stateWriteOrder = .stateFirst) :
    wp (ServiceConsumer.localStep c (env, .message m)) (fun _ t => Recorded c env m t.trace)
      (fun _ _ => True) w := by
  have hstep : ∀ P : World → Prop, (∀ u : World, u.handling = m.id →
      wp (ServiceConsumer.handleMessage c (localStateStore c.toDeployment c.groupId env) env m)
        (fun _ => P) (fun _ _ => True) u) →
      wp (ServiceConsumer.localStep c (env, .message m)) (fun _ => P) (fun _ _ => True) w := by
    intro P hP
    simp only [ServiceConsumer.localStep, ServiceConsumer.step, receive, wp_bind, wp_modify,
      wp_record]
    refine wp_mono (hP _ ?_) (fun _ _ ht => wp_settle_direct hx ht) fun _ _ he => he
    rfl
  rw [wp_iff_forall]
  refine ⟨fun _ t ht => ⟨fun event hevent => ?_, fun hnone => ?_⟩, fun _ _ _ => trivial⟩
  · exact exec_of_wp (hstep _ fun u hu => wp_handleMessage_folds hx horder hevent hu) ht
  · exact exec_of_wp (hstep _ fun u hu => wp_handleMessage_deletes hx hnone hu) ht

theorem ChangelogAhead.accounted (h : ChangelogAhead c w) (hm : Recorded c env m past)
    (hpast : past ⊆ w.trace) : Accounted c env m w where
  folded event hevent hlt := by
    obtain ⟨row, hle, hrow⟩ := hm.1 event hevent
    exact ⟨row, hle, h _ (hpast hrow) rfl hlt⟩
  deleted hnone hlt := h _ (hpast (hm.2 hnone)) rfl hlt

theorem Steady.restart (h : Steady c past b₀ w) : Steady c w.trace b₀ w where
  ledger := { h.ledger with past_subset := fun _ hcall => hcall }
  flushed := h.flushed
  inStep := h.inStep
  committed_le := h.committed_le

theorem Steady.start (hw : Built w) (hdelivered : w.broker.delivered = []) :
    Steady c [] w.broker w where
  ledger := {
    txn_eq := by rw [hw.producer_eq]
    foldsOn := by rw [hw.producer_eq]; simp [FoldsOn]
    entries_eq := fun i => by rw [hdelivered]; simp [entriesOn]
    kept := fun i h => by rw [hdelivered] at h; exact absurd rfl h
    rising := fun i => by
      unfold logged
      rw [hdelivered, hw.producer_eq]
      exact .nil
    produced := fun q hq => by rw [hw.trace_eq] at hq; cases hq
    past_subset := fun _ hcall => by cases hcall }
  flushed q hq := by rw [hw.producer_eq] at hq; cases hq
  inStep i := by
    rintro ⟨tp, htp, -⟩
    rw [hw.assignment_eq] at htp
    cases htp
  committed_le tp htp := by rw [hw.assignment_eq] at htp; cases htp

/-- **The changelog is ahead of the committed offset** in every state of a run and wherever it dies:
what was produced for a message below the offset is acknowledged and survives the crash. So what a
message folded or deleted is recovered. -/
theorem changelog_ahead (c : Service) (ls : List (Env × ServiceConsumer.Label)) (w : World)
    (hx : c.settings.exactlyOnce = false) (horder : c.settings.stateWriteOrder = .stateFirst)
    (hfull : c.settings.stateRebuild = .full) (hw : Built w) (hdelivered : w.broker.delivered = [])
    (hl : Along (ServiceConsumer.localStep c) (Acknowledging c) ls w) :
    wp (ls.forM (ServiceConsumer.localStep c)) (fun _ => ChangelogAhead c)
      (fun _ => ChangelogAhead c) w ∧
    ∀ pre env m post s t, ls = pre ++ (env, .message m) :: post →
      (pre.forM (ServiceConsumer.localStep c)).exec w = (.ok ⟨⟩, s) →
      (ServiceConsumer.localStep c (env, .message m)).exec s = (.ok ⟨⟩, t) →
      wp (post.forM (ServiceConsumer.localStep c)) (fun _ => Accounted c env m)
        (fun _ => Accounted c env m) t := by
  have hrun : ∀ {past ls w₀}, Steady c past w.broker w₀ →
      Along (ServiceConsumer.localStep c) (Acknowledging c) ls w₀ →
      wp (ls.forM (ServiceConsumer.localStep c)) (fun _ => Steady c past w.broker)
        (fun _ => Ahead c past w.broker) w₀ := fun h hl =>
    wp_run (fun _ l h hl => wp_localStep_steady hx horder hfull l h hl) h hl
  have hstart : Steady c [] w.broker w := .start hw hdelivered
  refine ⟨wp_mono (hrun hstart hl) (fun _ _ ht => ht.ahead.changelogAhead hfull)
    fun _ _ ht => ht.changelogAhead hfull, ?_⟩
  rintro pre env m post s t rfl hpre hstep
  have hs : Steady c [] w.broker s := exec_of_wp (hrun hstart hl.take) hpre
  obtain ⟨hguard, hpost⟩ := hl.drop hpre
  have ht : Steady c [] w.broker t :=
    exec_of_wp (wp_localStep_steady hx horder hfull _ hs hguard) hstep
  have hrecorded : Recorded c env m t.trace := exec_of_wp (wp_localStep_recorded hx horder) hstep
  exact wp_mono (hrun ht.restart (hpost t hstep))
    (fun _ u hu => (hu.ahead.changelogAhead hfull).accounted hrecorded hu.ledger.past_subset)
    fun _ u hu => (hu.changelogAhead hfull).accounted hrecorded hu.ledger.past_subset

/-- A service at least once, whose every event is the first of order `o`. -/
def directPacker : Service where
  toDeployment := .onePartition {} fun _ => .event ⟨"e1", "o", 1, .orderCreated, Nat.one_pos⟩
  name := "packing"
  handlers := []

def lane : TopicPartition := ⟨"order-fold.packing-service", 0⟩

def eventMessage : Message :=
  ⟨"order-lifecycle", 0, 0, some "o".toUTF8, some "v".toUTF8, [], -1⟩

def tombstoneMessage : Message := ⟨"order-lifecycle", 0, 1, some "o".toUTF8, none, [], -1⟩

def assignLifecycle : Env × ServiceConsumer.Label := ({}, .assign [⟨"order-lifecycle", 0⟩])

/-- An event is folded and its tombstone follows; `reports` are served as the tombstone's record is
produced. -/
def foldThenDelete (reports : List TopicPartition) : List (Env × ServiceConsumer.Label) :=
  [assignLifecycle, ({ servedByFlush := [lane] }, .message eventMessage),
    ({ servedByPoll := reports }, .message tombstoneMessage)]

theorem changelog_ahead_foldThenDelete :
    wp ((foldThenDelete [lane]).forM (ServiceConsumer.localStep directPacker))
      (fun _ => ChangelogAhead directPacker) (fun _ => ChangelogAhead directPacker) {} := by
  refine (changelog_ahead directPacker (foldThenDelete [lane]) {} rfl rfl rfl ⟨rfl, rfl, rfl, rfl, rfl⟩
    rfl ?_).1
  refine .cons ⟨fun _ _ h => (nomatch h), rfl, fun _ h => (nomatch h)⟩
    (.cons ⟨⟨?_, ?_⟩, rfl, ?_⟩ (.cons ⟨⟨?_, ?_⟩, rfl, ?_⟩ trivial))
  · decide +kernel
  · decide +kernel
  · rintro _ ⟨⟩
    exact ⟨fun _ _ _ _ => rfl, fun h => (nomatch h)⟩
  · decide +kernel
  · decide +kernel
  · rintro _ ⟨⟩
    refine ⟨fun _ _ h => (nomatch h), fun _ => ?_⟩
    decide +kernel

/-- The offset of a tombstone is committed while its record is queued: the record is lost with the
process, and the rebuilt store has the order again. -/
theorem tombstone_unflushed :
    Along (ServiceConsumer.localStep directPacker) ServiceConsumer.Contract (foldThenDelete []) {} ∧
    ∃ t, ((foldThenDelete []).forM (ServiceConsumer.localStep directPacker)).exec {} = (.ok ⟨⟩, t) ∧
      ¬ ChangelogAhead directPacker t ∧
      ((LocalStateStore.restore directPacker.toDeployment directPacker.groupId {} [0]).exec
        { broker := t.broker }).2.store.table 0 "o" ≠ none := by
  refine ⟨?_, _, exec_eq_of_ok (by decide +kernel), fun h => ?_, by decide +kernel⟩
  · refine .cons (fun _ _ h => (nomatch h)) (.cons ⟨?_, ?_⟩ (.cons ⟨?_, ?_⟩ trivial))
    all_goals decide +kernel
  · have hdelivered := (h (recordOf directPacker {} tombstoneMessage "o" none)
      (List.mem_of_getElem? (i := 5) (by rfl)) rfl (by decide +kernel)).1
    revert hdelivered
    decide +kernel

end OrderService
