import Mathlib.Algebra.Order.Monoid.Unbundled.WithTop
import Mathlib.Data.Finset.Max
import OrderService.Proof.Committer
import OrderService.Proof.NoSkip

/-!
# Where an aborted transaction is read again

`_abort_and_repair` seeks each partition back to its committed offset. A partition with nothing
committed is left where it is, behind the messages of the aborted transaction: these are read again
exactly if there are none (`abort_rewinds_iff`, `first_transaction_skipped`).
-/

namespace OrderService

open Eff

/-! ## The next message -/

/-- The offset of the next message of a log with messages at `log`, read from `position`. -/
def nextFrom (log : Finset Nat) (position : Nat) : WithTop Nat := (log.filter (position ≤ ·)).min

theorem nextFrom_le {log : Finset Nat} {position o : Nat} (ho : o ∈ log) (hle : position ≤ o) :
    nextFrom log position ≤ o := Finset.min_le (Finset.mem_filter.2 ⟨ho, hle⟩)

theorem le_nextFrom (log : Finset Nat) (position : Nat) : position ≤ nextFrom log position :=
  Finset.le_min fun _ ho => WithTop.coe_le_coe.2 (Finset.mem_filter.1 ho).2

/-- Two positions have the same next message exactly if no message lies between them. -/
theorem nextFrom_eq_iff {log : Finset Nat} {p q : Nat} :
    nextFrom log p = nextFrom log q ↔ ∀ o ∈ log, (p ≤ o ↔ q ≤ o) := by
  constructor
  · intro h o ho
    constructor
    · intro hp
      have hle := nextFrom_le ho hp
      rw [h] at hle
      exact WithTop.coe_le_coe.1 ((le_nextFrom log q).trans hle)
    · intro hq
      have hle := nextFrom_le ho hq
      rw [← h] at hle
      exact WithTop.coe_le_coe.1 ((le_nextFrom log p).trans hle)
  · intro h
    unfold nextFrom
    rw [Finset.filter_congr h]

variable {c : Service} {backend : StateBackend} {env : Env} {w t : World}

/-- Where a partition is read from if only what is committed counts (`auto.offset.reset=earliest`). -/
def World.uncovered (w : World) (tp : TopicPartition) : Nat := (w.broker.committed tp).getD 0

/-- Of the messages of `tp`, at the offsets `log`, the next one is the first that no committed
transaction covers, and all that are not covered are still to come. -/
structure Rewound (log : Finset Nat) (w t : World) (tp : TopicPartition) : Prop where
  next_eq : nextFrom log (t.position tp) = nextFrom log (w.uncovered tp)
  to_come : ∀ o ∈ log, w.uncovered tp ≤ o → t.position tp ≤ o

theorem rewound_iff {log : Finset Nat} {tp : TopicPartition} :
    Rewound log w t tp ↔ ∀ o ∈ log, (t.position tp ≤ o ↔ w.uncovered tp ≤ o) :=
  ⟨fun h => nextFrom_eq_iff.1 h.next_eq, fun h => ⟨nextFrom_eq_iff.2 h, fun o ho => (h o ho).2⟩⟩

/-! ## Rewinding -/

/-- The owned partitions with numbers among `ps` are read from their committed offsets, those that have
one; the others as before. -/
structure SoughtBack (ps : List Nat) (w t : World) : Prop where
  assignment_eq : t.assignment = w.assignment
  committed_eq : t.broker.committed = w.broker.committed
  position_eq : ∀ tp, t.position tp = if tp ∈ w.assignment ∧ tp.partition ∈ ps then
    (w.broker.committed tp).getD (w.position tp) else w.position tp

open ServiceConsumer

/-- The loop of `_rewind_partition`. -/
theorem wp_seekAll {E : Exn → World → Prop} {committed : TopicPartition → Option Nat}
    (hseek : ∀ tp, env.seek tp = none) (hcrash : ∀ t, E .crash t) (tps : List TopicPartition)
    (t : World) :
    wp ((tps.map fun tp => (tp, committed tp)).forM fun (tp, offset) =>
        match offset with
        | none => pure ()
        | some offset => seek env tp offset)
      (fun _ u => u.assignment = t.assignment ∧ u.broker.committed = t.broker.committed ∧
        ∀ tp, u.position tp =
          if tp ∈ tps then (committed tp).getD (t.position tp) else t.position tp) E t := by
  induction tps generalizing t with
  | nil => exact ⟨rfl, rfl, fun tp => by simp⟩
  | cons tp tps ih =>
    rw [List.map_cons]
    change wp (_ >>= fun _ => (tps.map fun tp => (tp, committed tp)).forM _) _ _ _
    rw [wp_bind]
    rcases hc : committed tp with _ | offset
    · rw [wp_pure]
      refine wp_mono (ih t) (fun _ u hu => ⟨hu.1, hu.2.1, fun tp' => ?_⟩) fun _ _ he => he
      rw [hu.2.2]
      obtain rfl | hne := eq_or_ne tp' tp
      · simp [hc]
      · simp [hne]
    · refine wp_seek (hcrash t) (fun _ _ hfail => absurd (hseek tp) hfail) fun n _ => ?_
      refine wp_mono (ih _) (fun _ u hu => ⟨hu.1, hu.2.1, fun tp' => ?_⟩) fun _ _ he => he
      rw [hu.2.2]
      obtain rfl | hne := eq_or_ne tp' tp
      · simp [hc]
      · simp [hne]

theorem wp_rewindPartition {E : Exn → World → Prop} (hseek : ∀ tp, env.seek tp = none)
    (hfetch : env.fetchCommitted = none) (hcrash : ∀ t, E .crash t) (p : Nat) :
    wp (rewindPartition env p) (fun _ t => SoughtBack [p] w t) E w := by
  simp only [rewindPartition, wp_bind, wp_get]
  split
  · rename_i hnone
    refine ⟨rfl, rfl, fun tp => ?_⟩
    rw [if_neg]
    rintro ⟨htp, hp⟩
    have hmem : tp ∈ w.assignment.filter (·.partition = p) :=
      List.mem_filter.2 ⟨htp, by simpa using hp⟩
    rw [hnone] at hmem
    cases hmem
  · rw [wp_tryCatch, wp_bind]
    refine wp_fetchCommitted (hcrash w) (fun _ _ hfail => absurd hfetch hfail) fun n => ?_
    refine wp_mono (wp_seekAll (E := fun e t => e = .crash) hseek (fun _ => rfl) _ _)
      (fun _ t ht => ⟨ht.1, ht.2.1, fun tp => ?_⟩) ?_
    · rw [ht.2.2]
      simp
    · rintro _ t rfl
      exact hcrash t

theorem SoughtBack.concat {ps : List Nat} {p : Nat} {u : World} (h : SoughtBack ps w t)
    (h' : SoughtBack [p] t u) : SoughtBack (ps ++ [p]) w u := by
  refine ⟨h'.assignment_eq.trans h.assignment_eq, h'.committed_eq.trans h.committed_eq, fun tp => ?_⟩
  rw [h'.position_eq, h.position_eq, h.assignment_eq, h.committed_eq]
  simp only [List.mem_append, List.mem_singleton]
  by_cases hown : tp ∈ w.assignment
  · by_cases hps : tp.partition ∈ ps
    · rcases w.broker.committed tp with _ | offset <;> simp [hown, hps]
    · simp [hown, hps]
  · simp [hown]

theorem wp_rewindAll {E : Exn → World → Prop} (hseek : ∀ tp, env.seek tp = none)
    (hfetch : env.fetchCommitted = none) (hcrash : ∀ t, E .crash t) (ps : List Nat) :
    wp (ps.forM (rewindPartition env)) (fun _ t => SoughtBack ps w t) E w := by
  refine wp_forM_prefix (I := fun pre t => SoughtBack pre w t) ⟨rfl, rfl, fun tp => by simp⟩ ?_
  intro pre p post _ t ht
  exact wp_mono (wp_rewindPartition hseek hfetch hcrash p) (fun _ u hu => ht.concat hu) fun _ _ he => he

/-! ## The repair -/

/-- The partitions written to by the transaction that an abort finds open. -/
def touchedBy (c : Service) (w : World) : List Nat :=
  if c.settings.exactlyOnce && w.committer.isOpen then w.committer.touched else []

theorem wp_abort_touched {reason : String} {E : Exn → World → Prop} (hE : ∀ e t, E e t) :
    wp ((commits c env).abort reason) (fun ps t => ps = touchedBy c w ∧ Keeps w t) E w := by
  unfold commits buildCommitStrategy touchedBy
  split
  · rename_i hx
    refine (wp_abort (fun hclosed => ?_) (fun e n calls _ _ _ => hE e _) (fun n hopen _ => ?_)
      fun n t gap hopen _ => ?_ : wp (TransactionalCommitter.abort _ _ env reason) _ E w)
    · exact ⟨by simp [hclosed], .refl w⟩
    · exact ⟨by simp [hx, hopen], rfl, rfl, rfl, rfl, poll_mem_append (by simp), id⟩
    · exact ⟨by simp [hx, hopen], rfl, rfl, rfl, rfl, poll_mem_append (by simp), fun _ => rfl⟩
  · rename_i hx
    exact ⟨by simp [hx], .refl w⟩

theorem wp_discard_keeps {ps : List Nat} {d : Deployment} {groupId : String} :
    wp ((buildStateStore backend d groupId env).discard ps) (fun _ t => Keeps w t)
      (fun _ t => Keeps w t) w := by
  have hkeeps : ∀ n s, Keeps w { w with
      store := s, crashIn := n, trace := w.trace ++ [.discard ps] } :=
    fun _ _ => ⟨rfl, rfl, rfl, rfl, poll_mem_append (by simp), id⟩
  cases backend with
  | memory => exact ⟨rfl, rfl, rfl, rfl, fun _ => Iff.rfl, id⟩
  | «local» => exact wp_discard (fun _ n s => hkeeps n s) fun n s _ => hkeeps n s

/-- **The rewind of an aborted transaction**: every owned partition it touched is read from its
committed offset, if it has one. -/
theorem wp_abortAndRepair {reason : String} {E : Exn → World → Prop} (hseek : ∀ tp, env.seek tp = none)
    (hfetch : env.fetchCommitted = none) (hE : ∀ e t, E e t) :
    wp (abortAndRepair c (buildStateStore backend c.toDeployment c.groupId env) env reason)
      (fun _ t => SoughtBack (touchedBy c w) w t) E w := by
  simp only [abortAndRepair, wp_bind]
  refine wp_mono (wp_abort_touched hE) (fun ps t ht => ?_) fun _ _ he => he
  obtain ⟨rfl, hkeeps⟩ := ht
  split
  · rename_i hnone
    refine ⟨hkeeps.assignment_eq, hkeeps.committed_eq, fun tp => ?_⟩
    rw [hkeeps.position_eq, hnone]
    simp
  · simp only [wp_bind]
    refine wp_mono wp_discard_keeps (fun _ u hu => ?_) fun _ _ _ => hE _ _
    refine wp_mono wp_restore_keeps (fun _ v hv => ?_) fun _ _ _ => hE _ _
    have hall := (hkeeps.trans hu).trans hv
    refine wp_mono (wp_rewindAll hseek hfetch (fun t => hE .crash t) _) (fun _ x hx => ?_) fun _ _ he => he
    refine ⟨hx.assignment_eq.trans hall.assignment_eq, hx.committed_eq.trans hall.committed_eq,
      fun tp => ?_⟩
    rw [hx.position_eq, hall.assignment_eq, hall.committed_eq, hall.position_eq]
    simp only [mem_sortedSet]

/-- **Every message of the aborted transaction comes again, and nothing before it**, exactly if no
partition it touched was read for the first time: one without a committed offset must have no message
below its position. `log` has the offsets of the messages of each topic-partition. -/
theorem abort_rewinds_iff (c : Service) (backend : StateBackend) (env : Env) (reason : String)
    (log : TopicPartition → Finset Nat) (w t : World) (hseek : ∀ tp, env.seek tp = none)
    (hfetch : env.fetchCommitted = none)
    (hrun : (abortAndRepair c (buildStateStore backend c.toDeployment c.groupId env) env reason).exec w =
      (.ok ⟨⟩, t)) :
    (∀ tp ∈ t.assignment, tp.partition ∈ touchedBy c w → Rewound (log tp) w t tp) ↔
      ∀ tp ∈ w.assignment, tp.partition ∈ touchedBy c w → w.broker.committed tp = none →
        ∀ o ∈ log tp, w.position tp ≤ o := by
  have hback : SoughtBack (touchedBy c w) w t :=
    exec_of_wp (wp_abortAndRepair (E := fun _ _ => True) hseek hfetch fun _ _ => trivial) hrun
  rw [hback.assignment_eq]
  refine forall_congr' fun tp => forall_congr' fun hown => forall_congr' fun htouched => ?_
  rw [rewound_iff, hback.position_eq, if_pos ⟨hown, htouched⟩]
  unfold World.uncovered
  rcases w.broker.committed tp with _ | offset
  · simp
  · simp

/-! ## The first transaction of a group -/

/-- A service exactly once, whose every event is the first of order `o`. -/
def batchingPacker : Service where
  toDeployment := .onePartition { processingGuarantee := .exactlyOnce }
    fun _ => .event ⟨"e1", "o", 1, .orderCreated, Nat.one_pos⟩
  name := "packing"
  handlers := []

def lifecyclePartition : TopicPartition := ⟨"order-lifecycle", 0⟩

def snapshotPartition : TopicPartition := ⟨"order-snapshot", 0⟩

/-- The process reads a snapshot, which opens a transaction, and folds the event at `offset` in it; the
group has committed `committed`. -/
def oneFolded (committed : Option Nat) (offset : Nat) : Except Exn Unit × World :=
  ([({}, .assign [snapshotPartition, lifecyclePartition]),
    ({}, .message ⟨"order-snapshot", 0, offset, some "o".toUTF8, some "v".toUTF8, [], -1⟩),
    ({}, .message ⟨"order-lifecycle", 0, offset, some "o".toUTF8, some "v".toUTF8, [], -1⟩)].forM
      (ServiceConsumer.localStep batchingPacker)).exec
    { broker := { committed := fun _ => committed } }

/-- The repair that follows. -/
def repaired (committed : Option Nat) (offset : Nat) : Except Exn Unit × World :=
  (abortAndRepair batchingPacker (localStateStore batchingPacker.toDeployment batchingPacker.groupId {})
    {} "commit failed").exec (oneFolded committed offset).2

/-- The group has committed offset 5 on both topics, and its messages from there on come again. -/
theorem abort_rewinds_iff_committed :
    (oneFolded (some 5) 5).1 = .ok ⟨⟩ ∧ (repaired (some 5) 5).1 = .ok ⟨⟩ ∧
      lifecyclePartition ∈ (repaired (some 5) 5).2.assignment ∧
      touchedBy batchingPacker (oneFolded (some 5) 5).2 = [0] ∧
      Rewound {3, 5, 8} (oneFolded (some 5) 5).2 (repaired (some 5) 5).2 lifecyclePartition := by
  refine ⟨by decide +kernel, by decide +kernel, by decide +kernel, by decide +kernel, ?_⟩
  refine (abort_rewinds_iff batchingPacker .local {} "commit failed" (fun _ => {3, 5, 8}) _ _
    (fun _ => rfl) rfl (exec_eq_of_ok (by decide +kernel))).2 ?_ lifecyclePartition (by decide +kernel)
    (by decide +kernel)
  have hall : ∀ tp ∈ (oneFolded (some 5) 5).2.assignment,
      (oneFolded (some 5) 5).2.broker.committed tp ≠ none := by decide +kernel
  exact fun tp htp _ hnone => absurd hnone (hall tp htp)

/-- A group that has committed nothing: the event folded in its first transaction, which is aborted, is
not read again. -/
theorem first_transaction_skipped :
    (oneFolded none 0).1 = .ok ⟨⟩ ∧ (repaired none 0).1 = .ok ⟨⟩ ∧
      lifecyclePartition ∈ (repaired none 0).2.assignment ∧
      touchedBy batchingPacker (oneFolded none 0).2 = [0] ∧
      (oneFolded none 0).2.committer.offsets lifecyclePartition = some 1 ∧
      (repaired none 0).2.position lifecyclePartition = 1 ∧
      ¬ Rewound {0, 1} (oneFolded none 0).2 (repaired none 0).2 lifecyclePartition := by
  refine ⟨by decide +kernel, by decide +kernel, by decide +kernel, by decide +kernel, by decide +kernel,
    by decide +kernel, fun h => ?_⟩
  have hcome := h.to_come 0 (by decide) (by decide +kernel)
  revert hcome
  decide +kernel

end OrderService
