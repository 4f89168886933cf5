import OrderService.Proof.Committer

/-!
# A commit that fails

What `_settle` owes after `send_offsets_to_transaction` or `commit_transaction` failed (`Repaired`),
and what it does: the committer has forgotten the transaction by then, so it is left open on the
producer, the stores it wrote to stay as they are, and nothing is rewound (`settle_after_failure`).
-/

namespace OrderService

open Eff

def Call.isAbort : Call → Bool
  | .abortTransaction _ => true
  | _ => false

/-- `discard` and `restore`. -/
def Call.isRebuild : Call → Bool
  | .discard _ | .restore _ => true
  | _ => false

/-- The repair of a failed transaction, as `_abort_and_repair` says it: aborted once, the stores it
touched discarded and then rebuilt, their partitions rewound to what is committed, and no
transaction left open on the producer. -/
structure Repaired (w w' : World) : Prop where
  calls : ∃ before between after discarded restored, w'.trace = w.trace ++
      (before ++ .discard discarded :: (between ++ .restore restored :: after)) ∧
    before.countP Call.isAbort = 1 ∧
    (∀ call ∈ between ++ after, call.isAbort = false) ∧
    (∀ call ∈ before ++ between ++ after, call.isRebuild = false) ∧
    (∀ p, p ∈ discarded ↔ p ∈ w.committer.touched) ∧
    (∀ p, p ∈ restored ↔ p ∈ w.committer.touched) ∧
    ∀ tp ∈ w.assignment, tp.partition ∈ w.committer.touched → ∀ o, w.broker.committed tp = some o →
      .seek tp o true ∈ after
  txn_eq : w'.producer.txn = none

variable {d : Deployment} {groupId : String} {c : Service} {env : Env} {w w₁ : World}

theorem CommitFailed.no_abort {offsets : TopicPartition → Option Nat} {p p' : ProducerState}
    {calls : List Call} (h : CommitFailed offsets p p' calls) :
    ∀ call ∈ calls, call.isAbort = false := by
  rcases h with (rfl | rfl) | ⟨-, rfl | rfl⟩ <;> simp [Call.isAbort]

/-- What a commit that failed leaves: the committer has forgotten the transaction, the producer has
not. -/
structure Abandoned (w w' : World) : Prop where
  committer_eq : w'.committer = {}
  txn_isSome : w'.producer.txn.isSome = w.producer.txn.isSome
  calls : ∃ calls, w'.trace = w.trace ++ calls ∧ ∀ call ∈ calls, call.isAbort = false

theorem wp_maybeCommit_abandoned : wp (TransactionalCommitter.maybeCommit d groupId env)
    (fun _ _ => True) (fun _ t => Abandoned w t) w :=
  wp_maybeCommit trivial
    (fun _ _ _ calls _ _ hf => ⟨rfl, hf.txn_some, calls, rfl, hf.no_abort⟩)
    (fun _ _ _ _ _ _ _ => trivial)

theorem Abandoned.not_repaired (h : Abandoned w w₁) : ¬ Repaired w w₁ := by
  rintro ⟨⟨before, between, after, ds, rs, htrace, habort, -⟩, -⟩
  obtain ⟨calls, hcalls, hno⟩ := h.calls
  rw [hcalls, List.append_cancel_left_eq] at htrace
  have hbefore : before.countP Call.isAbort = 0 := by
    rw [List.countP_eq_zero]
    intro call hcall
    have := hno call (htrace ▸ List.mem_append_left _ hcall)
    simp [this]
  omega

/-- A `_settle` whose commit raised returns with the committer's state gone. -/
theorem settle_after_failure {store : StateStore} {e : KafkaException}
    (h : (ServiceConsumer.commits c env).maybeCommit.exec w = (.error (.kafka e), w₁)) :
    (ServiceConsumer.settle c store env).exec w = (.ok ⟨⟩, w₁) ∧ Abandoned w w₁ := by
  unfold ServiceConsumer.commits buildCommitStrategy at h
  split at h
  · rename_i heo
    have hw₁ : Abandoned w w₁ := exec_of_wp wp_maybeCommit_abandoned h
    refine ⟨?_, hw₁⟩
    -- the abort that follows finds no open transaction
    have hrepair : wp (ServiceConsumer.abortAndRepair c store env "commit failed")
        (fun _ t => t = w₁) (fun _ _ => False) w₁ := by
      simp only [ServiceConsumer.abortAndRepair, ServiceConsumer.commits, buildCommitStrategy, heo,
        if_true, transactionalCommitter, TransactionalCommitter.abort, wp_bind, wp_get,
        hw₁.committer_eq, Bool.not_false, wp_pure]
    unfold ServiceConsumer.settle ServiceConsumer.commits buildCommitStrategy
    rw [if_pos heo, exec_tryCatch]
    simp only [h]
    obtain ⟨hok, herr⟩ := wp_iff_forall.1 hrepair
    rcases hexec : (ServiceConsumer.abortAndRepair c store env "commit failed").exec w₁ with
      ⟨e | ⟨⟩, t⟩
    · exact (herr e t hexec).elim
    · rw [hok _ t hexec]
  · cases congrArg Prod.fst h

/-- **No failed commit is ever repaired**: whatever the transaction, the failure and the intervals,
the `_settle` that saw it returns with the transaction still open on the producer and nothing
aborted. -/
theorem settle_never_repairs (c : Service) (store : StateStore) (env : Env) (w w₁ : World)
    (e : KafkaException)
    (hfail : (ServiceConsumer.commits c env).maybeCommit.exec w = (.error (.kafka e), w₁)) :
    (ServiceConsumer.settle c store env).exec w = (.ok ⟨⟩, w₁) ∧
      w₁.producer.txn.isSome = w.producer.txn.isSome ∧ ¬ Repaired w w₁ := by
  obtain ⟨hexec, hw₁⟩ : (ServiceConsumer.settle c store env).exec w = _ ∧ Abandoned w w₁ :=
    settle_after_failure hfail
  exact ⟨hexec, hw₁.txn_isSome, hw₁.not_repaired⟩

/-! One message noted, the commit refused by the broker. -/

def eagerPacking : Service where
  toDeployment := .onePartition
    { processingGuarantee := .exactlyOnce, transactionCommitIntervalMessages := 1 }
    fun _ => .invalid ""
  name := "packing"
  handlers := []

def refusedCommit : Env := { commitTransaction := some ⟨some (.other 51), "CONCURRENT_TRANSACTIONS"⟩ }

def openTransaction : World where
  assignment := [⟨"order-lifecycle", 0⟩]
  producer := { txn := some {} }
  committer := {
    isOpen := true, messages := 1, touched := [0]
    offsets := fun tp => if tp = ⟨"order-lifecycle", 0⟩ then some 1 else none }

/-- `_settle` of it, and then the next message: its transaction is begun over the failed one. -/
def settleRefused : Except Exn Unit × World :=
  (ServiceConsumer.settle eagerPacking memoryStateStore refusedCommit).exec openTransaction

def nextNote : Except Exn Unit × World :=
  (TransactionalCommitter.note eagerPacking.toDeployment "packing-service" {}
    { topic := "order-lifecycle", partition := 0, offset := 1, key := none, value := none }).exec
    settleRefused.2

theorem settle_never_repairs_refused :
    settleRefused.2.producer.txn.isSome = true ∧ ¬ Repaired openTransaction settleRefused.2 :=
  (settle_never_repairs eagerPacking memoryStateStore refusedCommit openTransaction _
    ⟨some (.other 51), "CONCURRENT_TRANSACTIONS"⟩ rfl).2

/-- The calls made are the two of the commit, and then a `begin_transaction` that fails. -/
theorem refused_commit_left_open :
    settleRefused.1 = .ok ⟨⟩ ∧ settleRefused.2.trace.countP Call.isAbort = 0 ∧
      ¬ Repaired openTransaction settleRefused.2 ∧ settleRefused.2.producer.txn.isSome = true ∧
      (∃ calls, nextNote.2.trace = calls ++ [.beginTransaction false]) ∧
      nextNote.1 = .error (.kafka (stateError "a transaction is already open")) := by
  refine ⟨rfl, rfl, ?_, rfl, ⟨settleRefused.2.trace, rfl⟩, rfl⟩
  rintro ⟨-, htxn⟩
  cases htxn

end OrderService
