import OrderService.Consumer.Runtime
import OrderService.Proof.Client

/-!
# Rules for the commit strategies

`note`, `maybe_commit` and `abort` of the two committers, and `_settle` over them. A commit that
fails has already forgotten its transaction (`commit` resets in a `finally`) when `_settle` asks for
the abort, so the repair finds nothing to do: `_settle` is its `maybe_commit` (`wp_settle`).
-/

namespace OrderService

open Eff

variable {d : Deployment} {groupId : String} {env : Env} {w : World} {m : Message}
variable {R : Unit → World → Prop} {E : Exn → World → Prop}

/-- The committer once `m` is noted in an open transaction. -/
def CommitterState.noted (c : CommitterState) (m : Message) : CommitterState := { c with
  offsets := Function.update c.offsets m.tp (some (m.offset + 1))
  touched := c.touched.insert m.partition
  messages := c.messages + 1 }

/-! ## At least once -/

theorem wp_directNote (hcrash : E .crash w)
    (hrejected : ∀ n, env.commit ≠ none → R ⟨⟩ { w with
      crashIn := n, trace := w.trace ++ [.commit m.tp (m.offset + 1) false] })
    (hok : ∀ n, env.commit = none → R ⟨⟩ { w with
      broker := { w.broker with
        committed := Function.update w.broker.committed m.tp (some (m.offset + 1)) }
      crashIn := n, trace := w.trace ++ [.commit m.tp (m.offset + 1) true] }) :
    wp (DirectCommitter.note env m) R E w := by
  simp only [DirectCommitter.note, wp_tryCatch]
  exact wp_commitOffset hcrash (fun k n h => hrejected n h) hok

/-! ## Exactly once -/

/-- The exceptions of a transactional call: a `KafkaException`, or `ProducerFenced` in its place. -/
def Exn.ofTransaction : Exn → Prop
  | .kafka e => e.isFenced = false
  | .producerFenced _ | .crash => True
  | _ => False

/-- The broker refuses a commit, and not because the producer was fenced. -/
def RefusesCommit (env : Env) : Prop :=
  ∃ k, (env.sendOffsets = some k ∨ env.commitTransaction = some k) ∧ k.isFenced = false

def RefusesAbort (env : Env) : Prop := ∃ k, env.abortTransaction = some k ∧ k.isFenced = false

/-- The exceptions of a commit; a `KafkaException` is the broker's, if a transaction is open. -/
def Exn.ofCommit (env : Env) (p : ProducerState) (e : Exn) : Prop :=
  e.ofTransaction ∧ ∀ k, e = .kafka k → p.txn ≠ none → RefusesCommit env

/-- `_raise_if_fenced` and the `raise` after it. -/
theorem wp_raiseIfFenced {k : KafkaException} {α : Type} {R : α → World → Prop} {x : M α}
    (hfenced : k.isFenced = true → ∀ text, E (.producerFenced text) w)
    (hx : k.isFenced = false → wp x R E w) :
    wp (TransactionalCommitter.raiseIfFenced d groupId (.kafka k) >>= fun _ => x) R E w := by
  simp only [TransactionalCommitter.raiseIfFenced, wp_bind]
  split
  · rename_i h
    exact hfenced h _
  · rename_i h
    exact hx (by simpa using h)

theorem wp_raiseIfFenced_crash {α : Type} {R : α → World → Prop} {x : M α} :
    wp (TransactionalCommitter.raiseIfFenced d groupId .crash >>= fun _ => x) R E w ↔
      wp x R E w := by
  simp [TransactionalCommitter.raiseIfFenced]

theorem wp_note (hcrash : w.committer.isOpen = false → E .crash w)
    (hfail : ∀ e n, e.ofTransaction → w.committer.isOpen = false → E e { w with
      crashIn := n, trace := w.trace ++ [.beginTransaction false] })
    (hopen : w.committer.isOpen = true → R ⟨⟩ { w with committer := w.committer.noted m })
    (hbegin : ∀ n at', w.committer.isOpen = false → w.producer.txn = none → R ⟨⟩ { w with
      producer := { w.producer with txn := some {} }
      committer := CommitterState.noted
        { w.committer with isOpen := true, messages := 0, openedAt := at' } m
      crashIn := n, trace := w.trace ++ [.beginTransaction true] }) :
    wp (TransactionalCommitter.note d groupId env m) R E w := by
  simp only [TransactionalCommitter.note, TransactionalCommitter.beginIfNeeded, wp_bind, wp_get]
  split
  · rename_i h
    exact hopen h
  · rename_i h
    replace h : w.committer.isOpen = false := by simpa using h
    simp only [wp_bind, wp_tryCatch]
    refine wp_beginTransaction ?_ (fun k n => ?_) fun n htxn => ?_
    · rw [← wp_bind, wp_raiseIfFenced_crash]
      exact hcrash h
    · rw [← wp_bind]
      exact wp_raiseIfFenced (fun _ _ => hfail _ n trivial h) fun hk => hfail _ n hk h
    · exact hbegin n _ h htxn

/-- How far a commit that failed got: nothing was sent, or the offsets joined the transaction. -/
inductive CommitFailed (offsets : TopicPartition → Option Nat) (p : ProducerState) :
    ProducerState → List Call → Prop where
  | unsent {calls : List Call} : calls = [] ∨ calls = [.sendOffsets offsets false] →
      CommitFailed offsets p p calls
  | sent {t : Transaction} {calls : List Call} : p.txn = some t →
      calls = [.sendOffsets offsets true] ∨
        calls = [.sendOffsets offsets true, .commitTransaction false] →
      CommitFailed offsets p { p with
        txn := some { t with offsets := fun tp => (offsets tp).or (t.offsets tp) } } calls

theorem CommitFailed.queue_eq {offsets : TopicPartition → Option Nat} {p p' : ProducerState}
    {calls : List Call} (h : CommitFailed offsets p p' calls) : p'.queue = p.queue := by
  cases h <;> rfl

theorem CommitFailed.txn_some {offsets : TopicPartition → Option Nat} {p p' : ProducerState}
    {calls : List Call} (h : CommitFailed offsets p p' calls) : p'.txn.isSome = p.txn.isSome := by
  cases h with
  | unsent => rfl
  | sent htxn => rw [htxn]; rfl

theorem CommitFailed.records_eq {offsets : TopicPartition → Option Nat} {p p' : ProducerState}
    {calls : List Call} (h : CommitFailed offsets p p' calls) :
    p'.txn.map (·.records) = p.txn.map (·.records) := by
  cases h with
  | unsent => rfl
  | sent htxn => rw [htxn]; rfl

theorem wp_commit
    (hclosed : w.committer.isOpen = false → R ⟨⟩ w)
    (hfail : ∀ e n p calls, e.ofCommit env w.producer → w.committer.isOpen = true →
      CommitFailed w.committer.offsets w.producer p calls → E e { w with
        producer := p, committer := {}, crashIn := n, trace := w.trace ++ calls })
    (hok : ∀ n t b pos, w.committer.isOpen = true → w.producer.txn = some t →
      Committed w.broker
        { t with offsets := fun tp => (w.committer.offsets tp).or (t.offsets tp) } b →
      R ⟨⟩ { w with
        broker := b, producer := { w.producer with txn := none }
        store := { w.store with position := pos }, committer := {}, crashIn := n
        trace := w.trace ++ [.sendOffsets w.committer.offsets true, .commitTransaction true] }) :
    wp (TransactionalCommitter.commit d groupId env) R E w := by
  simp only [TransactionalCommitter.commit, wp_bind, wp_get]
  split
  · rename_i h
    exact hclosed (by simpa using h)
  · rename_i h
    replace h : w.committer.isOpen = true := by simpa using h
    simp only [wp_tryFinally, wp_tryCatch, wp_bind, wp_get, TransactionalCommitter.reset, wp_modify]
    -- whatever is raised passes `_raise_if_fenced` and then the `finally`
    have hraise : ∀ (e : Exn) n p calls, e = .crash ∨ (∃ k, e = .kafka k ∧
          (w.producer.txn ≠ none → env.sendOffsets = some k ∨ env.commitTransaction = some k)) →
        CommitFailed w.committer.offsets w.producer p calls →
        wp (TransactionalCommitter.raiseIfFenced d groupId e >>= fun _ => throw e)
          (fun (_ : Unit) t => R ⟨⟩ { t with committer := {} })
          (fun e t => E e { t with committer := {} })
          { w with producer := p, crashIn := n, trace := w.trace ++ calls } := by
      rintro e n p calls (rfl | ⟨k, rfl, hrefused⟩) hf
      · rw [wp_raiseIfFenced_crash]
        exact hfail _ n p calls ⟨trivial, fun _ he => by cases he⟩ h hf
      · refine wp_raiseIfFenced (fun _ _ => hfail _ n p calls ⟨trivial, fun _ he => by cases he⟩ h hf)
          fun hk => hfail _ n p calls ⟨hk, fun k' he hopen => ?_⟩ h hf
        cases he
        exact ⟨k, hrefused hopen, hk⟩
    have hnil : ∀ w : World, { w with trace := w.trace ++ [] } = w := fun w => by simp
    refine wp_sendOffsetsToTransaction ?_ (fun k n hsend => ?_) fun n t htxn _ => ?_
    · have := hraise .crash w.crashIn w.producer [] (.inl rfl) (.unsent (.inl rfl))
      rw [hnil, wp_bind] at this
      exact this
    · rw [← wp_bind]
      exact hraise (.kafka k) n w.producer _ (.inr ⟨k, rfl, fun hopen => .inl (hsend hopen)⟩)
        (.unsent (.inr rfl))
    · refine wp_commitTransaction ?_ (fun k n hcommit => ?_) fun n t' b pos ht' _ hb => ?_
      · rw [← wp_bind]
        exact hraise .crash n _ _ (.inl rfl) (.sent htxn (.inl rfl))
      · rw [← wp_bind]
        have hrefused : w.producer.txn ≠ none →
            env.sendOffsets = some k ∨ env.commitTransaction = some k :=
          fun _ => .inr (hcommit (by simp))
        have := hraise (.kafka k) n _ _ (.inr ⟨k, rfl, hrefused⟩) (.sent htxn (.inr rfl))
        simpa only [List.append_assoc, List.cons_append, List.nil_append] using this
      · cases ht'
        have := hok n t b pos h htxn hb
        simpa only [List.append_assoc, List.cons_append, List.nil_append] using this

theorem wp_maybeCommit (hidle : R ⟨⟩ w)
    (hfail : ∀ e n p calls, e.ofCommit env w.producer → w.committer.isOpen = true →
      CommitFailed w.committer.offsets w.producer p calls → E e { w with
        producer := p, committer := {}, crashIn := n, trace := w.trace ++ calls })
    (hok : ∀ n t b pos, w.committer.isOpen = true → w.producer.txn = some t →
      Committed w.broker
        { t with offsets := fun tp => (w.committer.offsets tp).or (t.offsets tp) } b →
      R ⟨⟩ { w with
        broker := b, producer := { w.producer with txn := none }
        store := { w.store with position := pos }, committer := {}, crashIn := n
        trace := w.trace ++ [.sendOffsets w.committer.offsets true, .commitTransaction true] }) :
    wp (TransactionalCommitter.maybeCommit d groupId env) R E w := by
  simp only [TransactionalCommitter.maybeCommit, wp_bind, wp_get]
  split
  · exact hidle
  · split
    · exact wp_commit (fun _ => hidle) hfail hok
    · exact hidle

theorem wp_abort {reason : String} {R : List Nat → World → Prop}
    (hclosed : w.committer.isOpen = false → R [] w)
    (herr : ∀ e n calls, w.committer.isOpen = true → e = .crash ∨ (∃ t, e = .producerFenced t) →
      calls = [] ∨ calls = [.abortTransaction false] → E e { w with
        committer := {}, crashIn := n, trace := w.trace ++ calls })
    (hfail : ∀ n, w.committer.isOpen = true → (w.producer.txn ≠ none → RefusesAbort env) →
      R w.committer.touched { w with
        committer := {}, crashIn := n, trace := w.trace ++ [.abortTransaction false] })
    (hok : ∀ n t (gap : Nat → Nat), w.committer.isOpen = true → w.producer.txn = some t →
      R w.committer.touched { w with
        broker := { w.broker with changelog := fun p => (w.broker.changelog p).skip (gap p) }
        producer := { w.producer with txn := none }, committer := {}, crashIn := n
        trace := w.trace ++ [.abortTransaction true] }) :
    wp (TransactionalCommitter.abort d groupId env reason) R E w := by
  simp only [TransactionalCommitter.abort, wp_bind, wp_get]
  split
  · rename_i h
    exact hclosed (by simpa using h)
  · rename_i h
    replace h : w.committer.isOpen = true := by simpa using h
    simp only [wp_bind, wp_tryFinally, wp_tryCatch, TransactionalCommitter.reset, wp_modify, wp_pure]
    refine wp_abortTransaction ?_ (fun k n hrefused => ?_) fun n t gap htxn _ => hok n t gap h htxn
    · rw [← wp_bind, wp_raiseIfFenced_crash]
      have := herr .crash w.crashIn [] h (.inl rfl) (.inl rfl)
      simpa using this
    · rw [← wp_bind]
      exact wp_raiseIfFenced (fun _ text => herr _ n _ h (.inr ⟨text, rfl⟩) (.inr rfl))
        fun hk => hfail n h fun hopen => ⟨k, hrefused hopen, hk⟩

/-! ## Settling -/

variable {c : Service} {store : StateStore}

/-- **`_settle` never repairs**: after a commit that failed it aborts nothing and rebuilds nothing. -/
theorem wp_settle (hidle : R ⟨⟩ w)
    (herr : ∀ e n p calls, e = .crash ∨ (∃ t, e = .producerFenced t) →
      w.committer.isOpen = true → CommitFailed w.committer.offsets w.producer p calls → E e { w with
        producer := p, committer := {}, crashIn := n, trace := w.trace ++ calls })
    (hfail : ∀ n p calls, w.committer.isOpen = true → (w.producer.txn ≠ none → RefusesCommit env) →
      CommitFailed w.committer.offsets w.producer p calls → R ⟨⟩ { w with
        producer := p, committer := {}, crashIn := n, trace := w.trace ++ calls })
    (hok : ∀ n t b pos, w.committer.isOpen = true → w.producer.txn = some t →
      Committed w.broker
        { t with offsets := fun tp => (w.committer.offsets tp).or (t.offsets tp) } b →
      R ⟨⟩ { w with
        broker := b, producer := { w.producer with txn := none }
        store := { w.store with position := pos }, committer := {}, crashIn := n
        trace := w.trace ++ [.sendOffsets w.committer.offsets true, .commitTransaction true] }) :
    wp (ServiceConsumer.settle c store env) R E w := by
  simp only [ServiceConsumer.settle, ServiceConsumer.commits, buildCommitStrategy, wp_tryCatch]
  split
  · rename_i heo
    refine wp_maybeCommit hidle (fun e n p calls he h hf => ?_) hok
    cases e with
    | kafka k =>
      simp only [ServiceConsumer.abortAndRepair, ServiceConsumer.commits, buildCommitStrategy, heo,
        if_true, transactionalCommitter, TransactionalCommitter.abort, wp_bind, wp_get, wp_pure,
        Bool.not_false]
      exact hfail n p calls h (he.2 k rfl) hf
    | producerFenced text => exact herr _ n p calls (.inr ⟨text, rfl⟩) h hf
    | crash => exact herr _ n p calls (.inl rfl) h hf
    | _ => exact he.1.elim
  · exact hidle

end OrderService
