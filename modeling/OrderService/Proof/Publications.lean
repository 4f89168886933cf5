import OrderService.Proof.Sites

/-!
# Where a step publishes

A member hands changelog records to the producer for the partition of the message it handles and for no
other (`wp_localStep_publishes`), if the message is on its order's partition.
-/

namespace OrderService

open Eff KeyedLog

variable {d : Deployment} {groupId : String} {c : Service} {env : Env} {w : World} {m : Message}
  {b b' : Broker} {p p' : ProducerState}

/-! ## What a step publishes to -/

/-- The changelog partitions that records were produced to. -/
def publishedTo (calls : List Call) : List Nat := calls.filterMap fun
  | .produce q _ => if q.isFold then some q.partition else none
  | _ => none

@[simp] theorem publishedTo_append (calls more : List Call) :
    publishedTo (calls ++ more) = publishedTo calls ++ publishedTo more := List.filterMap_append

/-- From `w` to `t` changelog records were produced to the partitions `ps` only. -/
def PublishesTo (ps : List Nat) (w t : World) : Prop :=
  ∃ calls, t.trace = w.trace ++ calls ∧ publishedTo calls ⊆ ps

variable {ps : List Nat} {t u : World}

theorem PublishesTo.of_trace (h : t.trace = w.trace) : PublishesTo ps w t :=
  ⟨[], by rw [h, List.append_nil], by simp [publishedTo]⟩

theorem PublishesTo.after (h' : PublishesTo ps t u) (h : PublishesTo ps w t) : PublishesTo ps w u := by
  obtain ⟨calls, ht, hcalls⟩ := h
  obtain ⟨more, hu, hmore⟩ := h'
  refine ⟨calls ++ more, by rw [hu, ht, List.append_assoc], ?_⟩
  rw [publishedTo_append]
  exact List.append_subset.2 ⟨hcalls, hmore⟩

/-- A rule for a step from `t` is one for a step from `w`. -/
theorem wp_after {α : Type} {x : M α} (h : PublishesTo ps w t)
    (hx : wp x (fun _ => PublishesTo ps t) (fun _ => PublishesTo ps t) t) :
    wp x (fun _ => PublishesTo ps w) (fun _ => PublishesTo ps w) t :=
  wp_mono hx (fun _ _ hu => hu.after h) fun _ _ hu => hu.after h

/-- Attempts to produce one record. -/
theorem publishedTo_attempts {q : Queued} {calls : List Call} (hq : q.isFold = true → q.partition ∈ ps)
    (h : ∀ call ∈ calls, ∃ ok, call = .produce q ok) : publishedTo calls ⊆ ps := by
  intro i hi
  obtain ⟨call, hcall, hi⟩ := List.mem_filterMap.1 hi
  obtain ⟨ok, rfl⟩ := h call hcall
  cases hfold : q.isFold with
  | true =>
    simp only [hfold, if_true, Option.some.injEq] at hi
    rw [← hi]
    exact hq hfold
  | false =>
    simp only [hfold, Bool.false_eq_true, if_false] at hi
    cases hi

theorem Unpublished.publishedTo {q : Queued} {calls : List Call} (h : Unpublished q b p b' p' calls)
    (hq : q.partition ∈ ps) : OrderService.publishedTo calls ⊆ ps :=
  publishedTo_attempts (fun _ => hq) fun call hcall => ⟨false, h.calls_eq call hcall⟩

theorem Published.publishedTo {q : Queued} {calls : List Call} (h : Published d q b p b' p' calls)
    (hq : q.partition ∈ ps) : OrderService.publishedTo calls ⊆ ps := by
  obtain ⟨failed, hfailed, rfl⟩ := h.calls_eq
  refine publishedTo_attempts (fun _ => hq) fun call hcall => ?_
  obtain hcall | hcall := List.mem_append.1 hcall
  · exact ⟨false, hfailed call hcall⟩
  · exact ⟨true, List.mem_singleton.1 hcall⟩

theorem wp_commit_publishes :
    wp (ServiceConsumer.commit c env m) (fun _ => PublishesTo ps w) (fun _ => PublishesTo ps w) w := by
  have hnothing : ∀ {t : World} {calls}, t.trace = w.trace ++ calls → OrderService.publishedTo calls = [] →
      PublishesTo ps w t := fun ht hcalls => ⟨_, ht, by rw [hcalls]; exact List.nil_subset _⟩
  unfold ServiceConsumer.commit ServiceConsumer.commits buildCommitStrategy
  split
  · exact wp_note (fun _ => .of_trace rfl) (fun _ _ _ _ => hnothing rfl rfl) (fun _ => .of_trace rfl)
      fun _ _ _ _ => hnothing rfl rfl
  · exact wp_directNote (.of_trace rfl) (fun _ _ => hnothing rfl rfl) fun _ _ => hnothing rfl rfl

theorem wp_rewind_publishes :
    wp (ServiceConsumer.rewind env m) (fun _ => PublishesTo ps w) (fun _ => PublishesTo ps w) w :=
  wp_rewind (.of_trace rfl) (fun _ _ => ⟨[.seek m.tp m.offset false], rfl, List.nil_subset _⟩)
    fun _ => ⟨[.seek m.tp m.offset true], rfl, List.nil_subset _⟩

theorem wp_routeFailure_publishes {exc : Exn} {attempt : Int} :
    wp (ServiceConsumer.routeFailure c env m exc attempt) (fun _ => PublishesTo ps w)
      (fun _ => PublishesTo ps w) w := by
  have hcopy : ∀ {q ok} {t : World}, IsFailureCopy c env m q →
      t.trace = w.trace ++ [.produce q ok] → PublishesTo ps w t := by
    intro q ok t hq ht
    refine ⟨_, ht, publishedTo_attempts (q := q) (fun hfold => ?_) fun call hcall => ?_⟩
    · cases hfold.symm.trans hq.isFold
    · exact ⟨ok, List.mem_singleton.1 hcall⟩
  refine wp_routeFailure (fun _ => .of_trace rfl) ?_ ?_ ?_ ?_
  · exact fun q n b p pos hq _ => hcopy hq rfl
  · exact fun q n _ hq => wp_after (hcopy hq rfl) wp_rewind_publishes
  · exact fun q n b p pos hq _ _ => wp_after (hcopy hq rfl) wp_rewind_publishes
  · exact fun q n b p pos hq _ _ => wp_after (hcopy hq rfl) wp_commit_publishes

theorem wp_handleMessage_publishes (hpart : OnItsPartition c m) :
    wp (ServiceConsumer.handleMessage c (localStateStore c.toDeployment groupId env) env m)
      (fun _ => PublishesTo [m.partition] w) (fun _ => PublishesTo [m.partition] w) w := by
  refine wp_handleMessage (fun _ _ _ _ => .of_trace rfl) (fun hnone => ?_) (fun _ => wp_commit_publishes)
    (fun _ _ _ _ _ _ _ _ => wp_after (.of_trace rfl) wp_routeFailure_publishes) ?_
  · have hq : ∀ handling, (LocalStateStore.changelogRecord c.toDeployment groupId env handling (keyOf m)
        none).partition ∈ [m.partition] := fun _ => List.mem_singleton.2 (hpart.1 hnone)
    simp only [ServiceConsumer.handleTombstone, localStateStore, wp_bind]
    refine wp_delete rfl ?_ ?_ ?_
    · exact fun _ n s b p calls hp => ⟨calls, rfl, hp.publishedTo (hq _)⟩
    · exact fun n s b p calls hp => ⟨calls, rfl, hp.publishedTo (hq _)⟩
    · intro n s b p calls _ hp _
      exact wp_after ⟨calls, rfl, hp.publishedTo (hq _)⟩ wp_commit_publishes
  · intro value event attempt n s reported hvalue _ hdecode _ _
    have hq : ∀ handling row, (LocalStateStore.changelogRecord c.toDeployment groupId env handling
        event.orderId row).partition ∈ [m.partition] :=
      fun _ _ => List.mem_singleton.2 (hpart.2 value event hvalue hdecode)
    refine wp_persistAndCommit_keeps (fun t ht => wp_after ht ?_) (fun t ht => ?_)
      (fun t ht => wp_after ht wp_commit_publishes) (fun _ ht => ht) (.of_trace rfl)
    · simp only [ServiceConsumer.saveFold, localStateStore, wp_bind]
      refine wp_save rfl rfl ?_ ?_ ?_
      · exact fun _ n s b p calls hp => ⟨calls, rfl, hp.publishedTo (hq _ _)⟩
      · exact fun n s b p calls hp => ⟨calls, rfl, hp.publishedTo (hq _ _)⟩
      · exact fun _ n s b p calls _ hp => ⟨calls, rfl, hp.publishedTo (hq _ _)⟩
    · exact wp_storeFlush ht (fun _ _ _ _ _ _ _ => ht) fun _ _ _ _ _ _ _ => ht

/-! ## Steps -/

theorem CommitFailed.publishedTo {offsets : TopicPartition → Option Nat} {calls : List Call}
    (h : CommitFailed offsets p p' calls) : OrderService.publishedTo calls = [] := by
  cases h with
  | unsent hcalls => obtain rfl | rfl := hcalls <;> rfl
  | sent _ hcalls => obtain rfl | rfl := hcalls <;> rfl

theorem wp_settle_publishes {store : StateStore} :
    wp (ServiceConsumer.settle c store env) (fun _ => PublishesTo ps w) (fun _ => PublishesTo ps w) w := by
  refine wp_settle (.of_trace rfl) ?_ ?_ ?_
  · exact fun _ n p calls _ _ hp => ⟨calls, rfl, by rw [hp.publishedTo]; exact List.nil_subset _⟩
  · exact fun n p calls _ _ hp => ⟨calls, rfl, by rw [hp.publishedTo]; exact List.nil_subset _⟩
  · exact fun n t b pos _ _ _ => ⟨_, rfl, List.nil_subset _⟩

theorem wp_abort_publishes {reason : String} :
    wp ((ServiceConsumer.commits c env).abort reason) (fun _ => PublishesTo ps w)
      (fun _ => PublishesTo ps w) w := by
  unfold ServiceConsumer.commits buildCommitStrategy
  split
  · change wp (TransactionalCommitter.abort _ _ _ reason) _ _ _
    refine wp_abort (fun _ => .of_trace rfl) (fun _ n calls _ _ hcalls => ⟨calls, rfl, ?_⟩)
      (fun _ _ _ => ⟨_, rfl, List.nil_subset _⟩) fun _ _ _ _ _ => ⟨_, rfl, List.nil_subset _⟩
    obtain rfl | rfl := hcalls
    · exact List.nil_subset _
    · exact List.nil_subset _
  · exact .of_trace rfl

theorem wp_release_publishes (env : Env) (tps : List TopicPartition) (reason : String) :
    wp (do
      let _ ← (ServiceConsumer.commits c env).abort reason
      ServiceConsumer.forget (localStateStore c.toDeployment c.groupId env) tps
      modify fun w => w.unassign tps) (fun _ => PublishesTo ps w) (fun _ => PublishesTo ps w) w := by
  simp only [wp_bind]
  refine wp_mono wp_abort_publishes (fun _ t ht => ?_) fun _ _ he => he
  exact wp_forget (fun _ => ht) ht (fun _ _ _ _ _ _ _ => ht) fun _ _ _ _ _ _ _ => ht

/-- The partitions of the messages of a step. -/
def messagePartitions : ServiceConsumer.Label → List Nat
  | .message m => [m.partition]
  | _ => []

/-- **A step publishes to the partition of its message only**, also if it raises. -/
theorem wp_localStep_publishes {l : Env × ServiceConsumer.Label} (hl : DeliversOnPartition c l) :
    wp (ServiceConsumer.localStep c l) (fun _ => PublishesTo (messagePartitions l.2) w)
      (fun _ => PublishesTo (messagePartitions l.2) w) w := by
  obtain ⟨env, l⟩ := l
  have hset : ∀ {ps}, PublishesTo ps w { w with crashIn := env.crashIn } := .of_trace rfl
  refine ServiceConsumer.wp_localStep (fun tps _ => ?_) (fun tps reason _ => ?_) (fun _ => ?_)
    (fun _ _ _ => ⟨hset, hset⟩) fun m hm => ?_
  · exact wp_restore (fun _ _ _ => ⟨_, rfl, List.nil_subset _⟩) fun _ _ _ => ⟨_, rfl, List.nil_subset _⟩
  · exact wp_after hset (wp_release_publishes env tps reason)
  · exact wp_after hset wp_settle_publishes
  · subst hm
    have hpoll : PublishesTo [m.partition] w { w with
        position := Function.update w.position m.tp (m.offset + 1), handling := m.id
        crashIn := env.crashIn, trace := w.trace ++ [.poll m.id] } := ⟨_, rfl, List.nil_subset _⟩
    refine wp_mono (wp_after hpoll (wp_handleMessage_publishes hl)) (fun _ t ht => ?_) fun _ _ he => he
    exact wp_after ht wp_settle_publishes

end OrderService
