import OrderService.Consumer.Hops
import OrderService.Proof.Invariance
import OrderService.Proof.Runtime

/-!
# The copies a turn publishes

A turn of a service publishes one copy of its message at most, that of a failure (`wp_handleMessage_copied`),
and so does a turn of the worker (`RetryWorker.wp_handleMessage_copied`), whatever goes wrong. What a
consumer reads in the headers of a copy is what was written there (`Queued.PolledAs.decodeHeaders_eq`).
-/

namespace OrderService

open Eff

/-! ## Calls that publish no copy -/

@[simp] theorem copiesIn_nil : copiesIn [] = [] := rfl

@[simp] theorem copiesIn_append (l₁ l₂ : List Call) :
    copiesIn (l₁ ++ l₂) = copiesIn l₁ ++ copiesIn l₂ := List.filterMap_append

/-- One copy at most was published since `w`, and it is one of `P`. -/
def Copied (P : Queued → Prop) (w t : World) : Prop :=
  copiesIn t.trace = copiesIn w.trace ∨ ∃ q, P q ∧ copiesIn t.trace = copiesIn w.trace ++ [q]

/-- No copy was published since `w`. -/
def NoCopy (w t : World) : Prop := copiesIn t.trace = copiesIn w.trace

variable {P : Queued → Prop} {w t u : World}

theorem NoCopy.copied (h : NoCopy w t) : Copied P w t := .inl h

theorem NoCopy.trans (h : NoCopy w t) (h' : NoCopy t u) : NoCopy w u := Eq.trans h' h

theorem Copied.then_noCopy (h : Copied P w t) (h' : NoCopy t u) : Copied P w u := by
  unfold Copied at *
  rw [show copiesIn u.trace = copiesIn t.trace from h']
  exact h

theorem NoCopy.add {calls : List Call} (h : copiesIn calls = []) (hw : u.trace = w.trace ++ calls) :
    NoCopy w u := by
  unfold NoCopy
  rw [hw, copiesIn_append, h, List.append_nil]

theorem trace_report (w : World) (tp : TopicPartition) : (w.report tp).trace = w.trace := by
  unfold World.report
  split
  · rfl
  · split
    · unfold World.acknowledge
      split <;> rfl
    · rfl

theorem stable_noCopy : Stable (NoCopy w) where
  crashIn _ _ h := h
  record t q ok hq h := by
    refine h.trans (.add ?_ rfl)
    cases ok <;> simp [copiesIn, hq]
  report t tp h := by
    unfold NoCopy
    rw [trace_report]
    exact h

/-! ## A turn of a service -/

section Service

variable {c : Service} {backend : StateBackend} {env : Env} {m : Message} {d : Deployment}
variable {groupId : String} {i : Nat} {k : String}

theorem wp_load_noCopy (h : NoCopy w t) :
    wp ((buildStateStore backend d groupId env).load i k) (fun _ => NoCopy w) (fun _ => NoCopy w) t := by
  cases backend with
  | memory => exact h
  | «local» => exact stable_noCopy.load (fun _ _ h _ => h) h

theorem wp_save_noCopy {fold : OrderFold} {eventId : String} (h : NoCopy w t) :
    wp ((buildStateStore backend d groupId env).save i k fold eventId) (fun _ => NoCopy w)
      (fun _ => NoCopy w) t := by
  cases backend with
  | memory => exact h
  | «local» =>
    exact stable_noCopy.save (E := fun _ => NoCopy w) rfl (fun _ _ => h) (fun _ _ _ _ => h)
      (fun _ _ _ => h) (fun _ hu _ => hu) fun _ _ hu => hu

theorem wp_delete_noCopy (h : NoCopy w t) :
    wp ((buildStateStore backend d groupId env).delete i k) (fun _ => NoCopy w) (fun _ => NoCopy w)
      t := by
  cases backend with
  | memory => exact h
  | «local» =>
    exact stable_noCopy.delete (E := fun _ => NoCopy w) (fun _ _ => h) (fun _ _ _ _ => h)
      (fun _ _ _ => h) (fun _ hu _ => hu) fun _ _ hu => hu

theorem wp_storeFlush_noCopy (h : NoCopy w t) :
    wp ((buildStateStore backend d groupId env).flush) (fun _ => NoCopy w) (fun _ => NoCopy w) t := by
  cases backend with
  | memory => exact h
  | «local» => exact stable_noCopy.storeFlush h

theorem wp_commit_noCopy (h : NoCopy w t) :
    wp (ServiceConsumer.commit c env m) (fun _ => NoCopy w) (fun _ => NoCopy w) t := by
  unfold ServiceConsumer.commit ServiceConsumer.commits buildCommitStrategy
  split
  · refine wp_note (fun _ => h) (fun _ _ _ _ => ?_) (fun _ => h) fun _ _ _ _ => ?_
    · exact h.trans (.add rfl rfl)
    · exact h.trans (.add rfl rfl)
  · refine wp_directNote h (fun _ _ => ?_) fun _ _ => ?_
    · exact h.trans (.add rfl rfl)
    · exact h.trans (.add rfl rfl)

theorem wp_rewind_noCopy (h : NoCopy w t) :
    wp (ServiceConsumer.rewind env m) (fun _ => NoCopy w) (fun _ => NoCopy w) t :=
  wp_rewind h (fun _ _ => h.trans (.add rfl rfl)) fun _ => h.trans (.add rfl rfl)

theorem wp_persistAndCommit_noCopy {event : LifecycleEvent} {fold : OrderFold} (h : NoCopy w t) :
    wp (ServiceConsumer.persistAndCommit c (buildStateStore backend d groupId env) env m event fold i)
      (fun _ => NoCopy w) (fun _ => NoCopy w) t := by
  refine wp_persistAndCommit_keeps (fun t ht => ?_) (fun t ht => wp_storeFlush_noCopy ht)
    (fun t ht => wp_commit_noCopy ht) (fun _ ht => ht) h
  simp only [ServiceConsumer.saveFold, wp_bind, wp_pure]
  exact wp_save_noCopy ht

/-- The copy `q` is that of a failed attempt at `m`. -/
def FailureOf (c : Service) (env : Env) (m : Message) (q : Queued) : Prop :=
  ¬ Skipped c m ∧ ∃ exc, FailsWith c env m exc ∧
    RoutedCopy c env m exc (attemptOf c.std (decodeHeaders m)) q

theorem wp_routeFailure_copied {exc : Exn} {attempt : Int} (h : NoCopy w t)
    (hcopy : ∀ q, RoutedCopy c env m exc attempt q → P q) :
    wp (ServiceConsumer.routeFailure c env m exc attempt) (fun _ => Copied P w) (fun _ => Copied P w)
      t := by
  have hpublished : ∀ q u, RoutedCopy c env m exc attempt q → u.trace = t.trace ++ [.produce q true] →
      ∀ v, NoCopy u v → Copied P w v := by
    intro q u hq hu v hv
    refine .inr ⟨q, hcopy q hq, ?_⟩
    rw [show copiesIn v.trace = copiesIn u.trace from hv, hu, copiesIn_append,
      show copiesIn t.trace = copiesIn w.trace from h]
    simp [copiesIn, hq.isFailureCopy.isFold]
  refine wp_routeFailure_exits (fun _ _ => h.copied) h.copied ?_ ?_ ?_ ?_
  · exact fun q n b p pos hq _ => hpublished q _ hq rfl _ rfl
  · intro q n _ _ hq
    have hrefused : NoCopy w { t with crashIn := n, trace := t.trace ++ [.produce q false] } :=
      h.trans (.add rfl rfl)
    exact wp_mono (wp_rewind_noCopy hrefused) (fun _ _ hu => hu.copied) fun _ _ hu => hu.copied
  · intro q n b p pos _ hq _ _
    exact wp_mono (wp_rewind_noCopy rfl) (fun _ u hu => hpublished q _ hq rfl u hu)
      fun _ u hu => hpublished q _ hq rfl u hu
  · intro q n b p pos hq _ _
    exact wp_mono (wp_commit_noCopy rfl) (fun _ u hu => hpublished q _ hq rfl u hu)
      fun _ u hu => hpublished q _ hq rfl u hu

/-- **A turn of a service** publishes one copy at most, that of a failure. -/
theorem wp_handleMessage_copied (w : World) :
    wp (ServiceConsumer.handleMessage c (buildStateStore backend c.toDeployment c.groupId env) env m)
      (fun _ => Copied (FailureOf c env m) w) (fun _ => Copied (FailureOf c env m) w) w := by
  have hquiet : ∀ {x : M Unit}, wp x (fun _ => NoCopy w) (fun _ => NoCopy w) w →
      wp x (fun _ => Copied (FailureOf c env m) w) (fun _ => Copied (FailureOf c env m) w) w := fun hx =>
    wp_mono hx (fun _ _ ht => ht.copied) fun _ _ ht => ht.copied
  refine wp_handleMessage_exits (fun _ => hquiet ?_) (fun _ => hquiet (wp_commit_noCopy rfl))
    (fun _ _ _ _ _ _ => .inl rfl) (fun value text hvalue hns hdecode => ?_) ?_
  · simp only [ServiceConsumer.handleTombstone, wp_bind]
    exact wp_mono (wp_delete_noCopy rfl) (fun _ t ht => wp_commit_noCopy ht) fun _ _ he => he
  · refine wp_routeFailure_copied rfl fun q hq => ⟨hns, _, ?_, hq⟩
    exact ⟨value, hvalue, .inl ⟨text, hdecode, rfl⟩⟩
  · intro value event hvalue hns hdecode
    refine wp_handleEvent_exits (fun _ => .inl rfl) fun _ => ?_
    refine wp_mono (wp_load_noCopy rfl) (fun current t ht reported => ?_) fun _ _ ht => ht.copied
    have ht' : NoCopy w { t with reported := reported } := ht
    refine wp_dispatch (fun _ _ _ => ht'.copied) (fun exc hraised _ => ?_) fun _ => ?_
    · refine wp_routeFailure_copied ht' fun q hq => ⟨hns, exc, ?_, hq⟩
      exact ⟨value, hvalue, .inr ⟨event, decode_eq_ok.2 hdecode, hraised⟩⟩
    · exact wp_mono (wp_persistAndCommit_noCopy ht') (fun _ _ hu => hu.copied) fun _ _ hu => hu.copied

end Service

/-! ## A turn of the worker -/

/-- The headers of a copy put back on its source topic. -/
def sourceHeaders (origin : Origin) (service groupId : String) (attempt : Int) : List (String × String) :=
  FailureRouter.provenance origin service groupId ++
    [(hdrAttempt, toString attempt),
      (hdrRetryTarget, service)]

namespace RetryWorker

variable {c : Worker} {env : Env} {m : Message}

/-- The service the message is for. -/
def serviceOf (m : Message) : String := (decodeHeaders m hdrService).getD ""

/-- The attempt a message of the retry topic is for. -/
def attemptFor (c : Worker) (m : Message) : Int := intHeader c.std (decodeHeaders m) hdrAttempt 2

theorem serviceOf_eq {service : String} (h : decodeHeaders m hdrService = some service) :
    serviceOf m = service := by
  unfold serviceOf
  rw [h]
  rfl

theorem attemptFor_eq {n : Int} (hint : c.std.int (toString n) = some n)
    (h : decodeHeaders m hdrAttempt = some (toString n)) : attemptFor c m = n := by
  unfold attemptFor intHeader
  rw [h, Option.bind_some, hint]
  rfl

/-- The worker can put the message back: its service is registered and its value decodes. -/
def Releasable (c : Worker) (m : Message) : Prop :=
  serviceOf m ∈ c.specs ∧ ∃ event, c.decodeJson m.value = .event event

/-- The worker can publish copies of the message: outside of a transaction, for it has none, and when
`x-retry-at` can be compared with the time. -/
structure Publishable (c : Worker) (m : Message) : Prop where
  direct : c.settings.exactlyOnce = false
  retryAt : ∀ reading, timeHeader c.std (decodeHeaders m) hdrRetryAt ≠ some (.naive reading)

/-- `q` is the copy the worker publishes of `m`. -/
inductive CopyOf (c : Worker) (env : Env) (m : Message) : Queued → Prop
  | release (origin : Origin) : Publishable c m →
      Origin.fromHeaders c.std (decodeHeaders m) m = .ok origin → Releasable c m →
      CopyOf c env m (FailureRouter.copyOf c.toDeployment env origin.topic m (sourceHeaders origin
        (serviceOf m) (c.settings.groupIdFor (serviceOf m)) (attemptFor c m)))
  | giveUp (origin : Origin) (service : String) (exc : Exn) : Publishable c m →
      Origin.fromHeaders c.std (decodeHeaders m) m = .ok origin → ¬ Releasable c m →
      CopyOf c env m (FailureRouter.copyOf c.toDeployment env c.settings.dlqTopic m
        (deadLetterHeaders c.toDeployment env origin service (c.settings.groupIdFor service)
          (attemptFor c m) exc))

theorem wp_commit_noCopy (h : NoCopy w t) :
    wp (commit env m) (fun _ => NoCopy w) (fun _ => NoCopy w) t := by
  simp only [commit, wp_tryCatch]
  refine wp_commitOffset h (fun _ _ _ => ?_) fun _ _ => ?_
  · exact h.trans (.add rfl rfl)
  · exact h.trans (.add rfl rfl)

theorem wp_rewind_noCopy (h : NoCopy w t) :
    wp (rewind env m) (fun _ => NoCopy w) (fun _ => NoCopy w) t := by
  simp only [rewind, wp_tryCatch]
  refine wp_seek h (fun _ _ _ => ?_) fun _ _ => ?_
  · exact h.trans (.add rfl rfl)
  · exact h.trans (.add rfl rfl)

theorem wp_defer_noCopy {due : Datetime} (h : NoCopy w t) :
    wp (defer env m due) (fun _ => NoCopy w) (fun _ => NoCopy w) t := by
  simp only [defer, wp_bind, wp_tryCatch]
  refine wp_pause h (fun _ _ _ => h) fun _ _ => ?_
  refine wp_seek h (fun _ _ _ => ?_) fun _ _ => ?_
  · exact h.trans (.add rfl rfl)
  · rw [wp_pure]
    cases due <;> exact h.trans (.add rfl rfl)

/-- A publication, and what is called after it. -/
theorem wp_published_copied {α : Type} {publication : M α} {next : Bool → M Unit} {topic : String}
    {headers : List (String × String)} (htxn : w.producer.txn = none)
    (hpublication : ∀ (R : World → Prop) E, wp publication (fun _ => R) E w ↔
      wp (FailureRouter.publish c.toDeployment env topic m headers) (fun _ => R) E w)
    (hP : c.settings.exactlyOnce = false → P (FailureRouter.copyOf c.toDeployment env topic m headers))
    (hnext : ∀ ok t, wp (next ok) (fun _ => NoCopy t) (fun _ => NoCopy t) t) :
    wp (published publication >>= next) (fun _ => Copied P w) (fun _ => Copied P w) w := by
  have hafter : ∀ ok t, Copied P w t → wp (next ok) (fun _ => Copied P w) (fun _ => Copied P w) t :=
    fun ok t ht => wp_mono (hnext ok t) (fun _ _ hu => ht.then_noCopy hu) fun _ _ hu => ht.then_noCopy hu
  have hpublished : c.settings.exactlyOnce = false → ∀ t : World, t.trace = w.trace ++
      [.produce (FailureRouter.copyOf c.toDeployment env topic m headers) true] → Copied P w t := by
    intro hdirect t ht
    refine .inr ⟨_, hP hdirect, ?_⟩
    rw [ht, copiesIn_append]
    rfl
  simp only [published, wp_tryCatch, wp_bind, wp_pure]
  rw [hpublication]
  refine wp_routerPublish rfl (.inl rfl) (fun _ n _ _ => ?_) ?_ ?_
  · have hrefused : NoCopy w { w with
        crashIn := n
        trace := w.trace ++
          [.produce (FailureRouter.copyOf c.toDeployment env topic m headers) false] } :=
      .add rfl rfl
    exact hafter false _ hrefused.copied
  · rintro e n b p pos hdirect (rfl | ⟨⟨text, rfl⟩, -⟩) -
    · exact hpublished hdirect _ rfl
    · exact hafter false _ (hpublished hdirect _ rfl)
  · intro n b p pos hp _
    have hdirect : c.settings.exactlyOnce = false := by
      by_contra hx
      exact hp.txn_ne_none (by simpa using hx) htxn
    exact hafter true _ (hpublished hdirect _ rfl)

section

variable {origin : Origin} (htxn : w.producer.txn = none)
variable (hretryAt : ∀ reading, timeHeader c.std (decodeHeaders m) hdrRetryAt ≠ some (.naive reading))
variable (horigin : Origin.fromHeaders c.std (decodeHeaders m) m = .ok origin)
include htxn hretryAt horigin

theorem wp_giveUp_copied {service : String} {exc : Exn} (hnot : ¬ Releasable c m) :
    wp (giveUp c env m origin service (attemptFor c m) exc) (fun _ => Copied (CopyOf c env m) w)
      (fun _ => Copied (CopyOf c env m) w) w := by
  have hcopy : c.settings.exactlyOnce = false →
      CopyOf c env m (FailureRouter.copyOf c.toDeployment env c.settings.dlqTopic m
        (deadLetterHeaders c.toDeployment env origin service (c.settings.groupIdFor service)
          (attemptFor c m) exc)) :=
    fun hdirect => .giveUp origin service exc ⟨hdirect, hretryAt⟩ horigin hnot
  unfold giveUp
  refine wp_published_copied htxn (fun R E => ?_) hcopy fun ok t => ?_
  · rw [FailureRouter.toDeadLetter, deadLetterHeaders]
  · cases ok with
    | true => exact wp_commit_noCopy rfl
    | false => exact wp_rewind_noCopy rfl

theorem wp_release_copied (hreleasable : Releasable c m) :
    wp (release c env m (serviceOf m) origin (attemptFor c m)) (fun _ => Copied (CopyOf c env m) w)
      (fun _ => Copied (CopyOf c env m) w) w := by
  have hcopy : c.settings.exactlyOnce = false →
      CopyOf c env m (FailureRouter.copyOf c.toDeployment env origin.topic m (sourceHeaders origin
        (serviceOf m) (c.settings.groupIdFor (serviceOf m)) (attemptFor c m))) :=
    fun hdirect => .release origin ⟨hdirect, hretryAt⟩ horigin hreleasable
  unfold release
  refine wp_published_copied htxn (fun R E => ?_) hcopy fun ok t => ?_
  · simp only [FailureRouter.toSource, sourceHeaders, wp_bind, wp_pure]
  · cases ok with
    | true => exact wp_commit_noCopy rfl
    | false => rfl

end

/-- **A turn of the worker** publishes one copy at most. -/
theorem wp_handleMessage_copied (htxn : w.producer.txn = none) :
    wp (handleMessage c env m) (fun _ => Copied (CopyOf c env m) w)
      (fun _ => Copied (CopyOf c env m) w) w := by
  simp only [handleMessage, wp_bind]
  rcases horigin : Origin.fromHeaders c.std (decodeHeaders m) m with e | origin
  · exact .inl rfl
  have hdue : (∀ reading, timeHeader c.std (decodeHeaders m) hdrRetryAt ≠ some (.naive reading)) →
      wp (handleDue c env m (decodeHeaders m) origin) (fun _ => Copied (CopyOf c env m) w)
        (fun _ => Copied (CopyOf c env m) w) w := by
    intro hretryAt
    unfold handleDue
    simp only []
    split
    · rename_i hservice
      exact wp_giveUp_copied htxn hretryAt horigin fun h => hservice h.1
    · rename_i hservice
      rcases hdecode : c.decodeJson m.value with event | text | e
      · exact wp_release_copied htxn hretryAt horigin ⟨not_not.1 hservice, event, hdecode⟩
      · refine wp_giveUp_copied htxn hretryAt horigin fun hreleasable => ?_
        obtain ⟨-, event, hevent⟩ := hreleasable
        cases hdecode.symm.trans hevent
      · exact .inl rfl
  simp only [ofExcept, wp_pure]
  rcases htime : timeHeader c.std (decodeHeaders m) hdrRetryAt with _ | t | t
  · refine hdue fun reading h => ?_
    cases htime.symm.trans h
  · have haware : ∀ reading, timeHeader c.std (decodeHeaders m) hdrRetryAt ≠ some (.naive reading) := by
      intro reading h
      cases htime.symm.trans h
    simp only [isAfterNow, wp_bind, wp_pure]
    rw [wp_ite]
    refine ⟨fun _ => ?_, fun _ => hdue haware⟩
    exact wp_mono (wp_defer_noCopy rfl) (fun _ _ ht => ht.copied) fun _ _ ht => ht.copied
  · exact .inl rfl

end RetryWorker

end OrderService
