import OrderService.Proof.Hops

/-!
# How long a message hops

The worker puts a message back where its headers say it came from, and where it is if they do not say. So
a message of the retry topic without `x-original-topic` goes round for ever once its service is known and
its value decodes (`LoopsBack.endless`); any other leaves the topic at each visit, and its copies are within
the budget (`bounded_iff`).
-/

namespace OrderService

open Eff

namespace RetryWorker

/-- The worker would put the message back on the retry topic. -/
structure LoopsBack (w : Worker) (m : Message) : Prop where
  publishable : Publishable w m
  releasable : Releasable w m
  returns : ∃ origin, Origin.fromHeaders w.std (decodeHeaders m) m = .ok origin ∧
    origin.topic = w.settings.retryTopic

/-- No endless hop: the worker never publishes a copy of `m₀` to the topic it consumes, a visit publishes
one copy and is then over, and there are no more visits and no more runs of a handler, all of one service,
than `m₀` has attempts. -/
structure Bounded (w : Worker) (m₀ : Message) : Prop where
  visits_le : ∀ visits failed m, Lineage w m₀ visits failed m → (visits : Int) ≤ w.settings.attempts
  failed_le : ∀ visits failed m, Lineage w m₀ visits failed m → (failed.length : Int) ≤ w.settings.attempts
  runs_le : ∀ visits failed m c, Lineage w m₀ visits failed m → Service.DeployedWith c w → c.Attempts m →
    (failed.length : Int) + 1 ≤ w.settings.attempts ∧ c.name = serviceOf m₀
  leaves : ∀ visits failed m env q, Lineage w m₀ visits failed m → m.topic = w.settings.retryTopic →
    Copies w env m q → q.topic ≠ w.settings.retryTopic
  once : ∀ m env t calls, t.producer.txn = none →
    ((handleMessage w env m).exec t).2.trace = t.trace ++ calls → (copiesIn calls).length ≤ 1
  ends : ∀ m env t, Healthy w env m t → Readable w env m → ¬ Waits w env m →
    wp (handleMessage w env m) (fun _ u => MovedOn w m t u) (fun _ _ => False) t

variable {w : Worker} {c : Service} {env : Env} {m₀ m m' : Message} {q : Queued}
variable {visits : Nat} {failed : List Attempt}

/-! ## A message that leaves -/

/-- Where a message stands after its visits to the worker and the failed attempts at it. -/
inductive Visited (w : Worker) (m₀ : Message) : Nat → List Attempt → Message → Prop
  | first : Visited w m₀ 0 [] m₀
  | released {visits : Nat} {failed : List Attempt} {m : Message} (n : Int) : visits = failed.length + 1 →
      m.topic ≠ w.settings.retryTopic → decodeHeaders m hdrAttempt = some (toString n) →
      (visits : Int) ≤ max 1 n → (visits : Int) ≤ w.settings.attempts →
      decodeHeaders m hdrRetryTarget = some (serviceOf m₀) → Visited w m₀ visits failed m
  | waiting {visits : Nat} {failed : List Attempt} {m : Message} (n : Int) (origin : Origin) :
      visits = failed.length → m.topic = w.settings.retryTopic →
      Carries (decodeHeaders m) origin (serviceOf m₀) → origin.topic ≠ w.settings.retryTopic →
      decodeHeaders m hdrAttempt = some (toString n) → (visits : Int) + 1 ≤ n →
      n ≤ w.settings.retryMaxAttempts → Visited w m₀ visits failed m
  | dead {visits : Nat} {failed : List Attempt} {m : Message} : m.topic = w.settings.dlqTopic →
      (visits : Int) ≤ w.settings.attempts → (failed.length : Int) ≤ w.settings.attempts →
      Visited w m₀ visits failed m

theorem Visited.bounds (h : Visited w m₀ visits failed m) :
    (visits : Int) ≤ w.settings.attempts ∧ (failed.length : Int) ≤ w.settings.attempts := by
  have hone : 1 ≤ w.settings.attempts := by
    unfold Settings.attempts
    omega
  cases h with
  | first =>
    simp only [List.length_nil]
    omega
  | released _ hvisits _ _ _ hle _ => omega
  | waiting n _ hvisits _ _ _ _ hn hmax =>
    unfold Settings.attempts
    omega
  | dead _ hvisits hfailed => exact ⟨hvisits, hfailed⟩

section

variable (hsep : w.settings.Separate) (hint : w.std.ReadsInts)
variable (hretry : m₀.topic = w.settings.retryTopic)

include hsep hretry

/-- Only a message the worker has put back is attempted, by the service it is for. -/
theorem Visited.attempts (h : Visited w m₀ visits failed m) (hdeployed : c.DeployedWith w)
    (hc : c.Attempts m) : c.name = serviceOf m₀ ∧ visits = failed.length + 1 ∧
      ∃ n : Int, decodeHeaders m hdrAttempt = some (toString n) ∧ (visits : Int) ≤ max 1 n ∧
        (visits : Int) ≤ w.settings.attempts := by
  obtain ⟨hnot, hdlq⟩ := hsep.consumes hdeployed hc.consumes
  cases h with
  | first => exact absurd hretry hnot
  | waiting _ _ _ hwaiting _ _ _ _ _ => exact absurd hwaiting hnot
  | dead hdead _ _ => exact absurd hdead hdlq
  | released n hvisits _ hattempt hn hle htarget =>
    refine ⟨?_, hvisits, n, hattempt, hn, hle⟩
    by_contra hne
    refine hc.own ⟨hc.event, .inr ?_⟩
    simpa [ServiceConsumer.isForeignRetry, htarget] using Ne.symm hne

include hint

theorem Visited.attempt (h : Visited w m₀ visits failed m) (hdeployed : c.DeployedWith w)
    (hc : c.Consumes m) (hcopy : FailureOf c env m q) (hpolled : q.PolledAs m') :
    Visited w m₀ visits (⟨c.name, m⟩ :: failed) m' := by
  obtain ⟨origin, horigin, honce, hcarries⟩ := hcopy.carries
  have htopic := hcopy.topic_eq hc
  have hread := hpolled.decodeHeaders_eq honce
  obtain ⟨hns, exc, ⟨value, hvalue, -⟩, hrouted⟩ := hcopy
  obtain ⟨hname, hvisits, n, hattempt, hn, hle⟩ :=
    h.attempts hsep hretry hdeployed ⟨hc, by simp [hvalue], hns⟩
  have hcount : attemptOf c.std (decodeHeaders m) = max 1 n := by
    simp only [attemptOf, hattempt, hdeployed.deployment_eq]
    rw [hint n]
  have hscheduled := hrouted.scheduled
  rw [hcount] at hscheduled
  unfold Scheduled at hscheduled
  split at hscheduled
  · rename_i hretries
    obtain ⟨-, hwithin⟩ := hretries
    obtain ⟨hwaiting, hnext, -⟩ := hscheduled
    rw [hdeployed.deployment_eq] at hwaiting hwithin horigin htopic
    refine .waiting (max 1 n + 1) origin hvisits (hpolled.topic_eq.trans hwaiting) ?_ ?_ ?_ ?_ ?_
    · rw [hread, ← hname]
      exact hcarries
    · obtain ⟨text, -, rfl⟩ := fromMessage_eq horigin
      simp only [htopic, if_neg hsep.lifecycle_named]
      exact hsep.retry_ne_lifecycle.symm
    · rw [hread, hnext]
    · omega
    · omega
  · refine .dead (hpolled.topic_eq.trans ?_) hle ?_
    · rw [hscheduled.1, hdeployed.deployment_eq]
    · simp only [List.length_cons]
      omega

variable (hnot : ¬ LoopsBack w m₀)

include hnot

omit hretry in
/-- A visit ends with a copy on another topic: its source, or the dead-letter topic. -/
theorem Visited.visit_leaves (h : Visited w m₀ visits failed m) (htopic : m.topic = w.settings.retryTopic)
    (hcopy : CopyOf w env m q) : visits = failed.length ∧ q.topic ≠ w.settings.retryTopic ∧
      (visits : Int) + 1 ≤ w.settings.attempts ∧ (q.topic = w.settings.dlqTopic ∨
        ∃ n : Int, q.header hdrAttempt = some (toString n) ∧ (visits : Int) + 1 ≤ max 1 n ∧
          q.header hdrRetryTarget = some (serviceOf m₀) ∧ q.HeadersOnce) := by
  cases h with
  | dead hdead _ _ => exact absurd (htopic.symm.trans hdead) hsep.dlq_ne_retry.symm
  | released _ _ hleft _ _ _ _ => exact absurd htopic hleft
  | first =>
    have hone : ((0 : Nat) : Int) + 1 ≤ w.settings.attempts := by
      unfold Settings.attempts
      omega
    cases hcopy with
    | giveUp _ _ _ _ _ _ => exact ⟨rfl, hsep.dlq_ne_retry, hone, .inl rfl⟩
    | release origin hpublishable horigin hreleasable =>
      refine ⟨rfl, fun hback => ?_, hone, .inr ⟨attemptFor w m₀, rfl, by omega, rfl, ?_⟩⟩
      · exact hnot ⟨hpublishable, hreleasable, origin, horigin, hback⟩
      · exact headersOnce_copyOf nodup_sourceHeaders
  | waiting n origin hvisits _ hcarries hleaves hattempt hn hmax =>
    have hle : (visits : Int) + 1 ≤ w.settings.attempts := by
      unfold Settings.attempts
      omega
    cases hcopy with
    | giveUp _ _ _ _ _ _ => exact ⟨hvisits, hsep.dlq_ne_retry, hle, .inl rfl⟩
    | release origin' _ horigin _ =>
      rw [hcarries.fromHeaders_eq hint] at horigin
      cases horigin
      have hservice : serviceOf m = serviceOf m₀ := serviceOf_eq hcarries.service
      have hfor : attemptFor w m = n := attemptFor_eq (hint n) hattempt
      rw [hservice, hfor]
      exact ⟨hvisits, hleaves, hle, .inr ⟨n, rfl, by omega, rfl, headersOnce_copyOf nodup_sourceHeaders⟩⟩

omit hretry in
theorem Visited.visit (h : Visited w m₀ visits failed m) (htopic : m.topic = w.settings.retryTopic)
    (hcopy : CopyOf w env m q) (hpolled : q.PolledAs m') : Visited w m₀ (visits + 1) failed m' := by
  obtain ⟨hvisits, hleaves, hle, hdlq | ⟨n, hattempt, hn, htarget, honce⟩⟩ :=
    h.visit_leaves hsep hint hnot htopic hcopy
  · refine .dead (hpolled.topic_eq.trans hdlq) ?_ ?_
    · omega
    · omega
  · rw [← hpolled.decodeHeaders_eq honce] at hattempt htarget
    refine .released n (by omega) ?_ hattempt ?_ ?_ htarget
    · rw [hpolled.topic_eq]
      exact hleaves
    · omega
    · omega

theorem visited_of_lineage (h : Lineage w m₀ visits failed m) : Visited w m₀ visits failed m := by
  induction h with
  | first => exact .first
  | attempt _ hdeployed hc hcopies hpolled _ ih =>
    exact ih.attempt hsep hint hretry hdeployed hc hcopies.failureOf hpolled
  | visit _ htopic hcopies hpolled _ ih => exact ih.visit hsep hint hnot htopic hcopies.copyOf hpolled

end

/-! ## A message that loops -/

/-- The flush serves the retry topic and the dead-letter topic, and any `x-retry-at` is past. -/
def roundEnv (w : Worker) (m : Message) : Env where
  servedByFlush := [⟨w.settings.retryTopic, w.partitioner m.key⟩, ⟨w.settings.dlqTopic, w.partitioner m.key⟩]
  now := match timeHeader w.std (decodeHeaders m) hdrRetryAt with
    | some (.aware due) => due
    | _ => 0

theorem not_waits_round : ¬ Waits w (roundEnv w m) m := by
  rintro ⟨due, htime, hlater⟩
  simp only [roundEnv, htime] at hlater
  omega

/-- The worker puts the message back where it was, and the copy loops as well. -/
theorem LoopsBack.again (hint : w.std.ReadsInts) (h : LoopsBack w m) :
    ∃ q, Copies w (roundEnv w m) m q ∧ q.topic = w.settings.retryTopic ∧
      ∀ offset, q.PolledAs (q.polledAt offset) ∧ LoopsBack w (q.polledAt offset) := by
  obtain ⟨hpublishable, hreleasable, origin, horigin, hback⟩ := h
  obtain ⟨hservice, event, hdecode⟩ := hreleasable
  have hw : Healthy w (roundEnv w m) m {} := by
    refine ⟨rfl, rfl, rfl, rfl, rfl, rfl, rfl, fun topic headers htopic => unreported_singleton ?_⟩
    obtain rfl | ⟨origin', horigin', rfl⟩ := htopic
    · exact .tail _ (.head _)
    · cases horigin.symm.trans horigin'
      rw [hback]
      exact .head _
  have hm : Readable w (roundEnv w m) m := by
    obtain ⟨hints, htime⟩ := fromHeaders_ok.1 ⟨origin, horigin⟩
    refine ⟨hints, htime, hpublishable.retryAt, fun _ _ e he => ?_, fun _ => hpublishable.direct⟩
    cases hdecode.symm.trans he
  obtain ⟨q, hcopies⟩ := copies_of_due hw hm not_waits_round
  refine ⟨q, hcopies, ?_⟩
  cases hcopies.copyOf with
  | giveUp _ _ _ _ _ hnot => exact absurd ⟨hservice, event, hdecode⟩ hnot
  | release origin' _ horigin' _ =>
    cases horigin.symm.trans horigin'
    refine ⟨hback, fun offset => ?_⟩
    have hpolled := polledAs_polledAt (q := FailureRouter.copyOf w.toDeployment (roundEnv w m) origin.topic m
      (sourceHeaders origin (serviceOf m) (w.settings.groupIdFor (serviceOf m)) (attemptFor w m))) rfl offset
    have hread := hpolled.decodeHeaders_eq (headersOnce_copyOf nodup_sourceHeaders)
    refine ⟨hpolled, ⟨hpublishable.direct, fun reading => ?_⟩, ⟨?_, event, hdecode⟩, origin, ?_, hback⟩
    · rw [hread]
      nofun
    · change (decodeHeaders _ hdrService).getD "" ∈ w.specs
      rw [hread]
      exact hservice
    · rw [hread]
      exact (carries_provenance origin _ _ _).fromHeaders_eq hint _

/-- It goes round for ever. -/
theorem LoopsBack.endless (hint : w.std.ReadsInts) (hretry : m₀.topic = w.settings.retryTopic)
    (h : LoopsBack w m₀) (visits : Nat) :
    ∃ m, Lineage w m₀ visits [] m ∧ m.topic = w.settings.retryTopic ∧ LoopsBack w m := by
  induction visits with
  | zero => exact ⟨m₀, .first, hretry, h⟩
  | succ visits ih =>
    obtain ⟨m, hlineage, htopic, hloops⟩ := ih
    obtain ⟨q, hcopies, hback, hround⟩ := hloops.again hint
    obtain ⟨hpolled, hloops⟩ := hround (m₀.offset + 1)
    refine ⟨_, .visit hlineage htopic hcopies hpolled ?_, hpolled.topic_eq.trans hback, hloops⟩
    intro hid
    have hoffset : (q.polledAt (m₀.offset + 1)).offset = m₀.offset + 1 := by
      unfold Queued.polledAt
      split <;> rfl
    have := congrArg MessageId.offset hid
    simp only [Message.id, hoffset] at this
    omega

/-- **How long a message hops.** What becomes of a message of the retry topic is bounded exactly if the
worker would not put it back there. -/
theorem bounded_iff (w : Worker) (hsep : w.settings.Separate) (hint : w.std.ReadsInts) {m₀ : Message}
    (hretry : m₀.topic = w.settings.retryTopic) : Bounded w m₀ ↔ ¬ LoopsBack w m₀ := by
  constructor
  · intro h hloops
    obtain ⟨q, hcopies, hback, -⟩ := hloops.again hint
    exact h.leaves 0 [] m₀ _ q .first hretry hcopies hback
  · intro hnot
    have hvisited : ∀ {visits failed m}, Lineage w m₀ visits failed m → Visited w m₀ visits failed m :=
      fun h => visited_of_lineage hsep hint hretry hnot h
    refine ⟨fun _ _ _ h => (hvisited h).bounds.1, fun _ _ _ h => (hvisited h).bounds.2, ?_, ?_, ?_, ?_⟩
    · intro visits failed m c h hdeployed hc
      obtain ⟨hname, hvisits, n, -, -, hle⟩ := (hvisited h).attempts hsep hretry hdeployed hc
      exact ⟨by omega, hname⟩
    · intro visits failed m env q h htopic hcopies
      exact ((hvisited h).visit_leaves hsep hint hnot htopic hcopies.copyOf).2.1
    · intro m env t calls htxn htrace
      exact (left_of_wp (wp_handleMessage_copied htxn)).length_le htrace
    · exact fun m env t hw hm hnow => moves_of_due hw hm hnow

/-! A message that does not say where it came from, and one that does. -/

def sourceless : Message := { bareMessage with headers := [(hdrService, some "packing".toUTF8)] }

def sourced : Message := { bareMessage with
  headers := [(hdrService, some "packing".toUTF8), (hdrOriginalTopic, some "order-lifecycle".toUTF8)] }

theorem bounded_iff_sourced : Bounded stockWorker sourced := by
  refine (bounded_iff stockWorker separate_default readsInts_stockWorker rfl).2 ?_
  rintro ⟨-, -, origin, horigin, hback⟩
  have htopic : (Origin.fromHeaders stockWorker.std (decodeHeaders sourced) sourced).toOption.map
      Origin.topic = some "order-lifecycle" := by decide +kernel
  rw [horigin] at htopic
  have hsame := (Option.some.inj htopic).symm.trans hback
  revert hsame
  decide

/-- The worker puts it back on the topic it reads, any number of times. -/
theorem sourceless_endless :
    ¬ Bounded stockWorker sourceless ∧
      ∀ visits, ∃ m, Lineage stockWorker sourceless visits [] m ∧ m.topic = "order-lifecycle.retry" := by
  have hloops : LoopsBack stockWorker sourceless := by
    have horigin : (Origin.fromHeaders stockWorker.std (decodeHeaders sourceless) sourceless).toOption.map
        Origin.topic = some "order-lifecycle.retry" := by decide +kernel
    have htime : timeHeader stockWorker.std (decodeHeaders sourceless) hdrRetryAt = none := by
      decide +kernel
    refine ⟨⟨rfl, fun reading h => ?_⟩, ⟨by decide +kernel, _, rfl⟩, ?_⟩
    · cases htime.symm.trans h
    · cases hread : Origin.fromHeaders stockWorker.std (decodeHeaders sourceless) sourceless with
      | error e =>
        rw [hread] at horigin
        cases horigin
      | ok origin =>
        rw [hread] at horigin
        exact ⟨origin, rfl, Option.some.inj horigin⟩
  have hround := hloops.endless readsInts_stockWorker rfl
  refine ⟨fun hbounded => ?_, fun visits => ?_⟩
  · obtain ⟨m, hlineage, -⟩ := hround 4
    have := hbounded.visits_le 4 [] m hlineage
    revert this
    decide
  · obtain ⟨m, hlineage, htopic, -⟩ := hround visits
    exact ⟨m, hlineage, htopic⟩

end RetryWorker

end OrderService
