import OrderService.Proof.Hops

/-!
# The retry budget

The attempt a message is for is in its headers: a service reads 1 where there is none, writes the next one
when it fails, and the worker passes it on. `Stage` is where a message stands between two attempts, and the
count of its lineage (`retry_budget`).
-/

namespace OrderService

open Eff

variable {w : Worker} {c : Service} {env : Env} {m₀ m m' : Message} {q : Queued} {exc : Exn}
variable {visits : Nat} {failed : List Attempt}

/-- A message on its way to the next attempt: it is for the service that failed all of them, and within the
budget. -/
structure Pending (w : Worker) (m₀ : Message) (a : Attempt) (rest : List Attempt) (m : Message) : Prop where
  value_eq : m.value = m₀.value
  decodes : ∃ value event, m.value = some value ∧ w.decode value = .event event
  registered : a.service ∈ w.specs
  same : ∀ b ∈ rest, b.service = a.service
  carries : ∃ origin, origin.topic = w.settings.orderLifecycleTopic ∧
    Carries (decodeHeaders m) origin a.service
  attempt : decodeHeaders m hdrAttempt = some (toString ((rest.length : Int) + 2))
  within : (rest.length : Int) + 2 ≤ w.settings.retryMaxAttempts

/-- Where a message stands after the failed attempts at it. -/
inductive Stage (w : Worker) (m₀ : Message) : List Attempt → Message → Prop
  | first : Stage w m₀ [] m₀
  | waiting {a : Attempt} {rest : List Attempt} {m : Message} : m.topic = w.settings.retryTopic →
      Pending w m₀ a rest m → Stage w m₀ (a :: rest) m
  | released {a : Attempt} {rest : List Attempt} {m : Message} :
      m.topic = w.settings.orderLifecycleTopic → Pending w m₀ a rest m →
      decodeHeaders m hdrRetryTarget = some a.service → Stage w m₀ (a :: rest) m
  | dead {failed : List Attempt} {m : Message} : m.topic = w.settings.dlqTopic → Stage w m₀ failed m

section

variable (hsep : w.settings.Separate) (hint : w.std.ReadsInts)

include hsep hint

/-- The next attempt is counted, within the budget, and made by the service that made the others. -/
theorem Stage.counted (hfresh : decodeHeaders m₀ hdrAttempt = none) (h : Stage w m₀ failed m)
    (hdeployed : c.DeployedWith w) (hc : c.Attempts m) :
    attemptOf c.std (decodeHeaders m) = failed.length + 1 ∧
      (failed.length : Int) + 1 ≤ w.settings.attempts ∧ ∀ a ∈ failed, a.service = c.name := by
  have htopic := hsep.consumes hdeployed hc.consumes
  cases h with
  | first =>
    refine ⟨?_, ?_, nofun⟩
    · simp only [attemptOf, hfresh, List.length_nil]
      rfl
    · simp only [Settings.attempts, List.length_nil]
      omega
  | waiting hwaiting _ => exact absurd hwaiting htopic.1
  | @released a rest _ _ hpending htarget =>
    have hname : a.service = c.name := by
      by_contra hne
      refine hc.own ⟨hc.event, .inr ?_⟩
      simpa [ServiceConsumer.isForeignRetry, htarget] using hne
    have hwithin := hpending.within
    refine ⟨?_, ?_, ?_⟩
    · simp only [attemptOf, hpending.attempt, hdeployed.deployment_eq, List.length_cons]
      rw [hint ((rest.length : Int) + 2)]
      simp only []
      omega
    · simp only [Settings.attempts, List.length_cons]
      omega
    · intro b hb
      obtain rfl | hb := List.mem_cons.1 hb
      · exact hname
      · exact (hpending.same b hb).trans hname
  | dead hdead => exact absurd hdead htopic.2

/-- A failed attempt is scheduled again, or ends in the dead-letter topic. -/
theorem Stage.attempt (hfresh : decodeHeaders m₀ hdrAttempt = none) (h : Stage w m₀ failed m)
    (hdeployed : c.DeployedWith w) (hc : c.Consumes m) (hcopy : FailureOf c env m q)
    (hpolled : q.PolledAs m') : Stage w m₀ (⟨c.name, m⟩ :: failed) m' := by
  obtain ⟨origin', horigin', honce, hcarries⟩ := hcopy.carries
  obtain ⟨headers, hpayload⟩ := hcopy.payload_eq
  have htopic := hcopy.topic_eq hc
  have hread := hpolled.decodeHeaders_eq honce
  have hvalue := hpolled.value_eq hpayload
  obtain ⟨hns, exc, hfails, hrouted⟩ := hcopy
  obtain ⟨value, hsome, hfails⟩ := hfails
  have hattempts : c.Attempts m := ⟨hc, by simp [hsome], hns⟩
  obtain ⟨hcount, -, hsame⟩ := h.counted hsep hint hfresh hdeployed hattempts
  have hscheduled := hrouted.scheduled
  rw [hcount] at hscheduled
  unfold Scheduled at hscheduled
  split at hscheduled
  · rename_i hretries
    obtain ⟨hretryable, hwithin⟩ := hretries
    obtain ⟨hwaiting, hattempt, -⟩ := hscheduled
    rw [hdeployed.deployment_eq] at hwaiting hwithin horigin' htopic
    refine .waiting (hpolled.topic_eq.trans hwaiting) ⟨?_, ?_, hdeployed.registered, hsame, ?_, ?_, ?_⟩
    · cases h with
      | first => exact hvalue
      | waiting _ hpending | released _ hpending _ => exact hvalue.trans hpending.value_eq
      | dead hdead => exact absurd hdead (hsep.consumes hdeployed hc).2
    · -- what does not decode is not retried
      obtain ⟨text, -, rfl⟩ | ⟨event, hdecode, -⟩ := hfails
      · cases hretryable
      · refine ⟨value, event, hvalue.trans hsome, ?_⟩
        rw [← hdeployed.deployment_eq]
        exact decode_eq_ok.1 hdecode
    · refine ⟨origin', ?_, hread ▸ hcarries⟩
      obtain ⟨text, -, rfl⟩ := fromMessage_eq horigin'
      simp only [htopic, if_neg hsep.lifecycle_named]
    · rw [hread, hattempt, Int.add_assoc]
      rfl
    · omega
  · refine .dead (hpolled.topic_eq.trans ?_)
    rw [hscheduled.1, hdeployed.deployment_eq]

variable (hfirst : m₀.topic = w.settings.orderLifecycleTopic)
variable (hagree : ∀ value event, m₀.value = some value → w.decode value = .event event →
  ∃ event', w.decodeJson (some value) = .event event')

include hfirst hagree

/-- The worker puts a message back for the service that failed it, with the attempt it is for. -/
theorem Stage.released_of_visit (h : Stage w m₀ failed m) (htopic : m.topic = w.settings.retryTopic)
    (hcopy : RetryWorker.CopyOf w env m q) :
    q.topic = w.settings.orderLifecycleTopic ∧ q.HeadersOnce ∧
      (∃ headers, q.payload = .copy m.key m.value headers) ∧ ∃ a rest, failed = a :: rest ∧
        Pending w m₀ a rest m ∧ q.header hdrAttempt = some (toString ((rest.length : Int) + 2)) ∧
        q.header hdrRetryTarget = some a.service ∧
        ∃ origin, origin.topic = w.settings.orderLifecycleTopic ∧ Carries q.header origin a.service := by
  cases h with
  | first => exact absurd (htopic.symm.trans hfirst) hsep.retry_ne_lifecycle
  | released hlifecycle _ _ => exact absurd (htopic.symm.trans hlifecycle) hsep.retry_ne_lifecycle
  | dead hdead => exact absurd (htopic.symm.trans hdead) hsep.dlq_ne_retry.symm
  | @waiting a rest _ _ hpending =>
    obtain ⟨origin, hlifecycle, hcarries⟩ := hpending.carries
    have hservice : RetryWorker.serviceOf m = a.service := RetryWorker.serviceOf_eq hcarries.service
    have hattempt : RetryWorker.attemptFor w m = (rest.length : Int) + 2 :=
      RetryWorker.attemptFor_eq (hint _) hpending.attempt
    cases hcopy with
    | release origin' _ horigin _ =>
      rw [hcarries.fromHeaders_eq hint] at horigin
      cases horigin
      rw [hservice, hattempt]
      exact ⟨hlifecycle, headersOnce_copyOf nodup_sourceHeaders, ⟨_, rfl⟩, a, rest, rfl, hpending, rfl, rfl,
        origin, hlifecycle, carries_provenance _ _ _ _⟩
    | giveUp _ _ _ _ _ hnot =>
      obtain ⟨value, event, hvalue, hdecode⟩ := hpending.decodes
      obtain ⟨event', hevent⟩ := hagree value event (hpending.value_eq.symm.trans hvalue) hdecode
      refine absurd ⟨?_, event', hvalue ▸ hevent⟩ hnot
      rw [hservice]
      exact hpending.registered

theorem Stage.visit (h : Stage w m₀ failed m) (htopic : m.topic = w.settings.retryTopic)
    (hcopy : RetryWorker.CopyOf w env m q) (hpolled : q.PolledAs m') : Stage w m₀ failed m' := by
  obtain ⟨hlifecycle, honce, ⟨headers, hpayload⟩, a, rest, rfl, hpending, hattempt, htarget, hcarries⟩ :=
    h.released_of_visit hsep hint hfirst hagree htopic hcopy
  have hread := hpolled.decodeHeaders_eq honce
  have hvalue := hpolled.value_eq hpayload
  obtain ⟨value, event, hsome, hdecode⟩ := hpending.decodes
  rw [← hread] at hattempt htarget hcarries
  exact .released (hpolled.topic_eq.trans hlifecycle) ⟨hvalue.trans hpending.value_eq,
    ⟨value, event, hvalue.trans hsome, hdecode⟩, hpending.registered, hpending.same, hcarries, hattempt,
    hpending.within⟩ htarget

theorem Lineage.stage (hfresh : decodeHeaders m₀ hdrAttempt = none) (h : Lineage w m₀ visits failed m) :
    Stage w m₀ failed m := by
  induction h with
  | first => exact .first
  | attempt _ hdeployed hc hcopies hpolled _ ih =>
    exact ih.attempt hsep hint hfresh hdeployed hc hcopies.failureOf hpolled
  | visit _ htopic hcopies hpolled _ ih =>
    exact ih.visit hsep hint hfirst hagree htopic hcopies.copyOf hpolled

end

end OrderService
