import OrderService.Proof.Hops

/-!
# Where a copy says its message comes from

A service that fails a message names the place it read the message from, whether it is the first to fail
it or not; the worker names what it is told. So the copies of a message carry the place it was first
published at until it has failed twice (`provenance_iff`).
-/

namespace OrderService

/-- The copy carries the place of `m₀`: its topic, partition, offset and time. -/
structure CarriesPlace (std : Stdlib) (m₀ : Message) (q : Queued) : Prop where
  topic : q.header hdrOriginalTopic = some m₀.topic
  partition : q.header hdrOriginalPartition = some (toString (m₀.partition : Int))
  offset : q.header hdrOriginalOffset = some (toString (m₀.offset : Int))
  timestamp : ∃ text, messageTimestamp std m₀ = .ok text ∧ q.header hdrOriginalTimestamp = some text

variable {w : Worker} {c : Service} {env : Env} {m₀ m m' : Message} {q : Queued} {origin : Origin}
variable {service : String} {visits : Nat} {failed : List Attempt}

/-! ## The place a message was read from -/

/-- The copy of a message names its place. -/
theorem Carries.place {std : Stdlib} (h : Carries q.header origin service)
    (horigin : Origin.fromMessage std m = .ok origin) (hnamed : m.topic ≠ "") : CarriesPlace std m q := by
  obtain ⟨text, htime, rfl⟩ := fromMessage_eq horigin
  refine ⟨?_, h.partition, h.offset, text, htime, h.timestamp⟩
  rw [h.topic, if_neg hnamed]

/-- No other place is named. -/
theorem Carries.id_eq {std : Stdlib} (hint : std.ReadsInts) (h : Carries q.header origin service)
    (horigin : Origin.fromMessage std m = .ok origin) (htopic : m.topic = m₀.topic)
    (hplace : CarriesPlace std m₀ q) : m.id = m₀.id := by
  have hinj : ∀ {i j : Int}, some (toString i) = some (toString j) → i = j := by
    intro i j heq
    have := congrArg std.int (Option.some.inj heq)
    rw [hint, hint] at this
    exact Option.some.inj this
  obtain ⟨text, -, rfl⟩ := fromMessage_eq horigin
  have hpartition : (m.partition : Int) = m₀.partition := hinj (h.partition.symm.trans hplace.partition)
  have hoffset : (m.offset : Int) = m₀.offset := hinj (h.offset.symm.trans hplace.offset)
  have hpartition : m.partition = m₀.partition := by omega
  have hoffset : m.offset = m₀.offset := by omega
  simp only [Message.id, Message.tp, htopic, hpartition, hoffset]

/-! ## Along a lineage -/

/-- What the headers of a message tell: nothing before it has failed, then the place its last failed copy
was read from, which is its first place only if it failed once. -/
inductive Traced (w : Worker) (m₀ : Message) : List Attempt → Message → Prop
  | first : Traced w m₀ [] m₀
  | copy {a : Attempt} {rest : List Attempt} {m : Message} (origin : Origin) (service : String) :
      Origin.fromMessage w.std a.message = .ok origin → Carries (decodeHeaders m) origin service →
      a.message.topic = m₀.topic → (rest = [] ∧ a.message = m₀ ∨ rest ≠ [] ∧ a.message.id ≠ m₀.id) →
      m.id ≠ m₀.id → Traced w m₀ (a :: rest) m

section

variable (hsep : w.settings.Separate) (hint : w.std.ReadsInts)
variable (hfirst : m₀.topic = w.settings.orderLifecycleTopic)
include hfirst

/-- A service fails `m`. -/
theorem Traced.attempt (h : Traced w m₀ failed m) (hdeployed : c.DeployedWith w) (hc : c.Consumes m)
    (hcopy : FailureOf c env m q) (hpolled : q.PolledAs m') (hid : m'.id ≠ m₀.id) :
    Traced w m₀ (⟨c.name, m⟩ :: failed) m' := by
  obtain ⟨origin, horigin, honce, hcarries⟩ := hcopy.carries
  have htopic := hcopy.topic_eq hc
  rw [hdeployed.deployment_eq] at horigin htopic
  rw [← hpolled.decodeHeaders_eq honce] at hcarries
  refine .copy origin c.name horigin hcarries (htopic.trans hfirst.symm) ?_ hid
  cases h with
  | first => exact .inl ⟨rfl, rfl⟩
  | copy _ _ _ _ _ _ hne => exact .inr ⟨by simp, hne⟩

include hsep hint

/-- The worker has a copy of `m` published. -/
theorem Traced.visit (h : Traced w m₀ failed m) (htopic : m.topic = w.settings.retryTopic)
    (hcopy : RetryWorker.CopyOf w env m q) (hpolled : q.PolledAs m') (hid : m'.id ≠ m₀.id) :
    Traced w m₀ failed m' := by
  cases h with
  | first => exact absurd (htopic.symm.trans hfirst) hsep.retry_ne_lifecycle
  | copy origin service horigin hcarries hsame hplace _ =>
    obtain ⟨origin', service', horigin', honce, hcarries'⟩ := hcopy.carries
    rw [hcarries.fromHeaders_eq hint] at horigin'
    cases horigin'
    rw [← hpolled.decodeHeaders_eq honce] at hcarries'
    exact .copy origin service' horigin hcarries' hsame hplace hid

theorem Lineage.traced (h : Lineage w m₀ visits failed m) : Traced w m₀ failed m := by
  induction h with
  | first => exact .first
  | attempt _ hdeployed hc hcopies hpolled hid ih =>
    exact ih.attempt hfirst hdeployed hc hcopies.failureOf hpolled hid
  | visit _ htopic hcopies hpolled hid ih =>
    exact ih.visit hsep hint hfirst htopic hcopies.copyOf hpolled hid

end

/-- **Where a copy says its message comes from.** A copy carries the first place of its message exactly if
the message has not failed before the attempt the copy is of, or not twice before the worker has it. -/
theorem provenance_iff (w : Worker) (hsep : w.settings.Separate) (hint : w.std.ReadsInts) {m₀ : Message}
    (hfirst : m₀.topic = w.settings.orderLifecycleTopic) {visits : Nat} {failed : List Attempt} {m : Message}
    (h : Lineage w m₀ visits failed m) :
    (∀ c env q, Service.DeployedWith c w → c.Consumes m → ServiceConsumer.Copies c env m q →
      (CarriesPlace w.std m₀ q ↔ failed = [])) ∧
    (∀ env q, m.topic = w.settings.retryTopic → RetryWorker.Copies w env m q →
      (CarriesPlace w.std m₀ q ↔ failed.length ≤ 1)) := by
  have htraced := h.traced hsep hint hfirst
  have hnamed : m₀.topic ≠ "" := hfirst ▸ hsep.lifecycle_named
  constructor
  · intro c env q hdeployed hc hcopies
    obtain ⟨origin, horigin, -, hcarries⟩ := hcopies.failureOf.carries
    have htopic := hcopies.failureOf.topic_eq hc
    rw [hdeployed.deployment_eq] at horigin htopic
    cases htraced with
    | first => exact iff_of_true (hcarries.place horigin hnamed) rfl
    | copy _ _ _ _ _ _ hne =>
      refine iff_of_false (fun hplace => hne ?_) (by simp)
      exact hcarries.id_eq hint horigin (htopic.trans hfirst.symm) hplace
  · intro env q htopic hcopies
    obtain ⟨origin, service, horigin, -, hcarries⟩ := hcopies.copyOf.carries
    cases htraced with
    | first => exact absurd (htopic.symm.trans hfirst) hsep.retry_ne_lifecycle
    | copy origin' service' hread hcarried hsame hplace _ =>
      rw [hcarried.fromHeaders_eq hint] at horigin
      cases horigin
      obtain ⟨rfl, rfl⟩ | ⟨hmore, hne⟩ := hplace
      · exact iff_of_true (hcarries.place hread hnamed) (by simp)
      · refine iff_of_false (fun hcarriesPlace => hne ?_) ?_
        · exact hcarries.id_eq hint hread hsame hcarriesPlace
        · have := List.length_pos_iff.2 hmore
          simp only [List.length_cons]
          omega

/-- The worker puts the copy of the first failure back under the first place. -/
theorem provenance_iff_released : CarriesPlace stockWorker.std placedMessage releasedCopy :=
  ((provenance_iff stockWorker separate_default readsInts_stockWorker rfl waiting_lineage).2 dueEnv
    releasedCopy rfl waiting_released).2 (Nat.le_refl 1)

/-- The copy of the second failure names the offset of the copy that failed. -/
theorem second_failure_misplaced :
    Lineage stockWorker placedMessage 1 [⟨"packing", placedMessage⟩] releasedMessage ∧
      stockless.DeployedWith stockWorker ∧ stockless.Consumes releasedMessage ∧
      ServiceConsumer.Copies stockless short releasedMessage (shortCopy releasedMessage 2) ∧
      placedMessage.offset = 0 ∧ (shortCopy releasedMessage 2).header hdrOriginalOffset = some "1" ∧
      ¬ CarriesPlace stockWorker.std placedMessage (shortCopy releasedMessage 2) := by
  have hoffset : (shortCopy releasedMessage 2).header hdrOriginalOffset = some "1" := by decide
  refine ⟨released_lineage, stockless_deployed, .inl rfl, released_copies, rfl, hoffset, fun hplace => ?_⟩
  have hfirst := hoffset.symm.trans hplace.offset
  revert hfirst
  decide

end OrderService
