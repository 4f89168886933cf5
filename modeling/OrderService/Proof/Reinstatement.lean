import OrderService.Proof.Provenance
import OrderService.Proof.ReplaySelection

/-!
# Back from the dead-letter topic

A copy keeps the key and the value of its message, and names the topic the message was first on. So what
the tool makes of a dead letter is that message again, and a failure of it ends in a dead letter of the
same kind: however often a message is given up and put back, it is the same message (`dead_letters_return`),
and no dead letter of a service or of the worker is skipped for want of a header.
-/

namespace OrderService

open DlqReplay

variable {w : Worker} {c : Service} {env : Env} {m₀ m m' d : Message} {q : Queued}
variable {visits n : Nat} {failed : List Attempt} {args : Args} {settings : Settings} {cluster : Cluster}
variable {r : Republished} {a : Arrival}

/-! ## Copies -/

theorem RetryWorker.CopyOf.payload_eq (h : RetryWorker.CopyOf w env m q) :
    ∃ headers, q.payload = .copy m.key m.value headers := by
  cases h with
  | release => exact ⟨_, rfl⟩
  | giveUp => exact ⟨_, rfl⟩

theorem Queued.PolledAs.key_value_eq {headers : List (String × String)} (h : q.PolledAs m')
    (hq : q.payload = .copy m.key m.value headers) : m'.key = m.key ∧ m'.value = m.value := by
  obtain ⟨headers', hpayload, -⟩ := h.payload_eq
  rw [hpayload] at hq
  injection hq with hkey hvalue
  exact ⟨hkey, hvalue⟩

/-- Whatever became of a message, its key and its value are what they were. -/
theorem Lineage.key_value_eq (h : Lineage w m₀ visits failed m) : m.key = m₀.key ∧ m.value = m₀.value := by
  induction h with
  | first => exact ⟨rfl, rfl⟩
  | attempt _ _ _ hcopies hpolled _ ih =>
    obtain ⟨headers, hpayload⟩ := hcopies.failureOf.payload_eq
    obtain ⟨hkey, hvalue⟩ := hpolled.key_value_eq hpayload
    exact ⟨hkey.trans ih.1, hvalue.trans ih.2⟩
  | visit _ _ hcopies hpolled _ ih =>
    obtain ⟨headers, hpayload⟩ := hcopies.copyOf.payload_eq
    obtain ⟨hkey, hvalue⟩ := hpolled.key_value_eq hpayload
    exact ⟨hkey.trans ih.1, hvalue.trans ih.2⟩

/-- A dead letter names the topic its message was first on. -/
theorem Lineage.original_topic (hsep : w.settings.Separate) (hint : w.std.ReadsInts)
    (hfirst : m₀.topic = w.settings.orderLifecycleTopic) (h : Lineage w m₀ visits failed m)
    (hdlq : m.topic = w.settings.dlqTopic) : decodeHeaders m hdrOriginalTopic = some m₀.topic := by
  cases h.traced hsep hint hfirst with
  | first => exact absurd (hdlq.symm.trans hfirst) hsep.dlq_ne_lifecycle
  | copy origin service horigin hcarries htopic _ _ =>
    obtain ⟨text, -, rfl⟩ := fromMessage_eq horigin
    have hnamed : m₀.topic ≠ "" := hfirst ▸ hsep.lifecycle_named
    rw [hcarries.topic, htopic, if_neg hnamed]

/-! ## The tool -/

namespace DlqReplay

/-- A run of the tool examined the dead letter `d`, and put it back as `r`. -/
structure PutsBack (args : Args) (settings : Settings) (cluster : Cluster) (d : Message) (r : Republished) :
    Prop where
  ordered : InOrder ((delivered cluster.polls).map Arrival.message)
  examined : d ∈ (replay args settings cluster).2.examined
  produced : r ∈ (replay args settings cluster).2.produced
  source_eq : r.source = d.id

/-- A run that raises nothing had no republication refused. -/
theorem refusal_of_reached (hpublish : args.publish = true) : ∀ {as : List Arrival} {k : Nat},
    raisedIn args k as = none → ∀ a ∈ reached args k as, args.matches a = true → args.excludes a = false →
      a.target.isSome = true → a.refusal = none
  | [], _, _, a, ha => by cases ha
  | b :: bs, k, hraised, a, ha => by
    intro hmatch hexcluded htarget
    rw [reached] at ha
    rw [raisedIn] at hraised
    obtain rfl | ha := List.mem_cons.1 ha
    · obtain ⟨target, htarget⟩ := Option.isSome_iff_exists.1 htarget
      cases hrefusal : a.refusal with
      | none => rfl
      | some e =>
        have hcontrol : controlOf args k a = .raised e := by
          simp [controlOf, hmatch, hpublish, hexcluded, htarget, hrefusal]
        rw [hcontrol] at hraised
        cases hraised
    · cases hcontrol : controlOf args k b with
      | next =>
        rw [hcontrol] at hraised ha
        rw [if_pos rfl] at ha
        exact refusal_of_reached hpublish hraised a ha hmatch hexcluded htarget
      | stop =>
        rw [hcontrol, if_neg (by decide)] at ha
        cases ha
      | raised e =>
        rw [hcontrol] at hraised
        cases hraised

/-- What is examined, and what is made of it. -/
structure Examined (args : Args) (cluster : Cluster) (result : Except Exn Verdict × Run) (as : List Arrival) :
    Prop where
  delivered : ∀ a ∈ as, a ∈ delivered cluster.polls
  examined : result.2.examined = as.map Arrival.message
  produced : result.2.produced = as.filterMap args.copy
  accepted : ∀ verdict, result.1 = .ok verdict → args.publish = true → ∀ a ∈ as, args.matches a = true →
    args.excludes a = false → a.target.isSome = true → a.refusal = none

theorem replay_examined (args : Args) (settings : Settings) (cluster : Cluster)
    (horder : InOrder ((delivered cluster.polls).map Arrival.message)) :
    ∃ as, Examined args cluster (replay args settings cluster) as := by
  cases hsnapshot : snapshotTopic cluster settings.dlqTopic with
  | error e =>
    have hreplay : replay args settings cluster = (.error e, {}) := by
      unfold replay
      rw [hsnapshot]
    rw [hreplay]
    refine ⟨[], ⟨fun a ha => ?_, rfl, rfl, fun verdict h => ?_⟩⟩
    · cases ha
    · cases h
  | ok snapshot =>
    obtain ⟨ranges, polled, s, -, -, -, -, rfl, hreplay⟩ := replay_eq args hsnapshot horder
    rw [hreplay]
    refine ⟨reached args 0 (candidates snapshot.endOffsets cluster.polls), ⟨fun a ha => ?_, ?_, ?_, ?_⟩⟩
    · exact (List.mem_filter.1 ((prefix_of_reached _ 0).subset ha)).1
    · simp [tally]
    · simp [tally]
    · intro verdict hok hpublish
      refine refusal_of_reached hpublish ?_
      cases hraised : raisedIn args 0 (candidates snapshot.endOffsets cluster.polls) with
      | none => rfl
      | some e =>
        rw [hraised] at hok
        cases hok

/-- A message that is polled is known by its place. -/
theorem eq_of_id_eq (horder : InOrder ((delivered cluster.polls).map Arrival.message))
    (hm : m ∈ (delivered cluster.polls).map Arrival.message)
    (hd : d ∈ (delivered cluster.polls).map Arrival.message) (hid : m.id = d.id) : m = d := by
  have hnodup : (((delivered cluster.polls).map Arrival.message).map Message.id).Nodup := by
    rw [List.Nodup, List.pairwise_map]
    refine horder.imp fun {x y} hxy heq => ?_
    have hpartition : x.partition = y.partition := congrArg (·.tp.partition) heq
    have hoffset : x.offset = y.offset := congrArg (·.offset) heq
    have := hxy hpartition
    omega
  exact List.inj_on_of_nodup_map hnodup hm hd hid

/-- What the tool hands to the producer for a dead letter. -/
theorem PutsBack.copy (h : PutsBack args settings cluster d r) :
    ∃ a, a.message = d ∧ args.copy a = some r := by
  obtain ⟨as, has⟩ := replay_examined args settings cluster h.ordered
  have hpolled : ∀ a ∈ as, a.message ∈ (delivered cluster.polls).map Arrival.message :=
    fun a ha => List.mem_map_of_mem (has.delivered a ha)
  have hproduced := h.produced
  rw [has.produced] at hproduced
  obtain ⟨a, ha, hcopy⟩ := List.mem_filterMap.1 hproduced
  have hexamined := h.examined
  rw [has.examined] at hexamined
  obtain ⟨b, hb, rfl⟩ := List.mem_map.1 hexamined
  refine ⟨a, eq_of_id_eq h.ordered (hpolled a ha) (hpolled b hb) ?_, hcopy⟩
  rw [← source_of_copy hcopy]
  exact h.source_eq

/-- What is put back of a message that names its topic. -/
theorem eq_of_copy {target : String} (h : args.copy a = some r)
    (htarget : decodeHeaders a.message hdrOriginalTopic = some target) : r = a.copyTo target := by
  unfold Args.copy Arrival.target at h
  rw [htarget] at h
  split at h
  · by_cases hempty : target = ""
    · simp [hempty] at h
    · simp [hempty] at h
      exact h.symm
  · cases h

end DlqReplay

/-! ## Round after round -/

/-- `m` is `r`, as a consumer polls it. -/
structure DlqReplay.Republished.PolledAs (r : Republished) (m : Message) : Prop where
  topic_eq : m.topic = r.topic
  key_eq : m.key = r.key
  value_eq : m.value = r.value
  headers_eq : m.headers = r.headers

/-- What became of `m₀`: it was given up and its dead letter was put back, `rounds` times. -/
inductive Rounds (w : Worker) (m₀ : Message) : (rounds : Nat) → Message → Prop
  | start : Rounds w m₀ 0 m₀
  | again {rounds visits : Nat} {m d m' : Message} {failed : List Attempt} {args : Args} {cluster : Cluster}
      {r : Republished} : Rounds w m₀ rounds m → Lineage w m visits failed d →
      d.topic = w.settings.dlqTopic → PutsBack args w.settings cluster d r → r.PolledAs m' →
      Rounds w m₀ (rounds + 1) m'

/-- The same message again. -/
structure Reinstated (m₀ m : Message) (rounds : Nat) : Prop where
  topic_eq : m.topic = m₀.topic
  key_eq : m.key = m₀.key
  value_eq : m.value = m₀.value
  /-- Nothing tells it from a message that never failed. -/
  headers_eq : rounds ≠ 0 → m.headers = []

theorem Rounds.reinstated (hsep : w.settings.Separate) (hint : w.std.ReadsInts)
    (hfirst : m₀.topic = w.settings.orderLifecycleTopic) (h : Rounds w m₀ n m) : Reinstated m₀ m n := by
  induction h with
  | start => exact ⟨rfl, rfl, rfl, fun h => absurd rfl h⟩
  | @again rounds visits m d m' failed args cluster r _ hlineage hdlq hback hpolled ih =>
    have htopic := hlineage.original_topic hsep hint (ih.topic_eq.trans hfirst) hdlq
    obtain ⟨hkey, hvalue⟩ := hlineage.key_value_eq
    obtain ⟨a, rfl, hcopy⟩ := hback.copy
    obtain rfl := eq_of_copy hcopy htopic
    refine ⟨?_, ?_, ?_, fun _ => hpolled.headers_eq⟩
    · exact hpolled.topic_eq.trans ih.topic_eq
    · exact (hpolled.key_eq.trans hkey).trans ih.key_eq
    · exact (hpolled.value_eq.trans hvalue).trans ih.value_eq

/-- The operator chose the dead letter: the run publishes and does not fail, the message is of the service
asked for and is not excluded as poison. -/
structure Chosen (args : Args) (settings : Settings) (cluster : Cluster) (d : Message) : Prop where
  ordered : DlqReplay.InOrder ((delivered cluster.polls).map Arrival.message)
  examined : d ∈ (replay args settings cluster).2.examined
  returned : ∃ verdict, (replay args settings cluster).1 = .ok verdict
  publish : args.publish = true
  admitted : args.admits (decodeHeaders d) = true
  included : args.includePoison = true ∨ decodeHeaders d hdrErrorClass ≠ some (Exn.nonRetryable "").className

theorem Chosen.putsBack {target : String} (h : Chosen args settings cluster d)
    (htarget : decodeHeaders d hdrOriginalTopic = some target) (hnamed : target ≠ "") :
    ∃ r, PutsBack args settings cluster d r := by
  obtain ⟨as, has⟩ := replay_examined args settings cluster h.ordered
  have hexamined := h.examined
  rw [has.examined] at hexamined
  obtain ⟨a, ha, rfl⟩ := List.mem_map.1 hexamined
  have hkept : args.excludes a = false := by
    unfold Args.excludes
    obtain hpoison | hclass := h.included
    · simp [hpoison]
    · cases hheader : decodeHeaders a.message hdrErrorClass with
      | none => rfl
      | some errorClass =>
        rw [hheader] at hclass
        have hne : errorClass ∉ nonRetryableErrorClasses := by
          rw [nonRetryableErrorClasses, List.mem_singleton]
          exact fun heq => hclass (congrArg some heq)
        simp [hne]
  have hsome : a.target = some target := by
    unfold Arrival.target
    simp [htarget, hnamed]
  obtain ⟨verdict, hok⟩ := h.returned
  have haccepted := has.accepted verdict hok h.publish a ha h.admitted hkept (by rw [hsome]; rfl)
  have hcopy : args.copy a = some (a.copyTo target) := by
    have hadmitted : args.matches a = true := h.admitted
    unfold Args.copy
    simp [h.publish, hadmitted, hkept, haccepted, hsome]
  refine ⟨a.copyTo target, h.ordered, h.examined, ?_, rfl⟩
  rw [has.produced]
  exact List.mem_filterMap.2 ⟨a, ha, hcopy⟩

/-- A service takes the message for one that it has not seen before. -/
structure Service.TakesFirst (c : Service) (m : Message) : Prop where
  consumes : c.Consumes m
  attempt_eq : attemptOf c.std (decodeHeaders m) = 1
  own : ServiceConsumer.isForeignRetry c (decodeHeaders m) = false

theorem takesFirst_of_bare (hdeployed : c.DeployedWith w) (htopic : m.topic = w.settings.orderLifecycleTopic)
    (hbare : m.headers = []) : c.TakesFirst m := by
  have hheaders : decodeHeaders m = fun _ => none := by
    unfold decodeHeaders
    rw [hbare]
    rfl
  refine ⟨.inl ?_, ?_, ?_⟩
  · rw [hdeployed.deployment_eq]
    exact htopic
  · rw [hheaders]
    rfl
  · rw [hheaders]
    rfl

/-- **A dead letter that is put back is its message again**, in every round: on its topic, with its key and
its value, and to every service a message that never failed. A dead letter that is chosen is put back. -/
theorem dead_letters_return (w : Worker) (hsep : w.settings.Separate) (hint : w.std.ReadsInts) {m₀ : Message}
    (hfirst : m₀.topic = w.settings.orderLifecycleTopic) {n : Nat} {m : Message} (h : Rounds w m₀ n m) :
    Reinstated m₀ m n ∧ (n ≠ 0 → ∀ c, Service.DeployedWith c w → c.TakesFirst m) ∧
      ∀ visits failed d args cluster, Lineage w m visits failed d → d.topic = w.settings.dlqTopic →
        Chosen args w.settings cluster d → ∃ r, PutsBack args w.settings cluster d r ∧
          ∀ m', r.PolledAs m' → Rounds w m₀ (n + 1) m' := by
  have hsame := h.reinstated hsep hint hfirst
  have htopic := hsame.topic_eq.trans hfirst
  refine ⟨hsame, fun hn c hdeployed => takesFirst_of_bare hdeployed htopic (hsame.headers_eq hn), ?_⟩
  intro visits failed d args cluster hlineage hdlq hchosen
  have hnamed : m.topic ≠ "" := htopic ▸ hsep.lifecycle_named
  obtain ⟨r, hback⟩ := hchosen.putsBack (hlineage.original_topic hsep hint htopic hdlq) hnamed
  exact ⟨r, hback, fun m' hpolled => .again h hlineage hdlq hback hpolled⟩

/-! An order that can never be packed, given up at once and put back. -/

def unpackable : Exn := .nonRetryable "no such item"

/-- The handler raises. -/
def unpacked : Env := { ServiceConsumer.serving with handler := .error unpackable }

def givenUpCopy : Queued :=
  failureCopy stockless unpacked placedMessage unpackable ⟨"order-lifecycle", 0, 0, "unknown"⟩ 1

/-- Its dead letter. -/
def givenUp : Message := givenUpCopy.polledAt 0

theorem givenUp_copies : ServiceConsumer.Copies stockless unpacked placedMessage givenUpCopy := by
  have hns : ¬ Skipped stockless placedMessage := by
    rintro ⟨-, hsnapshot | hforeign⟩
    · revert hsnapshot
      decide
    · revert hforeign
      decide
  have htext : messageTimestamp stockless.std placedMessage = .ok "unknown" := if_pos (Int.le_refl 0)
  have hrouted : RoutedCopy stockless unpacked placedMessage unpackable
      (attemptOf stockless.std (decodeHeaders placedMessage)) givenUpCopy := by
    refine ⟨⟨"order-lifecycle", 0, 0, "unknown"⟩, ?_, rfl⟩
    unfold Origin.fromMessage
    rw [htext]
    rfl
  have hw : ServiceConsumer.Healthy stockless unpacked placedMessage (ServiceConsumer.justRead placedMessage) :=
    ServiceConsumer.healthy_justRead _ stockless.std _ _ (fun exc h => by cases h; rfl) placedMessage
  have hm : ServiceConsumer.Processable stockless .memory unpacked placedMessage
      (ServiceConsumer.justRead placedMessage) := by
    refine ⟨?_, ?_, fun _ => ⟨_, htext⟩, nofun, fun _ _ => by decide⟩
    · intro value e _ _ hdecode
      cases hdecode
    · intro value event _ _ _ bytes hbytes
      cases hbytes
  exact ServiceConsumer.copies_of_routed hw hm hns ⟨_, rfl, .inr ⟨_, rfl, rfl⟩⟩ hrouted

theorem givenUp_lineage : Lineage stockWorker placedMessage 0 [⟨"packing", placedMessage⟩] givenUp :=
  .attempt .first stockless_deployed (.inl rfl) givenUp_copies (polledAs_polledAt rfl 0) (by decide)

/-- The topic as the tool meets it. -/
def onceGivenUp : Cluster where
  describe := .ok (some (.ok [0]))
  watermarks := fun _ => .ok (0, 1)
  polls := [.message { message := givenUp }]

def withPoison : Args := { publish := true, includePoison := true }

/-- The dead letter on its topic again. -/
def putBack : Republished := ⟨"order-lifecycle", givenUp.key, givenUp.value, [], givenUp.id, .acked⟩

def putBackRun : Run where
  seen := 1
  matched := 1
  published := 1
  produced := [putBack]
  polled := [givenUp]
  examined := [givenUp]

theorem givenUp_replayed :
    replay withPoison stockWorker.settings onceGivenUp = (.ok (.republished 1), putBackRun) := by
  have htopic : decodeHeaders givenUp hdrOriginalTopic = some "order-lifecycle" :=
    givenUp_lineage.original_topic separate_default readsInts_stockWorker rfl rfl
  have hinspect : inspect withPoison { message := givenUp } { polled := [givenUp] } = (putBackRun, .next) := by
    simp [inspect, withPoison, Args.admits, htopic, checkLimit, putBackRun, putBack]
  have hexamine : examine withPoison { message := givenUp } { pending := [(0, 1)] } = (putBackRun, .next) :=
    hinspect
  have hloop : loop withPoison onceGivenUp.polls { pending := [(0, 1)] } = (putBackRun, none) := by
    simp only [onceGivenUp, loop, hexamine]
    rfl
  have hsnapshot : snapshotTopic onceGivenUp stockWorker.settings.dlqTopic =
      .ok { assignments := [(⟨"order-lifecycle.dlq", 0⟩, 0)], endOffsets := [(0, 1)] } := rfl
  have hcount : Snapshot.messageCount
      { assignments := [(⟨"order-lifecycle.dlq", 0⟩, 0)], endOffsets := [(0, 1)] } = .ok 1 := rfl
  unfold replay
  rw [hsnapshot]
  simp only [hcount, hloop]
  rfl

theorem givenUp_putsBack : PutsBack withPoison stockWorker.settings onceGivenUp givenUp putBack := by
  refine ⟨List.pairwise_singleton _ _, ?_, ?_, rfl⟩
  · rw [givenUp_replayed]
    exact .head _
  · rw [givenUp_replayed]
    exact .head _

theorem dead_letters_return_givenUp :
    Reinstated placedMessage { placedMessage with offset := 1 } 1 ∧
      ((1 : Nat) ≠ 0 → ∀ c, Service.DeployedWith c stockWorker →
        c.TakesFirst { placedMessage with offset := 1 }) ∧
      ∀ visits failed d args cluster, Lineage stockWorker { placedMessage with offset := 1 } visits failed d →
        d.topic = stockWorker.settings.dlqTopic → Chosen args stockWorker.settings cluster d →
        ∃ r, PutsBack args stockWorker.settings cluster d r ∧
          ∀ m', r.PolledAs m' → Rounds stockWorker placedMessage (1 + 1) m' :=
  dead_letters_return stockWorker separate_default readsInts_stockWorker rfl
    (.again .start givenUp_lineage rfl givenUp_putsBack ⟨rfl, rfl, rfl, rfl⟩)

end OrderService
