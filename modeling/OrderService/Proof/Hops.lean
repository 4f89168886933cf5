import OrderService.Proof.Copies
import OrderService.Proof.RetryHeaders

/-!
# What a copy says of its message

A copy carries the place of a message, the service it is about and the attempts made
(`ServiceConsumer.Copies.failureOf`, `RetryWorker.Copies.copyOf`), and what the next process reads in its
headers is what was written there (`Queued.PolledAs.decodeHeaders_eq`). With everything healthy a failure
is published, and so is a message of the retry topic that is due (`ServiceConsumer.copies_of_failsWith`,
`RetryWorker.copies_of_due`).
-/

namespace OrderService

open Eff

/-- `int(str(n))` is `n`. -/
def Stdlib.ReadsInts (std : Stdlib) : Prop := ∀ n : Int, std.int (toString n) = some n

/-! ## Headers -/

/-- Collecting headers of different names: each name has the value it was given. -/
theorem foldl_headers {f : Headers → String × Option ByteArray → Headers}
    (hf : ∀ headers name text, f headers (name, some text.toUTF8) = Function.update headers name (some text))
    {headers : List (String × String)} (hnodup : (headers.map Prod.fst).Nodup) (name : String)
    (start : Headers) :
    (headers.map fun p => (p.1, some p.2.toUTF8)).foldl f start name =
      (headers.lookup name).or (start name) := by
  induction headers generalizing start with
  | nil => rfl
  | cons header headers ih =>
    obtain ⟨key, value⟩ := header
    simp only [List.map_cons, List.nodup_cons] at hnodup
    obtain ⟨hnot, hnodup⟩ := hnodup
    simp only [List.map_cons, List.foldl_cons]
    rw [hf, ih hnodup]
    by_cases hname : name = key
    · subst hname
      have hnone : headers.lookup name = none := by
        rw [List.lookup_eq_none_iff]
        intro p hp
        have : name ≠ p.1 := fun h => hnot (List.mem_map.2 ⟨p, hp, h.symm⟩)
        simpa using this
      simp [hnone]
    · have hne : (name == key) = false := by simpa using hname
      simp [List.lookup_cons, hne, hname]

/-- No header of the copy is given twice. -/
def Queued.HeadersOnce (q : Queued) : Prop :=
  ∀ key value headers, q.payload = .copy key value headers → (headers.map Prod.fst).Nodup

/-- The next process reads what was written. -/
theorem Queued.PolledAs.decodeHeaders_eq {q : Queued} {m : Message} (h : q.PolledAs m)
    (honce : q.HeadersOnce) : decodeHeaders m = q.header := by
  obtain ⟨headers, hpayload, hheaders⟩ := h.payload_eq
  replace hheaders : m.headers = headers.map fun p => (p.1, some p.2.toUTF8) := hheaders
  funext name
  unfold decodeHeaders Queued.header
  rw [hheaders, hpayload, foldl_headers (fun headers name text => ?_) (honce _ _ _ hpayload)]
  · exact Option.or_none
  · have htext : String.fromUTF8? text.toUTF8 = some text := dif_pos text.isValidUTF8
    simp only [htext]

/-- The copy as it is polled at an offset. -/
def Queued.polledAt (q : Queued) (offset : Nat) : Message :=
  match q.payload with
  | .copy key value headers =>
    { topic := q.topic, partition := q.partition, offset, key, value
      headers := headers.map fun (name, value) => (name, some value.toUTF8) }
  | .fold .. => { topic := q.topic, partition := q.partition, offset, key := none, value := none }

theorem polledAs_polledAt {q : Queued} (h : q.isFold = false) (offset : Nat) :
    q.PolledAs (q.polledAt offset) := by
  unfold Queued.polledAt
  unfold Queued.isFold at h
  split
  · exact ⟨rfl, rfl, _, ‹_›, rfl⟩
  · rename_i hpayload
    rw [hpayload] at h
    cases h

theorem Queued.PolledAs.value_eq {q : Queued} {m m' : Message} {headers : List (String × String)}
    (h : q.PolledAs m') (hq : q.payload = .copy m.key m.value headers) : m'.value = m.value := by
  obtain ⟨headers', hpayload, -⟩ := h.payload_eq
  rw [hpayload] at hq
  injection hq

/-- The headers name a place and a service. -/
structure Carries (headers : Headers) (origin : Origin) (service : String) : Prop where
  service : headers hdrService = some service
  topic : headers hdrOriginalTopic = some origin.topic
  partition : headers hdrOriginalPartition = some (toString origin.partition)
  offset : headers hdrOriginalOffset = some (toString origin.offset)
  timestamp : headers hdrOriginalTimestamp = some origin.timestamp

theorem carries_provenance (origin : Origin) (service groupId : String) (rest : List (String × String)) :
    Carries (fun name => (FailureRouter.provenance origin service groupId ++ rest).lookup name) origin
      service := by
  constructor <;> rfl

/-- What was carried is read back. -/
theorem Carries.fromHeaders_eq {std : Stdlib} (hint : std.ReadsInts) {headers : Headers} {origin : Origin}
    {service : String} (h : Carries headers origin service) (m : Message) :
    Origin.fromHeaders std headers m = .ok origin := by
  unfold Origin.fromHeaders
  rw [h.topic, h.partition, h.offset, h.timestamp]
  simp only [intOrMinusOne, hint origin.partition, hint origin.offset]
  rfl

/-! ## The copies of a service, and of the worker -/

/-- The attempts a message has. -/
def Settings.attempts (s : Settings) : Int := max 1 s.retryMaxAttempts

/-- A turn of the service on `m` is an attempt at it. -/
structure Service.Attempts (c : Service) (m : Message) : Prop where
  consumes : c.Consumes m
  event : m.value ≠ none
  own : ¬ Skipped c m

/-- `q` is the copy of the `k`-th failure: on the retry topic for attempt `k + 1` if it is retryable and the
budget lasts, else on the dead-letter topic. -/
def Scheduled (c : Service) (env : Env) (exc : Exn) (k : Int) (q : Queued) : Prop :=
  if Retries c exc k then
    q.topic = c.settings.retryTopic ∧ q.header hdrAttempt = some (toString (k + 1)) ∧
      q.header hdrRetryAt = some (c.std.isoformat (env.now + c.settings.backoffForAttempt (k + 1)))
  else q.topic = c.settings.dlqTopic ∧ q.header hdrAttemptsMade = some (toString k)

variable {w : Worker} {c : Service} {env : Env} {m m' : Message} {q : Queued}

theorem Copied.of_mem {P : Queued → Prop} {t u : World} {calls : List Call} (h : Copied P t u)
    (hu : u.trace = t.trace ++ calls) (hq : q ∈ copiesIn calls) : P q := by
  unfold Copied at h
  rw [hu, copiesIn_append] at h
  obtain h | ⟨q', hP, h⟩ := h
  · have hnil : copiesIn calls = [] := by simpa using h
    rw [hnil] at hq
    cases hq
  · rw [List.append_cancel_left h, List.mem_singleton] at hq
    exact hq ▸ hP

theorem Copied.length_le {P : Queued → Prop} {t u : World} {calls : List Call} (h : Copied P t u)
    (hu : u.trace = t.trace ++ calls) : (copiesIn calls).length ≤ 1 := by
  unfold Copied at h
  rw [hu, copiesIn_append] at h
  obtain h | ⟨q, -, h⟩ := h
  · have hnil : copiesIn calls = [] := by simpa using h
    simp [hnil]
  · rw [List.append_cancel_left h]
    simp

theorem ServiceConsumer.Copies.failureOf (h : ServiceConsumer.Copies c env m q) : FailureOf c env m q := by
  obtain ⟨backend, t, calls, htrace, hq⟩ := h
  exact (left_of_wp (wp_handleMessage_copied t)).of_mem htrace hq

theorem RetryWorker.Copies.copyOf (h : RetryWorker.Copies w env m q) : RetryWorker.CopyOf w env m q := by
  obtain ⟨t, calls, htxn, htrace, hq⟩ := h
  exact (left_of_wp (wp_handleMessage_copied htxn)).of_mem htrace hq

variable {d : Deployment} {topic service groupId : String} {origin : Origin} {attempt : Int} {exc : Exn}

theorem RoutedCopy.scheduled {k : Int} (h : RoutedCopy c env m exc k q) : Scheduled c env exc k q := by
  obtain ⟨origin, -, rfl⟩ := h
  unfold Scheduled
  by_cases hretries : Retries c exc k
  · rw [if_pos hretries, failureCopy, if_pos hretries]
    exact ⟨rfl, rfl, rfl⟩
  · rw [if_neg hretries, failureCopy, if_neg hretries]
    exact ⟨rfl, rfl⟩

theorem headersOnce_copyOf {headers : List (String × String)} (h : (headers.map Prod.fst).Nodup) :
    (FailureRouter.copyOf d env topic m headers).HeadersOnce := by
  intro key value headers' hpayload
  cases hpayload
  exact h

theorem nodup_retryHeaders :
    ((retryHeaders d env origin service groupId attempt exc).map Prod.fst).Nodup := by
  change [hdrService, hdrConsumerGroup, hdrOriginalTopic, hdrOriginalPartition, hdrOriginalOffset,
    hdrOriginalTimestamp, hdrAttempt, hdrRetryAt, hdrErrorClass, hdrErrorMessage, hdrFailedAt].Nodup
  decide

theorem nodup_deadLetterHeaders :
    ((deadLetterHeaders d env origin service groupId attempt exc).map Prod.fst).Nodup := by
  change [hdrService, hdrConsumerGroup, hdrOriginalTopic, hdrOriginalPartition, hdrOriginalOffset,
    hdrOriginalTimestamp, hdrAttemptsMade, hdrErrorClass, hdrErrorMessage, hdrFailedAt].Nodup
  decide

theorem nodup_sourceHeaders : ((sourceHeaders origin service groupId attempt).map Prod.fst).Nodup := by
  change [hdrService, hdrConsumerGroup, hdrOriginalTopic, hdrOriginalPartition, hdrOriginalOffset,
    hdrOriginalTimestamp, hdrAttempt, hdrRetryTarget].Nodup
  decide

theorem fromMessage_eq {std : Stdlib} (h : Origin.fromMessage std m = .ok origin) :
    ∃ text, messageTimestamp std m = .ok text ∧
      origin = ⟨if m.topic = "" then "unknown" else m.topic, m.partition, m.offset, text⟩ := by
  unfold Origin.fromMessage at h
  cases htime : messageTimestamp std m with
  | error e =>
    rw [htime] at h
    cases h
  | ok text =>
    rw [htime] at h
    cases h
    exact ⟨text, rfl, rfl⟩

/-- Every copy of a service carries the place its message was read from, and the service's name. -/
theorem FailureOf.carries (h : FailureOf c env m q) : ∃ origin, Origin.fromMessage c.std m = .ok origin ∧
    q.HeadersOnce ∧ Carries q.header origin c.name := by
  obtain ⟨-, exc, -, origin, horigin, rfl⟩ := h
  refine ⟨origin, horigin, ?_⟩
  unfold failureCopy
  split
  · exact ⟨headersOnce_copyOf nodup_retryHeaders, carries_provenance _ _ _ _⟩
  · exact ⟨headersOnce_copyOf nodup_deadLetterHeaders, carries_provenance _ _ _ _⟩

/-- Every copy of the worker carries the place its message carries. -/
theorem RetryWorker.CopyOf.carries (h : CopyOf w env m q) : ∃ origin service,
    Origin.fromHeaders w.std (decodeHeaders m) m = .ok origin ∧ q.HeadersOnce ∧
      Carries q.header origin service := by
  cases h with
  | release origin _ horigin _ =>
    exact ⟨origin, _, horigin, headersOnce_copyOf nodup_sourceHeaders, carries_provenance _ _ _ _⟩
  | giveUp origin service exc _ horigin _ =>
    exact ⟨origin, service, horigin, headersOnce_copyOf nodup_deadLetterHeaders, carries_provenance _ _ _ _⟩

theorem FailureOf.payload_eq (h : FailureOf c env m q) : ∃ headers, q.payload = .copy m.key m.value headers := by
  obtain ⟨-, exc, -, origin, -, rfl⟩ := h
  unfold failureCopy
  split
  · exact ⟨_, rfl⟩
  · exact ⟨_, rfl⟩

/-- Only an event of the lifecycle topic fails. -/
theorem FailureOf.topic_eq (h : FailureOf c env m q) (hc : c.Consumes m) :
    m.topic = c.settings.orderLifecycleTopic := by
  obtain ⟨hns, exc, ⟨value, hvalue, -⟩, -⟩ := h
  obtain htopic | htopic := hc
  · exact htopic
  · exact absurd ⟨by simp [hvalue], .inl htopic⟩ hns

/-- No service reads the retry topic or the dead-letter topic. -/
theorem Settings.Separate.consumes (hsep : w.settings.Separate) (hdeployed : c.DeployedWith w) (hc : c.Consumes m) :
    m.topic ≠ w.settings.retryTopic ∧ m.topic ≠ w.settings.dlqTopic := by
  unfold Service.Consumes at hc
  rw [hdeployed.deployment_eq] at hc
  obtain htopic | htopic := hc
  · rw [htopic]
    exact ⟨hsep.retry_ne_lifecycle.symm, hsep.dlq_ne_lifecycle.symm⟩
  · rw [htopic]
    exact ⟨hsep.retry_ne_snapshot.symm, hsep.dlq_ne_snapshot.symm⟩

/-! ## When nothing goes wrong -/

/-- One copy was published from `t` to `u`. -/
def CopiedOnce (q : Queued) (t u : World) : Prop :=
  ∃ calls, u.trace = t.trace ++ calls ∧ copiesIn calls = [q]

/-- A failed attempt publishes its copy, and no other. -/
theorem ServiceConsumer.copies_of_failsWith {backend : StateBackend} {t : World} (hw : Healthy c env m t)
    (hm : Processable c backend env m t) (hns : ¬ Skipped c m) (hfails : FailsWith c env m exc) :
    wp (handleMessage c (buildStateStore backend c.toDeployment c.groupId env) env m)
      (fun _ u => ∃ q, RoutedCopy c env m exc (attemptOf c.std (decodeHeaders m)) q ∧ CopiedOnce q t u)
      (fun _ _ => False) t := by
  refine wp_mono (handled_of_processable hw hm) (fun _ u hu => ?_) fun _ _ he => he
  obtain ⟨records, before, after, hdoes, hcalls, -, htrace⟩ := hu.calls
  rw [actOf_of_failsWith hns hfails] at hdoes
  have hone : ∃ q, RoutedCopy c env m exc (attemptOf c.std (decodeHeaders m)) q ∧ records = [q] := by
    unfold failureAct at hdoes
    split at hdoes
    · cases hdoes with
      | retry _ q hq => exact ⟨q, hq, rfl⟩
    · cases hdoes with
      | deadLetter _ q hq => exact ⟨q, hq, rfl⟩
  obtain ⟨q, hq, rfl⟩ := hone
  have hnote : copiesIn (noteCalls c m t) = [] := by
    unfold noteCalls
    split
    · split <;> rfl
    · rfl
  have hcopies : copiesIn before ++ copiesIn after = [q] := by
    rw [← copiesIn_append, hcalls]
    simp [copiesIn, hq.isFailureCopy.isFold]
  refine ⟨q, hq, _, htrace, ?_⟩
  rw [copiesIn_append, copiesIn_append, hnote, List.append_nil, hcopies]

theorem RoutedCopy.unique {q' : Queued} {k : Int} (h : RoutedCopy c env m exc k q)
    (h' : RoutedCopy c env m exc k q') : q = q' := by
  obtain ⟨origin, horigin, rfl⟩ := h
  obtain ⟨origin', horigin', rfl⟩ := h'
  cases horigin.symm.trans horigin'
  rfl

/-- What fails is copied. -/
theorem ServiceConsumer.copies_of_routed {backend : StateBackend} {t : World} (hw : Healthy c env m t)
    (hm : Processable c backend env m t) (hns : ¬ Skipped c m) (hfails : FailsWith c env m exc)
    (hq : RoutedCopy c env m exc (attemptOf c.std (decodeHeaders m)) q) : Copies c env m q := by
  obtain ⟨q', hq', calls, htrace, hcopies⟩ :=
    left_of_wp (wp_mono (copies_of_failsWith hw hm hns hfails) (fun _ _ h => h) fun _ _ h => h.elim)
  cases hq.unique hq'
  exact ⟨backend, t, calls, htrace, by simp [hcopies]⟩

namespace RetryWorker

theorem MovedOn.copiedOnce {t u : World} (h : MovedOn w m t u) : ∃ q, CopiedOnce q t u := by
  obtain ⟨q, ⟨-, ⟨headers, hpayload⟩, -⟩, -, htrace⟩ := h.calls
  refine ⟨q, _, htrace, ?_⟩
  simp [copiesIn, Queued.isFold, hpayload]

/-- A message that is due is moved on. -/
theorem moves_of_due {t : World} (hw : Healthy w env m t) (hm : Readable w env m) (hnow : ¬ Waits w env m) :
    wp (handleMessage w env m) (fun _ u => MovedOn w m t u) (fun _ _ => False) t := by
  obtain ⟨origin, horigin⟩ := fromHeaders_ok.2 ⟨hm.origin, hm.timestamp⟩
  rw [wp_handleMessage_due horigin hm.retryAt hnow]
  exact handleDue_moves hw horigin (hm.value hnow) (hm.direct hnow)

/-- What is moved on is copied. -/
theorem copies_of_due {t : World} (hw : Healthy w env m t) (hm : Readable w env m) (hnow : ¬ Waits w env m) :
    ∃ q, Copies w env m q := by
  have hmoved : MovedOn w m t ((handleMessage w env m).exec t).2 :=
    left_of_wp (wp_mono (moves_of_due hw hm hnow) (fun _ _ h => h) fun _ _ h => h.elim)
  obtain ⟨q, calls, htrace, hcopies⟩ := hmoved.copiedOnce
  exact ⟨q, t, calls, hw.txn_eq, htrace, by simp [hcopies]⟩

end RetryWorker

/-! An order that is never packed, for want of stock, and its copies up to the second attempt. -/

/-- A numeral's value, if it is one. -/
def natOfDigits (digits : List Char) : Option Int :=
  if digits ≠ [] ∧ digits.all Char.isDigit then some (Nat.ofDigitChars 10 digits 0) else none

/-- `int(text)` of a decimal numeral, with or without a minus sign. -/
def intOfDecimal (text : String) : Option Int :=
  match text.toList with
  | '-' :: digits => (natOfDigits digits).map (- ·)
  | digits => natOfDigits digits

theorem natOfDigits_toDigits (n : Nat) : natOfDigits (Nat.toDigits 10 n) = some (n : Int) := by
  unfold natOfDigits
  rw [if_pos, Nat.ofDigitChars_ten_toDigits]
  refine ⟨Nat.toDigits_ne_nil, List.all_eq_true.2 ?_⟩
  intro c hc
  exact Nat.isDigit_of_mem_toDigits (by decide) (by decide) hc

theorem intOfDecimal_toString (n : Int) : intOfDecimal (toString n) = some n := by
  cases n with
  | ofNat n =>
    have hlist : (toString (Int.ofNat n)).toList = Nat.toDigits 10 n := Nat.toList_repr
    unfold intOfDecimal
    rw [hlist]
    split
    · rename_i digits hminus
      have hdigit : '-'.isDigit = true :=
        Nat.isDigit_of_mem_toDigits (by decide) (by decide) (hminus ▸ List.mem_cons_self)
      exact absurd hdigit (by decide)
    · exact natOfDigits_toDigits n
  | negSucc n =>
    have hlist : (toString (Int.negSucc n)).toList = '-' :: Nat.toDigits 10 (n + 1) := by
      change ("-" ++ Nat.repr (n + 1)).toList = _
      rw [String.toList_append, Nat.toList_repr]
      rfl
    unfold intOfDecimal
    rw [hlist]
    simp only [natOfDigits_toDigits]
    rfl
theorem separate_default : ({} : Settings).Separate := by
  constructor <;> decide

/-- A service with a handler. -/
def stockless : Service := { ServiceConsumer.packing with
  handlers := [.orderCreated]
  std := { ServiceConsumer.packing.std with int := intOfDecimal } }

def outOfStock : Exn := .retryable "out of stock"

/-- The handler raises. -/
def short : Env := { ServiceConsumer.serving with handler := .error outOfStock }

/-- The worker beside it. -/
def stockWorker : Worker where
  toDeployment := stockless.toDeployment
  specs := ["packing"]
  decodeJson _ := .event ⟨"e1", "o", 1, .orderCreated, Nat.one_pos⟩

/-- The copy of the first failure is due. -/
def dueEnv : Env := { RetryWorker.serving with now := 30000000 }

def placedMessage : Message where
  topic := "order-lifecycle"
  partition := 0
  offset := 0
  key := none
  value := some "v".toUTF8
  headers := []
  timestamp := 0

/-- The copy of a failure of `m`, for the `k`-th time. -/
def shortCopy (m : Message) (k : Int) : Queued :=
  failureCopy stockless short m outOfStock ⟨m.topic, m.partition, m.offset, "unknown"⟩ k

def waitingMessage : Message := (shortCopy placedMessage 1).polledAt 0

def releasedCopy : Queued :=
  FailureRouter.copyOf stockWorker.toDeployment dueEnv "order-lifecycle" waitingMessage
    (sourceHeaders ⟨"order-lifecycle", 0, 0, "unknown"⟩ "packing" "packing-service" 2)

def releasedMessage : Message := releasedCopy.polledAt 1

theorem readsInts_stockWorker : stockWorker.std.ReadsInts := intOfDecimal_toString

theorem stockless_deployed : stockless.DeployedWith stockWorker := ⟨rfl, .head _⟩

/-- A message without a key, with a value and no time fails. -/
theorem stockless_copies {k : Int} (htopic : m.topic = "order-lifecycle") (hkey : m.key = none)
    (hvalue : m.value = some "v".toUTF8) (htime : m.timestamp ≤ 0)
    (hown : ServiceConsumer.isForeignRetry stockless (decodeHeaders m) = false)
    (hcount : attemptOf stockless.std (decodeHeaders m) = k) :
    ServiceConsumer.Copies stockless short m (shortCopy m k) := by
  have hns : ¬ Skipped stockless m := by
    rintro ⟨-, hsnapshot | hforeign⟩
    · rw [htopic] at hsnapshot
      revert hsnapshot
      decide
    · rw [hown] at hforeign
      cases hforeign
  have htext : messageTimestamp stockless.std m = .ok "unknown" := if_pos htime
  have hrouted : RoutedCopy stockless short m outOfStock (attemptOf stockless.std (decodeHeaders m))
      (shortCopy m k) := by
    refine ⟨⟨m.topic, m.partition, m.offset, "unknown"⟩, ?_, by rw [hcount]; rfl⟩
    unfold Origin.fromMessage
    rw [htext, htopic]
    rfl
  have hw : ServiceConsumer.Healthy stockless short m (ServiceConsumer.justRead m) :=
    ServiceConsumer.healthy_justRead _ stockless.std _ _ (fun exc h => by cases h; rfl) m
  have hm : ServiceConsumer.Processable stockless .memory short m (ServiceConsumer.justRead m) := by
    refine ⟨?_, ?_, fun _ => ⟨_, htext⟩, nofun, fun _ _ => by decide⟩
    · intro value e _ _ hdecode
      cases hdecode
    · intro value event _ _ _ bytes hbytes
      cases hkey.symm.trans hbytes
  exact ServiceConsumer.copies_of_routed hw hm hns ⟨_, hvalue, .inr ⟨_, rfl, rfl⟩⟩ hrouted

/-- The first failure. -/
theorem waiting_lineage : Lineage stockWorker placedMessage 0 [⟨"packing", placedMessage⟩] waitingMessage := by
  have hcopies : ServiceConsumer.Copies stockless short placedMessage (shortCopy placedMessage 1) :=
    stockless_copies rfl rfl rfl (Int.le_refl 0) rfl rfl
  exact .attempt .first stockless_deployed (.inl rfl) hcopies (polledAs_polledAt rfl 0) (by decide)

theorem decodeHeaders_waiting : decodeHeaders waitingMessage = (shortCopy placedMessage 1).header :=
  (polledAs_polledAt rfl 0).decodeHeaders_eq (headersOnce_copyOf nodup_retryHeaders)

theorem waiting_carries : Carries (decodeHeaders waitingMessage) ⟨"order-lifecycle", 0, 0, "unknown"⟩ "packing" := by
  rw [decodeHeaders_waiting]
  exact carries_provenance _ _ _ _

/-- The copy is due, and put back. -/
theorem waiting_released : RetryWorker.Copies stockWorker dueEnv waitingMessage releasedCopy := by
  have hint := readsInts_stockWorker
  have horigin := waiting_carries.fromHeaders_eq hint waitingMessage
  have hservice : RetryWorker.serviceOf waitingMessage = "packing" :=
    RetryWorker.serviceOf_eq waiting_carries.service
  have htime : timeHeader stockWorker.std (decodeHeaders waitingMessage) hdrRetryAt = some (.aware 30000000) := by
    rw [decodeHeaders_waiting]
    rfl
  have hattempt : RetryWorker.attemptFor stockWorker waitingMessage = 2 := by
    refine RetryWorker.attemptFor_eq (hint 2) ?_
    rw [decodeHeaders_waiting]
    rfl
  have hw : RetryWorker.Healthy stockWorker dueEnv waitingMessage {} := by
    refine ⟨rfl, rfl, rfl, rfl, rfl, rfl, rfl, fun topic headers htopic => unreported_singleton ?_⟩
    obtain rfl | ⟨origin, h, rfl⟩ := htopic
    · exact .tail _ (.head _)
    · cases horigin.symm.trans h
      exact .tail _ (.tail _ (.head _))
  have hm : RetryWorker.Readable stockWorker dueEnv waitingMessage := by
    obtain ⟨hints, htimestamp⟩ := RetryWorker.fromHeaders_ok.1 ⟨_, horigin⟩
    refine ⟨hints, htimestamp, fun reading h => ?_, fun _ _ e h => ?_, fun _ => rfl⟩
    · cases htime.symm.trans h
    · cases h
  have hnow : ¬ RetryWorker.Waits stockWorker dueEnv waitingMessage := by
    rintro ⟨due, h, hlater⟩
    cases htime.symm.trans h
    revert hlater
    decide
  obtain ⟨q, hcopies⟩ := RetryWorker.copies_of_due hw hm hnow
  have hcopy := hcopies.copyOf
  cases hcopy with
  | giveUp _ _ _ _ _ hnot =>
    refine absurd ⟨?_, _, rfl⟩ hnot
    rw [hservice]
    exact .head _
  | release origin _ h _ =>
    cases horigin.symm.trans h
    rw [hservice, hattempt] at hcopies
    exact hcopies

/-- The second attempt is due. -/
theorem released_lineage :
    Lineage stockWorker placedMessage 1 [⟨"packing", placedMessage⟩] releasedMessage :=
  .visit waiting_lineage rfl waiting_released (polledAs_polledAt rfl 1) (by decide)

theorem decodeHeaders_released : decodeHeaders releasedMessage = releasedCopy.header :=
  (polledAs_polledAt rfl 1).decodeHeaders_eq (headersOnce_copyOf nodup_sourceHeaders)

/-- It fails as well. -/
theorem released_copies : ServiceConsumer.Copies stockless short releasedMessage (shortCopy releasedMessage 2) := by
  refine stockless_copies rfl rfl rfl (by decide) ?_ ?_
  · rw [decodeHeaders_released]
    decide
  · have hattempt : decodeHeaders releasedMessage hdrAttempt = some (toString (2 : Int)) := by
      rw [decodeHeaders_released]
      rfl
    have hint : stockless.std.int (toString (2 : Int)) = some 2 := readsInts_stockWorker 2
    simp only [attemptOf, hattempt, hint]
    decide

end OrderService
