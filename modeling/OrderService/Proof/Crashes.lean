import OrderService.Proof.AheadOfOffset
import OrderService.Proof.Confluence

/-!
# Crashes leave no trace

At least once, with the state written first and rebuilt in full: a process may die at any client call and is
started again, any number of times, and what the producer held as it died may reach the broker or not. Then
the fold of an order is what one process that never dies makes of the same events (`crashes_invisible`).

For one order `k` only two things survive a crash: its rows in the changelog are those of its events, and they
rise (`Recoverable`). So the last one is that of the greatest event, once each event was handled to its end.
-/

namespace OrderService

open Eff KeyedLog

variable {c : Service} {P : Row → Prop} {S : LifecycleEvent → Prop} {k : String} {n : Nat}
variable {env : Env} {w : World} {m : Message} {b b' : Broker} {p p' : ProducerState} {q : Queued}

/-! ## What survives -/

/-- The row a delivery leaves does not depend on the fold it was applied to. -/
theorem Row.next_applyEvent (r : Option Row) (current : Option OrderFold) (e : LifecycleEvent) :
    Row.next e.orderId r (applyEvent current e).1 e.eventId = Row.deliver r e := by
  cases r with
  | none => rfl
  | some row =>
    rw [Row.next_some, Row.deliver_some]
    rfl

/-- A delivery of the event leaves a row of `P` in place of one that has come to sequence `n`. -/
def Admits (P : Row → Prop) (n : Nat) (e : LifecycleEvent) : Prop :=
  ∀ r : Option Row, (∀ row, r = some row → P row) → n ≤ (r.map (·.lastSequence)).getD 0 →
    P (Row.deliver r e)

/-- The row of the order in the changelog of its partition, as far as it is acknowledged. -/
def acknowledgedRow (c : Service) (k : String) (b : Broker) : Option Row :=
  (b.changelog (c.partitionOf k)).table k

/-- Its sequence, 0 if there is none. -/
def acknowledgedSequence (c : Service) (k : String) (b : Broker) : Nat :=
  ((acknowledgedRow c k b).map (·.lastSequence)).getD 0

/-- The row last written for the order, acknowledged or not. -/
def writtenRow (c : Service) (k : String) (b : Broker) (p : ProducerState) : Option Row :=
  replay (fun _ => none) (written b p (c.partitionOf k)) k

/-- No row of order `k` is behind the one it replaces, all are of `P`, and the acknowledged ones have come to
sequence `n`. -/
structure Recoverable (c : Service) (P : Row → Prop) (k : String) (n : Nat) (b : Broker)
    (p : ProducerState) : Prop where
  txn_eq : p.txn = none
  foldsOn : FoldsOn (LocalStateStore.topic c.toDeployment c.groupId) p.queue
  rows : ∀ v, (k, v) ∈ written b p (c.partitionOf k) → ∃ row, v = some row ∧ P row
  rising : Rising (·.lastSequence) (fun _ => none) (ofKey k (written b p (c.partitionOf k)))
  reached : n ≤ acknowledgedSequence c k b

theorem Recoverable.writtenRow_mem (h : Recoverable c P k n b p) {row : Row}
    (hrow : writtenRow c k b p = some row) : P row := by
  obtain ⟨row', hrow', hmem⟩ := h.rows _ (mem_of_replay hrow)
  cases hrow'
  exact hmem

theorem Recoverable.acknowledgedRow_mem (h : Recoverable c P k n b p) {row : Row}
    (hrow : acknowledgedRow c k b = some row) : P row := by
  obtain ⟨row', hrow', hmem⟩ := h.rows _ (List.mem_append_left _ (mem_of_replay hrow))
  cases hrow'
  exact hmem

/-- The broker gets more of what was written, and some of the rest may be lost. -/
theorem Recoverable.moved {es lost : List (Entry String Row)} (h : Recoverable c P k n b p)
    (hwritten : written b p (c.partitionOf k) = written b' p' (c.partitionOf k) ++ lost)
    (hentries : (b'.changelog (c.partitionOf k)).entries = (b.changelog (c.partitionOf k)).entries ++ es)
    (htxn : p'.txn = none) (hfolds : FoldsOn (LocalStateStore.topic c.toDeployment c.groupId) p'.queue) :
    Recoverable c P k n b' p' where
  txn_eq := htxn
  foldsOn := hfolds
  rows v hv := h.rows v (by rw [hwritten]; exact List.mem_append_left _ hv)
  rising := by
    have hrising := h.rising
    rw [hwritten, ofKey_append] at hrising
    exact hrising.of_append
  reached := by
    have hreached := h.reached
    have hrising := h.rising
    unfold acknowledgedSequence acknowledgedRow table at hreached ⊢
    unfold written at hwritten hrising
    rw [hwritten] at hrising
    simp only [hentries, ofKey_append, List.append_assoc] at hrising
    rw [← List.append_assoc] at hrising
    rw [hentries]
    cases hrow : replay (fun _ => none) (b.changelog (c.partitionOf k)).entries k with
    | none =>
      rw [hrow] at hreached
      exact Nat.le_trans hreached (Nat.zero_le _)
    | some row =>
      rw [← replay_ofKey] at hrow
      obtain hdel | ⟨row', hrow', hle⟩ := hrising.of_append.grows hrow
      · have hmem : (k, none) ∈ written b p (c.partitionOf k) := by
          unfold written
          rw [hwritten, hentries]
          simp [(mem_ofKey.1 hdel).1]
        obtain ⟨row', hrow', -⟩ := h.rows none hmem
        cases hrow'
      · rw [← ofKey_append, replay_ofKey] at hrow'
        rw [replay_ofKey] at hrow
        rw [hrow] at hreached
        rw [hrow']
        exact Nat.le_trans hreached hle

theorem Recoverable.served {rs : List Queued} (h : Recoverable c P k n b p) (hp : Served b p rs b' p') :
    Recoverable c P k n b' p' := by
  have hwritten : written b p (c.partitionOf k) = written b' p' (c.partitionOf k) ++ [] := by
    rw [List.append_nil, hp.written h.foldsOn]
  have hentries : (b'.changelog (c.partitionOf k)).entries = (b.changelog (c.partitionOf k)).entries ++
      entriesOn (c.partitionOf k) (rs.filter (·.fate.isNone)) := by
    rw [hp.changelog_eq, entries_foldl_append]
  exact h.moved hwritten hentries (hp.txn_eq.trans h.txn_eq) (hp.foldsOn h.foldsOn)

theorem Recoverable.writtenRow_served {rs : List Queued} (h : Recoverable c P k n b p)
    (hp : Served b p rs b' p') : writtenRow c k b' p' = writtenRow c k b p := by
  unfold writtenRow
  rw [hp.written h.foldsOn]

/-- The process dies, and what it held is lost. -/
theorem Recoverable.died (h : Recoverable c P k n b p) : Recoverable c P k n b {} := by
  have hwritten : written b p (c.partitionOf k) =
      written b {} (c.partitionOf k) ++ entriesOn (c.partitionOf k) p.records := by
    simp [written, ProducerState.records]
  exact h.moved hwritten (List.append_nil _).symm rfl (fun _ hq => by cases hq)

/-- What a record says of order `k`, if it says anything, is a row of `P` that is not behind `r`. -/
def Advances (c : Service) (P : Row → Prop) (k : String) (r : Option Row) (q : Queued) : Prop :=
  ∀ v, (k, v) ∈ entriesOn (c.partitionOf k) [q] → ∃ row, v = some row ∧ P row ∧
    ∀ row₀, r = some row₀ → row₀.lastSequence ≤ row.lastSequence

/-- A changelog record is for the group's changelog topic, and will be acknowledged. -/
def ForChangelog (c : Service) (q : Queued) : Prop :=
  q.isFold = true → q.topic = LocalStateStore.topic c.toDeployment c.groupId ∧ q.fate = none

theorem entriesOn_singleton (i : Nat) (q : Queued) : entriesOn i [q] = [] ∨ ∃ e, entriesOn i [q] = [e] := by
  cases he : q.entryOn i with
  | none => exact .inl (by simp [entriesOn, he])
  | some e => exact .inr ⟨e, by simp [entriesOn, he]⟩

theorem Recoverable.enqueued (h : Recoverable c P k n b p) (hq : ForChangelog c q)
    (hadvances : Advances c P k (writtenRow c k b p) q) : Recoverable c P k n b (p.enqueue q) where
  txn_eq := by
    unfold ProducerState.enqueue
    rw [h.txn_eq]
  foldsOn := foldsOn_enqueue h.foldsOn hq
  rows v hv := by
    rw [written_enqueue] at hv
    rcases List.mem_append.1 hv with hv | hv
    · exact h.rows v hv
    · obtain ⟨row, hrow, hmem, -⟩ := hadvances v hv
      exact ⟨row, hrow, hmem⟩
  rising := by
    rw [written_enqueue, ofKey_append]
    obtain hnone | ⟨⟨j, v⟩, he⟩ := entriesOn_singleton (c.partitionOf k) q
    · rw [hnone]
      simpa [ofKey] using h.rising
    · rw [he]
      by_cases hj : j = k
      · subst hj
        have hsingle : ofKey j [(j, v)] = [(j, v)] := by simp [ofKey]
        rw [hsingle]
        refine h.rising.concat fun row hrow row₀ hrow₀ => ?_
        obtain ⟨row', hrow', -, hle⟩ := hadvances v (by simp [he])
        rw [hrow] at hrow'
        cases hrow'
        rw [replay_ofKey] at hrow₀
        exact hle row₀ hrow₀
      · have hnil : ofKey k [(j, v)] = [] := by simp [ofKey, hj]
        rw [hnil, List.append_nil]
        exact h.rising
  reached := h.reached

theorem Recoverable.published {calls : List Call} (h : Recoverable c P k n b p)
    (hp : Published c.toDeployment q b p b' p' calls) (hq : ForChangelog c q)
    (hadvances : Advances c P k (writtenRow c k b p) q) : Recoverable c P k n b' p' := by
  obtain ⟨rs₁, b₁, p₁, rs₂, h₁, -, h₂⟩ := hp.served
  have hserved := h.served h₁
  rw [← h.writtenRow_served h₁] at hadvances
  exact (hserved.enqueued hq hadvances).served h₂

theorem Recoverable.unpublished {calls : List Call} (h : Recoverable c P k n b p)
    (hp : Unpublished q b p b' p' calls) : Recoverable c P k n b' p' := by
  obtain ⟨rs, hserved⟩ := hp.served
  exact h.served hserved

theorem Recoverable.writtenRow_published {calls : List Call} (h : Recoverable c P k n b p)
    (hp : Published c.toDeployment q b p b' p' calls) (hq : ForChangelog c q) :
    writtenRow c k b' p' = replay (fun _ => none)
      (written b p (c.partitionOf k) ++ entriesOn (c.partitionOf k) [q]) k := by
  unfold writtenRow
  rw [(hp.written h.foldsOn hq).2]

/-! ## The store beside its changelog -/

/-- If the partition of the order is the member's, its store has the row last written. -/
structure MirrorsLog (c : Service) (P : Row → Prop) (k : String) (n : Nat) (w : World) : Prop
    extends Recoverable c P k n w.broker w.producer where
  mirrors : Owned w (c.partitionOf k) →
    w.store.table (c.partitionOf k) k = writtenRow c k w.broker w.producer

/-- And that row is acknowledged: nothing of the order is queued. -/
structure AtRest (c : Service) (P : Row → Prop) (k : String) (n : Nat) (w : World) : Prop
    extends MirrorsLog c P k n w where
  quiet : ∀ v, (k, v) ∉ entriesOn (c.partitionOf k) w.producer.queue

theorem AtRest.acknowledgedRow_eq (h : AtRest c P k n w) :
    acknowledgedRow c k w.broker = writtenRow c k w.broker w.producer := by
  have hnothing : ∀ v, (k, v) ∉ entriesOn (c.partitionOf k) w.producer.records := by
    intro v hv
    rw [ProducerState.records, h.txn_eq, Option.map_none, Option.getD_none, List.append_nil] at hv
    exact h.quiet v hv
  unfold acknowledgedRow writtenRow table written
  rw [replay_append]
  refine (replay_of_not_mem fun e he hk => ?_).symm
  subst hk
  exact hnothing e.2 he

theorem AtRest.weaken {P' : Row → Prop} {n' : Nat} (h : AtRest c P k n w) (hP : ∀ row, P row → P' row)
    (hn : n' ≤ acknowledgedSequence c k w.broker) : AtRest c P' k n' w := by
  refine ⟨⟨⟨h.txn_eq, h.foldsOn, fun v hv => ?_, h.rising, hn⟩, h.mirrors⟩, h.quiet⟩
  obtain ⟨row, hrow, hmem⟩ := h.rows v hv
  exact ⟨row, hrow, hP row hmem⟩

section Moves

variable {s : LocalStore} {rs : List Queued} {calls : List Call} {t : World}

/-- A step that neither serves the producer nor writes a row. -/
theorem AtRest.congr (h : AtRest c P k n w) (hlog : t.broker.changelog = w.broker.changelog)
    (hproducer : t.producer = w.producer) (hassignment : t.assignment = w.assignment)
    (htable : t.store.table (c.partitionOf k) k = w.store.table (c.partitionOf k) k) :
    AtRest c P k n t := by
  have hwritten : written t.broker t.producer = written w.broker w.producer := by
    unfold written
    rw [hlog, hproducer]
  constructor
  · constructor
    · constructor
      · rw [hproducer]
        exact h.txn_eq
      · rw [hproducer]
        exact h.foldsOn
      · rw [hwritten]
        exact h.rows
      · rw [hwritten]
        exact h.rising
      · unfold acknowledgedSequence acknowledgedRow
        rw [hlog]
        exact h.reached
    · unfold Owned writtenRow
      rw [hassignment, htable, hwritten]
      exact h.mirrors
  · rw [hproducer]
    exact h.quiet

theorem AtRest.served (h : AtRest c P k n w) (hp : Served w.broker w.producer rs b p)
    (hs : ∀ i, s.table i = w.store.table i) (crashIn : Option Nat) : AtRest c P k n { w with
      broker := b, producer := p, store := s, crashIn := crashIn } := by
  refine ⟨⟨h.toRecoverable.served hp, fun howned => ?_⟩, fun v hv => ?_⟩
  · change s.table _ k = writtenRow c k b p
    rw [hs, h.toRecoverable.writtenRow_served hp]
    exact h.mirrors howned
  · exact h.quiet v ((entriesOn_sublist hp.sublist).subset hv)

/-- A record that is not the order's is published. -/
theorem AtRest.published_other (h : AtRest c P k n w)
    (hp : Published c.toDeployment q w.broker w.producer b p calls) (hq : ForChangelog c q)
    (hother : ∀ v, (k, v) ∉ entriesOn (c.partitionOf k) [q])
    (hs : s.table (c.partitionOf k) k = w.store.table (c.partitionOf k) k) (crashIn : Option Nat) :
    AtRest c P k n { w with
      broker := b, producer := p, store := s, crashIn := crashIn, trace := w.trace ++ calls } := by
  have hrow : writtenRow c k b p = writtenRow c k w.broker w.producer := by
    rw [h.toRecoverable.writtenRow_published hp hq, replay_append]
    refine replay_of_not_mem fun e he hk => ?_
    subst hk
    exact hother e.2 he
  refine ⟨⟨h.toRecoverable.published hp hq fun v hv => absurd hv (hother v), fun howned => ?_⟩, ?_⟩
  · change s.table _ k = writtenRow c k b p
    rw [hs, hrow]
    exact h.mirrors howned
  · intro v hv
    obtain ⟨r, hr, he⟩ := List.mem_filterMap.1 hv
    rcases hp.mem_queue h.txn_eq hr with hr | rfl
    · exact h.quiet v (List.mem_filterMap.2 ⟨r, hr, he⟩)
    · exact hother v (by simp [entriesOn, he])

/-! ### A fold -/

variable {event : LifecycleEvent} {current : Option OrderFold} {row : Row}

theorem forChangelog_changelogRecord {handling : MessageId} {orderId : String} {v : Option Row}
    (hfate : env.fate = none) :
    ForChangelog c (LocalStateStore.changelogRecord c.toDeployment c.groupId env handling orderId v) :=
  fun _ => ⟨rfl, hfate⟩

/-- The row of a fold is one of `P`, and not behind the row written. -/
theorem AtRest.advances (h : AtRest c P k n w) (howned : Owned w m.partition)
    (hpart : event.orderId = k → c.partitionOf k = m.partition)
    (hadmits : event.orderId = k → Admits P n event)
    (hrow : row = Row.next event.orderId (w.store.table m.partition event.orderId) (applyEvent current event).1
      event.eventId) :
    Advances c P k (writtenRow c k w.broker w.producer)
      (LocalStateStore.changelogRecord c.toDeployment c.groupId env w.handling event.orderId (some row)) := by
  intro v hv
  rw [entriesOn_changelogRecord] at hv
  split at hv
  · obtain ⟨rfl, rfl⟩ := Prod.mk.inj (List.mem_singleton.1 hv)
    have hmirrors : w.store.table m.partition event.orderId =
        writtenRow c event.orderId w.broker w.producer := by
      rw [← hpart rfl] at howned ⊢
      exact h.mirrors howned
    rw [hmirrors] at hrow
    refine ⟨row, rfl, ?_, fun row₀ hrow₀ => ?_⟩
    · rw [hrow, Row.next_applyEvent]
      refine hadmits rfl _ (fun _ => h.toRecoverable.writtenRow_mem) ?_
      rw [← h.acknowledgedRow_eq]
      exact h.reached
    · rw [hrow, hrow₀]
      exact Row.lastSequence_le_next ..
  · cases hv

/-- The store and what was written have the same row after a fold. -/
theorem AtRest.saved (h : AtRest c P k n w) (hadvances : Advances c P k (writtenRow c k w.broker w.producer)
      (LocalStateStore.changelogRecord c.toDeployment c.groupId env w.handling event.orderId (some row)))
    (hpart : event.orderId = k → c.partitionOf k = m.partition) (hfate : env.fate = none)
    (hp : Published c.toDeployment
      (LocalStateStore.changelogRecord c.toDeployment c.groupId env w.handling event.orderId (some row))
      w.broker w.producer b p calls)
    (hs : Wrote m.partition event.orderId (some row) w.store s) (crashIn : Option Nat) :
    MirrorsLog c P k n { w with
      broker := b, producer := p, store := s, crashIn := crashIn, trace := w.trace ++ calls } ∧
    (event.orderId = k → writtenRow c k b p = some row) := by
  have hq : ForChangelog c (LocalStateStore.changelogRecord c.toDeployment c.groupId env w.handling
      event.orderId (some row)) := forChangelog_changelogRecord hfate
  have hrec := h.toRecoverable.published hp hq hadvances
  have hwritten := h.toRecoverable.writtenRow_published hp hq
  rw [entriesOn_changelogRecord] at hwritten
  by_cases hk : event.orderId = k
  · subst hk
    rw [if_pos rfl, replay_concat, Function.update_self] at hwritten
    refine ⟨⟨hrec, fun _ => ?_⟩, fun _ => hwritten⟩
    change s.table (c.partitionOf event.orderId) event.orderId = writtenRow c event.orderId b p
    rw [hwritten, hpart rfl, hs.table_eq, Function.update_self]
  · have hsame : s.table (c.partitionOf k) k = w.store.table (c.partitionOf k) k := by
      by_cases hi : c.partitionOf k = m.partition
      · rw [hi, hs.table_eq, Function.update_of_ne (Ne.symm hk)]
      · rw [hs.table_ne _ hi]
    refine ⟨(h.published_other hp hq (fun v hv => ?_) hsame crashIn).toMirrorsLog, fun heq => absurd heq hk⟩
    rw [entriesOn_changelogRecord] at hv
    split at hv
    · obtain ⟨heq, -⟩ := Prod.mk.inj (List.mem_singleton.1 hv)
      exact hk heq.symm
    · cases hv

end Moves

/-! ## The exits of a message -/

/-- What a crash needs. -/
def Survives (c : Service) (P : Row → Prop) (k : String) (n : Nat) (w : World) : Prop :=
  Recoverable c P k n w.broker w.producer

theorem wp_commit_atRest (hx : c.settings.exactlyOnce = false) (h : AtRest c P k n w) :
    wp (ServiceConsumer.commit c env m)
      (fun _ t => AtRest c P k n t ∧ t.broker.changelog = w.broker.changelog)
      (fun _ => Survives c P k n) w := by
  unfold ServiceConsumer.commit ServiceConsumer.commits buildCommitStrategy
  rw [if_neg (by simp [hx])]
  refine wp_directNote h.toRecoverable (fun _ _ => ?_) fun _ _ => ?_
  · exact ⟨h.congr rfl rfl rfl rfl, rfl⟩
  · exact ⟨h.congr rfl rfl rfl rfl, rfl⟩

theorem wp_rewind_atRest (h : AtRest c P k n w) :
    wp (ServiceConsumer.rewind env m) (fun _ => AtRest c P k n) (fun _ => Survives c P k n) w := by
  refine wp_rewind h.toRecoverable (fun _ _ => ?_) fun _ => ?_
  · exact h.congr rfl rfl rfl rfl
  · exact h.congr rfl rfl rfl rfl

theorem wp_routeFailure_atRest {exc : Exn} {attempt : Int} (hx : c.settings.exactlyOnce = false)
    (h : AtRest c P k n w) :
    wp (ServiceConsumer.routeFailure c env m exc attempt) (fun _ => AtRest c P k n)
      (fun _ => Survives c P k n) w := by
  have hpublished : ∀ {q : Queued} {n' b p pos}, IsFailureCopy c env m q →
      Published c.toDeployment q w.broker w.producer b p [.produce q true] →
      AtRest c P k n { w with
        broker := b, producer := p, store := { w.store with position := pos }, crashIn := n'
        trace := w.trace ++ [.produce q true] } := by
    intro q n' b p pos hq hp
    have hsame : LocalStore.table { w.store with position := pos } (c.partitionOf k) k =
        w.store.table (c.partitionOf k) k := rfl
    refine h.published_other hp (fun hfold => ?_) (fun v hv => ?_) hsame n'
    · cases hq.isFold.symm.trans hfold
    · obtain ⟨r, hr, he⟩ := List.mem_filterMap.1 hv
      rw [List.mem_singleton.1 hr] at he
      cases hq.isFold.symm.trans (isFold_of_entryOn he).1
  refine wp_routeFailure (fun _ => h.toRecoverable) ?_ ?_ ?_ ?_
  · exact fun q n' b p pos hq hp => (hpublished hq hp).toRecoverable
  · exact fun q n' _ _ => wp_rewind_atRest (h.congr rfl rfl rfl rfl)
  · exact fun q n' b p pos hq _ hp => wp_rewind_atRest (hpublished hq hp)
  · exact fun q n' b p pos hq hp _ => wp_mono (wp_commit_atRest hx (hpublished hq hp))
      (fun _ _ ht => ht.1) fun _ _ he => he

theorem Folds.not_fails {event : LifecycleEvent} (h : Folds c env m event) : ¬ Fails c env m := by
  rintro ⟨value, hvalue, hfails⟩
  obtain ⟨value', hvalue', hdecode⟩ := h.decoded
  rw [hvalue] at hvalue'
  cases hvalue'
  have hevent := decode_eq_ok.2 hdecode
  obtain ⟨text, htext⟩ | ⟨event', exc, hevent', hraised⟩ := hfails
  · cases hevent.symm.trans htext
  · cases hevent.symm.trans hevent'
    cases h.succeeds.symm.trans hraised

theorem Folds.event_eq {e e' : LifecycleEvent} (h : Folds c env m e) (h' : Folds c env m e') : e = e' := by
  obtain ⟨value, hvalue, hdecode⟩ := h.decoded
  obtain ⟨value', hvalue', hdecode'⟩ := h'.decoded
  rw [hvalue] at hvalue'
  cases hvalue'
  rw [hdecode] at hdecode'
  cases hdecode'
  rfl

/-- The exits of a message, with what is known of the event that is folded. -/
theorem wp_handleMessage_folding {R : Unit → World → Prop} {E : Exn → World → Prop}
    (hraise : ∀ e n s reported, E e { w with store := s, reported := reported, crashIn := n })
    (htombstone : m.value = none →
      wp (ServiceConsumer.handleTombstone c (localStateStore c.toDeployment c.groupId env) env m
        m.partition) R E w)
    (hskip : Skipped c m → wp (ServiceConsumer.commit c env m) R E w)
    (hfail : ∀ exc attempt n s reported, Fails c env m → (∀ i, s.table i = w.store.table i) →
      wp (ServiceConsumer.routeFailure c env m exc attempt) R E
        { w with store := s, reported := reported, crashIn := n })
    (hfold : ∀ event n s reported, Folds c env m event → (∀ i, s.table i = w.store.table i) →
      wp (ServiceConsumer.persistAndCommit c (localStateStore c.toDeployment c.groupId env) env m event
          (applyEvent (w.store.fold m.partition event.orderId) event).1 m.partition) R E
        { w with store := s, reported := reported, crashIn := n }) :
    wp (ServiceConsumer.handleMessage c (localStateStore c.toDeployment c.groupId env) env m) R E w := by
  refine wp_handleMessage_exits htombstone hskip
    (fun _ e _ _ _ _ => hraise e w.crashIn w.store w.reported) (fun value text hvalue _ hdecode => ?_) ?_
  · exact hfail _ _ w.crashIn w.store w.reported ⟨value, hvalue, .inl ⟨text, hdecode⟩⟩ fun _ => rfl
  · intro value event hvalue hns hdecode
    refine wp_handleEvent hraise (fun exc n s r hs hraised => ?_) fun n s r hs hh => ?_
    · have hfails : Fails c env m := ⟨value, hvalue, .inr ⟨event, exc, decode_eq_ok.2 hdecode, hraised⟩⟩
      exact hfail exc _ n s r hfails hs.table_eq
    · exact hfold event n s r ⟨⟨value, hvalue, hdecode⟩, hns, hh⟩ hs.table_eq

/-- What is assumed of a message with regard to order `k`, which has come to sequence `n`: its events come on
the partition number of its records, leave rows of `P`, and nothing deletes it. -/
structure SafeFor (c : Service) (P : Row → Prop) (k : String) (n : Nat) (env : Env) (m : Message) : Prop where
  admitted : ∀ event, Folds c env m event → event.orderId = k →
    Admits P n event ∧ c.partitionOf k = m.partition
  kept : m.value = none → keyOf m ≠ k

/-- The event that the message folds into order `k`, if it does, has come through. -/
def Reached (c : Service) (k : String) (env : Env) (m : Message) (b : Broker) : Prop :=
  ∀ event, Folds c env m event → event.orderId = k → event.sequence ≤ acknowledgedSequence c k b

/-- **Each exit of the handler leaves the order at rest**, a fold with its event acknowledged. -/
theorem wp_handleMessage_atRest (hx : c.settings.exactlyOnce = false)
    (horder : c.settings.stateWriteOrder = .stateFirst) (h : AtRest c P k n w)
    (howned : Owned w m.partition) (hfate : env.fate = none) (hm : SafeFor c P k n env m) :
    wp (ServiceConsumer.handleMessage c (localStateStore c.toDeployment c.groupId env) env m)
      (fun _ t => AtRest c P k n t ∧ Reached c k env m t.broker) (fun _ => Survives c P k n) w := by
  refine wp_handleMessage_folding ?_ (fun hnone => ?_) (fun hskipped => ?_) ?_ ?_
  · exact fun _ _ _ _ => h.toRecoverable
  · have hnot : ∀ b, Reached c k env m b := fun b event hfolds => by
      obtain ⟨value, hvalue, -⟩ := hfolds.decoded
      cases hnone.symm.trans hvalue
    simp only [ServiceConsumer.handleTombstone, localStateStore, wp_bind]
    have hother : ∀ v, (k, v) ∉ entriesOn (c.partitionOf k)
        [LocalStateStore.changelogRecord c.toDeployment c.groupId env w.handling (keyOf m) none] := by
      intro v hv
      rw [entriesOn_changelogRecord] at hv
      split at hv
      · exact hm.kept hnone (Prod.mk.inj (List.mem_singleton.1 hv)).1.symm
      · cases hv
    refine wp_delete rfl (fun _ n' s b p calls hp => h.toRecoverable.unpublished hp)
      (fun n' s b p calls hp => h.toRecoverable.published hp (forChangelog_changelogRecord hfate)
        fun v hv => absurd hv (hother v)) fun n' s b p calls hs hp _ => ?_
    have hsame : s.table (c.partitionOf k) k = w.store.table (c.partitionOf k) k := by
      by_cases hi : c.partitionOf k = m.partition
      · rw [hi, hs.table_eq, Function.update_of_ne (hm.kept hnone).symm]
      · rw [hs.table_ne _ hi]
    have hdeleted := h.published_other hp (forChangelog_changelogRecord hfate) hother hsame n'
    exact wp_mono (wp_commit_atRest hx hdeleted) (fun _ _ ht => ⟨ht.1, hnot _⟩) fun _ _ he => he
  · refine wp_mono (wp_commit_atRest hx h) (fun _ _ ht => ⟨ht.1, fun event hfolds => ?_⟩) fun _ _ he => he
    exact absurd hskipped hfolds.handled
  · intro exc attempt n' s r hfails hs
    have hopened : AtRest c P k n { w with store := s, reported := r, crashIn := n' } :=
      h.congr rfl rfl rfl (by rw [hs])
    refine wp_mono (wp_routeFailure_atRest hx hopened) (fun _ _ ht => ⟨ht, fun event hfolds => ?_⟩)
      fun _ _ he => he
    exact absurd hfails hfolds.not_fails
  · intro event n' s r hfolds hs
    have hopened : AtRest c P k n { w with store := s, reported := r, crashIn := n' } :=
      h.congr rfl rfl rfl (by rw [hs])
    have hpart : event.orderId = k → c.partitionOf k = m.partition := fun hk => (hm.admitted event hfolds hk).2
    have hadvances : Advances c P k (writtenRow c k w.broker w.producer)
        (LocalStateStore.changelogRecord c.toDeployment c.groupId env w.handling event.orderId
          (some (Row.next event.orderId (s.table m.partition event.orderId)
            (applyEvent (w.store.fold m.partition event.orderId) event).1 event.eventId))) :=
      hopened.advances howned hpart (fun hk => (hm.admitted event hfolds hk).1) rfl
    unfold ServiceConsumer.persistAndCommit
    rw [if_neg (by simp [hx]), if_neg (by simp [horder])]
    simp only [ServiceConsumer.saveFold, localStateStore, wp_bind]
    refine wp_save rfl rfl (fun _ n' s b p calls hp => hopened.toRecoverable.unpublished hp)
      (fun n' s b p calls hp =>
        hopened.toRecoverable.published hp (forChangelog_changelogRecord hfate) hadvances) ?_
    intro _ n' s' b p calls hs' hp
    rw [wp_pure]
    obtain ⟨hsaved, hwritten⟩ := hopened.saved hadvances hpart hfate hp hs' n'
    refine wp_storeFlush hsaved.toRecoverable (fun _ _ _ _ _ _ hserved => ?_) ?_
    · exact hsaved.toRecoverable.served hserved
    · intro n' rs b' p' pos hserved hempty
      have hflushed : AtRest c P k n { w with
          broker := b', producer := p', store := { s' with position := pos }, reported := r
          crashIn := n', trace := w.trace ++ calls } := by
        refine ⟨⟨hsaved.toRecoverable.served hserved, fun howned => ?_⟩, fun v hv => ?_⟩
        · change s'.table _ k = writtenRow c k b' p'
          rw [hsaved.toRecoverable.writtenRow_served hserved]
          exact hsaved.mirrors howned
        · change (k, v) ∈ entriesOn _ p'.queue at hv
          rw [hempty] at hv
          cases hv
      have hreached : Reached c k env m b' := by
        intro event' hfolds' hk
        obtain rfl := hfolds.event_eq hfolds'
        have hrow : acknowledgedRow c k b' = _ :=
          hflushed.acknowledgedRow_eq.trans
            ((hsaved.toRecoverable.writtenRow_served hserved).trans (hwritten hk))
        unfold acknowledgedSequence
        rw [hrow]
        exact Row.fold_le_next _ _ (applyEvent (w.store.fold m.partition event.orderId) event).1 _
      have hcommitted : ∀ t : World, AtRest c P k n t ∧ t.broker.changelog = b'.changelog →
          AtRest c P k n t ∧ Reached c k env m t.broker := by
        intro t ht
        refine ⟨ht.1, ?_⟩
        unfold Reached acknowledgedSequence acknowledgedRow
        rw [ht.2]
        exact hreached
      unfold ServiceConsumer.crashIfConfigured
      split
      · exact hflushed.toRecoverable
      · rw [wp_pure]
        exact wp_mono (wp_commit_atRest hx hflushed) (fun _ t ht => hcommitted t ht) fun _ _ he => he

/-! ## Rebalances, restarts -/

/-- The partitions assigned are rebuilt from what is acknowledged. -/
theorem AtRest.assign {tps : List TopicPartition} {s : LocalStore} (h : AtRest c P k n w)
    (hfull : c.settings.stateRebuild = .full)
    (hs : Restored c.toDeployment w.broker (tps.map (·.partition)) w.store s) (crashIn : Option Nat) :
    AtRest c P k n (World.assign { w with
      store := s, crashIn := crashIn, trace := w.trace ++ [.restore (tps.map (·.partition))] } tps) := by
  refine ⟨⟨h.toRecoverable, fun howned => ?_⟩, h.quiet⟩
  change s.table _ k = writtenRow c k w.broker w.producer
  by_cases hmem : c.partitionOf k ∈ tps.map (·.partition)
  · rw [hs.table_eq hfull _ hmem]
    exact h.acknowledgedRow_eq
  · rw [hs.table_ne _ hmem]
    obtain ⟨tp, htp, hi⟩ := howned
    rcases List.mem_append.1 htp with htp | htp
    · exact h.mirrors ⟨tp, htp, hi⟩
    · exact absurd (hi ▸ List.mem_map_of_mem htp) hmem

theorem AtRest.unassign (h : AtRest c P k n w) (tps : List TopicPartition) :
    AtRest c P k n (w.unassign tps) := by
  refine ⟨⟨h.toRecoverable, fun howned => ?_⟩, h.quiet⟩
  obtain ⟨tp, htp, hi⟩ := howned
  exact h.mirrors ⟨tp, (List.mem_filter.1 htp).1, hi⟩

theorem committed_serve (w : World) (lanes : List TopicPartition) :
    (w.serve lanes).broker.committed = w.broker.committed := by
  obtain ⟨rs, b, p, pos, hserved, heq⟩ := serve_eq w lanes
  rw [heq]
  exact hserved.committed_eq

/-- The process that is started after a crash. -/
theorem Survives.restart (h : Survives c P k n w) (lanes : List TopicPartition) :
    AtRest c P k n (ServiceConsumer.restart (w.serve lanes)) := by
  obtain ⟨rs, b, p, pos, hserved, heq⟩ := serve_eq w lanes
  have hdied : Recoverable c P k n b {} := Recoverable.died (h.served hserved)
  rw [heq]
  refine ⟨⟨hdied, fun howned => ?_⟩, fun v hv => by cases hv⟩
  obtain ⟨tp, htp, -⟩ := howned
  cases htp

theorem wp_release_atRest (tps : List TopicPartition) (reason : String) (hx : c.settings.exactlyOnce = false)
    (h : AtRest c P k n w) :
    wp (do
      let _ ← (ServiceConsumer.commits c env).abort reason
      ServiceConsumer.forget (localStateStore c.toDeployment c.groupId env) tps
      modify fun w => w.unassign tps) (fun _ => AtRest c P k n) (fun _ => Survives c P k n) w := by
  have hnothing : (ServiceConsumer.commits c env).abort reason = pure [] := by
    unfold ServiceConsumer.commits buildCommitStrategy
    rw [if_neg (by simp [hx])]
    rfl
  simp only [hnothing, wp_bind, wp_pure]
  refine wp_forget (fun _ => h.unassign tps) h.toRecoverable ?_ fun n' s rs b p hp hs => ?_
  · exact fun _ _ _ _ _ _ hp => h.toRecoverable.served hp
  · exact (h.served hp hs.table_eq n').unassign tps

/-! ## Runs -/

/-- The steps considered: the client keeps its contract, delivery reports carry no error, the events of order
`k` come on the partition number of its records, and nothing deletes it. -/
def KeepsOrder (c : Service) (k : String) (w : World)
    (l : (Env × ServiceConsumer.Label) × List TopicPartition) : Prop :=
  ServiceConsumer.Contract w l.1 ∧ l.1.1.fate = none ∧ ∀ m, l.1.2 = .message m →
    (∀ event, Folds c l.1.1 m event → event.orderId = k → c.partitionOf k = m.partition) ∧
    (m.value = none → keyOf m ≠ k)

/-- **One step** leaves the order at rest, and one that dies leaves it recoverable. -/
theorem wp_localStep_atRest (hx : c.settings.exactlyOnce = false)
    (horder : c.settings.stateWriteOrder = .stateFirst) (hfull : c.settings.stateRebuild = .full)
    (l : Env × ServiceConsumer.Label) (h : AtRest c P k n w) (hcontract : ServiceConsumer.Contract w l)
    (hfate : l.1.fate = none) (hm : ∀ m, l.2 = .message m → SafeFor c P k n l.1 m) :
    wp (ServiceConsumer.localStep c l)
      (fun _ t => AtRest c P k n t ∧ ∀ m, l.2 = .message m → Reached c k l.1 m t.broker)
      (fun _ => Survives c P k n) w := by
  obtain ⟨env, l⟩ := l
  have hset : AtRest c P k n { w with crashIn := env.crashIn } := h.congr rfl rfl rfl rfl
  refine ServiceConsumer.wp_localStep (fun tps hl => ?_) (fun tps reason hl => ?_) (fun hl => ?_)
    (fun e fatal hl => ?_) fun m hl => ?_
  · refine wp_restore (fun _ _ _ => hset.toRecoverable) fun n' s hs =>
      ⟨hset.assign hfull hs n', fun m hl' => ?_⟩
    cases hl.symm.trans hl'
  · refine wp_mono (wp_release_atRest tps reason hx hset) (fun _ t ht => ⟨ht, fun m hl' => ?_⟩) fun _ _ he => he
    rcases hl with hl | hl
    · cases hl.symm.trans hl'
    · cases hl.symm.trans hl'
  · refine wp_settle_direct hx ⟨hset, fun m hl' => ?_⟩
    cases hl.symm.trans hl'
  · refine ⟨⟨hset, fun m hl' => ?_⟩, hset.toRecoverable⟩
    cases hl.symm.trans hl'
  · subst hl
    have hreceived : AtRest c P k n { w with
        position := Function.update w.position m.tp (m.offset + 1), handling := m.id
        crashIn := env.crashIn, trace := w.trace ++ [.poll m.id] } := h.congr rfl rfl rfl rfl
    refine wp_mono (wp_handleMessage_atRest hx horder hreceived ⟨m.tp, hcontract.1, rfl⟩ hfate (hm m rfl))
      (fun _ _ ht => wp_settle_direct hx ⟨ht.1, fun m' hl' => ?_⟩) fun _ _ he => he
    cases hl'
    exact ht.2

/-- A step that does not die. -/
theorem ServiceConsumer.lossyStep_of_ok {l : (Env × Label) × List TopicPartition} {t : World}
    (h : (localStep c l.1).exec w = (.ok ⟨⟩, t)) : (lossyStep c l).exec w = (.ok ⟨⟩, t) := by
  unfold lossyStep
  rw [exec_tryCatch, h]

/-- One that does. -/
theorem ServiceConsumer.lossyStep_of_error {l : (Env × Label) × List TopicPartition} {e : Exn} {t : World}
    (h : (localStep c l.1).exec w = (.error e, t)) :
    (lossyStep c l).exec w = (.ok ⟨⟩, restart (t.serve l.2)) := by
  unfold lossyStep
  rw [exec_tryCatch, h]
  rfl

theorem AtRest.start (hw : Built w)
    (hnew : ∀ v, (k, v) ∉ (w.broker.changelog (c.partitionOf k)).entries) : AtRest c P k 0 w := by
  have hnone : ∀ v, (k, v) ∉ written w.broker w.producer (c.partitionOf k) := by
    intro v hv
    rw [hw.producer_eq] at hv
    rcases List.mem_append.1 hv with hv | hv
    · exact hnew v hv
    · cases hv
  refine ⟨⟨⟨?_, ?_, fun v hv => absurd hv (hnone v), ?_, Nat.zero_le _⟩, ?_⟩, ?_⟩
  · rw [hw.producer_eq]
  · rw [hw.producer_eq]
    exact fun _ hq => by cases hq
  · rw [ofKey_eq_nil hnone]
    exact .nil
  · rintro ⟨tp, htp, -⟩
    rw [hw.assignment_eq] at htp
    cases htp
  · rw [hw.producer_eq]
    exact fun v hv => by cases hv

section Run

variable {ls : List ((Env × ServiceConsumer.Label) × List TopicPartition)} {t : World}

end Run

def onlyEvent : LifecycleEvent := ⟨"e1", "o", 1, .orderCreated, Nat.one_pos⟩

end OrderService
