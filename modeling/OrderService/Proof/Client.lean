import OrderService.Client

/-!
# Rules for the client calls

One rule for each call of `Client.lean`: to show a postcondition of the call, show it of each state
the call can return or raise in. Any call may find the process dead, in which case nothing happened.
-/

namespace OrderService

open Eff

variable {d : Deployment} {env : Env} {w : World}
variable {α : Type} {R : Unit → World → Prop} {E : Exn → World → Prop}

@[simp] theorem wp_record {c : Call} :
    wp (record c) R E w ↔ R ⟨⟩ { w with trace := w.trace ++ [c] } := Iff.rfl

theorem wp_tick (hcrash : E .crash w) (h : ∀ n, R ⟨⟩ { w with crashIn := n }) : wp tick R E w := by
  simp only [tick, wp_bind, wp_get]
  split
  · exact h _
  · exact hcrash
  · exact h _

/-- A process with no death ahead makes every call. -/
theorem wp_tick_alive (hw : w.crashIn = none) : wp tick R E w ↔ R ⟨⟩ w := by
  simp [tick, hw]

/-! ## The producer -/

/-- What `produce` raises, and why. -/
inductive Refused (d : Deployment) (outcome : Option ProduceError) (p : ProducerState) : Exn → Prop where
  | buffer : outcome = some .buffer → Refused d outcome p .buffer
  | kafka (k : KafkaException) : outcome = some (.kafka k) → Refused d outcome p (.kafka k)
  | noTransaction (k : KafkaException) : d.settings.exactlyOnce = true → p.txn = none →
      Refused d outcome p (.kafka k)

theorem wp_produce {outcome : Option ProduceError} {q : Queued} (hcrash : E .crash w)
    (hfail : ∀ e n, Refused d outcome w.producer e →
      E e { w with crashIn := n, trace := w.trace ++ [.produce q false] })
    (hok : ∀ n, outcome = none → (d.settings.exactlyOnce = true → w.producer.txn ≠ none) →
      R ⟨⟩ { w with
        producer := w.producer.enqueue q, crashIn := n, trace := w.trace ++ [.produce q true] }) :
    wp (produce d outcome q) R E w := by
  simp only [produce, wp_bind]
  refine wp_tick hcrash fun n => ?_
  rcases outcome with _ | _ | e
  · simp only [wp_bind, wp_get]
    split
    · rename_i h
      obtain ⟨hx, hnone⟩ := Bool.and_eq_true_iff.1 h
      exact hfail _ _ (.noTransaction _ hx (by simpa using hnone))
    · rename_i h
      exact hok n rfl (by simpa using h)
  · exact hfail _ _ (.buffer rfl)
  · exact hfail _ _ (.kafka e rfl)

/-- The queue lost `reports`, each of them the first of its lane when it went; those whose report
carried no error were acknowledged. -/
structure Served (b : Broker) (p : ProducerState) (reports : List Queued) (b' : Broker)
    (p' : ProducerState) : Prop where
  txn_eq : p'.txn = p.txn
  sublist : p'.queue.Sublist p.queue
  reports_mem : ∀ q ∈ reports, q ∈ p.queue
  lane_eq : ∀ tp, p.queue.filter (·.lane = tp) =
    reports.filter (·.lane = tp) ++ p'.queue.filter (·.lane = tp)
  delivered_eq : b'.delivered = b.delivered ++ reports.filter (·.fate.isNone)
  committed_eq : b'.committed = b.committed
  changelog_eq : ∀ i, b'.changelog i =
    (entriesOn i (reports.filter (·.fate.isNone))).foldl KeyedLog.append (b.changelog i)

@[simp] theorem entriesOn_nil (i : Nat) : entriesOn i [] = [] := rfl

@[simp] theorem entriesOn_append (i : Nat) (qs rs : List Queued) :
    entriesOn i (qs ++ rs) = entriesOn i qs ++ entriesOn i rs := List.filterMap_append

theorem Served.refl (b : Broker) (p : ProducerState) : Served b p [] b p :=
  ⟨rfl, .refl _, by simp, by simp, by simp, rfl, by simp⟩

theorem Served.trans {b b' b'' : Broker} {p p' p'' : ProducerState} {rs rs' : List Queued}
    (h : Served b p rs b' p') (h' : Served b' p' rs' b'' p'') :
    Served b p (rs ++ rs') b'' p'' where
  txn_eq := h'.txn_eq.trans h.txn_eq
  sublist := h'.sublist.trans h.sublist
  reports_mem q hq := by
    rcases List.mem_append.1 hq with hq | hq
    · exact h.reports_mem q hq
    · exact h.sublist.subset (h'.reports_mem q hq)
  lane_eq tp := by
    rw [h.lane_eq, h'.lane_eq, List.filter_append, List.append_assoc]
  delivered_eq := by
    rw [h'.delivered_eq, h.delivered_eq, List.filter_append, List.append_assoc]
  committed_eq := h'.committed_eq.trans h.committed_eq
  changelog_eq i := by
    rw [h'.changelog_eq, h.changelog_eq, List.filter_append, entriesOn_append, List.foldl_append]

/-- What one acknowledgement does to the broker. -/
def Broker.acknowledge (b : Broker) (q : Queued) : Broker where
  changelog := fun i => (entriesOn i [q]).foldl KeyedLog.append (b.changelog i)
  delivered := b.delivered ++ [q]
  committed := b.committed

theorem acknowledge_eq (w : World) (q : Queued) : ∃ pos, w.acknowledge q =
    { w with broker := w.broker.acknowledge q, store := { w.store with position := pos } } := by
  unfold World.acknowledge Broker.acknowledge
  rcases hq : q.payload with ⟨k, v⟩ | ⟨k, v, hs⟩
  · refine ⟨Function.update w.store.position q.partition
      (some (max ((w.store.position q.partition).getD 0)
        ((w.broker.changelog q.partition).high + 1))), ?_⟩
    simp only [World.mk.injEq, Broker.mk.injEq, and_true]
    funext i
    by_cases hi : q.partition = i
    · subst hi
      simp [entriesOn, Queued.entryOn, hq]
    · simp [entriesOn, Queued.entryOn, hq, hi, Function.update_of_ne (Ne.symm hi)]
  · refine ⟨w.store.position, ?_⟩
    simp [entriesOn, Queued.entryOn, hq]

theorem report_eq (w : World) (tp : TopicPartition) : ∃ rs b p pos, Served w.broker w.producer rs b p ∧
    w.report tp = { w with broker := b, producer := p, store := { w.store with position := pos } } := by
  unfold World.report
  split
  · exact ⟨_, _, _, w.store.position, .refl _ _, rfl⟩
  · rename_i q hq
    have hlane : q.lane = tp := by simpa using List.find?_some hq
    have hmem : q ∈ w.producer.queue := List.mem_of_find?_eq_some hq
    obtain ⟨pre, post, hqueue, hpre⟩ : ∃ pre post, w.producer.queue = pre ++ q :: post ∧
        ∀ r ∈ pre, r.lane ≠ tp := by
      obtain ⟨-, pre, post, h, hpre⟩ := List.find?_eq_some_iff_append.1 hq
      exact ⟨pre, post, h, by simpa using hpre⟩
    have herase : w.producer.queue.eraseP (·.lane = tp) = pre ++ post := by
      rw [hqueue, List.eraseP_append_right _ (by simpa using hpre),
        List.eraseP_cons_of_pos (by simpa using hlane)]
    have hlanes : ∀ tp', w.producer.queue.filter (·.lane = tp') =
        [q].filter (·.lane = tp') ++ (pre ++ post).filter (·.lane = tp') := by
      intro tp'
      rw [hqueue]
      by_cases h : q.lane = tp'
      · have : pre.filter (·.lane = tp') = [] := by
          rw [List.filter_eq_nil_iff]
          intro r hr
          simpa [← h, hlane] using hpre r hr
        simp [h, this]
      · simp [h]
    have hsub : (pre ++ post).Sublist w.producer.queue := by
      rw [hqueue]
      exact (List.Sublist.refl _).append (List.sublist_cons_self _ _)
    simp only [herase]
    split
    · rename_i hf
      obtain ⟨pos, hpos⟩ := acknowledge_eq
        { w with producer := { w.producer with queue := pre ++ post } } q
      refine ⟨[q], w.broker.acknowledge q, { w.producer with queue := pre ++ post }, pos,
        ⟨rfl, hsub, by simpa using hmem, hlanes, ?_, rfl, fun i => ?_⟩, hpos⟩
      · simp [hf, Broker.acknowledge]
      · simp [hf, Broker.acknowledge]
    · rename_i hf
      refine ⟨[q], w.broker, { w.producer with queue := pre ++ post }, w.store.position,
        ⟨rfl, hsub, by simpa using hmem, hlanes, ?_, rfl, fun i => ?_⟩, rfl⟩
      · simp [hf]
      · simp [hf]

theorem serve_eq (w : World) (lanes : List TopicPartition) : ∃ rs b p pos,
    Served w.broker w.producer rs b p ∧
    w.serve lanes = { w with broker := b, producer := p, store := { w.store with position := pos } } := by
  induction lanes generalizing w with
  | nil => exact ⟨_, _, _, w.store.position, .refl _ _, rfl⟩
  | cons tp lanes ih =>
    obtain ⟨rs, b, p, pos, hserved, heq⟩ := report_eq w tp
    obtain ⟨rs', b', p', pos', hserved', heq'⟩ := ih (w.report tp)
    refine ⟨rs ++ rs', b', p', pos', hserved.trans ?_, ?_⟩
    · simpa only [heq] using hserved'
    · change (w.report tp).serve lanes = _
      rw [heq', heq]

/-- What is left of a queue when delivery reports arrived on `lanes`. -/
def unreported (queue : List Queued) (lanes : List TopicPartition) : List Queued :=
  lanes.foldl (fun queue tp => queue.eraseP (·.lane = tp)) queue

theorem unreported_nil (lanes : List TopicPartition) : unreported [] lanes = [] := by
  induction lanes with
  | nil => rfl
  | cons tp lanes ih => exact ih

/-- A record alone in the queue is reported when its lane is served. -/
theorem unreported_singleton {q : Queued} {lanes : List TopicPartition} (h : q.lane ∈ lanes) :
    unreported [q] lanes = [] := by
  induction lanes with
  | nil => cases h
  | cons tp lanes ih =>
    change unreported ([q].eraseP (·.lane = tp)) lanes = []
    by_cases htp : q.lane = tp
    · rw [List.eraseP_cons_of_pos (by simpa using htp)]
      exact unreported_nil lanes
    · rw [List.eraseP_cons_of_neg (by simpa using htp)]
      exact ih ((List.mem_cons.1 h).resolve_left htp)

theorem serve_queue (w : World) (lanes : List TopicPartition) :
    (w.serve lanes).producer.queue = unreported w.producer.queue lanes := by
  induction lanes generalizing w with
  | nil => rfl
  | cons tp lanes ih =>
    have hreport : (w.report tp).producer.queue = w.producer.queue.eraseP (·.lane = tp) := by
      unfold World.report
      split
      · rename_i h
        rw [List.eraseP_of_forall_not (by simpa using h)]
      · split
        · obtain ⟨pos, hpos⟩ := acknowledge_eq { w with producer := { w.producer with
            queue := w.producer.queue.eraseP (·.lane = tp) } } _
          rw [hpos]
        · rfl
    change ((w.report tp).serve lanes).producer.queue = _
    rw [ih, hreport]
    rfl

theorem wp_pollProducer (hcrash : E .crash w)
    (hok : ∀ n rs b p pos, Served w.broker w.producer rs b p →
      p.queue = unreported w.producer.queue env.servedByPoll → R ⟨⟩ { w with
        broker := b, producer := p, store := { w.store with position := pos }, crashIn := n }) :
    wp (pollProducer env) R E w := by
  simp only [pollProducer, wp_bind]
  refine wp_tick hcrash fun n => ?_
  obtain ⟨rs, b, p, pos, hserved, heq⟩ := serve_eq { w with crashIn := n } env.servedByPoll
  have hqueue := serve_queue { w with crashIn := n } env.servedByPoll
  rw [heq] at hqueue
  rw [wp_modify, heq]
  exact hok n rs b p pos hserved hqueue

theorem wp_flush {R : Nat → World → Prop} {lanes : List TopicPartition} (hcrash : E .crash w)
    (hok : ∀ n rs b p pos, Served w.broker w.producer rs b p →
      p.queue = unreported w.producer.queue lanes → R p.queue.length { w with
        broker := b, producer := p, store := { w.store with position := pos }, crashIn := n }) :
    wp (flush lanes) R E w := by
  simp only [flush, wp_bind]
  refine wp_tick hcrash fun n => ?_
  obtain ⟨rs, b, p, pos, hserved, heq⟩ := serve_eq { w with crashIn := n } lanes
  have hqueue := serve_queue { w with crashIn := n } lanes
  rw [heq] at hqueue
  rw [wp_modify, heq]
  exact hok n rs b p pos hserved hqueue

/-! ## Transactions -/

theorem wp_beginTransaction (hcrash : E .crash w)
    (hfail : ∀ k n, E (.kafka k) { w with
      crashIn := n, trace := w.trace ++ [.beginTransaction false] })
    (hok : ∀ n, w.producer.txn = none → R ⟨⟩ { w with
      producer := { w.producer with txn := some {} }, crashIn := n,
      trace := w.trace ++ [.beginTransaction true] }) :
    wp (beginTransaction env) R E w := by
  simp only [beginTransaction, wp_bind]
  refine wp_tick hcrash fun n => ?_
  rw [wp_get]
  split
  · rename_i h
    exact hok n h
  · exact hfail _ n
  · exact hfail _ n

theorem wp_sendOffsetsToTransaction {offsets : TopicPartition → Option Nat} (hcrash : E .crash w)
    (hfail : ∀ k n, (w.producer.txn ≠ none → env.sendOffsets = some k) → E (.kafka k) { w with
      crashIn := n, trace := w.trace ++ [.sendOffsets offsets false] })
    (hok : ∀ n t, w.producer.txn = some t → env.sendOffsets = none → R ⟨⟩ { w with
      producer := { w.producer with
        txn := some { t with offsets := fun tp => (offsets tp).or (t.offsets tp) } }
      crashIn := n, trace := w.trace ++ [.sendOffsets offsets true] }) :
    wp (sendOffsetsToTransaction env offsets) R E w := by
  simp only [sendOffsetsToTransaction, wp_bind]
  refine wp_tick hcrash fun n => ?_
  rw [wp_get]
  split
  · rename_i t henv htxn
    exact hok n t htxn henv
  · rename_i k henv
    exact hfail k n fun _ => henv
  · rename_i htxn
    exact hfail _ n fun hopen => absurd htxn hopen

/-- The broker after a commit: the transaction's records are acknowledged in order and a control
marker follows them in each changelog partition they are on. -/
structure Committed (b : Broker) (t : Transaction) (b' : Broker) : Prop where
  delivered_eq : b'.delivered = b.delivered ++ t.records
  committed_eq : ∀ tp, b'.committed tp = (t.offsets tp).or (b.committed tp)
  changelog_eq : ∀ i, b'.changelog i =
    ((entriesOn i t.records).foldl KeyedLog.append (b.changelog i)).skip
      (if entriesOn i t.records = [] then 0 else 1)

theorem foldl_acknowledge_eq (w : World) (qs : List Queued) : ∃ pos, qs.foldl World.acknowledge w =
    { w with
      broker := qs.foldl Broker.acknowledge w.broker, store := { w.store with position := pos } } := by
  induction qs generalizing w with
  | nil => exact ⟨w.store.position, rfl⟩
  | cons q qs ih =>
    obtain ⟨pos, hpos⟩ := acknowledge_eq w q
    obtain ⟨pos', hpos'⟩ := ih (w.acknowledge q)
    refine ⟨pos', ?_⟩
    rw [List.foldl_cons, List.foldl_cons, hpos', hpos]

theorem foldl_broker_acknowledge (b : Broker) (qs : List Queued) :
    (qs.foldl Broker.acknowledge b).delivered = b.delivered ++ qs ∧
      (qs.foldl Broker.acknowledge b).committed = b.committed ∧
      ∀ i, (qs.foldl Broker.acknowledge b).changelog i =
        (entriesOn i qs).foldl KeyedLog.append (b.changelog i) := by
  induction qs generalizing b with
  | nil => simp
  | cons q qs ih =>
    obtain ⟨hd, hc, hl⟩ := ih (b.acknowledge q)
    refine ⟨?_, hc, fun i => ?_⟩
    · rw [List.foldl_cons, hd]
      simp [Broker.acknowledge]
    · rw [List.foldl_cons, hl, ← List.singleton_append, entriesOn_append, List.foldl_append]
      rfl

theorem wp_commitTransaction (hcrash : E .crash w)
    (hfail : ∀ k n, (w.producer.txn ≠ none → env.commitTransaction = some k) → E (.kafka k) { w with
      crashIn := n, trace := w.trace ++ [.commitTransaction false] })
    (hok : ∀ n t b pos, w.producer.txn = some t → env.commitTransaction = none →
      Committed w.broker t b → R ⟨⟩ { w with
        broker := b, producer := { w.producer with txn := none }
        store := { w.store with position := pos }, crashIn := n
        trace := w.trace ++ [.commitTransaction true] }) :
    wp (commitTransaction env) R E w := by
  simp only [commitTransaction, wp_bind]
  refine wp_tick hcrash fun n => ?_
  rw [wp_get]
  split
  · rename_i t henv htxn
    obtain ⟨pos, hpos⟩ := foldl_acknowledge_eq { w with crashIn := n } t.records
    obtain ⟨hd, hc, hl⟩ := foldl_broker_acknowledge w.broker t.records
    simp only [wp_bind, wp_modify, wp_record, World.commitRecords, hpos]
    refine hok n t _ pos htxn henv ⟨hd, fun tp => ?_, fun i => ?_⟩
    · simp only [hc]
    · simp only [hl]
  · rename_i k henv
    exact hfail k n fun _ => henv
  · rename_i htxn
    exact hfail _ n fun hopen => absurd htxn hopen

theorem wp_abortTransaction (hcrash : E .crash w)
    (hfail : ∀ k n, (w.producer.txn ≠ none → env.abortTransaction = some k) → E (.kafka k) { w with
      crashIn := n, trace := w.trace ++ [.abortTransaction false] })
    (hok : ∀ n t (gap : Nat → Nat), w.producer.txn = some t → env.abortTransaction = none → R ⟨⟩ { w with
      broker := { w.broker with changelog := fun p => (w.broker.changelog p).skip (gap p) }
      producer := { w.producer with txn := none }, crashIn := n
      trace := w.trace ++ [.abortTransaction true] }) :
    wp (abortTransaction env) R E w := by
  simp only [abortTransaction, wp_bind]
  refine wp_tick hcrash fun n => ?_
  rw [wp_get]
  split
  · rename_i t henv htxn
    exact hok n t env.abortGap htxn henv
  · rename_i k henv
    exact hfail k n fun _ => henv
  · rename_i htxn
    exact hfail _ n fun hopen => absurd htxn hopen

/-! ## The consumer -/

theorem wp_commitOffset {m : Message} (hcrash : E .crash w)
    (hfail : ∀ k n, env.commit ≠ none → E (.kafka k) { w with
      crashIn := n, trace := w.trace ++ [.commit m.tp (m.offset + 1) false] })
    (hok : ∀ n, env.commit = none → R ⟨⟩ { w with
      broker := { w.broker with
        committed := Function.update w.broker.committed m.tp (some (m.offset + 1)) }
      crashIn := n, trace := w.trace ++ [.commit m.tp (m.offset + 1) true] }) :
    wp (commitOffset env m) R E w := by
  simp only [commitOffset, wp_bind]
  refine wp_tick hcrash fun n => ?_
  split
  · rename_i h
    exact hok n h
  · rename_i h
    exact hfail _ n (by simp [h])

theorem wp_seek {tp : TopicPartition} {offset : Nat} (hcrash : E .crash w)
    (hfail : ∀ k n, env.seek tp ≠ none → E (.kafka k) { w with
      crashIn := n, trace := w.trace ++ [.seek tp offset false] })
    (hok : ∀ n, env.seek tp = none → R ⟨⟩ { w with
      position := Function.update w.position tp offset, crashIn := n
      trace := w.trace ++ [.seek tp offset true] }) :
    wp (seek env tp offset) R E w := by
  simp only [seek, wp_bind]
  refine wp_tick hcrash fun n => ?_
  split
  · rename_i h
    exact hok n h
  · rename_i h
    exact hfail _ n (by simp [h])

theorem wp_fetchCommitted {R : List (TopicPartition × Option Nat) → World → Prop}
    {tps : List TopicPartition} (hcrash : E .crash w)
    (hfail : ∀ k n, env.fetchCommitted ≠ none → E (.kafka k) { w with crashIn := n })
    (hok : ∀ n, R (tps.map fun tp => (tp, w.broker.committed tp)) { w with crashIn := n }) :
    wp (fetchCommitted env tps) R E w := by
  simp only [fetchCommitted, wp_bind]
  refine wp_tick hcrash fun n => ?_
  split
  · exact hok n
  · rename_i h
    exact hfail _ n (by simp [h])

theorem wp_pause {tp : TopicPartition} (hcrash : E .crash w)
    (hfail : ∀ k n, env.pause ≠ none → E (.kafka k) { w with crashIn := n })
    (hok : ∀ n, env.pause = none → R ⟨⟩ { w with
      paused := Function.update w.paused tp true, crashIn := n }) :
    wp (pause env tp) R E w := by
  simp only [pause, wp_bind]
  refine wp_tick hcrash fun n => ?_
  split
  · rename_i h
    exact hok n h
  · rename_i h
    exact hfail _ n (by simp [h])

end OrderService
