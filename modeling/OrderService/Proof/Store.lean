import OrderService.Consumer.State
import OrderService.Proof.Client

/-!
# Rules for the durable store

What `load`, `save`, `delete` and `flush` do, one rule each. A write changes one row of one table
(`Wrote`) and hands one record to the producer (`Published`), in this order; it may raise before the
record is handed over (`Unpublished`), or the process may die right after.
-/

namespace OrderService

open Eff KeyedLog

variable {d : Deployment} {groupId : String} {env : Env} {w : World} {i : Nat} {k : String}
variable {R : Unit → World → Prop} {E : Exn → World → Prop}

/-! ## Tables -/

/-- The store of partition `i` was opened; what any store holds is as it was. -/
structure Opened (i : Nat) (s s' : LocalStore) : Prop where
  mem_stores : ∀ j, j ∈ s'.stores ↔ j = i ∨ j ∈ s.stores
  table_eq : ∀ j, s'.table j = s.table j
  checkpoint_eq : s'.checkpoint = s.checkpoint
  position_eq : s'.position = s.position

/-- The store of partition `i` was opened and its row `k` set to `v`. -/
structure Wrote (i : Nat) (k : String) (v : Option Row) (s s' : LocalStore) : Prop where
  mem_stores : ∀ j, j ∈ s'.stores ↔ j = i ∨ j ∈ s.stores
  table_eq : s'.table i = Function.update (s.table i) k v
  table_ne : ∀ j, j ≠ i → s'.table j = s.table j

theorem Opened.refl {s : LocalStore} (h : i ∈ s.stores) : Opened i s s :=
  ⟨fun _ => ⟨.inr, fun hj => hj.elim (· ▸ h) id⟩, fun _ => rfl, rfl, rfl⟩

theorem Opened.trans {s s' s'' : LocalStore} (h : Opened i s s') (h' : Opened i s' s'') :
    Opened i s s'' :=
  ⟨fun j => by rw [h'.mem_stores, h.mem_stores]; tauto, fun j => (h'.table_eq j).trans (h.table_eq j),
    h'.checkpoint_eq.trans h.checkpoint_eq, h'.position_eq.trans h.position_eq⟩

theorem Opened.wrote {s s' s'' : LocalStore} {v : Option Row} (h : Opened i s s')
    (h' : Wrote i k v s' s'') : Wrote i k v s s'' :=
  ⟨fun j => by rw [h'.mem_stores, h.mem_stores]; tauto, by rw [h'.table_eq, h.table_eq],
    fun j hj => (h'.table_ne j hj).trans (h.table_eq j)⟩

theorem Wrote.of_absent {s s' : LocalStore} (h : Opened i s s') (hk : s.table i k = none) :
    Wrote i k none s s' :=
  ⟨h.mem_stores, by rw [h.table_eq, ← hk, Function.update_eq_self], fun j _ => h.table_eq j⟩

theorem table_update (s : LocalStore) (t : Table) (j : Nat) :
    LocalStore.table { s with disk := Function.update s.disk i (some t) } j =
      if j = i then t else s.table j := by
  by_cases h : j = i
  · subst h; simp [LocalStore.table]
  · simp [LocalStore.table, h]

theorem Wrote.set {s : LocalStore} (h : i ∈ s.stores) (v : Option Row) : Wrote i k v s
    { s with disk := Function.update s.disk i (some (Function.update (s.table i) k v)) } where
  mem_stores j := ⟨.inr, fun hj => hj.elim (· ▸ h) id⟩
  table_eq := by rw [table_update, if_pos rfl]
  table_ne j hj := by rw [table_update, if_neg hj]

theorem Wrote.tables_eq {v : Option Row} {s s' : LocalStore} (h : Wrote i k v s s') :
    s'.table = Function.update s.table i (Function.update (s.table i) k v) := by
  funext j
  obtain rfl | hj := eq_or_ne j i
  · rw [h.table_eq, Function.update_self]
  · rw [h.table_ne j hj, Function.update_of_ne hj]

/-! ## The engine -/

theorem wp_engine {op : EngineOp} {what : String}
    (herr : ∀ e n, E e { w with crashIn := n })
    (hok : ∀ n, R ⟨⟩ { w with crashIn := n }) :
    wp (LocalStateStore.engine env op what) R E w := by
  simp only [LocalStateStore.engine, wp_bind]
  refine wp_tick (herr _ _) fun n => ?_
  split
  · exact hok n
  · exact herr _ n

theorem wp_engine_alive {op : EngineOp} {what : String} (hw : w.crashIn = none)
    (henv : env.engine op = none) :
    wp (LocalStateStore.engine env op what) R E w ↔ R ⟨⟩ w := by
  simp [LocalStateStore.engine, wp_tick_alive hw, henv]

theorem wp_storeFor (herr : ∀ e n, E e { w with crashIn := n })
    (hok : ∀ n s, Opened i w.store s → R ⟨⟩ { w with store := s, crashIn := n }) :
    wp (LocalStateStore.storeFor d groupId env i) R E w := by
  simp only [LocalStateStore.storeFor, wp_bind, wp_get]
  split
  · rename_i h
    exact hok w.crashIn w.store (.refl h)
  · rw [wp_bind]
    refine wp_engine herr fun n => ?_
    rw [wp_modify]
    refine hok n _ ⟨fun j => by simp, fun j => ?_, rfl, rfl⟩
    by_cases hj : j = i
    · subst hj; simp [LocalStore.table]
    · simp [LocalStore.table, hj]

/-- An engine call of a process that does not die. -/
theorem wp_engine_living {op : EngineOp} {what : String} (hw : w.crashIn = none) (herr : ∀ e, E e w)
    (hok : R ⟨⟩ w) : wp (LocalStateStore.engine env op what) R E w := by
  simp only [LocalStateStore.engine, wp_bind, wp_tick_alive hw]
  split
  · exact hok
  · exact herr _

theorem wp_storeFor_living (hw : w.crashIn = none) (herr : ∀ e, E e w)
    (hok : ∀ s, Opened i w.store s → R ⟨⟩ { w with store := s }) :
    wp (LocalStateStore.storeFor d groupId env i) R E w := by
  simp only [LocalStateStore.storeFor, wp_bind, wp_get]
  split
  · rename_i hopen
    exact hok w.store (.refl hopen)
  · rw [wp_bind]
    refine wp_engine_living hw herr ?_
    rw [wp_modify]
    refine hok _ ⟨fun j => by simp, fun j => ?_, rfl, rfl⟩
    by_cases hj : j = i
    · subst hj
      simp [LocalStore.table]
    · simp [LocalStore.table, hj]

@[simp] theorem wp_setRow {v : Option Row} : wp (LocalStateStore.setRow i k v) R E w ↔
    R ⟨⟩ { w with store := { w.store with
      disk := Function.update w.store.disk i (some (Function.update (w.store.table i) k v)) } } :=
  Iff.rfl

theorem wp_read {R : Option Record → World → Prop} (herr : ∀ e n s, E e { w with store := s, crashIn := n })
    (hok : ∀ n s, Opened i w.store s →
      R ((w.store.table i k).map (·.decode k)) { w with store := s, crashIn := n }) :
    wp (LocalStateStore.read d groupId env i k) R E w := by
  simp only [LocalStateStore.read, wp_bind]
  refine wp_storeFor (fun e n => herr e n w.store) fun n s hs => ?_
  refine wp_engine (fun e n => herr e n s) fun n => ?_
  rw [wp_get, wp_pure]
  have := hok n s hs
  rwa [← hs.table_eq] at this

theorem wp_load {R : Option OrderFold → World → Prop}
    (herr : ∀ e n s, E e { w with store := s, crashIn := n })
    (hok : ∀ n s, Opened i w.store s →
      R ((w.store.table i k).map fun r => (r.decode k).fold) { w with store := s, crashIn := n }) :
    wp (LocalStateStore.load d groupId env i k) R E w := by
  simp only [LocalStateStore.load, wp_bind]
  refine wp_read herr fun n s hs => ?_
  rw [wp_pure, Option.map_map]
  exact hok n s hs

/-! ## Publishing -/

theorem ProducerState.txn_enqueue (p : ProducerState) (q : Queued) :
    (p.enqueue q).txn = p.txn.map fun t => { t with records := t.records ++ [q] } := by
  unfold ProducerState.enqueue
  split <;> simp_all

theorem ProducerState.queue_enqueue (p : ProducerState) (q : Queued) :
    (p.enqueue q).queue = if p.txn.isSome then p.queue else p.queue ++ [q] := by
  unfold ProducerState.enqueue
  split <;> simp_all

/-- The producer may have been served, and every attempt to hand `q` over failed. -/
structure Unpublished (q : Queued) (b : Broker) (p : ProducerState) (b' : Broker)
    (p' : ProducerState) (calls : List Call) : Prop where
  served : ∃ rs, Served b p rs b' p'
  calls_eq : ∀ c ∈ calls, c = .produce q false

/-- The producer took `q` after it may have been served, and may have been served since. -/
structure Published (d : Deployment) (q : Queued) (b : Broker) (p : ProducerState) (b' : Broker)
    (p' : ProducerState) (calls : List Call) : Prop where
  served : ∃ rs₁ b₁ p₁ rs₂, Served b p rs₁ b₁ p₁ ∧
    (d.settings.exactlyOnce = true → p₁.txn ≠ none) ∧ Served b₁ (p₁.enqueue q) rs₂ b' p'
  calls_eq : ∃ failed, (∀ c ∈ failed, c = .produce q false) ∧ calls = failed ++ [.produce q true]

theorem Served.delivered_mono {b b' : Broker} {p p' : ProducerState} {rs : List Queued}
    (h : Served b p rs b' p') {r : Queued} (hr : r ∈ b.delivered) : r ∈ b'.delivered := by
  rw [h.delivered_eq]
  exact List.mem_append_left _ hr

section Published

variable {q : Queued} {b b' : Broker} {p p' : ProducerState} {calls : List Call}

theorem Published.delivered_mono (h : Published d q b p b' p' calls) {r : Queued}
    (hr : r ∈ b.delivered) : r ∈ b'.delivered := by
  obtain ⟨rs₁, b₁, p₁, rs₂, h₁, -, h₂⟩ := h.served
  exact h₂.delivered_mono (h₁.delivered_mono hr)

theorem Unpublished.committed_eq (h : Unpublished q b p b' p' calls) : b'.committed = b.committed := by
  obtain ⟨rs, hserved⟩ := h.served
  exact hserved.committed_eq

theorem Published.committed_eq (h : Published d q b p b' p' calls) : b'.committed = b.committed := by
  obtain ⟨rs₁, b₁, p₁, rs₂, h₁, -, h₂⟩ := h.served
  exact h₂.committed_eq.trans h₁.committed_eq

theorem Published.txn_eq (h : Published d q b p b' p' calls) :
    p'.txn = p.txn.map fun t => { t with records := t.records ++ [q] } := by
  obtain ⟨rs₁, b₁, p₁, rs₂, h₁, -, h₂⟩ := h.served
  rw [h₂.txn_eq, ProducerState.txn_enqueue, h₁.txn_eq]

/-- Nothing is produced outside a transaction that should be inside one. -/
theorem Published.txn_ne_none (h : Published d q b p b' p' calls) (hx : d.settings.exactlyOnce = true) :
    p.txn ≠ none := by
  obtain ⟨rs, b₁, p₁, rs', hserved, htxn, -⟩ := h.served
  rw [← hserved.txn_eq]
  exact htxn hx

theorem Published.txn_isSome (h : Published d q b p b' p' calls) :
    p'.txn.isSome = p.txn.isSome := by
  rw [h.txn_eq, Option.isSome_map]

/-- Outside a transaction, once the queue is empty the record was reported on. -/
theorem Published.delivered (h : Published d q b p b' p' calls) (htxn : p.txn = none)
    (hempty : p'.queue = []) (hfate : q.fate = none) : q ∈ b'.delivered := by
  obtain ⟨rs₁, b₁, p₁, rs₂, h₁, -, h₂⟩ := h.served
  have hqueued : q ∈ (p₁.enqueue q).queue := by
    rw [ProducerState.queue_enqueue, h₁.txn_eq, htxn]
    simp
  have hlane := h₂.lane_eq q.lane
  rw [hempty, List.filter_nil, List.append_nil] at hlane
  have hreport : q ∈ rs₂.filter (·.lane = q.lane) := by
    rw [← hlane, List.mem_filter]
    exact ⟨hqueued, by simp⟩
  rw [h₂.delivered_eq]
  refine List.mem_append_right _ (List.mem_filter.2 ⟨(List.mem_filter.1 hreport).1, ?_⟩)
  rw [hfate]
  rfl

end Published

theorem Unpublished.refl (q : Queued) (b : Broker) (p : ProducerState) : Unpublished q b p b p [] :=
  ⟨⟨_, .refl b p⟩, by simp⟩

/-- The queue `_publish` leaves: a full one is drained, and `poll(0)` follows. -/
def queueAfter (env : Env) (p : ProducerState) (q : Queued) : List Queued :=
  let queue := match env.produce with
    | some .buffer => unreported p.queue env.servedByDrain
    | _ => p.queue
  unreported ({ p with queue := queue }.enqueue q).queue env.servedByPoll

theorem wp_publish {v : Option Row} {q : Queued}
    (hq : q = LocalStateStore.changelogRecord d groupId env w.handling k v)
    (herr : ∀ e n b p pos calls, Unpublished q w.broker w.producer b p calls →
      E e { w with broker := b, producer := p, store := { w.store with position := pos }
                   crashIn := n, trace := w.trace ++ calls })
    (hcrash : ∀ n b p pos calls, Published d q w.broker w.producer b p calls →
      E .crash { w with broker := b, producer := p, store := { w.store with position := pos }
                        crashIn := n, trace := w.trace ++ calls })
    (hok : ∀ n b p pos calls, Published d q w.broker w.producer b p calls →
      p.queue = queueAfter env w.producer q →
      R ⟨⟩ { w with broker := b, producer := p, store := { w.store with position := pos }
                    crashIn := n, trace := w.trace ++ calls }) :
    wp (LocalStateStore.publish d groupId env k v) R E w := by
  subst hq
  generalize hq : LocalStateStore.changelogRecord d groupId env w.handling k v = q at *
  -- the record is enqueued: what is left is one `poll(0)`
  have hpoll : ∀ n b p pos calls, Published d q w.broker w.producer b p calls →
      unreported p.queue env.servedByPoll = queueAfter env w.producer q →
      wp (pollProducer env) R E { w with
        broker := b, producer := p, store := { w.store with position := pos }
        crashIn := n, trace := w.trace ++ calls } := by
    intro n b p pos calls h hqueue
    refine wp_pollProducer (hcrash n b p pos calls h) fun n rs b' p' pos' hs hpolled => ?_
    obtain ⟨rs₁, b₁, p₁, rs₂, h₁, htxn, h₂⟩ := h.served
    exact hok n b' p' pos' calls ⟨⟨rs₁, b₁, p₁, _, h₁, htxn, h₂.trans hs⟩, h.calls_eq⟩
      (hpolled.trans hqueue)
  have hw : ∀ w : World, { w with trace := w.trace ++ [] } = w := fun w => by simp
  have hcrash₀ : E .crash w := by
    have := herr .crash w.crashIn _ _ w.store.position [] (.refl q w.broker w.producer)
    rwa [hw] at this
  simp only [LocalStateStore.publish, wp_bind, wp_get, hq, wp_tryCatch]
  refine wp_produce hcrash₀ (fun e n he => ?_) fun n hnone htxn => ?_
  · have hfailed : Unpublished q w.broker w.producer w.broker w.producer [.produce q false] :=
      ⟨⟨_, .refl _ _⟩, by simp⟩
    cases he with
    | buffer hfull =>
      simp only [wp_bind, wp_tryCatch]
      refine wp_flush (herr _ _ _ _ w.store.position _ hfailed) ?_
      intro n rs b p pos hs hqueue
      have hserved : ∀ calls, (∀ c ∈ calls, c = .produce q false) →
          Unpublished q w.broker w.producer b p calls := fun calls hc => ⟨⟨rs, hs⟩, hc⟩
      refine wp_produce (herr _ _ _ _ _ _ (hserved _ (by simp))) (fun e n he => ?_) fun n _ htxn => ?_
      · have hraise := herr (.stateStoreUnavailable s!"changelog for {k} could not be enqueued") n b p
          pos ([.produce q false] ++ [.produce q false]) (hserved _ (by simp))
        rw [← List.append_assoc] at hraise
        cases he <;> exact hraise
      · have hlater := hpoll n b (p.enqueue q) pos ([.produce q false] ++ [.produce q true])
          ⟨⟨rs, b, p, _, hs, htxn, .refl _ _⟩, _, by simp, rfl⟩
        rw [← List.append_assoc] at hlater
        refine hlater ?_
        have hp : p = ⟨unreported w.producer.queue env.servedByDrain, w.producer.txn⟩ := by
          obtain ⟨queue, txn⟩ := p
          obtain rfl : txn = w.producer.txn := hs.txn_eq
          obtain rfl : queue = unreported w.producer.queue env.servedByDrain := hqueue
          rfl
        unfold queueAfter
        rw [hfull, hp]
    | kafka | noTransaction =>
      rw [wp_throw]
      exact herr _ _ _ _ w.store.position _ hfailed
  · refine hpoll n w.broker (w.producer.enqueue q) w.store.position _
      ⟨⟨[], w.broker, w.producer, _, .refl _ _, htxn, .refl _ _⟩, [], by simp, rfl⟩ ?_
    unfold queueAfter
    rw [hnone]

/-! ## Saving and deleting -/

theorem wp_save {R : SaveOutcome → World → Prop} {fold : OrderFold} {eventId : String} {row : Row}
    {q : Queued} (hrow : row = Row.next k (w.store.table i k) fold eventId)
    (hq : q = LocalStateStore.changelogRecord d groupId env w.handling k (some row))
    (herr : ∀ e n s b p calls, Unpublished q w.broker w.producer b p calls →
      E e { w with broker := b, producer := p, store := s, crashIn := n, trace := w.trace ++ calls })
    (hcrash : ∀ n s b p calls, Published d q w.broker w.producer b p calls → E .crash { w with
      broker := b, producer := p, store := s, crashIn := n, trace := w.trace ++ calls })
    (hok : ∀ out n s b p calls, Wrote i k (some row) w.store s →
      Published d q w.broker w.producer b p calls → R out { w with
        broker := b, producer := p, store := s, crashIn := n, trace := w.trace ++ calls }) :
    wp (LocalStateStore.save d groupId env i k fold eventId) R E w := by
  have herr₀ : ∀ e n s, E e { w with store := s, crashIn := n } := by
    intro e n s
    have := herr e n s _ _ [] (.refl q w.broker w.producer)
    simpa using this
  simp only [LocalStateStore.save, wp_bind]
  refine wp_read herr₀ fun n s hs => ?_
  change wp (LocalStateStore.write d groupId env i k (Row.next k (w.store.table i k) fold eventId))
    _ E _
  rw [← hrow]
  simp only [LocalStateStore.write, wp_bind]
  refine wp_storeFor (fun e n => herr₀ e n s) fun n s' hs' => ?_
  refine wp_engine (fun e n => herr₀ e n s') fun n => ?_
  rw [wp_setRow]
  have hwrote := (hs.trans hs').wrote (Wrote.set (k := k) ((hs'.mem_stores i).2 (.inl rfl)) (some row))
  refine wp_publish hq (fun e n b p pos calls h => herr e n _ b p calls h)
    (fun n b p pos calls h => hcrash n _ b p calls h) fun n b p pos calls h _ => ?_
  exact hok _ n _ b p calls ⟨hwrote.mem_stores, hwrote.table_eq, hwrote.table_ne⟩ h

theorem wp_delete {R : Bool → World → Prop} {q : Queued}
    (hq : q = LocalStateStore.changelogRecord d groupId env w.handling k none)
    (herr : ∀ e n s b p calls, Unpublished q w.broker w.producer b p calls →
      E e { w with broker := b, producer := p, store := s, crashIn := n, trace := w.trace ++ calls })
    (hcrash : ∀ n s b p calls, Published d q w.broker w.producer b p calls → E .crash { w with
      broker := b, producer := p, store := s, crashIn := n, trace := w.trace ++ calls })
    (hok : ∀ n s b p calls, Wrote i k none w.store s → Published d q w.broker w.producer b p calls →
      p.queue = queueAfter env w.producer q → R (w.store.table i k).isSome { w with
        broker := b, producer := p, store := s, crashIn := n, trace := w.trace ++ calls }) :
    wp (LocalStateStore.delete d groupId env i k) R E w := by
  have herr₀ : ∀ e n s, E e { w with store := s, crashIn := n } := by
    intro e n s
    have := herr e n s _ _ [] (.refl q w.broker w.producer)
    simpa using this
  simp only [LocalStateStore.delete, wp_bind]
  refine wp_storeFor (fun e n => herr₀ e n w.store) fun n s hs => ?_
  refine wp_engine (fun e n => herr₀ e n s) fun n => ?_
  rw [wp_get, hs.table_eq]
  have hpub : ∀ n s' existed, existed = (w.store.table i k).isSome → Wrote i k none w.store s' →
      wp (LocalStateStore.publish d groupId env k none)
        (fun _ t => wp (pure existed) R E t) E { w with store := s', crashIn := n } := by
    rintro n s' _ rfl hs'
    refine wp_publish hq (fun e n b p pos calls h => herr e n _ b p calls h)
      (fun n b p pos calls h => hcrash n _ b p calls h) fun n b p pos calls h hqueue => ?_
    exact hok n _ b p calls ⟨hs'.mem_stores, hs'.table_eq, hs'.table_ne⟩ h hqueue
  rcases hk : w.store.table i k with _ | r
  · simp only [Option.isSome_none, Bool.false_eq_true, if_false, wp_bind]
    exact hpub n s false (by rw [hk]; rfl) (.of_absent hs hk)
  · simp only [Option.isSome_some, if_true, wp_bind]
    refine wp_engine (fun e n => herr₀ e n s) fun n => ?_
    rw [wp_setRow]
    exact hpub n _ true (by rw [hk]; rfl) (hs.wrote (Wrote.set ((hs.mem_stores i).2 (.inl rfl)) none))

theorem wp_storeFlush (hcrash : E .crash w)
    (herr : ∀ text n rs b p pos, Served w.broker w.producer rs b p →
      E (.stateStoreUnavailable text) { w with
        broker := b, producer := p, store := { w.store with position := pos }, crashIn := n })
    (hok : ∀ n rs b p pos, Served w.broker w.producer rs b p → p.queue = [] → R ⟨⟩ { w with
      broker := b, producer := p, store := { w.store with position := pos }, crashIn := n }) :
    wp (LocalStateStore.flush env) R E w := by
  simp only [LocalStateStore.flush, wp_bind]
  refine wp_flush hcrash fun n rs b p pos hs _ => ?_
  rw [wp_ite]
  refine ⟨fun _ => herr _ n rs b p pos hs, fun h => hok n rs b p pos hs ?_⟩
  exact List.eq_nil_of_length_eq_zero (Decidable.not_not.1 h)

end OrderService
