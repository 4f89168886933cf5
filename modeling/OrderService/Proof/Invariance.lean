import OrderService.Proof.Restore

/-!
# Invariants that delivery reports keep

The producer is served in the middle of almost every call on the store. `Stable I` says that a delivery
report keeps `I`, and so do the counters of the model; each call then keeps `I` if its own writes do.
-/

namespace OrderService

open Eff KeyedLog

variable {d : Deployment} {groupId : String} {env : Env} {w : World} {i : Nat} {k : String}

/-- `I` does not see changelog records being produced, and survives delivery reports. -/
structure Stable (I : World → Prop) : Prop where
  crashIn : ∀ w n, I w → I { w with crashIn := n }
  record : ∀ w q ok, q.isFold = true → I w → I { w with trace := w.trace ++ [.produce q ok] }
  report : ∀ w tp, I w → I (w.report tp)

namespace Stable

variable {I J : World → Prop}

theorem serve (h : Stable I) (hw : I w) (lanes : List TopicPartition) : I (w.serve lanes) := by
  induction lanes generalizing w with
  | nil => exact hw
  | cons tp lanes ih => exact ih (h.report w tp hw)

theorem tick (h : Stable I) (hw : I w) : wp OrderService.tick (fun _ => I) (fun _ => I) w :=
  wp_tick hw fun n => h.crashIn w n hw

theorem pollProducer (h : Stable I) (hw : I w) :
    wp (OrderService.pollProducer env) (fun _ => I) (fun _ => I) w := by
  simp only [OrderService.pollProducer, wp_bind]
  refine wp_mono (h.tick hw) (fun _ t ht => ?_) fun _ _ he => he
  exact h.serve ht _

theorem flush (h : Stable I) (hw : I w) (lanes : List TopicPartition) :
    wp (OrderService.flush lanes) (fun _ => I) (fun _ => I) w := by
  simp only [OrderService.flush, wp_bind]
  refine wp_mono (h.tick hw) (fun _ t ht => ?_) fun _ _ he => he
  exact h.serve ht _

theorem storeFlush (h : Stable I) (hw : I w) :
    wp (LocalStateStore.flush env) (fun _ => I) (fun _ => I) w := by
  simp only [LocalStateStore.flush, wp_bind]
  refine wp_mono (h.flush hw _) (fun n t ht => ?_) fun _ _ he => he
  rw [wp_ite]
  exact ⟨fun _ => ht, fun _ => ht⟩

theorem engine (h : Stable I) (hw : I w) {op : EngineOp} {what : String} :
    wp (LocalStateStore.engine env op what) (fun _ => I) (fun _ => I) w :=
  wp_engine (fun _ n => h.crashIn w n hw) fun n => h.crashIn w n hw

/-- A record is refused and `I` stays, or it is taken and `J` holds from then on. -/
theorem produce (h : Stable I) (hJ : Stable J) {outcome : Option ProduceError} {q : Queued}
    (hq : q.isFold = true) (hw : I w)
    (henqueue : ∀ w, I w → J { w with producer := w.producer.enqueue q }) :
    wp (OrderService.produce d outcome q) (fun _ => J) (fun _ => I) w := by
  refine wp_produce hw (fun e n _ => ?_) fun n _ _ => ?_
  · exact h.record _ _ _ hq (h.crashIn w n hw)
  · exact hJ.record _ _ _ hq (hJ.crashIn _ n (henqueue w hw))

theorem publish (h : Stable I) {v : Option Row} (hw : I w)
    (henqueue : ∀ w, I w → ∀ handling, I { w with
      producer := w.producer.enqueue (LocalStateStore.changelogRecord d groupId env handling k v) }) :
    wp (LocalStateStore.publish d groupId env k v) (fun _ => I) (fun _ => I) w := by
  have hproduce : ∀ {w : World} {outcome : Option ProduceError} {handling : MessageId}, I w →
      wp (OrderService.produce d outcome (LocalStateStore.changelogRecord d groupId env handling k v))
        (fun _ => I) (fun _ => I) w := fun hw => h.produce h rfl hw fun w hw => henqueue w hw _
  simp only [LocalStateStore.publish, wp_bind, wp_get, wp_tryCatch]
  refine wp_mono (hproduce hw) (fun _ t ht => h.pollProducer ht) fun e t ht => ?_
  cases e with
  | buffer =>
    simp only [wp_bind, wp_tryCatch]
    refine wp_mono (h.flush ht _) (fun _ u hu => ?_) fun _ _ he => he
    refine wp_mono (hproduce hu) (fun _ v hv => h.pollProducer hv) fun e v hv => ?_
    cases e <;> exact hv
  | _ => exact ht

theorem storeFor (h : Stable I)
    (hopen : ∀ w s, I w → Opened i w.store s → I { w with store := s }) (hw : I w) :
    wp (LocalStateStore.storeFor d groupId env i) (fun _ => I) (fun _ => I) w :=
  wp_storeFor (fun _ n => h.crashIn w n hw) fun n s hs => h.crashIn _ n (hopen w s hw hs)

theorem load (h : Stable I)
    (hopen : ∀ w s, I w → Opened i w.store s → I { w with store := s }) (hw : I w) :
    wp (LocalStateStore.load d groupId env i k) (fun _ => I) (fun _ => I) w := by
  simp only [LocalStateStore.load, LocalStateStore.read, wp_bind]
  refine wp_mono (h.storeFor hopen hw) (fun _ t ht => ?_) fun _ _ he => he
  exact wp_mono (h.engine ht) (fun _ u hu => hu) fun _ _ he => he

theorem and (h : Stable I) (hJ : Stable J) : Stable fun w => I w ∧ J w where
  crashIn w n hw := ⟨h.crashIn w n hw.1, hJ.crashIn w n hw.2⟩
  record w q ok hq hw := ⟨h.record w q ok hq hw.1, hJ.record w q ok hq hw.2⟩
  report w tp hw := ⟨h.report w tp hw.1, hJ.report w tp hw.2⟩

end Stable

/-- Reports advance positions, and no position is above the end of its log. -/
def PositionsBelow (s : LocalStore) (b : Broker) : Prop :=
  ∀ i n, s.position i = some n → n ≤ (b.changelog i).high

/-- What acknowledgements keep, delivery reports keep, if the queue does not matter. -/
theorem Stable.of_acknowledge {I : World → Prop} (hcrash : ∀ w n, I w → I { w with crashIn := n })
    (hrecord : ∀ w c, I w → I { w with trace := w.trace ++ [c] })
    (hproducer : ∀ w p, I w → I { w with producer := p })
    (hack : ∀ w q, I w → I (w.acknowledge q)) : Stable I where
  crashIn := hcrash
  record w q ok _ := hrecord w (.produce q ok)
  report w tp hw := by
    unfold World.report
    split
    · exact hw
    · split
      · exact hack _ _ (hproducer w _ hw)
      · exact hproducer w _ hw

theorem stable_positionsBelow : Stable fun w => PositionsBelow w.store w.broker := by
  refine Stable.of_acknowledge (fun _ _ h => h) (fun _ _ h => h) (fun _ _ h => h) fun w q h => ?_
  unfold World.acknowledge
  cases q.payload with
  | copy => exact h
  | fold k v =>
    intro i n hn
    obtain rfl | hi := eq_or_ne i q.partition
    · simp only [Function.update_self, Option.some.injEq] at hn ⊢
      have hold : (w.store.position q.partition).getD 0 ≤ (w.broker.changelog q.partition).high := by
        cases hpos : w.store.position q.partition with
        | none => exact Nat.zero_le _
        | some m => exact h _ m hpos
      change n ≤ (w.broker.changelog q.partition).high + 1
      omega
    · simp only [Function.update_of_ne hi] at hn ⊢
      exact h i n hn

theorem stable_checkpoint (c : Nat → Option Nat) : Stable fun w => w.store.checkpoint = c := by
  refine Stable.of_acknowledge (fun _ _ h => h) (fun _ _ h => h) (fun _ _ h => h) fun w q h => ?_
  unfold World.acknowledge
  cases q.payload <;> exact h

/-! ## Writes -/

/-- The store of partition `i` was opened and its row `k` put to `v`, and nothing else. -/
structure Put (i : Nat) (k : String) (v : Option Row) (s s' : LocalStore) : Prop extends
    Wrote i k v s s' where
  checkpoint_eq : s'.checkpoint = s.checkpoint
  position_eq : s'.position = s.position

section

variable {I : World → Prop} {E : Exn → World → Prop} {v : Option Row}

theorem Opened.put {s s' : LocalStore} (h : Opened i s s') :
    Put i k v s { s' with
      disk := Function.update s'.disk i (some (Function.update (s'.table i) k v)) } where
  toWrote := h.wrote (Wrote.set ((h.mem_stores i).2 (.inl rfl)) v)
  checkpoint_eq := h.checkpoint_eq
  position_eq := h.position_eq

/-- `save`: from the put on, `I` holds. -/
theorem Stable.save {fold : OrderFold} {eventId : String} (h : Stable I)
    (hv : v = some (Row.next k (w.store.table i k) fold eventId))
    (herr : ∀ e n, E e { w with crashIn := n })
    (hopened : ∀ e n s, Opened i w.store s → E e { w with store := s, crashIn := n })
    (hput : ∀ n s, Put i k v w.store s → I { w with store := s, crashIn := n })
    (henqueue : ∀ w, I w → ∀ handling, I { w with
      producer := w.producer.enqueue (LocalStateStore.changelogRecord d groupId env handling k v) })
    (hraised : ∀ e t, I t → E e t) :
    wp (LocalStateStore.save d groupId env i k fold eventId) (fun _ => I) E w := by
  simp only [LocalStateStore.save, LocalStateStore.read, wp_bind]
  refine wp_storeFor herr fun n s hs => ?_
  refine wp_engine (fun e n => hopened e n s hs) fun n => ?_
  rw [wp_get, wp_pure, hs.table_eq]
  change wp (LocalStateStore.write d groupId env i k (Row.next k (w.store.table i k) fold eventId))
    _ E _
  simp only [LocalStateStore.write, wp_bind]
  refine wp_storeFor (fun e n => hopened e n s hs) fun n s' hs' => ?_
  refine wp_engine (fun e n => hopened e n s' (hs.trans hs')) fun n => ?_
  rw [wp_setRow, ← hv]
  exact wp_mono (h.publish (hput n _ (hs.trans hs').put) henqueue) (fun _ _ ht => ht) hraised

/-- `delete`: from the put on, if there is a row to delete, `I` holds. -/
theorem Stable.delete (h : Stable I)
    (herr : ∀ e n, E e { w with crashIn := n })
    (hopened : ∀ e n s, Opened i w.store s → E e { w with store := s, crashIn := n })
    (hput : ∀ n s, Put i k none w.store s → I { w with store := s, crashIn := n })
    (henqueue : ∀ w, I w → ∀ handling, I { w with
      producer := w.producer.enqueue (LocalStateStore.changelogRecord d groupId env handling k none) })
    (hraised : ∀ e t, I t → E e t) :
    wp (LocalStateStore.delete d groupId env i k) (fun _ => I) E w := by
  simp only [LocalStateStore.delete, wp_bind]
  refine wp_storeFor herr fun n s hs => ?_
  refine wp_engine (fun e n => hopened e n s hs) fun n => ?_
  rw [wp_get, hs.table_eq]
  have hpublish : ∀ n s (existed : Bool), Put i k none w.store s →
      wp (LocalStateStore.publish d groupId env k none)
        (fun _ t => wp (pure existed : M Bool) (fun _ => I) E t) E { w with store := s, crashIn := n } :=
    fun n s _ hs => wp_mono (h.publish (hput n s hs) henqueue) (fun _ _ ht => ht) hraised
  rcases hk : w.store.table i k with _ | r
  · simp only [Option.isSome_none, Bool.false_eq_true, if_false, wp_bind]
    exact hpublish n s false ⟨.of_absent hs hk, hs.checkpoint_eq, hs.position_eq⟩
  · simp only [Option.isSome_some, if_true, wp_bind]
    refine wp_engine (fun e n => hopened e n s hs) fun n => ?_
    rw [wp_setRow]
    exact hpublish n _ true hs.put

end

end OrderService
