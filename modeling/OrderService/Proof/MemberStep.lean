import OrderService.Proof.Ownership

/-!
# What a step does to a member's stores

`MovesStores` says it once: of each step what becomes of the assignment, of the open stores and of the rows,
with the guards under which it does. A step that raises leaves a new process (`movesStores_lifeStep`).
-/

namespace OrderService

open Eff KeyedLog

variable {c : Service} {d : Deployment} {groupId : String} {env : Env} {w t u : World} {m : Message}

open ServiceConsumer

/-! ## Rebuilding several partitions -/

/-- The table a rebuild of partition `i` leaves. -/
def rebuiltTable (d : Deployment) (w : World) (i : Nat) : Table :=
  replay (keptTable d w.store i) ((delta d w.store i (w.broker.changelog i)).map LogRecord.entry)

/-- The partitions `ps` were rebuilt, from what the directories of `w` and the changelogs have. -/
structure Rebuilt (d : Deployment) (w : World) (ps : List Nat) (s : LocalStore) : Prop where
  mem_stores : ∀ j, j ∈ s.stores ↔ j ∈ ps ∨ j ∈ w.store.stores
  table_eq : ∀ j ∈ ps, s.table j = rebuiltTable d w j
  table_ne : ∀ j, j ∉ ps → s.table j = w.store.table j
  checkpoint_eq : s.checkpoint = w.store.checkpoint

/-- One more partition: nothing a rebuild reads was changed by those before it. -/
theorem Rebuilt.concat {ps : List Nat} {i : Nat} {s s' : LocalStore} {pos : Nat → Option Nat}
    (h : Rebuilt d w ps s) (hi : i ∉ ps) (hopen : i ∈ s'.stores)
    (h' : Rebuilding i (keptTable d s i) (delta d s i (w.broker.changelog i)) s s') :
    Rebuilt d w (ps ++ [i]) { s' with position := pos } := by
  have hkept : keptCheckpoint d s i = keptCheckpoint d w.store i := by
    unfold keptCheckpoint
    rw [h.checkpoint_eq]
  have htable : keptTable d s i = keptTable d w.store i := by
    unfold keptTable
    rw [hkept, h.table_ne i hi]
  have hdelta : delta d s i (w.broker.changelog i) = delta d w.store i (w.broker.changelog i) := by
    unfold delta
    rw [hkept]
  refine ⟨fun j => ?_, fun j hj => ?_, fun j hj => ?_, h'.checkpoint_eq.trans h.checkpoint_eq⟩
  · obtain rfl | hji := eq_or_ne j i
    · exact iff_of_true hopen (.inl (List.mem_append_right _ (.head _)))
    · change j ∈ s'.stores ↔ _
      rw [h'.mem_stores j hji, h.mem_stores, List.mem_append, List.mem_singleton]
      simp [hji]
  · change s'.table j = _
    obtain rfl | hji := eq_or_ne j i
    · rw [h'.table_eq, htable, hdelta]
      rfl
    · rw [h'.table_ne j hji]
      exact h.table_eq j (by simpa [hji] using hj)
  · rw [List.mem_append, List.mem_singleton, not_or] at hj
    exact (h'.table_ne j hj.2).trans (h.table_ne j hj.1)

theorem wp_restore_rebuilt {ps : List Nat} :
    wp (LocalStateStore.restore d groupId env ps) (fun _ t => Rebuilt d w ps t.store ∧
      t.assignment = w.assignment) (fun _ _ => True) w := by
  simp only [LocalStateStore.restore, wp_bind, wp_record]
  have hall : wp ((sortedSet ps).forM (LocalStateStore.restoreOne d groupId env))
      (fun _ t => Rebuilt d w (sortedSet ps) t.store ∧ t.assignment = w.assignment ∧ t.broker = w.broker)
      (fun _ _ => True) { w with trace := w.trace ++ [.restore ps] } := by
    refine wp_forM_prefix (I := fun pre (t : World) => Rebuilt d w pre t.store ∧
      t.assignment = w.assignment ∧ t.broker = w.broker) ?_ fun pre i post hps u hu => ?_
    · exact ⟨⟨by simp, fun _ hj => (by cases hj), fun _ _ => rfl, rfl⟩, rfl, rfl⟩
    · obtain ⟨hu, hassignment, hbroker⟩ := hu
      refine wp_restoreOne_each (fun _ _ _ _ => trivial) (fun _ _ _ _ _ _ _ => trivial) fun n s hopen hs => ?_
      rw [hbroker] at hs
      exact ⟨hu.concat (sortedSet_next hps).2 hopen hs, hassignment, hbroker⟩
  refine wp_mono hall (fun _ t ht => ⟨?_, ht.2.1⟩) fun _ _ he => he
  exact ⟨fun j => by rw [ht.1.mem_stores, mem_sortedSet], fun j hj => ht.1.table_eq j (mem_sortedSet.2 hj),
    fun j hj => ht.1.table_ne j (mt mem_sortedSet.1 hj), ht.1.checkpoint_eq⟩

/-! ## The moves -/

/-- The message is about the order: it is its tombstone, or one of its events. -/
inductive Concerns (c : Service) (m : Message) : String → Prop where
  | tombstone : m.value = none → Concerns c m (keyOf m)
  | event {value : ByteArray} {event : LifecycleEvent} : m.value = some value →
      c.decode value = .event event → Concerns c m event.orderId

/-- `m` was read: at most its partition's store was opened, and at most the row of its order written. -/
structure Read (c : Service) (m : Message) (w t : World) : Prop where
  assignment_eq : t.assignment = w.assignment
  stores : ∀ n ∈ t.store.stores, n = m.partition ∨ n ∈ w.store.stores
  row_eq : ∀ n k, t.store.table n k = w.store.table n k ∨ n = m.partition ∧ Concerns c m k
  erased : m.value = none → t.store.table m.partition (keyOf m) = none

/-- What a step does to a member's assignment and stores. -/
inductive MovesStores (c : Service) (w : World) : Label → World → Prop where
  | died {l : Label} {t : World} : t.assignment = [] → t.store.stores = [] → MovesStores c w l t
  | assigned {tps : List TopicPartition} {t : World} : t.assignment = w.assignment ++ tps →
      Rebuilt c.toDeployment w (tps.map (·.partition)) t.store → MovesStores c w (.assign tps) t
  | released {l : Label} {tps : List TopicPartition} {t : World} : l = .revoke tps ∨ l = .lost tps →
      t.assignment = w.assignment.filter (· ∉ tps) →
      (∀ n, n ∈ t.store.stores ↔ n ∉ tps.map (·.partition) ∧ n ∈ w.store.stores) →
      (∀ n, t.store.table n = w.store.table n) → MovesStores c w l t
  | read {m : Message} {t : World} : Read c m w t → MovesStores c w (.message m) t
  | idle {t : World} : Untouched w t → MovesStores c w .idle t
  | error {e : KafkaException} {fatal : Bool} {t : World} : Untouched w t → MovesStores c w (.error e fatal) t

theorem Untouched.read (h : Untouched t u) (h' : Read c m w t) : Read c m w u where
  assignment_eq := h.assignment_eq.trans h'.assignment_eq
  stores n hn := h'.stores n (by rwa [h.stores_eq] at hn)
  row_eq n k := by
    rw [h.table_eq]
    exact h'.row_eq n k
  erased hnone := by
    rw [h.table_eq]
    exact h'.erased hnone

/-- A message that is no tombstone may leave all rows as they are. -/
theorem Read.of_tables {s : LocalStore} {reported : List Violation} {n : Option Nat} (hvalue : m.value ≠ none)
    (hs : s = w.store ∨ Opened m.partition w.store s) :
    Read c m w { w with store := s, reported := reported, crashIn := n } := by
  obtain rfl | hs := hs
  · exact ⟨rfl, fun _ => .inr, fun _ _ => .inl rfl, fun hnone => absurd hnone hvalue⟩
  · refine ⟨rfl, fun n hn => (hs.mem_stores n).1 hn, fun n k => .inl ?_, fun hnone => absurd hnone hvalue⟩
    exact congrFun (hs.table_eq n) k

theorem WroteOnly.read {k : String} {v : Option Row} (h : WroteOnly m.partition k v w t)
    (hk : Concerns c m k) (hv : m.value = none → k = keyOf m ∧ v = none) : Read c m w t where
  assignment_eq := h.assignment_eq
  stores n hn := (h.wrote.mem_stores n).1 hn
  row_eq n k' := by
    obtain rfl | hn := eq_or_ne n m.partition
    · obtain rfl | hk' := eq_or_ne k' k
      · exact .inr ⟨rfl, hk⟩
      · rw [h.wrote.table_eq, Function.update_of_ne hk']
        exact .inl rfl
    · rw [h.wrote.table_ne n hn]
      exact .inl rfl
  erased hnone := by
    obtain ⟨rfl, rfl⟩ := hv hnone
    rw [h.wrote.table_eq, Function.update_self]

theorem wp_handleMessage_read :
    wp (handleMessage c (localStateStore c.toDeployment c.groupId env) env m) (fun _ t => Read c m w t)
      (fun _ _ => True) w := by
  refine wp_handleMessage (fun _ _ _ _ => trivial) (fun hnone => ?_) (fun hskip => ?_) ?_ ?_
  · refine wp_handleTombstone_wrote (fun _ _ => trivial) fun t ht => ?_
    exact ht.read (.tombstone hnone) fun _ => ⟨rfl, rfl⟩
  · refine wp_commit_untouched (fun _ _ => trivial) fun t ht => ht.read ?_
    have hread : Read c m w { w with store := w.store } := .of_tables hskip.1 (.inl rfl)
    exact hread
  · intro exc attempt n s reported _ hfails hs
    refine wp_routeFailure_untouched (fun _ _ => trivial) fun t ht => ht.read (.of_tables ?_ hs)
    obtain ⟨value, hvalue, -⟩ := hfails
    simp [hvalue]
  · intro value event attempt n s reported hvalue _ hdecode hs _
    have hne : m.value ≠ none := by simp [hvalue]
    refine wp_persistAndCommit_wrote (fun _ _ => trivial) fun t ht => ?_
    have hopened : WroteOnly m.partition event.orderId _ w t :=
      ⟨hs.wrote ht.wrote, ht.memory_eq, ht.assignment_eq⟩
    exact hopened.read (.event hvalue hdecode) fun hnone => absurd hnone hne

/-- **What a step that returns does.** -/
theorem wp_localStep_movesStores (l : Env × Label) :
    wp (localStep c l) (fun _ t => MovesStores c w l.2 t) (fun _ _ => True) w := by
  obtain ⟨env, l⟩ := l
  have hrelease : ∀ tps reason, l = .revoke tps ∨ l = .lost tps → wp (do
      let _ ← (commits c env).abort reason
      forget (localStateStore c.toDeployment c.groupId env) tps
      modify fun w => w.unassign tps) (fun _ t => MovesStores c w l t) (fun _ _ => True)
      { w with crashIn := env.crashIn } := by
    intro tps reason hl
    simp only [wp_bind]
    refine wp_mono Untouched.of_abort (fun _ t ht => ?_) fun _ _ _ => trivial
    have hassignment : ∀ t' : World, t'.assignment = t.assignment →
        (t'.unassign tps).assignment = w.assignment.filter (· ∉ tps) := by
      intro t' ht'
      change t'.assignment.filter (· ∉ tps) = _
      rw [ht', ht.assignment_eq]
    refine wp_forget (fun hnil => ?_) trivial (fun _ _ _ _ _ _ _ => trivial) fun n s rs b p _ hs => ?_
    · refine .released hl (hassignment t rfl) (fun j => ?_) fun j => ht.table_eq j
      change j ∈ t.store.stores ↔ _
      rw [ht.stores_eq, hnil]
      simp
    · refine .released hl (hassignment _ rfl) (fun j => ?_) fun j => (hs.table_eq j).trans (ht.table_eq j)
      have hstores := hs.mem_stores j
      rwa [ht.stores_eq] at hstores
  refine wp_localStep (fun tps hl => ?_) hrelease (fun hl => ?_) (fun e fatal hl => ?_) fun m hl => ?_
  · subst hl
    refine wp_mono wp_restore_rebuilt (fun _ t ht => ?_) fun _ _ _ => trivial
    refine .assigned ?_ ⟨ht.1.mem_stores, ht.1.table_eq, ht.1.table_ne, ht.1.checkpoint_eq⟩
    change t.assignment ++ tps = _
    rw [ht.2]
  · subst hl
    refine wp_mono Untouched.of_settle (fun _ t ht => .idle ?_) fun _ _ _ => trivial
    exact ⟨ht.stores_eq, ht.disk_eq, ht.memory_eq, ht.assignment_eq⟩
  · subst hl
    exact ⟨.error ⟨rfl, rfl, rfl, rfl⟩, trivial⟩
  · subst hl
    refine wp_mono wp_handleMessage_read (fun _ t ht => ?_) fun _ _ _ => trivial
    refine wp_mono Untouched.of_settle (fun _ u hu => .read (hu.read ?_)) fun _ _ _ => trivial
    exact ⟨ht.assignment_eq, ht.stores, ht.row_eq, ht.erased⟩

/-- An assignment that returns opens the stores of its numbers. -/
theorem wp_assign_opens (env : Env) (tps : List TopicPartition) :
    wp (localStep c (env, .assign tps)) (fun _ t => ∀ tp ∈ tps, tp.partition ∈ t.store.stores)
      (fun _ _ => True) w := by
  simp only [localStep, step, onAssign, localStateStore, wp_bind, wp_modify]
  refine wp_mono wp_restore_rebuilt (fun _ t ht => fun tp htp => ?_) fun _ _ _ => trivial
  exact (ht.1.mem_stores _).2 (.inl (List.mem_map_of_mem htp))

/-- What holds however a step ends, or of the process started after it, is left by the step. -/
theorem lifeStep_left {l : Env × Label} {R : World → Prop}
    (h : wp (localStep c l) (fun _ => R) (fun _ t => R (restart t)) w) :
    R ((lifeStep c .local l).exec w).2 := by
  refine left_of_wp ?_
  simp only [lifeStep, wp_tryCatch, wp_modify]
  exact h

theorem movesStores_lifeStep (l : Env × Label) : MovesStores c w l.2 ((lifeStep c .local l).exec w).2 :=
  lifeStep_left (wp_mono (wp_localStep_movesStores l) (fun _ _ ht => ht) fun _ _ _ => .died rfl rfl)

/-! ## What follows -/

variable {l : Label} {k : String} {n : Nat}

/-- The open stores are of owned numbers. -/
def Within (w : World) : Prop := ∀ n ∈ w.store.stores, Owned w n

theorem Owned.of_eq (h : Owned t n) (heq : t.assignment = w.assignment) : Owned w n := by
  unfold Owned at h ⊢
  rwa [heq] at h

/-- A number is gained by an assignment only. -/
theorem MovesStores.owned (h : MovesStores c w l t) (hn : Owned t n) :
    Owned w n ∨ ∃ tps, l = .assign tps ∧ ∃ tp ∈ tps, tp.partition = n := by
  cases h with
  | died hnil =>
    obtain ⟨tp, htp, -⟩ := hn
    rw [hnil] at htp
    cases htp
  | @assigned tps _ heq =>
    obtain ⟨tp, htp, hpart⟩ := hn
    rw [heq, List.mem_append] at htp
    obtain htp | htp := htp
    · exact .inl ⟨tp, htp, hpart⟩
    · exact .inr ⟨tps, rfl, tp, htp, hpart⟩
  | released _ heq =>
    obtain ⟨tp, htp, hpart⟩ := hn
    rw [heq] at htp
    exact .inl ⟨tp, (List.mem_filter.1 htp).1, hpart⟩
  | read hread => exact .inl (hn.of_eq hread.assignment_eq)
  | idle heq => exact .inl (hn.of_eq heq.assignment_eq)
  | error heq => exact .inl (hn.of_eq heq.assignment_eq)

theorem Within.untouched (h : Within w) (ht : Untouched w t) : Within t := by
  intro n hn
  rw [ht.stores_eq] at hn
  exact (h n hn).of_eq ht.assignment_eq.symm

theorem MovesStores.within (ht : MovesStores c w l t) (h : Within w)
    (hread : ∀ m, l = .message m → m.tp ∈ w.assignment) : Within t := by
  intro n hn
  cases ht with
  | died _ hnil =>
    rw [hnil] at hn
    cases hn
  | @assigned tps _ heq hs =>
    unfold Owned
    rw [heq]
    obtain hn | hn := (hs.mem_stores n).1 hn
    · obtain ⟨tp, htp, rfl⟩ := List.mem_map.1 hn
      exact ⟨tp, List.mem_append_right _ htp, rfl⟩
    · obtain ⟨tp, htp, rfl⟩ := h n hn
      exact ⟨tp, List.mem_append_left _ htp, rfl⟩
  | @released _ tps _ _ heq hs =>
    obtain ⟨hnot, hn⟩ := (hs n).1 hn
    obtain ⟨tp, htp, rfl⟩ := h n hn
    unfold Owned
    rw [heq]
    have hkept : tp ∉ tps := fun hmem => hnot (List.mem_map_of_mem hmem)
    exact ⟨tp, List.mem_filter.2 ⟨htp, by simpa using hkept⟩, rfl⟩
  | @read m _ hm =>
    obtain rfl | hn := hm.stores n hn
    · exact Owned.of_eq ⟨m.tp, hread m rfl, rfl⟩ hm.assignment_eq.symm
    · exact (h n hn).of_eq hm.assignment_eq.symm
  | idle hu => exact h.untouched hu n hn
  | error hu => exact h.untouched hu n hn

/-- A row that is gone stays away unless an event of its order is read or a rebuild brings it back. -/
theorem MovesStores.gone (h : MovesStores c w l t) (hw : Owned w n → w.store.table n k = none)
    (hrebuilt : ∀ tps, l = .assign tps → n ∈ tps.map (·.partition) →
      rebuiltTable c.toDeployment w n k = none)
    (hevent : ∀ m, l = .message m → ∀ value event, m.value = some value →
      c.decode value = .event event → event.orderId ≠ k) (hn : Owned t n) :
    t.store.table n k = none := by
  cases h with
  | died hnil =>
    obtain ⟨tp, htp, -⟩ := hn
    rw [hnil] at htp
    cases htp
  | @assigned tps _ heq hs =>
    by_cases hmem : n ∈ tps.map (·.partition)
    · rw [hs.table_eq n hmem]
      exact hrebuilt tps rfl hmem
    · rw [hs.table_ne n hmem]
      obtain ⟨tp, htp, rfl⟩ := hn
      rw [heq, List.mem_append] at htp
      exact hw ⟨tp, htp.resolve_right fun h => hmem (List.mem_map_of_mem h), rfl⟩
  | released _ heq _ htable =>
    obtain ⟨tp, htp, rfl⟩ := hn
    rw [heq] at htp
    rw [htable]
    exact hw ⟨tp, (List.mem_filter.1 htp).1, rfl⟩
  | @read m _ hm =>
    have hold := hw (hn.of_eq hm.assignment_eq)
    obtain heq | ⟨rfl, hk⟩ := hm.row_eq n k
    · exact heq.trans hold
    · cases hk with
      | tombstone hnone => exact hm.erased hnone
      | event hvalue hdecode => exact absurd rfl (hevent m rfl _ _ hvalue hdecode)
  | idle hu => exact (congrFun (hu.table_eq n) k).trans (hw (hn.of_eq hu.assignment_eq))
  | error hu => exact (congrFun (hu.table_eq n) k).trans (hw (hn.of_eq hu.assignment_eq))

end OrderService
