import OrderService.Proof.Drain

/-!
# Rules for restore, forget and discard

Under `STATE_REBUILD=full` a `restore` that returns leaves each store it was given equal to the table
of its changelog partition, whatever the reader did (`wp_restore`); `forget` closes stores and changes
no table (`wp_forget`); `discard` empties them (`wp_discard`).
-/

namespace OrderService

open Eff KeyedLog

variable {d : Deployment} {groupId : String} {env : Env} {w : World} {i : Nat}
variable {R : Unit → World → Prop} {E : Exn → World → Prop}

/-- The partitions `ps` were rebuilt from their changelogs. -/
structure Restored (d : Deployment) (b : Broker) (ps : List Nat) (s s' : LocalStore) : Prop where
  mem_stores : ∀ j, j ∈ s'.stores ↔ j ∈ ps ∨ j ∈ s.stores
  table_eq : d.settings.stateRebuild = .full → ∀ j ∈ ps, s'.table j = (b.changelog j).table
  table_ne : ∀ j, j ∉ ps → s'.table j = s.table j

theorem Restored.nil {b : Broker} {s : LocalStore} : Restored d b [] s s :=
  ⟨by simp, by simp, fun _ _ => rfl⟩

theorem Restored.concat {b : Broker} {ps : List Nat} {s s' s'' : LocalStore}
    (h : Restored d b ps s s') (h' : Restored d b [i] s' s'') :
    Restored d b (ps ++ [i]) s s'' where
  mem_stores j := by
    rw [h'.mem_stores, h.mem_stores, List.mem_append, List.mem_singleton]
    tauto
  table_eq hfull j hj := by
    by_cases hji : j = i
    · exact h'.table_eq hfull j (by simp [hji])
    · rw [h'.table_ne j (by simpa using hji)]
      exact h.table_eq hfull j (by simpa [hji] using hj)
  table_ne j hj := by
    rw [List.mem_append, not_or] at hj
    rw [h'.table_ne j hj.2, h.table_ne j hj.1]

theorem Restored.congr {b : Broker} {ps qs : List Nat} {s s' : LocalStore}
    (h : Restored d b ps s s') (hps : ∀ j, j ∈ ps ↔ j ∈ qs) : Restored d b qs s s' where
  mem_stores j := by rw [h.mem_stores, hps]
  table_eq hfull j hj := h.table_eq hfull j ((hps j).2 hj)
  table_ne j hj := h.table_ne j (mt (hps j).1 hj)

/-- The store of partition `i` was closed and erased. -/
structure Destroyed (i : Nat) (s s' : LocalStore) : Prop where
  mem_stores : ∀ j, j ∈ s'.stores ↔ j ≠ i ∧ j ∈ s.stores
  disk_eq : s'.disk i = none
  table_ne : ∀ j, j ≠ i → s'.table j = s.table j
  checkpoint_eq : s'.checkpoint = s.checkpoint
  position_eq : s'.position = s.position

theorem Destroyed.table_eq {s s' : LocalStore} (h : Destroyed i s s') :
    s'.table i = fun _ => none := by
  unfold LocalStore.table
  rw [h.disk_eq]
  rfl

/-- `done` were applied to what partition `i` held, `T`; nothing else changed but which stores of `i`
are open. -/
structure Rebuilding (i : Nat) (T : Table) (done : List (LogRecord String Row)) (s s' : LocalStore) :
    Prop where
  table_eq : s'.table i = replay T (done.map LogRecord.entry)
  table_ne : ∀ j, j ≠ i → s'.table j = s.table j
  mem_stores : ∀ j, j ≠ i → (j ∈ s'.stores ↔ j ∈ s.stores)
  checkpoint_eq : s'.checkpoint = s.checkpoint
  position_eq : s'.position = s.position

theorem Rebuilding.refl (s : LocalStore) : Rebuilding i (s.table i) [] s s :=
  ⟨rfl, fun _ _ => rfl, fun _ _ => Iff.rfl, rfl, rfl⟩

theorem Rebuilding.opened {T : Table} {done : List (LogRecord String Row)} {s s' s'' : LocalStore}
    (h : Rebuilding i T done s s') (h' : Opened i s' s'') : Rebuilding i T done s s'' where
  table_eq := (h'.table_eq i).trans h.table_eq
  table_ne j hj := (h'.table_eq j).trans (h.table_ne j hj)
  mem_stores j hj := by
    rw [h'.mem_stores, ← h.mem_stores j hj]
    exact or_iff_right hj
  checkpoint_eq := h'.checkpoint_eq.trans h.checkpoint_eq
  position_eq := h'.position_eq.trans h.position_eq

theorem Rebuilding.drained {T : Table} {done : List (LogRecord String Row)} {s s' s'' : LocalStore}
    (h : Rebuilding i T [] s s') (h' : Drained i done s' s'') : Rebuilding i T done s s'' where
  table_eq := by rw [h'.table_eq, h.table_eq]; rfl
  table_ne j hj := (h'.table_ne j hj).trans (h.table_ne j hj)
  mem_stores j hj := by rw [h'.stores_eq, h.mem_stores j hj]
  checkpoint_eq := h'.checkpoint_eq.trans h.checkpoint_eq
  position_eq := h'.position_eq.trans h.position_eq

theorem Destroyed.rebuilding {s s' : LocalStore} (h : Destroyed i s s') :
    Rebuilding i (fun _ => none) [] s s' where
  table_eq := h.table_eq
  table_ne := h.table_ne
  mem_stores j hj := by rw [h.mem_stores]; exact and_iff_right hj
  checkpoint_eq := h.checkpoint_eq
  position_eq := h.position_eq

theorem wp_destroy (hclosed : ∀ e n s, Rebuilding i (w.store.table i) [] w.store s →
      E e { w with store := s, crashIn := n })
    (hok : ∀ n s, Destroyed i w.store s → R ⟨⟩ { w with store := s, crashIn := n }) :
    wp (LocalStateStore.destroy d groupId env i) R E w := by
  have hmem : ∀ j, j ∈ w.store.stores.filter (· ≠ i) ↔ j ≠ i ∧ j ∈ w.store.stores := by
    intro j
    simp [and_comm]
  simp only [LocalStateStore.destroy, wp_bind, wp_modify, wp_get]
  split
  · rw [wp_bind]
    refine wp_engine (fun e n => ?_) fun n => ?_
    · refine hclosed e n _ ⟨rfl, fun _ _ => rfl, fun j hj => ?_, rfl, rfl⟩
      rw [hmem]
      exact and_iff_right hj
    · rw [wp_modify]
      refine hok n _ ⟨hmem, by simp, fun j hj => ?_, rfl, rfl⟩
      simp [LocalStore.table, hj]
  · rename_i hdisk
    refine hok w.crashIn _ ⟨hmem, ?_, fun j _ => rfl, rfl, rfl⟩
    simpa using hdisk

theorem visible_low (log : KeyedLog String Row) : visible log log.low = log.records := by
  unfold visible
  rw [List.filter_eq_self]
  intro r hr
  simpa using (log.bounded r hr).1

/-- The checkpoint a rebuild goes on from, if it keeps the store. -/
def keptCheckpoint (d : Deployment) (s : LocalStore) (i : Nat) : Option Nat :=
  match d.settings.stateRebuild with
  | .checkpoint => s.checkpoint i
  | .full => none

/-- The table a rebuild starts from. -/
def keptTable (d : Deployment) (s : LocalStore) (i : Nat) : Table :=
  match keptCheckpoint d s i with
  | some _ => s.table i
  | none => fun _ => none

/-- The records a rebuild reads. -/
def delta (d : Deployment) (s : LocalStore) (i : Nat) (log : KeyedLog String Row) :
    List (LogRecord String Row) :=
  visible log (match keptCheckpoint d s i with
    | some c => max c log.low
    | none => log.low)

theorem checkpoint_of_kept {s : LocalStore} {c : Nat}
    (h : keptCheckpoint d s i = some c) : s.checkpoint i = some c := by
  unfold keptCheckpoint at h
  split at h
  · exact h
  · cases h

theorem delta_sublist (d : Deployment) (s : LocalStore) (log : KeyedLog String Row) :
    (delta d s i log).Sublist log.records := List.filter_sublist

/-- A rebuild that keeps the checkpoint's directory reads everything from there on. -/
theorem delta_of_kept {s : LocalStore} {c : Nat} (log : KeyedLog String Row)
    (h : keptCheckpoint d s i = some c) :
    keptTable d s i = s.table i ∧ delta d s i log = visible log (max c log.low) := by
  unfold keptTable delta
  rw [h]
  exact ⟨rfl, rfl⟩

theorem delta_of_erased {s : LocalStore} (log : KeyedLog String Row)
    (h : keptCheckpoint d s i = none) : delta d s i log = log.records := by
  unfold delta
  rw [h]
  exact visible_low log

/-- **One partition of a restore**, as far as it gets. -/
theorem wp_restoreOne_each
    (hclosed : ∀ e n s, Rebuilding i (w.store.table i) [] w.store s →
      E e { w with store := s, crashIn := n })
    (herr : ∀ e n s done rest, delta d w.store i (w.broker.changelog i) = done ++ rest →
      Rebuilding i (keptTable d w.store i) done w.store s → E e { w with store := s, crashIn := n })
    (hok : ∀ n s, i ∈ s.stores →
      Rebuilding i (keptTable d w.store i) (delta d w.store i (w.broker.changelog i)) w.store s →
      R ⟨⟩ { w with
        store := { s with
          position := Function.update s.position i (some (w.broker.changelog i).high) }
        crashIn := n }) :
    wp (LocalStateStore.restoreOne d groupId env i) R E w := by
  let log := w.broker.changelog i
  let caughtUp : M Unit := modify fun w => { w with store := { w.store with
    position := Function.update w.store.position i (some log.high) } }
  -- from the start offset on: open the store, read the changelog back
  have hread : ∀ start n s, delta d w.store i log = visible log start →
      Rebuilding i (keptTable d w.store i) [] w.store s →
      wp (do
        LocalStateStore.storeFor d groupId env i
        if start < log.high then do
          let _ ← LocalStateStore.drain d groupId env i start log.high
            (readerEvents (env.reader i).fault log start)
          caughtUp
        else caughtUp) R E { w with store := s, crashIn := n } := by
    intro start n s hdelta hs
    have hstart : ∀ e n s', Rebuilding i (keptTable d w.store i) [] w.store s' →
        E e { w with store := s', crashIn := n } := fun e n s' hs' => herr e n s' [] _ rfl hs'
    simp only [wp_bind]
    refine wp_storeFor (fun e n => hstart e n s hs) fun n s₁ hs₁ => ?_
    have hrebuild₁ := hs.opened hs₁
    split
    · rw [wp_bind]
      refine wp_drain (delivers_readerEvents _ _ _) (between_visible _ _)
        (fun e n => hstart e n s₁ hrebuild₁) (fun e n s₂ s₃ done rest hrest hs₂ hs₃ => ?_) ?_
      · exact herr e n s₃ done rest (hdelta.trans hrest) ((hrebuild₁.opened hs₂).drained hs₃)
      · intro _ n s₂ s₃ hs₂ hs₃
        rw [wp_modify]
        have hopen : i ∈ s₃.stores := by
          rw [hs₃.stores_eq]
          exact (hs₂.mem_stores i).2 (.inl rfl)
        refine hok n s₃ hopen ?_
        change Rebuilding i _ (delta d w.store i log) _ _
        rw [hdelta]
        exact (hrebuild₁.opened hs₂).drained hs₃
    · rename_i hle
      rw [wp_modify]
      refine hok n s₁ ((hs₁.mem_stores i).2 (.inl rfl)) ?_
      change Rebuilding i _ (delta d w.store i log) _ _
      rw [hdelta, (between_visible log start).eq_nil (Nat.le_of_not_lt hle)]
      exact hrebuild₁
  unfold LocalStateStore.restoreOne
  rcases (env.reader i).metadata with _ | exc
  swap
  · exact hclosed _ w.crashIn w.store (.refl _)
  rcases (env.reader i).watermarks with _ | exc
  swap
  · exact hclosed _ w.crashIn w.store (.refl _)
  simp only [LocalStateStore.startOffset, wp_bind, wp_get]
  split
  · rename_i c hmode hc
    have hkept : keptCheckpoint d w.store i = some c := by
      unfold keptCheckpoint
      rw [hmode]
      exact hc
    have htable : keptTable d w.store i = w.store.table i := by
      unfold keptTable
      rw [hkept]
    have := hread (max c log.low) w.crashIn w.store (by unfold delta; rw [hkept])
      (by rw [htable]; exact .refl _)
    simpa only [wp_bind, wp_pure] using this
  · rename_i hne
    have hkept : keptCheckpoint d w.store i = none := by
      unfold keptCheckpoint
      split
      · rename_i hmode
        exact Option.eq_none_iff_forall_ne_some.2 fun c hc => hne c hmode hc
      · rfl
    have htable : keptTable d w.store i = fun _ => none := by
      unfold keptTable
      rw [hkept]
    rw [wp_bind]
    refine wp_destroy hclosed fun n s hs => ?_
    have := hread log.low n s (by unfold delta; rw [hkept]) (by rw [htable]; exact hs.rebuilding)
    simpa only [wp_bind, wp_pure] using this

/-- A full rebuild starts from nothing and reads everything. -/
theorem replay_delta_of_full (hfull : d.settings.stateRebuild = .full) (s : LocalStore)
    (log : KeyedLog String Row) :
    replay (keptTable d s i) ((delta d s i log).map LogRecord.entry) = log.table := by
  have hkept : keptCheckpoint d s i = none := by
    unfold keptCheckpoint
    rw [hfull]
  unfold keptTable delta
  rw [hkept]
  simp only [visible_low]
  rfl

theorem wp_restoreOne (herr : ∀ e n s, E e { w with store := s, crashIn := n })
    (hok : ∀ n s, Restored d w.broker [i] w.store s → R ⟨⟩ { w with store := s, crashIn := n }) :
    wp (LocalStateStore.restoreOne d groupId env i) R E w := by
  refine wp_restoreOne_each (fun e n s _ => herr e n s) (fun e n s _ _ _ _ => herr e n s) ?_
  intro n s hopen hs
  refine hok n _ ⟨fun j => ?_, fun hfull j hj => ?_, fun j hj => ?_⟩
  · rw [List.mem_singleton]
    obtain rfl | hj := eq_or_ne j i
    · exact iff_of_true hopen (.inl rfl)
    · exact (hs.mem_stores j hj).trans (or_iff_right hj).symm
  · rw [List.mem_singleton.1 hj]
    exact hs.table_eq.trans (replay_delta_of_full hfull _ _)
  · exact hs.table_ne j (by simpa using hj)

theorem wp_restore {ps : List Nat} (herr : ∀ e n s, E e { w with
      store := s, crashIn := n, trace := w.trace ++ [.restore ps] })
    (hok : ∀ n s, Restored d w.broker ps w.store s → R ⟨⟩ { w with
      store := s, crashIn := n, trace := w.trace ++ [.restore ps] }) :
    wp (LocalStateStore.restore d groupId env ps) R E w := by
  simp only [LocalStateStore.restore, wp_bind, wp_record]
  have hall : wp ((sortedSet ps).forM (LocalStateStore.restoreOne d groupId env))
      (fun _ (t : World) => ∃ n s, Restored d w.broker (sortedSet ps) w.store s ∧
        t = { w with store := s, crashIn := n, trace := w.trace ++ [.restore ps] }) E
      { w with trace := w.trace ++ [.restore ps] } := by
    refine wp_forM_prefix (I := fun pre (t : World) => ∃ n s, Restored d w.broker pre w.store s ∧
        t = { w with store := s, crashIn := n, trace := w.trace ++ [.restore ps] })
      ⟨w.crashIn, w.store, .nil, rfl⟩ fun pre i post _ t ht => ?_
    obtain ⟨n, s, hs, rfl⟩ := ht
    exact wp_restoreOne (fun e n s => herr e n s) fun n s' hs' => ⟨n, s', hs.concat hs', rfl⟩
  refine wp_mono hall (fun _ t ht => ?_) fun _ _ he => he
  obtain ⟨n, s, hs, rfl⟩ := ht
  exact hok n s (hs.congr fun _ => mem_sortedSet)

/-! ## When a restore returns -/

theorem wp_storeFor_sound (hw : Sound env w)
    (h : ∀ s, Opened i w.store s → R ⟨⟩ { w with store := s }) :
    wp (LocalStateStore.storeFor d groupId env i) R E w := by
  simp only [LocalStateStore.storeFor, wp_bind, wp_get]
  split
  · rename_i hopen
    exact h w.store (.refl hopen)
  · rw [wp_bind, wp_engine_alive hw.alive (hw.engine _), wp_modify]
    refine h _ ⟨fun j => by simp, fun j => ?_, rfl, rfl⟩
    by_cases hj : j = i
    · subst hj
      simp [LocalStore.table]
    · simp [LocalStore.table, hj]

theorem wp_destroy_sound (hw : Sound env w) (h : ∀ s, R ⟨⟩ { w with store := s }) :
    wp (LocalStateStore.destroy d groupId env i) R E w := by
  simp only [LocalStateStore.destroy, wp_bind, wp_modify, wp_get]
  split
  · rw [wp_bind, wp_engine_alive (by exact hw.alive) (hw.engine _)]
    exact h _
  · exact h _

/-- What is left of a log from an offset on goes up to the watermark, or starts at it. -/
theorem reaches_visible {log : KeyedLog String Row} (hkept : log.LastKept) {start : Nat}
    (hlow : log.low ≤ start) : Reaches start log.high (visible log start) := by
  obtain heq | ⟨r, hr, hlast⟩ := hkept
  · left
    omega
  · by_cases hle : start ≤ r.offset
    · exact .inr ⟨r, List.mem_filter.2 ⟨hr, by simpa using hle⟩, hlast⟩
    · left
      omega

/-- With the last record of its changelog kept and nothing going wrong, a partition is rebuilt. -/
theorem wp_restoreOne_complete (hw : Sound env w) (hreader : env.reader i = {})
    (hkept : (w.broker.changelog i).LastKept) :
    wp (LocalStateStore.restoreOne d groupId env i) (fun _ _ => True) (fun _ _ => False) w := by
  let log := w.broker.changelog i
  have hread : ∀ start s, log.low ≤ start → wp (do
      LocalStateStore.storeFor d groupId env i
      if start < log.high then do
        let _ ← LocalStateStore.drain d groupId env i start log.high (readerEvents .none log start)
      modify fun w => { w with store := { w.store with
        position := Function.update w.store.position i (some log.high) } })
      (fun _ _ => True) (fun _ _ => False) { w with store := s } := by
    intro start s hstart
    rw [wp_bind]
    refine wp_storeFor_sound hw.set fun s' _ => ?_
    split
    · have hb := between_visible log start
      rw [wp_bind]
      refine wp_mono (wp_drain_complete (delivers_readerEvents_none log start) hb hw.set)
        (fun _ _ _ => trivial) fun _ _ he => ?_
      exact he.1 (reaches_visible hkept hstart)
    · trivial
  unfold LocalStateStore.restoreOne
  rw [hreader]
  simp only [LocalStateStore.startOffset, wp_bind, wp_get]
  split
  · rename_i c _ _
    have := hread (max c log.low) w.store (Nat.le_max_right _ _)
    simpa only [wp_bind, wp_pure] using this
  · rw [wp_bind]
    refine wp_destroy_sound hw fun s => ?_
    have := hread log.low s (Nat.le_refl _)
    simpa only [wp_bind, wp_pure] using this

/-- Rebuilding one partition whose log kept its last record returns, if nothing goes wrong. -/
theorem wp_restore_complete (hw : Sound env w) (hreader : env.reader i = {})
    (hkept : (w.broker.changelog i).LastKept) :
    wp (LocalStateStore.restore d groupId env [i]) (fun _ t => t.store.table i =
      replay (keptTable d w.store i) ((delta d w.store i (w.broker.changelog i)).map LogRecord.entry))
      (fun _ _ => False) w := by
  have hone : sortedSet [i] = [i] := by simp [sortedSet]
  have hsound : Sound env { w with trace := w.trace ++ [Call.restore [i]] } := ⟨hw.alive, hw.engine⟩
  simp only [LocalStateStore.restore, wp_bind, wp_record, hone]
  change wp (LocalStateStore.restoreOne d groupId env i >>= fun _ => (pure () : M Unit)) _ _ _
  rw [wp_bind]
  have htable : wp (LocalStateStore.restoreOne d groupId env i) (fun _ t => t.store.table i =
      replay (keptTable d w.store i) ((delta d w.store i (w.broker.changelog i)).map LogRecord.entry))
      (fun _ _ => True) { w with trace := w.trace ++ [Call.restore [i]] } :=
    wp_restoreOne_each (fun _ _ _ _ => trivial) (fun _ _ _ _ _ _ _ => trivial)
      fun _ _ _ hs => hs.table_eq
  exact wp_mono (wp_and htable (wp_restoreOne_complete hsound hreader hkept)) (fun _ _ ht => ht.1)
    fun _ _ he => he.2

/-- A full rebuild leaves the log's table. -/
theorem wp_restore_returns (hfull : d.settings.stateRebuild = .full) (hw : Sound env w)
    (hreader : env.reader i = {}) (hkept : (w.broker.changelog i).LastKept) :
    wp (LocalStateStore.restore d groupId env [i])
      (fun _ t => t.store.table i = (w.broker.changelog i).table) (fun _ _ => False) w := by
  rw [← replay_delta_of_full hfull w.store]
  exact wp_restore_complete hw hreader hkept

/-- A process that does not die lives through a restore. -/
theorem wp_restoreOne_living (hw : w.crashIn = none) :
    wp (LocalStateStore.restoreOne d groupId env i) (fun _ t => t.crashIn = none)
      (fun _ _ => True) w := by
  have hread : ∀ start high es s, wp (do
      LocalStateStore.storeFor d groupId env i
      if start < high then do
        let _ ← LocalStateStore.drain d groupId env i start high es
      modify fun w => { w with store := { w.store with
        position := Function.update w.store.position i (some high) } })
      (fun _ t => t.crashIn = none) (fun _ _ => True) { w with store := s } := by
    intro start high es s
    rw [wp_bind]
    refine wp_storeFor_living hw (fun _ => trivial) fun s' _ => ?_
    split
    · simp only [LocalStateStore.drain, wp_bind]
      refine wp_storeFor_living hw (fun _ => trivial) fun s'' _ => ?_
      refine wp_mono (wp_drainLoop_living ?_) (fun _ t ht => ht) fun _ _ he => he
      exact hw
    · exact hw
  unfold LocalStateStore.restoreOne
  rcases (env.reader i).metadata with _ | exc
  swap
  · trivial
  rcases (env.reader i).watermarks with _ | exc
  swap
  · trivial
  simp only [LocalStateStore.startOffset, wp_bind, wp_get]
  split
  · have := hread (max ‹Nat› (w.broker.changelog i).low) (w.broker.changelog i).high
      (readerEvents (env.reader i).fault (w.broker.changelog i)
        (max ‹Nat› (w.broker.changelog i).low)) w.store
    simpa only [wp_bind, wp_pure] using this
  · have hlow : ∀ s, _ := hread (w.broker.changelog i).low (w.broker.changelog i).high
      (readerEvents (env.reader i).fault (w.broker.changelog i) (w.broker.changelog i).low)
    simp only [LocalStateStore.destroy, wp_bind, wp_modify, wp_get]
    split
    · simp only [wp_bind]
      refine wp_engine_living hw (fun _ => trivial) ?_
      rw [wp_modify]
      simpa only [wp_bind, wp_pure] using hlow _
    · simpa only [wp_bind, wp_pure] using hlow _
/-! ## Releasing -/

/-- The stores of `ps` were closed; no table changed. -/
structure Released (ps : List Nat) (s s' : LocalStore) : Prop where
  mem_stores : ∀ j, j ∈ s'.stores ↔ j ∉ ps ∧ j ∈ s.stores
  disk_eq : s'.disk = s.disk

theorem Released.table_eq {ps : List Nat} {s s' : LocalStore} (h : Released ps s s') (j : Nat) :
    s'.table j = s.table j := by
  unfold LocalStore.table
  rw [h.disk_eq]

/-- The store of partition `i` was closed; its position may have been written to the checkpoint. -/
structure Shut (i : Nat) (s s' : LocalStore) : Prop where
  mem_stores : ∀ j, j ∈ s'.stores ↔ j ≠ i ∧ j ∈ s.stores
  disk_eq : s'.disk = s.disk
  position_eq : s'.position = s.position
  checkpoint_eq : s'.checkpoint = s.checkpoint ∨ ∃ n, i ∈ s.stores ∧ s.position i = some n ∧
    s'.checkpoint = Function.update s.checkpoint i (some n)

theorem Shut.table_eq {s s' : LocalStore} (h : Shut i s s') : s'.table = s.table := by
  funext j
  unfold LocalStore.table
  rw [h.disk_eq]

theorem wp_forgetOne_each (hok : ∀ n s, Shut i w.store s → R ⟨⟩ { w with store := s, crashIn := n })
    (hcrash : ∀ s, Shut i w.store s → E .crash { w with store := s }) :
    wp (LocalStateStore.forgetOne env i) R E w := by
  have hmem : ∀ j, j ∈ w.store.stores.filter (· ≠ i) ↔ j ≠ i ∧ j ∈ w.store.stores := by
    intro j
    simp [and_comm]
  simp only [LocalStateStore.forgetOne, wp_bind, wp_get]
  split
  · rename_i hopen
    simp only [LocalStateStore.writeCheckpoint, wp_bind, wp_modify, wp_get]
    split
    · exact hok w.crashIn _ ⟨hmem, rfl, rfl, .inl rfl⟩
    · rename_i n hn
      rw [wp_bind]
      refine wp_tick (hcrash _ ⟨hmem, rfl, rfl, .inl rfl⟩) fun _ => ?_
      split
      · exact hok _ _ ⟨hmem, rfl, rfl, .inr ⟨n, hopen, hn, rfl⟩⟩
      · exact hok _ _ ⟨hmem, rfl, rfl, .inl rfl⟩
  · rename_i h
    refine hok w.crashIn w.store ⟨fun j => ⟨fun hj => ⟨?_, hj⟩, And.right⟩, rfl, rfl, .inl rfl⟩
    intro hji
    exact h (hji ▸ hj)

theorem wp_forgetOne (herr : ∀ e n s, E e { w with store := s, crashIn := n })
    (hok : ∀ n s, Released [i] w.store s → R ⟨⟩ { w with store := s, crashIn := n }) :
    wp (LocalStateStore.forgetOne env i) R E w := by
  refine wp_forgetOne_each (fun n s hs => ?_) fun s _ => herr _ w.crashIn s
  refine hok n s ⟨fun j => ?_, hs.disk_eq⟩
  rw [hs.mem_stores, List.mem_singleton]

theorem wp_forget {ps : List Nat} (hnone : ps = [] → R ⟨⟩ w) (hcrash : E .crash w)
    (herr : ∀ e n s rs b p, Served w.broker w.producer rs b p → E e { w with
      broker := b, producer := p, store := s, crashIn := n })
    (hok : ∀ n s rs b p, Served w.broker w.producer rs b p → Released ps w.store s → R ⟨⟩ { w with
      broker := b, producer := p, store := s, crashIn := n }) :
    wp (LocalStateStore.forget env ps) R E w := by
  unfold LocalStateStore.forget
  split
  · rename_i h
    exact hnone h
  · rw [wp_bind]
    refine wp_flush hcrash fun n rs b p pos hs _ => ?_
    have hall : wp ((sortedSet ps).forM (LocalStateStore.forgetOne env))
        (fun _ (t : World) => ∃ n s, Released (sortedSet ps) w.store s ∧
          t = { w with broker := b, producer := p, store := s, crashIn := n }) E { w with
            broker := b, producer := p, store := { w.store with position := pos }, crashIn := n } := by
      refine wp_forM_prefix (I := fun pre (t : World) => ∃ n s, Released pre w.store s ∧
          t = { w with broker := b, producer := p, store := s, crashIn := n })
        ⟨n, { w.store with position := pos }, ⟨by simp, rfl⟩, rfl⟩ fun pre i post _ t ht => ?_
      obtain ⟨n, s, hs', rfl⟩ := ht
      refine wp_forgetOne (fun e n s => herr e n s rs b p hs) fun n s'' hs'' =>
        ⟨n, s'', ⟨fun j => ?_, hs''.disk_eq.trans hs'.disk_eq⟩, rfl⟩
      rw [hs''.mem_stores, hs'.mem_stores, List.mem_append, not_or]
      tauto
    refine wp_mono hall (fun _ t ht => ?_) fun _ _ he => he
    obtain ⟨n, s, hs', rfl⟩ := ht
    exact hok n s rs b p hs ⟨fun j => by rw [hs'.mem_stores, mem_sortedSet], hs'.disk_eq⟩

/-- The stores of `ps` were closed and emptied. -/
structure Discarded (ps : List Nat) (s s' : LocalStore) : Prop where
  mem_stores : ∀ j, j ∈ s'.stores ↔ j ∉ ps ∧ j ∈ s.stores
  table_ne : ∀ j, j ∉ ps → s'.table j = s.table j

theorem wp_discardOne (herr : ∀ e n s, E e { w with store := s, crashIn := n })
    (hok : ∀ n s, Discarded [i] w.store s → R ⟨⟩ { w with store := s, crashIn := n }) :
    wp (LocalStateStore.discardOne env i) R E w := by
  have hmem : ∀ j, j ∈ w.store.stores.filter (· ≠ i) ↔ j ∉ [i] ∧ j ∈ w.store.stores := by
    intro j
    simp [and_comm]
  simp only [LocalStateStore.discardOne, wp_bind, wp_modify, wp_get]
  split
  · exact herr _ w.crashIn _
  · simp only [wp_bind, wp_modify]
    refine wp_engine (fun e n => herr e n _) fun n => ?_
    refine wp_engine (fun e n => herr e n _) fun n => ?_
    refine hok n _ ⟨hmem, fun j hj => ?_⟩
    have hj : j ≠ i := by simpa using hj
    simp [LocalStore.table, hj]

theorem wp_discard {ps : List Nat} (herr : ∀ e n s, E e { w with
      store := s, crashIn := n, trace := w.trace ++ [.discard ps] })
    (hok : ∀ n s, Discarded ps w.store s → R ⟨⟩ { w with
      store := s, crashIn := n, trace := w.trace ++ [.discard ps] }) :
    wp (LocalStateStore.discard env ps) R E w := by
  simp only [LocalStateStore.discard, wp_bind, wp_record]
  have hall : wp ((sortedSet ps).forM (LocalStateStore.discardOne env))
      (fun _ (t : World) => ∃ n s, Discarded (sortedSet ps) w.store s ∧
        t = { w with store := s, crashIn := n, trace := w.trace ++ [.discard ps] }) E
      { w with trace := w.trace ++ [.discard ps] } := by
    refine wp_forM_prefix (I := fun pre (t : World) => ∃ n s, Discarded pre w.store s ∧
        t = { w with store := s, crashIn := n, trace := w.trace ++ [.discard ps] })
      ⟨w.crashIn, w.store, ⟨by simp, fun _ _ => rfl⟩, rfl⟩ fun pre i post _ t ht => ?_
    obtain ⟨n, s, hs, rfl⟩ := ht
    refine wp_discardOne (fun e n s => herr e n s) fun n s' hs' =>
      ⟨n, s', ⟨fun j => ?_, fun j hj => ?_⟩, rfl⟩
    · rw [hs'.mem_stores, hs.mem_stores, List.mem_append, not_or]
      tauto
    · rw [List.mem_append, not_or] at hj
      rw [hs'.table_ne j hj.2, hs.table_ne j hj.1]
  refine wp_mono hall (fun _ t ht => ?_) fun _ _ he => he
  obtain ⟨n, s, hs, rfl⟩ := ht
  exact hok n s ⟨fun j => by rw [hs.mem_stores, mem_sortedSet], fun j hj =>
    hs.table_ne j (by simpa using hj)⟩

end OrderService
