import OrderService.Proof.Store

/-!
# Reading a changelog partition back (`_drain`)

`Delivers rs es`: the reader hands over the records `rs` in order, with end-of-partition events
anywhere, or stops short of the last of them. The loop counts offsets, not records: it returns only
once the record at `high - 1` was read. Whatever a `drain` that returns was given, it has applied
every visible record (`wp_drain`); given all of them, it returns exactly if there was nothing to read
or the last visible offset is `high - 1` (`drain_returns_iff`).
-/

namespace OrderService

open Eff KeyedLog

variable {d : Deployment} {groupId : String} {env : Env} {w : World} {i : Nat}
variable {E : Exn → World → Prop}

/-- The records a reader assigned at `start` sees. -/
def visible (log : KeyedLog String Row) (start : Nat) : List (LogRecord String Row) :=
  log.records.filter (start ≤ ·.offset)

/-- The reader delivers `rs` in order; unless `complete`, it may stop or err before the end. -/
inductive Delivers (complete : Bool) : List (LogRecord String Row) → List ReaderEvent → Prop where
  | done : Delivers complete [] []
  | stops (rs : List (LogRecord String Row)) : complete = false → Delivers complete rs []
  | errs (rs : List (LogRecord String Row)) (text : String) (es : List ReaderEvent) :
      complete = false → Delivers complete rs (.error text :: es)
  | eof {rs : List (LogRecord String Row)} {es : List ReaderEvent} :
      Delivers complete rs es → Delivers complete rs (.partitionEof :: es)
  | record (r : LogRecord String Row) {rs : List (LogRecord String Row)} {es : List ReaderEvent} :
      Delivers complete rs es → Delivers complete (r :: rs) (.ofRecord r :: es)

theorem delivers_prefix (rs : List (LogRecord String Row)) (n : Nat) (tail : List ReaderEvent)
    (htail : ∀ rs', Delivers false rs' tail) :
    Delivers false rs ((rs.map ReaderEvent.ofRecord).take n ++ tail) := by
  induction n generalizing rs with
  | zero => exact htail rs
  | succ n ih =>
    cases rs with
    | nil => exact htail []
    | cons r rs => exact .record r (ih rs)

theorem delivers_readerEvents_none (log : KeyedLog String Row) (start : Nat) :
    Delivers true (visible log start) (readerEvents .none log start) := by
  change Delivers true (visible log start) ((visible log start).map .ofRecord ++ [.partitionEof])
  induction visible log start with
  | nil => exact .eof .done
  | cons r rs ih => exact .record r ih

theorem Delivers.weaken {rs : List (LogRecord String Row)} {es : List ReaderEvent}
    (h : Delivers true rs es) : Delivers false rs es := by
  induction h with
  | done => exact .done
  | stops _ h => cases h
  | errs _ _ _ h => cases h
  | eof _ ih => exact .eof ih
  | record r _ ih => exact .record r ih

theorem delivers_readerEvents (fault : ReaderFault) (log : KeyedLog String Row) (start : Nat) :
    Delivers false (visible log start) (readerEvents fault log start) := by
  cases fault with
  | none => exact (delivers_readerEvents_none log start).weaken
  | stalls n =>
    have := delivers_prefix (visible log start) n [] fun rs => .stops rs rfl
    rwa [List.append_nil] at this
  | fails n text => exact delivers_prefix _ n _ fun rs => .errs rs text [] rfl

/-- The records of `rs` lie between `next` and `high`, at increasing offsets. -/
structure Between (next high : Nat) (rs : List (LogRecord String Row)) : Prop where
  sorted : rs.Pairwise (·.offset < ·.offset)
  bounds : ∀ r ∈ rs, next ≤ r.offset ∧ r.offset < high

theorem between_visible (log : KeyedLog String Row) (start : Nat) :
    Between start log.high (visible log start) where
  sorted := log.sorted.filter _
  bounds r hr := by
    obtain ⟨hr, hs⟩ := List.mem_filter.1 hr
    exact ⟨by simpa using hs, (log.bounded r hr).2⟩

theorem Between.tail {next high : Nat} {r : LogRecord String Row} {rs : List (LogRecord String Row)}
    (h : Between next high (r :: rs)) : Between (r.offset + 1) high rs where
  sorted := h.sorted.tail
  bounds r' hr' := ⟨List.rel_of_pairwise_cons h.sorted hr', (h.bounds r' (.tail _ hr')).2⟩

theorem Between.eq_nil {next high : Nat} {rs : List (LogRecord String Row)}
    (h : Between next high rs) (hle : high ≤ next) : rs = [] := by
  rcases rs with _ | ⟨r, rs⟩
  · rfl
  · have := h.bounds r (.head _)
    omega

theorem keyOfRecord_toUTF8 (k : String) : keyOfRecord (some k.toUTF8) = .ok k := by
  have h : String.fromUTF8? k.toUTF8 = some k := dif_pos k.isValidUTF8
  simp only [keyOfRecord, h]

/-! ## The loop -/

/-- What one record does to the store. -/
def applyRecord (i : Nat) (s : LocalStore) (r : LogRecord String Row) : LocalStore :=
  if r.value = none ∧ s.table i r.key = none then s
  else { s with disk := Function.update s.disk i (some (Function.update (s.table i) r.key r.value)) }

/-- What the loop leaves of the store, once it has read `rs`. -/
structure Drained (i : Nat) (rs : List (LogRecord String Row)) (s s' : LocalStore) : Prop where
  stores_eq : s'.stores = s.stores
  table_eq : s'.table i = replay (s.table i) (rs.map LogRecord.entry)
  table_ne : ∀ j, j ≠ i → s'.table j = s.table j
  checkpoint_eq : s'.checkpoint = s.checkpoint
  position_eq : s'.position = s.position

theorem Drained.nil {s : LocalStore} : Drained i [] s s := ⟨rfl, rfl, fun _ _ => rfl, rfl, rfl⟩

theorem Drained.cons {r : LogRecord String Row} {rs : List (LogRecord String Row)}
    {s s' : LocalStore} (h : Drained i rs (applyRecord i s r) s') : Drained i (r :: rs) s s' := by
  have hstep : Drained i [r] s (applyRecord i s r) := by
    unfold applyRecord
    split
    · rename_i h
      refine ⟨rfl, ?_, fun _ _ => rfl, rfl, rfl⟩
      simp [LogRecord.entry, h.1, ← h.2]
    · refine ⟨rfl, ?_, fun j hj => ?_, rfl, rfl⟩
      · rw [table_update, if_pos rfl]; rfl
      · rw [table_update, if_neg hj]
  refine ⟨h.stores_eq.trans hstep.stores_eq, ?_, fun j hj => (h.table_ne j hj).trans (hstep.table_ne j hj),
    h.checkpoint_eq.trans hstep.checkpoint_eq, h.position_eq.trans hstep.position_eq⟩
  rw [h.table_eq, hstep.table_eq]
  rfl

/-- One message: the record is applied and the loop goes on after it. -/
theorem wp_drainLoop_record {R : Nat × Nat → World → Prop} {high next n : Nat} {live : List String}
    {r : LogRecord String Row} {es : List ReaderEvent} (hlt : next < high)
    (herr : ∀ e n, E e { w with crashIn := n })
    (hok : ∀ n' live' c, wp (LocalStateStore.drainLoop env i high es (r.offset + 1) n' live') R E
      { w with store := applyRecord i w.store r, crashIn := c }) :
    wp (LocalStateStore.drainLoop env i high (.ofRecord r :: es) next n live) R E w := by
  unfold LocalStateStore.drainLoop
  simp only [hlt, if_true, ReaderEvent.ofRecord, keyOfRecord_toUTF8,
    LocalStateStore.drainLoop.liftExcept, wp_bind, wp_pure]
  rcases hv : r.value with _ | v
  · simp only [wp_bind]
    refine wp_engine herr fun c => ?_
    rw [wp_get]
    rcases hk : w.store.table i r.key with _ | v
    · simp only [Option.isSome_none, Bool.false_eq_true, if_false]
      have := hok (n + 1) (live.erase r.key) c
      rwa [applyRecord, if_pos ⟨hv, hk⟩] at this
    · simp only [Option.isSome_some, if_true, wp_bind]
      refine wp_engine herr fun c => ?_
      rw [wp_setRow]
      have := hok (n + 1) (live.erase r.key) c
      rwa [applyRecord, if_neg (by simp [hk]), hv] at this
  · simp only [wp_bind]
    refine wp_engine herr fun c => ?_
    rw [wp_setRow]
    have := hok (n + 1) (live.insert r.key) c
    rwa [applyRecord, if_neg (by simp [hv]), hv] at this

/-- **A loop that returns has applied every record**, whatever the reader did; one that raises has
applied those up to where it did. -/
theorem wp_drainLoop {R : Nat × Nat → World → Prop} {high : Nat} {rs : List (LogRecord String Row)}
    {es : List ReaderEvent} (hes : Delivers false rs es) :
    ∀ {next n : Nat} {live : List String} {w : World}, Between next high rs →
      (∀ e n s done rest, rs = done ++ rest → Drained i done w.store s →
        E e { w with store := s, crashIn := n }) →
      (∀ res n s, Drained i rs w.store s → R res { w with store := s, crashIn := n }) →
      wp (LocalStateStore.drainLoop env i high es next n live) R E w := by
  have hexit : ∀ {next n : Nat} {live : List String} {w : World} {rs : List (LogRecord String Row)},
      ¬ next < high → Between next high rs →
      (∀ res n s, Drained i rs w.store s → R res { w with store := s, crashIn := n }) →
      R (n, live.length) w := by
    intro next n live w rs hlt hb hok
    cases hb.eq_nil (Nat.le_of_not_lt hlt)
    exact hok _ w.crashIn w.store .nil
  induction hes with
  | done | stops =>
    intro next n live w hb herr hok
    unfold LocalStateStore.drainLoop
    split
    · exact herr _ w.crashIn w.store [] _ rfl .nil
    · exact hexit ‹_› hb hok
  | errs =>
    intro next n live w hb herr hok
    unfold LocalStateStore.drainLoop
    split
    · exact herr _ w.crashIn w.store [] _ rfl .nil
    · exact hexit ‹_› hb hok
  | eof _ ih =>
    intro next n live w hb herr hok
    unfold LocalStateStore.drainLoop
    split
    · exact ih hb herr hok
    · exact hexit ‹_› hb hok
  | record r _ ih =>
    intro next n live w hb herr hok
    by_cases hlt : next < high
    · refine wp_drainLoop_record hlt (fun e n => herr e n w.store [] _ rfl .nil) fun n' live' c => ?_
      refine ih hb.tail (fun e n s done rest hrest hs => ?_) fun res c s hs => hok res c s hs.cons
      exact herr e n s (r :: done) rest (by rw [hrest]; rfl) hs.cons
    · unfold LocalStateStore.drainLoop
      rw [if_neg hlt]
      exact hexit hlt hb hok

/-! ## When the loop returns -/

/-- The engine, and the process, are sound for the whole of the step. -/
structure Sound (env : Env) (w : World) : Prop where
  alive : w.crashIn = none
  engine : ∀ op, env.engine op = none

theorem Sound.set {s : LocalStore} (h : Sound env w) : Sound env { w with store := s } :=
  ⟨h.alive, h.engine⟩

theorem wp_drainLoop_record_sound {high next : Nat} (i n : Nat) (live : List String)
    {r : LogRecord String Row} {es : List ReaderEvent} (hw : Sound env w) (hlt : next < high) :
    ∃ n' live', ∀ (R : Nat × Nat → World → Prop) (E : Exn → World → Prop),
      wp (LocalStateStore.drainLoop env i high (.ofRecord r :: es) next n live) R E w ↔
        wp (LocalStateStore.drainLoop env i high es (r.offset + 1) n' live') R E
          { w with store := applyRecord i w.store r } := by
  rw [LocalStateStore.drainLoop.eq_def]
  simp only [hlt, if_true, ReaderEvent.ofRecord, keyOfRecord_toUTF8,
    LocalStateStore.drainLoop.liftExcept, wp_bind, wp_pure]
  rcases hv : r.value with _ | v
  · rcases hk : w.store.table i r.key with _ | v
    · refine ⟨n + 1, live.erase r.key, fun R E => ?_⟩
      rw [applyRecord, if_pos ⟨hv, hk⟩]
      simp [wp_engine_alive hw.alive (hw.engine _), hk]
    · refine ⟨n + 1, live.erase r.key, fun R E => ?_⟩
      rw [applyRecord, if_neg (by simp [hk]), hv]
      simp [wp_engine_alive hw.alive (hw.engine _), hk]
  · refine ⟨n + 1, live.insert r.key, fun R E => ?_⟩
    rw [applyRecord, if_neg (by simp [hv]), hv]
    simp [wp_engine_alive hw.alive (hw.engine _)]

/-- Whether reading `rs` takes the loop from `next` to `high`. -/
def Reaches (next high : Nat) (rs : List (LogRecord String Row)) : Prop :=
  high ≤ next ∨ ∃ r ∈ rs, r.offset + 1 = high

theorem Reaches.tail {next high : Nat} {r : LogRecord String Row} {rs : List (LogRecord String Row)}
    (hlt : next < high) (hb : Between next high (r :: rs)) :
    Reaches next high (r :: rs) ↔ Reaches (r.offset + 1) high rs := by
  have hr := hb.bounds r (.head _)
  unfold Reaches
  constructor
  · rintro (h | ⟨r', hr', h⟩)
    · omega
    · rcases List.mem_cons.1 hr' with rfl | hr'
      · exact .inl (Nat.le_of_eq h.symm)
      · exact .inr ⟨r', hr', h⟩
  · rintro (h | ⟨r', hr', h⟩)
    · exact .inr ⟨r, .head _, by omega⟩
    · exact .inr ⟨r', .tail _ hr', h⟩

/-- Given every record, the loop returns if they reach the watermark and stalls if they do not. -/
theorem wp_drainLoop_complete {high : Nat} {rs : List (LogRecord String Row)}
    {es : List ReaderEvent} (hes : Delivers true rs es) :
    ∀ {next n : Nat} {live : List String} {w : World}, Sound env w → Between next high rs →
      wp (LocalStateStore.drainLoop env i high es next n live)
        (fun _ _ => Reaches next high rs)
        (fun e _ => ¬ Reaches next high rs ∧ ∃ text, e = .stateStoreUnavailable text) w := by
  have hexit : ∀ {next n : Nat} {live : List String} {rs : List (LogRecord String Row)},
      ¬ next < high → Reaches next high rs := fun h => .inl (Nat.le_of_not_lt h)
  induction hes with
  | done =>
    intro next n live w hw hb
    unfold LocalStateStore.drainLoop
    split
    · refine ⟨?_, _, rfl⟩
      simpa [Reaches]
    · exact .inl (Nat.le_of_not_lt ‹_›)
  | stops _ h | errs _ _ _ h => cases h
  | eof _ ih =>
    intro next n live w hw hb
    unfold LocalStateStore.drainLoop
    split
    · exact ih hw hb
    · exact .inl (Nat.le_of_not_lt ‹_›)
  | record r _ ih =>
    intro next n live w hw hb
    by_cases hlt : next < high
    · obtain ⟨n', live', heq⟩ := wp_drainLoop_record_sound i n live hw hlt
      rw [heq]
      simp only [Reaches.tail hlt hb]
      exact ih hw.set hb.tail
    · unfold LocalStateStore.drainLoop
      rw [if_neg hlt]
      exact .inl (Nat.le_of_not_lt hlt)

/-- Whatever the reader hands over, the loop does not make the process die. -/
theorem wp_drainLoop_living {high : Nat} {es : List ReaderEvent} :
    ∀ {next n : Nat} {live : List String} {w : World}, w.crashIn = none →
      wp (LocalStateStore.drainLoop env i high es next n live) (fun _ t => t.crashIn = none)
        (fun _ _ => True) w := by
  induction es with
  | nil =>
    intro next n live w hw
    unfold LocalStateStore.drainLoop
    split
    · trivial
    · exact hw
  | cons event es ih =>
    intro next n live w hw
    unfold LocalStateStore.drainLoop
    split
    swap
    · exact hw
    cases event with
    | partitionEof => exact ih hw
    | error => trivial
    | message offset key value =>
      simp only [wp_bind]
      rcases keyOfRecord key with e | k
      · trivial
      simp only [LocalStateStore.drainLoop.liftExcept, wp_pure]
      rcases value with _ | v
      · simp only [wp_bind]
        refine wp_engine_living hw (fun _ => trivial) ?_
        rw [wp_get, wp_ite]
        refine ⟨fun _ => ?_, fun _ => ih hw⟩
        simp only [wp_bind]
        refine wp_engine_living hw (fun _ => trivial) ?_
        rw [wp_setRow]
        exact ih hw
      · simp only [wp_bind]
        refine wp_engine_living hw (fun _ => trivial) ?_
        rw [wp_setRow]
        exact ih hw

/-- `_drain` of a partition, from a reader that hands over what is visible. -/
theorem wp_drain {R : Nat × Nat → World → Prop} {high start : Nat}
    {rs : List (LogRecord String Row)} {es : List ReaderEvent} (hes : Delivers false rs es)
    (hb : Between start high rs) (hclosed : ∀ e n, E e { w with crashIn := n })
    (herr : ∀ e n s s' done rest, rs = done ++ rest → Opened i w.store s → Drained i done s s' →
      E e { w with store := s', crashIn := n })
    (hok : ∀ res n s s', Opened i w.store s → Drained i rs s s' →
      R res { w with store := s', crashIn := n }) :
    wp (LocalStateStore.drain d groupId env i start high es) R E w := by
  simp only [LocalStateStore.drain, wp_bind]
  refine wp_storeFor hclosed fun n s hs => ?_
  exact wp_drainLoop hes hb (fun e n s' done rest hrest hs' => herr e n s s' done rest hrest hs hs')
    fun res n s' hs' => hok res n s s' hs hs'

theorem wp_drain_complete {high start : Nat} {rs : List (LogRecord String Row)}
    {es : List ReaderEvent} (hes : Delivers true rs es) (hb : Between start high rs)
    (hw : Sound env w) :
    wp (LocalStateStore.drain d groupId env i start high es) (fun _ _ => Reaches start high rs)
      (fun e _ => ¬ Reaches start high rs ∧ ∃ text, e = .stateStoreUnavailable text) w := by
  simp only [LocalStateStore.drain, LocalStateStore.storeFor, wp_bind, wp_get]
  split
  · exact wp_drainLoop_complete hes hw hb
  · rw [wp_bind, wp_engine_alive hw.alive (hw.engine _), wp_modify]
    exact wp_drainLoop_complete hes hw.set hb

/-- The store `_drain` should leave: the one it found, with the records applied in offset order. -/
def DrainedTo (d : Deployment) (groupId : String) (env : Env) (i start high : Nat)
    (rs : List (LogRecord String Row)) (es : List ReaderEvent) (w : World) : Prop :=
  ∃ res w', (LocalStateStore.drain d groupId env i start high es).exec w = (.ok res, w') ∧
    w'.store.table i = replay (w.store.table i) (rs.map LogRecord.entry) ∧
    ∀ j, j ≠ i → w'.store.table j = w.store.table j

/-- **`_drain` does its job exactly if the last visible offset is the last below the watermark**, or
there is nothing to read: control markers, aborted records or compaction at the end of the range
stall it, everything else it survives. -/
theorem drain_returns_iff (d : Deployment) (groupId : String) (env : Env) (i start high : Nat)
    (rs : List (LogRecord String Row)) (es : List ReaderEvent) (w : World)
    (hb : Between start high rs) (hes : Delivers true rs es) (hw : Sound env w) :
    DrainedTo d groupId env i start high rs es w ↔
      high ≤ start ∨ ∃ r ∈ rs, r.offset + 1 = high := by
  have hcomplete : wp (LocalStateStore.drain d groupId env i start high es) _ _ w :=
    wp_drain_complete hes hb hw
  constructor
  · rintro ⟨res, w', hexec, -⟩
    exact exec_of_wp hcomplete hexec
  · intro hreach
    have hsafe : wp (LocalStateStore.drain d groupId env i start high es)
        (fun _ t => t.store.table i = replay (w.store.table i) (rs.map LogRecord.entry) ∧
          ∀ j, j ≠ i → t.store.table j = w.store.table j) (fun _ _ => True) w := by
      refine wp_drain hes.weaken hb (fun _ _ => trivial) (fun _ _ _ _ _ _ _ _ _ => trivial)
        fun res n s s' hs hs' => ⟨?_, fun j hj => ?_⟩
      · rw [hs'.table_eq, hs.table_eq]
      · rw [hs'.table_ne j hj, hs.table_eq]
    obtain ⟨hok, -⟩ := wp_iff_forall.1 hsafe
    obtain ⟨-, herr⟩ := wp_iff_forall.1 hcomplete
    rcases hexec : (LocalStateStore.drain d groupId env i start high es).exec w with ⟨e | res, w'⟩
    · exact absurd hreach (herr e w' hexec).1
    · exact ⟨res, w', hexec, hok res w' hexec⟩

/-- A gap inside the range does no harm. -/
theorem drain_returns_gap : DrainedTo (.onePartition {} fun _ => .invalid "") "g" {} 0 0 3
    [⟨0, "a", some ⟨1, some .created, "e1", 1⟩⟩, ⟨2, "a", none⟩]
    [.ofRecord ⟨0, "a", some ⟨1, some .created, "e1", 1⟩⟩, .partitionEof, .ofRecord ⟨2, "a", none⟩]
    {} :=
  (drain_returns_iff _ _ _ 0 0 3 _ _ _
    ⟨by simp, by simp⟩ (.record _ (.eof (.record _ .done))) ⟨rfl, fun _ => rfl⟩).2
    (.inr ⟨_, .tail _ (.head _), rfl⟩)

/-- A record and the marker of the transaction that wrote it: the replay stalls on the marker. -/
theorem drain_stalls_on_marker :
    Between 0 2 [⟨0, "a", some ⟨1, some .created, "e1", 1⟩⟩] ∧
      Delivers true [⟨0, "a", some ⟨1, some .created, "e1", 1⟩⟩]
        [.ofRecord ⟨0, "a", some ⟨1, some .created, "e1", 1⟩⟩, .partitionEof] ∧
      Sound {} {} ∧
      ¬ DrainedTo (.onePartition {} fun _ => .invalid "") "g" {} 0 0 2
        [⟨0, "a", some ⟨1, some .created, "e1", 1⟩⟩]
        [.ofRecord ⟨0, "a", some ⟨1, some .created, "e1", 1⟩⟩, .partitionEof] {} := by
  refine ⟨⟨by simp, by simp⟩, .record _ (.eof .done), ⟨rfl, fun _ => rfl⟩, ?_⟩
  rintro ⟨res, w', hexec, -⟩
  cases congrArg Prod.fst hexec

end OrderService
