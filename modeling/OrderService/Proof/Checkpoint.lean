import OrderService.Proof.StoreHistory

/-!
# A checkpoint on disk never lies

`<p>.ckpt` says up to which offset the directory of `p` reflects the changelog: a rebuild from it skips
everything below. `_destroy` and `discard` erase a directory before, or without, erasing the checkpoint
beside it, so what cuts them short leaves a checkpoint that lies; `DiskOp.Careful` is what keeps it true
(`checkpoints_true`).
-/

namespace OrderService

open Eff KeyedLog

variable {d : Deployment} {groupId : String} {env : Env}

section Truth

variable {x : StoreHistory} {op : DiskOp} {t u : World} {p : Nat}

/-! ## Rebuilding -/

section Rebuilding

variable {T : Table} {done : List (LogRecord String Row)} {s : LocalStore} {r : LogRecord String Row}

/-- An order that was read back has the row of its last record. -/
theorem Truth.asNew_of_mem (h : Truth d x op t) (hs : Rebuilding p T done t.store s)
    (hdone : done.Sublist (t.broker.changelog p).records)
    (hr : ∃ r' ∈ done, r'.key = r.key ∧ r.offset ≤ r'.offset) :
    (x.observe op { t with store := s }).AsNew p r := by
  obtain ⟨r', hr', hkey, hle⟩ := hr
  have hsorted := (t.broker.changelog p).sorted.sublist hdone
  obtain ⟨last, hlast, hkey', hvalue, hmax⟩ := exists_last hsorted ⟨r', hr', hkey⟩
  refine .inr ⟨last, h.honest.mem_seen p last (hdone.subset hlast), hkey',
    Nat.le_trans hle (hmax r' hr' hkey), ?_⟩
  change s.table p r.key = last.value
  rw [hs.table_eq, hvalue]

/-- What a rebuild does not read back, it keeps from the checkpoint's directory. -/
theorem Truth.asNew_replayed (h : Truth d x op t)
    (hs : Rebuilding p (t.store.table p) done t.store s)
    (hdone : done.Sublist (t.broker.changelog p).records) (hr : (x.observe op t).AsNew p r)
    (hle : ∀ r' ∈ done, r.offset ≤ r'.offset) : (x.observe op { t with store := s }).AsNew p r := by
  by_cases hkey : ∃ r' ∈ done, r'.key = r.key
  · obtain ⟨r', hr', hkey⟩ := hkey
    exact h.asNew_of_mem hs hdone ⟨r', hr', hkey, hle r' hr'⟩
  · refine hr.of_row (fun _ h => h) ?_
    change s.table p r.key = t.store.table p r.key
    rw [hs.table_eq]
    refine replay_of_not_mem fun e he hk => hkey ?_
    obtain ⟨r', hr', rfl⟩ := List.mem_map.1 he
    exact ⟨r', hr', hk⟩

/-- Nobody awaits acknowledgements for a partition that is rebuilt; the rest of its store is as it was. -/
theorem Truth.rebuilt (h : Truth d x op t) (hs : Rebuilding p T done t.store s)
    (hidle : awaiting t p = []) {position : Option Nat}
    (hposition : ∀ n, position = some n → n ≤ (t.broker.changelog p).high)
    (hrows : ∀ n, t.store.checkpoint p = some n ∨ position = some n →
      ∀ r ∈ (t.broker.changelog p).records, r.offset < n →
        (x.observe op { t with store := s }).AsNew p r) :
    Truth d x op { t with store := { s with
      position := Function.update s.position p position } } := by
  refine h.store (p := p) hs.table_ne (fun j _ => by rw [hs.checkpoint_eq])
    (fun j hj => ?_) (fun c hc => ?_) (fun n hn => ?_) fun e he => ?_
  · exact (Function.update_of_ne hj _ _).trans (by rw [hs.position_eq])
  · have hc : t.store.checkpoint p = some c := by
      rw [← hc, hs.checkpoint_eq]
    exact ⟨(h.honest.checkpoint p c hc).1, hrows c (.inl hc)⟩
  · have hn : position = some n := (Function.update_self p _ _).symm.trans hn
    exact ⟨hposition n hn, hrows n (.inr hn)⟩
  · rw [hidle] at he
    cases he

/-- **A rebuild that completes** leaves nothing to claim. -/
theorem Truth.caughtUp (h : Truth d x op t) {d' : Deployment}
    (hs : Rebuilding p (keptTable d' t.store p) (delta d' t.store p (t.broker.changelog p)) t.store s)
    (hidle : awaiting t p = []) : Truth d x op { t with store := { s with
      position := Function.update s.position p (some (t.broker.changelog p).high) } } := by
  refine h.rebuilt hs hidle (fun n hn => ?_) fun _ _ r hr _ => ?_
  · cases hn
    exact Nat.le_refl _
  have hsub := delta_sublist (i := p) d' t.store (t.broker.changelog p)
  cases hkept : keptCheckpoint d' t.store p with
  | none =>
    refine h.asNew_of_mem hs hsub ⟨r, ?_, rfl, Nat.le_refl _⟩
    rw [delta_of_erased _ hkept]
    exact hr
  | some c =>
    obtain ⟨htable, hdelta⟩ := delta_of_kept (t.broker.changelog p) hkept
    have hlow := ((t.broker.changelog p).bounded r hr).1
    by_cases hstart : max c (t.broker.changelog p).low ≤ r.offset
    · refine h.asNew_of_mem hs hsub ⟨r, ?_, rfl, Nat.le_refl _⟩
      rw [hdelta]
      exact List.mem_filter.2 ⟨hr, by simpa using hstart⟩
    · -- below the checkpoint the directory was kept
      have hbelow : r.offset < c := by omega
      rw [htable] at hs
      refine h.asNew_replayed hs hsub
        ((h.honest.checkpoint p c (checkpoint_of_kept hkept)).2 r hr hbelow) fun r' hr' => ?_
      rw [hdelta] at hr'
      have hle : max c (t.broker.changelog p).low ≤ r'.offset := by
        simpa using (List.mem_filter.1 hr').2
      omega

/-- **A rebuild that is cut short** leaves the truth if nothing is claimed that it undoes. -/
theorem Truth.cutShort (h : Truth d x op t) {d' : Deployment} {rest : List (LogRecord String Row)}
    (hs : Rebuilding p (keptTable d' t.store p) done t.store s)
    (hdone : delta d' t.store p (t.broker.changelog p) = done ++ rest) (hidle : awaiting t p = [])
    (hclaim : Unclaimed d' t p) : Truth d x op { t with store := s } := by
  have hsub : done.Sublist (t.broker.changelog p).records := by
    refine .trans ?_ (delta_sublist (i := p) d' t.store _)
    rw [hdone]
    exact List.sublist_append_left _ _
  suffices hrows : ∀ n, t.store.checkpoint p = some n ∨ t.store.position p = some n →
      ∀ r ∈ (t.broker.changelog p).records, r.offset < n →
        (x.observe op { t with store := s }).AsNew p r by
    have hle : ∀ n, t.store.position p = some n → n ≤ (t.broker.changelog p).high := fun n hn =>
      (h.honest.position p n hn).1
    have hkeep := h.rebuilt hs hidle hle hrows
    rw [← hs.position_eq, Function.update_eq_self] at hkeep
    exact hkeep
  intro n hn r hr hlt
  unfold Unclaimed at hclaim
  cases hkept : keptCheckpoint d' t.store p with
  | none =>
    rw [hkept] at hclaim
    obtain hn | hn := hn
    · cases hclaim.1.symm.trans hn
    · cases hclaim.2.symm.trans hn
  | some c =>
    rw [hkept] at hclaim
    obtain ⟨htable, hdelta⟩ := delta_of_kept (t.broker.changelog p) hkept
    have hcheckpoint := checkpoint_of_kept hkept
    have hlow := ((t.broker.changelog p).bounded r hr).1
    rw [htable] at hs
    refine h.asNew_replayed hs hsub ?_ fun r' hr' => ?_
    · obtain hn | hn := hn
      · exact (h.honest.checkpoint p n hn).2 r hr hlt
      · exact (h.honest.position p n hn).2 r hr hlt
    · have hmem : r' ∈ visible (t.broker.changelog p) (max c (t.broker.changelog p).low) := by
        rw [← hdelta, hdone]
        exact List.mem_append_left _ hr'
      have hle : max c (t.broker.changelog p).low ≤ r'.offset := by
        simpa using (List.mem_filter.1 hmem).2
      have hn : n ≤ max c (t.broker.changelog p).low := by
        obtain hn | hn := hn
        · cases hcheckpoint.symm.trans hn
          exact Nat.le_max_left _ _
        · exact hclaim n hn
      omega

end Rebuilding

/-- Of the store, only the partitions `ps` changed; nothing was produced. -/
structure Confined (ps : List Nat) (t u : World) : Prop where
  broker_eq : u.broker = t.broker
  producer_eq : u.producer = t.producer
  crashIn_eq : t.crashIn = none → u.crashIn = none
  checkpoint_ne : ∀ j, j ∉ ps → u.store.checkpoint j = t.store.checkpoint j
  position_ne : ∀ j, j ∉ ps → u.store.position j = t.store.position j

theorem Confined.refl : Confined [] t t := ⟨rfl, rfl, id, fun _ _ => rfl, fun _ _ => rfl⟩

theorem Confined.concat {ps : List Nat} {v : World} (h : Confined ps t u) (h' : Confined [p] u v) :
    Confined (ps ++ [p]) t v := by
  have hnot : ∀ j, j ∉ ps ++ [p] → j ∉ ps ∧ j ∉ [p] := fun j hj => by
    rw [List.mem_append, not_or] at hj
    exact hj
  refine ⟨h'.broker_eq.trans h.broker_eq, h'.producer_eq.trans h.producer_eq,
    fun ht => h'.crashIn_eq (h.crashIn_eq ht), fun j hj => ?_, fun j hj => ?_⟩
  · exact (h'.checkpoint_ne j (hnot j hj).2).trans (h.checkpoint_ne j (hnot j hj).1)
  · exact (h'.position_ne j (hnot j hj).2).trans (h.position_ne j (hnot j hj).1)

theorem Confined.awaiting_eq {ps : List Nat} (h : Confined ps t u) (j : Nat) :
    awaiting u j = awaiting t j := by
  unfold awaiting
  rw [h.producer_eq]

theorem Confined.unclaimed {ps : List Nat} {d' : Deployment} (h : Confined ps t u) (hp : p ∉ ps)
    (hclaim : Unclaimed d' t p) : Unclaimed d' u p := by
  have hkept : keptCheckpoint d' u.store p = keptCheckpoint d' t.store p := by
    unfold keptCheckpoint
    rw [h.checkpoint_ne p hp]
  unfold Unclaimed
  rw [hkept, h.broker_eq, h.position_ne p hp, h.checkpoint_ne p hp]
  exact hclaim

theorem Rebuilding.confined {T : Table} {done : List (LogRecord String Row)} {s : LocalStore}
    {n : Option Nat} (hs : Rebuilding p T done t.store s) (hn : t.crashIn = none → n = none)
    (position : Option Nat) : Confined [p] t { t with
      store := { s with position := Function.update s.position p position }, crashIn := n } := by
  refine ⟨rfl, rfl, hn, fun j _ => by rw [hs.checkpoint_eq], fun j hj => ?_⟩
  change Function.update s.position p position j = _
  rw [Function.update_of_ne (List.ne_of_not_mem_cons hj), hs.position_eq]

/-- One partition of a restore that is careful with it. -/
theorem wp_restoreOne_truth {d' : Deployment} (h : Truth d x op t) (hidle : awaiting t p = [])
    (hclaim : Unclaimed d' t p ∨ Sound env t ∧ env.reader p = {} ∧ (t.broker.changelog p).LastKept) :
    wp (LocalStateStore.restoreOne d' groupId env p)
      (fun _ u => Truth d x op u ∧ Confined [p] t u) (fun _ => Truth d x op) t := by
  have hsafe : wp (LocalStateStore.restoreOne d' groupId env p)
      (fun _ u => Truth d x op u ∧ ((t.crashIn = none → u.crashIn = none) → Confined [p] t u))
      (fun _ u => Unclaimed d' t p → Truth d x op u) t := by
    refine wp_restoreOne_each (fun _ n s hs _ => ?_) (fun _ n s done rest hdone hs hu => ?_)
      fun n s _ hs => ⟨?_, fun hn => hs.confined hn _⟩
    · refine stable_truth.crashIn _ n (h.same_rows (p := p) (funext fun j => ?_) hs.position_eq
        (fun j _ => by rw [hs.checkpoint_eq]) (.inl (by rw [hs.checkpoint_eq])))
      obtain rfl | hj := eq_or_ne j p
      · exact hs.table_eq
      · exact hs.table_ne j hj
    · exact stable_truth.crashIn _ n (h.cutShort hs hdone hidle hu)
    · exact stable_truth.crashIn _ n (h.caughtUp hs hidle)
  have hcomplete : wp (LocalStateStore.restoreOne d' groupId env p) (fun _ _ => True)
      (fun _ _ => Unclaimed d' t p) t := by
    obtain hclaim | ⟨hsound, hreader, hkept⟩ := hclaim
    · exact wp_of_forall (fun _ _ => trivial) fun _ _ => hclaim
    · exact wp_mono (wp_restoreOne_complete hsound hreader hkept) (fun _ _ h => h) fun _ _ he => he.elim
  have hliving : wp (LocalStateStore.restoreOne d' groupId env p)
      (fun _ u => t.crashIn = none → u.crashIn = none) (fun _ _ => True) t := by
    by_cases halive : t.crashIn = none
    · exact wp_mono (wp_restoreOne_living halive) (fun _ _ hu _ => hu) fun _ _ he => he
    · exact wp_of_forall (fun _ _ hu => absurd hu halive) fun _ _ => trivial
  refine wp_mono (wp_and (wp_and hsafe hcomplete) hliving) (fun _ u hu => ?_) fun _ u he => ?_
  · exact ⟨hu.1.1.1, hu.1.1.2 hu.2⟩
  · exact he.1.1 he.1.2

theorem wp_restore_truth {d' : Deployment} {ps : List Nat} (h : Truth d x op t)
    (hcareful : ∀ p ∈ ps, awaiting t p = [] ∧ (Unclaimed d' t p ∨ t.crashIn = none ∧
      (∀ op, env.engine op = none) ∧ env.reader p = {} ∧ (t.broker.changelog p).LastKept)) :
    wp (LocalStateStore.restore d' groupId env ps) (fun _ => Truth d x op) (fun _ => Truth d x op)
      t := by
  simp only [LocalStateStore.restore, wp_bind, wp_record]
  suffices hall : wp ((sortedSet ps).forM (LocalStateStore.restoreOne d' groupId env))
      (fun _ u => Truth d x op u ∧ Confined (sortedSet ps) t u) (fun _ => Truth d x op)
      { t with trace := t.trace ++ [.restore ps] } from
    wp_mono hall (fun _ _ hu => hu.1) fun _ _ he => he
  refine wp_forM_prefix (I := fun pre u => Truth d x op u ∧ Confined pre t u)
    ⟨h.recorded _, rfl, rfl, id, fun _ _ => rfl, fun _ _ => rfl⟩
    fun pre p post heq u hu => ?_
  obtain ⟨hmem, hp⟩ := sortedSet_next heq
  obtain ⟨hidle, hclaim⟩ := hcareful p hmem
  refine wp_mono (wp_restoreOne_truth hu.1 ((hu.2.awaiting_eq p).trans hidle) ?_)
    (fun _ v hv => ⟨hv.1, hu.2.concat hv.2⟩) fun _ _ he => he
  obtain hclaim | ⟨halive, hengine, hreader, hkept⟩ := hclaim
  · exact .inl (hu.2.unclaimed hp hclaim)
  · refine .inr ⟨⟨hu.2.crashIn_eq halive, hengine⟩, hreader, ?_⟩
    rw [hu.2.broker_eq]
    exact hkept

/-! ## Discarding -/

/-- A partition of which nothing is claimed may hold anything. -/
theorem Truth.unclaim (h : Truth d x op t) {s : LocalStore}
    (htable : ∀ j, j ≠ p → s.table j = t.store.table j) (hidle : awaiting t p = [])
    (hcheckpoint : s.checkpoint = Function.update t.store.checkpoint p none)
    (hposition : s.position = Function.update t.store.position p none) :
    Truth d x op { t with store := s } := by
  refine h.store (p := p) htable (fun j hj => by rw [hcheckpoint, Function.update_of_ne hj])
    (fun j hj => by rw [hposition, Function.update_of_ne hj]) (fun c hc => ?_) (fun n hn => ?_)
    fun e he => ?_
  · rw [hcheckpoint, Function.update_self] at hc
    cases hc
  · rw [hposition, Function.update_self] at hn
    cases hn
  · rw [hidle] at he
    cases he

/-- The directory stays, and only its checkpoint claims something. -/
theorem Truth.unposition (h : Truth d x op t) {s : LocalStore} (htable : s.table = t.store.table)
    (hidle : awaiting t p = []) (hcheckpoint : s.checkpoint = t.store.checkpoint)
    (hposition : s.position = Function.update t.store.position p none) :
    Truth d x op { t with store := s } := by
  refine h.store (p := p) (fun j _ => by rw [htable]) (fun j _ => by rw [hcheckpoint])
    (fun j hj => by rw [hposition, Function.update_of_ne hj]) (fun c hc => ?_) (fun n hn => ?_)
    fun e he => ?_
  · rw [hcheckpoint] at hc
    have htrue := h.honest.checkpoint p c hc
    exact ⟨htrue.1, fun r hr hlt => (htrue.2 r hr hlt).of_row (fun _ h => h) (by rw [htable])⟩
  · rw [hposition, Function.update_self] at hn
    cases hn
  · rw [hidle] at he
    cases he

/-- One partition of a discard that is careful with it. -/
theorem wp_discardOne_truth (h : Truth d x op t) (hidle : awaiting t p = [])
    (hcareful : t.store.checkpoint p = none ∨ t.crashIn = none ∧ env.engine .unlink = none) :
    wp (LocalStateStore.discardOne env p) (fun _ u => Truth d x op u ∧ Confined [p] t u)
      (fun _ => Truth d x op) t := by
  let closed : LocalStore := { t.store with
    stores := t.store.stores.filter (· ≠ p)
    position := Function.update t.store.position p none }
  have hclosed : Truth d x op { t with store := closed } := h.unposition rfl hidle rfl rfl
  have herased : ∀ j, j ≠ p → ({ closed with disk := Function.update t.store.disk p none } :
      LocalStore).table j = t.store.table j := fun j hj => by simp [LocalStore.table, hj]
  have hempty : t.store.checkpoint p = none → ∀ n : Option Nat, Truth d x op { t with
      store := { closed with disk := Function.update t.store.disk p none }, crashIn := n } := by
    intro hnone n
    refine stable_truth.crashIn _ n (h.unclaim herased hidle ?_ rfl)
    rw [← hnone, Function.update_eq_self]
  have hgone : Truth d x op { t with store := { closed with
      disk := Function.update t.store.disk p none
      checkpoint := Function.update t.store.checkpoint p none } } :=
    h.unclaim herased hidle rfl rfl
  have hconfined : ∀ n : Option Nat, (t.crashIn = none → n = none) → Confined [p] t { t with
      store := { closed with
        disk := Function.update t.store.disk p none
        checkpoint := Function.update t.store.checkpoint p none }, crashIn := n } := by
    intro n hn
    refine ⟨rfl, rfl, hn, fun j hj => ?_, fun j hj => ?_⟩
    · exact Function.update_of_ne (List.ne_of_not_mem_cons hj) _ _
    · exact Function.update_of_ne (List.ne_of_not_mem_cons hj) _ _
  simp only [LocalStateStore.discardOne, wp_bind, wp_modify, wp_get]
  split
  · exact hclosed
  simp only [wp_bind, wp_modify]
  obtain halive | hdies := eq_or_ne t.crashIn none
  · refine wp_engine_living halive (fun _ => hclosed) ?_
    obtain hnone | ⟨-, hunlink⟩ := hcareful
    · exact wp_engine_living halive (fun _ => hempty hnone _) ⟨hgone, hconfined t.crashIn id⟩
    · refine (wp_engine_alive (by exact halive) hunlink).2 ?_
      exact ⟨hgone, hconfined t.crashIn id⟩
  · have hnone := hcareful.resolve_right fun hc => hdies hc.1
    refine wp_engine (fun _ n => stable_truth.crashIn _ n hclosed) fun n => ?_
    refine wp_engine (fun _ n => hempty hnone n) fun n => ?_
    exact ⟨stable_truth.crashIn _ n hgone, hconfined n fun halive => absurd halive hdies⟩

theorem wp_discard_truth {ps : List Nat} (h : Truth d x op t)
    (hcareful : ∀ p ∈ ps, awaiting t p = [] ∧
      (t.store.checkpoint p = none ∨ t.crashIn = none ∧ env.engine .unlink = none)) :
    wp (LocalStateStore.discard env ps) (fun _ => Truth d x op) (fun _ => Truth d x op) t := by
  simp only [LocalStateStore.discard, wp_bind, wp_record]
  suffices hall : wp ((sortedSet ps).forM (LocalStateStore.discardOne env))
      (fun _ u => Truth d x op u ∧ Confined (sortedSet ps) t u) (fun _ => Truth d x op)
      { t with trace := t.trace ++ [.discard ps] } from
    wp_mono hall (fun _ _ hu => hu.1) fun _ _ he => he
  refine wp_forM_prefix (I := fun pre u => Truth d x op u ∧ Confined pre t u)
    ⟨h.recorded _, rfl, rfl, id, fun _ _ => rfl, fun _ _ => rfl⟩
    fun pre p post heq u hu => ?_
  obtain ⟨hmem, hp⟩ := sortedSet_next heq
  obtain ⟨hidle, hcareful⟩ := hcareful p hmem
  refine wp_mono (wp_discardOne_truth hu.1 ((hu.2.awaiting_eq p).trans hidle) ?_)
    (fun _ v hv => ⟨hv.1, hu.2.concat hv.2⟩) fun _ _ he => he
  rw [hu.2.checkpoint_ne p hp]
  exact hcareful.imp_right fun hc => ⟨hu.2.crashIn_eq hc.1, hc.2⟩

end Truth

/-! ## What a changelog sees from elsewhere -/

section Elsewhere

variable {x : StoreHistory} {p : Nat}

/-- The log of `p` becomes one whose records below the old end were there, and are all seen. -/
theorem Honest.setLog (h : Honest d x) {op : DiskOp} {log : KeyedLog String Row}
    (hhigh : (x.world.broker.changelog p).high ≤ log.high)
    (hold : ∀ r ∈ log.records, r.offset < (x.world.broker.changelog p).high →
      r ∈ (x.world.broker.changelog p).records)
    (hidle : ∀ i, ∀ e ∈ awaiting x.world i, op.overtakes i e.1 = false)
    (hpast : awaiting x.world p = [] ∨ log.high = (x.world.broker.changelog p).high) :
    Honest d (x.observe op (x.world.setLog p log)) := by
  have hchangelog : ∀ i, (x.world.setLog p log).broker.changelog i =
      if i = p then log else x.world.broker.changelog i := fun i => Function.update_apply _ _ _ _
  have hle : ∀ i, (x.world.broker.changelog i).high ≤
      ((x.world.setLog p log).broker.changelog i).high := by
    intro i
    rw [hchangelog]
    split
    · subst i
      exact hhigh
    · exact Nat.le_refl _
  have hrecords : ∀ i, ∀ r ∈ ((x.world.setLog p log).broker.changelog i).records,
      r.offset < (x.world.broker.changelog i).high → r ∈ (x.world.broker.changelog i).records := by
    intro i r hr hlt
    rw [hchangelog] at hr
    split at hr
    · subst i
      exact hold r hr hlt
    · exact hr
  have hreflects : ∀ i n, n ≤ (x.world.broker.changelog i).high → x.Reflects i n →
      (x.observe op (x.world.setLog p log)).Reflects i n := by
    intro i n hn htrue r hr hlt
    have hbelow : r.offset < (x.world.broker.changelog i).high := Nat.lt_of_lt_of_le hlt hn
    exact (htrue r (hrecords i r hr hbelow) hlt).observe hbelow
      (fun r hr => mem_seen_observe.2 (.inl hr)) rfl
  refine ⟨h.txn_eq, fun i r hr => ?_, fun i c hc => ?_, fun i n hn => ?_, fun i e he => ?_⟩
  · rw [mem_seen_observe]
    by_cases hlt : r.offset < (x.world.broker.changelog i).high
    · exact .inl (h.mem_seen i r (hrecords i r hr hlt))
    · exact .inr ⟨hr, Nat.le_of_not_lt hlt⟩
  · have htrue := h.checkpoint i c hc
    exact ⟨Nat.le_trans htrue.1 (hle i), hreflects i c htrue.1 htrue.2⟩
  · have htrue := h.position i n hn
    exact ⟨Nat.le_trans htrue.1 (hle i), hreflects i n htrue.1 htrue.2⟩
  · obtain ⟨hpart, hstored, hpastAll⟩ := h.awaited i e he
    refine ⟨hpart, hstored.imp_left (originAfter_eq (hidle i e he)), fun r hr => ?_⟩
    have hbound := (((x.world.setLog p log).broker.changelog i).bounded r hr).2
    have hsame : ((x.world.setLog p log).broker.changelog i).high =
        (x.world.broker.changelog i).high := by
      rw [hchangelog]
      by_cases hi : i = p
      · rw [if_pos hi, hi]
        refine hpast.resolve_left fun hnone => ?_
        have he : e ∈ awaiting x.world p := hi ▸ he
        rw [hnone] at he
        cases he
      · rw [if_neg hi]
    exact hpastAll r (hrecords i r hr (hsame ▸ hbound))

theorem Honest.others (h : Honest d x) {es : List (Entry String Row)} (hidle : awaiting x.world p = []) :
    Honest d (x.observe (.others p es) (x.world.setLog p
      (es.foldl KeyedLog.append (x.world.broker.changelog p)))) := by
  refine h.setLog (high_le_appends _ es) (fun _ hr hlt => mem_of_mem_appends hr hlt) (fun i e he => ?_)
    (.inl hidle)
  have hne : p ≠ i := by
    intro hi
    rw [← hi, hidle] at he
    cases he
  simp [DiskOp.overtakes, hne]

theorem Honest.clean (h : Honest d x) {log : KeyedLog String Row}
    (hlog : Compacted (x.world.broker.changelog p) log) :
    Honest d (x.observe (.clean p log) (x.world.setLog p log)) :=
  h.setLog (Nat.le_of_eq hlog.high_eq.symm) (fun _ hr _ => hlog.cleans.sublist.subset hr)
    (fun _ _ _ => rfl) (.inr hlog.high_eq)

end Elsewhere

/-! ## Runs -/

section Runs

variable {x : StoreHistory}

/-- Whatever a call came to, it was honest. -/
theorem wp_call_honest (l : Env × DiskOp) (h : Honest d x) (hl : DiskOp.Careful d x.world l) :
    wp (DiskOp.call d groupId l) (fun _ t => Honest d (x.observe l.2 t))
      (fun _ t => Honest d (x.observe l.2 t) ∧
        Honest d (x.observe l.2 (ServiceConsumer.restart t))) x.world := by
  obtain ⟨env, op⟩ := l
  -- the operations of the process itself
  have hown : ∀ {y : M Unit}, (∀ p, ∀ e ∈ awaiting x.world p, op.overtakes p e.1 = false) →
      (Truth d x op { x.world with crashIn := env.crashIn } →
        wp y (fun _ => Truth d x op) (fun _ => Truth d x op) { x.world with crashIn := env.crashIn }) →
      wp y (fun _ t => Honest d (x.observe op t))
        (fun _ t => Honest d (x.observe op t) ∧ Honest d (x.observe op (ServiceConsumer.restart t)))
        { x.world with crashIn := env.crashIn } := fun hno hy =>
    wp_mono (hy (stable_truth.crashIn _ _ (h.truth hno))) (fun _ _ ht => ht.honest)
      fun _ _ ht => ⟨ht.honest, ht.restart.honest⟩
  have hwrites : ∀ {p k}, d.partitionOf k = p → (∀ q j, op.overtakes q j = decide (p ≠ q ∧ k = j)) →
      ∀ q, ∀ e ∈ awaiting x.world q, op.overtakes q e.1 = false := by
    intro p k hpart hovertakes q e he
    rw [hovertakes, decide_eq_false]
    rintro ⟨hne, rfl⟩
    exact hne (hpart.symm.trans (h.awaited q e he).1)
  simp only [DiskOp.call, wp_bind, wp_modify]
  cases op with
  | start => exact hown (fun _ _ _ => rfl) fun ht => ht.restart
  | restore rebuild ps =>
    refine hown (fun _ _ _ => rfl) fun ht => wp_restore_truth ht fun p hp => ?_
    exact hl p hp
  | load p k =>
    refine hown (fun _ _ _ => rfl) fun ht => ?_
    simp only [DiskOp.run, wp_bind, wp_pure]
    exact stable_truth.load (fun _ _ ht hs => ht.opened hs) ht
  | save p k fold eventId =>
    refine hown (hwrites hl.1 fun _ _ => rfl) fun ht => ?_
    simp only [DiskOp.run, wp_bind, wp_pure]
    exact wp_save_truth ht rfl (by simp [DiskOp.writes]) hl.1 hl.2
  | delete p k =>
    refine hown (hwrites hl.1 fun _ _ => rfl) fun ht => ?_
    simp only [DiskOp.run, wp_bind, wp_pure]
    exact wp_delete_truth ht rfl (by simp [DiskOp.writes]) hl.1 hl.2
  | flush => exact hown (fun _ _ _ => rfl) fun ht => stable_truth.storeFlush ht
  | forget ps => exact hown (fun _ _ _ => rfl) fun ht => wp_forget_truth ht
  | discard ps => exact hown (fun _ _ _ => rfl) fun ht => wp_discard_truth ht hl
  | close =>
    refine hown (fun _ _ _ => rfl) fun ht => ?_
    simp only [DiskOp.run, LocalStateStore.close, wp_bind, wp_get]
    exact wp_forget_truth ht
  | others p es =>
    have hothers : Honest d (x.observe (.others p es) _) := h.others hl
    exact ⟨hothers.txn_eq, hothers.mem_seen, hothers.checkpoint, hothers.position, hothers.awaited⟩
  | clean p log =>
    have hclean := h.clean hl
    exact ⟨hclean.txn_eq, hclean.mem_seen, hclean.checkpoint, hclean.position, hclean.awaited⟩

/-- **One operation**, with the process started again if it died. -/
theorem wp_step_honest (l : Env × DiskOp) (h : Honest d x) (hl : DiskOp.Careful d x.world l) :
    wp (StoreHistory.step d groupId l) (fun _ => Honest d) (fun _ _ => False) x := by
  have hstep : wp (DiskOp.step d groupId l) (fun _ t => Honest d (x.observe l.2 t))
      (fun _ _ => False) x.world := by
    simp only [DiskOp.step, wp_tryCatch]
    refine wp_mono (wp_call_honest l h hl) (fun _ _ ht => ht) fun e t ht => ?_
    cases e with
    | crash => exact ht.2
    | _ => exact ht.1
  unfold StoreHistory.step
  rw [wp_modify]
  obtain ⟨hok, herr⟩ := wp_iff_forall.1 hstep
  rcases hexec : (DiskOp.step d groupId l).exec x.world with ⟨e | ⟨⟩, t⟩
  · exact (herr e t hexec).elim
  · exact hok ⟨⟩ t hexec

theorem honest_start (b : Broker) : Honest d (.start b) := by
  refine ⟨rfl, fun p r hr => hr, fun p c hc => ?_, fun p n hn => ?_, fun p e he => ?_⟩
  · cases hc
  · cases hn
  · cases he

/-- **A checkpoint on disk never lies**, over any run of careful operations. -/
theorem checkpoints_true (d : Deployment) (groupId : String) (b : Broker) (ls : List (Env × DiskOp))
    (hl : Along (StoreHistory.step d groupId) (fun x l => DiskOp.Careful d x.world l) ls (.start b)) :
    Throughout (StoreHistory.step d groupId) StoreHistory.CheckpointsTrue ls (.start b) :=
  throughout_of_invariant (I := Honest d) (fun _ l hI hG => wp_step_honest l hI hG)
    (fun _ hI p c hc => (hI.checkpoint p c hc).2) (honest_start b) hl

end Runs

/-! ## A checkpoint that outlives its directory -/

def oneStoreDeployment : Deployment := .onePartition {} fun _ => .invalid ""

/-- A changelog that holds the order `o`. -/
def foldedBroker : Broker where
  changelog _ := KeyedLog.empty.append ("o", some ⟨1, some .created, "e1", 1⟩)

/-- The order is folded once more, and the partition handed over. -/
def handedOver : List (Env × DiskOp) :=
  [({}, .restore .full [0]), ({}, .save 0 "o" { orderId := "o" } "e2"),
    ({ servedByFlush := [⟨LocalStateStore.topic oneStoreDeployment "g", 0⟩] }, .forget [0])]

theorem checkpoints_true_handedOver :
    let t := (handedOver.forM (StoreHistory.step oneStoreDeployment "g")).exec (.start foldedBroker)
    t.1 = .ok ⟨⟩ ∧ t.2.world.store.checkpoint 0 = some 2 ∧ t.2.CheckpointsTrue := by
  have hcareful : Along (StoreHistory.step oneStoreDeployment "g")
      (fun x l => DiskOp.Careful oneStoreDeployment x.world l) handedOver (.start foldedBroker) := by
    refine .cons (fun p _ => ⟨rfl, .inl ⟨rfl, rfl⟩⟩) (.cons ⟨rfl, fun r hr => ?_⟩ (.cons trivial trivial))
    rw [show r = _ from List.mem_singleton.1 hr]
    exact Nat.zero_lt_one
  have htrue := checkpoints_true oneStoreDeployment "g" foldedBroker handedOver hcareful
  have hrun := exec_eq_of_ok (x := handedOver.forM (StoreHistory.step oneStoreDeployment "g"))
    (s := .start foldedBroker) (by decide +kernel)
  exact ⟨congrArg Prod.fst hrun, by decide +kernel, htrue.last hrun⟩

/-- A full rebuild dies between erasing the directory and opening it again. -/
def diesErased : List (Env × DiskOp) :=
  [({}, .restore .full [0]), ({}, .forget [0]), ({ crashIn := some 1 }, .restore .full [0])]

/-- The checkpoint says that the directory has the order, which is gone. -/
theorem erased_directory_checkpointed :
    let t := (diesErased.forM (StoreHistory.step oneStoreDeployment "g")).exec (.start foldedBroker)
    t.1 = .ok ⟨⟩ ∧ t.2.world.store.checkpoint 0 = some 1 ∧ t.2.world.store.table 0 "o" = none ∧
      ¬ t.2.CheckpointsTrue := by
  refine ⟨rfl, rfl, rfl, fun htrue => ?_⟩
  obtain hcovers | ⟨r, hr, -, -, hvalue⟩ :=
    htrue 0 1 rfl ⟨0, "o", some ⟨1, some .created, "e1", 1⟩⟩ (.head _) Nat.zero_lt_one
  · exact hcovers
  · rw [show r = _ from List.mem_singleton.1 hr] at hvalue
    cases hvalue

end OrderService
