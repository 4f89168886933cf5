import OrderService.Proof.Store

/-!
# What was written to a changelog partition

`written b p i`: the visible records of changelog partition `i` and then those still to become
visible, whether they wait for a delivery report or in an open transaction. Serving delivery reports
and committing a transaction move records from the second part to the first; only a publication
makes it longer (`Published.written`) and only an abort shorter.
-/

namespace OrderService

open KeyedLog

variable {d : Deployment} {b b' : Broker} {p p' : ProducerState} {q : Queued} {i : Nat}

/-- Every record the producer still holds. -/
def ProducerState.records (p : ProducerState) : List Queued :=
  p.queue ++ (p.txn.map (·.records)).getD []

/-- What partition `i` will hold once the producer's records are visible. -/
def written (b : Broker) (p : ProducerState) (i : Nat) : List (Entry String Row) :=
  (b.changelog i).entries ++ entriesOn i p.records

theorem ProducerState.records_enqueue (p : ProducerState) (q : Queued) :
    (p.enqueue q).records = p.records ++ [q] := by
  unfold ProducerState.enqueue ProducerState.records
  rcases h : p.txn with _ | t
  · simp
  · simp

@[simp] theorem entries_foldl_append (l : KeyedLog String Row) (es : List (Entry String Row)) :
    (es.foldl KeyedLog.append l).entries = l.entries ++ es := by
  induction es generalizing l with
  | nil => simp
  | cons e es ih => simp [ih]

/-! ## Lanes -/

/-- The changelog records among `qs` are all on topic `T`, and their delivery reports will carry no
error. -/
def FoldsOn (T : String) (qs : List Queued) : Prop :=
  ∀ q ∈ qs, q.isFold = true → q.topic = T ∧ q.fate = none

theorem FoldsOn.sublist {T : String} {qs rs : List Queued} (h : FoldsOn T qs) (hs : rs.Sublist qs) :
    FoldsOn T rs := fun q hq => h q (hs.subset hq)

theorem FoldsOn.concat {T : String} {qs : List Queued} (h : FoldsOn T qs)
    (hq : q.isFold = true → q.topic = T ∧ q.fate = none) : FoldsOn T (qs ++ [q]) := by
  intro r hr
  rcases List.mem_append.1 hr with hr | hr
  · exact h r hr
  · rw [List.mem_singleton.1 hr]
    exact hq

theorem payload_of_entryOn {e : Entry String Row} (h : q.entryOn i = some e) :
    q.payload = .fold e.1 e.2 ∧ q.partition = i := by
  unfold Queued.entryOn at h
  split at h
  · split at h
    · cases h
      exact ⟨‹_›, ‹_›⟩
    · cases h
  · cases h

theorem isFold_of_entryOn {e : Entry String Row} (h : q.entryOn i = some e) :
    q.isFold = true ∧ q.partition = i := by
  obtain ⟨hpayload, hpart⟩ := payload_of_entryOn h
  refine ⟨?_, hpart⟩
  unfold Queued.isFold
  rw [hpayload]

/-- A filter that drops no entry of a partition does not matter to it. -/
theorem entriesOn_filter {P : Queued → Bool} {qs : List Queued}
    (h : ∀ q ∈ qs, ∀ e, q.entryOn i = some e → P q = true) : entriesOn i (qs.filter P) = entriesOn i qs := by
  induction qs with
  | nil => rfl
  | cons q qs ih =>
    have ih := ih fun r hr => h r (.tail _ hr)
    by_cases hq : P q = true
    · rw [List.filter_cons_of_pos hq]
      simp only [entriesOn, List.filterMap_cons] at ih ⊢
      rw [ih]
    · rw [List.filter_cons_of_neg hq, ih]
      cases he : q.entryOn i with
      | none => simp [entriesOn, he]
      | some e => exact absurd (h q (.head _) e he) hq

/-- The entries for a partition are those of its lane. -/
theorem entriesOn_lane {T : String} {qs : List Queued} (h : FoldsOn T qs) :
    entriesOn i (qs.filter (·.lane = ⟨T, i⟩)) = entriesOn i qs := by
  refine entriesOn_filter fun q hq e he => ?_
  obtain ⟨hfold, hpart⟩ := isFold_of_entryOn he
  rw [decide_eq_true_eq, Queued.lane, (h q hq hfold).1, hpart]

/-- The reports of changelog records are all acknowledgements. -/
theorem entriesOn_acked {T : String} {qs : List Queued} (h : FoldsOn T qs) :
    entriesOn i (qs.filter (·.fate.isNone)) = entriesOn i qs := by
  refine entriesOn_filter fun q hq e he => ?_
  rw [(h q hq (isFold_of_entryOn he).1).2]
  rfl

/-! ## What each move does to what was written -/

theorem Served.foldsOn {T : String} {rs : List Queued} (h : Served b p rs b' p')
    (hp : FoldsOn T p.queue) : FoldsOn T p'.queue := hp.sublist h.sublist

/-- What left the queue and what is still in it are the records of a partition in their old order. -/
theorem Served.entriesOn {T : String} {rs : List Queued} (h : Served b p rs b' p')
    (hp : FoldsOn T p.queue) (i : Nat) : entriesOn i p.queue =
      entriesOn i (rs.filter (·.fate.isNone)) ++ entriesOn i p'.queue := by
  have hrs : FoldsOn T rs := fun q hq => hp q (h.reports_mem q hq)
  rw [entriesOn_acked hrs, ← entriesOn_lane hp, h.lane_eq, entriesOn_append, entriesOn_lane hrs,
    entriesOn_lane (h.foldsOn hp)]

theorem Served.written {T : String} {rs : List Queued} (h : Served b p rs b' p')
    (hp : FoldsOn T p.queue) (i : Nat) : written b' p' i = written b p i := by
  unfold OrderService.written ProducerState.records
  rw [h.changelog_eq, entries_foldl_append, h.txn_eq, entriesOn_append, entriesOn_append,
    h.entriesOn hp]
  simp only [List.append_assoc]

theorem written_enqueue (b : Broker) (p : ProducerState) (q : Queued) (i : Nat) :
    written b (p.enqueue q) i = written b p i ++ entriesOn i [q] := by
  unfold written
  rw [ProducerState.records_enqueue, entriesOn_append, List.append_assoc]

theorem foldsOn_enqueue {T : String} (hp : FoldsOn T p.queue)
    (hq : q.isFold = true → q.topic = T ∧ q.fate = none) : FoldsOn T (p.enqueue q).queue := by
  rw [ProducerState.queue_enqueue]
  split
  · exact hp
  · exact hp.concat hq

/-- **A publication adds its record and nothing else.** -/
theorem Published.written {T : String} {calls : List Call} (h : Published d q b p b' p' calls)
    (hp : FoldsOn T p.queue) (hq : q.isFold = true → q.topic = T ∧ q.fate = none) :
    FoldsOn T p'.queue ∧ ∀ i, written b' p' i = written b p i ++ entriesOn i [q] := by
  obtain ⟨rs₁, b₁, p₁, rs₂, h₁, -, h₂⟩ := h.served
  have hp₁ := h₁.foldsOn hp
  have hp₂ := foldsOn_enqueue hp₁ hq
  exact ⟨h₂.foldsOn hp₂, fun i => by rw [h₂.written hp₂, written_enqueue, h₁.written hp]⟩

/-- Under `exactly_once` a publication joins the transaction, and nothing is added to the queue. -/
theorem Published.queue_sublist {calls : List Call} (h : Published d q b p b' p' calls)
    (hx : d.settings.exactlyOnce = true) : p'.queue.Sublist p.queue := by
  obtain ⟨rs₁, b₁, p₁, rs₂, h₁, htxn, h₂⟩ := h.served
  have hopen : p₁.txn.isSome := Option.isSome_iff_ne_none.2 (htxn hx)
  have hqueue : (p₁.enqueue q).queue = p₁.queue := by
    rw [ProducerState.queue_enqueue, if_pos hopen]
  exact (hqueue ▸ h₂.sublist).trans h₁.sublist

theorem Committed.written {t : Transaction} (h : Committed b t b') (htxn : p.txn = some t)
    (hqueue : entriesOn i p.queue = []) :
    written b' { p with txn := none } i = written b p i := by
  unfold OrderService.written ProducerState.records
  rw [h.changelog_eq, entries_skip, entries_foldl_append, htxn]
  simp [hqueue]

theorem entriesOn_sublist {qs rs : List Queued} (h : rs.Sublist qs) :
    (entriesOn i rs).Sublist (entriesOn i qs) := h.filterMap _

theorem entriesOn_changelogRecord {groupId : String} {env : Env} {handling : MessageId} {k : String}
    {v : Option Row} : entriesOn i [LocalStateStore.changelogRecord d groupId env handling k v] =
      if d.partitionOf k = i then [(k, v)] else [] := by
  by_cases h : d.partitionOf k = i
  · simp [entriesOn, Queued.entryOn, LocalStateStore.changelogRecord, h]
  · simp [entriesOn, Queued.entryOn, LocalStateStore.changelogRecord, h]

end OrderService
