import OrderService.Consumer.StoreRun
import OrderService.Proof.Store

/-!
# What a flush vouches for

`LocalStateStore.flush` refuses when records are left in the producer's queue. A record whose delivery
report carries an error has left it, as an acknowledged one has, and `on_delivery` only logs the error:
when nothing is left, the flush returns, whatever the reports said (`flush_vouches`, `failure_flushed`).

`Tally` is what holds between the operations: a record taken by the producer was reported on or is
queued, and a report without an error is an acknowledgement.
-/

namespace OrderService

open Eff

variable {d : Deployment} {groupId : String} {env : Env} {w w₀ t : World}
variable {b b' : Broker} {p p' : ProducerState} {trace more : List Call} {rs : List Queued} {q : Queued}

/-! ## Records taken -/

/-- The records the producer took. -/
def taken (calls : List Call) : List Queued := calls.filterMap fun
  | .produce q true => some q
  | _ => none

@[simp] theorem taken_append (calls more : List Call) :
    taken (calls ++ more) = taken calls ++ taken more := List.filterMap_append

theorem taken_refused (h : ∀ c ∈ more, c = .produce q false) : taken more = [] := by
  unfold taken
  rw [List.filterMap_eq_nil_iff]
  intro c hc
  rw [h c hc]

/-- Delivery reports split the queue. -/
theorem Served.perm (h : Served b p rs b' p') : p.queue.Perm (rs ++ p'.queue) := by
  rw [List.perm_iff_count]
  intro q
  have hcount : ∀ qs : List Queued, qs.count q = (qs.filter (·.lane = q.lane)).count q := fun qs =>
    (List.count_filter (by simp)).symm
  rw [List.count_append, hcount p.queue, hcount rs, hcount p'.queue, h.lane_eq, List.count_append]

/-! ## The tally -/

/-- Since `w₀`: what was queued or taken was reported on or is queued, and acknowledged if its report
carried no error. -/
structure Tally (w₀ : World) (b : Broker) (p : ProducerState) (trace : List Call) : Prop where
  txn_eq : p.txn = none
  accounted : ∃ calls reports, trace = w₀.trace ++ calls ∧
    b.delivered = w₀.broker.delivered ++ reports.filter (·.fate.isNone) ∧
    (w₀.producer.queue ++ taken calls).Perm (reports ++ p.queue)

theorem Tally.start (htxn : w.producer.txn = none) : Tally w w.broker w.producer w.trace :=
  ⟨htxn, [], [], by simp, by simp, by simp [taken]⟩

theorem Tally.served (h : Tally w₀ b p trace) (hp : Served b p rs b' p') : Tally w₀ b' p' trace := by
  obtain ⟨calls, reports, htrace, hdelivered, hperm⟩ := h.accounted
  refine ⟨hp.txn_eq.trans h.txn_eq, calls, reports ++ rs, htrace, ?_, ?_⟩
  · rw [hp.delivered_eq, hdelivered, List.filter_append, List.append_assoc]
  · rw [List.append_assoc]
    exact hperm.trans (hp.perm.append_left reports)

theorem Tally.refused (h : Tally w₀ b p trace) (hmore : ∀ c ∈ more, c = .produce q false) :
    Tally w₀ b p (trace ++ more) := by
  obtain ⟨calls, reports, htrace, hdelivered, hperm⟩ := h.accounted
  refine ⟨h.txn_eq, calls ++ more, reports, ?_, hdelivered, ?_⟩
  · rw [htrace, List.append_assoc]
  · rw [taken_append, taken_refused hmore, List.append_nil]
    exact hperm

theorem Tally.enqueue (h : Tally w₀ b p trace) (q : Queued) :
    Tally w₀ b (p.enqueue q) (trace ++ [.produce q true]) := by
  obtain ⟨calls, reports, htrace, hdelivered, hperm⟩ := h.accounted
  have hqueue : (p.enqueue q).queue = p.queue ++ [q] := by
    rw [ProducerState.queue_enqueue, h.txn_eq]
    rfl
  refine ⟨?_, calls ++ [.produce q true], reports, ?_, hdelivered, ?_⟩
  · rw [ProducerState.txn_enqueue, h.txn_eq]
    rfl
  · rw [htrace, List.append_assoc]
  · rw [hqueue, taken_append, ← List.append_assoc, ← List.append_assoc]
    exact hperm.append_right [q]

theorem Tally.unpublished (h : Tally w₀ b p trace) (hp : Unpublished q b p b' p' more) :
    Tally w₀ b' p' (trace ++ more) := by
  obtain ⟨rs, hserved⟩ := hp.served
  exact (h.served hserved).refused hp.calls_eq

theorem Tally.published (h : Tally w₀ b p trace) (hp : Published d q b p b' p' more) :
    Tally w₀ b' p' (trace ++ more) := by
  obtain ⟨rs, b₁, p₁, rs', hbefore, -, hafter⟩ := hp.served
  obtain ⟨failed, hfailed, rfl⟩ := hp.calls_eq
  have hqueued := ((h.served hbefore).refused hfailed).enqueue q
  rw [List.append_assoc] at hqueued
  exact hqueued.served hafter

/-! ## Runs -/

/-- A write, or a flush. -/
def DiskOp.logs : DiskOp → Bool
  | .save .. | .delete .. | .flush => true
  | _ => false

theorem Tally.run {op : DiskOp} (hop : op.logs = true) (h : Tally w₀ w.broker w.producer w.trace) :
    wp (op.run d groupId env) (fun _ t => Tally w₀ t.broker t.producer t.trace)
      (fun _ t => Tally w₀ t.broker t.producer t.trace) w := by
  cases op with
  | save i k fold eventId =>
    simp only [DiskOp.run, wp_bind]
    exact wp_save rfl rfl (fun _ _ _ _ _ _ hp => h.unpublished hp)
      (fun _ _ _ _ _ hp => h.published hp) fun _ _ _ _ _ _ _ hp => h.published hp
  | delete i k =>
    simp only [DiskOp.run, wp_bind]
    exact wp_delete rfl (fun _ _ _ _ _ _ hp => h.unpublished hp)
      (fun _ _ _ _ _ hp => h.published hp) fun _ _ _ _ _ _ hp _ => h.published hp
  | flush =>
    simp only [DiskOp.run]
    exact wp_storeFlush h (fun _ _ _ _ _ _ hs => h.served hs) fun _ _ _ _ _ hs _ => h.served hs
  | _ => cases hop

/-- One operation keeps the tally, whatever it raises. -/
theorem Tally.attempt {l : Env × DiskOp} (hl : l.2.logs = true)
    (h : Tally w₀ w.broker w.producer w.trace) :
    wp (DiskOp.attempt d groupId l) (fun _ t => Tally w₀ t.broker t.producer t.trace)
      (fun _ _ => True) w := by
  simp only [DiskOp.attempt, wp_tryCatch, DiskOp.call, wp_bind, wp_modify]
  refine wp_mono (Tally.run hl h) (fun _ _ ht => ht) fun e t ht => ?_
  cases e with
  | crash => trivial
  | _ => exact ht

theorem Tally.attempts {ls : List (Env × DiskOp)} (hls : ∀ l ∈ ls, l.2.logs = true)
    (htxn : w.producer.txn = none) (hrun : (ls.forM (DiskOp.attempt d groupId)).exec w = (.ok ⟨⟩, t)) :
    Tally w t.broker t.producer t.trace := by
  have hall : wp (ls.forM (DiskOp.attempt d groupId))
      (fun _ t => Tally w t.broker t.producer t.trace) (fun _ _ => True) w :=
    wp_forM (I := fun t : World => Tally w t.broker t.producer t.trace) (Tally.start htxn)
      fun l hl _ ht => Tally.attempt (hls l hl) ht
  exact exec_of_wp hall hrun

/-! ## The flush -/

/-- The flush of `t` returns only if every record taken since `w` was acknowledged since `w`, and raises
nothing but its refusal. -/
def FlushVouches (d : Deployment) (groupId : String) (env : Env) (w t : World) : Prop :=
  wp (DiskOp.call d groupId (env, .flush))
    (fun _ u => (taken (t.trace.drop w.trace.length)).Subperm
      (u.broker.delivered.drop w.broker.delivered.length))
    (fun e _ => e = .crash ∨ ∃ text, e = .stateStoreUnavailable text) t

/-- With an empty queue, all records taken are acknowledged exactly if none of them failed. -/
theorem Tally.acked_iff (h : Tally w b p trace) (hempty : p.queue = []) :
    (taken (trace.drop w.trace.length)).Subperm (b.delivered.drop w.broker.delivered.length) ↔
      ∀ q ∈ taken (trace.drop w.trace.length), q.fate = none := by
  obtain ⟨calls, reports, rfl, hdelivered, hperm⟩ := h.accounted
  rw [hempty, List.append_nil] at hperm
  rw [hdelivered, List.drop_left, List.drop_left]
  constructor
  · intro hsub q hq
    have hacked := (List.mem_filter.1 (hsub.subset hq)).2
    exact Option.isNone_iff_eq_none.1 hacked
  · intro hfates
    have hall : (taken calls).filter (·.fate.isNone) = taken calls :=
      List.filter_eq_self.2 fun q hq => Option.isNone_iff_eq_none.2 (hfates q hq)
    have hacked := hperm.filter (·.fate.isNone)
    rw [List.filter_append, hall] at hacked
    exact (List.sublist_append_right _ _).subperm.trans hacked.subperm

/-- A flush that the process lives through serves the queue and looks at what is left of it. -/
theorem wp_call_flush (d : Deployment) (groupId : String) (hlives : env.crashIn ≠ some 0) (t : World) : ∃ n u,
    u = ({ t with crashIn := n } : World).serve env.servedByFlush ∧ ∀ R E,
      (wp (DiskOp.call d groupId (env, .flush)) R E t ↔
        (u.producer.queue ≠ [] → E (.stateStoreUnavailable
          s!"{u.producer.queue.length} changelog record(s) unacknowledged") u) ∧
        (u.producer.queue = [] → R ⟨⟩ u)) := by
  simp only [DiskOp.call, DiskOp.run, LocalStateStore.flush, OrderService.flush, tick, wp_bind,
    wp_modify, wp_get, wp_ite, wp_pure, wp_throw]
  rcases hcrash : env.crashIn with _ | _ | n
  · exact ⟨none, _, rfl, fun R E => by simp⟩
  · exact absurd hcrash hlives
  · exact ⟨some n, _, rfl, fun R E => by simp⟩

/-- **The flush vouches for the records taken exactly if none of them failed**, when it finds every
record reported on and the process lives to see it. -/
theorem flush_vouches (d : Deployment) (groupId : String) (ls : List (Env × DiskOp)) (env : Env)
    (w t : World) (hls : ∀ l ∈ ls, l.2.logs = true) (htxn : w.producer.txn = none)
    (hrun : (ls.forM (DiskOp.attempt d groupId)).exec w = (.ok ⟨⟩, t)) :
    FlushVouches d groupId env w t ↔ env.crashIn = some 0 ∨
      unreported t.producer.queue env.servedByFlush ≠ [] ∨
      ∀ q ∈ taken (t.trace.drop w.trace.length), q.fate = none := by
  have htally : Tally w t.broker t.producer t.trace := Tally.attempts hls htxn hrun
  by_cases hcrash : env.crashIn = some 0
  · refine iff_of_true ?_ (.inl hcrash)
    unfold FlushVouches
    simp [DiskOp.call, DiskOp.run, LocalStateStore.flush, OrderService.flush, tick, hcrash]
  · obtain ⟨n, u, hu, hflush⟩ := wp_call_flush d groupId hcrash t
    obtain ⟨rs, b, p, pos, hserved, heq⟩ := serve_eq { t with crashIn := n } env.servedByFlush
    have hqueue := serve_queue { t with crashIn := n } env.servedByFlush
    rw [← hu] at heq hqueue
    have hafter := htally.served hserved
    unfold FlushVouches
    rw [hflush, or_iff_right hcrash, ← hqueue]
    by_cases hempty : u.producer.queue = []
    · have hacked := hafter.acked_iff (by rw [heq] at hempty; exact hempty)
      rw [← show u.broker = b by rw [heq]] at hacked
      simp [hempty, hacked]
    · refine iff_of_true ⟨fun _ => .inr ⟨_, rfl⟩, fun h => absurd h hempty⟩ (.inl hempty)

/-! ## A failed record -/

def foldingDeployment : Deployment := .onePartition {} fun _ => .invalid ""

def foldingLane : TopicPartition := ⟨LocalStateStore.topic foldingDeployment "g", 0⟩

/-- An order is saved and deleted; the record of the save has the fate given, and its report comes with
the `poll(0)` of the delete. -/
def saveThenDelete (fate : Option String) : List (Env × DiskOp) :=
  [({ fate := fate }, .save 0 "o" { orderId := "o" } "e1"),
    ({ servedByPoll := [foldingLane] }, .delete 0 "o")]

/-- Both records are acknowledged, the second one in the flush. -/
theorem flush_vouches_saveThenDelete : ∃ t,
    ((saveThenDelete none).forM (DiskOp.attempt foldingDeployment "g")).exec {} = (.ok ⟨⟩, t) ∧
      (taken t.trace).length = 2 ∧ t.producer.queue.length = 1 ∧
      FlushVouches foldingDeployment "g" { servedByFlush := [foldingLane] } {} t := by
  refine ⟨_, exec_eq_of_ok (by decide +kernel), by decide +kernel, by decide +kernel, ?_⟩
  refine (flush_vouches foldingDeployment "g" (saveThenDelete none) { servedByFlush := [foldingLane] }
    {} _ (by decide) rfl (exec_eq_of_ok (by decide +kernel))).2 (.inr (.inr ?_))
  decide +kernel

/-- The record of the save fails for good; the flush returns, with nothing on the changelog but the
delete. -/
theorem failure_flushed : ∃ t u,
    ((saveThenDelete (some "MSG_TIMED_OUT")).forM (DiskOp.attempt foldingDeployment "g")).exec {} =
      (.ok ⟨⟩, t) ∧
    (DiskOp.call foldingDeployment "g" ({ servedByFlush := [foldingLane] }, .flush)).exec t =
      (.ok ⟨⟩, u) ∧
    (taken t.trace).length = 2 ∧ u.broker.delivered.length = 1 ∧
    ¬ FlushVouches foldingDeployment "g" { servedByFlush := [foldingLane] } {} t := by
  refine ⟨_, _, exec_eq_of_ok (by decide +kernel), exec_eq_of_ok (by decide +kernel),
    by decide +kernel, by decide +kernel, fun h => ?_⟩
  have hacked := (exec_of_wp h (exec_eq_of_ok (by decide +kernel))).length_le
  revert hacked
  decide +kernel

end OrderService
