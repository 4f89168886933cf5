import OrderService.Lib.Run
import OrderService.Proof.Changelog
import OrderService.Proof.Restore

/-!
# A store and its changelog keep the same table

One partition, one writer. `StoreOp.apply` is what a call means: a save and a delete change one row,
every other call leaves the table alone. `Mirror` relates that table to the code's two copies of it,
the directory and the changelog: each call keeps it (`wp_perform`), so each run does
(`store_mirrors_changelog`), and a rebuild from whatever compaction left of the changelog is that
table again.
-/

namespace OrderService

open Eff KeyedLog

variable {d : Deployment} {groupId : String} {i : Nat} {T : Table} {w : World}

/-- A call on the store of one partition, or what happens around it: delivery reports, the two ends
of a transaction, and the broker's cleaner, which leaves `log`. -/
inductive StoreOp where
  | save (orderId : String) (fold : OrderFold) (eventId : String)
  | delete (orderId : String)
  | forget
  | restore
  /-- `discard`, then `restore`, as `_abort_and_repair` calls them. -/
  | rebuild
  | poll
  | flush
  | beginTransaction
  | commitTransaction
  | compact (log : KeyedLog String Row)

namespace StoreOp

/-- The call on the table alone. -/
def apply (T : Table) : StoreOp → Table
  | save k fold eventId => Function.update T k (some (Row.next k (T k) fold eventId))
  | delete k => Function.update T k none
  | _ => T

/-- The call as the code makes it. -/
def perform (d : Deployment) (groupId : String) (i : Nat) (l : Env × StoreOp) : M Unit :=
  match l.2 with
  | save k fold eventId => do let _ ← LocalStateStore.save d groupId l.1 i k fold eventId
  | delete k => do let _ ← LocalStateStore.delete d groupId l.1 i k
  | forget => LocalStateStore.forget l.1 [i]
  | restore => LocalStateStore.restore d groupId l.1 [i]
  | rebuild => do
    LocalStateStore.discard l.1 [i]
    LocalStateStore.restore d groupId l.1 [i]
  | poll => pollProducer l.1
  | flush => LocalStateStore.flush l.1
  | beginTransaction => OrderService.beginTransaction l.1
  | commitTransaction => OrderService.commitTransaction l.1
  | compact log => modify fun w => { w with broker := { w.broker with
      changelog := Function.update w.broker.changelog i log } }

/-- What a run keeps to: the orders are this partition's, their records are acknowledged, all of them
before a restore; transactions are for `exactly_once`; the cleaner compacts. -/
def Allowed (d : Deployment) (i : Nat) (w : World) (l : Env × StoreOp) : Prop :=
  match l.2 with
  | save k .. | delete k => d.partitionOf k = i ∧ l.1.fate = none
  | restore | rebuild => entriesOn i w.producer.records = []
  | beginTransaction => d.settings.exactlyOnce = true
  | compact log => Compacted (w.broker.changelog i) log
  | _ => True

end StoreOp

/-- The directory of partition `i` holds `T`, and so does what was written to its changelog. -/
structure Mirror (d : Deployment) (groupId : String) (i : Nat) (T : Table) (w : World) : Prop where
  table_eq : w.store.table i = T
  replay_eq : replay (fun _ => none) (written w.broker w.producer i) = T
  foldsOn : FoldsOn (LocalStateStore.topic d groupId) w.producer.queue
  queue_eq : d.settings.exactlyOnce = true → entriesOn i w.producer.queue = []
  txn_eq : d.settings.exactlyOnce = false → w.producer.txn = none

/-- One write: the row in the directory, the record to the producer. -/
theorem Mirror.write {k : String} {v : Option Row} {env : Env} {s : LocalStore} {b : Broker}
    {p : ProducerState} {calls : List Call} (h : Mirror d groupId i T w)
    (hk : d.partitionOf k = i) (hfate : env.fate = none) (hs : Wrote i k v w.store s)
    (hp : Published d (LocalStateStore.changelogRecord d groupId env w.handling k v) w.broker
      w.producer b p calls) (n : Option Nat) (trace : List Call) :
    Mirror d groupId i (Function.update T k v) { w with
      broker := b, producer := p, store := s, crashIn := n, trace := trace } := by
  obtain ⟨hfolds, hwritten⟩ := hp.written h.foldsOn fun _ => ⟨rfl, hfate⟩
  refine ⟨?_, ?_, hfolds, fun hx => ?_, fun hx => ?_⟩
  · rw [← h.table_eq]
    exact hs.table_eq
  · change replay _ (written b p i) = _
    rw [hwritten, entriesOn_changelogRecord, if_pos hk, replay_concat, h.replay_eq]
  · have hsub := entriesOn_sublist (i := i) (hp.queue_sublist hx)
    rw [h.queue_eq hx] at hsub
    exact List.sublist_nil.1 hsub
  · change p.txn = none
    rw [hp.txn_eq, h.txn_eq hx]
    rfl

/-- Delivery reports change neither table. -/
theorem Mirror.served {b : Broker} {p : ProducerState} {rs : List Queued} {s : LocalStore}
    {n : Option Nat} (h : Mirror d groupId i T w) (hp : Served w.broker w.producer rs b p)
    (hs : s.table i = w.store.table i) :
    Mirror d groupId i T { w with broker := b, producer := p, store := s, crashIn := n } := by
  refine ⟨hs.trans h.table_eq, ?_, hp.foldsOn h.foldsOn, fun hx => ?_, fun hx => ?_⟩
  · change replay _ (written b p i) = T
    rw [hp.written h.foldsOn, h.replay_eq]
  · have hsub := entriesOn_sublist (i := i) hp.sublist
    rw [h.queue_eq hx] at hsub
    exact List.sublist_nil.1 hsub
  · change p.txn = none
    rw [hp.txn_eq, h.txn_eq hx]

/-- With nothing left to acknowledge the changelog alone holds the table. -/
theorem Mirror.changelog_eq (h : Mirror d groupId i T w)
    (hacked : entriesOn i w.producer.records = []) : (w.broker.changelog i).table = T := by
  have hreplay := h.replay_eq
  unfold written at hreplay
  rw [hacked, List.append_nil] at hreplay
  exact hreplay

theorem Mirror.restored {s : LocalStore} {n : Option Nat} {trace : List Call}
    (h : Mirror d groupId i T w) (hfull : d.settings.stateRebuild = .full)
    (hacked : entriesOn i w.producer.records = []) {s₀ : LocalStore}
    (hs : Restored d w.broker [i] s₀ s) :
    Mirror d groupId i T { w with store := s, crashIn := n, trace := trace } :=
  ⟨(hs.table_eq hfull i (.head _)).trans (h.changelog_eq hacked), h.replay_eq, h.foldsOn, h.queue_eq,
    h.txn_eq⟩

/-- **One call**: whatever it is, both copies of the table do what it means. -/
theorem wp_perform (hfull : d.settings.stateRebuild = .full) (l : Env × StoreOp)
    (h : Mirror d groupId i T w) (hl : StoreOp.Allowed d i w l) :
    wp (StoreOp.perform d groupId i l) (fun _ => Mirror d groupId i (StoreOp.apply T l.2))
      (fun _ _ => True) w := by
  obtain ⟨env, op⟩ := l
  cases op with
  | save k fold eventId =>
    obtain ⟨hk, hfate⟩ := hl
    simp only [StoreOp.perform, wp_bind]
    refine wp_save rfl rfl (fun _ _ _ _ _ _ _ => trivial) (fun _ _ _ _ _ _ => trivial) ?_
    intro _ n s b p calls hs hp
    have hwrote := h.write hk hfate hs hp n (w.trace ++ calls)
    rw [h.table_eq] at hwrote
    exact hwrote
  | delete k =>
    obtain ⟨hk, hfate⟩ := hl
    simp only [StoreOp.perform, wp_bind]
    refine wp_delete rfl (fun _ _ _ _ _ _ _ => trivial) (fun _ _ _ _ _ _ => trivial) ?_
    intro n s b p calls hs hp _
    exact h.write hk hfate hs hp n _
  | forget =>
    refine wp_forget (fun hnil => by cases hnil) trivial (fun _ _ _ _ _ _ _ => trivial) ?_
    intro n s rs b p hp hs
    exact h.served hp (hs.table_eq i)
  | restore =>
    exact wp_restore (fun _ _ _ => trivial) fun n s hs => h.restored hfull hl hs
  | rebuild =>
    simp only [StoreOp.perform, wp_bind]
    refine wp_discard (fun _ _ _ => trivial) fun n s _ => ?_
    exact wp_restore (fun _ _ _ => trivial) fun n s hs => h.restored hfull hl hs
  | poll =>
    refine wp_pollProducer trivial fun n rs b p pos hp _ => ?_
    exact h.served hp rfl
  | flush =>
    refine wp_storeFlush trivial (fun _ _ _ _ _ _ _ => trivial) fun n rs b p pos hp _ => ?_
    exact h.served hp rfl
  | beginTransaction =>
    refine wp_beginTransaction trivial (fun _ _ => trivial) fun n hnone => ?_
    refine ⟨h.table_eq, ?_, h.foldsOn, h.queue_eq, fun hx => ?_⟩
    · have hreplay := h.replay_eq
      unfold written ProducerState.records at hreplay ⊢
      rw [hnone] at hreplay
      exact hreplay
    · exact absurd (hx.symm.trans hl) Bool.false_ne_true
  | commitTransaction =>
    refine wp_commitTransaction trivial (fun _ _ _ => trivial) fun n t b pos htxn _ hb => ?_
    have hx : d.settings.exactlyOnce = true := by
      by_contra hx
      have hnone := h.txn_eq (by simpa using hx)
      rw [htxn] at hnone
      cases hnone
    refine ⟨h.table_eq, ?_, h.foldsOn, h.queue_eq, fun _ => rfl⟩
    change replay _ (written b { w.producer with txn := none } i) = T
    rw [hb.written htxn (h.queue_eq hx), h.replay_eq]
  | compact log =>
    refine ⟨h.table_eq, ?_, h.foldsOn, h.queue_eq, h.txn_eq⟩
    have hreplay := h.replay_eq
    unfold written at hreplay ⊢
    rw [replay_append] at hreplay ⊢
    change replay (Function.update w.broker.changelog i log i).table _ = T
    rw [Function.update_self, Compacted.table_eq hl]
    exact hreplay

/-- A producer that was just built, on a store that is up to date. -/
theorem Mirror.start (hproducer : w.producer = {})
    (htable : w.store.table i = (w.broker.changelog i).table) :
    Mirror d groupId i (w.store.table i) w where
  table_eq := rfl
  replay_eq := by
    unfold written
    rw [hproducer, htable, replay_append]
    rfl
  foldsOn := by
    rw [hproducer]
    intro q hq
    cases hq
  queue_eq _ := by rw [hproducer]; rfl
  txn_eq _ := by rw [hproducer]

/-- With nothing left to acknowledge, the last record kept and nothing going wrong, a rebuild returns
and leaves the table as it was. -/
theorem Mirror.restore_returns {env : Env} (h : Mirror d groupId i T w)
    (hfull : d.settings.stateRebuild = .full) (hacked : entriesOn i w.producer.records = [])
    (hkept : (w.broker.changelog i).LastKept) (hw : Sound env w) (hreader : env.reader i = {}) :
    wp (LocalStateStore.restore d groupId env [i]) (fun _ t => t.store.table i = T)
      (fun _ _ => False) w := by
  rw [← h.changelog_eq hacked]
  exact wp_restore_returns hfull hw hreader hkept

/-- What a run of calls means. -/
def StoreOp.applyAll (T : Table) (l : List (Env × StoreOp)) : Table :=
  l.foldl (fun T l => StoreOp.apply T l.2) T

/-- **Store and changelog refine the same table.** After any run that returns, the directory holds
what the saves and the deletes alone make of the table it began with; so does every log that
compaction may leave, followed by what is still to be acknowledged; `load` returns its folds; and once
all is acknowledged, a rebuild whose log kept its last record returns, if nothing goes wrong, and
leaves that table. -/
theorem store_mirrors_changelog (d : Deployment) (groupId : String) (i : Nat)
    (l : List (Env × StoreOp)) (w t : World) (hfull : d.settings.stateRebuild = .full)
    (hproducer : w.producer = {}) (htable : w.store.table i = (w.broker.changelog i).table)
    (hl : Along (StoreOp.perform d groupId i) (StoreOp.Allowed d i) l w)
    (hrun : (l.forM (StoreOp.perform d groupId i)).exec w = (.ok ⟨⟩, t)) :
    t.store.table i = StoreOp.applyAll (w.store.table i) l ∧
    (∀ log, Compacted (t.broker.changelog i) log →
      replay log.table (entriesOn i t.producer.records) =
        StoreOp.applyAll (w.store.table i) l) ∧
    (∀ env k, wp (LocalStateStore.load d groupId env i k)
      (fun fold _ => fold =
        (StoreOp.applyAll (w.store.table i) l k).map fun r => (r.decode k).fold)
      (fun _ _ => True) t) ∧
    ∀ env, entriesOn i t.producer.records = [] → (t.broker.changelog i).LastKept →
      Sound env t → env.reader i = {} →
      wp (LocalStateStore.restore d groupId env [i])
        (fun _ u => u.store.table i = StoreOp.applyAll (w.store.table i) l) (fun _ _ => False) t := by
  have hsim := wp_run_simulates (J := Mirror d groupId i) (fun T l => StoreOp.apply T l.2)
    (fun _ _ l h hl => wp_perform hfull l h hl) (.start hproducer htable) hl
  have hmirror : Mirror d groupId i (StoreOp.applyAll (w.store.table i) l) t := exec_of_wp hsim hrun
  refine ⟨hmirror.table_eq, fun log hlog => ?_, fun env k => ?_, fun env hacked hkept hw hreader => ?_⟩
  · rw [hlog.table_eq]
    have hreplay := hmirror.replay_eq
    unfold written at hreplay
    rwa [replay_append] at hreplay
  · refine wp_load (fun _ _ _ => trivial) fun n s _ => ?_
    rw [hmirror.table_eq]
  · exact hmirror.restore_returns hfull hacked hkept hw hreader

/-- What the cleaner leaves of two deliveries of one event. -/
def cleanedLog : KeyedLog String Row where
  low := 0
  high := 2
  records := [⟨1, "o", some ⟨1, some .created, "e1", 2⟩⟩]
  low_le := by decide
  sorted := by simp
  bounded := by simp

/-- An event delivered twice, acknowledged, cleaned up and rebuilt from. -/
def cleanedRun : List (Env × StoreOp) :=
  [({}, .save "o" ⟨"o", 1, some .created⟩ "e1"),
    ({ servedByPoll := [⟨"order-fold.g", 0⟩, ⟨"order-fold.g", 0⟩] },
      .save "o" ⟨"o", 1, some .created⟩ "e2"),
    ({}, .compact cleanedLog),
    ({}, .rebuild)]

theorem store_mirrors_changelog_cleaned : ∃ t : World,
    t.store.table 0 = StoreOp.applyAll (fun _ => none) cleanedRun ∧
      StoreOp.applyAll (fun _ => none) cleanedRun "o" = some ⟨1, some .created, "e1", 2⟩ := by
  let d : Deployment := .onePartition {} fun _ => .invalid ""
  have hclean : Along (StoreOp.perform d "g" 0) (StoreOp.Allowed d 0) cleanedRun {} := by
    refine .cons ⟨rfl, rfl⟩ (.cons ⟨rfl, rfl⟩ (.cons ?_ (.cons rfl trivial)))
    have hsuperseded : CleanStep
        [⟨0, "o", some ⟨1, some .created, "e1", 1⟩⟩, ⟨1, "o", some ⟨1, some .created, "e1", 2⟩⟩]
        [⟨1, "o", some (⟨1, some .created, "e1", 2⟩ : Row)⟩] :=
      .superseded [] _ _ ⟨_, .head _, rfl⟩
    exact ⟨.single hsuperseded, rfl, Nat.le_refl _⟩
  have hrun := exec_eq_of_ok (x := cleanedRun.forM (StoreOp.perform d "g" 0)) (s := {})
    (by decide +kernel)
  exact ⟨_, (store_mirrors_changelog d "g" 0 cleanedRun {} _ rfl rfl rfl hclean hrun).1,
    by decide +kernel⟩

end OrderService
