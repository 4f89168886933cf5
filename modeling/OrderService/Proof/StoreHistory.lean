import OrderService.Consumer.StoreRun
import OrderService.Lib.Run
import OrderService.Proof.Changelog
import OrderService.Proof.Invariance

/-!
# The history of a store

`StoreHistory` is the state of a store with two history variables, every record its changelog ever had
and where each row came from, from which `AsNew` tells whether a row is at least as new as a record.
`Honest`: neither the checkpoint nor the position of a partition claims more than its directory has. What
an operation keeps on its way is `Truth`, which delivery reports keep (`stable_truth`), and with them
every call that writes rows or hands a partition over.
-/

namespace OrderService

open Eff KeyedLog

variable {d : Deployment} {groupId : String} {env : Env}

/-! ## History -/

/-- Where a row came from: erased or read back; the store's own last write of the order; or that, with
a write from elsewhere at `offset` or later since. -/
inductive RowOrigin where
  | replayed
  | written
  | overtaken (offset : Nat)

/-- The row is newer than any record of its order at the offset `o`. -/
def RowOrigin.Covers (o : Nat) : RowOrigin → Prop
  | .replayed => False
  | .written => True
  | .overtaken offset => o < offset

/-- `seen`: every record that was ever in a changelog partition. -/
structure StoreHistory where
  world : World
  seen : Nat → List (LogRecord String Row)
  origin : Nat → String → RowOrigin

/-- The call writes the row of the order in this partition's directory. -/
def DiskOp.writes (p : Nat) (k : String) : DiskOp → Bool
  | .save q j _ _ | .delete q j => q = p ∧ j = k
  | _ => false

/-- The order is written, but not in this partition's directory. -/
def DiskOp.overtakes (p : Nat) (k : String) : DiskOp → Bool
  | .save q j _ _ | .delete q j => q ≠ p ∧ j = k
  | .others q es => q = p ∧ es.any (·.1 = k)
  | _ => false

namespace StoreHistory

variable (x : StoreHistory) (op : DiskOp)

/-- Where the row `v` of an order comes from after `op`. -/
def originAfter (p : Nat) (k : String) (v : Option Row) : RowOrigin :=
  if v = x.world.store.table p k then
    match x.origin p k with
    | .written => if op.overtakes p k then .overtaken (x.world.broker.changelog p).high else .written
    | origin => origin
  else if op.writes p k then .written else .replayed

/-- `op` led to `t`. -/
def observe (t : World) : StoreHistory where
  world := t
  seen p := x.seen p ++
    (t.broker.changelog p).records.filter ((x.world.broker.changelog p).high ≤ ·.offset)
  origin p k := x.originAfter op p k (t.store.table p k)

/-- The store's directory of `p` has a row of the order of `r` as new as `r`. -/
def AsNew (p : Nat) (r : LogRecord String Row) : Prop :=
  (x.origin p r.key).Covers r.offset ∨ ∃ r' ∈ x.seen p, r'.key = r.key ∧ r.offset ≤ r'.offset ∧
    x.world.store.table p r.key = r'.value

/-- The directory of `p` reflects every record of its changelog below `n`. -/
def Reflects (p n : Nat) : Prop :=
  ∀ r ∈ (x.world.broker.changelog p).records, r.offset < n → x.AsNew p r

/-- No checkpoint on disk lies. -/
def CheckpointsTrue : Prop := ∀ p c, x.world.store.checkpoint p = some c → x.Reflects p c

/-- An unused store; nothing is known of its rows. -/
def start (b : Broker) : StoreHistory where
  world := { broker := b }
  seen p := (b.changelog p).records
  origin _ _ := .replayed

end StoreHistory

/-- One operation on a tracked store. -/
def StoreHistory.step (d : Deployment) (groupId : String) (l : Env × DiskOp) : Eff StoreHistory Exn Unit :=
  modify fun x => x.observe l.2 ((DiskOp.step d groupId l).exec x.world).2

/-! ## The condition -/

/-- Everything the process has yet to see acknowledged for changelog partition `p`. -/
def awaiting (w : World) (p : Nat) : List (Entry String Row) := entriesOn p w.producer.queue

/-- The position of `p` is past every record of its changelog. -/
def PastAll (w : World) (p : Nat) : Prop :=
  ∀ r ∈ (w.broker.changelog p).records, r.offset < (w.store.position p).getD 0

/-- Nothing goes wrong while `p` is rebuilt. -/
def Completes (env : Env) (w : World) (p : Nat) : Prop :=
  env.crashIn = none ∧ (∀ op, env.engine op = none) ∧ env.reader p = {} ∧
    (w.broker.changelog p).LastKept

/-- What a rebuild of `p` undoes, neither the checkpoint nor the position claims. -/
def Unclaimed (d : Deployment) (w : World) (p : Nat) : Prop :=
  match keptCheckpoint d w.store p with
  | some c => ∀ n, w.store.position p = some n → n ≤ max c (w.broker.changelog p).low
  | none => w.store.checkpoint p = none ∧ w.store.position p = none

/-- A rebuild that undoes what the checkpoint or the position claims is not cut short, nor is a discard
between the directory and its checkpoint; neither they nor another member's records come while the
process awaits acknowledgements for the partition; an order is written to its own partition, by a
process whose position is past all its records; and the cleaner compacts. -/
def DiskOp.Careful (d : Deployment) (w : World) (l : Env × DiskOp) : Prop :=
  match l.2 with
  | .restore rebuild ps => ∀ p ∈ ps, awaiting w p = [] ∧
    (Unclaimed (d.rebuilding rebuild) w p ∨ Completes l.1 w p)
  | .save p k _ _ | .delete p k => d.partitionOf k = p ∧ PastAll w p
  | .discard ps => ∀ p ∈ ps, awaiting w p = [] ∧
    (w.store.checkpoint p = none ∨ l.1.crashIn = none ∧ l.1.engine .unlink = none)
  | .others p _ => awaiting w p = []
  | .clean p log => Compacted (w.broker.changelog p) log
  | _ => True

/-! ## The invariant -/

/-- The checkpoint and the position of a partition tell the truth, and what is in flight is already in
the directory, whose position is past all older records. -/
structure Honest (d : Deployment) (x : StoreHistory) : Prop where
  txn_eq : x.world.producer.txn = none
  mem_seen : ∀ p, ∀ r ∈ (x.world.broker.changelog p).records, r ∈ x.seen p
  checkpoint : ∀ p c, x.world.store.checkpoint p = some c →
    c ≤ (x.world.broker.changelog p).high ∧ x.Reflects p c
  position : ∀ p n, x.world.store.position p = some n →
    n ≤ (x.world.broker.changelog p).high ∧ x.Reflects p n
  awaited : ∀ p, ∀ e ∈ awaiting x.world p, d.partitionOf e.1 = p ∧
    (x.origin p e.1 = .written ∨ x.world.store.table p e.1 = e.2) ∧ PastAll x.world p

/-- What `op`, on its way from `x`, keeps. -/
structure Truth (d : Deployment) (x : StoreHistory) (op : DiskOp) (t : World) : Prop where
  honest : Honest d (x.observe op t)
  high_le : ∀ p, (x.world.broker.changelog p).high ≤ (t.broker.changelog p).high

section Truth

variable {x : StoreHistory} {op : DiskOp} {t u : World} {p : Nat}

theorem mem_seen_observe {r : LogRecord String Row} : r ∈ (x.observe op t).seen p ↔ r ∈ x.seen p ∨
    r ∈ (t.broker.changelog p).records ∧ (x.world.broker.changelog p).high ≤ r.offset := by
  simp [StoreHistory.observe]

/-- A row that stays is as new as before. -/
theorem StoreHistory.AsNew.of_row {r : LogRecord String Row} (h : (x.observe op t).AsNew p r)
    (hseen : ∀ r ∈ (x.observe op t).seen p, r ∈ (x.observe op u).seen p)
    (hrow : u.store.table p r.key = t.store.table p r.key) : (x.observe op u).AsNew p r := by
  obtain hcovers | ⟨r', hr', hkey, hle, hvalue⟩ := h
  · left
    change (x.originAfter op p r.key (u.store.table p r.key)).Covers r.offset
    rw [hrow]
    exact hcovers
  · exact .inr ⟨r', hseen r' hr', hkey, hle, hrow.trans hvalue⟩

/-- The queue shrinks. -/
theorem Truth.dequeue (h : Truth d x op t) {queue : List Queued}
    (hsub : ∀ q ∈ queue, q ∈ t.producer.queue) :
    Truth d x op { t with producer := { t.producer with queue := queue } } where
  honest := by
    refine ⟨h.honest.txn_eq, h.honest.mem_seen, h.honest.checkpoint, h.honest.position, fun p e he => ?_⟩
    obtain ⟨q, hq, hentry⟩ := List.mem_filterMap.1 he
    exact h.honest.awaited p e (List.mem_filterMap.2 ⟨q, hsub q hq, hentry⟩)
  high_le := h.high_le

/-- The record of `(k, v)` became visible in changelog partition `p`. -/
structure Acked (p : Nat) (k : String) (v : Option Row) (t u : World) : Prop where
  producer_eq : u.producer = t.producer
  changelog_eq : ∀ i, u.broker.changelog i =
    if i = p then (t.broker.changelog p).append (k, v) else t.broker.changelog i
  table_eq : u.store.table = t.store.table
  checkpoint_eq : u.store.checkpoint = t.store.checkpoint
  position_eq : ∀ i, u.store.position i =
    if i = p then some (max ((t.store.position p).getD 0) ((t.broker.changelog p).high + 1))
    else t.store.position i

section Acked

variable {k : String} {v : Option Row} {i : Nat} {r : LogRecord String Row}

theorem Acked.mem_records (h : Acked p k v t u) : r ∈ (u.broker.changelog i).records ↔
    r ∈ (t.broker.changelog i).records ∨ i = p ∧ r = ⟨(t.broker.changelog p).high, k, v⟩ := by
  rw [h.changelog_eq]
  by_cases hi : i = p
  · subst i
    simp [KeyedLog.append]
  · simp [hi]

theorem Acked.high_le (h : Acked p k v t u) (i : Nat) :
    (t.broker.changelog i).high ≤ (u.broker.changelog i).high := by
  rw [h.changelog_eq]
  split
  · subst i
    exact Nat.le_succ _
  · exact Nat.le_refl _

theorem Acked.asNew (h : Acked p k v t u) (hr : (x.observe op t).AsNew i r) :
    (x.observe op u).AsNew i r := by
  refine hr.of_row (fun r hr => ?_) (by rw [h.table_eq])
  rw [mem_seen_observe] at hr ⊢
  exact hr.imp_right fun hr => ⟨h.mem_records.2 (.inl hr.1), hr.2⟩

/-- Past all records stays past all records. -/
theorem Acked.pastAll (h : Acked p k v t u) (hpast : PastAll t i) : PastAll u i := by
  intro r hr
  rw [h.position_eq]
  obtain hr | ⟨rfl, rfl⟩ := h.mem_records.1 hr
  · have hlt := hpast r hr
    split
    · rename_i hi
      subst hi
      change r.offset < max _ _
      omega
    · exact hlt
  · rw [if_pos rfl]
    change (t.broker.changelog i).high < max _ _
    omega

/-- The record is one the directory reflects, and the position was past all older ones. -/
theorem Truth.acked (h : Truth d x op t) (hu : Acked p k v t u)
    (hrow : x.originAfter op p k (t.store.table p k) = .written ∨ t.store.table p k = v)
    (hpast : PastAll t p) : Truth d x op u := by
  have hhigh : ∀ i, (x.world.broker.changelog i).high ≤ (u.broker.changelog i).high := fun i =>
    Nat.le_trans (h.high_le i) (hu.high_le i)
  have hseen : (⟨(t.broker.changelog p).high, k, v⟩ : LogRecord String Row) ∈
      (x.observe op u).seen p :=
    mem_seen_observe.2 (.inr ⟨hu.mem_records.2 (.inr ⟨rfl, rfl⟩), h.high_le p⟩)
  have hrecord : (x.observe op u).AsNew p ⟨(t.broker.changelog p).high, k, v⟩ := by
    obtain hwritten | hvalue := hrow
    · left
      change (x.originAfter op p k (u.store.table p k)).Covers _
      rw [hu.table_eq, hwritten]
      trivial
    · refine .inr ⟨_, hseen, rfl, Nat.le_refl _, ?_⟩
      change u.store.table p k = v
      rw [hu.table_eq, hvalue]
  have hreflects : ∀ i n, (∀ r ∈ (t.broker.changelog i).records, r.offset < n →
      (x.observe op t).AsNew i r) → (x.observe op u).Reflects i n := by
    intro i n hn r hr hlt
    obtain hr | ⟨rfl, rfl⟩ := hu.mem_records.1 hr
    · exact hu.asNew (hn r hr hlt)
    · exact hrecord
  refine ⟨⟨?_, fun i r hr => ?_, fun i c hc => ?_, fun i n hn => ?_, fun i e he => ?_⟩, hhigh⟩
  · change u.producer.txn = none
    rw [hu.producer_eq]
    exact h.honest.txn_eq
  · obtain hr | ⟨rfl, rfl⟩ := hu.mem_records.1 hr
    · rw [mem_seen_observe]
      refine (mem_seen_observe.1 (h.honest.mem_seen i r hr)).imp_right fun hr => ?_
      exact ⟨hu.mem_records.2 (.inl hr.1), hr.2⟩
    · exact hseen
  · have hc : t.store.checkpoint i = some c := by
      rw [← hu.checkpoint_eq]
      exact hc
    have htrue := h.honest.checkpoint i c hc
    exact ⟨Nat.le_trans htrue.1 (hu.high_le i), hreflects i c htrue.2⟩
  · have hn : u.store.position i = some n := hn
    rw [hu.position_eq] at hn
    by_cases hi : i = p
    · subst i
      rw [if_pos rfl] at hn
      have hall : ∀ r ∈ (t.broker.changelog p).records, (x.observe op t).AsNew p r := by
        intro r hr
        have hlt := hpast r hr
        cases hpos : t.store.position p with
        | none => simp [hpos] at hlt
        | some m =>
          rw [hpos] at hlt
          exact (h.honest.position p m hpos).2 r hr hlt
      have hbelow : (t.store.position p).getD 0 ≤ (t.broker.changelog p).high := by
        cases hpos : t.store.position p with
        | none => exact Nat.zero_le _
        | some m => exact (h.honest.position p m hpos).1
      refine ⟨?_, hreflects p n fun r hr _ => hall r hr⟩
      change n ≤ (u.broker.changelog p).high
      rw [hu.changelog_eq, if_pos rfl]
      change n ≤ (t.broker.changelog p).high + 1
      cases hn
      omega
    · rw [if_neg hi] at hn
      have htrue := h.honest.position i n hn
      exact ⟨Nat.le_trans htrue.1 (hu.high_le i), hreflects i n htrue.2⟩
  · have he : e ∈ awaiting t i := by
      unfold awaiting
      rw [← hu.producer_eq]
      exact he
    obtain ⟨hpart, hstored, hpastAll⟩ := h.honest.awaited i e he
    refine ⟨hpart, ?_, hu.pastAll hpastAll⟩
    change x.originAfter op i e.1 (u.store.table i e.1) = .written ∨ u.store.table i e.1 = e.2
    rw [hu.table_eq]
    exact hstored

theorem acked_acknowledge {q : Queued} (hq : q.payload = .fold k v) :
    Acked q.partition k v t (t.acknowledge q) := by
  unfold World.acknowledge
  rw [hq]
  exact ⟨rfl, fun _ => Function.update_apply _ _ _ _, rfl, rfl, fun _ => Function.update_apply _ _ _ _⟩

end Acked

theorem stable_truth : Stable (Truth d x op) where
  crashIn t n h := ⟨⟨h.honest.txn_eq, h.honest.mem_seen, h.honest.checkpoint, h.honest.position,
    h.honest.awaited⟩, h.high_le⟩
  record t q ok _ h := ⟨⟨h.honest.txn_eq, h.honest.mem_seen, h.honest.checkpoint, h.honest.position,
    h.honest.awaited⟩, h.high_le⟩
  report t tp h := by
    unfold World.report
    cases hfind : t.producer.queue.find? (·.lane = tp) with
    | none => exact h
    | some q =>
      have hq := List.mem_of_find?_eq_some hfind
      have hrest : Truth d x op { t with producer := { t.producer with
          queue := t.producer.queue.eraseP (·.lane = tp) } } :=
        h.dequeue fun q hq => List.mem_of_mem_eraseP hq
      simp only
      split
      · cases hpayload : q.payload with
        | copy =>
          unfold World.acknowledge
          rw [hpayload]
          exact ⟨⟨hrest.honest.txn_eq, hrest.honest.mem_seen, hrest.honest.checkpoint,
            hrest.honest.position, hrest.honest.awaited⟩, hrest.high_le⟩
        | fold k v =>
          have hentry : (k, v) ∈ awaiting t q.partition :=
            List.mem_filterMap.2 ⟨q, hq, by simp [Queued.entryOn, hpayload]⟩
          obtain ⟨-, hstored, hpast⟩ := h.honest.awaited q.partition _ hentry
          exact hrest.acked (acked_acknowledge hpayload) hstored hpast
      · exact hrest

theorem Truth.recorded (h : Truth d x op t) (c : Call) :
    Truth d x op { t with trace := t.trace ++ [c] } :=
  ⟨⟨h.honest.txn_eq, h.honest.mem_seen, h.honest.checkpoint, h.honest.position, h.honest.awaited⟩,
    h.high_le⟩

theorem Truth.restart (h : Truth d x op t) : Truth d x op (ServiceConsumer.restart t) where
  honest := by
    refine ⟨rfl, h.honest.mem_seen, h.honest.checkpoint, fun p n hn => ?_, fun p e he => ?_⟩
    · cases hn
    · cases he
  high_le := h.high_le

/-- The store of one partition changes. -/
theorem Truth.store (h : Truth d x op t) {s : LocalStore}
    (htable : ∀ j, j ≠ p → s.table j = t.store.table j)
    (hcheckpoint_ne : ∀ j, j ≠ p → s.checkpoint j = t.store.checkpoint j)
    (hposition_ne : ∀ j, j ≠ p → s.position j = t.store.position j)
    (hcheckpoint : ∀ c, s.checkpoint p = some c → c ≤ (t.broker.changelog p).high ∧
      ∀ r ∈ (t.broker.changelog p).records, r.offset < c → (x.observe op { t with store := s }).AsNew p r)
    (hposition : ∀ n, s.position p = some n → n ≤ (t.broker.changelog p).high ∧
      ∀ r ∈ (t.broker.changelog p).records, r.offset < n → (x.observe op { t with store := s }).AsNew p r)
    (hawaiting : ∀ e ∈ awaiting t p,
      (x.originAfter op p e.1 (s.table p e.1) = .written ∨ s.table p e.1 = e.2) ∧
        s.position p = t.store.position p) :
    Truth d x op { t with store := s } := by
  have hasNew : ∀ j, j ≠ p → ∀ r, (x.observe op t).AsNew j r →
      (x.observe op { t with store := s }).AsNew j r := fun j hj r hr =>
    hr.of_row (fun _ h => h) (by rw [htable j hj])
  refine ⟨⟨h.honest.txn_eq, h.honest.mem_seen, fun j c hc => ?_, fun j n hn => ?_, fun j e he => ?_⟩,
    h.high_le⟩
  · obtain rfl | hj := eq_or_ne j p
    · exact hcheckpoint c hc
    · have htrue := h.honest.checkpoint j c ((hcheckpoint_ne j hj).symm.trans hc)
      exact ⟨htrue.1, fun r hr hlt => hasNew j hj r (htrue.2 r hr hlt)⟩
  · obtain rfl | hj := eq_or_ne j p
    · exact hposition n hn
    · have htrue := h.honest.position j n ((hposition_ne j hj).symm.trans hn)
      exact ⟨htrue.1, fun r hr hlt => hasNew j hj r (htrue.2 r hr hlt)⟩
  · obtain ⟨hpart, hstored, hpast⟩ := h.honest.awaited j e he
    obtain rfl | hj := eq_or_ne j p
    · obtain ⟨hrow, heq⟩ := hawaiting e he
      refine ⟨hpart, hrow, fun r hr => ?_⟩
      change r.offset < (s.position j).getD 0
      rw [heq]
      exact hpast r hr
    · refine ⟨hpart, ?_, fun r hr => ?_⟩
      · change x.originAfter op j e.1 (s.table j e.1) = .written ∨ s.table j e.1 = e.2
        rw [htable j hj]
        exact hstored
      · change r.offset < (s.position j).getD 0
        rw [hposition_ne j hj]
        exact hpast r hr

/-- The rows and the positions stay, and a new checkpoint is a position. -/
theorem Truth.same_rows (h : Truth d x op t) {s : LocalStore} (htable : s.table = t.store.table)
    (hposition : s.position = t.store.position)
    (hcheckpoint_ne : ∀ j, j ≠ p → s.checkpoint j = t.store.checkpoint j)
    (hcheckpoint : s.checkpoint p = t.store.checkpoint p ∨ s.checkpoint p = t.store.position p) :
    Truth d x op { t with store := s } := by
  have hasNew : ∀ r, (x.observe op t).AsNew p r → (x.observe op { t with store := s }).AsNew p r :=
    fun r hr => hr.of_row (fun _ h => h) (by rw [htable])
  have htrue : ∀ n, t.store.checkpoint p = some n ∨ t.store.position p = some n →
      n ≤ (t.broker.changelog p).high ∧ ∀ r ∈ (t.broker.changelog p).records, r.offset < n →
        (x.observe op { t with store := s }).AsNew p r := by
    intro n hn
    obtain hn | hn := hn
    · have hck := h.honest.checkpoint p n hn
      exact ⟨hck.1, fun r hr hlt => hasNew r (hck.2 r hr hlt)⟩
    · have hpos := h.honest.position p n hn
      exact ⟨hpos.1, fun r hr hlt => hasNew r (hpos.2 r hr hlt)⟩
  refine h.store (p := p) (fun j _ => by rw [htable]) hcheckpoint_ne (fun j _ => by rw [hposition])
    (fun c hc => ?_) (fun n hn => ?_) fun e he => ?_
  · refine htrue c ?_
    rw [← hc]
    exact hcheckpoint.imp Eq.symm Eq.symm
  · exact htrue n (.inr (by rw [← hn, hposition]))
  · rw [htable, hposition]
    exact ⟨(h.honest.awaited p e he).2.1, rfl⟩

theorem Truth.opened (h : Truth d x op t) {s : LocalStore} (hs : Opened p t.store s) :
    Truth d x op { t with store := s } :=
  h.same_rows (p := p) (funext hs.table_eq) hs.position_eq (fun j _ => by rw [hs.checkpoint_eq])
    (.inl (by rw [hs.checkpoint_eq]))

theorem Truth.shut (h : Truth d x op t) {s : LocalStore} (hs : Shut p t.store s) :
    Truth d x op { t with store := s } := by
  refine h.same_rows (p := p) hs.table_eq hs.position_eq (fun j hj => ?_) ?_
  · obtain heq | ⟨n, -, -, heq⟩ := hs.checkpoint_eq
    · rw [heq]
    · rw [heq, Function.update_of_ne hj]
  · obtain heq | ⟨n, -, hn, heq⟩ := hs.checkpoint_eq
    · exact .inl (by rw [heq])
    · exact .inr (by rw [heq, Function.update_self, hn])

/-! ## The calls -/

/-- A row that `op` does not change covers what it covered, unless `op` writes the order elsewhere. -/
theorem StoreHistory.AsNew.observe {r : LogRecord String Row} (h : x.AsNew p r)
    (hr : r.offset < (x.world.broker.changelog p).high)
    (hseen : ∀ r ∈ x.seen p, r ∈ (x.observe op t).seen p)
    (hrow : t.store.table p r.key = x.world.store.table p r.key) : (x.observe op t).AsNew p r := by
  obtain hcovers | ⟨r', hr', hkey, hle, hvalue⟩ := h
  · left
    change (x.originAfter op p r.key (t.store.table p r.key)).Covers r.offset
    rw [StoreHistory.originAfter, if_pos hrow]
    cases horigin : x.origin p r.key with
    | replayed =>
      rw [horigin] at hcovers
      exact hcovers
    | written =>
      simp only
      split
      · exact hr
      · trivial
    | overtaken o =>
      rw [horigin] at hcovers
      exact hcovers
  · exact .inr ⟨r', hseen r' hr', hkey, hle, hrow.trans hvalue⟩

theorem originAfter_eq {k : String} (hno : op.overtakes p k = false)
    (hwritten : x.origin p k = .written) :
    x.originAfter op p k (x.world.store.table p k) = .written := by
  simp [StoreHistory.originAfter, hwritten, hno]

/-- Before it does anything, an operation keeps the invariant that writes no order elsewhere while it
is in flight. -/
theorem Honest.truth (h : Honest d x)
    (hno : ∀ p, ∀ e ∈ awaiting x.world p, op.overtakes p e.1 = false) :
    Truth d x op x.world := by
  have hasNew : ∀ p, ∀ r ∈ (x.world.broker.changelog p).records, x.AsNew p r →
      (x.observe op x.world).AsNew p r := fun p r hr hrow =>
    hrow.observe ((x.world.broker.changelog p).bounded r hr).2
      (fun r hr => mem_seen_observe.2 (.inl hr)) rfl
  refine ⟨⟨h.txn_eq, fun p r hr => mem_seen_observe.2 (.inl (h.mem_seen p r hr)), fun p c hc => ?_,
    fun p n hn => ?_, fun p e he => ?_⟩, fun _ => Nat.le_refl _⟩
  · have htrue := h.checkpoint p c hc
    exact ⟨htrue.1, fun r hr hlt => hasNew p r hr (htrue.2 r hr hlt)⟩
  · have htrue := h.position p n hn
    exact ⟨htrue.1, fun r hr hlt => hasNew p r hr (htrue.2 r hr hlt)⟩
  · obtain ⟨hpart, hstored, hpast⟩ := h.awaited p e he
    exact ⟨hpart, hstored.imp_left (originAfter_eq (hno p e he)), hpast⟩

/-- The row of an order is put to what `op` writes. -/
theorem Truth.put (h : Truth d x op t) {k : String} {v : Option Row} {s : LocalStore}
    (hrow : t.store.table p k = x.world.store.table p k) (hwrites : op.writes p k = true)
    (hs : Put p k v t.store s) : Truth d x op { t with store := s } ∧
      (x.originAfter op p k (s.table p k) = .written ∨ s.table p k = v) := by
  have hput : s.table p k = v := by rw [hs.table_eq, Function.update_self]
  have hne : ∀ j, j ≠ k → s.table p j = t.store.table p j := fun j hj => by
    rw [hs.table_eq, Function.update_of_ne hj]
  -- either nothing changed, or the row is the store's own write
  have hcases : s.table p k = t.store.table p k ∨ x.originAfter op p k (s.table p k) = .written := by
    by_cases hv : s.table p k = x.world.store.table p k
    · exact .inl (hv.trans hrow.symm)
    · exact .inr (by rw [StoreHistory.originAfter, if_neg hv, if_pos hwrites])
  have hasNew : ∀ r, (x.observe op t).AsNew p r → (x.observe op { t with store := s }).AsNew p r := by
    intro r hr
    by_cases hk : r.key = k
    · obtain hsame | hwritten := hcases
      · exact hr.of_row (fun _ h => h) (by rw [hk]; exact hsame)
      · left
        change (x.originAfter op p r.key (s.table p r.key)).Covers r.offset
        rw [hk, hwritten]
        trivial
    · exact hr.of_row (fun _ h => h) (hne r.key hk)
  refine ⟨h.store (p := p) hs.table_ne (fun j _ => by rw [hs.checkpoint_eq])
    (fun j _ => by rw [hs.position_eq]) (fun c hc => ?_) (fun n hn => ?_) fun e he => ?_, .inr hput⟩
  · have htrue := h.honest.checkpoint p c (by rw [← hc, hs.checkpoint_eq]; rfl)
    exact ⟨htrue.1, fun r hr hlt => hasNew r (htrue.2 r hr hlt)⟩
  · have htrue := h.honest.position p n (by rw [← hn, hs.position_eq]; rfl)
    exact ⟨htrue.1, fun r hr hlt => hasNew r (htrue.2 r hr hlt)⟩
  · refine ⟨?_, by rw [hs.position_eq]⟩
    have hstored : x.originAfter op p e.1 (t.store.table p e.1) = .written ∨
        t.store.table p e.1 = e.2 := (h.honest.awaited p e he).2.1
    by_cases hk : e.1 = k
    · rw [hk] at hstored ⊢
      obtain hsame | hwritten := hcases
      · rw [hsame]
        exact hstored
      · exact .inl hwritten
    · rw [hne e.1 hk]
      exact hstored

/-- What a write keeps from its put on. -/
structure Writing (d : Deployment) (x : StoreHistory) (op : DiskOp) (p : Nat) (k : String) (v : Option Row)
    (t : World) : Prop where
  truth : Truth d x op t
  stored : x.originAfter op p k (t.store.table p k) = .written ∨ t.store.table p k = v
  pastAll : PastAll t p

theorem stable_writing {k : String} {v : Option Row} : Stable (Writing d x op p k v) := by
  have hstored : Stable fun t : World =>
      x.originAfter op p k (t.store.table p k) = .written ∨ t.store.table p k = v := by
    refine .of_acknowledge (fun _ _ h => h) (fun _ _ h => h) (fun _ _ h => h) fun t q h => ?_
    unfold World.acknowledge
    cases q.payload <;> exact h
  have hpast : Stable fun t => PastAll t p := by
    refine .of_acknowledge (fun _ _ h => h) (fun _ _ h => h) (fun _ _ h => h) fun t q h => ?_
    cases hq : q.payload with
    | copy =>
      unfold World.acknowledge
      rw [hq]
      exact h
    | fold k v => exact (acked_acknowledge hq).pastAll h
  have htruth : Stable (Truth d x op) := stable_truth
  have hall := htruth.and (hstored.and hpast)
  refine ⟨fun t n h => ?_, fun t q ok hq h => ?_, fun t tp h => ?_⟩
  · have ht := hall.crashIn t n ⟨h.truth, h.stored, h.pastAll⟩
    exact ⟨ht.1, ht.2.1, ht.2.2⟩
  · have ht := hall.record t q ok hq ⟨h.truth, h.stored, h.pastAll⟩
    exact ⟨ht.1, ht.2.1, ht.2.2⟩
  · have ht := hall.report t tp ⟨h.truth, h.stored, h.pastAll⟩
    exact ⟨ht.1, ht.2.1, ht.2.2⟩

/-- The record of the write is handed over. -/
theorem Writing.enqueue {k : String} {v : Option Row} (h : Writing d x op p k v t)
    (hpart : d.partitionOf k = p) (handling : MessageId) : Writing d x op p k v { t with
      producer := t.producer.enqueue
        (LocalStateStore.changelogRecord d groupId env handling k v) } := by
  have htxn := h.truth.honest.txn_eq
  refine ⟨⟨⟨?_, h.truth.honest.mem_seen, h.truth.honest.checkpoint, h.truth.honest.position,
    fun i e he => ?_⟩, h.truth.high_le⟩, h.stored, h.pastAll⟩
  · change (t.producer.enqueue _).txn = none
    rw [ProducerState.txn_enqueue, show t.producer.txn = none from htxn]
    rfl
  · change e ∈ entriesOn i (t.producer.enqueue _).queue at he
    rw [ProducerState.queue_enqueue, show t.producer.txn = none from htxn, Option.isSome_none,
      if_neg Bool.false_ne_true, entriesOn_append, entriesOn_changelogRecord, List.mem_append] at he
    obtain he | he := he
    · exact h.truth.honest.awaited i e he
    · split at he
      · rename_i hi
        subst hi
        rw [List.mem_singleton.1 he, hpart]
        exact ⟨rfl, h.stored, h.pastAll⟩
      · cases he

/-- A write, of an order of its own partition, from a position past all records. -/
theorem Truth.writing (h : Truth d x op t) {k : String} {v : Option Row} {s : LocalStore}
    (hrow : t.store.table p k = x.world.store.table p k) (hwrites : op.writes p k = true)
    (hpast : PastAll t p) (hs : Put p k v t.store s) : Writing d x op p k v { t with store := s } := by
  obtain ⟨htruth, hstored⟩ := h.put hrow hwrites hs
  refine ⟨htruth, hstored, fun r hr => ?_⟩
  change r.offset < (s.position p).getD 0
  rw [hs.position_eq]
  exact hpast r hr

theorem wp_save_truth {k : String} {fold : OrderFold} {eventId : String} (h : Truth d x op t)
    (hrow : t.store.table p k = x.world.store.table p k) (hwrites : op.writes p k = true)
    (hpart : d.partitionOf k = p) (hpast : PastAll t p) :
    wp (LocalStateStore.save d groupId env p k fold eventId) (fun _ => Truth d x op)
      (fun _ => Truth d x op) t := by
  refine wp_mono (stable_writing.save (E := fun _ => Truth d x op) rfl
    (fun _ n => stable_truth.crashIn _ n h) (fun _ n s hs => stable_truth.crashIn _ n (h.opened hs))
    (fun n s hs => ?_) (fun u hu handling => hu.enqueue hpart handling)
    fun _ _ hu => hu.truth) (fun _ _ hu => hu.truth) fun _ _ he => he
  exact stable_writing.crashIn _ n (h.writing hrow hwrites hpast hs)

theorem wp_delete_truth {k : String} (h : Truth d x op t)
    (hrow : t.store.table p k = x.world.store.table p k) (hwrites : op.writes p k = true)
    (hpart : d.partitionOf k = p) (hpast : PastAll t p) :
    wp (LocalStateStore.delete d groupId env p k) (fun _ => Truth d x op)
      (fun _ => Truth d x op) t := by
  refine wp_mono (stable_writing.delete (E := fun _ => Truth d x op)
    (fun _ n => stable_truth.crashIn _ n h) (fun _ n s hs => stable_truth.crashIn _ n (h.opened hs))
    (fun n s hs => ?_) (fun u hu handling => hu.enqueue hpart handling)
    fun _ _ hu => hu.truth) (fun _ _ hu => hu.truth) fun _ _ he => he
  exact stable_writing.crashIn _ n (h.writing hrow hwrites hpast hs)

theorem wp_forget_truth {ps : List Nat} (h : Truth d x op t) :
    wp (LocalStateStore.forget env ps) (fun _ => Truth d x op) (fun _ => Truth d x op) t := by
  unfold LocalStateStore.forget
  split
  · exact h
  · rw [wp_bind]
    refine wp_mono (stable_truth.flush h _) (fun _ u hu => ?_) fun _ _ he => he
    refine wp_forM hu fun p _ u hu => ?_
    exact wp_forgetOne_each (fun n s hs => stable_truth.crashIn _ n (hu.shut hs))
      fun s hs => hu.shut hs

end Truth

end OrderService
