import OrderService.Lib.Run
import OrderService.Proof.Restore
import OrderService.Proof.Runtime

/-!
# At least once, no message is skipped

A commit covers every offset below it, and `poll` moves the read position past the message it
returns. So a message that is not disposed of must be gone back to: `_route_failure` seeks to it when
its copy is not acknowledged. `Safe` is what holds between turns; a turn keeps it unless that seek
fails (`wp_lifeStep_safe`), and then every message below a committed offset was disposed of
(`no_message_skipped`).
-/

namespace OrderService

open Eff

namespace ServiceConsumer

variable {c : Service} {backend : StateBackend} {env : Env} {w t u : World} {m : Message}

/-! ## What becomes of a message -/

/-- What the service knows of an order. -/
def foldAt (backend : StateBackend) (w : World) (i : Nat) (orderId : String) : Option OrderFold :=
  match backend with
  | .memory => w.memory.folds i orderId
  | .local => w.store.fold i orderId

/-- The event was folded, and on the durable store flushed: nothing is left to be reported on, and its
changelog record was acknowledged unless its report was an error. -/
def Folded (backend : StateBackend) (env : Env) (m : Message) (event : LifecycleEvent) (w t : World) :
    Prop :=
  match backend with
  | .memory => t.memory.folds m.partition event.orderId =
      some (applyEvent (w.memory.folds m.partition event.orderId) event).1
  | .local =>
    let row := Row.next event.orderId (w.store.table m.partition event.orderId)
      (applyEvent (w.store.fold m.partition event.orderId) event).1 event.eventId
    t.store.table m.partition event.orderId = some row ∧ t.producer.queue = [] ∧
      (env.fate = none → ∃ q ∈ t.broker.delivered, q.source = m.id ∧
        q.payload = .fold event.orderId (some row))

/-- The turn from `w` to `t` disposed of the message. -/
inductive Disposed (c : Service) (backend : StateBackend) (env : Env) (m : Message) (w t : World) : Prop
  | ignored (h : Skipped c m)
  | deleted (htombstone : m.value = none) (h : foldAt backend t m.partition (keyOf m) = none)
  | routed (exc : Exn) (q : Queued) (hfails : FailsWith c env m exc)
      (hq : RoutedCopy c env m exc (attemptOf c.std (decodeHeaders m)) q)
      (h : q ∈ t.broker.delivered)
  | folded (value : ByteArray) (event : LifecycleEvent) (hvalue : m.value = some value)
      (hdecode : c.decode value = .event event) (h : Folded backend env m event w t)

/-- The turn of a step disposed of the message `id`. -/
def DisposedOf (c : Service) (backend : StateBackend) (id : MessageId) (w : World) (l : Env × Label)
    (t : World) : Prop :=
  ∃ m, l.2 = .message m ∧ m.id = id ∧ Disposed c backend l.1 m w t

/-- `poll` returned `m`. -/
def received (w : World) (m : Message) : World := { w with
  position := Function.update w.position m.tp (m.offset + 1), handling := m.id
  trace := w.trace ++ [.poll m.id] }

/-- What `poll` may return: a message of an assigned partition, at or after the read position, and never
past one that was read before. -/
structure Polled (w : World) (m : Message) : Prop where
  assigned : m.tp ∈ w.assignment
  position_le : w.position m.tp ≤ m.offset
  next : ∀ id, .poll id ∈ w.trace → id.tp = m.tp → w.position m.tp ≤ id.offset → m.offset ≤ id.offset

/-- A step is one the client can take. -/
def Takes (w : World) (l : Env × Label) : Prop := ∀ m, l.2 = .message m → Polled w m

/-- When the copy of a failed message will not be acknowledged, the seek back to it succeeds. -/
def SeeksBack (c : Service) (w : World) (l : Env × Label) : Prop :=
  ∀ m exc q, l.2 = .message m → ¬ Skipped c m → FailsWith c l.1 m exc → exc.isRouted = true →
    RoutedCopy c l.1 m exc (attemptOf c.std (decodeHeaders m)) q →
    Acknowledged c.toDeployment l.1 w.producer q ∨ l.1.seek m.tp = none

/-! ## What a turn leaves alone -/

/-- What the group's progress rests on is as it was. -/
structure Keeps (w t : World) : Prop where
  committed_eq : t.broker.committed = w.broker.committed
  position_eq : t.position = w.position
  assignment_eq : t.assignment = w.assignment
  handling_eq : t.handling = w.handling
  polls : ∀ id, .poll id ∈ t.trace ↔ .poll id ∈ w.trace
  txn_eq : w.producer.txn = none → t.producer.txn = none

theorem Keeps.refl (w : World) : Keeps w w := ⟨rfl, rfl, rfl, rfl, fun _ => Iff.rfl, id⟩

theorem Keeps.trans (h : Keeps w t) (h' : Keeps t u) : Keeps w u :=
  ⟨h'.committed_eq.trans h.committed_eq, h'.position_eq.trans h.position_eq,
    h'.assignment_eq.trans h.assignment_eq, h'.handling_eq.trans h.handling_eq,
    fun id => (h'.polls id).trans (h.polls id), fun hw => h'.txn_eq (h.txn_eq hw)⟩

theorem poll_mem_append {calls₁ calls₂ : List Call} (h : ∀ call ∈ calls₂, ∀ id, call ≠ .poll id)
    (id : MessageId) : .poll id ∈ calls₁ ++ calls₂ ↔ .poll id ∈ calls₁ := by
  rw [List.mem_append]
  exact or_iff_left fun hmem => h _ hmem id rfl

/-- Only the producer's side moved, by calls that poll nothing. -/
theorem Keeps.of_produced {b : Broker} {p : ProducerState} {s : LocalStore} {n : Option Nat}
    {calls : List Call} (hcommitted : b.committed = w.broker.committed)
    (htxn : w.producer.txn = none → p.txn = none) (hcalls : ∀ call ∈ calls, ∀ id, call ≠ .poll id) :
    Keeps w { w with broker := b, producer := p, store := s, crashIn := n, trace := w.trace ++ calls } :=
  ⟨hcommitted, rfl, rfl, rfl, poll_mem_append hcalls, htxn⟩

theorem Keeps.of_unpublished {q : Queued} {b : Broker} {p : ProducerState} {s : LocalStore}
    {n : Option Nat} {calls : List Call} (h : Unpublished q w.broker w.producer b p calls) :
    Keeps w { w with broker := b, producer := p, store := s, crashIn := n, trace := w.trace ++ calls } := by
  obtain ⟨rs, hs⟩ := h.served
  refine .of_produced hs.committed_eq (fun htxn => hs.txn_eq.trans htxn) fun call hcall id => ?_
  rw [h.calls_eq call hcall]
  exact nofun

theorem Keeps.of_published {d : Deployment} {q : Queued} {b : Broker} {p : ProducerState}
    {s : LocalStore} {n : Option Nat} {calls : List Call}
    (h : Published d q w.broker w.producer b p calls) :
    Keeps w { w with broker := b, producer := p, store := s, crashIn := n, trace := w.trace ++ calls } := by
  refine .of_produced h.committed_eq (fun htxn => by rw [h.txn_eq, htxn]; rfl) fun call hcall id => ?_
  obtain ⟨failed, hfailed, rfl⟩ := h.calls_eq
  obtain hcall | hcall := List.mem_append.1 hcall
  · rw [hfailed call hcall]
    exact nofun
  · rw [List.mem_singleton.1 hcall]
    exact nofun

theorem Keeps.of_served {rs : List Queued} {b : Broker} {p : ProducerState} {s : LocalStore}
    {n : Option Nat} (h : Served w.broker w.producer rs b p) :
    Keeps w { w with broker := b, producer := p, store := s, crashIn := n } :=
  ⟨h.committed_eq, rfl, rfl, rfl, fun _ => Iff.rfl, fun htxn => h.txn_eq.trans htxn⟩

/-! ## The store's part -/

/-- The contents of the stores are as they were. -/
def SameFolds (backend : StateBackend) (w t : World) : Prop :=
  match backend with
  | .memory => t.memory = w.memory
  | .local => t.store.table = w.store.table

variable {d : Deployment} {groupId : String}

theorem wp_load_keeps {i : Nat} {k : String} :
    wp ((buildStateStore backend d groupId env).load i k)
      (fun r t => r = foldAt backend w i k ∧ Keeps w t ∧ SameFolds backend w t ∧
        t.producer = w.producer) (fun _ t => Keeps w t) w := by
  cases backend with
  | memory => exact ⟨rfl, .refl w, rfl, rfl⟩
  | «local» =>
    refine wp_load (fun _ _ _ => ⟨rfl, rfl, rfl, rfl, fun _ => Iff.rfl, id⟩) fun n s hs => ?_
    refine ⟨rfl, ⟨rfl, rfl, rfl, rfl, fun _ => Iff.rfl, id⟩, ?_, rfl⟩
    exact funext hs.table_eq

theorem wp_delete_keeps {i : Nat} {k : String} :
    wp ((buildStateStore backend d groupId env).delete i k)
      (fun _ t => Keeps w t ∧ foldAt backend t i k = none) (fun _ t => Keeps w t) w := by
  cases backend with
  | memory =>
    refine ⟨⟨rfl, rfl, rfl, rfl, fun _ => Iff.rfl, id⟩, ?_⟩
    change Function.update w.memory.folds i _ i k = none
    simp
  | «local» =>
    refine wp_delete rfl (fun _ _ _ _ _ _ h => .of_unpublished h) (fun _ _ _ _ _ h => .of_published h) ?_
    intro n s b p calls hwrote hp _
    refine ⟨.of_published hp, ?_⟩
    simp only [foldAt, LocalStore.fold, hwrote.table_eq, Function.update_self, Option.map_none]

/-- A fold that is written and flushed is stored, and its changelog record acknowledged unless its
report is an error. -/
theorem wp_saveFlush_keeps {event : LifecycleEvent} (htxn : w.producer.txn = none)
    (hhandling : w.handling = m.id) :
    wp (do
        saveFold (buildStateStore backend d groupId env) event
          (applyEvent (foldAt backend w m.partition event.orderId) event).1 m.partition
        (buildStateStore backend d groupId env).flush)
      (fun _ t => Keeps w t ∧ Folded backend env m event w t) (fun _ t => Keeps w t) w := by
  cases backend with
  | memory =>
    refine ⟨⟨rfl, rfl, rfl, rfl, fun _ => Iff.rfl, id⟩, ?_⟩
    change Function.update w.memory.folds m.partition _ m.partition event.orderId = _
    simp [foldAt]
  | «local» =>
    simp only [saveFold, buildStateStore, localStateStore, wp_bind]
    refine wp_save rfl rfl (fun _ _ _ _ _ _ h => .of_unpublished h)
      (fun _ _ _ _ _ h => .of_published h) ?_
    intro out n s b p calls hwrote hp
    rw [wp_pure]
    have hkeeps : ∀ {s n}, Keeps w { w with
        broker := b, producer := p, store := s, crashIn := n, trace := w.trace ++ calls } :=
      .of_published hp
    refine wp_storeFlush hkeeps (fun _ _ _ _ _ _ hs => hkeeps.trans (.of_served hs)) ?_
    intro n' rs b' p' pos hs hempty
    refine ⟨hkeeps.trans (.of_served hs), ?_, hempty, fun hfate => ?_⟩
    · change s.table m.partition event.orderId = _
      rw [hwrote.table_eq]
      exact Function.update_self _ _ _
    · obtain ⟨rs₁, b₁, p₁, rs₂, h₁, hopen, h₂⟩ := hp.served
      have hall : Published d _ w.broker w.producer b' p' calls :=
        ⟨⟨rs₁, b₁, p₁, _, h₁, hopen, h₂.trans hs⟩, hp.calls_eq⟩
      exact ⟨_, hall.delivered htxn hempty hfate, hhandling, rfl⟩

/-! ## The end of a turn -/

/-- The message was noted: its offset was committed, or the commit was rejected. -/
structure Noted (m : Message) (w t : World) : Prop where
  committed : t.broker.committed = w.broker.committed ∨
    t.broker.committed = Function.update w.broker.committed m.tp (some (m.offset + 1))
  delivered_eq : t.broker.delivered = w.broker.delivered
  producer_eq : t.producer = w.producer
  store_eq : t.store = w.store
  memory_eq : t.memory = w.memory
  position_eq : t.position = w.position
  assignment_eq : t.assignment = w.assignment
  polls : ∀ id, .poll id ∈ t.trace ↔ .poll id ∈ w.trace

theorem wp_commit_noted {R : Unit → World → Prop} {E : Exn → World → Prop}
    (hx : c.settings.exactlyOnce = false) (hcrash : E .crash w) (h : ∀ t, Noted m w t → R ⟨⟩ t) :
    wp (commit c env m) R E w := by
  unfold commit commits buildCommitStrategy
  rw [hx]
  have hcalls : ∀ ok, ∀ call ∈ [Call.commit m.tp (m.offset + 1) ok], ∀ id, call ≠ .poll id := by
    intro ok call hcall id
    rw [List.mem_singleton.1 hcall]
    exact nofun
  refine wp_directNote hcrash (fun n _ => h _ ?_) fun n _ => h _ ?_
  · exact ⟨.inl rfl, rfl, rfl, rfl, rfl, rfl, rfl, poll_mem_append (hcalls false)⟩
  · exact ⟨.inr rfl, rfl, rfl, rfl, rfl, rfl, rfl, poll_mem_append (hcalls true)⟩

theorem Disposed.noted (h : Disposed c backend env m w t) (hn : Noted m t u) :
    Disposed c backend env m w u := by
  cases h with
  | ignored h => exact .ignored h
  | deleted hm h =>
    refine .deleted hm ?_
    cases backend with
    | memory => simpa only [foldAt, hn.memory_eq] using h
    | «local» => simpa only [foldAt, hn.store_eq] using h
  | routed exc q hfails hq h => exact .routed exc q hfails hq (by rw [hn.delivered_eq]; exact h)
  | folded value event hvalue hdecode h =>
    refine .folded value event hvalue hdecode ?_
    cases backend with
    | memory => simpa only [Folded, hn.memory_eq] using h
    | «local» => simpa only [Folded, hn.store_eq, hn.producer_eq, hn.delivered_eq] using h

/-- Receiving the message, and what the step may call, are no part of it. -/
theorem Disposed.from {n : Option Nat} (h : Disposed c backend env m (received { w with crashIn := n } m) t) :
    Disposed c backend env m w t := by
  cases h with
  | ignored h => exact .ignored h
  | deleted hm h => exact .deleted hm h
  | routed exc q hfails hq h => exact .routed exc q hfails hq h
  | folded value event hvalue hdecode h =>
    refine .folded value event hvalue hdecode ?_
    cases backend with
    | memory => exact h
    | «local» => exact h

/-- How a turn that returns ends: the message was disposed of and noted, or it will be read again. -/
structure TurnEnd (c : Service) (backend : StateBackend) (env : Env) (m : Message) (w t : World) :
    Prop where
  assignment_eq : t.assignment = w.assignment
  polls : ∀ id, .poll id ∈ t.trace ↔ .poll id ∈ w.trace
  txn_eq : t.producer.txn = none
  outcome : Disposed c backend env m w t ∧ t.position = w.position ∧
      (t.broker.committed = w.broker.committed ∨
        t.broker.committed = Function.update w.broker.committed m.tp (some (m.offset + 1))) ∨
    t.broker.committed = w.broker.committed ∧
      t.position = Function.update w.position m.tp m.offset

/-- A message that was disposed of is noted. -/
theorem wp_commit_turnEnd (hx : c.settings.exactlyOnce = false) (htxn : w.producer.txn = none)
    (hk : Keeps w t) (hd : Disposed c backend env m w t) :
    wp (commit c env m) (fun _ u => TurnEnd c backend env m w u) (fun _ u => Keeps w u) t := by
  refine wp_commit_noted hx hk fun u hu => ?_
  refine ⟨hu.assignment_eq.trans hk.assignment_eq, fun id => (hu.polls id).trans (hk.polls id),
    by rw [hu.producer_eq]; exact hk.txn_eq htxn, .inl ⟨hd.noted hu, ?_, ?_⟩⟩
  · exact hu.position_eq.trans hk.position_eq
  · rw [← hk.committed_eq]
    exact hu.committed

/-- A message whose copy was not acknowledged is gone back to. -/
theorem wp_rewind_turnEnd (htxn : w.producer.txn = none) (hk : Keeps w t) (hseek : env.seek m.tp = none) :
    wp (rewind env m) (fun _ u => TurnEnd c backend env m w u) (fun _ u => Keeps w u) t := by
  refine wp_rewind hk (fun _ hne => absurd hseek hne) fun n => ?_
  have hcalls : ∀ call ∈ [Call.seek m.tp m.offset true], ∀ id, call ≠ .poll id := by
    intro call hcall id
    rw [List.mem_singleton.1 hcall]
    exact nofun
  refine ⟨hk.assignment_eq, fun id => (poll_mem_append hcalls id).trans (hk.polls id),
    hk.txn_eq htxn, .inr ⟨hk.committed_eq, ?_⟩⟩
  rw [← hk.position_eq]

/-- A failed message: its copy is acknowledged, or it is gone back to. -/
theorem wp_routeFailure_turnEnd {exc : Exn} (hx : c.settings.exactlyOnce = false)
    (htxn : w.producer.txn = none) (hk : Keeps w t) (hp : t.producer = w.producer)
    (hfails : FailsWith c env m exc)
    (hseek : ∀ q, RoutedCopy c env m exc (attemptOf c.std (decodeHeaders m)) q →
      Acknowledged c.toDeployment env w.producer q ∨ env.seek m.tp = none) :
    wp (routeFailure c env m exc (attemptOf c.std (decodeHeaders m)))
      (fun _ u => TurnEnd c backend env m w u) (fun _ u => Keeps w u) t := by
  have hrefused : ∀ {q}, Keeps t { t with crashIn := none, trace := t.trace ++ [.produce q false] } :=
    fun {q} => .of_unpublished (q := q) ⟨⟨_, .refl _ _⟩, by simp⟩
  refine wp_routeFailure_exits (fun _ _ => hk) hk (fun q n b p pos _ hpub => ?_) ?_ ?_ ?_
  · exact hk.trans (.of_published hpub)
  · intro q n _ hne hq
    have hseek := (hseek q hq).resolve_left (by rw [← hp]; exact hne)
    exact wp_rewind_turnEnd htxn (hk.trans ⟨rfl, rfl, rfl, rfl, hrefused.polls, id⟩) hseek
  · intro q n b p pos hne hq _ hpub
    have hseek := (hseek q hq).resolve_left (by rw [← hp]; exact hne)
    exact wp_rewind_turnEnd htxn (hk.trans (.of_published hpub)) hseek
  · intro q n b p pos hq hpub hdone
    obtain ⟨hempty, hfate⟩ := hdone hx
    have hacked : q ∈ b.delivered := hpub.delivered (hk.txn_eq htxn) hempty hfate
    exact wp_commit_turnEnd hx htxn (hk.trans (.of_published hpub)) (.routed exc q hfails hq hacked)

theorem SameFolds.foldAt_eq (h : SameFolds backend w t) (i : Nat) (k : String) :
    foldAt backend t i k = foldAt backend w i k := by
  cases backend with
  | memory => simp only [foldAt, show t.memory = w.memory from h]
  | «local» => simp only [foldAt, LocalStore.fold, show t.store.table = w.store.table from h]

theorem Folded.of_sameFolds {event : LifecycleEvent} (hsame : SameFolds backend w t)
    (h : Folded backend env m event t u) : Folded backend env m event w u := by
  cases backend with
  | memory => simpa only [Folded, show t.memory = w.memory from hsame] using h
  | «local» =>
    simpa only [Folded, LocalStore.fold, show t.store.table = w.store.table from hsame] using h

/-- The fold is written and flushed, and the message noted. -/
theorem wp_persistAndCommit_turnEnd {value : ByteArray} {event : LifecycleEvent}
    (hx : c.settings.exactlyOnce = false) (horder : c.settings.stateWriteOrder = .stateFirst)
    (htxn : w.producer.txn = none) (hhandling : w.handling = m.id) (hvalue : m.value = some value)
    (hdecode : c.decode value = .event event) (hk : Keeps w t) (hsame : SameFolds backend w t) :
    wp (persistAndCommit c (buildStateStore backend c.toDeployment c.groupId env) env m event
        (applyEvent (foldAt backend w m.partition event.orderId) event).1 m.partition)
      (fun _ u => TurnEnd c backend env m w u) (fun _ u => Keeps w u) t := by
  have hsave : wp (do
        saveFold (buildStateStore backend c.toDeployment c.groupId env) event
          (applyEvent (foldAt backend t m.partition event.orderId) event).1 m.partition
        (buildStateStore backend c.toDeployment c.groupId env).flush)
      (fun _ u => Keeps t u ∧ Folded backend env m event t u) (fun _ u => Keeps t u) t :=
    wp_saveFlush_keeps (hk.txn_eq htxn) (hk.handling_eq.trans hhandling)
  rw [hsame.foldAt_eq, wp_bind] at hsave
  unfold persistAndCommit
  rw [if_neg (by simp [hx]), if_neg (by simp [horder])]
  simp only [wp_bind]
  refine wp_mono hsave (fun _ t' ht' => ?_) fun _ _ he => hk.trans he
  refine wp_mono ht' (fun _ u hu => ?_) fun _ _ he => hk.trans he
  have hku : Keeps w u := hk.trans hu.1
  unfold crashIfConfigured
  split
  · exact ⟨hku.committed_eq, hku.position_eq, hku.assignment_eq, hku.handling_eq, hku.polls, hku.txn_eq⟩
  · exact wp_commit_turnEnd hx htxn hku (.folded value event hvalue hdecode (hu.2.of_sameFolds hsame))

/-- **The turn of a message**, at least once and state first. -/
theorem wp_handleMessage_turnEnd (hx : c.settings.exactlyOnce = false)
    (horder : c.settings.stateWriteOrder = .stateFirst) (htxn : w.producer.txn = none)
    (hhandling : w.handling = m.id) (hseek : SeeksBack c w (env, .message m)) :
    wp (handleMessage c (buildStateStore backend c.toDeployment c.groupId env) env m)
      (fun _ t => TurnEnd c backend env m w t) (fun _ t => Keeps w t) w := by
  refine wp_handleMessage_exits (fun hm => ?_) (fun hskip => ?_) (fun _ _ _ _ _ _ => .refl w)
    (fun value text hvalue hns hdecode => ?_) fun value event hvalue hns hdecode => ?_
  · simp only [handleTombstone, wp_bind]
    refine wp_mono wp_delete_keeps (fun _ t ht => ?_) fun _ _ he => he
    exact wp_commit_turnEnd hx htxn ht.1 (.deleted hm ht.2)
  · exact wp_commit_turnEnd hx htxn (.refl w) (.ignored hskip)
  · have hfails : FailsWith c env m (.nonRetryable text) := ⟨value, hvalue, .inl ⟨text, hdecode, rfl⟩⟩
    exact wp_routeFailure_turnEnd hx htxn (.refl w) rfl hfails
      fun q hq => hseek m _ q rfl hns hfails rfl hq
  · refine wp_handleEvent_exits (fun _ => .refl w) fun _ => ?_
    refine wp_mono wp_load_keeps (fun current t ht reported => ?_) fun _ _ he => he
    obtain ⟨rfl, hk, hsame, hp⟩ := ht
    have hk' : Keeps w { t with reported := reported } :=
      ⟨hk.committed_eq, hk.position_eq, hk.assignment_eq, hk.handling_eq, hk.polls, hk.txn_eq⟩
    refine wp_dispatch (fun _ _ _ => hk') (fun exc hraised hrouted => ?_) fun _ => ?_
    · have hfails : FailsWith c env m exc :=
        ⟨value, hvalue, .inr ⟨event, decode_eq_ok.2 hdecode, hraised⟩⟩
      exact wp_routeFailure_turnEnd hx htxn hk' hp hfails
        fun q hq => hseek m exc q rfl hns hfails hrouted hq
    · exact wp_persistAndCommit_turnEnd hx horder htxn hhandling hvalue hdecode hk' hsame

/-! ## Between turns -/

/-- Every message that was read was disposed of (`D`), or lies at or above the committed offset and will
be read again while its partition is held. -/
structure Safe (D : MessageId → Prop) (w : World) : Prop where
  accounted : ∀ id, .poll id ∈ w.trace → D id ∨ (w.broker.committed id.tp).getD 0 ≤ id.offset ∧
    (id.tp ∈ w.assignment → w.position id.tp ≤ id.offset)
  committed_le : ∀ tp ∈ w.assignment, (w.broker.committed tp).getD 0 ≤ w.position tp
  txn_eq : w.producer.txn = none

variable {D D' : MessageId → Prop}

theorem Safe.mono (hD : ∀ id, D id → D' id) (h : Safe D w) : Safe D' w :=
  ⟨fun id hpoll => (h.accounted id hpoll).imp_left (hD id), h.committed_le, h.txn_eq⟩

theorem Safe.keeps (h : Safe D w) (hk : Keeps w t) : Safe D t where
  accounted id hpoll := by
    rw [hk.committed_eq, hk.position_eq, hk.assignment_eq]
    exact h.accounted id ((hk.polls id).1 hpoll)
  committed_le := by
    rw [hk.committed_eq, hk.position_eq, hk.assignment_eq]
    exact h.committed_le
  txn_eq := hk.txn_eq h.txn_eq

theorem Safe.restart (h : Safe D w) : Safe D (ServiceConsumer.restart w) where
  accounted id hpoll := (h.accounted id hpoll).imp_right fun hid => ⟨hid.1, fun hmem => nomatch hmem⟩
  committed_le _ hmem := nomatch hmem
  txn_eq := rfl

/-- Partitions that are assigned are read from the committed offset. -/
theorem Safe.assign (h : Safe D w) (tps : List TopicPartition) : Safe D (w.assign tps) where
  accounted id hpoll := by
    refine (h.accounted id hpoll).imp_right fun ⟨hlow, hpos⟩ => ⟨hlow, fun hmem => ?_⟩
    by_cases htp : id.tp ∈ tps
    · simpa [World.assign, htp] using hlow
    · have hold : id.tp ∈ w.assignment := by simpa [World.assign, htp] using hmem
      simpa [World.assign, htp] using hpos hold
  committed_le tp hmem := by
    by_cases htp : tp ∈ tps
    · simp [World.assign, htp]
    · have hold : tp ∈ w.assignment := by simpa [World.assign, htp] using hmem
      simpa [World.assign, htp] using h.committed_le tp hold
  txn_eq := h.txn_eq

theorem Safe.unassign (h : Safe D w) (tps : List TopicPartition) : Safe D (w.unassign tps) where
  accounted id hpoll := (h.accounted id hpoll).imp_right fun ⟨hlow, hpos⟩ =>
    ⟨hlow, fun hmem => hpos (List.mem_filter.1 hmem).1⟩
  committed_le tp hmem := h.committed_le tp (List.mem_filter.1 hmem).1
  txn_eq := h.txn_eq

theorem poll_mem_received {id : MessageId} :
    .poll id ∈ (received w m).trace ↔ .poll id ∈ w.trace ∨ id = m.id := by
  simp [received]

/-- What is known of the messages read before, when `m` has been read. -/
theorem Safe.before (h : Safe D w) (hpoll : Polled w m) {id : MessageId} (hid : .poll id ∈ w.trace)
    (hne : id ≠ m.id) : D id ∨ (w.broker.committed id.tp).getD 0 ≤ id.offset ∧
      (id.tp = m.tp → m.offset < id.offset) ∧
      (id.tp ≠ m.tp → id.tp ∈ w.assignment → w.position id.tp ≤ id.offset) := by
  refine (h.accounted id hid).imp_right fun ⟨hlow, hpos⟩ => ⟨hlow, fun htp => ?_, fun _ => hpos⟩
  have hle := hpoll.next id hid htp (htp ▸ hpos (htp ▸ hpoll.assigned))
  have hoffset : m.offset ≠ id.offset := by
    rintro heq
    refine hne ?_
    obtain ⟨tp, offset⟩ := id
    obtain rfl : tp = m.tp := htp
    obtain rfl : m.offset = offset := heq
    rfl
  omega

/-- A turn that died leaves its message to be read again. -/
theorem Safe.died (h : Safe D w) (hpoll : Polled w m) (hk : Keeps (received w m) t) :
    Safe D (ServiceConsumer.restart t) where
  accounted id hid := by
    have hcommitted : t.broker.committed = w.broker.committed := hk.committed_eq
    change _ ∨ (t.broker.committed id.tp).getD 0 ≤ _ ∧ _
    rw [hcommitted]
    by_cases heq : id = m.id
    · subst heq
      have hle := h.committed_le m.tp hpoll.assigned
      exact .inr ⟨hle.trans hpoll.position_le, fun hmem => nomatch hmem⟩
    · have hold := (poll_mem_received.1 ((hk.polls id).1 hid)).resolve_right heq
      exact (h.accounted id hold).imp_right fun hid => ⟨hid.1, fun hmem => nomatch hmem⟩
  committed_le _ hmem := nomatch hmem
  txn_eq := rfl

/-- A turn that returned disposed of its message, or will read it again. -/
theorem Safe.turnEnd (h : Safe D w) (hpoll : Polled w m)
    (ht : TurnEnd c backend env m (received w m) t) :
    Safe (fun id => D id ∨ id = m.id ∧ Disposed c backend env m (received w m) t) t := by
  have hassignment : t.assignment = w.assignment := ht.assignment_eq
  have hlow : (w.broker.committed m.tp).getD 0 ≤ m.offset :=
    (h.committed_le m.tp hpoll.assigned).trans hpoll.position_le
  have hold : ∀ id, .poll id ∈ t.trace → .poll id ∈ w.trace ∨ id = m.id :=
    fun id hid => poll_mem_received.1 ((ht.polls id).1 hid)
  obtain ⟨hd, hposition, hcommitted⟩ | ⟨hcommitted, hposition⟩ := ht.outcome
  · -- noted: what lies ahead on the partition is beyond its offset
    have hself : t.position m.tp = m.offset + 1 := by
      rw [hposition]
      exact Function.update_self _ _ _
    have hother : ∀ tp, tp ≠ m.tp → t.position tp = w.position tp := fun tp htp => by
      rw [hposition]
      exact Function.update_of_ne htp _ _
    have hcommitted_self : (t.broker.committed m.tp).getD 0 ≤ m.offset + 1 := by
      obtain heq | heq := hcommitted
      · rw [heq]
        exact hlow.trans (Nat.le_succ _)
      · rw [heq]
        simp
    have hcommitted_other : ∀ tp, tp ≠ m.tp → t.broker.committed tp = w.broker.committed tp := by
      intro tp htp
      obtain heq | heq := hcommitted
      · rw [heq]
        rfl
      · rw [heq]
        exact Function.update_of_ne htp _ _
    refine ⟨fun id hid => ?_, fun tp htp => ?_, ht.txn_eq⟩
    · by_cases heq : id = m.id
      · exact .inl (.inr ⟨heq, hd⟩)
      · obtain hdone | ⟨hle, hsame, hdiff⟩ := h.before hpoll ((hold id hid).resolve_right heq) heq
        · exact .inl (.inl hdone)
        · refine .inr ?_
          by_cases htp : id.tp = m.tp
          · have hlt := hsame htp
            rw [htp, hself]
            exact ⟨by omega, fun _ => hlt⟩
          · rw [hcommitted_other _ htp, hother _ htp, hassignment]
            exact ⟨hle, hdiff htp⟩
    · obtain rfl | hne := eq_or_ne tp m.tp
      · rw [hself]
        exact hcommitted_self
      · rw [hcommitted_other _ hne, hother _ hne]
        exact h.committed_le tp (hassignment ▸ htp)
  · -- gone back to: the partition is read from its offset on
    have hself : t.position m.tp = m.offset := by
      rw [hposition]
      exact Function.update_self _ _ _
    have hother : ∀ tp, tp ≠ m.tp → t.position tp = w.position tp := fun tp htp => by
      rw [hposition, Function.update_of_ne htp]
      exact Function.update_of_ne htp _ _
    have hcommitted' : t.broker.committed = w.broker.committed := hcommitted
    refine ⟨fun id hid => ?_, fun tp htp => ?_, ht.txn_eq⟩
    · rw [hcommitted', hassignment]
      by_cases heq : id = m.id
      · subst heq
        exact .inr ⟨hlow, fun _ => Nat.le_of_eq hself⟩
      · obtain hdone | ⟨hle, hsame, hdiff⟩ := h.before hpoll ((hold id hid).resolve_right heq) heq
        · exact .inl (.inl hdone)
        · refine .inr ⟨hle, fun hmem => ?_⟩
          by_cases htp : id.tp = m.tp
          · rw [htp, hself]
            exact Nat.le_of_lt (hsame htp)
          · rw [hother _ htp]
            exact hdiff htp hmem
    · rw [hcommitted']
      obtain rfl | hne := eq_or_ne tp m.tp
      · rw [hself]
        exact hlow
      · rw [hother _ hne]
        exact h.committed_le tp (hassignment ▸ htp)

/-! ## Runs -/

theorem wp_restore_keeps {ps : List Nat} :
    wp ((buildStateStore backend d groupId env).restore ps) (fun _ t => Keeps w t)
      (fun _ t => Keeps w t) w := by
  have hkeeps : ∀ n s, Keeps w { w with
      store := s, crashIn := n, trace := w.trace ++ [.restore ps] } :=
    fun _ _ => ⟨rfl, rfl, rfl, rfl, poll_mem_append (by simp), id⟩
  cases backend with
  | memory => exact .refl w
  | «local» => exact wp_restore (fun _ n s => hkeeps n s) fun n s _ => hkeeps n s

theorem wp_forget_keeps {ps : List Nat} :
    wp ((buildStateStore backend d groupId env).forget ps) (fun _ t => Keeps w t)
      (fun _ t => Keeps w t) w := by
  cases backend with
  | memory => exact ⟨rfl, rfl, rfl, rfl, fun _ => Iff.rfl, id⟩
  | «local» =>
    exact wp_forget (fun _ => .refl w) (.refl w) (fun _ _ _ _ _ _ hs => .of_served hs)
      fun _ _ _ _ _ hs _ => .of_served hs

theorem wp_settle_direct {store : StateStore} {R : Unit → World → Prop} {E : Exn → World → Prop}
    (hx : c.settings.exactlyOnce = false) (h : R ⟨⟩ w) : wp (settle c store env) R E w := by
  unfold settle commits buildCommitStrategy
  rw [hx]
  exact h

theorem wp_abort_direct {reason : String} {R : List Nat → World → Prop} {E : Exn → World → Prop}
    (hx : c.settings.exactlyOnce = false) (h : R [] w) : wp ((commits c env).abort reason) R E w := by
  unfold commits buildCommitStrategy
  rw [hx]
  exact h

/-- **One step under the container** leaves nothing behind that was not disposed of. -/
theorem wp_lifeStep_safe (hx : c.settings.exactlyOnce = false)
    (horder : c.settings.stateWriteOrder = .stateFirst) (l : Env × Label) (h : Safe D w)
    (htakes : Takes w l) (hseek : SeeksBack c w l) :
    wp (lifeStep c backend l) (fun _ t => Safe (fun id => D id ∨ DisposedOf c backend id w l t) t)
      (fun _ _ => False) w := by
  obtain ⟨env, l⟩ := l
  have hset : Keeps w { w with crashIn := env.crashIn } := ⟨rfl, rfl, rfl, rfl, fun _ => Iff.rfl, id⟩
  have hold : ∀ {t}, Safe D t → Safe (fun id => D id ∨ DisposedOf c backend id w (env, l) t) t :=
    fun ht => ht.mono fun _ => .inl
  have hdied : ∀ {t}, Keeps w t → Safe (fun id => D id ∨
      DisposedOf c backend id w (env, l) (ServiceConsumer.restart t)) (ServiceConsumer.restart t) :=
    fun hk => (h.keeps hk).restart.mono fun _ => .inl
  simp only [lifeStep, wp_tryCatch, wp_modify, step, wp_bind]
  cases l with
  | assign tps =>
    simp only [onAssign, wp_bind, wp_modify]
    refine wp_mono wp_restore_keeps (fun _ t ht => ?_) fun _ t ht => hdied (hset.trans ht)
    exact hold ((h.keeps (hset.trans ht)).assign tps)
  | revoke tps =>
    simp only [onRevoke, ServiceConsumer.forget, wp_bind, wp_modify]
    refine wp_abort_direct hx (wp_mono wp_forget_keeps (fun _ t ht => ?_) fun _ t ht => ?_)
    · exact hold ((h.keeps (hset.trans ht)).unassign tps)
    · exact hdied (hset.trans ht)
  | lost tps =>
    simp only [onLost, ServiceConsumer.forget, wp_bind, wp_modify]
    refine wp_abort_direct hx (wp_mono wp_forget_keeps (fun _ t ht => ?_) fun _ t ht => ?_)
    · exact hold ((h.keeps (hset.trans ht)).unassign tps)
    · exact hdied (hset.trans ht)
  | idle => exact wp_settle_direct hx (hold (h.keeps hset))
  | error e fatal =>
    simp only [handleError, wp_ite, wp_pure, wp_throw]
    exact ⟨fun _ => hold (h.keeps hset), fun _ => ⟨fun _ => hdied hset, fun _ => hold (h.keeps hset)⟩⟩
  | message m =>
    simp only [receive, wp_bind, wp_modify, wp_record]
    have hpoll := htakes m rfl
    have hset' : Safe D { w with crashIn := env.crashIn } := h.keeps hset
    have hpoll' : Polled { w with crashIn := env.crashIn } m := ⟨hpoll.assigned, hpoll.position_le, hpoll.next⟩
    have hturn : wp (handleMessage c (buildStateStore backend c.toDeployment c.groupId env) env m)
        (fun _ t => TurnEnd c backend env m (received { w with crashIn := env.crashIn } m) t)
        (fun _ t => Keeps (received { w with crashIn := env.crashIn } m) t)
        (received { w with crashIn := env.crashIn } m) :=
      wp_handleMessage_turnEnd hx horder h.txn_eq rfl hseek
    refine wp_mono hturn (fun _ t ht => wp_settle_direct hx ?_) fun _ t ht => ?_
    · refine (hset'.turnEnd hpoll' ht).mono fun id hid => hid.imp_right ?_
      rintro ⟨heq, hd⟩
      exact ⟨m, rfl, heq.symm, hd.from⟩
    · exact (hset'.died hpoll' ht).mono fun _ => .inl

/-- **No message is skipped**: in every run of the service under its container, with any failures of
publications, flushes and commits and any crashes, in which a message whose copy is not acknowledged
is always gone back to, every message below a committed offset was disposed of. -/
theorem no_message_skipped (c : Service) (backend : StateBackend) (ls : List (Env × Label)) (w : World)
    (hx : c.settings.exactlyOnce = false) (horder : c.settings.stateWriteOrder = .stateFirst)
    (hw : Built w) (hls : Along (lifeStep c backend) (fun w l => Takes w l ∧ SeeksBack c w l) ls w) :
    wp (ls.forM (lifeStep c backend)) (fun _ t => ∀ id o, .poll id ∈ t.trace →
        t.broker.committed id.tp = some o → id.offset < o →
        Sometime (lifeStep c backend) (DisposedOf c backend id) ls w) (fun _ _ => False) w := by
  have hstart : Safe (fun id => Sometime (lifeStep c backend) (DisposedOf c backend id) [] w) w := by
    refine ⟨fun id hid => ?_, fun tp htp => ?_, ?_⟩
    · rw [hw.trace_eq] at hid
      cases hid
    · rw [hw.assignment_eq] at htp
      cases htp
    · rw [hw.producer_eq]
  have hrun := wp_run_history (J := fun pre t =>
    Safe (fun id => Sometime (lifeStep c backend) (DisposedOf c backend id) pre w) t) (E := fun _ _ => False)
    (fun pre l t hpre hsafe hl => ?_) hstart hls
  · refine wp_mono hrun (fun _ t ht id o hpoll ho hlt => ?_) fun _ _ he => he
    refine (ht.accounted id hpoll).resolve_right fun hid => ?_
    have hle := hid.1
    rw [ho, Option.getD_some] at hle
    omega
  · refine wp_mono (wp_exec (wp_lifeStep_safe hx horder l hsafe hl.1 hl.2)) (fun _ u hu => ?_)
      fun _ _ he => he
    refine hu.2.mono fun id hid => ?_
    obtain hbefore | hnow := hid
    · exact hbefore.append [l]
    · exact sometime_concat hpre hu.1 hnow

/-! A partition of messages that do not decode. -/

def undecoding : Service where
  toDeployment := .onePartition {} fun _ => .invalid "not JSON"
  name := "packing"
  handlers := []

def garbled (offset : Nat) : Message where
  topic := "order-lifecycle"
  partition := 0
  offset := offset
  key := none
  value := some "v".toUTF8
  headers := []
  timestamp := 0

def assignedLifecycle : Env × Label := ({}, .assign [⟨"order-lifecycle", 0⟩])

/-- The dead-letter copy is refused; the seek back is as `seek` says. -/
def refusedCopy (seek : Option KafkaException) : Env × Label :=
  ({ produce := some .buffer, seek := fun _ => seek }, .message (garbled 0))

def deadLettered (offset : Nat) : Env × Label :=
  ({ servedByFlush := [⟨"order-lifecycle.dlq", 0⟩] }, .message (garbled offset))

theorem no_message_skipped_refused :
    wp ([assignedLifecycle, refusedCopy none, deadLettered 0].forM (lifeStep undecoding .local))
      (fun _ t => ∀ id o, .poll id ∈ t.trace → t.broker.committed id.tp = some o → id.offset < o →
        Sometime (lifeStep undecoding .local) (DisposedOf undecoding .local id)
          [assignedLifecycle, refusedCopy none, deadLettered 0] {}) (fun _ _ => False) {} := by
  refine no_message_skipped undecoding .local _ {} rfl rfl ⟨rfl, rfl, rfl, rfl, rfl⟩ ?_
  refine .cons ⟨fun _ h => (nomatch h), fun _ _ _ h => (nomatch h)⟩
    (.cons ⟨?_, ?_⟩ (.cons ⟨?_, ?_⟩ trivial))
  · rintro m ⟨⟩
    exact ⟨by decide +kernel, by decide +kernel, fun id _ _ _ => Nat.zero_le _⟩
  · rintro m exc q ⟨⟩ _ _ _ _
    exact .inr rfl
  · rintro m ⟨⟩
    exact ⟨by decide +kernel, by decide +kernel, fun id _ _ _ => Nat.zero_le _⟩
  · rintro m exc q ⟨⟩ _ _ _ _
    exact .inr rfl

/-- A copy that is refused and a seek that fails are followed by the commit of the next message: the
first one is skipped. -/
theorem failed_seek_skips :
    Along (lifeStep undecoding .local) Takes
        [assignedLifecycle, refusedCopy (some ⟨none, "_STATE"⟩), deadLettered 1] {} ∧
      ¬ wp ([assignedLifecycle, refusedCopy (some ⟨none, "_STATE"⟩), deadLettered 1].forM
          (lifeStep undecoding .local))
        (fun _ t => ∀ id o, .poll id ∈ t.trace → t.broker.committed id.tp = some o → id.offset < o →
          Sometime (lifeStep undecoding .local) (DisposedOf undecoding .local id)
            [assignedLifecycle, refusedCopy (some ⟨none, "_STATE"⟩), deadLettered 1] {})
        (fun _ _ => False) {} := by
  constructor
  · refine .cons (fun _ h => (nomatch h)) (.cons ?_ (.cons ?_ trivial))
    · rintro m ⟨⟩
      exact ⟨by decide +kernel, by decide +kernel, fun id _ _ _ => Nat.zero_le _⟩
    · rintro m ⟨⟩
      exact ⟨by decide +kernel, by decide +kernel, fun id _ _ h => (Nat.le_of_eq (by decide +kernel)).trans h⟩
  · intro h
    have hend := exec_of_wp h (exec_eq_of_ok (by decide +kernel))
    have hskipped := hend (garbled 0).id 2 (List.mem_of_getElem? (i := 1) rfl) (by decide +kernel)
      (by decide)
    obtain ⟨pre, l, post, t, u, hls, hpre, hl, m, hm, hid, hd⟩ := hskipped
    -- the only turn of the message is the second step, which delivered nothing
    match pre, hls with
    | [], hls =>
      obtain ⟨rfl, -⟩ := List.cons.inj hls
      cases hm
    | [first], hls =>
      obtain rfl : assignedLifecycle = first := (List.cons.inj hls).1
      obtain ⟨rfl, -⟩ := List.cons.inj (List.cons.inj hls).2
      obtain rfl : _ = t := congrArg Prod.snd hpre
      obtain rfl : _ = u := congrArg Prod.snd hl
      cases hm
      cases hd with
      | ignored h => exact absurd h (by decide +kernel)
      | deleted h => cases h
      | routed exc q _ _ h => cases h
      | folded value event _ h => cases h
    | [_, _], hls =>
      obtain ⟨rfl, -⟩ := List.cons.inj (List.cons.inj (List.cons.inj hls).2).2
      cases hm
      cases hid
    | _ :: _ :: _ :: pre, hls =>
      have hlength := congrArg List.length hls
      simp at hlength

end ServiceConsumer

end OrderService
