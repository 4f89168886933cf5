import OrderService.Proof.Crashes
import OrderService.Proof.EventLog

/-!
# Reports across crashes

A durable state is there so that a service reports no violation that is not in the data, and misses none. At
least once, with the state written first and rebuilt in full: what is stored of an order is at all times what
its events before some offset leave, and that offset is never before the read position. An event that is read
again is therefore a redelivery, or meets what it met the first time. So whatever dies and is started again,
what is reported of an order is what a process that reads its events once reports (`reports_survive_crashes`).
-/

namespace OrderService

open Eff KeyedLog

variable {c : Service} {k : String} {log : TopicPartition → Nat → Option Message} {tp : TopicPartition}
variable {env : Env} {m : Message} {e : LifecycleEvent} {w w₀ t : World} {new heard : List Violation}

/-! ## What a step reports, and where it leaves the offsets -/

/-- What a message is reported with, by what is stored when it comes. -/
def newReports (c : Service) (w : World) (m : Message) : List Violation :=
  match carried c m with
  | none => []
  | some e => reportOf (w.store.fold m.partition e.orderId) e

/-- The same of a step. -/
def reportedBy (c : Service) (w : World) (l : Env × ServiceConsumer.Label) : List Violation :=
  match l.2 with
  | .message m => newReports c w m
  | _ => []

variable {Q : Nat → Prop}

/-- The committed offset of a topic-partition and its read position are of `Q`. -/
structure OffsetsIn (Q : Nat → Prop) (tp : TopicPartition) (w : World) : Prop where
  committed : Q ((w.broker.committed tp).getD 0)
  position : tp ∈ w.assignment → Q (w.position tp)

/-- What the handling of a message has reported, and where the offsets are before it is settled. -/
structure Amid (Q : Nat → Prop) (tp : TopicPartition) (w₀ : World) (new : List Violation) (w : World) :
    Prop where
  offsets : OffsetsIn Q tp w
  committed_eq : w.broker.committed = w₀.broker.committed
  reported_eq : w.reported = w₀.reported ++ new

/-- What a step that ends leaves. -/
structure Concluded (Q : Nat → Prop) (tp : TopicPartition) (w₀ : World) (new : List Violation) (t : World) :
    Prop where
  offsets : OffsetsIn Q tp t
  reported_eq : t.reported = w₀.reported ++ new

/-- Nothing was reported, and nothing was written. -/
structure Silent (w₀ t : World) : Prop where
  broker_eq : t.broker = w₀.broker
  producer_eq : t.producer = w₀.producer
  reported_eq : t.reported = w₀.reported

/-- What a step that dies leaves. -/
structure Fell (w₀ : World) (new : List Violation) (t : World) : Prop where
  committed_eq : t.broker.committed = w₀.broker.committed
  reported : Silent w₀ t ∨ t.reported = w₀.reported ++ new

theorem Silent.fell (h : Silent w₀ t) : Fell w₀ new t :=
  ⟨by rw [h.broker_eq], .inl h⟩

theorem Amid.fell (h : Amid Q tp w₀ new w) : Fell w₀ new w := ⟨h.committed_eq, .inr h.reported_eq⟩

theorem Amid.concluded (h : Amid Q tp w₀ new w) : Concluded Q tp w₀ new w := ⟨h.offsets, h.reported_eq⟩

theorem OffsetsIn.congr (h : OffsetsIn Q tp w) (hcommitted : t.broker.committed = w.broker.committed)
    (hposition : t.position = w.position) (hassignment : t.assignment = w.assignment) : OffsetsIn Q tp t := by
  constructor
  · rw [hcommitted]
    exact h.committed
  · rw [hposition, hassignment]
    exact h.position

theorem Amid.congr (h : Amid Q tp w₀ new w) (hcommitted : t.broker.committed = w.broker.committed)
    (hposition : t.position = w.position) (hassignment : t.assignment = w.assignment)
    (hreported : t.reported = w.reported) : Amid Q tp w₀ new t :=
  ⟨h.offsets.congr hcommitted hposition hassignment, hcommitted.trans h.committed_eq,
    hreported.trans h.reported_eq⟩

theorem wp_commit_concluded (hx : c.settings.exactlyOnce = false) (h : Amid Q tp w₀ new w)
    (hm : m.tp = tp → Q (m.offset + 1)) :
    wp (ServiceConsumer.commit c env m) (fun _ => Concluded Q tp w₀ new) (fun _ => Fell w₀ new) w := by
  unfold ServiceConsumer.commit ServiceConsumer.commits buildCommitStrategy
  rw [if_neg (by simp [hx])]
  refine wp_directNote h.fell (fun _ _ => ?_) fun _ _ => ?_
  · exact Amid.concluded (h.congr rfl rfl rfl rfl)
  · refine ⟨⟨?_, h.offsets.position⟩, h.reported_eq⟩
    change Q ((Function.update w.broker.committed m.tp (some (m.offset + 1)) tp).getD 0)
    by_cases hlane : m.tp = tp
    · rw [hlane, Function.update_self]
      exact hm hlane
    · rw [Function.update_of_ne (Ne.symm hlane)]
      exact h.offsets.committed

theorem wp_rewind_concluded (h : Amid Q tp w₀ new w) (hm : m.tp = tp → Q m.offset) :
    wp (ServiceConsumer.rewind env m) (fun _ => Concluded Q tp w₀ new) (fun _ => Fell w₀ new) w := by
  refine wp_rewind h.fell (fun _ _ => ?_) fun _ => ?_
  · exact Amid.concluded (h.congr rfl rfl rfl rfl)
  · refine ⟨⟨h.offsets.committed, fun hassigned => ?_⟩, h.reported_eq⟩
    change Q (Function.update w.position m.tp m.offset tp)
    by_cases hlane : m.tp = tp
    · rw [hlane, Function.update_self]
      exact hm hlane
    · rw [Function.update_of_ne (Ne.symm hlane)]
      exact h.offsets.position hassigned

section Message

variable (hx : c.settings.exactlyOnce = false) (horder : c.settings.stateWriteOrder = .stateFirst)
variable (hm : m.tp = tp → Q m.offset ∧ Q (m.offset + 1))

include hx hm

theorem wp_routeFailure_concluded {exc : Exn} {attempt : Int} (h : Amid Q tp w₀ new w) :
    wp (ServiceConsumer.routeFailure c env m exc attempt) (fun _ => Concluded Q tp w₀ new)
      (fun _ => Fell w₀ new) w := by
  refine wp_routeFailure (fun _ => h.fell) ?_ ?_ ?_ ?_
  · exact fun q n b p pos _ hp => Amid.fell (h.congr hp.committed_eq rfl rfl rfl)
  · exact fun q n _ _ => wp_rewind_concluded (h.congr rfl rfl rfl rfl) fun hlane => (hm hlane).1
  · exact fun q n b p pos _ _ hp => wp_rewind_concluded (h.congr hp.committed_eq rfl rfl rfl)
      fun hlane => (hm hlane).1
  · exact fun q n b p pos _ hp _ => wp_commit_concluded hx (h.congr hp.committed_eq rfl rfl rfl)
      fun hlane => (hm hlane).2

theorem wp_handleTombstone_concluded (h : Amid Q tp w₀ new w) :
    wp (ServiceConsumer.handleTombstone c (localStateStore c.toDeployment c.groupId env) env m m.partition)
      (fun _ => Concluded Q tp w₀ new) (fun _ => Fell w₀ new) w := by
  simp only [ServiceConsumer.handleTombstone, localStateStore, wp_bind]
  refine wp_delete rfl (fun _ n s b p calls hp => ?_) (fun n s b p calls hp => ?_)
    fun n s b p calls _ hp _ => ?_
  · exact Amid.fell (h.congr hp.committed_eq rfl rfl rfl)
  · exact Amid.fell (h.congr hp.committed_eq rfl rfl rfl)
  · exact wp_commit_concluded hx (h.congr hp.committed_eq rfl rfl rfl) fun hlane => (hm hlane).2

include horder

theorem wp_persistAndCommit_concluded {fold : OrderFold} (h : Amid Q tp w₀ new w) :
    wp (ServiceConsumer.persistAndCommit c (localStateStore c.toDeployment c.groupId env) env m e fold
      m.partition) (fun _ => Concluded Q tp w₀ new) (fun _ => Fell w₀ new) w := by
  unfold ServiceConsumer.persistAndCommit
  rw [if_neg (by simp [hx]), if_neg (by simp [horder])]
  simp only [ServiceConsumer.saveFold, localStateStore, wp_bind]
  refine wp_save rfl rfl (fun _ n s b p calls hp => ?_) (fun n s b p calls hp => ?_)
    fun _ n s b p calls _ hp => ?_
  · exact Amid.fell (h.congr hp.committed_eq rfl rfl rfl)
  · exact Amid.fell (h.congr hp.committed_eq rfl rfl rfl)
  · have hsaved : Amid Q tp w₀ new { w with
        broker := b, producer := p, store := s, crashIn := n, trace := w.trace ++ calls } :=
      h.congr hp.committed_eq rfl rfl rfl
    rw [wp_pure]
    refine wp_storeFlush hsaved.fell (fun _ _ _ _ _ _ hs => ?_) fun n rs b' p' pos hs _ => ?_
    · exact Amid.fell (hsaved.congr hs.committed_eq rfl rfl rfl)
    · have hflushed : Amid Q tp w₀ new { w with
          broker := b', producer := p', store := { s with position := pos }, crashIn := n
          trace := w.trace ++ calls } := hsaved.congr hs.committed_eq rfl rfl rfl
      unfold ServiceConsumer.crashIfConfigured
      split
      · simp only [wp_bind, wp_modify, wp_throw]
        exact Amid.fell (hflushed.congr rfl rfl rfl rfl)
      · rw [wp_pure]
        exact wp_commit_concluded hx hflushed fun hlane => (hm hlane).2

/-- A message is reported with what is stored when it comes, or the process has written nothing when it dies. -/
theorem wp_handleMessage_concluded (h : OffsetsIn Q tp w) :
    wp (ServiceConsumer.handleMessage c (localStateStore c.toDeployment c.groupId env) env m)
      (fun _ => Concluded Q tp w (newReports c w m)) (fun _ => Fell w (newReports c w m)) w := by
  have hquiet : carried c m = none → Amid Q tp w (newReports c w m) w := by
    intro hnone
    have hnothing : newReports c w m = [] := by
      unfold newReports
      rw [hnone]
    exact ⟨h, rfl, by rw [hnothing, List.append_nil]⟩
  have hsilent : ∀ s n, Fell w (newReports c w m) { w with store := s, crashIn := n } :=
    fun s n => Silent.fell ⟨rfl, rfl, rfl⟩
  refine wp_handleMessage_exits (fun hnone => ?_) (fun hskipped => ?_)
    (fun _ _ _ _ _ _ => hsilent w.store w.crashIn) (fun value text hvalue hns hdecode => ?_) ?_
  · refine wp_handleTombstone_concluded hx hm (hquiet ?_)
    unfold carried
    rw [hnone]
  · refine wp_commit_concluded hx (hquiet ?_) fun hlane => (hm hlane).2
    unfold carried
    cases hvalue : m.value with
    | none => rfl
    | some value => simp only [if_pos hskipped]
  · refine wp_routeFailure_concluded hx hm (hquiet ?_)
    unfold carried
    rw [hvalue]
    simp only [if_neg hns]
    split
    · rename_i event hevent
      cases (decode_eq_ok.2 hevent).symm.trans hdecode
    · rfl
  · intro value event hvalue hns hdecode
    have hnew : newReports c w m = reportOf (w.store.fold m.partition event.orderId) event := by
      unfold newReports
      rw [carried_of_decode hvalue hns hdecode]
    refine wp_handleEvent_reports (fun _ => hsilent w.store w.crashIn) fun _ => ?_
    refine wp_load (fun _ n s => hsilent s n) fun n s _ => ?_
    have hamid : Amid Q tp w (newReports c w m) { w with
        store := s, crashIn := n
        reported := w.reported ++ reportOf (w.store.fold m.partition event.orderId) event } :=
      ⟨h.congr rfl rfl rfl, rfl, by rw [hnew]⟩
    refine wp_dispatch (fun _ _ _ => hamid.fell) (fun _ _ _ => ?_) fun _ => ?_
    · exact wp_routeFailure_concluded hx hm hamid
    · exact wp_persistAndCommit_concluded hx horder hm hamid

end Message

/-- **One step** reports its message by what is stored when it comes, and the offsets it leaves are those it
found or next to its message. -/
theorem wp_localStep_concluded (hx : c.settings.exactlyOnce = false)
    (horder : c.settings.stateWriteOrder = .stateFirst) (l : Env × ServiceConsumer.Label)
    (h : OffsetsIn Q tp w)
    (hm : ∀ m, l.2 = .message m → m.tp = tp → Q m.offset ∧ Q (m.offset + 1)) :
    wp (ServiceConsumer.localStep c l) (fun _ => Concluded Q tp w (reportedBy c w l))
      (fun _ => Fell w (reportedBy c w l)) w := by
  obtain ⟨env, l⟩ := l
  have hquiet : reportedBy c w (env, l) = [] → Amid Q tp w (reportedBy c w (env, l)) w := fun hnothing =>
    ⟨h, rfl, by rw [hnothing, List.append_nil]⟩
  have hsilent : ∀ s n calls, Fell w (reportedBy c w (env, l)) { w with
      store := s, crashIn := n, trace := calls } := fun s n calls => Silent.fell ⟨rfl, rfl, rfl⟩
  refine ServiceConsumer.wp_localStep (fun tps hl => ?_) (fun tps reason hl => ?_) (fun hl => ?_)
    (fun e fatal hl => ?_) fun m hl => ?_
  · subst hl
    refine wp_restore (fun _ n s => hsilent s n _) fun n s _ => ?_
    refine ⟨⟨h.committed, fun hassigned => ?_⟩, (hquiet rfl).reported_eq⟩
    change Q (if tp ∈ tps then (w.broker.committed tp).getD 0 else w.position tp)
    by_cases hmem : tp ∈ tps
    · rw [if_pos hmem]
      exact h.committed
    · rw [if_neg hmem]
      exact h.position ((List.mem_append.1 hassigned).resolve_right hmem)
  · have hnothing : reportedBy c w (env, l) = [] := by
      rcases hl with hl | hl <;> subst hl <;> rfl
    have hamid := hquiet hnothing
    have hkeeps : ∀ t : World, Amid Q tp w (reportedBy c w (env, l)) t →
        Concluded Q tp w (reportedBy c w (env, l)) (t.unassign tps) := fun t ht =>
      ⟨⟨ht.offsets.committed, fun hassigned => ht.offsets.position (List.mem_filter.1 hassigned).1⟩,
        ht.reported_eq⟩
    have habort : (ServiceConsumer.commits c env).abort reason = pure [] := by
      unfold ServiceConsumer.commits buildCommitStrategy
      rw [if_neg (by simp [hx])]
      rfl
    simp only [habort, wp_bind, wp_pure]
    refine wp_forget (fun _ => hkeeps _ (hamid.congr rfl rfl rfl rfl)) (hsilent w.store _ w.trace)
      (fun _ _ _ _ _ _ hs => Amid.fell (hamid.congr hs.committed_eq rfl rfl rfl)) fun n s rs b p hs _ => ?_
    exact hkeeps _ (hamid.congr hs.committed_eq rfl rfl rfl)
  · subst hl
    exact wp_settle_direct hx (Amid.concluded ((hquiet rfl).congr rfl rfl rfl rfl))
  · subst hl
    exact ⟨(Amid.concluded ((hquiet rfl).congr rfl rfl rfl rfl)), hsilent w.store _ w.trace⟩
  · subst hl
    have hreceived : OffsetsIn Q tp { w with
        position := Function.update w.position m.tp (m.offset + 1), handling := m.id
        crashIn := env.crashIn, trace := w.trace ++ [.poll m.id] } := by
      refine ⟨h.committed, fun hassigned => ?_⟩
      change Q (Function.update w.position m.tp (m.offset + 1) tp)
      by_cases hlane : m.tp = tp
      · rw [hlane, Function.update_self]
        exact (hm m rfl hlane).2
      · rw [Function.update_of_ne (Ne.symm hlane)]
        exact h.position hassigned
    refine wp_mono (wp_handleMessage_concluded hx horder (hm m rfl) hreceived) (fun _ t ht => ?_)
      fun _ t ht => ?_
    · exact wp_settle_direct hx ⟨ht.offsets, ht.reported_eq⟩
    · exact ⟨ht.committed_eq, ht.reported.imp_left fun h => ⟨h.broker_eq, h.producer_eq, h.reported_eq⟩⟩

theorem wp_localStep_reported (hx : c.settings.exactlyOnce = false)
    (horder : c.settings.stateWriteOrder = .stateFirst) (l : Env × ServiceConsumer.Label) (w : World) :
    wp (ServiceConsumer.localStep c l) (fun _ t => t.reported = w.reported ++ reportedBy c w l)
      (fun _ => Fell w (reportedBy c w l)) w := by
  have hoffsets : OffsetsIn (fun _ => True) ⟨"", 0⟩ w := ⟨trivial, fun _ => trivial⟩
  refine wp_mono (wp_localStep_concluded hx horder l hoffsets fun _ _ _ => ?_) (fun _ _ ht => ?_) fun _ _ h => h
  · exact ⟨trivial, trivial⟩
  · exact ht.reported_eq

/-! ## What is stored, beside the log -/

/-- The row is what the events of the order before some offset leave, with any count, and is not past sequence
`s`. -/
def Row.IsAt (c : Service) (k : String) (log : TopicPartition → Nat → Option Message) (tp : TopicPartition)
    (s : Nat) (row : Row) : Prop :=
  row.lastSequence ≤ s ∧ ∃ n, SameFold (some row) (rowAt c k log tp n)

variable {r : Option Row} {n s : Nat}

theorem Row.IsAt.mono {row : Row} {s' : Nat} (hs : s ≤ s') (h : row.IsAt c k log tp s) :
    row.IsAt c k log tp s' :=
  ⟨Nat.le_trans h.1 hs, h.2⟩

theorem sequenceOf_le (hr : ∀ row, r = some row → row.IsAt c k log tp s) : sequenceOf r ≤ s := by
  cases r with
  | none => exact Nat.zero_le s
  | some row => exact (hr row rfl).1

/-- An event of the log meets a row that is not before it: it is a redelivery, or meets what the events before
it left. -/
theorem meets (hr : ∀ row, r = some row → row.IsAt c k log tp s)
    (hle : sequenceAt c k log tp n ≤ sequenceOf r) (he : (log tp n).bind (eventOf c k) = some e) :
    (∃ row, r = some row ∧ e.sequence ≤ row.lastSequence) ∨ SameFold r (rowAt c k log tp n) := by
  cases r with
  | none =>
    right
    unfold rowAt
    rw [eventsBefore_eq_nil (Nat.le_zero.1 hle)]
    exact sameFold_refl _
  | some row =>
    obtain ⟨-, n', hrow⟩ := hr row rfl
    have hseq : row.lastSequence = sequenceAt c k log tp n' := hrow.sequenceOf_eq
    change sequenceAt c k log tp n ≤ row.lastSequence at hle
    by_cases hn : n' ≤ n
    · right
      exact hrow.trans (sameFold_rowAt hn (by omega))
    · left
      have hmono := sequenceAt_mono c k log tp (Nat.lt_of_not_le hn)
      rw [Nat.succ_eq_add_one, sequenceAt_event he] at hmono
      exact ⟨row, rfl, by omega⟩

/-- So it leaves such a row. -/
theorem admits_isAt {floor : Nat} (hle : sequenceAt c k log tp n ≤ floor)
    (he : (log tp n).bind (eventOf c k) = some e) (hs : max floor e.sequence ≤ s) :
    Admits (Row.IsAt c k log tp s) floor e := by
  intro r hr hfloor
  change floor ≤ sequenceOf r at hfloor
  obtain ⟨row, rfl, hredelivered⟩ | hfresh := meets hr (Nat.le_trans hle hfloor) he
  · obtain ⟨hrow, n', hsame⟩ := hr row rfl
    refine ⟨?_, n', (sameFold_deliver hredelivered).trans hsame⟩
    rw [Row.deliver_some, if_neg (by omega)]
    exact hrow
  · have hsame : SameFold (some (Row.deliver r e)) (rowAt c k log tp (n + 1)) := by
      rw [rowAt_event he]
      exact hfresh.deliver e
    have hseq : (Row.deliver r e).lastSequence = sequenceAt c k log tp (n + 1) := hsame.sequenceOf_eq
    refine ⟨?_, n + 1, hsame⟩
    rw [hseq, sequenceAt_event he]
    omega

/-- And reports nothing, or what it reports the first time. -/
theorem reportOn_meets (hr : ∀ row, r = some row → row.IsAt c k log tp s)
    (hle : sequenceAt c k log tp n ≤ sequenceOf r) (he : (log tp n).bind (eventOf c k) = some e) :
    reportOn r e ⊆ reportsBefore c k log tp (n + 1) ∧
      (sequenceOf r < e.sequence → reportOn r e = reportOn (rowAt c k log tp n) e) := by
  obtain ⟨row, rfl, hredelivered⟩ | hfresh := meets hr hle he
  · refine ⟨?_, fun hlt => absurd hredelivered (Nat.not_le.2 hlt)⟩
    rw [reportOn_redelivered hredelivered]
    exact List.nil_subset _
  · refine ⟨?_, fun _ => hfresh.reportOn_eq e⟩
    rw [reportsBefore_event he, hfresh.reportOn_eq e]
    exact List.subset_append_right _ _

/-- What is reported of it is what was missing of the reports up to its sequence. -/
theorem reportsBefore_advanced {i : Nat} (hr : ∀ row, r = some row → row.IsAt c k log tp s)
    (hle : sequenceAt c k log tp n ≤ sequenceOf r) (he : (log tp n).bind (eventOf c k) = some e)
    (hheard : ∀ i, sequenceAt c k log tp i ≤ s → reportsBefore c k log tp i ⊆ heard)
    (hi : sequenceAt c k log tp i ≤ max s e.sequence) :
    reportsBefore c k log tp i ⊆ heard ++ reportOn r e := by
  intro v hv
  by_cases hold : sequenceAt c k log tp i ≤ s
  · exact List.mem_append_left _ (hheard i hold hv)
  -- the event advances the order, and `i` is past it
  have hstored := sequenceOf_le hr
  have hafter := sequenceAt_event he
  have hpast : n + 1 ≤ i := by
    by_contra hlt
    have hmono := sequenceAt_mono c k log tp (Nat.le_of_lt_succ (Nat.lt_of_not_le hlt))
    omega
  have hfresh := (reportOn_meets hr hle he).2 (by omega)
  rw [reportsBefore_flat hpast (by omega), reportsBefore_event he] at hv
  rw [hfresh]
  rcases List.mem_append.1 hv with hv | hv
  · exact List.mem_append_left _ (hheard n (by omega) hv)
  · exact List.mem_append_right _ hv

/-! ## Runs -/

/-- The steps considered: those of `KeepsOrder`, in which the messages of the topic-partition are those of the
log, read in order, and each event of order `k` comes from there, to a handler that succeeds. -/
structure ReadsLane (c : Service) (k : String) (log : TopicPartition → Nat → Option Message)
    (tp : TopicPartition) (w : World) (l : (Env × ServiceConsumer.Label) × List TopicPartition) : Prop where
  keepsOrder : KeepsOrder c k w l
  inLog : ∀ m, l.1.2 = .message m → m.tp = tp → log tp m.offset = some m
  inOrder : ∀ m, l.1.2 = .message m → m.tp = tp →
    ∀ o, w.position tp ≤ o → o < m.offset → log tp o = none
  fromLane : ∀ m e, l.1.2 = .message m → eventOf c k m = some e → m.tp = tp ∧ Folds c l.1.1 m e

/-- What is reported in the steps of a run, those that die included. -/
def heardIn (c : Service) : List ((Env × ServiceConsumer.Label) × List TopicPartition) → World → List Violation
  | [], _ => []
  | l :: ls, w => ((ServiceConsumer.localStep c l.1).exec w).2.reported ++
      heardIn c ls ((ServiceConsumer.lossyStep c l).exec w).2

/-- What is stored of the order has not passed what was reported, and no offset has passed what is stored. -/
structure Told (c : Service) (k : String) (log : TopicPartition → Nat → Option Message) (tp : TopicPartition)
    (heard : List Violation) (w : World) : Prop where
  offsets : OffsetsIn (fun n => sequenceAt c k log tp n ≤ acknowledgedSequence c k w.broker) tp w
  rows : ∃ s, AtRest c (Row.IsAt c k log tp s) k (acknowledgedSequence c k w.broker) w ∧
    ∀ n, sequenceAt c k log tp n ≤ s → reportsBefore c k log tp n ⊆ heard
  sound : ∀ v ∈ w.reported, v.orderId = k → ∃ n, v ∈ reportsBefore c k log tp n

theorem reportOf_names {current : Option OrderFold} : ∀ v ∈ reportOf current e, v.orderId = e.orderId := by
  intro v hv
  exact (applyEvent_names current e v (List.mem_ite_nil_left.1 hv).2).1

section Step

variable {l : (Env × ServiceConsumer.Label) × List TopicPartition} {floor : Nat}

theorem KeepsOrder.assigned (h : KeepsOrder c k w l) (hm : l.1.2 = .message m) :
    m.tp ∈ w.assignment ∧ w.position m.tp ≤ m.offset := by
  obtain ⟨⟨env, label⟩, lanes⟩ := l
  subst hm
  exact h.1

theorem ReadsLane.logged (hl : ReadsLane c k log tp w l) (hm : l.1.2 = .message m) (hlane : m.tp = tp) :
    (log tp m.offset).bind (eventOf c k) = eventOf c k m := by
  rw [hl.inLog m hm hlane]
  rfl

/-- The offset of a message is where its topic-partition has been read to, as far as the order goes. -/
theorem ReadsLane.sequenceAt_le (hl : ReadsLane c k log tp w l) (hm : l.1.2 = .message m) (hlane : m.tp = tp)
    (h : OffsetsIn (fun n => sequenceAt c k log tp n ≤ floor) tp w) :
    sequenceAt c k log tp m.offset ≤ floor := by
  obtain ⟨hassigned, hposition⟩ := hl.keepsOrder.assigned hm
  rw [hlane] at hassigned hposition
  have hle := h.position hassigned
  unfold sequenceAt at hle ⊢
  rw [rowAt_congr hposition (hl.inOrder m hm hlane)]
  exact hle

/-- A step that brings no event of the order reports nothing of it. -/
theorem reportedBy_other (hother : ∀ m, l.1.2 = .message m → eventOf c k m = none) :
    ∀ v ∈ reportedBy c w l.1, v.orderId ≠ k := by
  obtain ⟨⟨env, label⟩, lanes⟩ := l
  intro v hv
  cases label with
  | message m =>
    change v ∈ newReports c w m at hv
    unfold newReports at hv
    split at hv
    · cases hv
    · rename_i e he
      intro hk
      have hnone := hother m rfl
      rw [eventOf_eq_some.2 ⟨he, (reportOf_names v hv).symm.trans hk⟩] at hnone
      cases hnone
  | _ => cases hv

/-- What a step reports is in the log, and what it may have written has been reported; `I` is what it keeps of
the rows. -/
structure Recounted (c : Service) (k : String) (log : TopicPartition → Nat → Option Message)
    (tp : TopicPartition) (heard : List Violation) (I : (Row → Prop) → World → Prop) (t : World) : Prop where
  sound : ∀ v ∈ t.reported, v.orderId = k → ∃ n, v ∈ reportsBefore c k log tp n
  rows : ∃ s, I (Row.IsAt c k log tp s) t ∧
    ∀ n, sequenceAt c k log tp n ≤ s → reportsBefore c k log tp n ⊆ heard ++ t.reported

/-- The order is at rest, and an event of it that the step brought is stored. -/
def CameThrough (c : Service) (k : String) (w : World) (l : (Env × ServiceConsumer.Label) × List TopicPartition)
    (P : Row → Prop) (t : World) : Prop :=
  AtRest c P k (acknowledgedSequence c k w.broker) t ∧ ∀ m, l.1.2 = .message m → Reached c k l.1.1 m t.broker

theorem sound_append (h : ∀ v ∈ w.reported, v.orderId = k → ∃ n, v ∈ reportsBefore c k log tp n)
    (hnew : ∀ v ∈ new, v.orderId = k → ∃ n, v ∈ reportsBefore c k log tp n)
    (ht : t.reported = w.reported ++ new) :
    ∀ v ∈ t.reported, v.orderId = k → ∃ n, v ∈ reportsBefore c k log tp n := by
  intro v hv
  rw [ht] at hv
  rcases List.mem_append.1 hv with hv | hv
  · exact h v hv
  · exact hnew v hv

variable (hx : c.settings.exactlyOnce = false) (horder : c.settings.stateWriteOrder = .stateFirst)
variable (hfull : c.settings.stateRebuild = .full)

include hx horder hfull

theorem Told.wp_other (h : Told c k log tp heard w) (hl : ReadsLane c k log tp w l)
    (hother : ∀ m, l.1.2 = .message m → eventOf c k m = none) :
    wp (ServiceConsumer.localStep c l.1)
      (fun _ => Recounted c k log tp heard (CameThrough c k w l))
      (fun _ => Recounted c k log tp heard fun P => Survives c P k (acknowledgedSequence c k w.broker)) w := by
  obtain ⟨s, hrest, hheard⟩ := h.rows
  obtain ⟨hcontract, hfate, hmessage⟩ := hl.keepsOrder
  have hsafe : ∀ m, l.1.2 = .message m →
      SafeFor c (Row.IsAt c k log tp s) k (acknowledgedSequence c k w.broker) l.1.1 m := by
    intro m hm
    refine ⟨fun e hfolds hk => ?_, (hmessage m hm).2⟩
    have hnone := hother m hm
    rw [eventOf_eq_some.2 ⟨hfolds.carried_eq, hk⟩] at hnone
    cases hnone
  have hreported := wp_localStep_reported hx horder l.1 w
  have hnew : ∀ v ∈ reportedBy c w l.1, v.orderId = k → ∃ n, v ∈ reportsBefore c k log tp n :=
    fun v hv hk => absurd hk (reportedBy_other hother v hv)
  have hcovered : ∀ t : World, ∀ n, sequenceAt c k log tp n ≤ s →
      reportsBefore c k log tp n ⊆ heard ++ t.reported :=
    fun t n hn v hv => List.mem_append_left _ (hheard n hn hv)
  refine wp_mono (wp_and (wp_localStep_atRest hx horder hfull l.1 hrest hcontract hfate hsafe) hreported) ?_ ?_
  · exact fun _ t ht => ⟨sound_append h.sound hnew ht.2, s, ht.1, hcovered t⟩
  · rintro _ t ⟨hsurvives, hfell⟩
    refine ⟨?_, s, hsurvives, hcovered t⟩
    rcases hfell.reported with hsilent | hreported
    · rw [hsilent.reported_eq]
      exact h.sound
    · exact sound_append h.sound hnew hreported

theorem Told.wp_event (h : Told c k log tp heard w) (hl : ReadsLane c k log tp w l)
    (hmessage : l.1.2 = .message m) (he : eventOf c k m = some e) :
    wp (ServiceConsumer.localStep c l.1)
      (fun _ => Recounted c k log tp heard (CameThrough c k w l))
      (fun _ => Recounted c k log tp heard fun P => Survives c P k (acknowledgedSequence c k w.broker)) w := by
  obtain ⟨s, hrest, hheard⟩ := h.rows
  obtain ⟨hcontract, hfate, hkeeps⟩ := hl.keepsOrder
  obtain ⟨hcarried, hk⟩ := eventOf_eq_some.1 he
  obtain ⟨hlane, hfolds⟩ := hl.fromLane m e hmessage he
  have hlog : (log tp m.offset).bind (eventOf c k) = some e := (hl.logged hmessage hlane).trans he
  have hpart : c.partitionOf k = m.partition := (hkeeps m hmessage).1 e hfolds hk
  have hrow : w.store.table m.partition k = acknowledgedRow c k w.broker := by
    rw [hrest.acknowledgedRow_eq, ← hpart]
    exact hrest.mirrors ⟨m.tp, (hl.keepsOrder.assigned hmessage).1, hpart.symm⟩
  have hbefore : sequenceAt c k log tp m.offset ≤ sequenceOf (acknowledgedRow c k w.broker) :=
    hl.sequenceAt_le hmessage hlane h.offsets
  have hrows : ∀ row, acknowledgedRow c k w.broker = some row → row.IsAt c k log tp s :=
    fun _ => hrest.toRecoverable.acknowledgedRow_mem
  have hacknowledged : acknowledgedSequence c k w.broker ≤ s := sequenceOf_le hrows
  have hnew : reportedBy c w l.1 = reportOn (acknowledgedRow c k w.broker) e := by
    unfold reportedBy newReports reportOn LocalStore.fold
    rw [hmessage]
    simp only [hcarried, hk, hrow]
  have hsubset := (reportOn_meets hrows hbefore hlog).1
  have hsafe : ∀ m', l.1.2 = .message m' → SafeFor c (Row.IsAt c k log tp (max s e.sequence)) k
      (acknowledgedSequence c k w.broker) l.1.1 m' := by
    intro m' hm'
    cases hmessage.symm.trans hm'
    refine ⟨fun e' hfolds' _ => ?_, (hkeeps m hmessage).2⟩
    cases hfolds.event_eq hfolds'
    exact ⟨admits_isAt hbefore hlog (by omega), hpart⟩
  have hstart := hrest.weaken (fun _ => Row.IsAt.mono (Nat.le_max_left s e.sequence)) (Nat.le_refl _)
  have hreported := wp_localStep_reported hx horder l.1 w
  have hsound : ∀ t : World, t.reported = w.reported ++ reportedBy c w l.1 →
      ∀ v ∈ t.reported, v.orderId = k → ∃ n, v ∈ reportsBefore c k log tp n := fun t =>
    sound_append h.sound fun v hv _ => ⟨m.offset + 1, hsubset (hnew ▸ hv)⟩
  have hcovered : ∀ t : World, t.reported = w.reported ++ reportedBy c w l.1 →
      ∀ n, sequenceAt c k log tp n ≤ max s e.sequence → reportsBefore c k log tp n ⊆ heard ++ t.reported := by
    intro t ht n hn v hv
    rw [ht, hnew]
    rcases List.mem_append.1 (reportsBefore_advanced hrows hbefore hlog hheard hn hv) with hv | hv
    · exact List.mem_append_left _ hv
    · exact List.mem_append_right _ (List.mem_append_right _ hv)
  refine wp_mono (wp_and (wp_localStep_atRest hx horder hfull l.1 hstart hcontract hfate hsafe) hreported) ?_ ?_
  · exact fun _ t ht => ⟨hsound t ht.2, _, ht.1, hcovered t ht.2⟩
  · rintro _ t ⟨hsurvives, hfell⟩
    rcases hfell.reported with hsilent | hreported
    · refine ⟨?_, s, ?_, fun n hn v hv => List.mem_append_left _ (hheard n hn hv)⟩
      · rw [hsilent.reported_eq]
        exact h.sound
      · unfold Survives
        rw [hsilent.broker_eq, hsilent.producer_eq]
        exact hrest.toRecoverable
    · exact ⟨hsound t hreported, _, hsurvives, hcovered t hreported⟩

theorem Told.wp_localStep (h : Told c k log tp heard w) (hl : ReadsLane c k log tp w l) :
    wp (ServiceConsumer.localStep c l.1)
      (fun _ => Recounted c k log tp heard (CameThrough c k w l))
      (fun _ => Recounted c k log tp heard fun P => Survives c P k (acknowledgedSequence c k w.broker)) w := by
  by_cases hother : ∀ m, l.1.2 = .message m → eventOf c k m = none
  · exact h.wp_other hx horder hfull hl hother
  · push Not at hother
    obtain ⟨m, hm, hne⟩ := hother
    obtain ⟨e, he⟩ := Option.ne_none_iff_exists'.1 hne
    exact h.wp_event hx horder hfull hl hm he

/-- A step that ends leaves the offsets where nothing stored is missed. -/
theorem Told.offsets_next (h : Told c k log tp heard w) (hl : ReadsLane c k log tp w l)
    (hreached : acknowledgedSequence c k w.broker ≤ acknowledgedSequence c k t.broker)
    (hevent : ∀ m, l.1.2 = .message m → Reached c k l.1.1 m t.broker)
    (hstep : (ServiceConsumer.localStep c l.1).exec w = (.ok ⟨⟩, t)) :
    OffsetsIn (fun n => sequenceAt c k log tp n ≤ acknowledgedSequence c k t.broker) tp t := by
  have hstart : OffsetsIn (fun n => sequenceAt c k log tp n ≤ acknowledgedSequence c k t.broker) tp w :=
    ⟨Nat.le_trans h.offsets.committed hreached,
      fun hassigned => Nat.le_trans (h.offsets.position hassigned) hreached⟩
  refine (exec_of_wp (wp_localStep_concluded hx horder l.1 hstart fun m hm hlane => ?_) hstep).offsets
  have hbefore := hl.sequenceAt_le hm hlane hstart
  have hlog := hl.logged hm hlane
  refine ⟨hbefore, ?_⟩
  cases he : eventOf c k m with
  | none =>
    rw [sequenceAt_other (hlog.trans he)]
    exact hbefore
  | some e =>
    have hafter := hevent m hm e (hl.fromLane m e hm he).2 (eventOf_eq_some.1 he).2
    rw [sequenceAt_event (hlog.trans he)]
    omega

/-- **One step** under the container. -/
theorem Told.next (h : Told c k log tp heard w) (hl : ReadsLane c k log tp w l)
    (hrun : (ServiceConsumer.lossyStep c l).exec w = (.ok ⟨⟩, t)) :
    Told c k log tp (heard ++ ((ServiceConsumer.localStep c l.1).exec w).2.reported) t ∧
      ∀ v ∈ ((ServiceConsumer.localStep c l.1).exec w).2.reported, v.orderId = k →
        ∃ n, v ∈ reportsBefore c k log tp n := by
  have hwp := h.wp_localStep hx horder hfull hl
  rcases hlocal : (ServiceConsumer.localStep c l.1).exec w with ⟨res, u⟩
  have hrecounted := exec_of_wp hwp hlocal
  cases res with
  | ok a =>
    cases a
    rw [ServiceConsumer.lossyStep_of_ok hlocal] at hrun
    cases hrun
    obtain ⟨hsound, s, ⟨hrest, hreached⟩, hheard⟩ := hrecounted
    refine ⟨⟨?_, ⟨s, hrest.weaken (fun _ h => h) (Nat.le_refl _), hheard⟩, hsound⟩, hsound⟩
    exact h.offsets_next hx horder hfull hl hrest.reached hreached hlocal
  | error exc =>
    obtain ⟨hsound, s, hsurvives, hheard⟩ := hrecounted
    have hcommitted : u.broker.committed = w.broker.committed :=
      (exec_of_wp (wp_localStep_reported hx horder l.1 w) hlocal).committed_eq
    have hrest := hsurvives.restart l.2
    rw [ServiceConsumer.lossyStep_of_error hlocal] at hrun
    cases hrun
    refine ⟨⟨⟨?_, fun hassigned => by cases hassigned⟩,
      ⟨s, hrest.weaken (fun _ h => h) (Nat.le_refl _), hheard⟩, fun v hv => by cases hv⟩, hsound⟩
    change sequenceAt c k log tp (((u.serve l.2).broker.committed tp).getD 0) ≤ _
    rw [committed_serve, hcommitted]
    exact Nat.le_trans h.offsets.committed hrest.reached

/-- **Whole runs**, however often the process dies. -/
theorem Told.run {ls : List ((Env × ServiceConsumer.Label) × List TopicPartition)}
    (h : Told c k log tp heard w)
    (hl : Along (ServiceConsumer.lossyStep c) (ReadsLane c k log tp) ls w)
    (hrun : (ls.forM (ServiceConsumer.lossyStep c)).exec w = (.ok ⟨⟩, t)) :
    Told c k log tp (heard ++ heardIn c ls w) t ∧
      ∀ v ∈ heardIn c ls w, v.orderId = k → ∃ n, v ∈ reportsBefore c k log tp n := by
  induction ls generalizing heard w with
  | nil =>
    cases hrun
    rw [heardIn, List.append_nil]
    exact ⟨h, fun v hv => by cases hv⟩
  | cons l ls ih =>
    obtain ⟨u, hstep, hrest⟩ := exec_forM_cons hrun
    obtain ⟨hnext, hsound⟩ := h.next hx horder hfull hl.1 hstep
    obtain ⟨htold, hsounds⟩ := ih hnext (hl.2 u hstep) hrest
    have hcons : heardIn c (l :: ls) w =
        ((ServiceConsumer.localStep c l.1).exec w).2.reported ++ heardIn c ls u := by
      rw [heardIn, hstep]
    rw [hcons, ← List.append_assoc]
    refine ⟨htold, fun v hv hk => ?_⟩
    rcases List.mem_append.1 hv with hv | hv
    · exact hsound v hv hk
    · exact hsounds v hv hk

end Step

theorem Told.start (hw : Built w) (hnew : ∀ v, (k, v) ∉ (w.broker.changelog (c.partitionOf k)).entries)
    (hbefore : eventsBefore c k log tp ((w.broker.committed tp).getD 0) = [])
    (hreported : ∀ v ∈ w.reported, v.orderId ≠ k) : Told c k log tp [] w := by
  have hrest : AtRest c (Row.IsAt c k log tp 0) k 0 w := .start hw hnew
  have hnone : acknowledgedRow c k w.broker = none := by
    cases hrow : acknowledgedRow c k w.broker with
    | none => rfl
    | some row => exact absurd (mem_of_replay hrow) (hnew _)
  have hzero : acknowledgedSequence c k w.broker = 0 := by
    unfold acknowledgedSequence
    rw [hnone]
    rfl
  refine ⟨⟨?_, fun hassigned => ?_⟩, ⟨0, ?_, fun n hn => ?_⟩, fun v hv hk => absurd hk (hreported v hv)⟩
  · unfold sequenceAt rowAt
    rw [hbefore]
    exact Nat.zero_le _
  · rw [hw.assignment_eq] at hassigned
    cases hassigned
  · rw [hzero]
    exact hrest
  · unfold reportsBefore
    rw [eventsBefore_eq_nil (Nat.le_zero.1 hn)]
    exact List.Subset.refl _

end OrderService
