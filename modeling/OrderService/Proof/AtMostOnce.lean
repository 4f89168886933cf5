import OrderService.Lib.Watermark
import OrderService.Proof.Crashes

/-!
# At most once

Under `STATE_WRITE_ORDER=offset_first` an offset is committed before its fold is written. A process that dies
in between and is started again reads on behind the offset: no event is folded twice, whatever dies, and what
was not folded when its offset was committed never is (`at_most_once`). The committed offsets are a
watermark, and what a step folds lies between where they were and where it leaves them (`MovesOn`).
-/

namespace OrderService

open Eff

variable {c : Service} {env : Env} {m : Message} {w w₀ t u : World} {calls : List Call} {q : Queued}
variable {b b' : Broker} {p p' : ProducerState} {d : Deployment}

/-! ## What is folded -/

/-- The messages whose fold was handed to the producer. -/
def foldedIn (calls : List Call) : List MessageId :=
  calls.filterMap fun
    | .produce q true =>
      match q.payload with
      | .fold _ (some _) => some q.source
      | _ => none
    | _ => none

@[simp] theorem foldedIn_append (l₁ l₂ : List Call) : foldedIn (l₁ ++ l₂) = foldedIn l₁ ++ foldedIn l₂ :=
  List.filterMap_append

theorem foldedIn_refused (h : ∀ call ∈ calls, call = .produce q false) : foldedIn calls = [] := by
  refine List.filterMap_eq_nil_iff.2 fun call hcall => ?_
  rw [h call hcall]

theorem Published.foldedIn_eq (h : Published d q b p b' p' calls) :
    foldedIn calls = foldedIn [.produce q true] := by
  obtain ⟨failed, hfailed, rfl⟩ := h.calls_eq
  rw [foldedIn_append, foldedIn_refused hfailed, List.nil_append]

theorem foldedIn_copy (h : q.isFold = false) : foldedIn [.produce q true] = [] := by
  unfold Queued.isFold at h
  cases hpayload : q.payload with
  | fold k v => simp [hpayload] at h
  | copy key value headers => simp [foldedIn, hpayload]

theorem foldedIn_changelogRecord (handling : MessageId) (k : String) (v : Option Row) :
    foldedIn [.produce (LocalStateStore.changelogRecord c.toDeployment c.groupId env handling k v) true] =
      if v.isSome then [handling] else [] := by
  cases v <;> rfl

namespace OffsetFirst

/-! ## Moving on -/

/-- The committed offsets, 0 where nothing was committed. -/
def marks (w : World) (tp : TopicPartition) : Nat := (w.broker.committed tp).getD 0

theorem marks_congr (h : t.broker.committed = w.broker.committed) : marks t = marks w := by
  unfold marks
  rw [h]

/-- What was folded on the way from `w` to `t` lies between the committed offsets of the two. -/
def MovesOn (w t : World) : Prop :=
  ∃ new, foldedIn t.trace = foldedIn w.trace ++ new ∧
    Watermark.Between MessageId.tp MessageId.offset (marks w) (marks t) new

theorem MovesOn.trans (h : MovesOn w t) (h' : MovesOn t u) : MovesOn w u := by
  obtain ⟨new, hnew, hbetween⟩ := h
  obtain ⟨more, hmore, hbetween'⟩ := h'
  exact ⟨new ++ more, by rw [hmore, hnew, List.append_assoc], hbetween.append hbetween'⟩

/-- Nothing was folded, and nothing committed. -/
theorem MovesOn.still (hfolded : foldedIn t.trace = foldedIn w.trace)
    (hcommitted : t.broker.committed = w.broker.committed) : MovesOn w t := by
  refine ⟨[], by rw [hfolded, List.append_nil], .nil fun tp => ?_⟩
  rw [marks_congr hcommitted]

/-- No assigned topic-partition is read below its committed offset. -/
def Positioned (w : World) : Prop := ∀ tp ∈ w.assignment, marks w tp ≤ w.position tp

theorem Positioned.congr (h : Positioned w) (hcommitted : t.broker.committed = w.broker.committed)
    (hassignment : t.assignment = w.assignment) (hposition : t.position = w.position) : Positioned t := by
  unfold Positioned
  rw [marks_congr hcommitted, hassignment, hposition]
  exact h

/-- While `m`, which was received after `w₀`, is not settled. -/
structure Underway (m : Message) (w₀ w : World) : Prop where
  folded_eq : foldedIn w.trace = foldedIn w₀.trace
  committed_eq : w.broker.committed = w₀.broker.committed
  positioned : Positioned w
  low : marks w₀ m.tp ≤ m.offset
  position_eq : w.position m.tp = m.offset + 1
  handling_eq : w.handling = m.id

/-- When its offset is committed. -/
structure Noted (m : Message) (w₀ w : World) : Prop where
  folded_eq : foldedIn w.trace = foldedIn w₀.trace
  marks_eq : marks w = Function.update (marks w₀) m.tp (m.offset + 1)
  positioned : Positioned w
  low : marks w₀ m.tp ≤ m.offset
  handling_eq : w.handling = m.id

theorem Underway.movesOn (h : Underway m w₀ w) : MovesOn w₀ w := .still h.folded_eq h.committed_eq

theorem Underway.congr (h : Underway m w₀ w) (hfolded : foldedIn t.trace = foldedIn w.trace)
    (hcommitted : t.broker.committed = w.broker.committed) (hassignment : t.assignment = w.assignment)
    (hposition : t.position = w.position) (hhandling : t.handling = w.handling) : Underway m w₀ t where
  folded_eq := hfolded.trans h.folded_eq
  committed_eq := hcommitted.trans h.committed_eq
  positioned := h.positioned.congr hcommitted hassignment hposition
  low := h.low
  position_eq := by rw [hposition, h.position_eq]
  handling_eq := hhandling.trans h.handling_eq

theorem Noted.marks_le (h : Noted m w₀ w) (tp : TopicPartition) : marks w₀ tp ≤ marks w tp := by
  rw [h.marks_eq]
  by_cases htp : tp = m.tp
  · subst htp
    rw [Function.update_self]
    exact Nat.le_succ_of_le h.low
  · rw [Function.update_of_ne htp]

theorem Noted.movesOn (h : Noted m w₀ w) : MovesOn w₀ w :=
  ⟨[], by rw [h.folded_eq, List.append_nil], .nil h.marks_le⟩

theorem Noted.congr (h : Noted m w₀ w) (hfolded : foldedIn t.trace = foldedIn w.trace)
    (hcommitted : t.broker.committed = w.broker.committed) (hassignment : t.assignment = w.assignment)
    (hposition : t.position = w.position) (hhandling : t.handling = w.handling) : Noted m w₀ t where
  folded_eq := hfolded.trans h.folded_eq
  marks_eq := by rw [marks_congr hcommitted, h.marks_eq]
  positioned := h.positioned.congr hcommitted hassignment hposition
  low := h.low
  handling_eq := hhandling.trans h.handling_eq

/-- The fold of `m` is handed to the producer once its offset is committed. -/
theorem Noted.folded (h : Noted m w₀ w) (hfolded : foldedIn t.trace = foldedIn w.trace ++ [m.id])
    (hcommitted : t.broker.committed = w.broker.committed) : MovesOn w₀ t := by
  refine ⟨[m.id], by rw [hfolded, h.folded_eq], ?_⟩
  rw [marks_congr hcommitted]
  refine .single h.marks_le h.low ?_
  rw [h.marks_eq]
  change m.offset < Function.update (marks w₀) m.tp (m.offset + 1) m.tp
  rw [Function.update_self]
  exact Nat.lt_succ_self _

/-- The commit of the offset. -/
theorem Underway.noted {call : Call} (h : Underway m w₀ w) (hcall : foldedIn [call] = []) (n : Option Nat) :
    Noted m w₀ { w with
      broker := { w.broker with
        committed := Function.update w.broker.committed m.tp (some (m.offset + 1)) }
      crashIn := n, trace := w.trace ++ [call] } := by
  have hmarks : ∀ tp, (Function.update w.broker.committed m.tp (some (m.offset + 1)) tp).getD 0 =
      Function.update (marks w₀) m.tp (m.offset + 1) tp := by
    intro tp
    by_cases htp : tp = m.tp
    · subst htp
      rw [Function.update_self, Function.update_self]
      rfl
    · rw [Function.update_of_ne htp, Function.update_of_ne htp, h.committed_eq]
      rfl
  refine ⟨?_, funext hmarks, fun tp htp => ?_, h.low, h.handling_eq⟩
  · rw [foldedIn_append, hcall, List.append_nil]
    exact h.folded_eq
  · change (Function.update w.broker.committed m.tp (some (m.offset + 1)) tp).getD 0 ≤ w.position tp
    by_cases heq : tp = m.tp
    · subst heq
      rw [Function.update_self, h.position_eq]
      exact Nat.le_refl _
    · rw [Function.update_of_ne heq]
      exact h.positioned tp htp

/-! ## The exits of a message -/

theorem wp_commit_noted (hx : c.settings.exactlyOnce = false) (hcommit : env.commit = none)
    (h : Underway m w₀ w) :
    wp (ServiceConsumer.commit c env m) (fun _ => Noted m w₀) (fun _ => MovesOn w₀) w := by
  unfold ServiceConsumer.commit ServiceConsumer.commits buildCommitStrategy
  rw [if_neg (by simp [hx])]
  exact wp_directNote h.movesOn (fun _ hrejected => absurd hcommit hrejected) fun n _ => h.noted rfl n

/-- What a step leaves that ends. -/
def Through (w₀ t : World) : Prop := Positioned t ∧ MovesOn w₀ t

theorem wp_commit_through (hx : c.settings.exactlyOnce = false) (h : Underway m w₀ w) :
    wp (ServiceConsumer.commit c env m) (fun _ => Through w₀) (fun _ => MovesOn w₀) w := by
  unfold ServiceConsumer.commit ServiceConsumer.commits buildCommitStrategy
  rw [if_neg (by simp [hx])]
  refine wp_directNote h.movesOn (fun n _ => ?_) fun n _ => ?_
  · have hrejected : Underway m w₀ { w with
        crashIn := n, trace := w.trace ++ [.commit m.tp (m.offset + 1) false] } :=
      h.congr (by simp [foldedIn]) rfl rfl rfl rfl
    exact ⟨hrejected.positioned, hrejected.movesOn⟩
  · have hcall : foldedIn [.commit m.tp (m.offset + 1) true] = [] := rfl
    have hnoted := h.noted hcall n
    exact ⟨hnoted.positioned, hnoted.movesOn⟩

theorem wp_rewind_through (h : Underway m w₀ w) :
    wp (ServiceConsumer.rewind env m) (fun _ => Through w₀) (fun _ => MovesOn w₀) w := by
  refine wp_rewind h.movesOn (fun n _ => ?_) fun n => ?_
  · have hrefused : Underway m w₀ { w with
        crashIn := n, trace := w.trace ++ [.seek m.tp m.offset false] } :=
      h.congr (by simp [foldedIn]) rfl rfl rfl rfl
    exact ⟨hrefused.positioned, hrefused.movesOn⟩
  · have hfolded : foldedIn (w.trace ++ [.seek m.tp m.offset true]) = foldedIn w₀.trace := by
      rw [foldedIn_append]
      exact (List.append_nil _).trans h.folded_eq
    refine ⟨fun tp htp => ?_, .still hfolded h.committed_eq⟩
    change marks w tp ≤ Function.update w.position m.tp m.offset tp
    by_cases heq : tp = m.tp
    · subst heq
      rw [Function.update_self, marks_congr h.committed_eq]
      exact h.low
    · rw [Function.update_of_ne heq]
      exact h.positioned tp htp

theorem wp_routeFailure_through {exc : Exn} {attempt : Int} (hx : c.settings.exactlyOnce = false)
    (h : Underway m w₀ w) :
    wp (ServiceConsumer.routeFailure c env m exc attempt) (fun _ => Through w₀) (fun _ => MovesOn w₀) w := by
  have hpublished : ∀ {q : Queued} {n b p pos}, IsFailureCopy c env m q →
      Published c.toDeployment q w.broker w.producer b p [.produce q true] →
      Underway m w₀ { w with
        broker := b, producer := p, store := { w.store with position := pos }, crashIn := n
        trace := w.trace ++ [.produce q true] } := fun hq hp =>
    h.congr (by rw [foldedIn_append, foldedIn_copy hq.isFold, List.append_nil]) hp.committed_eq rfl rfl rfl
  refine wp_routeFailure (fun _ => h.movesOn) ?_ ?_ ?_ ?_
  · exact fun q n b p pos hq hp => (hpublished hq hp).movesOn
  · exact fun q n _ _ => wp_rewind_through (h.congr (by simp [foldedIn]) rfl rfl rfl rfl)
  · exact fun q n b p pos hq _ hp => wp_rewind_through (hpublished hq hp)
  · exact fun q n b p pos hq hp _ => wp_commit_through hx (hpublished hq hp)

/-- A deletion is no fold. -/
theorem wp_handleTombstone_through (hx : c.settings.exactlyOnce = false) (h : Underway m w₀ w) :
    wp (ServiceConsumer.handleTombstone c (localStateStore c.toDeployment c.groupId env) env m m.partition)
      (fun _ => Through w₀) (fun _ => MovesOn w₀) w := by
  simp only [ServiceConsumer.handleTombstone, localStateStore, wp_bind]
  refine wp_delete rfl (fun _ n s b p calls hp => ?_) (fun n s b p calls hp => ?_)
    fun n s b p calls _ hp _ => ?_
  · refine .still ?_ (hp.committed_eq.trans h.committed_eq)
    rw [foldedIn_append, foldedIn_refused hp.calls_eq, List.append_nil]
    exact h.folded_eq
  · refine .still ?_ (hp.committed_eq.trans h.committed_eq)
    rw [foldedIn_append, hp.foldedIn_eq, foldedIn_changelogRecord]
    simpa using h.folded_eq
  · refine wp_commit_through hx (h.congr ?_ hp.committed_eq rfl rfl rfl)
    rw [foldedIn_append, hp.foldedIn_eq, foldedIn_changelogRecord]
    simp

/-- The offset, then the fold. -/
theorem wp_persistAndCommit_through {event : LifecycleEvent} {fold : OrderFold}
    (hx : c.settings.exactlyOnce = false) (horder : c.settings.stateWriteOrder = .offsetFirst)
    (hcommit : env.commit = none) (h : Underway m w₀ w) :
    wp (ServiceConsumer.persistAndCommit c (localStateStore c.toDeployment c.groupId env) env m event fold
      m.partition) (fun _ => Through w₀) (fun _ => MovesOn w₀) w := by
  unfold ServiceConsumer.persistAndCommit
  rw [if_neg (by simp [hx]), if_pos horder]
  simp only [wp_bind]
  refine wp_mono (wp_commit_noted hx hcommit h) (fun _ t ht => ?_) fun _ _ he => he
  unfold ServiceConsumer.crashIfConfigured
  split
  · simp only [wp_bind, wp_modify, wp_throw]
    exact Noted.movesOn (ht.congr rfl rfl rfl rfl rfl)
  · rw [wp_pure]
    simp only [ServiceConsumer.saveFold, localStateStore, wp_bind]
    have hfolded : ∀ {row : Row} {b p calls},
        Published c.toDeployment (LocalStateStore.changelogRecord c.toDeployment c.groupId env t.handling
          event.orderId (some row)) t.broker t.producer b p calls →
        foldedIn (t.trace ++ calls) = foldedIn t.trace ++ [m.id] := by
      intro row b p calls hp
      rw [foldedIn_append, hp.foldedIn_eq, foldedIn_changelogRecord, ht.handling_eq]
      rfl
    refine wp_save rfl rfl (fun _ n s b p calls hp => ?_) (fun n s b p calls hp => ?_)
      fun _ n s b p calls _ hp => ?_
    · refine Noted.movesOn (ht.congr ?_ hp.committed_eq rfl rfl rfl)
      rw [foldedIn_append, foldedIn_refused hp.calls_eq, List.append_nil]
    · exact ht.folded (hfolded hp) hp.committed_eq
    · rw [wp_pure]
      exact ⟨ht.positioned.congr hp.committed_eq rfl rfl, ht.folded (hfolded hp) hp.committed_eq⟩

/-- Each exit of the handler. -/
theorem wp_handleMessage_through (hx : c.settings.exactlyOnce = false)
    (horder : c.settings.stateWriteOrder = .offsetFirst)
    (hcommit : ∀ event, Folds c env m event → env.commit = none) (h : Underway m w₀ w) :
    wp (ServiceConsumer.handleMessage c (localStateStore c.toDeployment c.groupId env) env m)
      (fun _ => Through w₀) (fun _ => MovesOn w₀) w := by
  have hopened : ∀ n s reported, Underway m w₀ { w with store := s, reported := reported, crashIn := n } :=
    fun _ _ _ => h.congr rfl rfl rfl rfl rfl
  refine wp_handleMessage_folding ?_ (fun _ => ?_) (fun _ => ?_) ?_ ?_
  · exact fun _ n s reported => (hopened n s reported).movesOn
  · exact wp_handleTombstone_through hx h
  · exact wp_commit_through hx h
  · exact fun exc attempt n s reported _ _ => wp_routeFailure_through hx (hopened n s reported)
  · exact fun event n s reported hfolds _ =>
      wp_persistAndCommit_through hx horder (hcommit event hfolds) (hopened n s reported)

/-! ## Steps and runs -/

theorem Positioned.receive (h : Positioned w) (hassigned : m.tp ∈ w.assignment)
    (hposition : w.position m.tp ≤ m.offset) (n : Option Nat) : Underway m w { w with
      position := Function.update w.position m.tp (m.offset + 1), handling := m.id, crashIn := n
      trace := w.trace ++ [.poll m.id] } where
  folded_eq := by
    rw [foldedIn_append]
    exact List.append_nil _
  committed_eq := rfl
  positioned tp htp := by
    change marks w tp ≤ Function.update w.position m.tp (m.offset + 1) tp
    have hle := h tp htp
    by_cases heq : tp = m.tp
    · subst heq
      rw [Function.update_self]
      omega
    · rw [Function.update_of_ne heq]
      exact hle
  low := Nat.le_trans (h _ hassigned) hposition
  position_eq := Function.update_self ..
  handling_eq := rfl

theorem Positioned.unassign (h : Positioned w) (tps : List TopicPartition) : Positioned (w.unassign tps) :=
  fun tp htp => h tp (List.mem_filter.1 htp).1

/-- The steps considered: the client keeps its contract, and the commit of an event's offset is accepted. -/
def CommitsFolds (c : Service) (w : World) (l : (Env × ServiceConsumer.Label) × List TopicPartition) : Prop :=
  ServiceConsumer.Contract w l.1 ∧
    ∀ m event, l.1.2 = .message m → Folds c l.1.1 m event → l.1.1.commit = none

/-- **One step** moves on, and one that dies too. -/
theorem wp_localStep_through (hx : c.settings.exactlyOnce = false)
    (horder : c.settings.stateWriteOrder = .offsetFirst) (l : Env × ServiceConsumer.Label) (h : Positioned w)
    (hcontract : ServiceConsumer.Contract w l)
    (hcommit : ∀ m event, l.2 = .message m → Folds c l.1 m event → l.1.commit = none) :
    wp (ServiceConsumer.localStep c l) (fun _ => Through w) (fun _ => MovesOn w) w := by
  obtain ⟨env, l⟩ := l
  have hstill : ∀ {b p n s}, b.committed = w.broker.committed → MovesOn w { w with
      broker := b, producer := p, store := s, crashIn := n } := fun hb => .still rfl hb
  refine ServiceConsumer.wp_localStep (fun tps hl => ?_) (fun tps reason hl => ?_) (fun hl => ?_)
    (fun e fatal hl => ?_) fun m hl => ?_
  · have hrestored : foldedIn (w.trace ++ [.restore (tps.map (·.partition))]) = foldedIn w.trace := by
      rw [foldedIn_append]
      exact List.append_nil _
    refine wp_restore (fun _ _ _ => .still hrestored rfl) fun n s _ => ⟨fun tp htp => ?_, .still hrestored rfl⟩
    change marks w tp ≤ if tp ∈ tps then marks w tp else w.position tp
    by_cases hmem : tp ∈ tps
    · rw [if_pos hmem]
    · rw [if_neg hmem]
      exact h tp ((List.mem_append.1 htp).resolve_right hmem)
  · have habort : (ServiceConsumer.commits c env).abort reason = pure [] := by
      unfold ServiceConsumer.commits buildCommitStrategy
      rw [if_neg (by simp [hx])]
      rfl
    have hserved : ∀ {rs b p n s}, Served w.broker w.producer rs b p → Positioned { w with
        broker := b, producer := p, store := s, crashIn := n } := fun hs => h.congr hs.committed_eq rfl rfl
    simp only [habort, wp_bind, wp_pure]
    refine wp_forget (fun _ => ⟨Positioned.unassign h tps, .still rfl rfl⟩) (hstill rfl)
      (fun _ _ _ _ _ _ hs => hstill hs.committed_eq) fun n s rs b p hs _ => ?_
    exact ⟨(hserved hs).unassign tps, .still rfl hs.committed_eq⟩
  · exact wp_settle_direct hx ⟨h, hstill rfl⟩
  · exact ⟨⟨h, hstill rfl⟩, hstill rfl⟩
  · subst hl
    refine wp_mono (wp_handleMessage_through hx horder (hcommit m · rfl)
      (h.receive hcontract.1 hcontract.2 env.crashIn)) (fun _ _ ht => wp_settle_direct hx ht) fun _ _ he => he

theorem trace_serve (w : World) (lanes : List TopicPartition) : (w.serve lanes).trace = w.trace := by
  obtain ⟨rs, b, p, pos, -, heq⟩ := serve_eq w lanes
  rw [heq]

theorem through_lossyStep {l : (Env × ServiceConsumer.Label) × List TopicPartition}
    (hx : c.settings.exactlyOnce = false) (horder : c.settings.stateWriteOrder = .offsetFirst)
    (h : Positioned w) (hl : CommitsFolds c w l)
    (hrun : (ServiceConsumer.lossyStep c l).exec w = (.ok ⟨⟩, t)) : Through w t := by
  have hwp := wp_localStep_through hx horder l.1 h hl.1 hl.2
  rcases hlocal : (ServiceConsumer.localStep c l.1).exec w with ⟨res, u⟩
  have hthrough := exec_of_wp hwp hlocal
  cases res with
  | ok a =>
    cases a
    rw [ServiceConsumer.lossyStep_of_ok hlocal] at hrun
    cases hrun
    exact hthrough
  | error e =>
    rw [ServiceConsumer.lossyStep_of_error hlocal] at hrun
    cases hrun
    have hrestart : MovesOn u (ServiceConsumer.restart (u.serve l.2)) :=
      .still (congrArg foldedIn (trace_serve u l.2)) (committed_serve u l.2)
    refine ⟨fun tp htp => ?_, MovesOn.trans hthrough hrestart⟩
    cases htp

theorem through_run {ls : List ((Env × ServiceConsumer.Label) × List TopicPartition)}
    (hx : c.settings.exactlyOnce = false) (horder : c.settings.stateWriteOrder = .offsetFirst)
    (h : Positioned w) (hl : Along (ServiceConsumer.lossyStep c) (CommitsFolds c) ls w)
    (hrun : (ls.forM (ServiceConsumer.lossyStep c)).exec w = (.ok ⟨⟩, t)) : Through w t := by
  induction ls generalizing w with
  | nil =>
    cases hrun
    exact ⟨h, .still rfl rfl⟩
  | cons l ls ih =>
    obtain ⟨u, hstep, hrest⟩ := exec_forM_cons hrun
    obtain ⟨hu, hmoves⟩ := through_lossyStep hx horder h hl.1 hstep
    obtain ⟨ht, hmoves'⟩ := ih hu (hl.2 u hstep) hrest
    exact ⟨ht, hmoves.trans hmoves'⟩

end OffsetFirst

open OffsetFirst

/-- **At most once.** However often the process dies and is started again, the fold of no message is handed to
the producer twice, nor that of a message whose offset is not committed. And a message whose offset was
committed at some point without its fold is never folded after. -/
theorem at_most_once (c : Service) (ls : List ((Env × ServiceConsumer.Label) × List TopicPartition))
    (w t : World) (hx : c.settings.exactlyOnce = false)
    (horder : c.settings.stateWriteOrder = .offsetFirst) (hw : Built w)
    (hl : Along (ServiceConsumer.lossyStep c) (CommitsFolds c) ls w)
    (hrun : (ls.forM (ServiceConsumer.lossyStep c)).exec w = (.ok ⟨⟩, t)) :
    (foldedIn t.trace).Nodup ∧
    (∀ s ∈ foldedIn t.trace, s.offset < (t.broker.committed s.tp).getD 0) ∧
    ∀ pre post u, ls = pre ++ post → (pre.forM (ServiceConsumer.lossyStep c)).exec w = (.ok ⟨⟩, u) →
      ∀ s, s.offset < (u.broker.committed s.tp).getD 0 → s ∉ foldedIn u.trace → s ∉ foldedIn t.trace := by
  have hstart : Positioned w := fun tp htp => by
    rw [hw.assignment_eq] at htp
    cases htp
  have hnothing : foldedIn w.trace = [] := by
    rw [hw.trace_eq]
    rfl
  obtain ⟨-, new, hnew, hbetween⟩ := through_run hx horder hstart hl hrun
  rw [hnothing, List.nil_append] at hnew
  rw [hnew]
  refine ⟨hbetween.nodup, hbetween.below, ?_⟩
  rintro pre post u rfl hpre s hs hmissing
  obtain ⟨hu, -⟩ := through_run hx horder hstart hl.take hpre
  rw [exec_forM_append hpre] at hrun
  obtain ⟨-, more, hmore, hafter⟩ := through_run hx horder hu (hl.drop hpre) hrun
  rw [← hnew, hmore]
  intro hmem
  rcases List.mem_append.1 hmem with hmem | hmem
  · exact hmissing hmem
  · exact hafter.not_mem hs hmem

/-- A service that commits the offset first. -/
def offsetPacker : Service where
  toDeployment := .onePartition { stateWriteOrder := .offsetFirst } fun _ => .event onlyEvent
  name := "packing"
  handlers := []

def laterMessage : Message := { eventMessage with offset := 1 }

/-- The process dies between the offset and the fold of a message, and goes on with the next one. -/
def losesFold : List ((Env × ServiceConsumer.Label) × List TopicPartition) :=
  [(assignLifecycle, []), (({ crashIn := some 3 }, .message eventMessage), []),
    (assignLifecycle, []), (({}, .message laterMessage), [])]

theorem commitsFolds_assign {lanes : List TopicPartition} (h : ⟨"order-lifecycle", 0⟩ ∉ w.assignment) :
    CommitsFolds offsetPacker w (assignLifecycle, lanes) := by
  refine ⟨fun tp htp => ?_, fun _ _ hm => ?_⟩
  · rw [List.mem_singleton.1 htp]
    exact h
  · cases hm

theorem at_most_once_losesFold : ∃ t,
    (losesFold.forM (ServiceConsumer.lossyStep offsetPacker)).exec {} = (.ok ⟨⟩, t) ∧
    (foldedIn t.trace).Nodup ∧ eventMessage.id ∉ foldedIn t.trace ∧ laterMessage.id ∈ foldedIn t.trace := by
  have hl : Along (ServiceConsumer.lossyStep offsetPacker) (CommitsFolds offsetPacker) losesFold {} := by
    refine .cons (commitsFolds_assign ?_) (.cons ⟨⟨?_, ?_⟩, fun _ _ _ _ => rfl⟩
      (.cons (commitsFolds_assign ?_) (.cons ⟨⟨?_, ?_⟩, fun _ _ _ _ => rfl⟩ trivial)))
    all_goals decide +kernel
  obtain ⟨hnodup, -, hnever⟩ := at_most_once offsetPacker losesFold {} _ rfl rfl ⟨rfl, rfl, rfl, rfl, rfl⟩ hl
    (exec_eq_of_ok (by decide +kernel))
  refine ⟨_, exec_eq_of_ok (by decide +kernel), hnodup, ?_, by decide +kernel⟩
  exact hnever (losesFold.take 2) (losesFold.drop 2) _ rfl (exec_eq_of_ok (by decide +kernel)) _
    (by decide +kernel) (by decide +kernel)

end OrderService
