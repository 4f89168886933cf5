import OrderService.Lib.Run
import OrderService.Proof.Restore
import OrderService.Proof.Runtime

/-!
# Every record inside its transaction

`observe` replays a trace of client calls against the transaction they find: a `produce` needs an open
one, and a commit needs the offset of every message that a record of the transaction was produced for.
The handler produces first and notes afterwards, and `note` is what opens the transaction, so a run is
accepted if every message that is not merely skipped finds the transaction open already
(`run_enclosed`), and the first event after a start is not (`first_event_outside`).
-/

namespace OrderService

open Eff

variable {c : Service} {env : Env} {w : World} {m : Message}

/-! ## Replaying a trace -/

/-- The offsets sent cover every message that a record was produced for. -/
def Transaction.covered (t : Transaction) : Bool :=
  t.records.all fun q => (t.offsets q.source.tp).any fun o => q.source.offset < o

/-- The transaction a call leaves open; nothing if the call is out of place. -/
def observe (t : Option Transaction) : Call → Option (Option Transaction)
  | .beginTransaction true => if t.isNone then some (some {}) else none
  | .produce q ok =>
    t.map fun t => some (if ok then { t with records := t.records ++ [q] } else t)
  | .sendOffsets offsets true =>
    t.map fun t => some { t with offsets := fun tp => (offsets tp).or (t.offsets tp) }
  | .commitTransaction true => if t.any Transaction.covered then some none else none
  | .abortTransaction true => t.map fun _ => none
  | _ => some t

/-- Every call of the trace is in place. -/
def Enclosed (calls : List Call) : Prop := (calls.foldlM observe none).isSome

/-- What the trace says is open is what is open on the producer. -/
def Tracked (w : World) : Prop := w.trace.foldlM observe none = some w.producer.txn

theorem Tracked.enclosed (h : Tracked w) : Enclosed w.trace := by
  unfold Enclosed
  rw [h]
  rfl

/-- A call in place moves the replay on. -/
theorem foldlM_observe {calls : List Call} (call : Call) {t t' : Option Transaction}
    (h : calls.foldlM observe none = some t) (hcall : observe t call = some t') :
    (calls ++ [call]).foldlM observe none = some t' := by
  rw [List.foldlM_append, h]
  simpa using hcall

/-- Attempts to produce that fail leave an open transaction as it was. -/
theorem foldlM_refused {calls more : List Call} {q : Queued} {t : Transaction}
    (h : calls.foldlM observe none = some (some t)) (hmore : ∀ c ∈ more, c = .produce q false) :
    (calls ++ more).foldlM observe none = some (some t) := by
  induction more generalizing calls with
  | nil => simpa using h
  | cons call more ih =>
    have hcall : call = .produce q false := hmore call (.head _)
    have hnext : (calls ++ [call]).foldlM observe none = some (some t) :=
      foldlM_observe _ h (by rw [hcall]; rfl)
    have hrest := ih hnext fun c hc => hmore c (.tail _ hc)
    rwa [List.append_assoc] at hrest

/-! ## The invariant -/

/-- The committer's offsets are of owned partitions and not past the read positions. -/
structure Noted (w : World) : Prop where
  assigned : ∀ tp o, w.committer.offsets tp = some o → tp ∈ w.assignment
  le_position : ∀ tp o, w.committer.offsets tp = some o → o ≤ w.position tp

/-- Between steps. -/
structure Enclosing (w : World) : Prop where
  tracked : Tracked w
  noted : Noted w
  closed : w.committer.isOpen = false → w.committer.offsets = fun _ => none
  covered : w.committer.isOpen = true → ∃ t, w.producer.txn = some t ∧
    ∀ q ∈ t.records, ∃ o, w.committer.offsets q.source.tp = some o ∧ q.source.offset < o

/-- While `m` is being handled; once it has `produced`, the transaction may hold a record of `m`, which
is not noted yet. -/
structure Handling (produced : Bool) (m : Message) (w : World) : Prop where
  tracked : Tracked w
  assigned : m.tp ∈ w.assignment
  handling : w.handling = m.id
  position_eq : w.position m.tp = m.offset + 1
  noted : ∀ tp o, w.committer.offsets tp = some o →
    tp ∈ w.assignment ∧ o ≤ if tp = m.tp then m.offset else w.position tp
  closed : w.committer.isOpen = false → w.committer.offsets = fun _ => none
  covered : w.committer.isOpen = true → ∃ t, w.producer.txn = some t ∧
    ∀ q ∈ t.records, produced = true ∧ q.source = m.id ∨
      ∃ o, w.committer.offsets q.source.tp = some o ∧ q.source.offset < o

/-! ## What the calls keep -/

theorem Tracked.quiet {call : Call} {n : Option Nat} (h : Tracked w)
    (hcall : ∀ t, observe t call = some t) :
    Tracked { w with crashIn := n, trace := w.trace ++ [call] } := foldlM_observe _ h (hcall _)

variable {produced : Bool}

theorem Handling.opened {s : LocalStore} {reported : List Violation} {n : Option Nat}
    (h : Handling produced m w) :
    Handling produced m { w with store := s, reported := reported, crashIn := n } :=
  ⟨h.tracked, h.assigned, h.handling, h.position_eq, h.noted, h.closed, h.covered⟩

theorem Handling.unpublished {q : Queued} {b : Broker} {p : ProducerState} {calls : List Call}
    (h : Handling produced m w) (hopen : w.committer.isOpen = true)
    (hp : Unpublished q w.broker w.producer b p calls) (s : LocalStore) (n : Option Nat) :
    Handling produced m { w with
      broker := b, producer := p, store := s, crashIn := n, trace := w.trace ++ calls } := by
  obtain ⟨t, htxn, hcovered⟩ := h.covered hopen
  obtain ⟨rs, hserved⟩ := hp.served
  have hp' : p.txn = some t := hserved.txn_eq.trans htxn
  refine ⟨?_, h.assigned, h.handling, h.position_eq, h.noted, h.closed, fun _ => ⟨t, hp', hcovered⟩⟩
  have htracked : w.trace.foldlM observe none = some (some t) := by rw [← htxn]; exact h.tracked
  have hrefused := foldlM_refused htracked hp.calls_eq
  unfold Tracked
  rw [hp']
  exact hrefused

theorem Handling.published {d : Deployment} {q : Queued} {b : Broker} {p : ProducerState}
    {calls : List Call} (h : Handling produced m w) (hopen : w.committer.isOpen = true)
    (hp : Published d q w.broker w.producer b p calls) (hq : q.source = m.id) (s : LocalStore)
    (n : Option Nat) :
    Handling true m { w with
      broker := b, producer := p, store := s, crashIn := n, trace := w.trace ++ calls } := by
  obtain ⟨t, htxn, hcovered⟩ := h.covered hopen
  have hp' : p.txn = some { t with records := t.records ++ [q] } := by rw [hp.txn_eq, htxn]; rfl
  obtain ⟨failed, hfailed, rfl⟩ := hp.calls_eq
  have htracked : w.trace.foldlM observe none = some (some t) := by rw [← htxn]; exact h.tracked
  have hrefused := foldlM_refused htracked hfailed
  refine ⟨?_, h.assigned, h.handling, h.position_eq, h.noted, h.closed, fun _ => ⟨_, hp', ?_⟩⟩
  · unfold Tracked
    rw [hp', ← List.append_assoc]
    exact foldlM_observe _ hrefused rfl
  · intro r hr
    rcases List.mem_append.1 hr with hr | hr
    · exact (hcovered r hr).imp_left fun ⟨_, hsource⟩ => ⟨rfl, hsource⟩
    · rw [List.mem_singleton.1 hr]
      exact .inl ⟨rfl, hq⟩

/-- The offsets once `m` is noted are within the read positions. -/
theorem Handling.noted_le (h : Handling produced m w) {tp : TopicPartition} {o : Nat}
    (ho : (w.committer.noted m).offsets tp = some o) : tp ∈ w.assignment ∧ o ≤ w.position tp := by
  simp only [CommitterState.noted] at ho
  by_cases htp : tp = m.tp
  · subst htp
    rw [Function.update_self] at ho
    obtain rfl := Option.some.inj ho
    exact ⟨h.assigned, Nat.le_of_eq h.position_eq.symm⟩
  · rw [Function.update_of_ne htp] at ho
    have hnoted := h.noted tp o ho
    rwa [if_neg htp] at hnoted

/-- Noting `m` covers its records, and covers the others as before. -/
theorem Handling.covered_noted (h : Handling produced m w) {q : Queued}
    (hq : produced = true ∧ q.source = m.id ∨
      ∃ o, w.committer.offsets q.source.tp = some o ∧ q.source.offset < o) :
    ∃ o, (w.committer.noted m).offsets q.source.tp = some o ∧ q.source.offset < o := by
  simp only [CommitterState.noted]
  by_cases htp : q.source.tp = m.tp
  · refine ⟨m.offset + 1, by rw [htp, Function.update_self], ?_⟩
    rcases hq with ⟨-, hsource⟩ | ⟨o, ho, hlt⟩
    · rw [hsource]
      exact Nat.lt_succ_self _
    · have hle := (h.noted _ o ho).2
      rw [if_pos htp] at hle
      omega
  · rw [Function.update_of_ne htp]
    rcases hq with ⟨-, hsource⟩ | hq
    · rw [hsource] at htp
      exact absurd rfl htp
    · exact hq

theorem Handling.note (h : Handling produced m w) (hopen : w.committer.isOpen = true) :
    Enclosing { w with committer := w.committer.noted m } where
  tracked := h.tracked
  noted := ⟨fun _ _ ho => (h.noted_le ho).1, fun _ _ ho => (h.noted_le ho).2⟩
  closed hclosed := by cases hclosed.symm.trans hopen
  covered _ := by
    obtain ⟨t, htxn, hcovered⟩ := h.covered hopen
    exact ⟨t, htxn, fun q hq => h.covered_noted (hcovered q hq)⟩

/-- A message that produced nothing may also open the transaction. -/
theorem Handling.begin (h : Handling produced m w) (htxn : w.producer.txn = none) (n : Option Nat)
    (openedAt : Int) : Enclosing { w with
      producer := { w.producer with txn := some {} }
      committer := CommitterState.noted
        { w.committer with isOpen := true, messages := 0, openedAt := openedAt } m
      crashIn := n, trace := w.trace ++ [.beginTransaction true] } where
  tracked := by
    have htracked := h.tracked
    unfold Tracked at htracked
    rw [htxn] at htracked
    exact foldlM_observe _ htracked rfl
  noted := ⟨fun _ _ ho => (h.noted_le ho).1, fun _ _ ho => (h.noted_le ho).2⟩
  closed hclosed := by cases hclosed
  covered _ := ⟨{}, rfl, fun q hq => by cases hq⟩

/-- A message that was not moved leaves the transaction as it found it, wherever the next reading
starts from. -/
theorem Handling.leave (h : Handling false m w) {position : TopicPartition → Nat} {call : Call}
    (hcall : ∀ t, observe t call = some t) (hle : m.offset ≤ position m.tp)
    (hne : ∀ tp, tp ≠ m.tp → position tp = w.position tp) (n : Option Nat) : Enclosing { w with
      position := position, crashIn := n, trace := w.trace ++ [call] } where
  tracked := foldlM_observe _ h.tracked (hcall _)
  noted := by
    refine ⟨fun tp o ho => (h.noted tp o ho).1, fun tp o ho => ?_⟩
    have hnoted := (h.noted tp o ho).2
    change o ≤ position tp
    by_cases htp : tp = m.tp
    · subst htp
      rw [if_pos rfl] at hnoted
      omega
    · rw [if_neg htp] at hnoted
      rwa [hne tp htp]
  closed := h.closed
  covered hopen := by
    obtain ⟨t, htxn, hcovered⟩ := h.covered hopen
    refine ⟨t, htxn, fun q hq => ?_⟩
    rcases hcovered q hq with ⟨hfalse, -⟩ | hq
    · cases hfalse
    · exact hq

/-! ## The exits of a message -/

/-- What a step leaves when it raises: the replay is still in step, which is all `close` needs. -/
def Raised (_ : Exn) (w : World) : Prop := Tracked w

theorem wp_commit_enclosing (hx : c.settings.exactlyOnce = true) (h : Handling produced m w) :
    wp (ServiceConsumer.commit c env m) (fun _ => Enclosing) Raised w := by
  unfold ServiceConsumer.commit ServiceConsumer.commits buildCommitStrategy
  rw [if_pos hx]
  refine wp_note (fun _ => h.tracked) (fun _ n _ _ => ?_) (fun hopen => h.note hopen) ?_
  · exact h.tracked.quiet fun _ => rfl
  · exact fun n at' _ htxn => h.begin htxn n at'

theorem wp_rewind_enclosing (h : Handling false m w) :
    wp (ServiceConsumer.rewind env m) (fun _ => Enclosing) Raised w := by
  refine wp_rewind h.tracked (fun n _ => ?_) fun n => ?_
  · exact h.leave (fun _ => rfl) (by rw [h.position_eq]; omega) (fun _ _ => rfl) n
  · exact h.leave (fun _ => rfl) (by rw [Function.update_self]) (fun tp htp => Function.update_of_ne htp ..) n

theorem wp_routeFailure_enclosing {exc : Exn} {attempt : Int} (hx : c.settings.exactlyOnce = true)
    (h : Handling false m w) (hopen : w.committer.isOpen = true) :
    wp (ServiceConsumer.routeFailure c env m exc attempt) (fun _ => Enclosing) Raised w := by
  refine wp_routeFailure (fun _ => h.tracked) ?_ ?_ ?_ ?_
  · intro q n b p pos hq hp
    exact (h.published hopen hp hq.source _ n).tracked
  · intro q n _ hq
    refine wp_rewind_enclosing (h.unpublished (q := q) hopen ⟨⟨_, .refl _ _⟩, ?_⟩ w.store n)
    simp
  · intro q n b p pos _ hdirect
    cases hdirect.symm.trans hx
  · intro q n b p pos hq hp _
    exact wp_commit_enclosing hx (h.published hopen hp hq.source _ n)

theorem wp_handleMessage_enclosing (hx : c.settings.exactlyOnce = true) (h : Handling false m w)
    (hready : w.committer.isOpen = true ∨ Skipped c m) :
    wp (ServiceConsumer.handleMessage c (localStateStore c.toDeployment c.groupId env) env m)
      (fun _ => Enclosing) Raised w := by
  have hopen : ¬ Skipped c m → w.committer.isOpen = true := hready.resolve_right
  refine wp_handleMessage (fun _ _ _ _ => h.tracked) (fun hnone => ?_) (fun _ => ?_) ?_ ?_
  · have hopen := hopen fun hskip => hskip.1 hnone
    simp only [ServiceConsumer.handleTombstone, localStateStore, wp_bind]
    refine wp_delete rfl ?_ ?_ ?_
    · exact fun _ n s b p calls hp => (h.unpublished hopen hp s n).tracked
    · exact fun n s b p calls hp => (h.published hopen hp h.handling s n).tracked
    · intro n s b p calls _ hp _
      exact wp_commit_enclosing hx (h.published hopen hp h.handling s n)
  · exact wp_commit_enclosing hx h
  · intro exc attempt n s reported hskip _ _
    exact wp_routeFailure_enclosing hx h.opened (hopen hskip)
  · intro value event attempt n s reported _ hskip _ _ _
    have hopen := hopen hskip
    have hs : Handling false m { w with store := s, reported := reported, crashIn := n } := h.opened
    unfold ServiceConsumer.persistAndCommit
    rw [if_pos hx]
    simp only [ServiceConsumer.saveFold, localStateStore, wp_bind]
    refine wp_save rfl rfl ?_ ?_ ?_
    · exact fun _ n s b p calls hp => (hs.unpublished hopen hp s n).tracked
    · exact fun n s b p calls hp => (hs.published hopen hp h.handling s n).tracked
    · intro _ n s b p calls _ hp
      rw [wp_pure]
      refine wp_mono (wp_commit_enclosing hx (hs.published hopen hp h.handling s n))
        (fun _ t ht => ?_) fun _ _ he => he
      unfold ServiceConsumer.crashIfConfigured
      split
      · exact ht.tracked
      · exact ht

/-! ## Settling -/

theorem Tracked.commitFailed {p : ProducerState} {calls : List Call} {n : Option Nat}
    (h : Tracked w) (hf : CommitFailed w.committer.offsets w.producer p calls) : Tracked { w with
      producer := p, committer := {}, crashIn := n, trace := w.trace ++ calls } := by
  cases hf with
  | unsent hcalls =>
    rcases hcalls with rfl | rfl
    · unfold Tracked
      rw [List.append_nil]
      exact h
    · exact foldlM_observe _ h rfl
  | @sent t _ htxn hcalls =>
    unfold Tracked at h
    rw [htxn] at h
    have hsent := foldlM_observe (.sendOffsets w.committer.offsets true) h rfl
    rcases hcalls with rfl | rfl
    · exact hsent
    · have hrejected := foldlM_observe (.commitTransaction false) hsent rfl
      rw [List.append_assoc] at hrejected
      exact hrejected

/-- Without an open transaction of its own, the committer has nothing to account for. -/
theorem Enclosing.of_closed (htracked : Tracked w) (h : w.committer = {}) : Enclosing w where
  tracked := htracked
  noted := by constructor <;> (rw [h]; intro _ _ ho; cases ho)
  closed _ := by rw [h]
  covered hopen := by rw [h] at hopen; cases hopen

theorem wp_settle_enclosing {store : StateStore} (h : Enclosing w) :
    wp (ServiceConsumer.settle c store env) (fun _ => Enclosing) Raised w := by
  refine wp_settle h ?_ ?_ ?_
  · exact fun _ n p calls _ _ hf => h.tracked.commitFailed hf
  · exact fun n p calls _ _ hf => .of_closed (h.tracked.commitFailed hf) rfl
  · intro n t b pos hopen htxn _
    refine .of_closed ?_ rfl
    obtain ⟨t', htxn', hcovered⟩ := h.covered hopen
    obtain rfl : t' = t := Option.some.inj (htxn'.symm.trans htxn)
    have htracked := h.tracked
    unfold Tracked at htracked
    rw [htxn] at htracked
    have hsent := foldlM_observe (.sendOffsets w.committer.offsets true) htracked rfl
    have hall : Transaction.covered
        { t' with offsets := fun tp => (w.committer.offsets tp).or (t'.offsets tp) } = true := by
      unfold Transaction.covered
      rw [List.all_eq_true]
      intro q hq
      obtain ⟨o, ho, hlt⟩ := hcovered q hq
      simpa [ho] using hlt
    have hcloses : observe (some { t' with
        offsets := fun tp => (w.committer.offsets tp).or (t'.offsets tp) }) (.commitTransaction true) =
        some none := by
      simp only [observe, Option.any_some, hall, if_true]
    have hcommitted := foldlM_observe (.commitTransaction true) hsent hcloses
    rw [List.append_assoc] at hcommitted
    exact hcommitted

/-- An abort closes the transaction, if one is open. -/
theorem wp_abort_tracked (env : Env) (reason : String) (hx : c.settings.exactlyOnce = true)
    (h : Tracked w) :
    wp ((ServiceConsumer.commits c env).abort reason)
      (fun _ t => Tracked t ∧ (t = w ∧ w.committer.isOpen = false ∨ t.committer = {})) Raised w := by
  unfold ServiceConsumer.commits buildCommitStrategy
  rw [if_pos hx]
  change wp (TransactionalCommitter.abort _ _ _ reason) _ _ _
  refine wp_abort (fun hclosed => ⟨h, .inl ⟨rfl, hclosed⟩⟩) ?_ ?_ ?_
  · rintro e n calls _ _ (rfl | rfl)
    · unfold Raised Tracked
      rw [List.append_nil]
      exact h
    · exact h.quiet (n := n) fun _ => rfl
  · exact fun n _ _ => ⟨h.quiet (n := n) fun _ => rfl, .inr rfl⟩
  · intro n t gap _ htxn
    unfold Tracked at h
    rw [htxn] at h
    exact ⟨foldlM_observe _ h rfl, .inr rfl⟩

/-- Nothing is noted then. -/
theorem wp_abort_enclosing {reason : String} (hx : c.settings.exactlyOnce = true) (h : Enclosing w) :
    wp ((ServiceConsumer.commits c env).abort reason)
      (fun _ t => Enclosing t ∧ t.committer.offsets = fun _ => none) Raised w := by
  refine wp_mono (wp_abort_tracked env reason hx h.tracked) (fun _ t ⟨ht, hclosed⟩ => ?_) fun _ _ he => he
  rcases hclosed with ⟨rfl, hclosed⟩ | hempty
  · exact ⟨h, h.closed hclosed⟩
  · exact ⟨.of_closed ht hempty, by rw [hempty]⟩

/-! ## Runs -/

/-- A message that is not merely skipped finds the transaction open. -/
def FindsOpen (c : Service) (w : World) : Env × ServiceConsumer.Label → Prop
  | (_, .message m) => w.committer.isOpen = true ∨ Skipped c m
  | _ => True

theorem Enclosing.receive (h : Enclosing w) (hassigned : m.tp ∈ w.assignment)
    (hle : w.position m.tp ≤ m.offset) : Handling false m { w with
      position := Function.update w.position m.tp (m.offset + 1), handling := m.id
      trace := w.trace ++ [.poll m.id] } where
  tracked := foldlM_observe _ h.tracked rfl
  assigned := hassigned
  handling := rfl
  position_eq := Function.update_self ..
  noted tp o ho := by
    refine ⟨h.noted.assigned tp o ho, ?_⟩
    have ho := h.noted.le_position tp o ho
    by_cases htp : tp = m.tp
    · subst htp
      rw [if_pos rfl]
      omega
    · rw [if_neg htp]
      simpa [Function.update_of_ne htp] using ho
  closed := h.closed
  covered hopen := by
    obtain ⟨t, htxn, hcovered⟩ := h.covered hopen
    exact ⟨t, htxn, fun q hq => .inr (hcovered q hq)⟩

theorem Enclosing.assign {tps : List TopicPartition} (h : Enclosing w)
    (hnew : ∀ tp ∈ tps, tp ∉ w.assignment) : Enclosing (w.assign tps) where
  tracked := h.tracked
  noted := by
    refine ⟨fun tp o ho => List.mem_append_left _ (h.noted.assigned tp o ho), fun tp o ho => ?_⟩
    have htp : tp ∉ tps := fun hmem => hnew tp hmem (h.noted.assigned tp o ho)
    simpa [World.assign, htp] using h.noted.le_position tp o ho
  closed := h.closed
  covered := h.covered

theorem Enclosing.served {b : Broker} {p : ProducerState} {rs : List Queued} (h : Enclosing w)
    (hp : Served w.broker w.producer rs b p) (s : LocalStore) (n : Option Nat) :
    Enclosing { w with broker := b, producer := p, store := s, crashIn := n } where
  tracked := by
    unfold Tracked
    rw [hp.txn_eq]
    exact h.tracked
  noted := ⟨h.noted.assigned, h.noted.le_position⟩
  closed := h.closed
  covered hopen := by
    obtain ⟨t, htxn, hcovered⟩ := h.covered hopen
    exact ⟨t, hp.txn_eq.trans htxn, hcovered⟩

/-- A revocation aborts first, so that nothing noted is of a partition that goes. -/
theorem wp_release_enclosing (env : Env) (tps : List TopicPartition) (reason : String)
    (hx : c.settings.exactlyOnce = true) (h : Enclosing w) :
    wp (do
      let _ ← (ServiceConsumer.commits c env).abort reason
      ServiceConsumer.forget (localStateStore c.toDeployment c.groupId env) tps
      modify fun w => w.unassign tps) (fun _ => Enclosing) Raised w := by
  have hunassign : ∀ {t : World}, Enclosing t → (t.committer.offsets = fun _ => none) →
      Enclosing (t.unassign tps) := by
    intro t ht hnone
    refine ⟨ht.tracked, ⟨fun tp o ho => ?_, ht.noted.le_position⟩, ht.closed, ht.covered⟩
    change t.committer.offsets tp = some o at ho
    rw [hnone] at ho
    cases ho
  simp only [wp_bind]
  refine wp_mono (wp_abort_enclosing hx h) (fun _ t hend => ?_) fun _ _ he => he
  obtain ⟨ht, hnone⟩ := hend
  refine wp_forget (fun _ => hunassign ht hnone) ht.tracked ?_ fun n s rs b p hp _ => ?_
  · exact fun _ n s rs b p hp => (ht.served hp s n).tracked
  · exact hunassign (ht.served hp s n) hnone

/-- **One step** keeps every produce inside its transaction. -/
theorem wp_localStep_enclosing (hx : c.settings.exactlyOnce = true)
    (l : Env × ServiceConsumer.Label) (h : Enclosing w)
    (hl : ServiceConsumer.Contract w l ∧ FindsOpen c w l) :
    wp (ServiceConsumer.localStep c l) (fun _ => Enclosing) Raised w := by
  obtain ⟨env, l⟩ := l
  have hset : Enclosing { w with crashIn := env.crashIn } := by
    have := h.served (.refl w.broker w.producer) w.store env.crashIn
    exact this
  refine ServiceConsumer.wp_localStep (fun tps htps => ?_) (fun tps reason _ => ?_) (fun _ => ?_)
    (fun _ _ _ => ⟨hset, hset.tracked⟩) fun m hm => ?_
  · subst htps
    refine wp_restore (fun _ n _ => hset.tracked.quiet (n := n) fun _ => rfl) fun n s _ => ?_
    have hrestored : Enclosing { w with
        store := s, crashIn := n, trace := w.trace ++ [.restore (tps.map (·.partition))] } :=
      ⟨hset.tracked.quiet (n := n) fun _ => rfl, ⟨h.noted.assigned, h.noted.le_position⟩, h.closed,
        h.covered⟩
    exact hrestored.assign hl.1
  · exact wp_release_enclosing env tps reason hx hset
  · exact wp_settle_enclosing hset
  · subst hm
    obtain ⟨⟨hassigned, hle⟩, hready⟩ := hl
    refine wp_mono (wp_handleMessage_enclosing hx (hset.receive hassigned hle) hready)
      (fun _ t ht => wp_settle_enclosing ht) fun _ _ he => he

/-- **Every produce inside the transaction that submits its message's offset**: over every run under
`exactly_once` whose messages find the transaction open or are merely skipped, whether it returns,
raises or dies, and with whatever `close` does after it. -/
theorem run_enclosed (c : Service) (ls : List (Env × ServiceConsumer.Label)) (env : Env) (w : World)
    (hx : c.settings.exactlyOnce = true) (hw : Built w)
    (hl : Along (ServiceConsumer.localStep c)
      (fun w l => ServiceConsumer.Contract w l ∧ FindsOpen c w l) ls w) :
    wp (ServiceConsumer.run c ls env) (fun _ t => Enclosed t.trace) (fun _ t => Enclosed t.trace)
      w := by
  have hstart : Enclosing w := by
    refine .of_closed ?_ hw.committer_eq
    unfold Tracked
    rw [hw.trace_eq, hw.producer_eq]
    rfl
  have hclose : ∀ {t : World}, Tracked t →
      wp (ServiceConsumer.commits c env).close (fun _ t => Tracked t) Raised t := by
    intro t ht
    have habort := wp_abort_tracked env "shutdown" hx ht
    unfold ServiceConsumer.commits buildCommitStrategy at habort ⊢
    rw [if_pos hx] at habort ⊢
    simp only [transactionalCommitter, wp_bind, wp_pure]
    exact wp_mono habort (fun _ _ hu => hu.1) fun _ _ he => he
  have hloop := wp_run (fun _ l h hl => wp_localStep_enclosing hx l h hl) hstart hl
  simp only [ServiceConsumer.run, wp_tryFinally]
  refine wp_mono hloop (fun _ t ht => ?_) fun _ t ht => ?_
  · exact wp_mono (hclose ht.tracked) (fun _ _ hu => hu.enclosed) fun _ _ he => Tracked.enclosed he
  · exact wp_mono (hclose ht) (fun _ _ hu => hu.enclosed) fun _ _ he => Tracked.enclosed he

/-- A member under `exactly_once`, and the two kinds of message it gets. -/
def packer : Service where
  toDeployment := .onePartition { processingGuarantee := .exactlyOnce }
    fun _ => .event ⟨"e1", "o", 1, .orderCreated, Nat.one_pos⟩
  name := "packing"
  handlers := []

def lifecycleMessage (offset : Nat) : Message :=
  ⟨"order-lifecycle", 0, offset, some "o".toUTF8, some "v".toUTF8, [], -1⟩

def snapshotMessage (offset : Nat) : Message :=
  ⟨"order-snapshot", 0, offset, some "o".toUTF8, some "v".toUTF8, [], -1⟩

def assignBoth : Env × ServiceConsumer.Label :=
  ({}, .assign [⟨"order-lifecycle", 0⟩, ⟨"order-snapshot", 0⟩])

/-- A snapshot opens the transaction, an event is folded in it, and the interval commits it. -/
def snapshotFirst : List (Env × ServiceConsumer.Label) :=
  [assignBoth, ({}, .message (snapshotMessage 0)), ({}, .message (lifecycleMessage 0)),
    ({ monotonic := 200 }, .idle)]

theorem run_enclosed_snapshotFirst :
    wp (ServiceConsumer.run packer snapshotFirst {}) (fun _ t => Enclosed t.trace)
      (fun _ t => Enclosed t.trace) {} := by
  refine run_enclosed packer snapshotFirst {} {} rfl ⟨rfl, rfl, rfl, rfl, rfl⟩ ?_
  refine .cons ⟨fun _ _ h => (nomatch h), trivial⟩ (.cons ⟨⟨?_, ?_⟩, .inr (by decide +kernel)⟩
    (.cons ⟨⟨?_, ?_⟩, .inl ?_⟩ (.cons ⟨trivial, trivial⟩ trivial)))
  all_goals decide +kernel

/-- The first event after a start is produced outside any transaction. -/
theorem first_event_outside :
    Along (ServiceConsumer.localStep packer) ServiceConsumer.Contract
        [assignBoth, ({}, .message (lifecycleMessage 0))] {} ∧
      ¬ Enclosed ((ServiceConsumer.run packer
        [assignBoth, ({}, .message (lifecycleMessage 0))] {}).exec {}).2.trace := by
  constructor
  · refine .cons (fun _ _ h => (nomatch h)) (.cons ⟨?_, ?_⟩ trivial)
    all_goals decide +kernel
  · unfold Enclosed
    decide +kernel

end OrderService
