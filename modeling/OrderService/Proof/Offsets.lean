import OrderService.Consumer.CommitterRun
import OrderService.Proof.Committer

/-!
# What the transactional committer submits

The messages noted since the last commit or abort (`noted`) are all there is to a
`TransactionalCommitter`: they determine its fields (`Follows`), and every call keeps that
(`turn_follows`). What it sends with a transaction is where consumption resumes after each of them.
-/

namespace OrderService

open Eff

variable {d : Deployment} {groupId : String} {env : Env} {w t : World}
variable {ms : List Message} {m : Message} {c : CommitterState}

/-! ## The messages noted -/

/-- A commit or an abort is attempted. -/
def Call.endsTransaction : Call → Bool
  | .sendOffsets .. | .commitTransaction _ | .abortTransaction _ => true
  | _ => false

def CommitterTurn.ends (turn : CommitterTurn) : Bool := turn.calls.any Call.endsTransaction

/-- The messages noted and not yet submitted or given up, after one more call. -/
def notedAfter (ms : List Message) (turn : CommitterTurn) : List Message :=
  if turn.ends then []
  else match turn.call, turn.returned with
    | .note m, true => ms ++ [m]
    | _, _ => ms

/-- The messages noted since the last attempt to commit or to abort, oldest first. -/
def noted (turns : List CommitterTurn) : List Message := turns.foldl notedAfter []

/-- Where consumption of a topic-partition resumes: after the last of the messages that is on it. -/
def resumeAt (ms : List Message) (tp : TopicPartition) : Option Nat :=
  (ms.reverse.find? (·.tp = tp)).map (·.offset + 1)

theorem resumeAt_concat (ms : List Message) (m : Message) :
    resumeAt (ms ++ [m]) = Function.update (resumeAt ms) m.tp (some (m.offset + 1)) := by
  funext tp
  unfold resumeAt
  rw [List.reverse_append]
  by_cases h : tp = m.tp
  · subst h
    simp
  · rw [Function.update_of_ne h]
    simp [Ne.symm h]

/-! ## The committer's fields -/

/-- The committer has an open transaction with `ms` noted in it, or none if there are none. -/
structure Follows (ms : List Message) (c : CommitterState) : Prop where
  isOpen_iff : c.isOpen = true ↔ ms ≠ []
  messages_eq : c.messages = ms.length
  mem_touched : ∀ p, p ∈ c.touched ↔ ∃ m ∈ ms, m.partition = p
  offsets_eq : c.offsets = resumeAt ms

theorem follows_nil : Follows [] {} := ⟨by simp, rfl, by simp, rfl⟩

theorem Follows.closed (h : Follows ms c) (hc : c.isOpen = false) : ms = [] := by
  by_contra hne
  rw [h.isOpen_iff.2 hne] at hc
  cases hc

theorem Follows.noted (h : Follows ms c) (hc : c.isOpen = true) : Follows (ms ++ [m]) (c.noted m) where
  isOpen_iff := by simp [CommitterState.noted, hc]
  messages_eq := by simp [CommitterState.noted, h.messages_eq]
  mem_touched p := by
    simp only [CommitterState.noted, List.mem_insert_iff, h.mem_touched, List.mem_append,
      List.mem_singleton]
    constructor
    · rintro (rfl | ⟨m', hm', rfl⟩)
      · exact ⟨m, .inr rfl, rfl⟩
      · exact ⟨m', .inl hm', rfl⟩
    · rintro ⟨m', hm' | rfl, rfl⟩
      · exact .inr ⟨m', hm', rfl⟩
      · exact .inl rfl
  offsets_eq := by rw [resumeAt_concat, ← h.offsets_eq]; rfl

/-- The first message noted is the one that opened the transaction. -/
theorem Follows.opened (h : Follows [] c) (at' : Int) :
    Follows [m] (CommitterState.noted { c with isOpen := true, messages := 0, openedAt := at' } m) := by
  have hempty : Follows [] { c with isOpen := false, messages := 0, openedAt := at' } :=
    ⟨by simp, rfl, h.mem_touched, h.offsets_eq⟩
  refine ⟨by simp [CommitterState.noted], rfl, fun p => ?_, ?_⟩
  · have := h.mem_touched p
    simp only [CommitterState.noted, List.mem_insert_iff, this]
    simp [eq_comm]
  · rw [← List.nil_append [m], resumeAt_concat, ← h.offsets_eq]
    rfl

/-! ## The calls of a process that lives -/

/-- One client call was made, and the committer is as it was. -/
structure Made (call : Call) (w t : World) : Prop where
  trace_eq : t.trace = w.trace ++ [call]
  committer_eq : t.committer = w.committer
  alive : t.crashIn = none

theorem wp_sendOffsets_made {offsets : TopicPartition → Option Nat} (hw : w.crashIn = none) :
    wp (sendOffsetsToTransaction env offsets) (fun _ => Made (.sendOffsets offsets true) w)
      (fun _ => Made (.sendOffsets offsets false) w) w := by
  simp only [sendOffsetsToTransaction, wp_bind, wp_tick_alive hw, wp_get]
  split
  · exact ⟨rfl, rfl, hw⟩
  · exact ⟨rfl, rfl, hw⟩
  · exact ⟨rfl, rfl, hw⟩

theorem wp_commitTransaction_made (hw : w.crashIn = none) :
    wp (commitTransaction env) (fun _ => Made (.commitTransaction true) w)
      (fun _ => Made (.commitTransaction false) w) w := by
  simp only [commitTransaction, wp_bind, wp_tick_alive hw, wp_get]
  split
  · rename_i t _ _
    obtain ⟨pos, hpos⟩ := foldl_acknowledge_eq w t.records
    simp only [wp_bind, wp_modify, wp_record, World.commitRecords, hpos]
    exact ⟨rfl, rfl, hw⟩
  · exact ⟨rfl, rfl, hw⟩
  · exact ⟨rfl, rfl, hw⟩

theorem wp_abortTransaction_made (hw : w.crashIn = none) :
    wp (abortTransaction env) (fun _ => Made (.abortTransaction true) w)
      (fun _ => Made (.abortTransaction false) w) w := by
  simp only [abortTransaction, wp_bind, wp_tick_alive hw, wp_get]
  split
  · exact ⟨rfl, rfl, hw⟩
  · exact ⟨rfl, rfl, hw⟩
  · exact ⟨rfl, rfl, hw⟩

theorem wp_raiseIfFenced_raises {e e' : Exn} {R : Unit → World → Prop} {E : Exn → World → Prop}
    (h : ∀ e, E e w) :
    wp (TransactionalCommitter.raiseIfFenced d groupId e >>= fun _ => throw e') R E w := by
  rw [wp_bind]
  unfold TransactionalCommitter.raiseIfFenced
  split
  · split
    · exact h _
    · exact h _
  · exact h _

/-- The open transaction is over, or that was attempted, and the offsets sent are those it had. -/
structure Ended (w t : World) : Prop where
  committer_eq : t.committer = {}
  calls : ∃ calls, t.trace = w.trace ++ calls ∧ calls.any Call.endsTransaction = true ∧
    ∀ offsets ok, .sendOffsets offsets ok ∈ calls → offsets = w.committer.offsets

theorem wp_commit_ended (hw : w.crashIn = none) (hopen : w.committer.isOpen = true) :
    wp (TransactionalCommitter.commit d groupId env) (fun _ => Ended w) (fun _ => Ended w) w := by
  have hsent : ∀ {t : World} {ok}, t.trace = w.trace ++ [.sendOffsets w.committer.offsets ok] →
      Ended w { t with committer := {} } := by
    intro t ok ht
    refine ⟨rfl, _, ht, by simp [Call.endsTransaction], fun offsets ok' h => ?_⟩
    cases List.mem_singleton.1 h
    rfl
  have hasked : ∀ {t u : World} {ok}, Made (.sendOffsets w.committer.offsets true) w t →
      Made (.commitTransaction ok) t u → Ended w { u with committer := {} } := by
    intro t u ok ht hu
    have htrace : u.trace =
        w.trace ++ [.sendOffsets w.committer.offsets true, .commitTransaction ok] := by
      rw [hu.trace_eq, ht.trace_eq, List.append_assoc]
      rfl
    refine ⟨rfl, _, htrace, by simp [Call.endsTransaction], fun offsets ok' h => ?_⟩
    cases h with
    | head => rfl
    | tail _ h => cases List.mem_singleton.1 h
  simp only [TransactionalCommitter.commit, wp_bind, wp_get]
  rw [if_neg (by simp [hopen])]
  simp only [wp_tryFinally, wp_tryCatch, wp_bind, wp_get, TransactionalCommitter.reset, wp_modify]
  refine wp_mono (wp_sendOffsets_made hw) (fun _ t ht => ?_) fun e t ht => ?_
  · refine wp_mono (wp_commitTransaction_made ht.alive) (fun _ u hu => hasked ht hu) fun e u hu => ?_
    rw [← wp_bind]
    exact wp_raiseIfFenced_raises fun _ => hasked ht hu
  · rw [← wp_bind]
    exact wp_raiseIfFenced_raises fun _ => hsent ht.trace_eq

theorem wp_abort_ended {reason : String} (hw : w.crashIn = none) (hopen : w.committer.isOpen = true) :
    wp (TransactionalCommitter.abort d groupId env reason) (fun _ => Ended w) (fun _ => Ended w) w := by
  have hasked : ∀ {t : World} {ok}, Made (.abortTransaction ok) w t →
      Ended w { t with committer := {} } := by
    intro t ok ht
    refine ⟨rfl, _, ht.trace_eq, by simp [Call.endsTransaction], fun offsets ok' h => ?_⟩
    cases List.mem_singleton.1 h
  simp only [TransactionalCommitter.abort, wp_bind, wp_get]
  rw [if_neg (by simp [hopen])]
  simp only [wp_tryFinally, wp_tryCatch, wp_bind, TransactionalCommitter.reset, wp_modify, wp_pure]
  refine wp_mono (wp_abortTransaction_made hw) (fun _ t ht => hasked ht) fun e t ht => ?_
  unfold TransactionalCommitter.raiseIfFenced
  cases e with
  | kafka k =>
    simp only [wp_ite, wp_throw, wp_pure]
    exact ⟨fun _ => hasked ht, fun _ => hasked ht⟩
  | _ => exact hasked ht

/-! ## One call -/

/-- The calls after which no transaction is open. -/
def CommitterCall.concludes : CommitterCall → Bool
  | .commit | .abort _ | .close => true
  | .note _ | .maybeCommit => false

/-- What a call makes of the messages noted, and what it sends. -/
def Kept (d : Deployment) (ms : List Message) (call : CommitterCall) (returned : Bool) (w t : World) :
    Prop :=
  ∃ calls, t.trace = w.trace ++ calls ∧
    let ms' := notedAfter ms ⟨call, returned, calls⟩
    Follows ms' t.committer ∧
      (∀ offsets ok, .sendOffsets offsets ok ∈ calls → offsets = resumeAt ms) ∧
      (call.concludes = true → ms' = []) ∧
      (call = .maybeCommit → ms' = [] ∨
        (ms'.length : Int) < d.settings.transactionCommitIntervalMessages)

theorem Ended.kept {call : CommitterCall} {returned : Bool} (h : Follows ms w.committer)
    (ht : Ended w t) : Kept d ms call returned w t := by
  obtain ⟨calls, htrace, hends, hsent⟩ := ht.calls
  have hafter : notedAfter ms ⟨call, returned, calls⟩ = [] := if_pos hends
  refine ⟨calls, htrace, ?_, fun offsets ok ho => ?_, fun _ => hafter, fun _ => .inl hafter⟩
  · rw [hafter, ht.committer_eq]
    exact follows_nil
  · rw [hsent offsets ok ho, h.offsets_eq]

/-- A call that makes no client call and notes nothing. -/
theorem Follows.kept {call : CommitterCall} {returned : Bool} (h : Follows ms w.committer)
    (hafter : notedAfter ms ⟨call, returned, []⟩ = ms) (hconcludes : call.concludes = true → ms = [])
    (hdue : call = .maybeCommit → ms = [] ∨
      (ms.length : Int) < d.settings.transactionCommitIntervalMessages) : Kept d ms call returned w w := by
  refine ⟨[], (List.append_nil _).symm, ?_, fun _ _ ho => ?_, ?_, ?_⟩
  · rw [hafter]
    exact h
  · cases ho
  · rw [hafter]
    exact hconcludes
  · rw [hafter]
    exact hdue

theorem Follows.kept_note (calls : List Call) {returned : Bool}
    (h : Follows (notedAfter ms ⟨.note m, returned, calls⟩) t.committer)
    (htrace : t.trace = w.trace ++ calls) (hsent : ∀ offsets ok, .sendOffsets offsets ok ∉ calls) :
    Kept d ms (.note m) returned w t := by
  refine ⟨calls, htrace, h, fun offsets ok ho => absurd ho (hsent offsets ok), fun hx => ?_, fun hx => ?_⟩
  · cases hx
  · cases hx

/-- **One call**, whatever it raises. -/
theorem wp_committerCall (h : Follows ms w.committer) (hw : w.crashIn = none) (call : CommitterCall) :
    wp (TransactionalCommitter.perform d groupId env call) (fun _ => Kept d ms call true w)
      (fun _ => Kept d ms call false w) w := by
  have habort : ∀ {call : CommitterCall} (reason : String), call.concludes = true →
      wp (TransactionalCommitter.abort d groupId env reason) (fun _ => Kept d ms call true w)
        (fun _ => Kept d ms call false w) w := by
    intro call reason hcall
    cases hc : w.committer.isOpen with
    | false =>
      have hnone := h.closed hc
      simp only [TransactionalCommitter.abort, wp_bind, wp_get, hc, Bool.not_false, if_true, wp_pure]
      refine h.kept ?_ (fun _ => hnone) fun _ => .inl hnone
      cases call <;> first | rfl | cases hcall
    | true => exact wp_mono (wp_abort_ended hw hc) (fun _ _ ht => ht.kept h) fun _ _ ht => ht.kept h
  cases call with
  | note m =>
    have hbegin : ∀ ok offsets ok', Call.sendOffsets offsets ok' ∉ [Call.beginTransaction ok] := by simp
    refine wp_note (fun _ => ?_) (fun e n _ hc => ?_) (fun hc => ?_) fun n at' hc _ => ?_
    · exact Follows.kept_note [] h (List.append_nil _).symm (by simp)
    · exact Follows.kept_note [.beginTransaction false] h rfl (hbegin false)
    · exact Follows.kept_note [] (h.noted hc) (List.append_nil _).symm (by simp)
    · cases h.closed hc
      exact Follows.kept_note [.beginTransaction true] (h.opened at') rfl (hbegin true)
  | maybeCommit =>
    simp only [TransactionalCommitter.perform, TransactionalCommitter.maybeCommit, wp_bind, wp_get]
    cases hc : w.committer.isOpen with
    | false =>
      have hnone := h.closed hc
      exact h.kept rfl (fun hx => by cases hx) fun _ => .inl hnone
    | true =>
      rw [if_neg (by simp)]
      by_cases hdue : TransactionalCommitter.due d env w.committer = true
      · rw [if_pos hdue]
        exact wp_mono (wp_commit_ended hw hc) (fun _ _ ht => ht.kept h) fun _ _ ht => ht.kept h
      · rw [if_neg hdue, wp_pure]
        refine h.kept rfl (fun hx => by cases hx) fun _ => .inr ?_
        simp only [TransactionalCommitter.due, Bool.or_eq_true, decide_eq_true_eq, not_or] at hdue
        rw [← h.messages_eq]
        omega
  | commit =>
    cases hc : w.committer.isOpen with
    | false =>
      have hnone := h.closed hc
      simp only [TransactionalCommitter.perform, TransactionalCommitter.commit, wp_bind, wp_get, hc,
        Bool.not_false, if_true, wp_pure]
      exact h.kept rfl (fun _ => hnone) fun hx => by cases hx
    | true => exact wp_mono (wp_commit_ended hw hc) (fun _ _ ht => ht.kept h) fun _ _ ht => ht.kept h
  | abort reason =>
    simp only [TransactionalCommitter.perform, wp_bind, wp_pure]
    exact habort reason rfl
  | close =>
    simp only [TransactionalCommitter.perform, transactionalCommitter, wp_bind, wp_pure]
    exact habort "shutdown" rfl

/-! ## All calls -/

theorem turn_eq {a : Asked} {result : Except Exn Unit} {calls : List Call}
    (hexec : (TransactionalCommitter.perform d groupId a.env a.call).exec
      { w with producer := a.producer, crashIn := none } = (result, t))
    (htrace : t.trace = w.trace ++ calls) :
    TransactionalCommitter.turn d groupId w a = (⟨a.call, result.isOk, calls⟩, t) := by
  simp only [TransactionalCommitter.turn, hexec, htrace, List.drop_left]

/-- The same, as `turn` reports it. -/
theorem turn_kept (d : Deployment) (groupId : String) (h : Follows ms w.committer) (a : Asked) :
    let turn := (TransactionalCommitter.turn d groupId w a).1
    turn.call = a.call ∧
      Follows (notedAfter ms turn) (TransactionalCommitter.turn d groupId w a).2.committer ∧
      (∀ offsets ok, .sendOffsets offsets ok ∈ turn.calls → offsets = resumeAt ms) ∧
      (a.call.concludes = true → notedAfter ms turn = []) ∧
      (a.call = .maybeCommit → notedAfter ms turn = [] ∨
        ((notedAfter ms turn).length : Int) < d.settings.transactionCommitIntervalMessages) := by
  have hw : wp (TransactionalCommitter.perform d groupId a.env a.call)
      (fun _ => Kept d ms a.call true { w with producer := a.producer, crashIn := none })
      (fun _ => Kept d ms a.call false { w with producer := a.producer, crashIn := none })
      { w with producer := a.producer, crashIn := none } :=
    wp_committerCall (w := { w with producer := a.producer, crashIn := none }) h rfl a.call
  rcases hexec : (TransactionalCommitter.perform d groupId a.env a.call).exec
      { w with producer := a.producer, crashIn := none } with ⟨e | ⟨⟩, t⟩
  · obtain ⟨calls, htrace, hkept⟩ := exec_of_wp hw hexec
    rw [turn_eq hexec htrace]
    exact ⟨rfl, hkept⟩
  · obtain ⟨calls, htrace, hkept⟩ := exec_of_wp hw hexec
    rw [turn_eq hexec htrace]
    exact ⟨rfl, hkept⟩

theorem turns_follow (d : Deployment) (groupId : String) (l : List Asked) : ∀ {ms : List Message} {w : World}, Follows ms w.committer →
    Follows ((TransactionalCommitter.turns d groupId l w).1.foldl notedAfter ms)
      (TransactionalCommitter.turns d groupId l w).2.committer := by
  induction l with
  | nil => exact fun h => h
  | cons a l ih => exact fun h => ih (turn_kept d groupId h a).2.1

/-- After a commit or an abort nothing is noted, also when no transaction was open. -/
theorem turns_concluded (d : Deployment) (groupId : String) (l : List Asked) : ∀ {ms : List Message} {w : World}, Follows ms w.committer →
    ∀ pre turn post, (TransactionalCommitter.turns d groupId l w).1 = pre ++ turn :: post →
      turn.call.concludes = true → notedAfter (pre.foldl notedAfter ms) turn = [] := by
  induction l with
  | nil =>
    intro ms w _ pre turn post hsplit
    simp [TransactionalCommitter.turns] at hsplit
  | cons a l ih =>
    intro ms w h pre turn post hsplit hconcludes
    obtain ⟨hcall, hfollows, -, hnone, -⟩ := turn_kept d groupId h a
    cases pre with
    | nil =>
      obtain ⟨rfl, -⟩ := List.cons.inj hsplit
      exact hnone (hcall ▸ hconcludes)
    | cons first pre =>
      obtain ⟨rfl, hrest⟩ := List.cons.inj hsplit
      exact ih hfollows pre turn post hrest hconcludes

/-- What is noted in the end was noted before or by one of the calls. -/
theorem mem_noted_after {turns : List CommitterTurn} : ∀ {ms : List Message},
    m ∈ turns.foldl notedAfter ms →
      m ∈ ms ∨ ∃ turn ∈ turns, turn.call = .note m ∧ turn.returned = true := by
  induction turns with
  | nil => exact .inl
  | cons turn turns ih =>
    intro ms hm
    obtain hm | ⟨again, hagain, hnote⟩ := ih hm
    · change m ∈ notedAfter ms turn at hm
      unfold notedAfter at hm
      split at hm
      · cases hm
      · split at hm
        · rename_i m' hcall hreturned
          obtain hm | hm := List.mem_append.1 hm
          · exact .inl hm
          · cases List.mem_singleton.1 hm
            exact .inr ⟨turn, .head _, hcall, hreturned⟩
        · exact .inl hm
    · exact .inr ⟨again, .tail _ hagain, hnote⟩

theorem mem_of_resumeAt {tp : TopicPartition} {o : Nat} (h : resumeAt ms tp = some o) :
    ∃ m ∈ ms, m.tp = tp ∧ m.offset + 1 = o := by
  unfold resumeAt at h
  obtain ⟨m, hm, rfl⟩ := Option.map_eq_some_iff.1 h
  exact ⟨m, List.mem_reverse.1 (List.mem_of_find?_eq_some hm), by simpa using List.find?_some hm, rfl⟩

/-! ## The interval -/

def CommitterCall.isNote : CommitterCall → Bool
  | .note _ => true
  | _ => false

/-- `maybe_commit` follows every `note`. -/
def NotesSettled (calls : List CommitterCall) : Prop :=
  calls.IsChain fun call next => call.isNote = true → next = .maybeCommit

/-- As many messages as a transaction may cover after `call`: below the interval, but for a note. -/
def InInterval (d : Deployment) (call : CommitterCall) (ms : List Message) : Prop :=
  (ms.length : Int) ≤ max 1 d.settings.transactionCommitIntervalMessages ∧
    (call.isNote = false → ms = [] ∨ (ms.length : Int) < d.settings.transactionCommitIntervalMessages)

theorem InInterval.next {last call : CommitterCall} (h : InInterval d last ms) {turn : CommitterTurn}
    (hlast : last.isNote = true → call = .maybeCommit)
    (hnone : call.concludes = true → notedAfter ms turn = [])
    (hdue : call = .maybeCommit → notedAfter ms turn = [] ∨
      ((notedAfter ms turn).length : Int) < d.settings.transactionCommitIntervalMessages) :
    InInterval d call (notedAfter ms turn) := by
  cases call with
  | note m =>
    -- a note follows no note, so there was room for one more
    have hroom : ms = [] ∨ (ms.length : Int) < d.settings.transactionCommitIntervalMessages := by
      refine h.2 (Bool.eq_false_iff.2 fun hnote => ?_)
      cases hlast hnote
    have hlength : (notedAfter ms turn).length ≤ ms.length + 1 := by
      unfold notedAfter
      split
      · exact Nat.zero_le _
      · split <;> simp
    refine ⟨?_, fun hx => by cases hx⟩
    obtain rfl | hroom := hroom
    · rw [List.length_nil] at hlength
      omega
    · omega
  | maybeCommit =>
    refine ⟨?_, fun _ => hdue rfl⟩
    obtain hnil | hlt := hdue rfl
    · simp [hnil]
    · omega
  | _ => exact ⟨by simp [hnone rfl], fun _ => .inl (hnone rfl)⟩

theorem turns_within (d : Deployment) (groupId : String) (l : List Asked) : ∀ {ms : List Message} {w : World} {last : CommitterCall},
    Follows ms w.committer → InInterval d last ms → NotesSettled (last :: l.map (·.call)) →
      (((TransactionalCommitter.turns d groupId l w).1.foldl notedAfter ms).length : Int) ≤
        max 1 d.settings.transactionCommitIntervalMessages := by
  induction l with
  | nil => exact fun _ hms _ => hms.1
  | cons a l ih =>
    intro ms w last h hms hsettled
    obtain ⟨-, hfollows, -, hnone, hdue⟩ := turn_kept d groupId h a
    obtain ⟨hlast, hrest⟩ := List.isChain_cons_cons.1 hsettled
    exact ih hfollows (hms.next hlast hnone hdue) hrest

/-! ## What is submitted -/

/-- The offsets sent in `turn`, after the calls `h`, are where consumption resumes after the messages
noted since the last attempt; what was noted before a commit or an abort is not among them unless it was
noted again. -/
def SendsExactly (h : List CommitterTurn) (turn : CommitterTurn) : Prop :=
  ∀ offsets ok, .sendOffsets offsets ok ∈ turn.calls →
    (∀ tp, offsets tp = resumeAt (noted h) tp) ∧
      ∀ pre attempt post, h = pre ++ attempt :: post →
        attempt.ends = true ∨ attempt.call.concludes = true →
        ∀ tp o, offsets tp = some o → ∃ again ∈ post, ∃ m, again.call = .note m ∧
          again.returned = true ∧ m.tp = tp ∧ m.offset + 1 = o

/-- **The offsets submitted are exact**, whatever is asked of the committer and however the client
answers: after any calls, the next one sends where consumption resumes after the messages noted since the
last attempt; with no open transaction nothing is kept; the partitions touched are those of the messages
noted; and a `maybe_commit` after every `note` keeps a transaction within the interval. -/
theorem offsets_exact (d : Deployment) (groupId : String) (w₀ : World) (l : List Asked) :
    let (h, w) := TransactionalCommitter.turns d groupId l { w₀ with committer := {} }
    (∀ a, SendsExactly h (TransactionalCommitter.turn d groupId w a).1) ∧
      (w.committer.isOpen = false → w.committer.messages = 0 ∧ w.committer.touched = [] ∧
        ∀ tp, w.committer.offsets tp = none) ∧
      (∀ p, p ∈ w.committer.touched ↔ ∃ m ∈ noted h, m.partition = p) ∧
      (NotesSettled (l.map (·.call)) →
        ((noted h).length : Int) ≤ max 1 d.settings.transactionCommitIntervalMessages) := by
  have hstart : Follows [] ({ w₀ with committer := {} } : World).committer := follows_nil
  have hfollows := turns_follow d groupId l hstart
  have hconcluded := turns_concluded d groupId l hstart
  have hempty : InInterval d .close [] := ⟨by simp, fun _ => .inl rfl⟩
  have hwithin := turns_within d groupId l hstart hempty
  generalize TransactionalCommitter.turns d groupId l { w₀ with committer := {} } = run at *
  obtain ⟨h, w⟩ := run
  replace hfollows : Follows (noted h) w.committer := hfollows
  refine ⟨fun a offsets ok hsent => ?_, fun hc => ?_, hfollows.mem_touched, fun hsettled => ?_⟩
  · have hoffsets := (turn_kept d groupId hfollows a).2.2.1 offsets ok hsent
    refine ⟨fun tp => by rw [hoffsets], ?_⟩
    rintro pre attempt post rfl hends tp o ho
    rw [hoffsets] at ho
    obtain ⟨m, hm, htp, hoffset⟩ := mem_of_resumeAt ho
    have hnone : notedAfter (pre.foldl notedAfter []) attempt = [] := by
      obtain hends | hends := hends
      · exact if_pos hends
      · exact hconcluded pre attempt post rfl hends
    unfold noted at hm
    rw [List.foldl_append, List.foldl_cons, hnone] at hm
    obtain hm | ⟨again, hagain, hcall, hreturned⟩ := mem_noted_after hm
    · cases hm
    · exact ⟨again, hagain, m, hcall, hreturned, htp, hoffset⟩
  · have hnone := hfollows.closed hc
    rw [hnone] at hfollows
    refine ⟨hfollows.messages_eq, ?_, fun tp => by rw [hfollows.offsets_eq]; rfl⟩
    exact List.eq_nil_iff_forall_not_mem.2 fun p hp => by simpa using (hfollows.mem_touched p).1 hp
  · refine hwithin ?_
    cases hcalls : l.map (·.call) with
    | nil => exact .singleton _
    | cons call calls =>
      rw [hcalls] at hsettled
      exact List.isChain_cons_cons.2 ⟨fun hx => (by cases hx), hsettled⟩

/-- Two messages noted and submitted: the transaction is begun by the first one. -/
example :
    let asked (call : CommitterCall) : Asked := ⟨{}, {}, call⟩
    let message (offset : Nat) : Message := { topic := "t", partition := 0, offset, key := none, value := none }
    let d : Deployment := .onePartition { processingGuarantee := .exactlyOnce } fun _ => .invalid ""
    let (h, w) := TransactionalCommitter.turns d "g"
      [asked (.note (message 0)), asked (.note (message 1))] {}
    h.map (·.calls.length) = [1, 0] ∧ resumeAt (noted h) ⟨"t", 0⟩ = some 2 ∧
      (TransactionalCommitter.turn d "g" w ⟨{ txn := some {} }, {}, .commit⟩).1.calls.length = 2 := by
  decide +kernel

end OrderService
