import OrderService.Consumer.RetryWorker
import OrderService.Lib.Run
import OrderService.Proof.Runtime

/-!
# The retry worker loses no message, as long as it goes back to what it could not move

A commit covers everything below it, so a turn that does not commit its message must see that it is
read again. `_give_up` seeks back; `_release` does not when its publication fails, nor `_defer` when
the pause does. `Safe` is what holds between turns: a message that was read was moved and its turn
committed it, or it lies at or above the committed offset and the partition cannot be read past it.
Every turn that meets `Plan.Lossless` keeps it (`wp_step_safe`), so no such run loses a message
(`no_message_lost`).
-/

namespace OrderService

open Eff

namespace RetryWorker

variable {c : Worker} {env : Env} {w : World} {m : Message} {id : MessageId}
variable {R : Unit → World → Prop} {E : Exn → World → Prop}

/-! ## What it is to lose a message -/

/-- The last turn that read the message did not go on to commit it. -/
def owed (id : MessageId) (calls : List Call) : Bool :=
  calls.foldl (fun owed call => match call with
    | .poll id' => owed || decide (id' = id)
    | .commit tp offset _ => owed && decide (¬ (tp = id.tp ∧ offset = id.offset + 1))
    | _ => owed) false

/-- A copy of a message, on its source topic or on the dead-letter topic. -/
def IsMove (c : Worker) (m : Message) (q : Queued) : Prop :=
  q.source = m.id ∧ (∃ headers, q.payload = .copy m.key m.value headers) ∧
    (q.topic = c.settings.dlqTopic ∨
      ∃ origin, Origin.fromHeaders c.std (decodeHeaders m) m = .ok origin ∧ q.topic = origin.topic)

/-- The message was acknowledged where it belongs. -/
def Moved (c : Worker) (b : Broker) (id : MessageId) : Prop :=
  ∃ m : Message, m.id = id ∧ ∃ q ∈ b.delivered, IsMove c m q

inductive Plan where
  | wait
  | release (topic : String)
  | giveUp
  /-- Something raises before anything is tried. -/
  | die
deriving DecidableEq

/-- What `_handle_message` does with a message that is due. -/
def planDue (c : Worker) (m : Message) (origin : Origin) : Plan :=
  if (decodeHeaders m hdrService).getD "" ∉ c.specs then .giveUp
  else
    match c.decodeJson m.value with
    | .invalid _ => .giveUp
    | .raises _ => .die
    | .event _ => .release origin.topic

/-- What `_handle_message` does with a message. -/
def plan (c : Worker) (env : Env) (m : Message) : Plan :=
  match Origin.fromHeaders c.std (decodeHeaders m) m with
  | .error _ => .die
  | .ok origin =>
    match timeHeader c.std (decodeHeaders m) hdrRetryAt with
    | none => planDue c m origin
    | some (.naive _) => .die
    | some (.aware t) => if env.now < t then .wait else planDue c m origin

/-- The publication of the copies of `m` to a topic will be acknowledged. -/
def Acknowledges (c : Worker) (env : Env) (p : ProducerState) (topic : String) (m : Message) : Prop :=
  ∀ headers, Acknowledged c.toDeployment env p (FailureRouter.copyOf c.toDeployment env topic m headers)

/-- What it takes for a turn to leave nothing behind: a wait pauses the partition, a release is
acknowledged, and a message given up is acknowledged or sought back to. -/
def Plan.Lossless (c : Worker) (env : Env) (p : ProducerState) (m : Message) : Plan → Prop
  | wait => env.pause = none
  | release topic => Acknowledges c env p topic m
  | giveUp => Acknowledges c env p c.settings.dlqTopic m ∨ env.seek m.tp = none
  | die => True

/-- The partition is deferred, and no longer than now. -/
def Due (env : Env) (w : World) (tp : TopicPartition) : Prop :=
  ∃ t, w.deferred tp = some t ∧ t ≤ env.now

/-- What `poll` may return: a message of an assigned partition that is not paused, or was resumed just
before, at or after the read position and never past one that was read before. -/
structure Polled (env : Env) (w : World) (m : Message) : Prop where
  assigned : m.tp ∈ w.assignment
  active : w.paused m.tp = true → Due env w m.tp ∧ env.resume m.tp = none
  position_le : w.position m.tp ≤ m.offset
  next : ∀ id, .poll id ∈ w.trace → id.tp = m.tp → w.position m.tp ≤ id.offset → m.offset ≤ id.offset

/-- A step is one the client can take. -/
def Contract (w : World) (l : Env × Label) : Prop := ∀ m, l.2 = .message m → Polled l.1 w m

/-- Nothing will be read from the partition before it is assigned anew. -/
def Stuck (w : World) (tp : TopicPartition) : Prop :=
  tp ∈ w.assignment → w.paused tp = true ∧ w.deferred tp = none

/-- Between turns. -/
structure Safe (c : Worker) (w : World) : Prop where
  accounted : ∀ id, .poll id ∈ w.trace → (Moved c w.broker id ∧ owed id w.trace = false) ∨
    ((w.broker.committed id.tp).getD 0 ≤ id.offset ∧
      (w.position id.tp ≤ id.offset ∨ Stuck w id.tp))
  committed_le : ∀ tp, (w.broker.committed tp).getD 0 ≤ w.position tp
  paused_of_deferred : ∀ tp, w.deferred tp ≠ none → w.paused tp = true
  txn_eq : w.producer.txn = none

/-- While `m` is being handled: what `Safe` says of every other message, and nothing committed is
past `m`. -/
structure Reading (c : Worker) (m : Message) (w : World) : Prop where
  accounted : ∀ id, .poll id ∈ w.trace → id ≠ m.id →
    (Moved c w.broker id ∧ owed id w.trace = false) ∨
      ((w.broker.committed id.tp).getD 0 ≤ id.offset ∧
        (id.tp = m.tp ∧ m.offset < id.offset ∨
          id.tp ≠ m.tp ∧ (w.position id.tp ≤ id.offset ∨ Stuck w id.tp)))
  low : (w.broker.committed m.tp).getD 0 ≤ m.offset
  committed_le : ∀ tp, (w.broker.committed tp).getD 0 ≤ w.position tp
  position_eq : w.position m.tp = m.offset + 1
  paused_of_deferred : ∀ tp, w.deferred tp ≠ none → w.paused tp = true
  fresh : w.deferred m.tp = none
  txn_eq : w.producer.txn = none

theorem Moved.mono {b b' : Broker} (h : Moved c b id) (hsub : ∀ q ∈ b.delivered, q ∈ b'.delivered) :
    Moved c b' id := by
  obtain ⟨m, hid, q, hq, hmove⟩ := h
  exact ⟨m, hid, q, hsub q hq, hmove⟩

theorem owed_concat (id : MessageId) (calls : List Call) (call : Call) :
    owed id (calls ++ [call]) = match call with
      | .poll id' => owed id calls || decide (id' = id)
      | .commit tp offset _ => owed id calls && decide (¬ (tp = id.tp ∧ offset = id.offset + 1))
      | _ => owed id calls := by
  unfold owed
  rw [List.foldl_append]
  rfl

/-- A process started again is at the committed offsets. -/
theorem restart_safe (h : ∀ id, .poll id ∈ w.trace → (Moved c w.broker id ∧ owed id w.trace = false) ∨
    (w.broker.committed id.tp).getD 0 ≤ id.offset) : Safe c (restart w) where
  accounted id hpoll := (h id hpoll).imp_right fun hle => ⟨hle, .inl hle⟩
  committed_le _ := Nat.le_refl _
  paused_of_deferred _ hne := absurd rfl hne
  txn_eq := rfl

theorem Safe.restart (h : Safe c w) : Safe c (RetryWorker.restart w) :=
  restart_safe fun id hpoll => (h.accounted id hpoll).imp_right And.left

theorem Reading.restart (h : Reading c m w) : Safe c (RetryWorker.restart w) := by
  refine restart_safe fun id hpoll => ?_
  by_cases hid : id = m.id
  · subst hid
    exact .inr h.low
  · exact (h.accounted id hpoll hid).imp_right And.left

/-- A turn ends well when its message was moved and committed, or will be read again, or the partition
will not be read on. -/
theorem Reading.safe (h : Reading c m w) (hm : (Moved c w.broker m.id ∧ owed m.id w.trace = false) ∨
    w.position m.tp ≤ m.offset ∨ Stuck w m.tp) : Safe c w where
  accounted id hpoll := by
    by_cases hid : id = m.id
    · subst hid
      exact hm.imp_right fun hm => ⟨h.low, hm⟩
    · refine (h.accounted id hpoll hid).imp_right fun ⟨hle, hpos⟩ => ⟨hle, ?_⟩
      rcases hpos with ⟨htp, hlt⟩ | ⟨-, hpos⟩
      · rw [htp, h.position_eq]
        exact .inl hlt
      · exact hpos
  committed_le := h.committed_le
  paused_of_deferred := h.paused_of_deferred
  txn_eq := h.txn_eq

/-- Polling `m` starts its turn. -/
theorem Safe.receive (h : Safe c w) (hfresh : w.deferred m.tp = none)
    (hactive : w.paused m.tp = false) (hassigned : m.tp ∈ w.assignment)
    (hle : w.position m.tp ≤ m.offset)
    (hnext : ∀ id, .poll id ∈ w.trace → id.tp = m.tp → w.position m.tp ≤ id.offset →
      m.offset ≤ id.offset) : Reading c m { w with
        position := Function.update w.position m.tp (m.offset + 1), handling := m.id
        trace := w.trace ++ [.poll m.id] } where
  accounted id hpoll hid := by
    have hpoll : .poll id ∈ w.trace := by simpa [hid] using hpoll
    refine (h.accounted id hpoll).imp (fun ⟨hmoved, howed⟩ => ⟨hmoved, ?_⟩) fun ⟨hlow, hpos⟩ => ⟨hlow, ?_⟩
    · rw [owed_concat, howed]
      simpa using fun heq => hid heq.symm
    · by_cases htp : id.tp = m.tp
      · rcases hpos with hpos | hstuck
        · have hmle := hnext id hpoll htp (htp ▸ hpos)
          have hne : m.offset ≠ id.offset := by
            intro heq
            obtain ⟨tp, offset⟩ := id
            obtain rfl : tp = m.tp := htp
            obtain rfl : m.offset = offset := heq
            exact hid rfl
          exact .inl ⟨htp, by omega⟩
        · rw [htp] at hstuck
          rw [(hstuck hassigned).1] at hactive
          cases hactive
      · refine .inr ⟨htp, ?_⟩
        simpa [Function.update_of_ne htp, Stuck] using hpos
  low := Nat.le_trans (h.committed_le _) hle
  committed_le tp := by
    by_cases htp : tp = m.tp
    · subst htp
      have := h.committed_le m.tp
      simp only [Function.update_self]
      omega
    · simpa [Function.update_of_ne htp] using h.committed_le tp
  position_eq := by simp
  paused_of_deferred := h.paused_of_deferred
  fresh := hfresh
  txn_eq := h.txn_eq

/-! ## The calls of a turn -/

/-- Neither a reading nor a commit. -/
def Quiet : Call → Prop
  | .poll _ | .commit .. => False
  | _ => True

theorem poll_mem_quiet {call : Call} {calls : List Call} (hquiet : Quiet call)
    (h : .poll id ∈ calls ++ [call]) : .poll id ∈ calls := by
  rcases List.mem_append.1 h with h | h
  · exact h
  · rw [← List.mem_singleton.1 h] at hquiet
    exact hquiet.elim

theorem owed_quiet {call : Call} (calls : List Call) (hquiet : Quiet call) :
    owed id (calls ++ [call]) = owed id calls := by
  rw [owed_concat]
  cases call with
  | poll | commit => exact hquiet.elim
  | _ => rfl

theorem Reading.frame {b : Broker} {p : ProducerState} {s : LocalStore} {n : Option Nat} {call : Call}
    (h : Reading c m w) (hquiet : Quiet call) (hdelivered : ∀ q ∈ w.broker.delivered, q ∈ b.delivered)
    (hcommitted : b.committed = w.broker.committed) (htxn : p.txn = none) :
    Reading c m { w with
      broker := b, producer := p, store := s, crashIn := n, trace := w.trace ++ [call] } where
  accounted id hpoll hid := by
    rcases h.accounted id (poll_mem_quiet hquiet hpoll) hid with ⟨hmoved, howed⟩ | hright
    · exact .inl ⟨hmoved.mono hdelivered, (owed_quiet _ hquiet).trans howed⟩
    · exact .inr (by simpa only [hcommitted, Stuck] using hright)
  low := by simpa only [hcommitted] using h.low
  committed_le := by simpa only [hcommitted] using h.committed_le
  position_eq := h.position_eq
  paused_of_deferred := h.paused_of_deferred
  fresh := h.fresh
  txn_eq := htxn

theorem Reading.paused (h : Reading c m w) (n : Option Nat) : Reading c m { w with
    paused := Function.update w.paused m.tp true, crashIn := n } where
  accounted id hpoll hid := by
    refine (h.accounted id hpoll hid).imp_right fun ⟨hlow, hpos⟩ => ⟨hlow, hpos.imp_right ?_⟩
    rintro ⟨htp, hpos⟩
    exact ⟨htp, by simpa [Stuck, Function.update_of_ne htp] using hpos⟩
  low := h.low
  committed_le := h.committed_le
  position_eq := h.position_eq
  paused_of_deferred tp hne := by
    by_cases htp : tp = m.tp
    · subst htp; simp
    · simpa [Function.update_of_ne htp] using h.paused_of_deferred tp hne
  fresh := h.fresh
  txn_eq := h.txn_eq

/-- Sought back to, with or without a deferral noted. -/
theorem Reading.sought {deferred : TopicPartition → Option Int} (h : Reading c m w) (n : Option Nat)
    (hne : ∀ tp, tp ≠ m.tp → deferred tp = w.deferred tp)
    (hpaused : deferred m.tp ≠ none → w.paused m.tp = true) : Safe c { w with
      position := Function.update w.position m.tp m.offset, deferred := deferred, crashIn := n
      trace := w.trace ++ [.seek m.tp m.offset true] } where
  accounted id hpoll := by
    have hquiet : Quiet (.seek m.tp m.offset true) := trivial
    have hpoll := poll_mem_quiet hquiet hpoll
    by_cases hid : id = m.id
    · subst hid
      exact .inr ⟨h.low, .inl (Nat.le_of_eq (Function.update_self ..))⟩
    · refine (h.accounted id hpoll hid).imp (fun ⟨hmoved, howed⟩ => ?_) fun ⟨hlow, hpos⟩ => ⟨hlow, ?_⟩
      · exact ⟨hmoved, (owed_quiet _ hquiet).trans howed⟩
      · rcases hpos with ⟨htp, hlt⟩ | ⟨htp, hpos⟩
        · rw [htp]
          simpa using .inl (Nat.le_of_lt hlt)
        · simpa [Stuck, Function.update_of_ne htp, hne _ htp] using hpos
  committed_le tp := by
    by_cases htp : tp = m.tp
    · subst htp
      simpa using h.low
    · simpa [Function.update_of_ne htp] using h.committed_le tp
  paused_of_deferred tp hdeferred := by
    by_cases htp : tp = m.tp
    · subst htp
      exact hpaused hdeferred
    · exact h.paused_of_deferred tp (hne tp htp ▸ hdeferred)
  txn_eq := h.txn_eq

theorem owed_commit {calls : List Call} {ok : Bool} (m : Message) :
    owed m.id (calls ++ [.commit m.tp (m.offset + 1) ok]) = false := by
  rw [owed_concat]
  simp [Message.id]

theorem owed_commit_ne {calls : List Call} {ok : Bool} (h : owed id calls = false) :
    owed id (calls ++ [.commit m.tp (m.offset + 1) ok]) = false := by
  rw [owed_concat, h]
  rfl

theorem poll_mem_commit {calls : List Call} {ok : Bool}
    (h : .poll id ∈ calls ++ [.commit m.tp (m.offset + 1) ok]) : .poll id ∈ calls := by
  simpa using h

/-- A commit that went through. -/
theorem Reading.committed (h : Reading c m w) (hm : Moved c w.broker m.id) (n : Option Nat) :
    Safe c { w with
      broker := { w.broker with
        committed := Function.update w.broker.committed m.tp (some (m.offset + 1)) }
      crashIn := n, trace := w.trace ++ [.commit m.tp (m.offset + 1) true] } where
  accounted id hpoll := by
    have hpoll := poll_mem_commit hpoll
    by_cases hid : id = m.id
    · subst hid
      exact .inl ⟨hm, owed_commit m⟩
    · refine (h.accounted id hpoll hid).imp (fun ⟨hmoved, howed⟩ => ?_) fun ⟨hlow, hpos⟩ => ?_
      · exact ⟨hmoved, owed_commit_ne howed⟩
      · rcases hpos with ⟨htp, hlt⟩ | ⟨htp, hpos⟩
        · have hpos : w.position id.tp ≤ id.offset := by
            rw [htp, h.position_eq]
            exact hlt
          exact ⟨by simpa [htp] using Nat.succ_le_of_lt hlt, .inl hpos⟩
        · exact ⟨by simpa [Function.update_of_ne htp] using hlow, hpos⟩
  committed_le tp := by
    by_cases htp : tp = m.tp
    · subst htp
      simp [h.position_eq]
    · simpa [Function.update_of_ne htp] using h.committed_le tp
  paused_of_deferred := h.paused_of_deferred
  txn_eq := h.txn_eq

/-- A commit that was rejected. -/
theorem Reading.rejected (h : Reading c m w) (hm : Moved c w.broker m.id) (n : Option Nat) :
    Safe c { w with crashIn := n, trace := w.trace ++ [.commit m.tp (m.offset + 1) false] } := by
  have hreading : Reading c m { w with
      crashIn := n, trace := w.trace ++ [.commit m.tp (m.offset + 1) false] } :=
    { accounted := fun id hpoll hid => (h.accounted id (poll_mem_commit hpoll) hid).imp_left
        fun ⟨hmoved, howed⟩ => ⟨hmoved, owed_commit_ne howed⟩
      low := h.low
      committed_le := h.committed_le
      position_eq := h.position_eq
      paused_of_deferred := h.paused_of_deferred
      fresh := h.fresh
      txn_eq := h.txn_eq }
  exact hreading.safe (.inl ⟨hm, owed_commit m⟩)

/-! ## The exits of a turn -/

/-- However a turn of `m` dies, the process started after it is safe. -/
def dies (c : Worker) (_ : Exn) (w : World) : Prop := Safe c (RetryWorker.restart w)

theorem wp_commit (h : Reading c m w) (hm : Moved c w.broker m.id) :
    wp (commit env m) (fun _ => Safe c) (dies c) w := by
  simp only [commit, wp_tryCatch]
  refine wp_commitOffset h.restart (fun k n _ => ?_) fun n _ => ?_
  · exact h.rejected hm n
  · exact h.committed hm n

/-- A turn that publishes its message goes on where the message was moved, or where the publication
failed; it cannot fail if it will be acknowledged. -/
theorem wp_published {α : Type} {publication : M α} {next : Bool → M Unit} {topic : String}
    {headers : List (String × String)} {q : Queued}
    (hq : q = FailureRouter.copyOf c.toDeployment env topic m headers)
    (hpublication : ∀ (R : World → Prop) E, wp publication (fun _ => R) E w ↔
      wp (FailureRouter.publish c.toDeployment env topic m headers) (fun _ => R) E w)
    (h : Reading c m w) (hmove : IsMove c m q)
    (hmoved : ∀ t, Reading c m t → Moved c t.broker m.id →
      wp (next true) (fun _ => Safe c) (dies c) t)
    (hfailed : ∀ t, Reading c m t → ¬ Acknowledged c.toDeployment env w.producer q →
      wp (next false) (fun _ => Safe c) (dies c) t) :
    wp (published publication >>= next) (fun _ => Safe c) (dies c) w := by
  have hpublished : ∀ {b p pos n}, Published c.toDeployment q w.broker w.producer b p
      [.produce q true] → Reading c m { w with
        broker := b, producer := p, store := { w.store with position := pos }, crashIn := n
        trace := w.trace ++ [.produce q true] } := by
    intro b p pos n hp
    have htxn : p.txn = none := by rw [hp.txn_eq, h.txn_eq, Option.map_none]
    exact h.frame trivial (fun r hr => hp.delivered_mono hr) hp.committed_eq htxn
  simp only [published, wp_tryCatch, wp_bind, wp_pure]
  rw [hpublication]
  refine wp_routerPublish hq h.restart (fun text n _ hne => ?_) ?_ ?_
  · exact hfailed _ (h.frame trivial (fun _ hr => hr) rfl h.txn_eq) hne
  · rintro e n b p pos - (rfl | ⟨⟨text, rfl⟩, hne⟩) hp
    · exact (hpublished hp).restart
    · exact hfailed _ (hpublished hp) hne
  · intro n b p pos hp hdone
    have hdirect : c.settings.exactlyOnce = false := by
      obtain ⟨rs₁, b₁, p₁, rs₂, h₁, htxn, -⟩ := hp.served
      by_contra hx
      exact htxn (by simpa using hx) (h₁.txn_eq.trans h.txn_eq)
    obtain ⟨hempty, hfate⟩ := hdone hdirect
    exact hmoved _ (hpublished hp) ⟨m, rfl, q, hp.delivered h.txn_eq hempty hfate, hmove⟩

theorem wp_release {service : String} {origin : Origin} {attempt : Int} (h : Reading c m w)
    (horigin : Origin.fromHeaders c.std (decodeHeaders m) m = .ok origin)
    (hacked : Acknowledges c env w.producer origin.topic m) :
    wp (release c env m service origin attempt) (fun _ => Safe c) (dies c) w := by
  have hpublication : ∀ (R : World → Prop) E,
      wp (FailureRouter.toSource c.toDeployment env m origin service
        (c.settings.groupIdFor service) attempt) (fun _ => R) E w ↔
      wp (FailureRouter.publish c.toDeployment env origin.topic m
        (FailureRouter.provenance origin service (c.settings.groupIdFor service) ++
          [(hdrAttempt, toString attempt), (hdrRetryTarget, service)])) (fun _ => R) E w := by
    intro R E
    simp only [FailureRouter.toSource, wp_bind, wp_pure]
  unfold release
  refine wp_published rfl hpublication h ⟨rfl, ⟨_, rfl⟩, .inr ⟨origin, horigin, rfl⟩⟩ ?_ ?_
  · exact fun t ht hm => wp_commit ht hm
  · exact fun t _ hne => absurd (hacked _) hne

theorem wp_rewind (h : Reading c m w) (hseek : env.seek m.tp = none) :
    wp (rewind env m) (fun _ => Safe c) (dies c) w := by
  simp only [rewind, wp_tryCatch]
  refine wp_seek h.restart (fun k n hne => absurd hseek hne) fun n _ => ?_
  exact h.sought n (fun _ _ => rfl) fun hne => absurd h.fresh hne

theorem wp_giveUp {origin : Origin} {service : String} {attempt : Int} {exc : Exn}
    (h : Reading c m w)
    (hmoved : Acknowledges c env w.producer c.settings.dlqTopic m ∨ env.seek m.tp = none) :
    wp (giveUp c env m origin service attempt exc) (fun _ => Safe c) (dies c) w := by
  unfold giveUp
  refine wp_published rfl (fun R E => Iff.rfl) h ⟨rfl, ⟨_, rfl⟩, .inl rfl⟩ ?_ ?_
  · exact fun t ht hm => wp_commit ht hm
  · intro t ht hne
    rcases hmoved with hacked | hseek
    · exact absurd (hacked _) hne
    · exact wp_rewind ht hseek

theorem wp_defer {due : Datetime} (h : Reading c m w) (hpause : env.pause = none) :
    wp (defer env m due) (fun _ => Safe c) (dies c) w := by
  have hstuck : ∀ n, Stuck { w with
      paused := Function.update w.paused m.tp true, crashIn := n } m.tp :=
    fun _ _ => ⟨Function.update_self .., h.fresh⟩
  simp only [defer, wp_bind, wp_tryCatch]
  refine wp_pause h.restart (fun k n hne => absurd hpause hne) fun n _ => ?_
  refine wp_seek (h.paused n).restart (fun k n' _ => ?_) fun n' _ => ?_
  · have hfailed : Reading c m { w with
        paused := Function.update w.paused m.tp true, crashIn := n'
        trace := w.trace ++ [.seek m.tp m.offset false] } :=
      (h.paused n).frame trivial (fun _ hq => hq) rfl h.txn_eq
    exact hfailed.safe (.inr (.inr (hstuck n')))
  · rw [wp_pure]
    cases due with
    | naive t => exact (h.paused n).sought n' (fun _ _ => rfl) fun hne => absurd h.fresh hne
    | aware t =>
      refine (h.paused n).sought n' (fun tp htp => Function.update_of_ne htp ..) fun _ => ?_
      exact Function.update_self ..

theorem wp_handleDue {origin : Origin} (h : Reading c m w)
    (horigin : Origin.fromHeaders c.std (decodeHeaders m) m = .ok origin)
    (hplan : (planDue c m origin).Lossless c env w.producer m) :
    wp (handleDue c env m (decodeHeaders m) origin) (fun _ => Safe c) (dies c) w := by
  unfold planDue at hplan
  unfold handleDue
  simp only []
  split at hplan
  · rename_i hservice
    rw [if_pos hservice]
    exact wp_giveUp h hplan
  · rename_i hservice
    rw [if_neg hservice]
    rcases hdecode : c.decodeJson m.value with event | text | e
    · simp only [hdecode] at hplan ⊢
      exact wp_release h horigin hplan
    · simp only [hdecode] at hplan ⊢
      exact wp_giveUp h hplan
    · exact h.restart

theorem wp_ofExcept_ok {α : Type} {R : α → World → Prop} {a : α} :
    wp (ofExcept (.ok a)) R E w ↔ R a w := Iff.rfl

theorem wp_ofExcept_error {α : Type} {R : α → World → Prop} {e : Exn} :
    wp (ofExcept (.error e)) R E w ↔ E e w := Iff.rfl

/-- **The turn of a message**: whatever becomes of it, the worker is safe afterwards. -/
theorem wp_handleMessage (h : Reading c m w)
    (hplan : (plan c env m).Lossless c env w.producer m) :
    wp (handleMessage c env m) (fun _ => Safe c) (dies c) w := by
  simp only [plan] at hplan
  simp only [handleMessage, wp_bind]
  rcases horigin : Origin.fromHeaders c.std (decodeHeaders m) m with e | origin
  · rw [wp_ofExcept_error]
    exact h.restart
  rw [wp_ofExcept_ok]
  simp only [horigin] at hplan
  rcases htime : timeHeader c.std (decodeHeaders m) hdrRetryAt with _ | t | t
  · simp only [htime] at hplan
    exact wp_handleDue h horigin hplan
  · simp only [htime] at hplan
    simp only [isAfterNow, wp_bind, wp_ofExcept_ok]
    by_cases hnow : env.now < t
    · rw [if_pos (by simpa using hnow)]
      rw [if_pos hnow] at hplan
      exact wp_defer h hplan
    · rw [if_neg (by simpa using hnow)]
      rw [if_neg hnow] at hplan
      exact wp_handleDue h horigin hplan
  · simp only [isAfterNow, wp_bind, wp_ofExcept_error]
    exact h.restart

/-! ## Runs -/

/-- What `_resume_due` does: a partition that is due is no longer deferred, nor paused if it could be
resumed; the others are as they were. -/
def Resumed (env : Env) (w : World) (deferred : TopicPartition → Option Int)
    (paused : TopicPartition → Bool) : Prop :=
  ∀ tp, ¬ Due env w tp ∧ deferred tp = w.deferred tp ∧ paused tp = w.paused tp ∨
    Due env w tp ∧ deferred tp = none ∧ (env.resume tp = none → paused tp = false)

/-- The partition `poll` returns a message of is neither deferred nor paused. -/
theorem Polled.fresh {deferred : TopicPartition → Option Int} {paused : TopicPartition → Bool}
    (h : Polled env w m) (hsafe : Safe c w) (hresumed : Resumed env w deferred paused) :
    deferred m.tp = none ∧ paused m.tp = false := by
  rcases hresumed m.tp with ⟨hnot, hd, hp⟩ | ⟨hdue, hd, hp⟩
  · have hunpaused : w.paused m.tp = false := by
      by_contra hpaused
      exact hnot (h.active (by simpa using hpaused)).1
    refine ⟨?_, hp.trans hunpaused⟩
    by_contra hne
    rw [hsafe.paused_of_deferred m.tp (hd ▸ hne)] at hunpaused
    cases hunpaused
  · obtain ⟨t, ht, -⟩ := hdue
    have hpaused := hsafe.paused_of_deferred m.tp (by simp [ht])
    exact ⟨hd, hp (h.active hpaused).2⟩

/-- Partitions that are assigned are read from the committed offset. -/
theorem Safe.assign (h : Safe c w) (tps : List TopicPartition) : Safe c (w.assign tps) where
  accounted id hpoll := by
    refine (h.accounted id hpoll).imp_right fun ⟨hlow, hpos⟩ => ⟨hlow, ?_⟩
    by_cases htp : id.tp ∈ tps
    · exact .inl (by simpa [World.assign, htp] using hlow)
    · refine hpos.imp (fun hle => by simpa [World.assign, htp] using hle) fun hstuck hassigned => ?_
      exact hstuck (by simpa [World.assign, htp] using hassigned)
  committed_le tp := by
    by_cases htp : tp ∈ tps
    · simp [World.assign, htp]
    · simpa [World.assign, htp] using h.committed_le tp
  paused_of_deferred := h.paused_of_deferred
  txn_eq := h.txn_eq

/-- Partitions that are revoked are neither deferred nor paused any more. -/
theorem Safe.revoke (h : Safe c w) (tps : List TopicPartition) :
    Safe c (World.unassign { w with
      deferred := fun tp => if tp ∈ tps then none else w.deferred tp } tps) where
  accounted id hpoll := by
    refine (h.accounted id hpoll).imp_right fun ⟨hlow, hpos⟩ => ⟨hlow, hpos.imp_right ?_⟩
    intro hstuck hassigned
    obtain ⟨hmem, htp⟩ : id.tp ∈ w.assignment ∧ id.tp ∉ tps := by
      simpa [World.unassign] using hassigned
    simpa [World.unassign, htp] using hstuck hmem
  committed_le := h.committed_le
  paused_of_deferred tp hne := by
    by_cases htp : tp ∈ tps
    · simp [World.unassign, htp] at hne
    · simp only [World.unassign, htp, if_false] at hne ⊢
      exact h.paused_of_deferred tp hne
  txn_eq := h.txn_eq

/-- A worker that knows one service and can decode everything. -/
def inventoryWorker : Worker where
  toDeployment := .onePartition {} fun _ => .invalid ""
  specs := ["inventory"]
  decodeJson _ := .event ⟨"e1", "o", 1, .orderCreated, Nat.one_pos⟩

def assigned : Env × Label := ({}, .assign [⟨"order-lifecycle.retry", 0⟩])

end RetryWorker

end OrderService
