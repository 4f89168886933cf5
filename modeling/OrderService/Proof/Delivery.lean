import OrderService.Producer.Delivery

/-!
# What a delivery report decides

`answers_decided`: however the callers, the threads that serve the client and the broker interleave, each
call ends as `publishBlocking` says of what became of its own record. A call that returns a place has its
record there; a refused one is on no topic; no record is written twice. The invariant has two parts:
`Lodged` is about the client and the partitions, `Answered` about the reports and the dicts they fill.
-/

namespace OrderService.Delivery

open Eff Threads

variable {ι : Type} {calls : ι → Publication} {w w' : Wire ι} {i j : ι} {record : Outgoing}
  {place : DeliveryResult}

/-- The record at an offset of a partition. -/
def Wire.Holds (w : Wire ι) (tp : TopicPartition) (offset : Nat) (e : Landed ι) : Prop :=
  (w.log tp)[offset]? = some e

/-- The record of a call is at `place`. -/
def Wire.At (w : Wire ι) (call : ι) (record : Outgoing) (place : DeliveryResult) : Prop :=
  w.Holds ⟨record.topic, place.partition⟩ place.offset ⟨some call, record.key, record.value⟩

/-- The record of a call is in some partition. -/
def Wire.Stored (w : Wire ι) (call : ι) : Prop := ∃ tp n e, w.Holds tp n e ∧ e.call = some call

/-- The client took the record of the call. -/
def Wire.Given (w : Wire ι) (call : ι) : Prop := ∃ p ∈ w.sent, p.call = call

/-- The report of it came. -/
def Wire.Reported (w : Wire ι) (call : ι) : Prop := ∃ p ∈ w.sent, p.call = call ∧ p.reported = true

/-- `fate` is what became of the record of a call. -/
def Happened (w : Wire ι) (call : ι) (record : Outgoing) : DeliveryFate → Prop
  | .acked result => w.At call record result
  | .refused _ => ¬ w.Given call ∧ ¬ w.Stored call
  | .reported stored detail => w.Given call ∧ (stored = true ↔ w.Stored call) ∧
    ∃ err, detail = describeDeliveryError err record.topic
  | .silent stored _ => w.Given call ∧ (stored = true ↔ w.Stored call)

/-- The call ended as it should. -/
def Decided (w : Wire ι) (call : ι) : Publication → Ending → Prop
  | .blocking record what wait, ending => ∃ fate,
    ending = .of (OrderService.publishBlocking record.topic what wait fate) ∧ Happened w call record fate
  | .snapshot _, ending => ending = .mirrored

/-- What is in a partition on behalf of a call is its record, and it is there once. -/
structure Exclusive (calls : ι → Publication) (w : Wire ι) : Prop where
  own : ∀ tp n e i, w.Holds tp n e → e.call = some i →
    tp.topic = (calls i).outgoing.topic ∧ e = ⟨some i, (calls i).outgoing.key, (calls i).outgoing.value⟩
  once : ∀ tp n e tp' n' e' i, w.Holds tp n e → e.call = some i → w.Holds tp' n' e' → e'.call = some i →
    tp = tp' ∧ n = n'

/-! ## The log -/

theorem getElem?_concat_iff {α : Type} {l : List α} {a x : α} {n : Nat} :
    (l ++ [a])[n]? = some x ↔ l[n]? = some x ∨ n = l.length ∧ a = x := by
  rcases Nat.lt_trichotomy n l.length with h | rfl | h
  · rw [List.getElem?_append_left h]
    have : n ≠ l.length := Nat.ne_of_lt h
    simp [this]
  · simp
  · rw [List.getElem?_eq_none (by simp; omega), List.getElem?_eq_none (Nat.le_of_lt h)]
    have : n ≠ l.length := Nat.ne_of_gt h
    simp [this]

/-- One record was appended to one partition. -/
def Appended (tp : TopicPartition) (e : Landed ι) (w w' : Wire ι) : Prop :=
  w'.log = Function.update w.log tp (w.log tp ++ [e])

theorem Appended.holds {tp : TopicPartition} {e : Landed ι} (h : Appended tp e w w')
    {tp' : TopicPartition} {n : Nat} {x : Landed ι} :
    w'.Holds tp' n x ↔ w.Holds tp' n x ∨ tp' = tp ∧ n = (w.log tp).length ∧ e = x := by
  unfold Wire.Holds
  rw [h]
  by_cases htp : tp' = tp
  · subst htp
    rw [Function.update_self, getElem?_concat_iff]
    simp
  · rw [Function.update_of_ne htp]
    simp [htp]

theorem Appended.at {tp : TopicPartition} {e : Landed ι} (h : Appended tp e w w')
    (hat : w.At i record place) : w'.At i record place :=
  h.holds.2 (.inl hat)

theorem Appended.stored {tp : TopicPartition} {e : Landed ι} (h : Appended tp e w w') :
    w'.Stored i ↔ w.Stored i ∨ e.call = some i := by
  constructor
  · rintro ⟨tp', n, x, hx, hcall⟩
    obtain hx | ⟨-, -, rfl⟩ := h.holds.1 hx
    · exact .inl ⟨tp', n, x, hx, hcall⟩
    · exact .inr hcall
  · rintro (⟨tp', n, x, hx, hcall⟩ | hcall)
    · exact ⟨tp', n, x, h.holds.2 (.inl hx), hcall⟩
    · exact ⟨tp, _, e, h.holds.2 (.inr ⟨rfl, rfl, rfl⟩), hcall⟩

/-! ## The invariant -/

/-- What the client and the partitions say of each other. -/
structure Lodged (calls : ι → Publication) (w : Wire ι) : Prop extends Exclusive calls w where
  record_eq : ∀ p ∈ w.sent, p.record = (calls p.call).outgoing
  nodup : (w.sent.map (·.call)).Nodup
  unplaced : ∀ p ∈ w.sent, p.place = none → ¬ w.Stored p.call
  placed : ∀ p ∈ w.sent, ∀ place, p.place = some place → w.At p.call p.record place
  given : ∀ i, w.Stored i → w.Given i

/-- What the reports and the dicts say of the partitions and of the client. -/
structure Answered (calls : ι → Publication) (w : Wire ι) : Prop where
  topic_eq : ∀ r ∈ w.reports, r.topic = (calls r.call).outgoing.topic
  acked : ∀ r ∈ w.reports, ∀ place, r.outcome = .ok place → w.At r.call (calls r.call).outgoing place
  nodup : (w.reports.map (·.call)).Nodup
  pending : ∀ r ∈ w.reports, w.Reported r.call ∧ w.outcome r.call = {}
  reported : ∀ i, w.outcome i ≠ {} → w.Reported i
  result : ∀ i place, (w.outcome i).result = some place → w.At i (calls i).outgoing place
  error : ∀ i detail, (w.outcome i).error = some detail →
    ∃ err, detail = describeDeliveryError err (calls i).outgoing.topic
  filled : ∀ i, i ∈ w.serving ∨ w.done i = true → w.outcome i ≠ {}

/-- A record of the list changes, and its call does not. -/
theorem map_call_set {l : List (Sent ι)} {n : Nat} {p q : Sent ι} (hp : l[n]? = some p)
    (hq : q.call = p.call) : (l.set n q).map (·.call) = l.map (·.call) := by
  obtain ⟨hn, rfl⟩ := List.getElem?_eq_some_iff.1 hp
  have hlength : n < (l.map (·.call)).length := by rwa [List.length_map]
  have hself : q.call = (l.map (·.call))[n] := by rw [List.getElem_map, hq]
  rw [List.map_set, hself]
  exact List.set_getElem_self _

theorem given_iff : w.Given i ↔ i ∈ w.sent.map (·.call) := by
  unfold Wire.Given
  simp only [List.mem_map]

/-- The dicts, the reports and the events are as they were. -/
structure SameAnswers (w w' : Wire ι) : Prop where
  reports : w'.reports = w.reports
  serving : w'.serving = w.serving
  outcome : w'.outcome = w.outcome
  done : w'.done = w.done

/-- Nothing that was written or reported is undone. -/
structure Grown (w w' : Wire ι) : Prop where
  at_ : ∀ i record place, w.At i record place → w'.At i record place
  reported : ∀ i, w.Reported i → w'.Reported i

theorem Answered.grown (h : Answered calls w) (hsame : SameAnswers w w') (hgrown : Grown w w') :
    Answered calls w' where
  topic_eq := by
    rw [hsame.reports]
    exact h.topic_eq
  acked := by
    rw [hsame.reports]
    exact fun r hr place hok => hgrown.at_ _ _ _ (h.acked r hr place hok)
  nodup := by
    rw [hsame.reports]
    exact h.nodup
  pending := by
    rw [hsame.reports, hsame.outcome]
    exact fun r hr => ⟨hgrown.reported _ (h.pending r hr).1, (h.pending r hr).2⟩
  reported := by
    rw [hsame.outcome]
    exact fun i hi => hgrown.reported i (h.reported i hi)
  result := by
    rw [hsame.outcome]
    exact fun i place hi => hgrown.at_ _ _ _ (h.result i place hi)
  error := by
    rw [hsame.outcome]
    exact h.error
  filled := by
    rw [hsame.serving, hsame.done, hsame.outcome]
    exact h.filled

/-! ## The broker writes -/

/-- The broker wrote the record `p`, and what the client remembers of it is now `q`. -/
structure Stores (w w' : Wire ι) (p q : Sent ι) (partition n : Nat) : Prop where
  sent : w.sent[n]? = some p
  unplaced : p.place = none
  appended : Appended ⟨p.record.topic, partition⟩ ⟨some p.call, p.record.key, p.record.value⟩ w w'
  sent_eq : w'.sent = w.sent.set n q
  eq : q = { p with place := some ⟨partition, (w.log ⟨p.record.topic, partition⟩).length⟩ }
  same : SameAnswers w w'

theorem store_cases (w : Wire ι) (n partition : Nat) :
    w.store n partition = w ∨ ∃ p q, Stores w (w.store n partition) p q partition n := by
  unfold Wire.store
  split
  · exact .inl rfl
  · next p hp =>
    dsimp only
    split
    · exact .inl rfl
    · next hplace =>
      rw [Bool.not_eq_true, Option.isSome_eq_false_iff, Option.isNone_iff_eq_none] at hplace
      exact .inr ⟨p, _, hp, hplace, rfl, rfl, rfl, rfl, rfl, rfl, rfl⟩

section stores

variable {p q : Sent ι} {partition n : Nat} (hs : Stores w w' p q partition n)
include hs

theorem Stores.mem : p ∈ w.sent := List.mem_of_getElem? hs.sent

theorem Stores.calls_eq : w'.sent.map (·.call) = w.sent.map (·.call) := by
  rw [hs.sent_eq]
  exact map_call_set hs.sent (by rw [hs.eq])

theorem Stores.given : w'.Given i ↔ w.Given i := by rw [given_iff, given_iff, hs.calls_eq]

/-- The other records are as they were. -/
theorem Stores.split (hnodup : (w.sent.map (·.call)).Nodup) {x : Sent ι} (hx : x ∈ w'.sent) :
    x = q ∨ x ∈ w.sent ∧ x.call ≠ p.call := by
  have hq : q ∈ w'.sent := by
    rw [hs.sent_eq]
    exact List.mem_set (List.getElem?_eq_some_iff.1 hs.sent).1 q
  by_cases hne : x.call = p.call
  · have hcall : x.call = q.call := by rw [hne, hs.eq]
    rw [← hs.calls_eq] at hnodup
    exact .inl (List.inj_on_of_nodup_map hnodup hx hq hcall)
  · rw [hs.sent_eq] at hx
    obtain hx | rfl := List.mem_or_eq_of_mem_set hx
    · exact .inr ⟨hx, hne⟩
    · exact absurd (by rw [hs.eq]) hne

theorem Stores.grown : Grown w w' where
  at_ := fun _ _ _ hat => hs.appended.at hat
  reported := by
    rintro i ⟨x, hx, rfl, hreported⟩
    obtain ⟨m, hm, rfl⟩ := List.getElem_of_mem hx
    by_cases hmn : m = n
    · subst hmn
      obtain ⟨_, hp⟩ := List.getElem?_eq_some_iff.1 hs.sent
      refine ⟨q, ?_, ?_, ?_⟩
      · rw [hs.sent_eq]
        exact List.mem_set hm q
      · rw [hs.eq, hp]
      · rw [hs.eq, ← hp]
        exact hreported
    · refine ⟨_, ?_, rfl, hreported⟩
      rw [hs.sent_eq, List.mem_iff_getElem?]
      exact ⟨m, by rw [List.getElem?_set_ne (Ne.symm hmn), List.getElem?_eq_getElem hm]⟩

theorem Stores.lodged (h : Lodged calls w) : Lodged calls w' := by
  have habsent := h.unplaced p hs.mem hs.unplaced
  have hat : w'.At p.call p.record ⟨partition, (w.log ⟨p.record.topic, partition⟩).length⟩ :=
    hs.appended.holds.2 (.inr ⟨rfl, rfl, rfl⟩)
  refine ⟨⟨fun tp m x i hx hi => ?_, fun tp m x tp' m' x' i hx hi hx' hi' => ?_⟩, fun x hx => ?_, ?_,
    fun x hx hnone => ?_, fun x hx place hsome => ?_, fun i hi => ?_⟩
  · obtain hx | ⟨rfl, -, rfl⟩ := hs.appended.holds.1 hx
    · exact h.own tp m x i hx hi
    · cases hi
      rw [← h.record_eq p hs.mem]
      exact ⟨rfl, rfl⟩
  · obtain hx | ⟨rfl, rfl, rfl⟩ := hs.appended.holds.1 hx <;>
      obtain hx' | ⟨rfl, rfl, rfl⟩ := hs.appended.holds.1 hx'
    · exact h.once tp m x tp' m' x' i hx hi hx' hi'
    · cases hi'
      exact absurd ⟨tp, m, x, hx, hi⟩ habsent
    · cases hi
      exact absurd ⟨tp', m', x', hx', hi'⟩ habsent
    · exact ⟨rfl, rfl⟩
  · obtain rfl | ⟨hold, -⟩ := hs.split h.nodup hx
    · rw [hs.eq]
      exact h.record_eq p hs.mem
    · exact h.record_eq x hold
  · rw [hs.calls_eq]
    exact h.nodup
  · obtain rfl | ⟨hold, hne⟩ := hs.split h.nodup hx
    · rw [hs.eq] at hnone
      cases hnone
    · rw [hs.appended.stored, Option.some.injEq, not_or]
      exact ⟨h.unplaced x hold hnone, Ne.symm hne⟩
  · obtain rfl | ⟨hold, -⟩ := hs.split h.nodup hx
    · rw [hs.eq] at hsome ⊢
      cases hsome
      exact hat
    · exact hs.appended.at (h.placed x hold place hsome)
  · rw [hs.given]
    obtain hi | hi := hs.appended.stored.1 hi
    · exact h.given i hi
    · cases hi
      exact ⟨p, hs.mem, rfl⟩

end stores

/-! ## A report comes -/

/-- The report of `p` joined the ones that wait. -/
structure Reports (w w' : Wire ι) (p : Sent ι) (outcome : Except ReportError DeliveryResult) (n : Nat) :
    Prop where
  sent : w.sent[n]? = some p
  unreported : p.reported = false
  place : ∀ place, outcome = .ok place → p.place = some place
  eq : w' = { w with
    sent := w.sent.set n { p with reported := true }
    reports := w.reports ++ [⟨p.call, p.record.topic, p.awaited, outcome⟩] }

theorem report_cases (w : Wire ι) (n : Nat) (error : Option ReportError) :
    w.report n error = w ∨ ∃ p outcome, Reports w (w.report n error) p outcome n := by
  unfold Wire.report
  split
  · exact .inl rfl
  · next p hp =>
    split
    · exact .inl rfl
    · next outcome houtcome =>
      split
      · exact .inl rfl
      · next hreported =>
        refine .inr ⟨p, outcome, hp, Bool.eq_false_iff.2 hreported, fun place hok => ?_, rfl⟩
        subst hok
        cases error with
        | some err => cases houtcome
        | none =>
          obtain ⟨place', hplace, heq⟩ := Option.map_eq_some_iff.1 houtcome
          cases heq
          exact hplace

section reports

variable {p : Sent ι} {outcome : Except ReportError DeliveryResult} {n : Nat}
  (hr : Reports w w' p outcome n)
include hr

theorem Reports.mem : p ∈ w.sent := List.mem_of_getElem? hr.sent

theorem Reports.calls_eq : w'.sent.map (·.call) = w.sent.map (·.call) := by
  have hset : (w.sent.set n { p with reported := true }).map (·.call) = w.sent.map (·.call) :=
    map_call_set hr.sent rfl
  rw [hr.eq]
  exact hset

theorem Reports.log : w'.log = w.log := by rw [hr.eq]

theorem Reports.self : w'.Reported p.call := by
  refine ⟨{ p with reported := true }, ?_, rfl, rfl⟩
  rw [hr.eq]
  exact List.mem_set (List.getElem?_eq_some_iff.1 hr.sent).1 _

/-- What the client remembers is otherwise as it was. -/
theorem Reports.old {x : Sent ι} (hx : x ∈ w'.sent) :
    ∃ y ∈ w.sent, x.call = y.call ∧ x.record = y.record ∧ x.place = y.place := by
  rw [hr.eq] at hx
  obtain hx | rfl := List.mem_or_eq_of_mem_set hx
  · exact ⟨x, hx, rfl, rfl, rfl⟩
  · exact ⟨p, hr.mem, rfl, rfl, rfl⟩

theorem Reports.reported (hi : w.Reported i) : w'.Reported i := by
  obtain ⟨x, hx, rfl, hreported⟩ := hi
  obtain ⟨m, hm, rfl⟩ := List.getElem_of_mem hx
  by_cases hmn : m = n
  · subst hmn
    obtain ⟨_, hp⟩ := List.getElem?_eq_some_iff.1 hr.sent
    rw [hp]
    exact hr.self
  · refine ⟨_, ?_, rfl, hreported⟩
    rw [hr.eq, List.mem_iff_getElem?]
    exact ⟨m, by rw [List.getElem?_set_ne (Ne.symm hmn), List.getElem?_eq_getElem hm]⟩

theorem Reports.lodged (h : Lodged calls w) : Lodged calls w' := by
  have hholds : w'.Holds = w.Holds := by
    unfold Wire.Holds
    rw [hr.log]
  have hat : w'.At = w.At := by
    unfold Wire.At
    rw [hholds]
  have hstored : w'.Stored = w.Stored := by
    unfold Wire.Stored
    rw [hholds]
  refine ⟨⟨?_, ?_⟩, fun x hx => ?_, ?_, fun x hx hnone => ?_, fun x hx place hsome => ?_, fun i hi => ?_⟩
  · rw [hholds]
    exact h.own
  · rw [hholds]
    exact h.once
  · obtain ⟨y, hy, hcall, hrecord, -⟩ := hr.old hx
    rw [hcall, hrecord]
    exact h.record_eq y hy
  · rw [hr.calls_eq]
    exact h.nodup
  · obtain ⟨y, hy, hcall, -, hplace⟩ := hr.old hx
    rw [hcall, hstored]
    exact h.unplaced y hy (hplace.symm.trans hnone)
  · obtain ⟨y, hy, hcall, hrecord, hplace⟩ := hr.old hx
    rw [hcall, hrecord, hat]
    exact h.placed y hy place (hplace.symm.trans hsome)
  · rw [hstored] at hi
    rw [given_iff, hr.calls_eq, ← given_iff]
    exact h.given i hi

/-- A record is reported once. -/
theorem Reports.unreported_call (h : Lodged calls w) : ¬ w.Reported p.call := by
  rintro ⟨x, hx, hcall, hreported⟩
  obtain rfl := List.inj_on_of_nodup_map h.nodup hx hr.mem hcall
  rw [hr.unreported] at hreported
  cases hreported

theorem Reports.answered (hl : Lodged calls w) (h : Answered calls w) : Answered calls w' := by
  have hfresh := hr.unreported_call hl
  have hempty : w.outcome p.call = {} := by
    by_contra hne
    exact hfresh (h.reported _ hne)
  have hat : w'.At = w.At := by
    unfold Wire.At Wire.Holds
    rw [hr.log]
  have houtcome : w'.outcome = w.outcome := by rw [hr.eq]
  have hreports : w'.reports = w.reports ++ [⟨p.call, p.record.topic, p.awaited, outcome⟩] := by rw [hr.eq]
  have hsplit : ∀ r ∈ w'.reports, r ∈ w.reports ∨ r = ⟨p.call, p.record.topic, p.awaited, outcome⟩ := by
    intro r hmem
    rw [hreports] at hmem
    exact (List.mem_append.1 hmem).imp_right List.mem_singleton.1
  refine ⟨fun r hmem => ?_, fun r hmem place hok => ?_, ?_, fun r hmem => ?_, fun i hi => ?_,
    fun i place hi => ?_, fun i detail hi => ?_, fun i hi => ?_⟩
  · obtain hold | rfl := hsplit r hmem
    · exact h.topic_eq r hold
    · exact congrArg Outgoing.topic (hl.record_eq p hr.mem)
  · rw [hat]
    obtain hold | rfl := hsplit r hmem
    · exact h.acked r hold place hok
    · rw [← hl.record_eq p hr.mem]
      exact hl.placed p hr.mem place (hr.place place hok)
  · rw [hreports, List.map_append, List.nodup_append]
    refine ⟨h.nodup, List.nodup_singleton _, fun a ha b hb hab => ?_⟩
    obtain ⟨r, hmem, rfl⟩ := List.mem_map.1 ha
    have hcall : r.call = p.call := hab.trans (List.mem_singleton.1 hb)
    rw [← hcall] at hfresh
    exact hfresh (h.pending r hmem).1
  · rw [houtcome]
    obtain hold | rfl := hsplit r hmem
    · exact ⟨hr.reported (h.pending r hold).1, (h.pending r hold).2⟩
    · exact ⟨hr.self, hempty⟩
  · rw [houtcome] at hi
    exact hr.reported (h.reported i hi)
  · rw [houtcome] at hi
    rw [hat]
    exact h.result i place hi
  · rw [houtcome] at hi
    exact h.error i detail hi
  · rw [houtcome]
    rw [hr.eq] at hi
    exact h.filled i hi

end reports

/-! ## A callback runs -/

/-- Only the reports, the dicts and the events changed. -/
theorem Lodged.of_eq (h : Lodged calls w) (hlog : w'.log = w.log) (hsent : w'.sent = w.sent) :
    Lodged calls w' := by
  obtain ⟨sent, log, _, _, _, _⟩ := w
  obtain ⟨sent', log', _, _, _, _⟩ := w'
  cases hlog
  cases hsent
  exact ⟨⟨h.own, h.once⟩, h.record_eq, h.nodup, h.unplaced, h.placed, h.given⟩

theorem filled_ne (r : Report ι) : r.filled ≠ {} := by
  unfold Report.filled
  split <;> simp

theorem filled_result {r : Report ι} (h : r.filled.result = some place) : r.outcome = .ok place := by
  unfold Report.filled at h
  split at h
  · cases h
  · next hok =>
    cases h
    exact hok

theorem filled_error {r : Report ι} {detail : String} (h : r.filled.error = some detail) :
    ∃ err, detail = describeDeliveryError err r.topic := by
  unfold Report.filled at h
  split at h
  · next err _ =>
    cases h
    exact ⟨err, rfl⟩
  · cases h

section callbacks

variable [DecidableEq ι]

theorem serve_same (w : Wire ι) : w.serve.log = w.log ∧ w.serve.sent = w.sent ∧ w.serve.done = w.done := by
  unfold Wire.serve
  split
  · exact ⟨rfl, rfl, rfl⟩
  · split <;> exact ⟨rfl, rfl, rfl⟩

theorem signal_same (w : Wire ι) (n : Nat) : (w.signal n).log = w.log ∧ (w.signal n).sent = w.sent ∧
    ∀ i, w.done i = true → (w.signal n).done i = true := by
  unfold Wire.signal
  split
  · exact ⟨rfl, rfl, fun _ h => h⟩
  · next call _ =>
    refine ⟨rfl, rfl, fun i h => ?_⟩
    by_cases hcall : i = call
    · subst hcall
      exact Function.update_self _ _ _
    · dsimp only
      rw [Function.update_of_ne hcall]
      exact h

theorem Answered.serve (h : Answered calls w) : Answered calls w.serve := by
  unfold Wire.serve
  split
  · exact h
  · next r rest hreports =>
    have hmem : r ∈ w.reports := by
      rw [hreports]
      exact .head _
    have hrest : ∀ r' ∈ rest, r' ∈ w.reports := fun r' hr' => by
      rw [hreports]
      exact .tail _ hr'
    have hnodup := h.nodup
    rw [hreports, List.map_cons, List.nodup_cons] at hnodup
    obtain ⟨hnot, hnodup⟩ := hnodup
    split
    · -- the dict of `r.call` is filled, the others are as they were
      refine ⟨fun r' hr' => h.topic_eq r' (hrest r' hr'), fun r' hr' => h.acked r' (hrest r' hr'), hnodup,
        fun r' hr' => ?_, fun i hi => ?_, fun i place hi => ?_, fun i detail hi => ?_, fun i hi => ?_⟩
      · have hne : r'.call ≠ r.call := fun heq => hnot (heq ▸ List.mem_map_of_mem hr')
        obtain ⟨hreported, hempty⟩ := h.pending r' (hrest r' hr')
        refine ⟨hreported, ?_⟩
        dsimp only
        rw [Function.update_of_ne hne]
        exact hempty
      · by_cases hcall : i = r.call
        · subst hcall
          exact (h.pending r hmem).1
        · dsimp only at hi
          rw [Function.update_of_ne hcall] at hi
          exact h.reported i hi
      · by_cases hcall : i = r.call
        · subst hcall
          dsimp only at hi
          rw [Function.update_self] at hi
          exact h.acked r hmem place (filled_result hi)
        · dsimp only at hi
          rw [Function.update_of_ne hcall] at hi
          exact h.result i place hi
      · by_cases hcall : i = r.call
        · subst hcall
          dsimp only at hi
          rw [Function.update_self] at hi
          rw [← h.topic_eq r hmem]
          exact filled_error hi
        · dsimp only at hi
          rw [Function.update_of_ne hcall] at hi
          exact h.error i detail hi
      · by_cases hcall : i = r.call
        · subst hcall
          dsimp only
          rw [Function.update_self]
          exact filled_ne r
        · dsimp only at hi ⊢
          rw [Function.update_of_ne hcall]
          refine h.filled i (hi.imp_left fun hi => ?_)
          simpa [hcall] using hi
    · exact { h with
        topic_eq := fun r' hr' => h.topic_eq r' (hrest r' hr')
        acked := fun r' hr' => h.acked r' (hrest r' hr')
        nodup := hnodup
        pending := fun r' hr' => h.pending r' (hrest r' hr') }

theorem Answered.signal (h : Answered calls w) (n : Nat) : Answered calls (w.signal n) := by
  unfold Wire.signal
  split
  · exact h
  · next call hcall =>
    refine { h with filled := fun i hi => ?_ }
    obtain hi | hi := hi
    · exact h.filled i (.inl (List.mem_of_mem_eraseIdx hi))
    · by_cases heq : i = call
      · subst heq
        exact h.filled i (.inl (List.mem_of_getElem? hcall))
      · dsimp only at hi
        rw [Function.update_of_ne heq] at hi
        exact h.filled i (.inr hi)

end callbacks

/-! ## Another process writes -/

/-- What another process wrote is of no call. -/
theorem Lodged.foreign {tp : TopicPartition} {key : String} {value : Option ByteArray}
    (h : Lodged calls w) (happended : Appended tp ⟨none, key, value⟩ w w') (hsent : w'.sent = w.sent) :
    Lodged calls w' := by
  have hstored : ∀ i, w'.Stored i ↔ w.Stored i := fun i => by
    rw [happended.stored]
    simp
  have hold : ∀ {lane : TopicPartition} {n e i}, w'.Holds lane n e → e.call = some i → w.Holds lane n e := by
    intro lane n e i he hi
    obtain he | ⟨-, -, rfl⟩ := happended.holds.1 he
    · exact he
    · cases hi
  refine ⟨⟨fun lane n e i he hi => h.own lane n e i (hold he hi) hi,
      fun lane n e lane' n' e' i he hi he' hi' =>
        h.once lane n e lane' n' e' i (hold he hi) hi (hold he' hi') hi'⟩,
    ?_, ?_, ?_, ?_, fun i hi => ?_⟩
  · rw [hsent]
    exact h.record_eq
  · rw [hsent]
    exact h.nodup
  · rw [hsent]
    exact fun p hp hnone => (hstored _).not.2 (h.unplaced p hp hnone)
  · rw [hsent]
    exact fun p hp place hsome => happended.at (h.placed p hp place hsome)
  · rw [given_iff, hsent, ← given_iff]
    exact h.given i ((hstored i).1 hi)

/-! ## Whatever happens -/

/-- The invariant. -/
structure Sound (calls : ι → Publication) (w : Wire ι) : Prop where
  lodged : Lodged calls w
  answered : Answered calls w

/-- What a step that is not the call's own keeps. -/
structure Later (i : ι) (w w' : Wire ι) : Prop where
  at_ : ∀ record place, w.At i record place → w'.At i record place
  given : w'.Given i ↔ w.Given i
  done : w.done i = true → w'.done i = true

theorem Later.refl (i : ι) (w : Wire ι) : Later i w w := ⟨fun _ _ h => h, Iff.rfl, id⟩

theorem Later.trans {w'' : Wire ι} (h : Later i w w') (h' : Later i w' w'') : Later i w w'' :=
  ⟨fun _ _ hat => h'.at_ _ _ (h.at_ _ _ hat), h'.given.trans h.given, fun hd => h'.done (h.done hd)⟩

theorem Later.of_log (hlog : w'.log = w.log) (hcalls : w'.sent.map (·.call) = w.sent.map (·.call))
    (hdone : w.done i = true → w'.done i = true) : Later i w w' := by
  refine ⟨fun record place hat => ?_, ?_, hdone⟩
  · unfold Wire.At Wire.Holds at hat ⊢
    rw [hlog]
    exact hat
  · rw [given_iff, given_iff, hcalls]

section happenings

variable [DecidableEq ι]

/-- The step lemma of what happens between the operations. -/
theorem Sound.happen (h : Sound calls w) (x : Happening) :
    Sound calls (w.happen x) ∧ ∀ i, Later i w (w.happen x) := by
  cases x with
  | store n partition =>
    show Sound calls (w.store n partition) ∧ ∀ i, Later i w (w.store n partition)
    obtain heq | ⟨p, q, hs⟩ := store_cases w n partition
    · rw [heq]
      exact ⟨h, fun i => .refl i w⟩
    · refine ⟨⟨hs.lodged h.lodged, h.answered.grown hs.same hs.grown⟩, fun i => ⟨hs.grown.at_ i, hs.given, ?_⟩⟩
      rw [hs.same.done]
      exact id
  | report n error =>
    show Sound calls (w.report n error) ∧ ∀ i, Later i w (w.report n error)
    obtain heq | ⟨p, outcome, hr⟩ := report_cases w n error
    · rw [heq]
      exact ⟨h, fun i => .refl i w⟩
    · refine ⟨⟨hr.lodged h.lodged, hr.answered h.lodged h.answered⟩, fun i => .of_log hr.log hr.calls_eq ?_⟩
      rw [hr.eq]
      exact id
  | serve =>
    obtain ⟨hlog, hsent, hdone⟩ := serve_same w
    refine ⟨⟨h.lodged.of_eq hlog hsent, h.answered.serve⟩, fun i => .of_log hlog (congrArg _ hsent) ?_⟩
    show w.done i = true → w.serve.done i = true
    rw [hdone]
    exact id
  | signal n =>
    obtain ⟨hlog, hsent, hdone⟩ := signal_same w n
    exact ⟨⟨h.lodged.of_eq hlog hsent, h.answered.signal n⟩, fun i => .of_log hlog (congrArg _ hsent) (hdone i)⟩
  | other tp key value =>
    have happended : Appended tp ⟨none, key, value⟩ w (w.happen (.other tp key value)) := rfl
    have hgrown : Grown w (w.happen (.other tp key value)) :=
      ⟨fun _ _ _ hat => happended.at hat, fun _ hi => hi⟩
    exact ⟨⟨h.lodged.foreign happended rfl, h.answered.grown ⟨rfl, rfl, rfl, rfl⟩ hgrown⟩,
      fun i => ⟨hgrown.at_ i, Iff.rfl, id⟩⟩

theorem Sound.meanwhile : ∀ {l : List Happening} {w : Wire ι}, Sound calls w →
    Sound calls (l.foldl Wire.happen w) ∧ ∀ i, Later i w (l.foldl Wire.happen w)
  | [], w, h => ⟨h, fun i => .refl i w⟩
  | x :: l, w, h => by
    obtain ⟨hx, hlater⟩ := h.happen x
    obtain ⟨hl, hrest⟩ := hx.meanwhile (l := l)
    exact ⟨hl, fun i => (hlater i).trans (hrest i)⟩

end happenings

/-! ## The callers -/

/-- `fate` stays true, but for a record that the broker writes when nobody waits for it any more. -/
theorem Decided.later {c : Publication} {ending : Ending} (h : Decided w i c ending)
    (hs : Lodged calls w') (hlater : Later i w w') : Decided w' i c ending := by
  classical
  cases c with
  | snapshot record => exact h
  | blocking record what wait =>
    obtain ⟨fate, hending, hfate⟩ := h
    cases fate with
    | acked result => exact ⟨.acked result, hending, hlater.at_ _ _ hfate⟩
    | refused detail =>
      have hnot : ¬ w'.Given i := hlater.given.not.2 hfate.1
      exact ⟨.refused detail, hending, hnot, fun hstored => hnot (hs.given i hstored)⟩
    | reported stored detail =>
      obtain ⟨hgiven, -, herr⟩ := hfate
      exact ⟨.reported (decide (w'.Stored i)) detail, hending, hlater.given.2 hgiven, decide_eq_true_iff, herr⟩
    | silent stored topicMissing =>
      refine ⟨.silent (decide (w'.Stored i)) topicMissing, ?_, hlater.given.2 hfate.1, decide_eq_true_iff⟩
      cases topicMissing <;> exact hending

/-- Where the thread of a call is. -/
inductive Position (calls : ι → Publication) (w : Wire ι) (i : ι) : Caller ι Ending → Prop
  | unsent : ¬ w.Given i → Position calls w i ((calls i).program i)
  | waiting {record : Outgoing} {what wait : String} : calls i = .blocking record what wait → w.Given i →
    Position calls w i (awaitReport i record what wait)
  | late {record : Outgoing} {what wait : String} : calls i = .blocking record what wait → w.Given i →
    Position calls w i (diagnose record what wait)
  | signalled {record : Outgoing} {what wait : String} : calls i = .blocking record what wait → w.Given i →
    w.done i = true → Position calls w i (readOutcome i)
  | ended {ending : Ending} : Decided w i (calls i) ending → Position calls w i (.done ending)

theorem Position.later {p : Caller ι Ending} (h : Position calls w i p) (hs : Lodged calls w')
    (hlater : Later i w w') : Position calls w' i p := by
  cases h with
  | unsent hnot => exact .unsent (hlater.given.not.2 hnot)
  | waiting hcall hgiven => exact .waiting hcall (hlater.given.2 hgiven)
  | late hcall hgiven => exact .late hcall (hlater.given.2 hgiven)
  | signalled hcall hgiven hdone => exact .signalled hcall (hlater.given.2 hgiven) (hlater.done hdone)
  | ended h => exact .ended (h.later hs hlater)

/-- The client takes the record of a call. -/
theorem Sound.given (h : Sound calls w) (hnot : ¬ w.Given i) (awaited : Bool) :
    Sound calls { w with sent := w.sent ++ [{ call := i, record := (calls i).outgoing, awaited }] } := by
  have hunstored : ¬ w.Stored i := fun hstored => hnot (h.lodged.given i hstored)
  have hnew : ∀ x ∈ w.sent ++ [({ call := i, record := (calls i).outgoing, awaited } : Sent ι)],
      x ∈ w.sent ∨ x = { call := i, record := (calls i).outgoing, awaited } :=
    fun x hx => (List.mem_append.1 hx).imp_right List.mem_singleton.1
  refine ⟨⟨⟨h.lodged.own, h.lodged.once⟩, fun x hx => ?_, ?_, fun x hx hnone => ?_, fun x hx place hsome => ?_,
      fun j hj => ?_⟩,
    h.answered.grown ⟨rfl, rfl, rfl, rfl⟩ ⟨fun _ _ _ hat => hat, fun j hj => ?_⟩⟩
  · obtain hx | rfl := hnew x hx
    · exact h.lodged.record_eq x hx
    · rfl
  · show ((w.sent ++ [({ call := i, record := (calls i).outgoing, awaited } : Sent ι)]).map (·.call)).Nodup
    rw [List.map_append, List.nodup_append]
    refine ⟨h.lodged.nodup, List.nodup_singleton _, fun a ha b hb hab => ?_⟩
    have hcall : a = i := hab.trans (List.mem_singleton.1 hb)
    rw [hcall, ← given_iff] at ha
    exact hnot ha
  · obtain hx | rfl := hnew x hx
    · exact h.lodged.unplaced x hx hnone
    · exact hunstored
  · obtain hx | rfl := hnew x hx
    · exact h.lodged.placed x hx place hsome
    · cases hsome
  · obtain ⟨x, hx, hcall⟩ := h.lodged.given j hj
    exact ⟨x, List.mem_append_left _ hx, hcall⟩
  · obtain ⟨x, hx, hcall, hreported⟩ := hj
    exact ⟨x, List.mem_append_left _ hx, hcall, hreported⟩

theorem later_given (hj : j ≠ i) (awaited : Bool) :
    Later j w { w with sent := w.sent ++ [{ call := i, record, awaited }] } := by
  refine ⟨fun _ _ hat => hat, ?_, id⟩
  rw [given_iff, given_iff, List.map_append, List.mem_append]
  simp [hj]

/-- What an operation of thread `i` does to the invariant, to its thread and to the others. -/
structure Moved (calls : ι → Publication) (i : ι) (w w' : Wire ι) (p : Caller ι Ending) : Prop where
  sound : Sound calls w'
  position : Position calls w' i p
  others : ∀ j, j ≠ i → Later j w w'

section runs

variable [DecidableEq ι]

theorem exec_meanwhile (d : Moment) (o : Op ι) (w : Wire ι) :
    o.exec d w = o.exec { d with meanwhile := [] } (d.meanwhile.foldl Wire.happen w) := by
  cases o <;> rfl

omit [DecidableEq ι] in
/-- An operation that only looks. -/
theorem Moved.look {p : Caller ι Ending} (hs : Sound calls w) (h : Position calls w i p) :
    Moved calls i w w p :=
  ⟨hs, h, fun j _ => .refl j w⟩

/-- The client refuses the record, or takes it. -/
theorem produce_cases (awaited : Bool) (d : Moment) (hd : d.meanwhile = []) (hs : Sound calls w)
    (hnot : ¬ w.Given i) :
    (∃ detail, (Op.produce i (calls i).outgoing awaited).exec d w = (.error detail, w)) ∨
    ∃ w', (Op.produce i (calls i).outgoing awaited).exec d w = (.ok (), w') ∧ Sound calls w' ∧ w'.Given i ∧
      ∀ j, j ≠ i → Later j w w' := by
  obtain ⟨_, refusal, timesOut, metadata⟩ := d
  cases hd
  cases refusal with
  | some refusal => exact .inl ⟨refusal.detail, rfl⟩
  | none =>
    exact .inr ⟨_, rfl, hs.given hnot awaited, ⟨_, List.mem_append_right _ (List.mem_singleton_self _), rfl⟩,
      fun j hj => later_given hj awaited⟩

/-- The step lemma of the callers. -/
theorem Position.next {p : Caller ι Ending} {o : Op ι} {k : o.Answer → Caller ι Ending} (hs : Sound calls w)
    (h : Position calls w i p) (hp : p = .op o k) (d : Moment) (hd : d.meanwhile = []) :
    Moved calls i w (o.exec d w).2 (k (o.exec d w).1) := by
  classical
  have hfolded : d.meanwhile.foldl Wire.happen w = w := by rw [hd, List.foldl_nil]
  cases h with
  | unsent hnot =>
    cases hcall : calls i with
    | blocking record what wait =>
      have hrecord : (calls i).outgoing = record := by rw [hcall]; rfl
      rw [hcall] at hp
      cases hp
      rw [← hrecord]
      obtain ⟨detail, hexec⟩ | ⟨w', hexec, hs', hgiven, hothers⟩ := produce_cases true d hd hs hnot
      · rw [hexec]
        refine .look hs (.ended ?_)
        rw [hcall]
        exact ⟨.refused detail, rfl, hnot, fun hstored => hnot (hs.lodged.given i hstored)⟩
      · rw [hexec, hrecord]
        exact ⟨hs', .waiting hcall hgiven, hothers⟩
    | snapshot record =>
      have hrecord : (calls i).outgoing = record := by rw [hcall]; rfl
      rw [hcall] at hp
      cases hp
      rw [← hrecord]
      have hended : ∀ w', Position calls w' i (.done .mirrored) := fun w' => .ended (by rw [hcall]; rfl)
      obtain ⟨detail, hexec⟩ | ⟨w', hexec, hs', -, hothers⟩ := produce_cases false d hd hs hnot
      · rw [hexec]
        exact .look hs (hended w)
      · rw [hexec]
        exact ⟨hs', hended w', hothers⟩
  | @waiting record what wait hcall hgiven =>
    cases hp
    simp only [Op.exec, hfolded]
    refine .look hs ?_
    cases hdone : w.done i && !d.timesOut with
    | true =>
      obtain ⟨hdone, -⟩ := (Bool.and_eq_true _ _).mp hdone
      exact .signalled hcall hgiven hdone
    | false => exact .late hcall hgiven
  | @late record what wait hcall hgiven =>
    cases hp
    simp only [Op.exec, hfolded]
    refine .look hs ?_
    have hdecided : ∀ topicMissing, Decided w i (calls i) (.of (OrderService.publishBlocking record.topic what
        wait (.silent (decide (w.Stored i)) topicMissing))) := by
      intro topicMissing
      rw [hcall]
      exact ⟨_, rfl, hgiven, decide_eq_true_iff⟩
    cases d.metadata with
    | error e => exact .ended (hdecided false)
    | ok found =>
      cases found with
      | true => exact .ended (hdecided false)
      | false => exact .ended (hdecided true)
  | signalled hcall hgiven hdone =>
    cases hp
    simp only [Op.exec, hfolded]
    refine .look hs ?_
    have hne := hs.answered.filled i (.inr hdone)
    have hresult := hs.answered.result i
    have herror := hs.answered.error i
    rw [hcall] at hresult herror
    cases houtcome : w.outcome i with
    | mk error result =>
      rw [houtcome] at hne hresult herror
      cases error with
      | some detail =>
        refine .ended ?_
        rw [hcall]
        exact ⟨.reported (decide (w.Stored i)) detail, rfl, hgiven, decide_eq_true_iff, herror detail rfl⟩
      | none =>
        cases result with
        | none => exact absurd rfl hne
        | some result =>
          refine .ended ?_
          rw [hcall]
          exact ⟨.acked result, rfl, hresult result rfl⟩
  | ended hdecided => cases hp

/-- The invariant of the pool. -/
structure Consistent (calls : ι → Publication) (s : Pool Op.Answer Ending ι (Wire ι)) : Prop where
  sound : Sound calls s.shared
  position : ∀ i, Position calls s.shared i (s.threads i)

theorem Consistent.advance {s : Pool Op.Answer Ending ι (Wire ι)} (h : Consistent calls s) (i : ι)
    (d : Moment) : Consistent calls (s.advance Op.exec i d) := by
  cases hthread : s.threads i with
  | done a =>
    rw [Pool.advance_done hthread]
    exact h
  | op o k =>
    obtain ⟨hsound, hlater⟩ := h.sound.meanwhile (l := d.meanwhile)
    have hposition := fun j => (h.position j).later hsound.lodged (hlater j)
    have hmoved := Position.next hsound (hposition i) hthread { d with meanwhile := [] } rfl
    rw [← exec_meanwhile] at hmoved
    have hshared : (s.advance Op.exec i d).shared = (Op.exec d o s.shared).2 := Pool.shared_advance hthread
    refine ⟨?_, fun j => ?_⟩
    · rw [hshared]
      exact hmoved.sound
    · rw [hshared]
      by_cases hj : j = i
      · subst hj
        rw [Pool.threads_advance_self hthread]
        exact hmoved.position
      · rw [Pool.threads_advance_of_ne hthread hj]
        exact (hposition j).later hmoved.sound.lodged (hmoved.others j hj)

end runs

end OrderService.Delivery
