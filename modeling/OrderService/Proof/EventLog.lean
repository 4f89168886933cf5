import OrderService.Lib.PartitionLog
import OrderService.Proof.AheadOfOffset
import OrderService.Proof.Violations

/-!
# The events of one order in the log

The events of an order before an offset (`eventsBefore`), the row they leave (`rowAt`) and what they report
(`reportsBefore`), each event folded once, in the order of the log. As the offset grows the sequence rises or
the row is the same but for its count: rows of the same sequence, or a step of the log in which it does not
rise, are of the same fold (`sameFold_rowAt`) and nothing new is reported (`reportsBefore_flat`).
-/

namespace OrderService

open Eff KeyedLog PartitionLog

variable {c : Service} {k : String} {log : TopicPartition → Nat → Option Message} {tp : TopicPartition}
variable {m : Message} {e : LifecycleEvent} {r r' : Option Row} {i j n : Nat}

/-! ## The events of an order -/

/-- The event that a message carries, if it carries one for this service. -/
def carried (c : Service) (m : Message) : Option LifecycleEvent :=
  match m.value with
  | none => none
  | some value =>
    if Skipped c m then none
    else
      match c.decode value with
      | .event e => some e
      | _ => none

/-- The same if it is one of order `k`. -/
def eventOf (c : Service) (k : String) (m : Message) : Option LifecycleEvent :=
  (carried c m).filter (·.orderId = k)

/-- Those of a topic-partition before offset `n`. -/
def eventsBefore (c : Service) (k : String) (log : TopicPartition → Nat → Option Message) (tp : TopicPartition)
    (n : Nat) : List LifecycleEvent :=
  (readTo log tp n).filterMap (eventOf c k)

theorem eventOf_eq_some : eventOf c k m = some e ↔ carried c m = some e ∧ e.orderId = k := by
  unfold eventOf
  rw [Option.filter_eq_some_iff, decide_eq_true_eq]

theorem carried_of_decode {value : ByteArray} (hvalue : m.value = some value) (hns : ¬ Skipped c m)
    (hdecode : c.decode value = .event e) : carried c m = some e := by
  unfold carried
  rw [hvalue]
  simp only [if_neg hns, hdecode]

theorem Folds.carried_eq {env : Env} (h : Folds c env m e) : carried c m = some e := by
  obtain ⟨value, hvalue, hdecode⟩ := h.decoded
  exact carried_of_decode hvalue h.handled hdecode

/-- The row that events leave, each folded once and in this order. -/
def rowAfter (es : List LifecycleEvent) : Option Row := es.foldl (fun r e => some (Row.deliver r e)) none

/-- What they report on the way. -/
def reportsFrom (r : Option Row) : List LifecycleEvent → List Violation
  | [] => []
  | e :: es =>
    reportOf (r.map fun r => (r.decode e.orderId).fold) e ++ reportsFrom (some (Row.deliver r e)) es

theorem rowAfter_concat (es : List LifecycleEvent) (e : LifecycleEvent) :
    rowAfter (es ++ [e]) = some (Row.deliver (rowAfter es) e) := by
  unfold rowAfter
  rw [List.foldl_append]
  rfl

theorem reportsFrom_append (r : Option Row) (es fs : List LifecycleEvent) :
    reportsFrom r (es ++ fs) =
      reportsFrom r es ++ reportsFrom (es.foldl (fun r e => some (Row.deliver r e)) r) fs := by
  induction es generalizing r with
  | nil => rfl
  | cons e es ih => simp [reportsFrom, ih]

/-! ## Rows that differ in the count -/

theorem sameFold_refl (r : Option Row) : SameFold r r := rfl

theorem SameFold.symm (h : SameFold r r') : SameFold r' r := Eq.symm h

theorem SameFold.trans {r'' : Option Row} (h : SameFold r r') (h' : SameFold r' r'') : SameFold r r'' :=
  Eq.trans h h'

/-- The sequence of a row, 0 if there is none. -/
def sequenceOf (r : Option Row) : Nat := (r.map (·.lastSequence)).getD 0

theorem SameFold.cases_on (h : SameFold r r') : (r = none ∧ r' = none) ∨
    ∃ row row', r = some row ∧ r' = some row' ∧ row.lastSequence = row'.lastSequence ∧
      row.state = row'.state ∧ row.lastEventId = row'.lastEventId := by
  cases r with
  | none =>
    cases r' with
    | none => exact .inl ⟨rfl, rfl⟩
    | some row' => cases h
  | some row =>
    cases r' with
    | none => cases h
    | some row' =>
      simp only [SameFold, Option.map_some, Option.some.injEq, Row.mk.injEq, and_true] at h
      exact .inr ⟨row, row', rfl, rfl, h⟩

theorem SameFold.sequenceOf_eq (h : SameFold r r') : sequenceOf r = sequenceOf r' := by
  obtain ⟨rfl, rfl⟩ | ⟨row, row', rfl, rfl, hseq, -, -⟩ := h.cases_on
  · rfl
  · exact hseq

/-- They fold an event alike. -/
theorem SameFold.deliver (h : SameFold r r') (e : LifecycleEvent) :
    SameFold (some (Row.deliver r e)) (some (Row.deliver r' e)) := by
  obtain ⟨rfl, rfl⟩ | ⟨row, row', rfl, rfl, hseq, hstate, hid⟩ := h.cases_on
  · rfl
  · rw [Row.deliver_some, Row.deliver_some, hseq]
    split
    · rfl
    · simp [SameFold, hseq, hstate, hid]

theorem SameFold.fold_eq (h : SameFold r r') (k : String) :
    (r.map fun r => (r.decode k).fold) = r'.map fun r => (r.decode k).fold := by
  obtain ⟨rfl, rfl⟩ | ⟨row, row', rfl, rfl, hseq, hstate, -⟩ := h.cases_on
  · rfl
  · simp [Row.decode, hseq, hstate]

/-- An event that does not exceed the stored sequence leaves the fold. -/
theorem sameFold_deliver {row : Row} (h : e.sequence ≤ row.lastSequence) :
    SameFold (some (Row.deliver (some row) e)) (some row) := by
  rw [Row.deliver_some, if_neg (by omega)]
  rfl

/-! ## What the events before an offset leave -/

/-- What the events of order `k` before offset `n` leave of it. -/
def rowAt (c : Service) (k : String) (log : TopicPartition → Nat → Option Message) (tp : TopicPartition)
    (n : Nat) : Option Row :=
  rowAfter (eventsBefore c k log tp n)

theorem eventsBefore_succ (c : Service) (k : String) (log : TopicPartition → Nat → Option Message)
    (tp : TopicPartition) (n : Nat) : eventsBefore c k log tp (n + 1) =
      eventsBefore c k log tp n ++ ((log tp n).bind (eventOf c k)).toList := by
  unfold eventsBefore
  rw [readTo_succ, List.filterMap_append]
  cases hm : log tp n with
  | none => rfl
  | some m => cases he : eventOf c k m <;> simp [he]

theorem rowAt_event (h : (log tp n).bind (eventOf c k) = some e) :
    rowAt c k log tp (n + 1) = some (Row.deliver (rowAt c k log tp n) e) := by
  unfold rowAt
  rw [eventsBefore_succ, h]
  exact rowAfter_concat _ e

theorem rowAt_other (h : (log tp n).bind (eventOf c k) = none) :
    rowAt c k log tp (n + 1) = rowAt c k log tp n := by
  unfold rowAt
  rw [eventsBefore_succ, h]
  simp

/-- The greatest sequence among them. -/
def sequenceAt (c : Service) (k : String) (log : TopicPartition → Nat → Option Message) (tp : TopicPartition)
    (n : Nat) : Nat :=
  sequenceOf (rowAt c k log tp n)

theorem sequenceAt_event (h : (log tp n).bind (eventOf c k) = some e) :
    sequenceAt c k log tp (n + 1) = max (sequenceAt c k log tp n) e.sequence := by
  unfold sequenceAt
  rw [rowAt_event h]
  cases hrow : rowAt c k log tp n with
  | none => simp [sequenceOf, Row.deliver, Row.next, Record.next, applyEvent, Record.encode]
  | some row =>
    rw [Row.deliver_some]
    unfold sequenceOf
    split <;> simp <;> omega

theorem sequenceAt_other (h : (log tp n).bind (eventOf c k) = none) :
    sequenceAt c k log tp (n + 1) = sequenceAt c k log tp n := by
  unfold sequenceAt
  rw [rowAt_other h]

theorem sequenceAt_mono (c : Service) (k : String) (log : TopicPartition → Nat → Option Message)
    (tp : TopicPartition) (hij : i ≤ j) : sequenceAt c k log tp i ≤ sequenceAt c k log tp j := by
  induction hij with
  | refl => exact Nat.le_refl _
  | step _ ih =>
    rename_i j _
    cases he : (log tp j).bind (eventOf c k) with
    | none => rwa [sequenceAt_other he]
    | some e =>
      rw [sequenceAt_event he]
      omega

/-- No event lies between. -/
theorem rowAt_congr (hij : i ≤ j) (hnone : ∀ o, i ≤ o → o < j → log tp o = none) :
    rowAt c k log tp j = rowAt c k log tp i := by
  unfold rowAt eventsBefore
  rw [readTo_of_gap hij hnone]

/-- An order that has events has a sequence of at least 1. -/
theorem eventsBefore_eq_nil (h : sequenceAt c k log tp n = 0) : eventsBefore c k log tp n = [] := by
  rcases List.eq_nil_or_concat' (eventsBefore c k log tp n) with hnil | ⟨es, e, hes⟩
  · exact hnil
  · have hle := e.one_le_sequence
    have hrow : rowAt c k log tp n = some (Row.deliver (rowAfter es) e) := by
      unfold rowAt
      rw [hes]
      exact rowAfter_concat es e
    have hdeliver := Row.fold_le_next e.orderId (rowAfter es)
      (applyEvent ((rowAfter es).map fun r => (r.decode e.orderId).fold) e).1 e.eventId
    change e.sequence ≤ (Row.deliver (rowAfter es) e).lastSequence at hdeliver
    unfold sequenceAt at h
    rw [hrow] at h
    change (Row.deliver (rowAfter es) e).lastSequence = 0 at h
    omega

/-- An event that does not raise the sequence finds a row that is not behind it. -/
theorem rowAt_of_flat (he : (log tp n).bind (eventOf c k) = some e)
    (h : sequenceAt c k log tp (n + 1) ≤ sequenceAt c k log tp n) :
    ∃ row, rowAt c k log tp n = some row ∧ e.sequence ≤ row.lastSequence := by
  rw [sequenceAt_event he] at h
  have hone := e.one_le_sequence
  cases hrow : rowAt c k log tp n with
  | none =>
    have hzero : sequenceAt c k log tp n = 0 := by
      unfold sequenceAt
      rw [hrow]
      rfl
    omega
  | some row =>
    have hseq : sequenceAt c k log tp n = row.lastSequence := by
      unfold sequenceAt
      rw [hrow]
      rfl
    exact ⟨row, rfl, by omega⟩

/-- Where the sequence is the same, so is the fold. -/
theorem sameFold_rowAt (hij : i ≤ j) (hseq : sequenceAt c k log tp j ≤ sequenceAt c k log tp i) :
    SameFold (rowAt c k log tp i) (rowAt c k log tp j) := by
  induction hij with
  | refl => exact sameFold_refl _
  | step hij ih =>
    rename_i j
    change sequenceAt c k log tp (j + 1) ≤ _ at hseq
    have hle := sequenceAt_mono c k log tp (Nat.le_add_right j 1)
    refine (ih (by omega)).trans ?_
    cases he : (log tp j).bind (eventOf c k) with
    | none =>
      rw [rowAt_other he]
      exact sameFold_refl _
    | some e =>
      have hmono := sequenceAt_mono c k log tp hij
      obtain ⟨row, hrow, hrowle⟩ := rowAt_of_flat he (by omega)
      rw [rowAt_event he, hrow]
      exact (sameFold_deliver hrowle).symm

/-! ## What they report -/

/-- What the events of order `k` before offset `n` report. -/
def reportsBefore (c : Service) (k : String) (log : TopicPartition → Nat → Option Message) (tp : TopicPartition)
    (n : Nat) : List Violation :=
  reportsFrom none (eventsBefore c k log tp n)

/-- What an event reports over a row. -/
def reportOn (r : Option Row) (e : LifecycleEvent) : List Violation :=
  reportOf (r.map fun r => (r.decode e.orderId).fold) e

theorem reportsBefore_event (h : (log tp n).bind (eventOf c k) = some e) :
    reportsBefore c k log tp (n + 1) = reportsBefore c k log tp n ++ reportOn (rowAt c k log tp n) e := by
  unfold reportsBefore
  rw [eventsBefore_succ, h]
  change reportsFrom none (_ ++ [e]) = _
  rw [reportsFrom_append, reportsFrom, reportsFrom, List.append_nil]
  rfl

theorem reportsBefore_other (h : (log tp n).bind (eventOf c k) = none) :
    reportsBefore c k log tp (n + 1) = reportsBefore c k log tp n := by
  unfold reportsBefore
  rw [eventsBefore_succ, h]
  simp

/-- A redelivery reports nothing. -/
theorem reportOn_redelivered {row : Row} (h : e.sequence ≤ row.lastSequence) : reportOn (some row) e = [] := by
  simp [reportOn, reportOf, Row.decode, h]

theorem SameFold.reportOn_eq (h : SameFold r r') (e : LifecycleEvent) : reportOn r e = reportOn r' e := by
  unfold reportOn
  rw [h.fold_eq]

/-- Nothing is reported where the sequence does not rise. -/
theorem reportsBefore_flat (hij : i ≤ j) (hseq : sequenceAt c k log tp j ≤ sequenceAt c k log tp i) :
    reportsBefore c k log tp j = reportsBefore c k log tp i := by
  induction hij with
  | refl => rfl
  | step hij ih =>
    rename_i j
    change sequenceAt c k log tp (j + 1) ≤ _ at hseq
    have hle := sequenceAt_mono c k log tp (Nat.le_add_right j 1)
    have hmono := sequenceAt_mono c k log tp hij
    cases he : (log tp j).bind (eventOf c k) with
    | none =>
      rw [reportsBefore_other he]
      exact ih (by omega)
    | some e =>
      obtain ⟨row, hrow, hrowle⟩ := rowAt_of_flat he (by omega)
      rw [reportsBefore_event he, hrow, reportOn_redelivered hrowle, List.append_nil]
      exact ih (by omega)

/-! ## A process that is left alone -/

variable {p : Nat} {w t : World}

end OrderService
