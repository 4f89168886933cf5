import OrderService.Events

/-!
# The fold (`state.py`, the records; `runtime.py`, `apply_event`)

`OrderFold` is what a service knows of an order and `applyEvent` how an event advances it; `Record`
is what the durable store keeps of it, as a `Row`, and `Record.next` the guard it is written under.
-/

namespace OrderService

structure OrderFold where
  orderId : String
  lastSequence : Nat := 0
  state : Option OrderState := none
deriving DecidableEq, Repr

structure SaveOutcome where
  applied : Bool
  handledCount : Nat
deriving DecidableEq, Repr

inductive ViolationType where
  | sequenceGap | illegalTransition
deriving DecidableEq, Repr

structure Violation where
  type : ViolationType
  orderId : String
  sequence : Nat
  expected : String
  observed : String
deriving DecidableEq, Repr

/-- `str(state)` of an optional state. -/
def stateStr : Option OrderState → String
  | none => "None"
  | some s => s.str

/-- `apply_event`: the updated fold and the violations reported. -/
def applyEvent (current : Option OrderFold) (event : LifecycleEvent) : OrderFold × List Violation :=
  let fold := current.getD { orderId := event.orderId }
  -- an unseen order has sequence 0, so anything but 1 is a gap
  let expectedSequence := fold.lastSequence + 1
  let gap :=
    if event.sequence ≠ expectedSequence then
      [⟨.sequenceGap, event.orderId, event.sequence, toString expectedSequence,
        toString event.sequence⟩]
    else []
  let illegal :=
    if !isLegalTransition event.eventType fold.state then
      let expected := match expectedNextEvent fold.state with
        | some t => t.str
        | none => "nothing (lifecycle complete)"
      [⟨.illegalTransition, event.orderId, event.sequence, expected,
        s!"{event.eventType.str} after {stateStr fold.state}"⟩]
    else []
  ({ fold with lastSequence := event.sequence, state := some (resultingState event.eventType) },
    gap ++ illegal)

/-- `_Record`. -/
structure Record where
  fold : OrderFold
  lastEventId : String
  handledCount : Nat
deriving DecidableEq, Repr

/-- The value stored for an order, locally and on the changelog: the fields of the JSON object that
`_Record.encode` writes. The order is its key. -/
structure Row where
  lastSequence : Nat
  state : Option OrderState
  lastEventId : String
  handledCount : Nat
deriving DecidableEq, Repr

/-- `_Record.encode`. -/
def Record.encode (r : Record) : Row :=
  ⟨r.fold.lastSequence, r.fold.state, r.lastEventId, r.handledCount⟩

/-- `_Record.decode`, on a value `encode` wrote. -/
def Row.decode (orderId : String) (r : Row) : Record :=
  ⟨⟨orderId, r.lastSequence, r.state⟩, r.lastEventId, r.handledCount⟩

@[simp] theorem Row.encode_decode (orderId : String) (r : Row) : (r.decode orderId).encode = r := rfl

/-- One store: the rows by order. -/
abbrev Table := String → Option Row

/-- The record `save` writes over `previous`: the incoming fold if it advances, else the stored one
with one more delivery counted. -/
def Record.next (previous : Option Record) (fold : OrderFold) (eventId : String) :
    Record × SaveOutcome :=
  let previousSequence := match previous with
    | none => 0
    | some r => r.fold.lastSequence
  let handledCount := match previous with
    | none => 1
    | some r => r.handledCount + 1
  let applied := decide (previousSequence < fold.lastSequence)
  let record := match previous with
    | none => ⟨fold, eventId, handledCount⟩
    | some r => if applied then ⟨fold, eventId, handledCount⟩
        else ⟨r.fold, r.lastEventId, handledCount⟩
  (record, ⟨applied, handledCount⟩)

/-- The row a save leaves in place of a row. -/
def Row.next (orderId : String) (previous : Option Row) (fold : OrderFold) (eventId : String) : Row :=
  (Record.next (previous.map (·.decode orderId)) fold eventId).1.encode

theorem Row.next_some (k : String) (r : Row) (fold : OrderFold) (eventId : String) :
    Row.next k (some r) fold eventId =
      if r.lastSequence < fold.lastSequence then
        ⟨fold.lastSequence, fold.state, eventId, r.handledCount + 1⟩
      else { r with handledCount := r.handledCount + 1 } := by
  by_cases h : r.lastSequence < fold.lastSequence <;>
    simp [Row.next, Record.next, Row.decode, Record.encode, h]

/-- **The guard**: the row written is never behind the one it replaces. -/
theorem Row.lastSequence_le_next (k : String) (r : Row) (fold : OrderFold) (eventId : String) :
    r.lastSequence ≤ (Row.next k (some r) fold eventId).lastSequence := by
  rw [Row.next_some]
  split
  · exact Nat.le_of_lt ‹_›
  · exact Nat.le_refl _

/-- Nor behind the fold it was asked to store. -/
theorem Row.fold_le_next (k : String) (r : Option Row) (fold : OrderFold) (eventId : String) :
    fold.lastSequence ≤ (Row.next k r fold eventId).lastSequence := by
  cases r with
  | none => exact Nat.le_refl _
  | some r =>
    rw [Row.next_some]
    split
    · exact Nat.le_refl _
    · exact Nat.le_of_not_lt ‹_›

end OrderService
