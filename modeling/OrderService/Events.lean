import Mathlib.Tactic.Common

/-!
# The event contract (`events.py`)

The four lifecycle events, the states they lead to and the transition table.
-/

namespace OrderService

inductive EventType where
  | orderCreated | packed | shipped | delivered
deriving DecidableEq, Repr

inductive OrderState where
  | created | packed | shipped | delivered
deriving DecidableEq, Repr

def EventType.str : EventType → String
  | .orderCreated => "ORDER_CREATED"
  | .packed => "PACKED"
  | .shipped => "SHIPPED"
  | .delivered => "DELIVERED"

def OrderState.str : OrderState → String
  | .created => "CREATED"
  | .packed => "PACKED"
  | .shipped => "SHIPPED"
  | .delivered => "DELIVERED"

/-- `LEGAL_PREDECESSOR`; `none` means "no order yet". -/
def legalPredecessor : EventType → Option OrderState
  | .orderCreated => none
  | .packed => some .created
  | .shipped => some .packed
  | .delivered => some .shipped

/-- `RESULTING_STATE`. -/
def resultingState : EventType → OrderState
  | .orderCreated => .created
  | .packed => .packed
  | .shipped => .shipped
  | .delivered => .delivered

/-- `EXPECTED_NEXT_EVENT`: the inverse of `legalPredecessor`, looked up in it. -/
def expectedNextEvent (state : Option OrderState) : Option EventType :=
  [.orderCreated, .packed, .shipped, .delivered].find? fun t => legalPredecessor t = state

def isLegalTransition (eventType : EventType) (current : Option OrderState) : Bool :=
  legalPredecessor eventType = current

/-- The two tables are inverse to each other. -/
theorem expectedNextEvent_eq_some {s : Option OrderState} {t : EventType} :
    expectedNextEvent s = some t ↔ legalPredecessor t = s := by
  rcases s with _ | s
  · cases t <;> decide
  · cases s <;> cases t <;> decide

/-- `LifecycleEvent`, without the payload and the time, which only the handlers read. -/
structure LifecycleEvent where
  eventId : String
  orderId : String
  sequence : Nat
  eventType : EventType
  one_le_sequence : 1 ≤ sequence
deriving Repr

end OrderService
