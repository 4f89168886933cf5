import OrderService.Lib.Monitor
import OrderService.Producer.Orders

/-!
# The lock of the order aggregate (`producer/orders.py`)

Each method of `OrderStore` as it runs under `self._lock`: a program of single accesses to the dict
`self._orders`, between which other threads may be scheduled. `orders` is the monitor they form, and
`orders_exec`: a method that is not interrupted does what the pure operation does.
-/

namespace OrderService

open Threads

/-- An access to `self._orders`. -/
inductive DictAccess where
  | get (orderId : String)
  | set (orderId : String) (order : Order)
  | pop (orderId : String)

abbrev DictAccess.Answer : DictAccess → Type
  | .get _ => Option Order
  | .set _ _ => Unit
  | .pop _ => Option Order

def DictAccess.exec : (a : DictAccess) → OrderStore → a.Answer × OrderStore
  | .get orderId, orders => (orders orderId, orders)
  | .set orderId order, orders => ((), Function.update orders orderId (some order))
  | .pop orderId, orders => (orders orderId, Function.update orders orderId none)

/-- A call of one of the store's methods. -/
inductive StoreCall where
  | register (orderId : String) (payload : OrderCreatedPayload)
  | get (orderId : String)
  | remove (orderId : String)
  | reserve (orderId : String) (eventType : EventType) (force : Bool)
  | commit (orderId : String) (eventType : EventType) (force : Bool)

abbrev StoreCall.Answer : StoreCall → Type
  | .register _ _ => Order
  | .get _ => Option Order
  | .remove _ => Except UnknownOrder Order
  | .reserve _ _ _ => Except (UnknownOrder ⊕ IllegalTransition) Sequence
  | .commit _ _ _ => Except UnknownOrder Order

/-- The pure operation. -/
def StoreCall.exec : (c : StoreCall) → OrderStore → c.Answer × OrderStore
  | .register orderId payload, orders => orders.register orderId payload
  | .get orderId, orders => (orders.get orderId, orders)
  | .remove orderId, orders => orders.remove orderId
  | .reserve orderId eventType force, orders => orders.reserve orderId eventType force
  | .commit orderId eventType force, orders => orders.commit orderId eventType force

abbrev Section := Prog DictAccess.Answer

namespace OrderStore

/-- `register`: the order is built before the lock is taken. -/
def registerSection (orderId : String) (payload : OrderCreatedPayload) : Section Order := do
  let order : Order :=
    { orderId
      customerId := payload.customerId
      items := payload.items
      totalAmount := payload.totalAmount
      payment := payload.payment
      state := resultingState .orderCreated
      lastSequence := 1 }
  Prog.perform (DictAccess.set orderId order)
  return order

def getSection (orderId : String) : Section (Option Order) := Prog.perform (DictAccess.get orderId)

def removeSection (orderId : String) : Section (Except UnknownOrder Order) := do
  match ← Prog.perform (DictAccess.pop orderId) with
  | none => return .error (unknownOrder orderId)
  | some order => return .ok order

def reserveSection (orderId : String) (eventType : EventType) (force : Bool) :
    Section (Except (UnknownOrder ⊕ IllegalTransition) Sequence) := do
  match ← Prog.perform (DictAccess.get orderId) with
  | none => return .error (.inl (unknownOrder orderId))
  | some order =>
    if !force && !isLegalTransition eventType order.state then
      return .error (.inr
        { orderId
          current := order.state
          requested := eventType
          expected := expectedNextEvent order.state })
    else
      let sequence := order.lastSequence + 1
      Prog.perform (DictAccess.set orderId { order with lastSequence := sequence })
      return .ok ⟨sequence, order.one_le_next⟩

def commitSection (orderId : String) (eventType : EventType) (force : Bool) :
    Section (Except UnknownOrder Order) := do
  match ← Prog.perform (DictAccess.get orderId) with
  | none => return .error (unknownOrder orderId)
  | some order =>
    if force && !isLegalTransition eventType order.state then return .ok order
    else
      let advanced := { order with state := resultingState eventType }
      Prog.perform (DictAccess.set orderId advanced)
      return .ok advanced

end OrderStore

/-- What a method does under the lock. -/
def StoreCall.section : (c : StoreCall) → Section c.Answer
  | .register orderId payload => OrderStore.registerSection orderId payload
  | .get orderId => OrderStore.getSection orderId
  | .remove orderId => OrderStore.removeSection orderId
  | .reserve orderId eventType force => OrderStore.reserveSection orderId eventType force
  | .commit orderId eventType force => OrderStore.commitSection orderId eventType force

/-- `OrderStore`, with its lock. -/
def orders : Monitor StoreCall.Answer DictAccess.Answer OrderStore where
  body := StoreCall.section
  access := DictAccess.exec

/-- A method that runs alone is the pure operation. -/
theorem orders_exec (c : StoreCall) (store : OrderStore) : orders.exec c store = c.exec store := by
  unfold Monitor.exec orders StoreCall.section StoreCall.exec
  cases c with
  | register orderId payload => rfl
  | get orderId => rfl
  | remove orderId =>
    cases horder : store orderId with
    | none =>
      have hsame : Function.update store orderId none = store := by
        rw [← horder]
        exact Function.update_eq_self _ _
      simp [OrderStore.removeSection, OrderStore.remove_of_none horder, DictAccess.exec, horder, hsame]
    | some order =>
      simp [OrderStore.removeSection, OrderStore.remove_of_some horder, DictAccess.exec, horder]
  | reserve orderId eventType force =>
    cases horder : store orderId with
    | none => simp [OrderStore.reserveSection, OrderStore.reserve, DictAccess.exec, horder]
    | some order =>
      simp only [OrderStore.reserveSection, OrderStore.reserve, Prog.run_bind, Prog.run_perform,
        DictAccess.exec, horder]
      split <;> rfl
  | commit orderId eventType force =>
    cases horder : store orderId with
    | none => simp [OrderStore.commitSection, OrderStore.commit, DictAccess.exec, horder]
    | some order =>
      simp only [OrderStore.commitSection, OrderStore.commit, Prog.run_bind, Prog.run_perform,
        DictAccess.exec, horder]
      split <;> rfl

end OrderService
