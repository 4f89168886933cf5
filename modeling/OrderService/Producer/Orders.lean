import Mathlib.Algebra.GroupWithZero.Nat
import OrderService.Events

/-!
# The order aggregate (`producer/orders.py`, and the payload of `events.py`)

`OrderStore` and its four operations. Each holds the store's lock throughout, so each is one pure
function here: what it answers and the store it leaves.
-/

namespace OrderService

/-- `OrderItem`. -/
structure OrderItem where
  sku : String
  qty : Nat
  unitPrice : Nat
  sku_ne : sku ≠ ""
  qty_pos : 0 < qty
  unitPrice_pos : 0 < unitPrice
deriving DecidableEq, Repr

def OrderItem.lineTotal (item : OrderItem) : Nat := item.qty * item.unitPrice

inductive PaymentMethod where
  | card | bkash | nagad
deriving DecidableEq, Repr

def PaymentMethod.str : PaymentMethod → String
  | .card => "CARD"
  | .bkash => "BKASH"
  | .nagad => "NAGAD"

/-- `PaymentInfo`. -/
structure PaymentInfo where
  method : PaymentMethod
  reference : String
  amount : Nat
  reference_ne : reference ≠ ""
deriving DecidableEq, Repr

/-- `sum(item.line_total for item in items)`. -/
def itemSum (items : List OrderItem) : Nat := (items.map OrderItem.lineTotal).sum

/-- `OrderCreatedPayload`: its validators are fields. -/
structure OrderCreatedPayload where
  customerId : String
  items : List OrderItem
  totalAmount : Nat
  payment : PaymentInfo
  customerId_ne : customerId ≠ ""
  items_ne : items ≠ []
  totalAmount_eq : totalAmount = itemSum items
  amount_eq : payment.amount = totalAmount
deriving Repr

/-- `UnknownOrder`, with its text. -/
structure UnknownOrder where
  detail : String
deriving DecidableEq, Repr

def unknownOrder (orderId : String) : UnknownOrder := ⟨s!"no order {orderId}"⟩

/-- `IllegalTransition`. -/
structure IllegalTransition where
  orderId : String
  current : OrderState
  requested : EventType
  expected : Option EventType
deriving DecidableEq, Repr

/-- `str(exc)`. -/
def IllegalTransition.detail (e : IllegalTransition) : String :=
  match e.expected with
  | some expected =>
    s!"order {e.orderId} is {e.current.str}; expected {expected.str} but got {e.requested.str}"
  | none =>
    s!"order {e.orderId} is {e.current.str} and its lifecycle is complete; {e.requested.str} cannot follow"

/-- `Order`. -/
structure Order where
  orderId : String
  customerId : String
  items : List OrderItem
  totalAmount : Nat
  payment : PaymentInfo
  state : OrderState
  lastSequence : Nat
deriving DecidableEq, Repr

/-- The dict of `Order.as_dict`. -/
structure Snapshot where
  orderId : String
  customerId : String
  state : String
  lastSequence : Nat
  totalAmount : Nat
  payment : String × String × Nat
  items : List OrderItem
  expectedNextEvent : Option String
deriving DecidableEq, Repr

def Order.asDict (order : Order) : Snapshot where
  orderId := order.orderId
  customerId := order.customerId
  state := order.state.str
  lastSequence := order.lastSequence
  totalAmount := order.totalAmount
  payment := (order.payment.method.str, order.payment.reference, order.payment.amount)
  items := order.items
  expectedNextEvent := (expectedNextEvent order.state).map EventType.str

def Order.asSnapshot (order : Order) : Snapshot := order.asDict

/-- `OrderStore._orders`. -/
abbrev OrderStore := String → Option Order

/-- A sequence number: they start at 1. -/
abbrev Sequence := {n : Nat // 1 ≤ n}

theorem Order.one_le_next (order : Order) : 1 ≤ order.lastSequence + 1 := Nat.succ_pos _

namespace OrderStore

def register (store : OrderStore) (orderId : String) (payload : OrderCreatedPayload) :
    Order × OrderStore :=
  let order : Order :=
    { orderId
      customerId := payload.customerId
      items := payload.items
      totalAmount := payload.totalAmount
      payment := payload.payment
      state := resultingState .orderCreated
      lastSequence := 1 }
  (order, Function.update store orderId (some order))

def get (store : OrderStore) (orderId : String) : Option Order := store orderId

def remove (store : OrderStore) (orderId : String) : Except UnknownOrder Order × OrderStore :=
  match store orderId with
  | none => (.error (unknownOrder orderId), store)
  | some order => (.ok order, Function.update store orderId none)

def reserve (store : OrderStore) (orderId : String) (eventType : EventType) (force : Bool) :
    Except (UnknownOrder ⊕ IllegalTransition) Sequence × OrderStore :=
  match store orderId with
  | none => (.error (.inl (unknownOrder orderId)), store)
  | some order =>
    if !force && !isLegalTransition eventType order.state then
      (.error (.inr
        { orderId
          current := order.state
          requested := eventType
          expected := expectedNextEvent order.state }), store)
    else
      let sequence := order.lastSequence + 1
      (.ok ⟨sequence, order.one_le_next⟩,
        Function.update store orderId (some { order with lastSequence := sequence }))

def commit (store : OrderStore) (orderId : String) (eventType : EventType) (force : Bool) :
    Except UnknownOrder Order × OrderStore :=
  match store orderId with
  | none => (.error (unknownOrder orderId), store)
  | some order =>
    if force && !isLegalTransition eventType order.state then (.ok order, store)
    else
      let advanced := { order with state := resultingState eventType }
      (.ok advanced, Function.update store orderId (some advanced))

end OrderStore

namespace OrderStore

variable {store store' : OrderStore} {orderId : String} {t : EventType} {force : Bool} {order : Order}

theorem remove_of_none (h : store orderId = none) :
    store.remove orderId = (.error (unknownOrder orderId), store) := by
  simp only [remove, h]

theorem remove_of_some (h : store orderId = some order) :
    store.remove orderId = (.ok order, Function.update store orderId none) := by
  simp only [remove, h]

theorem reserve_of_none (h : store orderId = none) :
    store.reserve orderId t force = (.error (.inl (unknownOrder orderId)), store) := by
  simp only [reserve, h]

theorem reserve_of_legal (h : store orderId = some order)
    (hlegal : force = true ∨ isLegalTransition t order.state = true) :
    store.reserve orderId t force = (.ok ⟨order.lastSequence + 1, order.one_le_next⟩,
      Function.update store orderId (some { order with lastSequence := order.lastSequence + 1 })) := by
  obtain rfl | hlegal := hlegal <;> simp [reserve, *]

theorem reserve_of_not_legal (h : store orderId = some order)
    (hlegal : isLegalTransition t order.state = false) :
    store.reserve orderId t false =
      (.error (.inr ⟨orderId, order.state, t, expectedNextEvent order.state⟩), store) := by
  simp [reserve, h, hlegal]

/-- A reservation that is refused leaves the store as it was. -/
theorem reserve_of_refused (h : ¬ ∃ order, store orderId = some order ∧
    (force = true ∨ isLegalTransition t order.state = true)) :
    (store.reserve orderId t force).2 = store := by
  cases ho : store orderId with
  | none => rw [reserve_of_none ho]
  | some order =>
    obtain ⟨hforce, hlegal⟩ := not_or.1 fun hok => h ⟨order, ho, hok⟩
    rw [Bool.not_eq_true] at hforce hlegal
    subst hforce
    rw [reserve_of_not_legal ho hlegal]

/-- A sequence is given out for an order that is held and admits the event. -/
theorem reserve_ok {sequence : Sequence} (h : (store.reserve orderId t force).1 = .ok sequence) :
    ∃ order, store orderId = some order ∧ (force = true ∨ isLegalTransition t order.state = true) := by
  cases ho : store orderId with
  | none =>
    rw [reserve_of_none ho] at h
    cases h
  | some order =>
    refine ⟨order, rfl, ?_⟩
    cases force with
    | true => exact .inl rfl
    | false =>
      cases hlegal : isLegalTransition t order.state with
      | true => exact .inr rfl
      | false =>
        rw [reserve_of_not_legal ho hlegal] at h
        cases h

theorem commit_of_none (h : store orderId = none) :
    store.commit orderId t force = (.error (unknownOrder orderId), store) := by
  simp only [commit, h]

theorem commit_of_forced (h : store orderId = some order)
    (hlegal : isLegalTransition t order.state = false) :
    store.commit orderId t true = (.ok order, store) := by
  simp [commit, h, hlegal]

theorem commit_of_legal (h : store orderId = some order)
    (hlegal : force = false ∨ isLegalTransition t order.state = true) :
    store.commit orderId t force = (.ok { order with state := resultingState t },
      Function.update store orderId (some { order with state := resultingState t })) := by
  obtain rfl | hlegal := hlegal <;> simp [commit, *]

/-- `commit` answers with the order as the store then holds it. -/
theorem commit_of_some (h : store orderId = some order) : ∃ order',
    (store.commit orderId t force).1 = .ok order' ∧
    (store.commit orderId t force).2 orderId = some order' ∧ order'.orderId = order.orderId := by
  cases hlegal : isLegalTransition t order.state with
  | true =>
    rw [commit_of_legal h (.inr hlegal)]
    exact ⟨_, rfl, Function.update_self _ _ _, rfl⟩
  | false =>
    cases force with
    | true =>
      rw [commit_of_forced h hlegal]
      exact ⟨order, rfl, h, rfl⟩
    | false =>
      rw [commit_of_legal h (.inl rfl)]
      exact ⟨_, rfl, Function.update_self _ _ _, rfl⟩

/-- The error names an event the order's state does not admit, and the one it does. -/
theorem reserve_illegal {e : IllegalTransition}
    (h : store.reserve orderId t force = (.error (.inr e), store')) :
    store' = store ∧ e.orderId = orderId ∧ e.requested = t ∧ e.expected ≠ some t ∧
      ∃ order, store orderId = some order ∧ e.current = order.state := by
  cases ho : store orderId with
  | none =>
    rw [reserve_of_none ho] at h
    cases h
  | some order =>
    by_cases hok : force = true ∨ isLegalTransition t order.state = true
    · rw [reserve_of_legal ho hok] at h
      cases h
    · obtain ⟨hforce, hlegal⟩ := not_or.1 hok
      rw [Bool.not_eq_true] at hforce hlegal
      subst hforce
      rw [reserve_of_not_legal ho hlegal] at h
      cases h
      refine ⟨rfl, rfl, rfl, fun hnext => ?_, order, rfl, rfl⟩
      rw [expectedNextEvent_eq_some] at hnext
      simp [isLegalTransition, hnext] at hlegal

end OrderStore

end OrderService
