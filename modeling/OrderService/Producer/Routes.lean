import OrderService.Lib.Threads
import OrderService.Producer.KafkaProducer

/-!
# The HTTP handlers (`producer/routes.py`)

Each handler runs in a thread of its own: it is a program over the operations of the store and the
producer. What pydantic and the clock decide is a parameter of the request or of `Api`.
-/

namespace OrderService

open Threads

/-- What a handler asks of the application state. -/
inductive Op where
  | get (orderId : String)
  | register (orderId : String) (payload : OrderCreatedPayload)
  | remove (orderId : String)
  | reserve (orderId : String) (eventType : EventType) (force : Bool)
  | commit (orderId : String) (eventType : EventType) (force : Bool)
  | publishAndWait (event : LifecycleEvent)
  | publishTombstone (orderId : String)
  | publishSnapshot (orderId : String) (snapshot : Snapshot)

abbrev Op.Answer : Op → Type
  | .get _ => Option Order
  | .register _ _ => Order
  | .remove _ => Except UnknownOrder Order
  | .reserve _ _ _ => Except (UnknownOrder ⊕ IllegalTransition) Sequence
  | .commit _ _ _ => Except UnknownOrder Order
  | .publishAndWait _ => Except DeliveryError DeliveryResult
  | .publishTombstone _ => Except DeliveryError DeliveryResult
  | .publishSnapshot _ _ => Unit

/-- `app.state`. -/
structure AppState where
  orders : OrderStore := fun _ => none
  topics : Topics := {}

/-- One operation. `d` is what becomes of the record, if it produces one. -/
def Op.exec (settings : ProducerSettings) (d : DeliveryFate) :
    (o : Op) → AppState → o.Answer × AppState
  | .get orderId, s => (s.orders.get orderId, s)
  | .register orderId payload, s =>
    let (order, orders) := s.orders.register orderId payload
    (order, { s with orders })
  | .remove orderId, s =>
    let (answer, orders) := s.orders.remove orderId
    (answer, { s with orders })
  | .reserve orderId eventType force, s =>
    let (answer, orders) := s.orders.reserve orderId eventType force
    (answer, { s with orders })
  | .commit orderId eventType force, s =>
    let (answer, orders) := s.orders.commit orderId eventType force
    (answer, { s with orders })
  | .publishAndWait event, s =>
    let (answer, topics) := LifecycleEventProducer.publishAndWait settings d s.topics event
    (answer, { s with topics })
  | .publishTombstone orderId, s =>
    let (answer, topics) := LifecycleEventProducer.publishTombstone settings d s.topics orderId
    (answer, { s with topics })
  | .publishSnapshot orderId snapshot, s =>
    ((), { s with topics := LifecycleEventProducer.publishSnapshot d s.topics orderId snapshot })

/-- What an endpoint answers; an `error` is an `HTTPException`, or a `500`. -/
inductive Response where
  | created (orderId state : String) (totalAmount sequence partition offset : Nat)
  | published (orderId : String) (sequence : Nat) (eventType : EventType) (state : String)
      (partition offset : Nat) (forced : Bool)
  | noContent
  | order (view : Snapshot)
  | error (status : Nat) (detail : String)
deriving DecidableEq, Repr

/-- `CreateOrderRequest`. -/
structure CreateOrderRequest where
  customerId : String
  items : List OrderItem
  payment : PaymentInfo
  customerId_ne : customerId ≠ ""
  items_ne : items ≠ []

/-- `PublishEventRequest`, its payload as the JSON text of the dict. -/
structure PublishEventRequest where
  eventType : EventType
  payload : String := "{}"
  force : Bool := false

structure Api where
  /-- `str` of the `ValidationError` pydantic makes of a validator's message. -/
  validationError : String → String
  /-- `OrderCreatedPayload.model_validate`, `ShippedPayload.model_validate`: the error, if any. -/
  orderCreatedError : String → Option String
  shippedError : String → Option String

/-- `validate_payload`: the error, if any. -/
def Api.validatePayload (api : Api) (eventType : EventType) (payload : String) : Option String :=
  match eventType with
  | .orderCreated => api.orderCreatedError payload
  | .shipped => api.shippedError payload
  | .packed | .delivered => none

abbrev Handler := Prog Op.Answer

variable (api : Api)

/-- `_publish`. -/
def publish (event : LifecycleEvent) : Handler (Except Response DeliveryResult) := do
  match ← Prog.perform (Op.publishAndWait event) with
  | .error (.timeout detail) => return .error (.error 504 detail)
  | .error (.failed detail) => return .error (.error 502 detail)
  | .ok result => return .ok result

def internalServerError : Response := .error 500 "Internal Server Error"

/-- The payload `create_order` builds, or the text of the validator that refuses it. -/
def CreateOrderRequest.toPayload (body : CreateOrderRequest) : Except String OrderCreatedPayload :=
  let totalAmount := itemSum body.items
  if h : body.payment.amount = totalAmount then
    .ok { body with totalAmount, totalAmount_eq := rfl, amount_eq := h }
  else
    .error s!"payment.amount {body.payment.amount} does not equal total_amount {totalAmount}"

/-- `create_order`; `new_order_id()` is `orderId`, `new_event_id()` is `eventId`. -/
def createOrder (orderId eventId : String) (body : CreateOrderRequest) : Handler Response := do
  match body.toPayload with
  | .error detail => return .error 422 (api.validationError detail)
  | .ok payload =>
    let event : LifecycleEvent :=
      { eventId, orderId, sequence := 1, eventType := .orderCreated, one_le_sequence := Nat.one_pos }
    match ← publish event with
    | .error response => return response
    | .ok result =>
      let order ← Prog.perform (Op.register orderId payload)
      Prog.perform (Op.publishSnapshot order.orderId order.asSnapshot)
      return .created orderId order.state.str order.totalAmount 1 result.partition result.offset

/-- `publish_event`. Nothing there catches the `UnknownOrder` of `commit`. -/
def publishEvent (orderId eventId : String) (body : PublishEventRequest) : Handler Response := do
  match ← Prog.perform (Op.get orderId) with
  | none => return .error 404 s!"no order {orderId}"
  | some _ =>
    match api.validatePayload body.eventType body.payload with
    | some detail => return .error 422 detail
    | none =>
      match ← Prog.perform (Op.reserve orderId body.eventType body.force) with
      | .error (.inl unknown) => return .error 404 unknown.detail
      | .error (.inr illegal) => return .error 409 illegal.detail
      | .ok ⟨sequence, one_le_sequence⟩ =>
        let event : LifecycleEvent :=
          { eventId, orderId, sequence, eventType := body.eventType, one_le_sequence }
        match ← publish event with
        | .error response => return response
        | .ok result =>
          match ← Prog.perform (Op.commit orderId body.eventType body.force) with
          | .error _ => return internalServerError
          | .ok order =>
            Prog.perform (Op.publishSnapshot order.orderId order.asSnapshot)
            return .published orderId sequence body.eventType order.state.str result.partition
              result.offset body.force

/-- `delete_order`. -/
def deleteOrder (orderId : String) : Handler Response := do
  match ← Prog.perform (Op.get orderId) with
  | none => return .error 404 s!"no order {orderId}"
  | some _ =>
    match ← Prog.perform (Op.publishTombstone orderId) with
    | .error (.timeout detail) => return .error 504 detail
    | .error (.failed detail) => return .error 502 detail
    | .ok _ =>
      match ← Prog.perform (Op.remove orderId) with
      | .error _ => return .noContent
      | .ok _ => return .noContent

/-- `get_order`. -/
def getOrder (orderId : String) : Handler Response := do
  match ← Prog.perform (Op.get orderId) with
  | none => return .error 404 s!"no order {orderId}"
  | some order => return .order order.asDict

/-! ## Concurrent requests -/

inductive Request where
  | create (orderId eventId : String) (body : CreateOrderRequest)
  | publish (orderId eventId : String) (body : PublishEventRequest)
  | delete (orderId : String)
  | view (orderId : String)

def Request.handler : Request → Handler Response
  | .create orderId eventId body => createOrder api orderId eventId body
  | .publish orderId eventId body => publishEvent api orderId eventId body
  | .delete orderId => deleteOrder orderId
  | .view orderId => getOrder orderId

/-- The service while the requests of `ι` are at work. -/
abbrev Serving (ι : Type) := Pool Op.Answer Response ι AppState

/-- Every request is still to be handled. -/
def Serving.start {ι : Type} (requests : ι → Request) (state : AppState) : Serving ι where
  threads i := (requests i).handler api
  shared := state

variable {ι : Type} [DecidableEq ι] (settings : ProducerSettings)

/-- One request performs its next operation. -/
def Serving.step : ι × DeliveryFate → Eff (Serving ι) Empty PUnit := Pool.step (Op.exec settings)

/-! ## Serial requests -/

/-- A request, and what becomes of its event and of its record on the compacted topic. -/
structure Visit where
  request : Request
  event : DeliveryFate
  snapshot : DeliveryFate

namespace Visit

def fate (x : Visit) : Op → DeliveryFate
  | .publishAndWait _ => x.event
  | _ => x.snapshot

/-- The request is handled from beginning to end. -/
def serve (x : Visit) (s : AppState) : AppState :=
  ((x.request.handler api).run (fun o => Op.exec settings (x.fate o) o) s).2

/-- The events it publishes, each with whether it was acknowledged. -/
def attempts (x : Visit) (s : AppState) : List (LifecycleEvent × Bool) :=
  ((x.request.handler api).trace (fun o => Op.exec settings (x.fate o) o) s).filterMap fun
    | .publishAndWait event => some (event, x.event.isAcked)
    | _ => none

end Visit

/-- Requests handled one after the other. -/
def serve : List Visit → AppState → AppState
  | [], s => s
  | x :: l, s => serve l (x.serve api settings s)

def attempts : List Visit → AppState → List (LifecycleEvent × Bool)
  | [], _ => []
  | x :: l, s => x.attempts api settings s ++ attempts l (x.serve api settings s)

end OrderService
