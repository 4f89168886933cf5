import OrderService.Consumer.Codec
import OrderService.Lib.JsonDict
import OrderService.Lib.JsonStyles
import OrderService.Producer.Orders

/-!
# The schema of an event (`events.py`, its models)

What pydantic takes for a value of a type, and how it writes a time or a double, is a parameter
(`Pydantic`); the models, their bounds and their validators are those of the source. `WireEvent` is a
`LifecycleEvent` with all its fields, and one whose payload does not match its type cannot be built.
-/

namespace OrderService

open Unicode

/-- Why pydantic refuses a value. -/
inductive Refusal where
  /-- A field is missing, of another type or out of its bounds. -/
  | field
  /-- What the validator of the model says. -/
  | validator (text : String)
deriving DecidableEq, Repr

/-- Pydantic's conversions. `none` of a reader is a `ValidationError`, of a writer an exception. -/
structure Pydantic where
  str : Json.Value → Option String
  int : Json.Value → Option Int
  bool : Json.Value → Option Bool
  datetime : Json.Value → Option Datetime
  datetimeText : Datetime → Option String
  floatText : Json.Binary64 → Option (List Char)
  /-- `str(exc)` of the `ValidationError`. -/
  errorText : Refusal → String

/-- What a validation returns or raises. -/
def Pydantic.orRaise {α : Type} (pd : Pydantic) : Except Refusal α → Except Exn α
  | .ok a => .ok a
  | .error r => .error (.other "ValidationError" (pd.errorText r))

/-- A required field. -/
def needField {α : Type} (fields : List (Text × Json.Value)) (name : String) (coerce : Json.Value → Option α) :
    Except Refusal α :=
  match (Json.field? fields (text name)).bind coerce with
  | some a => .ok a
  | none => .error .field

/-- A field with a default. -/
def fieldOr {α : Type} (fields : List (Text × Json.Value)) (name : String) (coerce : Json.Value → Option α)
    (default : α) : Except Refusal α :=
  match Json.field? fields (text name) with
  | none => .ok default
  | some v =>
    match coerce v with
    | some a => .ok a
    | none => .error .field

/-- The fields of a model. -/
def fieldsOf : Json.Value → Except Refusal (List (Text × Json.Value))
  | .obj fields => .ok fields
  | _ => .error .field

variable (pd : Pydantic)

def OrderItem.modelValidate (v : Json.Value) : Except Refusal OrderItem := do
  let fields ← fieldsOf v
  let sku ← needField fields "sku" pd.str
  let qty ← needField fields "qty" pd.int
  let unitPrice ← needField fields "unit_price" pd.int
  if h : sku ≠ "" ∧ 0 < qty ∧ 0 < unitPrice then
    return ⟨sku, qty.toNat, unitPrice.toNat, h.1, Int.lt_toNat.2 h.2.1, Int.lt_toNat.2 h.2.2⟩
  else .error .field

def PaymentMethod.ofValue : Json.Value → Option PaymentMethod
  | .str s => [PaymentMethod.card, .bkash, .nagad].find? fun method => text method.str = s
  | _ => none

def PaymentInfo.modelValidate (v : Json.Value) : Except Refusal PaymentInfo := do
  let fields ← fieldsOf v
  let method ← needField fields "method" PaymentMethod.ofValue
  let reference ← needField fields "reference" pd.str
  let amount ← needField fields "amount" pd.int
  if h : reference ≠ "" ∧ 0 ≤ amount then
    return ⟨method, reference, amount.toNat, h.1⟩
  else .error .field

def listOf? : Json.Value → Option (List Json.Value)
  | .arr xs => some xs
  | _ => none

def OrderCreatedPayload.modelValidate (v : Json.Value) : Except Refusal OrderCreatedPayload := do
  let fields ← fieldsOf v
  let customerId ← needField fields "customer_id" pd.str
  let items ← (← needField fields "items" listOf?).mapM (OrderItem.modelValidate pd)
  let totalAmount ← needField fields "total_amount" pd.int
  let payment ← PaymentInfo.modelValidate pd (← needField fields "payment" some)
  if h : customerId ≠ "" ∧ items ≠ [] then
    -- `_validate_totals`
    if totalAmount ≠ itemSum items then
      .error (.validator s!"total_amount {totalAmount} does not equal the item sum {itemSum items}")
    else if hamount : payment.amount ≠ itemSum items then
      .error (.validator s!"payment.amount {payment.amount} does not equal total_amount {totalAmount}")
    else
      return ⟨customerId, items, itemSum items, payment, h.1, h.2, rfl, not_not.1 hamount⟩
  else .error .field

/-- `model_dump()` of an item. -/
def OrderItem.modelDump (item : OrderItem) : List (Text × Json.Value) :=
  [(text "sku", .str (text item.sku)), (text "qty", .int item.qty), (text "unit_price", .int item.unitPrice)]

/-- `model_dump(mode="json")` of a payment. -/
def PaymentInfo.modelDump (payment : PaymentInfo) : List (Text × Json.Value) :=
  [(text "method", .str (text payment.method.str)),
    (text "reference", .str (text payment.reference)),
    (text "amount", .int payment.amount)]

/-- `model_dump(mode="json")` of a creation payload. -/
def OrderCreatedPayload.modelDump (payload : OrderCreatedPayload) : List (Text × Json.Value) :=
  [(text "customer_id", .str (text payload.customerId)),
    (text "items", .arr (payload.items.map fun item => .obj item.modelDump)),
    (text "total_amount", .int payload.totalAmount),
    (text "payment", .obj payload.payment.modelDump)]

/-- `ShippedPayload`. -/
structure ShippedPayload where
  carrier : String
  trackingNumber : String
  carrier_ne : carrier ≠ ""
  trackingNumber_ne : trackingNumber ≠ ""
deriving Repr

def ShippedPayload.modelValidate (v : Json.Value) : Except Refusal ShippedPayload := do
  let fields ← fieldsOf v
  let carrier ← needField fields "carrier" pd.str
  let trackingNumber ← needField fields "tracking_number" pd.str
  if h : carrier ≠ "" ∧ trackingNumber ≠ "" then
    return ⟨carrier, trackingNumber, h.1, h.2⟩
  else .error .field

/-- What `validate_payload` returns. -/
inductive PayloadModel where
  | orderCreated (payload : OrderCreatedPayload)
  | shipped (payload : ShippedPayload)
  | absent

/-- `validate_payload`, by `PAYLOAD_MODELS`. -/
def validatePayload (eventType : EventType) (payload : Json.Value) : Except Refusal PayloadModel :=
  match eventType with
  | .orderCreated => PayloadModel.orderCreated <$> OrderCreatedPayload.modelValidate pd payload
  | .shipped => PayloadModel.shipped <$> ShippedPayload.modelValidate pd payload
  | .packed | .delivered => .ok .absent

/-- `LifecycleEvent`, with its time and its payload. -/
structure WireEvent extends LifecycleEvent where
  occurredAt : Datetime
  payload : List (Text × Json.Value)
  payload_isDict : (Json.Value.obj payload).IsDict
  payload_ok : (validatePayload pd eventType (.obj payload)).isOk

namespace WireEvent

variable {pd}

/-- `LifecycleEvent(...)`, of fields that have their types. -/
def build (event : LifecycleEvent) (occurredAt : Datetime) (payload : List (Text × Json.Value))
    (h : (Json.Value.obj payload).IsDict) : Except Refusal (WireEvent pd) :=
  match hok : validatePayload pd event.eventType (.obj payload) with
  | .ok _ => .ok { event with
    occurredAt
    payload
    payload_isDict := h
    payload_ok := by rw [hok]; rfl }
  | .error e => .error e

/-- What `default_factory` makes. -/
structure Defaults where
  eventId : String
  occurredAt : Datetime

def eventTypeOf : Json.Value → Option EventType
  | .str s => [EventType.orderCreated, .packed, .shipped, .delivered].find? fun t => text t.str = s
  | _ => none

/-- The dict of an object. -/
def dictOf? : Json.Value → Option {payload : List (Text × Json.Value) // (Json.Value.obj payload).IsDict}
  | .obj fields => some ⟨Json.Value.dictOf (Json.Value.collapseMembers fields),
      Json.Value.isDict_collapse (.obj fields)⟩
  | _ => none

def emptyDict : {payload : List (Text × Json.Value) // (Json.Value.obj payload).IsDict} :=
  ⟨[], List.nodup_nil, trivial⟩

/-- `LifecycleEvent.model_validate`. -/
def modelValidate (defaults : Defaults) (v : Json.Value) : Except Refusal (WireEvent pd) := do
  let fields ← fieldsOf v
  let eventId ← fieldOr fields "event_id" pd.str defaults.eventId
  let orderId ← needField fields "order_id" pd.str
  let sequence ← needField fields "sequence" pd.int
  let eventType ← needField fields "event_type" eventTypeOf
  let occurredAt ← fieldOr fields "occurred_at" pd.datetime defaults.occurredAt
  let payload ← fieldOr fields "payload" dictOf? emptyDict
  if h : 1 ≤ sequence then
    build ⟨eventId, orderId, sequence.toNat, eventType, Int.toNat_le_toNat h⟩ occurredAt payload.1 payload.2
  else .error .field

/-- The fields that are written, in their order. -/
def members (e : WireEvent pd) (occurredAt : String) : List (Text × Json.Value) :=
  [(text "event_id", .str (text e.eventId)),
    (text "order_id", .str (text e.orderId)),
    (text "sequence", .int e.sequence),
    (text "event_type", .str (text e.eventType.str)),
    (text "occurred_at", .str (text occurredAt)),
    (text "payload", .obj e.payload)]

/-- `model_dump_json().encode("utf-8")`. -/
def modelDumpJson (e : WireEvent pd) : Option (List UInt8) := do
  let occurredAt ← pd.datetimeText e.occurredAt
  let document ← (Json.Style.raw pd.floatText).write? (.obj (e.members occurredAt))
  return (String.ofList document).toUTF8.data.toList

/-- `as_order_created`. -/
def asOrderCreated (e : WireEvent pd) : Except Exn OrderCreatedPayload :=
  if e.eventType ≠ .orderCreated then .error (.other "ValueError" s!"{e.eventType.str} is not ORDER_CREATED")
  else pd.orRaise (OrderCreatedPayload.modelValidate pd (.obj e.payload))

/-- `as_shipped`. -/
def asShipped (e : WireEvent pd) : Except Exn ShippedPayload :=
  if e.eventType ≠ .shipped then .error (.other "ValueError" s!"{e.eventType.str} is not SHIPPED")
  else pd.orRaise (ShippedPayload.modelValidate pd (.obj e.payload))

end WireEvent

end OrderService
