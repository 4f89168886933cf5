import OrderService.Producer.Routes
import OrderService.Schema

/-!
# Request bodies and the events made of them (`producer/routes.py`)

The bodies as they are validated, and the events that `create_order` and `publish_event` build, with all
their fields.
-/

namespace OrderService

open Unicode

variable (pd : Pydantic)

def CreateOrderRequest.modelValidate (v : Json.Value) : Except Refusal CreateOrderRequest := do
  let fields ← fieldsOf v
  let customerId ← needField fields "customer_id" pd.str
  let items ← (← needField fields "items" listOf?).mapM (OrderItem.modelValidate pd)
  let payment ← PaymentInfo.modelValidate pd (← needField fields "payment" some)
  if hcustomer : customerId ≠ "" then
    if hitems : items ≠ [] then return ⟨customerId, items, payment, hcustomer, hitems⟩
    else .error .field
  else .error .field

/-- `PublishEventRequest`, its payload as the dict. -/
structure PublishBody where
  eventType : EventType
  payload : {payload : List (Text × Json.Value) // (Json.Value.obj payload).IsDict}
  force : Bool

def PublishBody.modelValidate (v : Json.Value) : Except Refusal PublishBody := do
  let fields ← fieldsOf v
  let eventType ← needField fields "event_type" WireEvent.eventTypeOf
  let payload ← fieldOr fields "payload" WireEvent.dictOf? WireEvent.emptyDict
  let force ← fieldOr fields "force" pd.bool false
  return ⟨eventType, payload, force⟩

/-! ## The events -/

theorem areDicts_modelDump (items : List OrderItem) :
    Json.Value.AreDicts (items.map fun item => .obj item.modelDump) := by
  have hnames : [text "sku", text "qty", text "unit_price"].Nodup := by decide
  induction items with
  | nil => trivial
  | cons item items ih => exact ⟨⟨hnames, trivial, trivial, trivial, trivial⟩, ih⟩

theorem OrderCreatedPayload.isDict_modelDump (payload : OrderCreatedPayload) :
    (Json.Value.obj payload.modelDump).IsDict := by
  have hnames : [text "customer_id", text "items", text "total_amount", text "payment"].Nodup := by decide
  have hpayment : [text "method", text "reference", text "amount"].Nodup := by decide
  refine ⟨hnames, trivial, areDicts_modelDump _, trivial, ?_, trivial⟩
  exact ⟨hpayment, trivial, trivial, trivial, trivial⟩

/-- The event of `create_order`. -/
def creationEvent (orderId eventId : String) (occurredAt : Datetime) (payload : OrderCreatedPayload) :
    Except Refusal (WireEvent pd) :=
  WireEvent.build
    { eventId, orderId, sequence := 1, eventType := .orderCreated, one_le_sequence := Nat.one_pos }
    occurredAt payload.modelDump payload.isDict_modelDump

variable {pd}

/-- The dict of `Order.as_dict`, as `json.dumps` takes it. -/
def Snapshot.members (s : Snapshot) : List (Text × Json.Value) :=
  [(text "order_id", .str (text s.orderId)),
    (text "customer_id", .str (text s.customerId)),
    (text "state", .str (text s.state)),
    (text "last_sequence", .int s.lastSequence),
    (text "total_amount", .int s.totalAmount),
    (text "payment", .obj [(text "method", .str (text s.payment.1)),
      (text "reference", .str (text s.payment.2.1)),
      (text "amount", .int s.payment.2.2)]),
    (text "items", .arr (s.items.map fun item => .obj item.modelDump)),
    (text "expected_next_event", match s.expectedNextEvent with
      | some eventType => .str (text eventType)
      | none => .null)]

/-- `json.dumps(snapshot).encode("utf-8")`; there are no doubles in it. -/
def Snapshot.dumps (py : Interpreter) (s : Snapshot) : Except PyError (List UInt8) :=
  match (Json.Style.ascii py.limits fun _ => none).write? (.obj s.members) with
  | some document => .ok (String.ofList document).toUTF8.data.toList
  | none => .error .valueError

end OrderService
