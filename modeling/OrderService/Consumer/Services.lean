import OrderService.Consumer.Runtime
import OrderService.Schema

/-!
# The services (`inventory.py`, `notification.py`, `analytics.py`)

`readEvent` is `_decode` on bytes. The handlers return the lines they log; that of the analytics service
also returns its tally.
-/

namespace OrderService

open Unicode

/-! ## Decoding (`runtime.py`, `_decode`) -/

/-- `raw.decode("utf-8")`: no surrogates. -/
def decodeStrict (raw : List UInt8) : Except PyError (List Char) :=
  match (decodeUtf8 raw).bind toChars? with
  | some cs => .ok cs
  | none => .error .valueError

def byteOrderMark : Char := Char.ofNat 0xfeff

/-- `json.loads` of a text. -/
def loadsStr (py : Interpreter) (cs : List Char) : Except PyError Json.Value :=
  if cs.head? = some byteOrderMark then .error .valueError
  else
    match Json.loadsText py.limits (ofChars cs) with
    | .ok v => .ok v
    | .error .invalid => .error .valueError
    | .error _ => .error .recursionError

/-- The `try` block of `_decode`; a `ValidationError` is a `ValueError`. -/
def readEvent (py : Interpreter) (pd : Pydantic) (defaults : WireEvent.Defaults) (raw : List UInt8) :
    Except PyError (WireEvent pd) := do
  let document ← loadsStr py (← decodeStrict raw)
  match WireEvent.modelValidate defaults document with
  | .ok e => .ok e
  | .error _ => .error .valueError

/-- What `_decode` catches is `except (ValueError, UnicodeDecodeError, AttributeError)`. -/
def decoder (py : Interpreter) (pd : Pydantic) (defaults : WireEvent.Defaults) (raw : ByteArray) : Decoded :=
  match readEvent py pd defaults raw.data.toList with
  | .ok e => .event e.toLifecycleEvent
  | .error .valueError => .invalid (py.errorText raw.data.toList)
  | .error e => .raises (.other e.className (py.errorText raw.data.toList))

/-! ## The handlers -/

/-- `str(n)`. -/
def Interpreter.strInt (py : Interpreter) (n : Int) : Except Exn String :=
  match Json.dumpInt? py.limits n with
  | some digits => .ok (String.ofList digits)
  | none => .error (.other "ValueError" s!"Exceeds the limit ({py.limits.digits.getD 0} digits) for integer string conversion; use sys.set_int_max_str_digits() to increase the limit")

variable (py : Interpreter) {pd : Pydantic}

namespace Inventory

/-- `_reserve_stock`. -/
def reserveStock (e : WireEvent pd) : Except Exn (List String) := do
  let payload ← e.asOrderCreated
  return payload.items.map fun item => s!"[inventory] reserving {item.qty} × {item.sku} for {e.orderId}"

/-- `_release_reservation`. -/
def releaseReservation (e : WireEvent pd) : Except Exn (List String) := do
  let payload ← e.asShipped
  return [s!"[inventory] reservation for {e.orderId} committed — handed to {payload.carrier} ({payload.trackingNumber})"]

end Inventory

namespace Notification

/-- `MESSAGES`. -/
def messages : EventType → String
  | .orderCreated => "Order confirmed — payment received, we are preparing it"
  | .packed => "Your order is packed and waiting for pickup"
  | .shipped => "On its way"
  | .delivered => "Delivered — thanks for shopping with us"

/-- `_message_for`. -/
def messageFor (e : WireEvent pd) : Except Exn String := do
  let message := messages e.eventType
  if e.eventType = .shipped then
    let shipped ← e.asShipped
    return s!"{message} via {shipped.carrier}, tracking {shipped.trackingNumber}"
  if e.eventType = .orderCreated then
    let created ← e.asOrderCreated
    return s!"{message} (total {← py.strInt created.totalAmount})"
  return message

/-- `_notify`. -/
def notify (e : WireEvent pd) : Except Exn (List String) := do
  return [s!"[notification] → customer of {e.orderId}: {← messageFor py e}"]

end Notification

namespace Analytics

/-- `Counter[EventType]`. -/
abbrev Tally := EventType → Nat

/-- `_count`. -/
def count (counts : Tally) (e : WireEvent pd) : List String × Tally :=
  let counts := Function.update counts e.eventType (counts e.eventType + 1)
  let counted := [EventType.orderCreated, .packed, .shipped, .delivered].filter fun t => counts t ≠ 0
  let tally := " ".intercalate (counted.map fun t => s!"{t.str}={counts t}")
  ([s!"[analytics] counted {e.eventType.str} for {e.orderId} — {tally}"], counts)

end Analytics

/-! ## The registry (`main.py`, `retry_worker.py`) -/

inductive RegisteredService where
  | inventory | notification | analytics
deriving DecidableEq, Repr

namespace RegisteredService

/-- `SERVICE_NAME`. -/
def name : RegisteredService → String
  | .inventory => "inventory"
  | .notification => "notification"
  | .analytics => "analytics"

/-- The keys of the handler map that `build_service` builds. -/
def handlers : RegisteredService → List EventType
  | .inventory => [.orderCreated, .shipped]
  | .notification | .analytics => [.orderCreated, .packed, .shipped, .delivered]

/-- The handler of an event type, and the tally it leaves; only `analytics` keeps one. -/
def handle (r : RegisteredService) (counts : Analytics.Tally) (e : WireEvent pd) :
    Except Exn (List String × Analytics.Tally) :=
  match r with
  | .inventory => do
    let lines ← match e.eventType with
      | .orderCreated => Inventory.reserveStock e
      | .shipped => Inventory.releaseReservation e
      -- no handler
      | .packed | .delivered => .ok []
    return (lines, counts)
  | .notification => do return (← Notification.notify py e, counts)
  | .analytics => .ok (Analytics.count counts e)

/-- The consumer of the service. -/
def service (r : RegisteredService) (settings : Settings) (defaults : WireEvent.Defaults)
    (partitioner : Option ByteArray → Nat) (pd : Pydantic) : Service where
  settings := settings
  std := py.toStdlib
  decode := decoder py pd defaults
  partitioner := partitioner
  name := r.name
  handlers := r.handlers

end RegisteredService

end OrderService
