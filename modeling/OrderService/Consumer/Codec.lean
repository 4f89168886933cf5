import OrderService.Lib.Json
import OrderService.Python
import OrderService.World

/-!
# The stored bytes (`state.py`, `_Record`)

`StoredRecord.encode` and `decode` are `_Record.encode` and `_Record.decode` on bytes: Python's integers
are unbounded, its texts may hold surrogates, and a decoded `last_event_id` is whatever value the document
has there. Elsewhere a stored value is a `Row`.
-/

namespace OrderService

open Unicode

/-- What the codec may meet in Python. -/
inductive PyError where
  | valueError | typeError | keyError | overflowError | recursionError
deriving DecidableEq, Repr

def PyError.className : PyError → String
  | .valueError => "ValueError"
  | .typeError => "TypeError"
  | .keyError => "KeyError"
  | .overflowError => "OverflowError"
  | .recursionError => "RecursionError"

/-- `except (ValueError, TypeError, KeyError)`. -/
def PyError.isCaught : PyError → Bool
  | .valueError | .typeError | .keyError => true
  | .overflowError | .recursionError => false

/-- The interpreter the codec runs in. -/
structure Interpreter extends Stdlib where
  limits : Json.Limits
  /-- `str(exc)` of what decoding these bytes raises. -/
  errorText : List UInt8 → String

/-- The text of a literal. -/
def text (s : String) : Text := ofChars s.toList

structure StoredFold where
  orderId : String
  lastSequence : Int
  state : Option OrderState
deriving DecidableEq

/-- `_Record`, with `last_event_id` of any type. -/
structure StoredRecord (α : Type) where
  fold : StoredFold
  lastEventId : α
  handledCount : Int

def StoredRecord.map {α β : Type} (f : α → β) (r : StoredRecord α) : StoredRecord β :=
  { r with lastEventId := f r.lastEventId }

/-- `str(state) if state is not None else None`. -/
def dumpState : Option OrderState → Json.Scalar
  | some state => .str (text state.str)
  | none => .null

/-- The dict that `_Record.encode` dumps. -/
def StoredRecord.members (r : StoredRecord Text) : List (Text × Json.Scalar) :=
  [(text "last_sequence", .int r.fold.lastSequence),
    (text "state", dumpState r.fold.state),
    (text "last_event_id", .str r.lastEventId),
    (text "handled_count", .int r.handledCount)]

/-- `_Record.encode`. -/
def StoredRecord.encode (py : Interpreter) (r : StoredRecord Text) : Except PyError (List UInt8) :=
  match Json.dumps? py.limits r.members with
  | some document => .ok document.toUTF8.data.toList
  | none => .error .valueError

/-- `json.loads(raw)`. -/
def loads (py : Interpreter) (raw : List UInt8) : Except PyError Json.Value :=
  match Json.loads py.limits raw with
  | .ok payload => .ok payload
  | .error .invalid => .error .valueError
  | .error _ => .error .recursionError

/-- `payload[name]`. -/
def getItem (payload : Json.Value) (name : String) : Except PyError Json.Value :=
  match payload with
  | .obj fields =>
    match Json.field? fields (text name) with
    | some v => .ok v
    | none => .error .keyError
  | _ => .error .typeError

/-- `int(v)`; a finite float is truncated. -/
def intOf (py : Interpreter) : Json.Value → Except PyError Int
  | .bool b => .ok b.toNat
  | .int n => .ok n
  | .float .nan => .error .valueError
  | .float (.infinite _) => .error .overflowError
  | .float (.finite negative magnitude) => .ok (Json.signed negative (magnitude / 2 ^ 1074))
  | .str s =>
    match (toChars? s).bind fun cs => py.int (String.ofList cs) with
    | some n => .ok n
    | none => .error .valueError
  | .null | .arr _ | .obj _ => .error .typeError

/-- `OrderState(state) if state is not None else None`; any value but a state's text is a
`ValueError`, an unhashable one too. -/
def stateOf : Json.Value → Except PyError (Option OrderState)
  | .null => .ok none
  | .str s =>
    match [OrderState.created, .packed, .shipped, .delivered].find? fun state => text state.str = s with
    | some state => .ok (some state)
    | none => .error .valueError
  | _ => .error .valueError

/-- The `try` block of `_Record.decode`. -/
def StoredRecord.build (py : Interpreter) (orderId : String) (raw : List UInt8) :
    Except PyError (StoredRecord Json.Value) := do
  let payload ← loads py raw
  let state ← getItem payload "state"
  let lastSequence ← intOf py (← getItem payload "last_sequence")
  let state ← stateOf state
  let lastEventId ← getItem payload "last_event_id"
  let handledCount ← intOf py (← getItem payload "handled_count")
  return ⟨⟨orderId, lastSequence, state⟩, lastEventId, handledCount⟩

/-- `_Record.decode`. -/
def StoredRecord.decode (py : Interpreter) (orderId : String) (raw : List UInt8) :
    Except Exn (StoredRecord Json.Value) :=
  match StoredRecord.build py orderId raw with
  | .ok r => .ok r
  | .error e =>
    if e.isCaught then
      .error (.stateStoreUnavailable s!"undecodable stored fold for {orderId}: {py.errorText raw}")
    else .error (.other e.className (py.errorText raw))

/-- The record of a `Record`. -/
def Record.stored (r : Record) : StoredRecord Text :=
  ⟨⟨r.fold.orderId, r.fold.lastSequence, r.fold.state⟩, text r.lastEventId, r.handledCount⟩

end OrderService
