import OrderService.Client

/-!
# Where a failed message goes (`dlq.py`, `errors.py`)

`FailureRouter.toRetry`, `.toSource` and `.toDeadLetter` publish a copy of a message: its key and
its value as they are, with headers that say where it came from and what became of it. At least once
they block until the copy is acknowledged; under `exactly_once` the transaction's commit is the
acknowledgement.
-/

namespace OrderService

def hdrService := "x-service"
def hdrConsumerGroup := "x-consumer-group"
def hdrOriginalTopic := "x-original-topic"
def hdrOriginalPartition := "x-original-partition"
def hdrOriginalOffset := "x-original-offset"
def hdrOriginalTimestamp := "x-original-timestamp"
def hdrAttempt := "x-attempt"
def hdrRetryTarget := "x-retry-target"
def hdrRetryAt := "x-retry-at"
def hdrAttemptsMade := "x-attempts-made"
def hdrErrorClass := "x-error-class"
def hdrErrorMessage := "x-error-message"
def hdrFailedAt := "x-failed-at"

def maxErrorChars : Nat := 500

/-- A message's headers by name. -/
abbrev Headers := String → Option String

/-- `decode_headers`: absent and undecodable values are skipped, a later header of a name wins. -/
def decodeHeaders (m : Message) : Headers :=
  m.headers.foldl (fun headers (name, value) =>
    match value with
    | none => headers
    | some bytes =>
      match String.fromUTF8? bytes with
      | none => headers
      | some text => Function.update headers name (some text)) fun _ => none

/-- `type(exc).__name__`. -/
def Exn.className : Exn → String
  | .kafka _ => "KafkaException"
  | .buffer => "BufferError"
  | .stateStoreUnavailable _ => "StateStoreUnavailable"
  | .failurePublishFailed _ => "FailurePublishFailed"
  | .producerFenced _ => "ProducerFenced"
  | .nonRetryable _ => "NonRetryableError"
  | .retryable _ => "RetryableError"
  | .unicodeDecode => "UnicodeDecodeError"
  | .other cls _ => cls
  | .crash => ""

/-- `str(exc)`. -/
def Exn.text : Exn → String
  | .kafka e => e.text
  | .buffer => "Local: Queue full"
  | .stateStoreUnavailable text | .failurePublishFailed text | .producerFenced text
  | .nonRetryable text | .retryable text | .other _ text => text
  | .unicodeDecode => "invalid start byte"
  | .crash => ""

/-- `describe_error`. -/
def describeError (e : Exn) : String × String :=
  let text := strip (e.text.map fun c => if c = '\n' then ' ' else c)
  let text := if text = "" then "<no message>" else text
  let text :=
    if maxErrorChars < text.length then String.ofList (text.toList.take maxErrorChars) ++ "…"
    else text
  (e.className, text)

/-- `_message_timestamp`. A time no `datetime` can hold raises. -/
def messageTimestamp (std : Stdlib) (m : Message) : Except Exn String :=
  if m.timestamp ≤ 0 then .ok "unknown"
  else
    match std.fromtimestamp m.timestamp with
    | some text => .ok text
    | none => .error (.other "ValueError" "year is out of range")

/-- `Origin`. -/
structure Origin where
  topic : String
  partition : Int
  offset : Int
  timestamp : String
deriving DecidableEq, Repr

/-- `Origin.from_message`. -/
def Origin.fromMessage (std : Stdlib) (m : Message) : Except Exn Origin := do
  let timestamp ← messageTimestamp std m
  return ⟨if m.topic = "" then "unknown" else m.topic, m.partition, m.offset, timestamp⟩

/-- `int(headers.get(name, -1))`. -/
def intOrMinusOne (std : Stdlib) (text : Option String) : Except Exn Int :=
  match text with
  | none => .ok (-1)
  | some text =>
    match std.int text with
    | some n => .ok n
    | none => .error (.other "ValueError" s!"invalid literal for int() with base 10: '{text}'")

/-- `Origin.from_headers`: what an earlier hop recorded, or the message's own place. -/
def Origin.fromHeaders (std : Stdlib) (headers : Headers) (m : Message) : Except Exn Origin :=
  match headers hdrOriginalTopic with
  | none => Origin.fromMessage std m
  | some topic => do
    let partition ← intOrMinusOne std (headers hdrOriginalPartition)
    let offset ← intOrMinusOne std (headers hdrOriginalOffset)
    return ⟨topic, partition, offset, (headers hdrOriginalTimestamp).getD "unknown"⟩

/-- Raise in `M` what a pure computation raised. -/
def ofExcept {α : Type} : Except Exn α → M α
  | .ok a => pure a
  | .error e => throw e

namespace FailureRouter

variable (d : Deployment) (env : Env)

/-- `_provenance`. -/
def provenance (origin : Origin) (service groupId : String) : List (String × String) :=
  [(hdrService, service),
    (hdrConsumerGroup, groupId),
    (hdrOriginalTopic, origin.topic),
    (hdrOriginalPartition, toString origin.partition),
    (hdrOriginalOffset, toString origin.offset),
    (hdrOriginalTimestamp, origin.timestamp)]

/-- The copy `_publish` enqueues. -/
def copyOf (topic : String) (m : Message) (headers : List (String × String)) : Queued where
  topic := topic
  partition := d.partitioner m.key
  payload := .copy m.key m.value headers
  source := m.id
  fate := env.fate

/-- `_publish`. -/
def publish (topic : String) (m : Message) (headers : List (String × String)) : M Unit := do
  let q := copyOf d env topic m headers
  try
    produce d env.produce q
  catch e =>
    match e with
    | .buffer | .kafka _ => throw (.failurePublishFailed s!"could not enqueue for {topic}: {e.text}")
    | e => throw e
  if d.settings.exactlyOnce then pure ()
  else
    let remaining ← flush env.servedByFlush
    let done := decide (q ∉ (← get).producer.queue)
    if remaining ≠ 0 || !done then
      throw (.failurePublishFailed
        s!"no delivery report from {topic} within {d.settings.deliveryTimeoutSeconds}s")
    match q.fate with
    | some err => throw (.failurePublishFailed s!"{topic} rejected the message: {err}")
    | none => pure ()

/-- `to_retry`: the time the scheduled attempt becomes due. -/
def toRetry (m : Message) (origin : Origin) (service groupId : String) (attempt : Int)
    (error : Exn) : M Int := do
  let dueAt := env.now + d.settings.backoffForAttempt attempt
  let (errorClass, errorMessage) := describeError error
  publish d env d.settings.retryTopic m (provenance origin service groupId ++
    [(hdrAttempt, toString attempt),
      (hdrRetryAt, d.std.isoformat dueAt),
      (hdrErrorClass, errorClass),
      (hdrErrorMessage, errorMessage),
      (hdrFailedAt, d.std.isoformat env.now)])
  return dueAt

/-- `to_source`: the topic the message was published back to. -/
def toSource (m : Message) (origin : Origin) (service groupId : String) (attempt : Int) :
    M String := do
  publish d env origin.topic m (provenance origin service groupId ++
    [(hdrAttempt, toString attempt),
      (hdrRetryTarget, service)])
  return origin.topic

/-- `to_dead_letter`. -/
def toDeadLetter (m : Message) (origin : Origin) (service groupId : String) (attemptsMade : Int)
    (error : Exn) : M Unit := do
  let (errorClass, errorMessage) := describeError error
  publish d env d.settings.dlqTopic m (provenance origin service groupId ++
    [(hdrAttemptsMade, toString attemptsMade),
      (hdrErrorClass, errorClass),
      (hdrErrorMessage, errorMessage),
      (hdrFailedAt, d.std.isoformat env.now)])

end FailureRouter

end OrderService
