import OrderService.Consumer.Runtime

/-!
# The retry worker (`retry_worker.py`)

It waits. A message of the retry topic that is not due has its partition paused and sought back to;
one that is due goes back to the topic it came from, or to the dead-letter topic if nothing can be
done with it. `step` is one turn of its loop or one rebalance; a process that dies of an exception,
or is killed, is started again (`World.restart`).
-/

namespace OrderService

/-- `_int_header`. -/
def intHeader (std : Stdlib) (headers : Headers) (name : String) (default : Int) : Int :=
  ((headers name).bind std.int).getD default

/-- `_time_header`. -/
def timeHeader (std : Stdlib) (headers : Headers) (name : String) : Option Datetime :=
  (headers name).bind std.fromisoformat

/-- The worker: its deployment, the services it can route to, and `model_validate_json`. -/
structure Worker extends Deployment where
  specs : List String
  decodeJson : Option ByteArray → Decoded

namespace RetryWorker

variable (c : Worker) (env : Env)

/-- `due_at > utc_now()`; a time without an offset cannot be compared with one that has one. -/
def isAfterNow (due : Datetime) : Except Exn Bool :=
  match due with
  | .aware t => .ok (env.now < t)
  | .naive _ => .error (.other "TypeError" "can't compare offset-naive and offset-aware datetimes")

/-- `_resume_due`: every entry that is due goes, whether or not its partition can be resumed. -/
def resumeDue : M Unit := do
  tick
  modify fun w =>
    let due := fun tp => match w.deferred tp with
      | none => false
      | some t => decide (t ≤ env.now)
    { w with
      deferred := fun tp => if due tp then none else w.deferred tp
      paused := fun tp => if due tp && (env.resume tp).isNone then false else w.paused tp }

/-- `_defer`. -/
def defer (m : Message) (due : Datetime) : M Unit := do
  let deferred ← try
      pause env m.tp
      seek env m.tp m.offset
      pure true
    catch e =>
      match e with
      | .kafka _ => pure false
      | e => throw e
  match deferred, due with
  | true, .aware t => modify fun w => { w with deferred := Function.update w.deferred m.tp (some t) }
  | _, _ => pure ()

/-- `_on_revoke`. -/
def onRevoke (tps : List TopicPartition) : M Unit :=
  modify fun w => { w with deferred := fun tp => if tp ∈ tps then none else w.deferred tp }

/-- `_commit`: a rejected commit is logged. -/
def commit (m : Message) : M Unit := do
  try
    commitOffset env m
  catch e =>
    match e with
    | .kafka _ => pure ()
    | e => throw e

/-- `_rewind`. -/
def rewind (m : Message) : M Unit := do
  try
    seek env m.tp m.offset
  catch e =>
    match e with
    | .kafka _ => pure ()
    | e => throw e

/-- Run a publication: whether it was acknowledged, or failed. -/
def published {α : Type} (publication : M α) : M Bool := do
  try
    let _ ← publication
    pure true
  catch e =>
    match e with
    | .failurePublishFailed _ => pure false
    | e => throw e

/-- `_release`: a failed publication is not committed, and nothing else. -/
def release (m : Message) (service : String) (origin : Origin) (attempt : Int) : M Unit := do
  if ← published (FailureRouter.toSource c.toDeployment env m origin service
      (c.settings.groupIdFor service) attempt) then
    commit env m

/-- `_give_up`. -/
def giveUp (m : Message) (origin : Origin) (service : String) (attempt : Int) (exc : Exn) :
    M Unit := do
  if ← published (FailureRouter.toDeadLetter c.toDeployment env m origin service
      (c.settings.groupIdFor service) attempt exc) then
    commit env m
  else
    rewind env m

/-- What `_handle_message` does with a message that is due. -/
def handleDue (m : Message) (headers : Headers) (origin : Origin) : M Unit := do
  let attempt := intHeader c.std headers hdrAttempt 2
  let service := (headers hdrService).getD ""
  if service ∉ c.specs then
    let known := ", ".intercalate (c.specs.insertionSort (· ≤ ·))
    giveUp c env m origin (if service = "" then "<unset>" else service) attempt
      (.nonRetryable s!"x-service header '{service}' names no registered service (known: {known})")
  else
    match c.decodeJson m.value with
    | .invalid text =>
      giveUp c env m origin service attempt (.nonRetryable s!"undecodable message: {text}")
    | .raises e => throw e
    | .event _ => release c env m service origin attempt

/-- `_handle_message`. -/
def handleMessage (m : Message) : M Unit := do
  let headers := decodeHeaders m
  let origin ← ofExcept (Origin.fromHeaders c.std headers m)
  match timeHeader c.std headers hdrRetryAt with
  | none => handleDue c env m headers origin
  | some due =>
    if ← ofExcept (isAfterNow env due) then defer env m due
    else handleDue c env m headers origin

/-- What happens next: a rebalance, or a turn of the loop on what `poll` returned. -/
inductive Label where
  | assign (tps : List TopicPartition)
  | revoke (tps : List TopicPartition)
  | idle
  | error (e : KafkaException) (fatal : Bool)
  | message (m : Message)

/-- One step of `run`. -/
def loopStep (l : Label) : M Unit := do
  modify fun w => { w with crashIn := env.crashIn }
  match l with
  | .assign tps => modify fun w => w.assign tps
  | .revoke tps =>
    onRevoke tps
    modify fun w => w.unassign tps
  | .idle => resumeDue env
  | .error e fatal =>
    resumeDue env
    ServiceConsumer.handleError e fatal
  | .message m =>
    resumeDue env
    receive m
    handleMessage c env m

/-- A new process: only what the broker holds is left, and each partition will be read from its
committed offset. -/
def restart (w : World) : World where
  broker := w.broker
  position := fun tp => (w.broker.committed tp).getD 0
  trace := w.trace

/-- A step of the worker under its container, which starts it again when it dies. -/
def step (c : Worker) (l : Env × Label) : M Unit := do
  try
    loopStep c l.1 l.2
  catch _ =>
    modify restart

end RetryWorker

end OrderService
