import OrderService.Consumer.Dlq
import OrderService.Consumer.State
import OrderService.Consumer.Transactions

/-!
# The consume loop (`runtime.py`, `failures.py`)

`handleMessage` decides which of its exits a message takes; `step` is one turn of the loop or one
rebalance callback; `run` is the loop over a sequence of them. Of the log lines only the violations
are kept (`World.reported`).
-/

namespace OrderService

/-- `key_of`. -/
def keyOf (m : Message) : String :=
  match m.key with
  | none => "<null>"
  | some bytes => (String.fromUTF8? bytes).getD "<undecodable-key>"

/-- `_attempt_of`. -/
def attemptOf (std : Stdlib) (headers : Headers) : Int :=
  match headers hdrAttempt with
  | none => 1
  | some text =>
    match std.int text with
    | none => 1
    | some n => max 1 n

/-- `failures.maybe_fail`. -/
def maybeFail (s : Settings) (event : LifecycleEvent) (attempt : Int) : Except Exn Unit :=
  if s.handlerFailureMode = .none then .ok ()
  else if s.failingOrders ≠ [] ∧ event.orderId ∉ s.failingOrders then .ok ()
  else if s.handlerFailureMode = .poison then
    .error (.nonRetryable s!"HANDLER_FAILURE_MODE=poison: {event.orderId} seq {event.sequence} can never be processed")
  else if attempt ≤ s.handlerFailureAttempts then
    .error (.retryable s!"HANDLER_FAILURE_MODE=transient: {event.orderId} seq {event.sequence} failed attempt {attempt} of {s.handlerFailureAttempts}")
  else .ok ()

/-- `classify(exc) is not NonRetryableError`. -/
def Exn.isRetryable : Exn → Bool
  | .nonRetryable _ => false
  | _ => true

/-- One service: its deployment, its name, the event types it has a handler for. -/
structure Service extends Deployment where
  name : String
  handlers : List EventType

def Service.groupId (c : Service) : String := c.settings.groupIdFor c.name

namespace ServiceConsumer

variable (c : Service) (store : StateStore) (env : Env)

/-- `self._commits`. -/
def commits : CommitStrategy := buildCommitStrategy c.toDeployment c.groupId env

/-- `_commit`. -/
def commit (m : Message) : M Unit := (commits c env).note m

/-- `_rewind`. -/
def rewind (m : Message) : M Unit := do
  try
    seek env m.tp m.offset
  catch e =>
    match e with
    | .kafka _ => pure ()
    | e => throw e

/-- The publication `_route_failure` makes: to the retry topic while the budget lasts, else to the
dead-letter topic. -/
def publishFailure (m : Message) (exc : Exn) (origin : Origin) (attempt : Int) : M Unit := do
  if exc.isRetryable && attempt < c.settings.retryMaxAttempts then
    let _ ← FailureRouter.toRetry c.toDeployment env m origin c.name c.groupId (attempt + 1) exc
  else
    FailureRouter.toDeadLetter c.toDeployment env m origin c.name c.groupId attempt exc

/-- `_route_failure`. -/
def routeFailure (m : Message) (exc : Exn) (attempt : Int) : M Unit := do
  let origin ← ofExcept (Origin.fromMessage c.std m)
  let published ← try
      publishFailure c env m exc origin attempt
      pure true
    catch e =>
      match e with
      | .failurePublishFailed _ => pure false
      | e => throw e
  if published then commit c env m else rewind env m

/-- `_crash_if_configured`. -/
def crashIfConfigured (point : StateCrashPoint) : M Unit :=
  if c.settings.stateCrashAfter = point then do
    modify fun w => { w with crashIn := some 0 }
    throw .crash
  else pure ()

/-- `_save_fold`. -/
def saveFold (event : LifecycleEvent) (fold : OrderFold) (partition : Nat) : M Unit := do
  let _ ← store.save partition event.orderId fold event.eventId

/-- `_persist_and_commit`. -/
def persistAndCommit (m : Message) (event : LifecycleEvent) (fold : OrderFold) (partition : Nat) :
    M Unit := do
  if c.settings.exactlyOnce then
    saveFold store event fold partition
    commit c env m
    crashIfConfigured c .transactionOpen
  else if c.settings.stateWriteOrder = .offsetFirst then
    commit c env m
    crashIfConfigured c .offsetCommit
    saveFold store event fold partition
  else
    saveFold store event fold partition
    store.flush
    crashIfConfigured c .stateWrite
    commit c env m

/-- `_handle_tombstone`. -/
def handleTombstone (m : Message) (partition : Nat) : M Unit := do
  let _ ← store.delete partition (keyOf m)
  commit c env m

/-- `_decode`. -/
def decode (value : ByteArray) : Except Exn LifecycleEvent :=
  match c.decode value with
  | .event e => .ok e
  | .invalid text => .error (.nonRetryable s!"undecodable message: {text}")
  | .raises e => .error e

/-- The service's handler for an event, after the failure lever. -/
def runHandler (event : LifecycleEvent) (attempt : Int) : Except Exn Unit := do
  maybeFail c.settings event attempt
  if event.eventType ∈ c.handlers then env.handler

/-- A retry put back on the source topic for another service. -/
def isForeignRetry (headers : Headers) : Bool :=
  match headers hdrRetryTarget with
  | none => false
  | some target => target ≠ c.name

/-- The end of `_handle_message`: the handler, then the failure route or the fold write. -/
def dispatch (m : Message) (event : LifecycleEvent) (updated : OrderFold) (attempt : Int) : M Unit :=
  match runHandler c env event attempt with
  | .error .crash => throw .crash
  | .error (.stateStoreUnavailable text) => throw (.stateStoreUnavailable text)
  | .error exc => routeFailure c env m exc attempt
  | .ok () => persistAndCommit c store env m event updated m.partition

/-- The part of `_handle_message` after the event is decoded. -/
def handleEvent (m : Message) (event : LifecycleEvent) (attempt : Int) : M Unit := do
  -- the log line decodes the key
  match m.key with
  | some bytes => if (String.fromUTF8? bytes).isNone then throw .unicodeDecode
  | none => pure ()
  let current ← store.load m.partition event.orderId
  let (updated, violations) := applyEvent current event
  let redelivered := match current with
    | none => false
    | some fold => event.sequence ≤ fold.lastSequence
  unless redelivered do
    modify fun w => { w with reported := w.reported ++ violations }
  dispatch c store env m event updated attempt

/-- `_handle_message`. -/
def handleMessage (m : Message) : M Unit := do
  match m.value with
  | none => handleTombstone c store env m m.partition
  | some value =>
    if m.topic = c.settings.orderSnapshotTopic then commit c env m
    else
      let headers := decodeHeaders m
      let attempt := attemptOf c.std headers
      if isForeignRetry c headers then commit c env m
      else
        match decode c value with
        | .error (.nonRetryable text) => routeFailure c env m (.nonRetryable text) attempt
        | .error e => throw e
        | .ok event => handleEvent c store env m event attempt

/-! ## Settling and repairing -/

/-- `_rewind_partition`. -/
def rewindPartition (partition : Nat) : M Unit := do
  let assigned := (← get).assignment.filter (·.partition = partition)
  if assigned = [] then pure ()
  else
    try
      let offsets ← fetchCommitted env assigned
      offsets.forM fun (tp, offset) =>
        match offset with
        -- nothing committed: the position is left alone
        | none => pure ()
        | some offset => seek env tp offset
    catch e =>
      match e with
      | .kafka _ => pure ()
      | e => throw e

/-- `_abort_and_repair`. -/
def abortAndRepair (reason : String) : M Unit := do
  let touched ← (commits c env).abort reason
  if touched = [] then pure ()
  else
    store.discard touched
    store.restore touched
    (sortedSet touched).forM (rewindPartition env)

/-- `_settle`. -/
def settle : M Unit := do
  try
    (commits c env).maybeCommit
  catch e =>
    match e with
    | .kafka _ => abortAndRepair c store env "commit failed"
    | e => throw e

/-! ## Rebalance callbacks -/

/-- `_forget`. -/
def forget (tps : List TopicPartition) : M Unit := store.forget (tps.map (·.partition))

/-- `_on_assign`. -/
def onAssign (tps : List TopicPartition) : M Unit := store.restore (tps.map (·.partition))

/-- `_on_revoke`. -/
def onRevoke (tps : List TopicPartition) : M Unit := do
  let _ ← (commits c env).abort "partitions revoked"
  forget store tps

/-- `_on_lost`. -/
def onLost (tps : List TopicPartition) : M Unit := do
  let _ ← (commits c env).abort "partitions lost"
  forget store tps

/-! ## The loop -/

/-- What happens next: a rebalance (its callback runs inside `poll`, and the client moves the
assignment), or a turn of the loop on what `poll` returned. -/
inductive Label where
  | assign (tps : List TopicPartition)
  | revoke (tps : List TopicPartition)
  | lost (tps : List TopicPartition)
  | idle
  | error (e : KafkaException) (fatal : Bool)
  | message (m : Message)

/-- `_handle_error`. -/
def handleError (e : KafkaException) (fatal : Bool) : M Unit :=
  if e.code = some .partitionEof then pure ()
  else if fatal then throw (.kafka e)
  else pure ()

/-- One step of `run`. -/
def step (l : Label) : M Unit := do
  modify fun w => { w with crashIn := env.crashIn }
  match l with
  | .assign tps =>
    onAssign store tps
    modify fun w => w.assign tps
  | .revoke tps =>
    onRevoke c store env tps
    modify fun w => w.unassign tps
  | .lost tps =>
    onLost c store env tps
    modify fun w => w.unassign tps
  | .idle => settle c store env
  | .error e fatal => handleError e fatal
  | .message m =>
    receive m
    handleMessage c store env m
    settle c store env

/-- A step on the durable store. -/
def localStep (c : Service) (l : Env × Label) : M Unit :=
  step c (localStateStore c.toDeployment c.groupId l.1) l.1 l.2

/-- A new process: the broker and the disk are left, and a partition will be read from its committed
offset once it is assigned. -/
def restart (w : World) : World where
  broker := w.broker
  store := { disk := w.store.disk, checkpoint := w.store.checkpoint }
  trace := w.trace

/-- A step of the service under its container, which starts it again when it dies. -/
def lifeStep (c : Service) (backend : StateBackend) (l : Env × Label) : M Unit := do
  try
    step c (buildStateStore backend c.toDeployment c.groupId l.1) l.1 l.2
  catch _ =>
    modify restart

/-- The same on the durable store, when records the producer held as the process died may still reach the
broker: the first ones queued for the topic-partitions `l.2`. -/
def lossyStep (c : Service) (l : (Env × Label) × List TopicPartition) : M Unit := do
  try
    localStep c l.1
  catch _ =>
    modify fun w => restart (w.serve l.2)

/-- `run`, on the durable store, over a sequence of steps; `env` is how the client behaves in the
`finally` block. -/
def run (c : Service) (ls : List (Env × Label)) (env : Env) : M Unit := do
  try
    ls.forM (localStep c)
  finally
    (commits c env).close

end ServiceConsumer

end OrderService
