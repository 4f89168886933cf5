import OrderService.World

/-!
# The Kafka client

The calls the code makes to its producer and its consumer. `Env` says how the client, the clock, the
storage engine and the handler behave during one step; a call succeeds or raises as `Env` says,
except where the broker cannot agree: a transactional producer refuses a record when no transaction
is open and refuses to begin a second one.

Delivery reports come when the producer is served, by `poll` or `flush`, lane by lane (`serve`): the
first record queued for a topic-partition is acknowledged and leaves the queue, or leaves it with an
error.
-/

namespace OrderService

/-- What `json.loads` and `LifecycleEvent.model_validate` make of a message's value. -/
inductive Decoded where
  | event (e : LifecycleEvent)
  /-- A `ValueError`, `UnicodeDecodeError` or `AttributeError`. -/
  | invalid (text : String)
  | raises (e : Exn)

/-- What a process is built with: its settings and the third-party functions it calls.
`partitioner` is the producer's `consistent_random`, on the key's bytes. -/
structure Deployment where
  settings : Settings
  std : Stdlib
  decode : ByteArray → Decoded
  partitioner : Option ByteArray → Nat

/-- The partition an order's records are produced to. -/
def Deployment.partitionOf (d : Deployment) (orderId : String) : Nat :=
  d.partitioner (some orderId.toUTF8)

/-- A deployment whose topics have one partition, at the beginning of time. -/
def Deployment.onePartition (settings : Settings) (decode : ByteArray → Decoded) : Deployment where
  settings := settings
  std := {
    int := String.toInt?
    fromisoformat := fun text =>
      if text = "1970-01-01T00:00:00+00:00" then some (.aware 0)
      else if text = "1970-01-01T00:00:30+00:00" then some (.aware 30000000)
      else none
    isoformat := fun t =>
      if t = 30000000 then "1970-01-01T00:00:30+00:00" else "1970-01-01T00:00:00+00:00"
    fromtimestamp := fun _ => some "1970-01-01T00:00:00+00:00" }
  decode := decode
  partitioner := fun _ => 0

inductive EngineOp where
  | open | get | put | delete | destroy | rmtree | unlink | checkpoint
deriving DecidableEq, Repr

/-- How reading a changelog partition goes wrong, if it does: it stalls or errs after some
records. -/
inductive ReaderFault where
  | none
  | stalls (after : Nat)
  | fails (after : Nat) (text : String)

/-- The changelog reader of one partition: errors of the metadata and watermark calls, and of the
reading itself. -/
structure ReaderEnv where
  metadata : Option String := none
  watermarks : Option String := none
  fault : ReaderFault := .none

inductive ProduceError where
  | buffer
  | kafka (e : KafkaException)

/-- How the environment behaves during one step; `none` is success. `produceAgain` is the second
`produce` after a full queue, `servedBy…` the lanes served by `poll(0)`, by the flush that drains a
full queue and by the last flush of the step. `abortGap` is the number of offsets an aborted
transaction leaves out in a changelog partition. -/
structure Env where
  crashIn : Option Nat := none
  produce : Option ProduceError := none
  produceAgain : Option ProduceError := none
  fate : Option String := none
  servedByPoll : List TopicPartition := []
  servedByDrain : List TopicPartition := []
  servedByFlush : List TopicPartition := []
  beginTransaction : Option KafkaException := none
  sendOffsets : Option KafkaException := none
  commitTransaction : Option KafkaException := none
  abortTransaction : Option KafkaException := none
  abortGap : Nat → Nat := fun _ => 0
  commit : Option KafkaException := none
  seek : TopicPartition → Option KafkaException := fun _ => none
  fetchCommitted : Option KafkaException := none
  pause : Option KafkaException := none
  resume : TopicPartition → Option KafkaException := fun _ => none
  monotonic : Int := 0
  now : Int := 0
  handler : Except Exn Unit := .ok ()
  engine : EngineOp → Option String := fun _ => none
  reader : Nat → ReaderEnv := fun _ => {}

variable (d : Deployment) (env : Env)

/-- A client call: the process may die before it. -/
def tick : M Unit := do
  match (← get).crashIn with
  | none => pure ()
  | some 0 => throw .crash
  | some (n + 1) => modify fun w => { w with crashIn := some n }

def record (c : Call) : M Unit := modify fun w => { w with trace := w.trace ++ [c] }

/-! ## The producer -/

def stateError (text : String) : KafkaException := ⟨some .state, text⟩

/-- The broker has the record: it is visible on its topic, and the delivery callback of a changelog
record advances the store's position (`LocalStateStore._publish.on_delivery`). -/
def World.acknowledge (w : World) (q : Queued) : World :=
  let w := { w with broker := { w.broker with delivered := w.broker.delivered ++ [q] } }
  match q.payload with
  | .copy .. => w
  | .fold k v =>
    let log := w.broker.changelog q.partition
    { w with
      broker := { w.broker with
        changelog := Function.update w.broker.changelog q.partition (log.append (k, v)) }
      store := { w.store with
        position := Function.update w.store.position q.partition
          (some (max ((w.store.position q.partition).getD 0) (log.high + 1))) } }

/-- The first record queued for a topic-partition gets its delivery report. -/
def World.report (w : World) (tp : TopicPartition) : World :=
  match w.producer.queue.find? (·.lane = tp) with
  | none => w
  | some q =>
    let w := { w with producer := { w.producer with
      queue := w.producer.queue.eraseP (·.lane = tp) } }
    if q.fate.isNone then w.acknowledge q else w

def World.serve (w : World) (lanes : List TopicPartition) : World := lanes.foldl World.report w

/-- A record joins the open transaction, or waits in the queue if none is open. -/
def ProducerState.enqueue (p : ProducerState) (q : Queued) : ProducerState :=
  match p.txn with
  | some t => { p with txn := some { t with records := t.records ++ [q] } }
  | none => { p with queue := p.queue ++ [q] }

def produce (outcome : Option ProduceError) (q : Queued) : M Unit := do
  tick
  match outcome with
  | some .buffer =>
    record (.produce q false)
    throw .buffer
  | some (.kafka e) =>
    record (.produce q false)
    throw (.kafka e)
  | none =>
    if d.settings.exactlyOnce && (← get).producer.txn.isNone then
      record (.produce q false)
      throw (.kafka (stateError "no transaction is open"))
    else
      modify fun w => { w with producer := w.producer.enqueue q }
      record (.produce q true)

/-- `poll(0)`. -/
def pollProducer : M Unit := do
  tick
  modify fun w => w.serve env.servedByPoll

/-- `flush`: the number of records still queued when it returns. -/
def flush (lanes : List TopicPartition) : M Nat := do
  tick
  modify fun w => w.serve lanes
  return (← get).producer.queue.length

def beginTransaction : M Unit := do
  tick
  match env.beginTransaction, (← get).producer.txn with
  | none, none =>
    modify fun w => { w with producer := { w.producer with txn := some {} } }
    record (.beginTransaction true)
  | some e, _ =>
    record (.beginTransaction false)
    throw (.kafka e)
  | none, some _ =>
    record (.beginTransaction false)
    throw (.kafka (stateError "a transaction is already open"))

def sendOffsetsToTransaction (offsets : TopicPartition → Option Nat) : M Unit := do
  tick
  match env.sendOffsets, (← get).producer.txn with
  | none, some t =>
    modify fun w => { w with producer := { w.producer with
      txn := some { t with offsets := fun tp => (offsets tp).or (t.offsets tp) } } }
    record (.sendOffsets offsets true)
  | some e, _ =>
    record (.sendOffsets offsets false)
    throw (.kafka e)
  | none, none =>
    record (.sendOffsets offsets false)
    throw (.kafka (stateError "no transaction is open"))

/-- A committed transaction: its records are visible, each changelog partition it wrote has one
more control marker, and the offsets sent to it are the group's. -/
def World.commitRecords (w : World) (t : Transaction) : World :=
  let w := t.records.foldl World.acknowledge w
  { w with
    producer := { w.producer with txn := none }
    broker := { w.broker with
      changelog := fun p =>
        (w.broker.changelog p).skip (if entriesOn p t.records = [] then 0 else 1)
      committed := fun tp => (t.offsets tp).or (w.broker.committed tp) } }

def commitTransaction : M Unit := do
  tick
  match env.commitTransaction, (← get).producer.txn with
  | none, some t =>
    modify fun w => w.commitRecords t
    record (.commitTransaction true)
  | some e, _ =>
    record (.commitTransaction false)
    throw (.kafka e)
  | none, none =>
    record (.commitTransaction false)
    throw (.kafka (stateError "no transaction is open"))

def abortTransaction : M Unit := do
  tick
  match env.abortTransaction, (← get).producer.txn with
  | none, some _ =>
    modify fun w => { w with
      producer := { w.producer with txn := none }
      broker := { w.broker with
        changelog := fun p => (w.broker.changelog p).skip (env.abortGap p) } }
    record (.abortTransaction true)
  | some e, _ =>
    record (.abortTransaction false)
    throw (.kafka e)
  | none, none =>
    record (.abortTransaction false)
    throw (.kafka (stateError "no transaction is open"))

/-! ## The consumer -/

/-- `commit(message=message, asynchronous=False)`: everything up to the message is done. -/
def commitOffset (m : Message) : M Unit := do
  tick
  match env.commit with
  | none =>
    modify fun w => { w with broker := { w.broker with
      committed := Function.update w.broker.committed m.tp (some (m.offset + 1)) } }
    record (.commit m.tp (m.offset + 1) true)
  | some e =>
    record (.commit m.tp (m.offset + 1) false)
    throw (.kafka e)

def seek (tp : TopicPartition) (offset : Nat) : M Unit := do
  tick
  match env.seek tp with
  | none =>
    modify fun w => { w with position := Function.update w.position tp offset }
    record (.seek tp offset true)
  | some e =>
    record (.seek tp offset false)
    throw (.kafka e)

/-- `committed(partitions)`: each with its committed offset, `none` where nothing was committed. -/
def fetchCommitted (tps : List TopicPartition) : M (List (TopicPartition × Option Nat)) := do
  tick
  match env.fetchCommitted with
  | none =>
    let w ← get
    return tps.map fun tp => (tp, w.broker.committed tp)
  | some e => throw (.kafka e)

def pause (tp : TopicPartition) : M Unit := do
  tick
  match env.pause with
  | none => modify fun w => { w with paused := Function.update w.paused tp true }
  | some e => throw (.kafka e)

def resume (tp : TopicPartition) : M Unit := do
  tick
  match env.resume tp with
  | none => modify fun w => { w with paused := Function.update w.paused tp false }
  | some e => throw (.kafka e)

/-- `poll` returned a message: the read position is past it. -/
def receive (m : Message) : M Unit := do
  modify fun w => { w with
    position := Function.update w.position m.tp (m.offset + 1)
    handling := m.id }
  record (.poll m.id)

/-- The client adds partitions to the assignment: each is read from its committed offset, from the
beginning if it has none (`auto.offset.reset=earliest`). -/
def World.assign (w : World) (tps : List TopicPartition) : World := { w with
  assignment := w.assignment ++ tps
  position := fun tp => if tp ∈ tps then (w.broker.committed tp).getD 0 else w.position tp }

/-- The client drops partitions from the assignment, and that they were paused. -/
def World.unassign (w : World) (tps : List TopicPartition) : World := { w with
  assignment := w.assignment.filter (· ∉ tps)
  paused := fun tp => if tp ∈ tps then false else w.paused tp }

end OrderService
