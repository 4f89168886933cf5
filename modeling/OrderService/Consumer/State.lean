import OrderService.Client

/-!
# Where the folded state lives (`state.py`)

`StateStore` is the protocol of the two backends: `localStateStore`, durable through its changelog
topic, and `memoryStateStore`. A storage engine error, an incomplete replay or a changelog record
that cannot be enqueued raises `StateStoreUnavailable`.
-/

namespace OrderService

/-- `StateStore`. -/
structure StateStore where
  load : Nat → String → M (Option OrderFold)
  save : Nat → String → OrderFold → String → M SaveOutcome
  delete : Nat → String → M Bool
  restore : List Nat → M Unit
  flush : M Unit
  forget : List Nat → M Unit
  discard : List Nat → M Unit
  held : M (List Nat)

/-- What `poll` of the changelog reader returns, the final `None`s left out. -/
inductive ReaderEvent where
  | message (offset : Nat) (key : Option ByteArray) (value : Option Row)
  | partitionEof
  | error (text : String)

def ReaderEvent.ofRecord (r : KeyedLog.LogRecord String Row) : ReaderEvent :=
  .message r.offset (some r.key.toUTF8) r.value

/-- The reader assigned at offset `start`: the visible records in order, then the end of the
partition, unless reading goes wrong. -/
def readerEvents (fault : ReaderFault) (log : KeyedLog String Row) (start : Nat) :
    List ReaderEvent :=
  let messages := (log.records.filter (start ≤ ·.offset)).map ReaderEvent.ofRecord
  match fault with
  | .none => messages ++ [.partitionEof]
  | .stalls after => messages.take after
  | .fails after text => messages.take after ++ [.error text]

/-- `_key_of`. -/
def keyOfRecord (key : Option ByteArray) : Except Exn String :=
  match key with
  | none => .error (.stateStoreUnavailable "null key: is that topic compacted?")
  | some bytes =>
    match String.fromUTF8? bytes with
    | some s => .ok s
    | none => .error .unicodeDecode

namespace LocalStateStore

variable (d : Deployment) (groupId : String) (env : Env)

def topic : String := d.settings.changelogTopicFor groupId

def pathFor (partition : Nat) : String := s!"{d.settings.stateDir}/{groupId}/{partition}"

/-- A call into the storage engine or the file system: the process may die before it. -/
def engine (op : EngineOp) (what : String) : M Unit := do
  tick
  match env.engine op with
  | none => pure ()
  | some exc => throw (.stateStoreUnavailable s!"{what}: {exc}")

/-- `_store_for`: open the partition's store, creating its directory if it is missing. -/
def storeFor (partition : Nat) : M Unit := do
  if partition ∈ (← get).store.stores then pure ()
  else
    engine env .open s!"state backend 'local' cannot open {pathFor d groupId partition}"
    modify fun w => { w with store := { w.store with
      stores := partition :: w.store.stores
      disk := Function.update w.store.disk partition (some (w.store.table partition)) } }

/-- `_read`. -/
def read (partition : Nat) (orderId : String) : M (Option Record) := do
  storeFor d groupId env partition
  engine env .get s!"reading {orderId}"
  return ((← get).store.table partition orderId).map (·.decode orderId)

/-- Put or delete one key of an open store. -/
def setRow (partition : Nat) (orderId : String) (value : Option Row) : M Unit :=
  modify fun w => { w with store := { w.store with
    disk := Function.update w.store.disk partition
      (some (Function.update (w.store.table partition) orderId value)) } }

/-- The changelog record of one write. -/
def changelogRecord (handling : MessageId) (orderId : String) (value : Option Row) : Queued where
  topic := topic d groupId
  partition := d.partitionOf orderId
  payload := .fold orderId value
  source := handling
  fate := env.fate

/-- `_publish`. -/
def publish (orderId : String) (value : Option Row) : M Unit := do
  let q := changelogRecord d groupId env (← get).handling orderId value
  try
    produce d env.produce q
  catch e =>
    match e with
    | .buffer =>
      -- the local queue is full: serve delivery reports and try once more
      let _ ← OrderService.flush env.servedByDrain
      try
        produce d env.produceAgain q
      catch e =>
        match e with
        | .buffer | .kafka _ =>
          throw (.stateStoreUnavailable s!"changelog for {orderId} could not be enqueued")
        | e => throw e
    | .kafka _ => throw (.stateStoreUnavailable s!"changelog for {orderId} could not be enqueued")
    | e => throw e
  pollProducer env

/-- `_write`. -/
def write (partition : Nat) (orderId : String) (value : Row) : M Unit := do
  storeFor d groupId env partition
  engine env .put s!"writing {orderId}"
  setRow partition orderId (some value)
  publish d groupId env orderId (some value)

def load (partition : Nat) (orderId : String) : M (Option OrderFold) := do
  let record ← read d groupId env partition orderId
  return record.map (·.fold)

def save (partition : Nat) (orderId : String) (fold : OrderFold) (eventId : String) :
    M SaveOutcome := do
  let previous ← read d groupId env partition orderId
  let (record, outcome) := Record.next previous fold eventId
  write d groupId env partition orderId record.encode
  return outcome

def delete (partition : Nat) (orderId : String) : M Bool := do
  storeFor d groupId env partition
  engine env .get s!"deleting {orderId}"
  let existed := ((← get).store.table partition orderId).isSome
  if existed then
    engine env .delete s!"deleting {orderId}"
    setRow partition orderId none
  -- published even when nothing was present, for whoever rebuilds from here
  publish d groupId env orderId none
  return existed

def flush : M Unit := do
  let remaining ← OrderService.flush env.servedByFlush
  if remaining ≠ 0 then
    throw (.stateStoreUnavailable s!"{remaining} changelog record(s) unacknowledged")

/-! ## Rebuilding -/

/-- `_destroy`: close and erase the store; the checkpoint file stays. -/
def destroy (partition : Nat) : M Unit := do
  modify fun w => { w with store := { w.store with
    stores := w.store.stores.filter (· ≠ partition) } }
  if ((← get).store.disk partition).isSome then
    engine env .destroy s!"cannot reset {pathFor d groupId partition} for a full rebuild"
    modify fun w => { w with store := { w.store with
      disk := Function.update w.store.disk partition none } }

/-- `_start_offset`. -/
def startOffset (partition low : Nat) : M Nat := do
  match d.settings.stateRebuild, (← get).store.checkpoint partition with
  | .checkpoint, some c => return max c low
  | _, _ =>
    destroy d groupId env partition
    return low

/-- The loop of `_drain`: apply what the reader delivers until the watermark is reached. -/
def drainLoop (partition high : Nat) :
    List ReaderEvent → (nextOffset records : Nat) → (live : List String) → M (Nat × Nat)
  | events, nextOffset, records, live =>
    if nextOffset < high then
      match events with
      | [] => throw (.stateStoreUnavailable s!"restoring stalled at {nextOffset} of {high}")
      | .partitionEof :: events => drainLoop partition high events nextOffset records live
      | .error text :: _ => throw (.stateStoreUnavailable s!"restoring: {text}")
      | .message offset key value :: events => do
        let orderId ← liftExcept (keyOfRecord key)
        match value with
        | none =>
          engine env .get s!"restoring at offset {offset}"
          if ((← get).store.table partition orderId).isSome then
            engine env .delete s!"restoring at offset {offset}"
            setRow partition orderId none
          drainLoop partition high events (offset + 1) (records + 1) (live.erase orderId)
        | some v =>
          engine env .put s!"restoring at offset {offset}"
          setRow partition orderId (some v)
          drainLoop partition high events (offset + 1) (records + 1) (live.insert orderId)
    else pure (records, live.length)
where
  liftExcept {α : Type} : Except Exn α → M α
    | .ok a => pure a
    | .error e => throw e

/-- `_drain`: the records read, and the number of keys left live by them. -/
def drain (partition start high : Nat) (events : List ReaderEvent) : M (Nat × Nat) := do
  storeFor d groupId env partition
  drainLoop env partition high events start 0 []

/-- `_restore_one`. -/
def restoreOne (partition : Nat) : M Unit := do
  match (env.reader partition).metadata with
  | some exc => throw (.stateStoreUnavailable s!"cannot fetch metadata: {exc}")
  | none => pure ()
  match (env.reader partition).watermarks with
  | some exc => throw (.stateStoreUnavailable s!"cannot read the end of the partition: {exc}")
  | none => pure ()
  let log := (← get).broker.changelog partition
  let start ← startOffset d groupId env partition log.low
  -- opened whether or not there is anything to replay
  storeFor d groupId env partition
  if start < log.high then
    let _ ← drain d groupId env partition start log.high
      (readerEvents (env.reader partition).fault log start)
  modify fun w => { w with store := { w.store with
    position := Function.update w.store.position partition (some log.high) } }

def restore (partitions : List Nat) : M Unit := do
  record (.restore partitions)
  (sortedSet partitions).forM (restoreOne d groupId env)

/-! ## Releasing -/

/-- `_write_checkpoint`: a failed write is only logged. -/
def writeCheckpoint (partition : Nat) : M Unit := do
  match (← get).store.position partition with
  | none => pure ()
  | some position =>
    tick
    if (env.engine .checkpoint).isNone then
      modify fun w => { w with store := { w.store with
        checkpoint := Function.update w.store.checkpoint partition (some position) } }

/-- One partition of `forget`. -/
def forgetOne (partition : Nat) : M Unit := do
  if partition ∈ (← get).store.stores then
    modify fun w => { w with store := { w.store with
      stores := w.store.stores.filter (· ≠ partition) } }
    writeCheckpoint env partition

def forget (partitions : List Nat) : M Unit := do
  if partitions = [] then pure ()
  else
    let _ ← OrderService.flush env.servedByFlush
    (sortedSet partitions).forM (forgetOne env)

/-- One partition of `discard`. -/
def discardOne (partition : Nat) : M Unit := do
  modify fun w => { w with store := { w.store with
    stores := w.store.stores.filter (· ≠ partition)
    position := Function.update w.store.position partition none } }
  if ((← get).store.disk partition).isNone then
    throw (.stateStoreUnavailable s!"could not discard partition {partition}: no such directory")
  engine env .rmtree s!"could not discard partition {partition}"
  modify fun w => { w with store := { w.store with
    disk := Function.update w.store.disk partition none } }
  engine env .unlink s!"could not discard partition {partition}"
  modify fun w => { w with store := { w.store with
    checkpoint := Function.update w.store.checkpoint partition none } }

def discard (partitions : List Nat) : M Unit := do
  record (.discard partitions)
  (sortedSet partitions).forM (discardOne env)

def held : M (List Nat) := do return sortedSet (← get).store.stores

def close : M Unit := do forget env (← get).store.stores

end LocalStateStore

def localStateStore (d : Deployment) (groupId : String) (env : Env) : StateStore where
  load := LocalStateStore.load d groupId env
  save := LocalStateStore.save d groupId env
  delete := LocalStateStore.delete d groupId env
  restore := LocalStateStore.restore d groupId env
  flush := LocalStateStore.flush env
  forget := LocalStateStore.forget env
  discard := LocalStateStore.discard env
  held := LocalStateStore.held

/-! ## The in-process backend -/

namespace MemoryStateStore

def load (partition : Nat) (orderId : String) : M (Option OrderFold) := do
  return (← get).memory.folds partition orderId

/-- Last write wins; the event id is ignored. -/
def save (partition : Nat) (orderId : String) (fold : OrderFold) (_eventId : String) :
    M SaveOutcome := do
  let handled := ((← get).memory.handled partition orderId).getD 0 + 1
  modify fun w => { w with memory := {
    partitions := w.memory.partitions.insert partition
    folds := Function.update w.memory.folds partition
      (Function.update (w.memory.folds partition) orderId (some fold))
    handled := Function.update w.memory.handled partition
      (Function.update (w.memory.handled partition) orderId (some handled)) } }
  return ⟨true, handled⟩

def delete (partition : Nat) (orderId : String) : M Bool := do
  let removed := ((← get).memory.folds partition orderId).isSome
  modify fun w => { w with memory := { w.memory with
    folds := Function.update w.memory.folds partition
      (Function.update (w.memory.folds partition) orderId none)
    handled := Function.update w.memory.handled partition
      (Function.update (w.memory.handled partition) orderId none) } }
  return removed

def forget (partitions : List Nat) : M Unit :=
  modify fun w => { w with memory := {
    partitions := w.memory.partitions.filter (· ∉ partitions)
    folds := fun p => if p ∈ partitions then fun _ => none else w.memory.folds p
    handled := fun p => if p ∈ partitions then fun _ => none else w.memory.handled p } }

def held : M (List Nat) := do return sortedSet (← get).memory.partitions

end MemoryStateStore

/-- 002's in-process dictionaries: nothing is durable and nothing is rebuilt. -/
def memoryStateStore : StateStore where
  load := MemoryStateStore.load
  save := MemoryStateStore.save
  delete := MemoryStateStore.delete
  restore := fun _ => pure ()
  flush := pure ()
  forget := MemoryStateStore.forget
  discard := MemoryStateStore.forget
  held := MemoryStateStore.held

/-- The store `STATE_BACKEND` selects (`main.py`). -/
def buildStateStore (backend : StateBackend) (d : Deployment) (groupId : String) (env : Env) :
    StateStore :=
  match backend with
  | .memory => memoryStateStore
  | .local => localStateStore d groupId env

end OrderService
