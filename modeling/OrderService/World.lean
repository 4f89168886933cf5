import OrderService.Config
import OrderService.Consumer.Fold
import OrderService.Lib.Eff
import OrderService.Lib.KeyedLog

/-!
# The state of a process and of the broker

`World`: the broker as the model needs it (the changelog partitions, what was acknowledged, the
group's committed offsets) and one process (its producer, its consumer handle and its Python
objects: a service consumer uses `store` or `memory` and `committer`, the retry worker `deferred`).
`M` is the effect of the code: it reads and writes the `World` and may raise an `Exn`; what was
written before a raise stays.

`trace` records the client calls, oldest first, and `reported` the violations logged. `crashIn` is
the number of calls the process lives to make (`none`: it does not die); each step sets it, so the
runs for every value of it cover every crash point.
-/

namespace OrderService

/-- `KafkaError.code()`, as far as the code tells codes apart. -/
inductive KafkaErrorCode where
  | fenced | invalidProducerEpoch | producerFenced | partitionEof | state
  | other (code : Int)
deriving DecidableEq, Repr

/-- `KafkaException`; `code` is that of the `KafkaError` it carries, if it carries one. -/
structure KafkaException where
  code : Option KafkaErrorCode
  text : String
deriving DecidableEq, Repr

/-- What the code raises. `crash` is the death of the process, which no handler sees. -/
inductive Exn where
  | kafka (e : KafkaException)
  | buffer
  | stateStoreUnavailable (text : String)
  | failurePublishFailed (text : String)
  | producerFenced (text : String)
  | nonRetryable (text : String)
  | retryable (text : String)
  | unicodeDecode
  | other (cls text : String)
  | crash
deriving DecidableEq, Repr

structure TopicPartition where
  topic : String
  partition : Nat
deriving DecidableEq, Repr

/-- Where a message is. -/
structure MessageId where
  tp : TopicPartition
  offset : Nat
deriving DecidableEq, Repr

-- Core's instance, whichever others are in scope.
local instance decidableEqBytes : DecidableEq ByteArray := ByteArray.instDecidableEq

/-- A polled message. `timestamp` is in milliseconds, `-1` if there is none. -/
structure Message where
  topic : String
  partition : Nat
  offset : Nat
  key : Option ByteArray
  value : Option ByteArray
  headers : List (String × Option ByteArray) := []
  timestamp : Int := -1
deriving DecidableEq

def Message.tp (m : Message) : TopicPartition := ⟨m.topic, m.partition⟩

def Message.id (m : Message) : MessageId := ⟨m.tp, m.offset⟩

/-- What is produced: a changelog record (`none` deletes the order) or a copy of a message. -/
inductive Payload where
  | fold (orderId : String) (value : Option Row)
  | copy (key value : Option ByteArray) (headers : List (String × String))
deriving DecidableEq

/-- A record handed to the producer. `source` is the message it was produced on behalf of, `fate`
the error its delivery report will carry. -/
structure Queued where
  topic : String
  partition : Nat
  payload : Payload
  source : MessageId
  fate : Option String
deriving DecidableEq

def Queued.lane (q : Queued) : TopicPartition := ⟨q.topic, q.partition⟩

def Queued.isFold (q : Queued) : Bool :=
  match q.payload with
  | .fold .. => true
  | .copy .. => false

/-- The changelog entry of a record for changelog partition `p`, if it is one. -/
def Queued.entryOn (p : Nat) (q : Queued) : Option (KeyedLog.Entry String Row) :=
  match q.payload with
  | .fold k v => if q.partition = p then some (k, v) else none
  | .copy .. => none

/-- The changelog entries for partition `p` among records, in order. -/
def entriesOn (p : Nat) (qs : List Queued) : List (KeyedLog.Entry String Row) :=
  qs.filterMap (Queued.entryOn p)

/-- An open transaction: its records and the offsets sent to it. -/
structure Transaction where
  records : List Queued := []
  offsets : TopicPartition → Option Nat := fun _ => none

/-- `queue`: enqueued and not yet acknowledged. Records of a transaction are in `txn`. -/
structure ProducerState where
  queue : List Queued := []
  txn : Option Transaction := none

/-- `changelog`: the visible records of each changelog partition. `delivered`: what was
acknowledged (or committed), in order. `committed`: the offsets committed for the group. -/
structure Broker where
  changelog : Nat → KeyedLog String Row := fun _ => .empty
  delivered : List Queued := []
  committed : TopicPartition → Option Nat := fun _ => none

/-- `LocalStateStore`: the open stores (`_stores`), the directories, the checkpoint files and
`_position`. -/
structure LocalStore where
  stores : List Nat := []
  disk : Nat → Option Table := fun _ => none
  checkpoint : Nat → Option Nat := fun _ => none
  position : Nat → Option Nat := fun _ => none

/-- `MemoryStateStore`: the keys of `_folds`, its contents, and `_handled`. -/
structure MemoryStore where
  partitions : List Nat := []
  folds : Nat → String → Option OrderFold := fun _ _ => none
  handled : Nat → String → Option Nat := fun _ _ => none

/-- `TransactionalCommitter`. -/
structure CommitterState where
  isOpen : Bool := false
  messages : Nat := 0
  openedAt : Int := 0
  touched : List Nat := []
  offsets : TopicPartition → Option Nat := fun _ => none

/-- A call to a client or to the store, with whether it succeeded. -/
inductive Call where
  | poll (message : MessageId)
  | beginTransaction (ok : Bool)
  | produce (record : Queued) (ok : Bool)
  | sendOffsets (offsets : TopicPartition → Option Nat) (ok : Bool)
  | commitTransaction (ok : Bool)
  | abortTransaction (ok : Bool)
  | commit (tp : TopicPartition) (offset : Nat) (ok : Bool)
  | seek (tp : TopicPartition) (offset : Nat) (ok : Bool)
  | discard (partitions : List Nat)
  | restore (partitions : List Nat)

structure World where
  broker : Broker := {}
  producer : ProducerState := {}
  assignment : List TopicPartition := []
  position : TopicPartition → Nat := fun _ => 0
  paused : TopicPartition → Bool := fun _ => false
  store : LocalStore := {}
  memory : MemoryStore := {}
  committer : CommitterState := {}
  deferred : TopicPartition → Option Int := fun _ => none
  handling : MessageId := ⟨⟨"", 0⟩, 0⟩
  trace : List Call := []
  reported : List Violation := []
  crashIn : Option Nat := none

abbrev M := Eff World Exn

/-- The contents of partition `p`'s directory; a missing one is empty. -/
def LocalStore.table (s : LocalStore) (p : Nat) : Table := (s.disk p).getD fun _ => none

end OrderService
