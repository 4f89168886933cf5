import OrderService.Consumer.Dlq

/-!
# The dead-letter tool (`tools/dlq_replay.py`)

`snapshotTopic` records where every partition starts and ends, `replay` reads the topic up to there
and, with `--publish`, puts its messages back. What `poll` returns is a script, in which each message
comes with what will become of its republication, should there be one.
-/

namespace OrderService.DlqReplay

/-- `NON_RETRYABLE_ERROR_CLASSES`. -/
def nonRetryableErrorClasses : List String := [(Exn.nonRetryable "").className]

/-- `Snapshot`. -/
structure Snapshot where
  /-- Each partition with the offset it is read from. -/
  assignments : List (TopicPartition × Nat) := []
  endOffsets : List (Nat × Nat) := []
deriving DecidableEq

/-- One term of `message_count`. -/
def Snapshot.addCount (snapshot : Snapshot) (count : Nat) (assignment : TopicPartition × Nat) :
    Except Exn Nat :=
  match snapshot.endOffsets.lookup assignment.1.partition with
  | none => .error (.other "KeyError" (toString assignment.1.partition))
  | some last => .ok (count + if assignment.2 < last then last - assignment.2 else 0)

/-- `message_count`. -/
def Snapshot.messageCount (snapshot : Snapshot) : Except Exn Nat :=
  snapshot.assignments.foldlM snapshot.addCount 0

/-- Where a republished message is when the final flush returns. -/
inductive Fate where
  | acked
  /-- Its report carries an error; it has left the queue. -/
  | failed
  | queued
deriving DecidableEq, Repr

/-- A message `poll` returns. `refusal` is what `produce` raises for it, if it does. -/
structure Arrival where
  message : Message
  refusal : Option Exn := none
  fate : Fate := .acked

inductive Poll where
  | timeout
  | error (code : KafkaErrorCode)
  | message (a : Arrival)

/-- The cluster, as one run of the tool meets it. -/
structure Cluster where
  /-- `list_topics`: the topic's partitions or its error, if it is described at all. -/
  describe : Except KafkaException (Option (Except String (List Nat)))
  /-- `get_watermark_offsets` of a partition. -/
  watermarks : Nat → Except KafkaException (Nat × Nat)
  /-- What `poll` returns; after that it times out. -/
  polls : List Poll

/-- The iteration of `snapshot_topic`. An empty partition is left out of both lists. -/
def addPartition (cluster : Cluster) (topic : String) (snapshot : Snapshot) (partition : Nat) :
    Except Exn Snapshot :=
  match cluster.watermarks partition with
  | .error e => .error (.kafka e)
  | .ok (low, high) =>
    if high ≤ low then .ok snapshot
    else .ok {
      assignments := snapshot.assignments ++ [(⟨topic, partition⟩, low)]
      endOffsets := snapshot.endOffsets ++ [(partition, high)] }

/-- `snapshot_topic`. -/
def snapshotTopic (cluster : Cluster) (topic : String) : Except Exn Snapshot :=
  match cluster.describe with
  | .error e => .error (.kafka e)
  | .ok none => .error (.kafka ⟨none, s!"cannot read metadata for {topic}: None"⟩)
  | .ok (some (.error text)) =>
    .error (.kafka ⟨none, s!"cannot read metadata for {topic}: {text}"⟩)
  | .ok (some (.ok partitions)) => (sortedSet partitions).foldlM (addPartition cluster topic) {}

/-- The command line. -/
structure Args where
  publish : Bool := false
  service : Option String := none
  includePoison : Bool := false
  limit : Int := 0

/-- A record handed to the producer; `source` is the dead letter it was made from. -/
structure Republished where
  topic : String
  key : Option ByteArray
  value : Option ByteArray
  headers : List (String × Option ByteArray)
  source : MessageId
  fate : Fate

/-- The locals of `replay`, what it handed to the producer, and for the record what it polled and
which messages it counted as seen. -/
structure Run where
  pending : List (Nat × Nat) := []
  seen : Nat := 0
  matched : Nat := 0
  excluded : Nat := 0
  published : Nat := 0
  produced : List Republished := []
  polled : List Message := []
  examined : List Message := []

/-- How an iteration ends: with the next one, with a `break`, or with an exception. -/
inductive Control where
  | next
  | stop
  | raised (e : Exn)
deriving DecidableEq

variable (args : Args)

/-- `not args.service or headers.get(HDR_SERVICE) == args.service`. -/
def Args.admits (headers : Headers) : Bool :=
  match args.service with
  | none => true
  | some service => service = "" || headers hdrService = some service

/-- The end of an iteration: the limit. -/
def checkLimit (s : Run) : Run × Control :=
  if args.limit ≠ 0 ∧ args.limit ≤ s.matched then (s, .stop) else (s, .next)

/-- An iteration, from `seen += 1` on. -/
def inspect (a : Arrival) (s : Run) : Run × Control :=
  let m := a.message
  let s := { s with seen := s.seen + 1, examined := s.examined ++ [m] }
  let headers := decodeHeaders m
  if !args.admits headers then (s, .next)
  else
    let s := { s with matched := s.matched + 1 }
    if (headers hdrErrorClass).any (· ∈ nonRetryableErrorClasses) && !args.includePoison then
      checkLimit args { s with excluded := s.excluded + 1 }
    else if args.publish then
      match headers hdrOriginalTopic with
      -- `continue`: the limit is not looked at
      | none | some "" => (s, .next)
      | some target =>
        match a.refusal with
        | some e => (s, .raised e)
        | none => checkLimit args { s with
            produced := s.produced ++ [⟨target, m.key, m.value, [], m.id, a.fate⟩]
            published := s.published + 1 }
    else checkLimit args s

/-- The iteration for a message. -/
def examine (a : Arrival) (s : Run) : Run × Control :=
  let m := a.message
  let s := { s with polled := s.polled ++ [m] }
  match s.pending.lookup m.partition with
  | none => (s, .next)
  | some last =>
    let s :=
      if last ≤ m.offset + 1 then { s with pending := s.pending.filter (·.1 ≠ m.partition) } else s
    if m.offset < last then inspect args a s else (s, .next)

/-- The loop of `replay`: the run it leaves, and what it raised. -/
def loop : List Poll → Run → Run × Option Exn
  | [], s => (s, none)
  | poll :: polls, s =>
    if s.pending = [] then (s, none)
    else
      match poll with
      | .timeout => (s, none)
      | .error code => if code = .partitionEof then loop polls s else (s, none)
      | .message a =>
        match examine args a s with
        | (s, .next) => loop polls s
        | (s, .stop) => (s, none)
        | (s, .raised e) => (s, some e)

/-- What a run reports. -/
inductive Verdict where
  /-- "... message(s) were NOT delivered — rerun to finish" -/
  | undelivered (remaining : Nat)
  /-- "... republished to their original topics" -/
  | republished (published : Nat)
  | inspected
deriving DecidableEq, Repr

def Verdict.exitCode : Verdict → Nat
  | .undelivered _ => 1
  | .republished _ | .inspected => 0

/-- `producer.flush(30.0)`: the number of messages still queued. -/
def remaining (s : Run) : Nat := (s.produced.filter (·.fate = .queued)).length

/-- `replay`: what it returns or raises, and the run. -/
def replay (settings : Settings) (cluster : Cluster) : Except Exn Verdict × Run :=
  match snapshotTopic cluster settings.dlqTopic with
  | .error e => (.error e, {})
  | .ok snapshot =>
    match snapshot.messageCount with
    | .error e => (.error e, {})
    | .ok _ =>
      match loop args cluster.polls { pending := snapshot.endOffsets } with
      | (s, some e) => (.error e, s)
      | (s, none) =>
        if args.publish then
          if remaining s ≠ 0 then (.ok (.undelivered (remaining s)), s)
          else (.ok (.republished s.published), s)
        else (.ok .inspected, s)

/-- The exit status of the process: an exception that nothing catches is a failure too. -/
def exitStatus : Except Exn Verdict → Nat
  | .error _ => 1
  | .ok verdict => verdict.exitCode

end OrderService.DlqReplay
