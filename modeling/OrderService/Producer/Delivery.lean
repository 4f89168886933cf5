import OrderService.Lib.Threads
import OrderService.Producer.KafkaProducer
import OrderService.World

/-!
# Waiting for a delivery report (`producer/kafka_producer.py`)

Every call of `_publish_blocking` has a dict and an event of its own. The delivery callback fills the
dict and then sets the event, in whichever thread serves the client; the caller waits for the event, for
a while. `Wire` is what the callers share: the client's queue, the partitions, and the dicts and events.
Each call is a program of a `Pool`; `Happening` is what goes on meanwhile, the broker's part included.
-/

namespace OrderService.Delivery

open Threads

/-- The dict `outcome`. -/
structure Outcome where
  error : Option String := none
  result : Option DeliveryResult := none
deriving DecidableEq

/-- What `_produce_keyed` is given. A tombstone has no value. -/
structure Outgoing where
  topic : String
  key : String
  value : Option ByteArray

/-- A record in a partition; `call` is the call that produced it, unless it came from elsewhere. -/
structure Landed (ι : Type) where
  call : Option ι
  key : String
  value : Option ByteArray

/-- A record the client has taken. `awaited`: its callback fills a dict. `place`: where it is, once the
broker has it. -/
structure Sent (ι : Type) where
  call : ι
  record : Outgoing
  awaited : Bool
  place : Option DeliveryResult := none
  reported : Bool := false

/-- The `err` of a delivery report, and the partition its message names, if any. -/
structure ReportError where
  text : String
  partition : Option Nat := none

/-- A delivery report that waits to be served. -/
structure Report (ι : Type) where
  call : ι
  topic : String
  awaited : Bool
  outcome : Except ReportError DeliveryResult

/-- `_describe_delivery_error`. -/
def describeDeliveryError (err : ReportError) (topic : String) : String :=
  match err.partition with
  | none => s!"{err.text} (partition not yet assigned)"
  | some partition => s!"{err.text} [{topic}-{partition}]"

/-- `outcome`, `done`: the dict and the event of each call. `serving`: the callbacks that filled their
dict and have not set their event. -/
structure Wire (ι : Type) where
  sent : List (Sent ι) := []
  log : TopicPartition → List (Landed ι) := fun _ => []
  reports : List (Report ι) := []
  serving : List ι := []
  outcome : ι → Outcome := fun _ => {}
  done : ι → Bool := fun _ => false

variable {ι : Type}

/-- What the callback puts in the dict. -/
def Report.filled (r : Report ι) : Outcome :=
  match r.outcome with
  | .error err => { error := some (describeDeliveryError err r.topic) }
  | .ok place => { result := some place }

/-- What happens between two operations of the callers. -/
inductive Happening where
  /-- The broker writes the `n`-th record sent to a partition, perhaps after the client gave up on it. -/
  | store (n partition : Nat)
  /-- The report of the `n`-th record comes: an error, or where it was written. -/
  | report (n : Nat) (error : Option ReportError)
  /-- A thread that serves the client runs the first callback, up to `done.set()`. -/
  | serve
  /-- The `n`-th of the callbacks that are under way sets its event. -/
  | signal (n : Nat)
  /-- Another process writes to a topic. -/
  | other (tp : TopicPartition) (key : String) (value : Option ByteArray)

def Wire.store (w : Wire ι) (n partition : Nat) : Wire ι :=
  match w.sent[n]? with
  | none => w
  | some p =>
    let tp : TopicPartition := ⟨p.record.topic, partition⟩
    if p.place.isSome then w
    else { w with
      log := Function.update w.log tp (w.log tp ++ [⟨some p.call, p.record.key, p.record.value⟩])
      sent := w.sent.set n { p with place := some ⟨partition, (w.log tp).length⟩ } }

/-- What the report of a record says; it acknowledges only what the broker has. -/
def Sent.reportOf (p : Sent ι) : Option ReportError → Option (Except ReportError DeliveryResult)
  | some err => some (.error err)
  | none => p.place.map .ok

def Wire.report (w : Wire ι) (n : Nat) (error : Option ReportError) : Wire ι :=
  match w.sent[n]? with
  | none => w
  | some p =>
    match p.reportOf error with
    | none => w
    | some outcome =>
      if p.reported then w
      else { w with
        sent := w.sent.set n { p with reported := true }
        reports := w.reports ++ [⟨p.call, p.record.topic, p.awaited, outcome⟩] }

/-- `on_delivery`, before `done.set()`; the callback of a snapshot only logs. -/
def Wire.serve [DecidableEq ι] (w : Wire ι) : Wire ι :=
  match w.reports with
  | [] => w
  | r :: rest =>
    if r.awaited then
      { w with
        reports := rest
        outcome := Function.update w.outcome r.call r.filled
        serving := w.serving ++ [r.call] }
    else { w with reports := rest }

def Wire.signal [DecidableEq ι] (w : Wire ι) (n : Nat) : Wire ι :=
  match w.serving[n]? with
  | none => w
  | some call => { w with
      serving := w.serving.eraseIdx n
      done := Function.update w.done call true }

def Wire.happen [DecidableEq ι] (w : Wire ι) : Happening → Wire ι
  | .store n partition => w.store n partition
  | .report n error => w.report n error
  | .serve => w.serve
  | .signal n => w.signal n
  | .other tp key value => { w with
      log := Function.update w.log tp (w.log tp ++ [⟨none, key, value⟩]) }

/-! ## The callers -/

/-- What a caller does with the client and with its event. -/
inductive Op (ι : Type) where
  /-- `Producer.produce`; an error is what `_produce_keyed` makes of the exception. -/
  | produce (call : ι) (record : Outgoing) (awaited : Bool)
  /-- `done.wait(wait)`. -/
  | wait (call : ι)
  /-- `topic_exists`, or the `KafkaException` of the metadata request. -/
  | topicExists (topic : String)
  /-- A look at the dict. -/
  | outcome (call : ι)

abbrev Op.Answer {ι : Type} : Op ι → Type
  | .produce _ _ _ => Except String Unit
  | .wait _ => Bool
  | .topicExists _ => Except KafkaException Bool
  | .outcome _ => Outcome

/-- What `produce` raises: `BufferError`, or `KafkaException`. -/
inductive Refusal where
  | queueFull (text : String)
  | kafka (text : String)

/-- The text of the `DeliveryFailed` that `_produce_keyed` makes of it. -/
def Refusal.detail : Refusal → String
  | .queueFull text => s!"producer queue is full: {text}"
  | .kafka text => text

/-- The environment of an operation: what happened since the last one, whether `produce` raises, whether
the time of a wait is up, and what a metadata request answers. -/
structure Moment where
  meanwhile : List Happening := []
  refusal : Option Refusal := none
  timesOut : Bool := false
  metadata : Except KafkaException Bool := .ok true

def Op.exec [DecidableEq ι] (d : Moment) (o : Op ι) (w : Wire ι) : o.Answer × Wire ι :=
  let w := d.meanwhile.foldl Wire.happen w
  match o with
  | .produce call record awaited =>
    match d.refusal with
    | some refusal => (.error refusal.detail, w)
    | none => (.ok (), { w with sent := w.sent ++ [{ call, record, awaited }] })
  -- a wait whose time is up may miss an event that is set at that moment
  | .wait call => (w.done call && !d.timesOut, w)
  | .topicExists _ => (d.metadata, w)
  | .outcome call => (w.outcome call, w)

/-- How a call ends. -/
inductive Ending where
  | returned (result : DeliveryResult)
  | failed (e : DeliveryError)
  | keyError (name : String)
  /-- `publish_snapshot` returns `None`. -/
  | mirrored
deriving DecidableEq

def Ending.of : Except DeliveryError DeliveryResult → Ending
  | .ok result => .returned result
  | .error e => .failed e

abbrev Caller (ι : Type) := Prog (@Op.Answer ι)

variable (call : ι) (record : Outgoing) (what wait : String)

/-- `_publish_blocking`, once `done.wait` returned `True`. -/
def readOutcome : Caller ι Ending := do
  let outcome ← Prog.perform (Op.outcome call)
  match outcome.error, outcome.result with
  | some detail, _ => return .failed (.failed detail)
  | none, some result => return .returned result
  | none, none => return .keyError "result"

/-- `_publish_blocking`, once `done.wait` returned `False`: a missing topic looks like a timeout. -/
def diagnose : Caller ι Ending := do
  match ← Prog.perform (Op.topicExists record.topic) with
  | .ok false =>
    return .failed (.failed s!"topic '{record.topic}' does not exist and auto-creation is disabled — run scripts/create_topics.sh")
  | .ok true | .error _ => return .failed (.timeout s!"no delivery report for {what} within {wait}s")

/-- `_publish_blocking`, after the record was produced. -/
def awaitReport : Caller ι Ending := do
  if ← Prog.perform (Op.wait call) then readOutcome call else diagnose record what wait

/-- `_publish_blocking`. -/
def publishBlocking : Caller ι Ending := do
  match ← Prog.perform (Op.produce call record true) with
  | .error detail => return .failed (.failed detail)
  | .ok _ => awaitReport call record what wait

/-- `publish_snapshot`: a refusal is only logged. -/
def publishSnapshot : Caller ι Ending := do
  let _ ← Prog.perform (Op.produce call record false)
  return .mirrored

/-- A call of the producer. -/
inductive Publication where
  /-- `publish_and_wait`, `publish_tombstone`. -/
  | blocking (record : Outgoing) (what wait : String)
  | snapshot (record : Outgoing)

def Publication.outgoing : Publication → Outgoing
  | .blocking record _ _ => record
  | .snapshot record => record

def Publication.program : Publication → Caller ι Ending
  | .blocking record what wait => publishBlocking call record what wait
  | .snapshot record => publishSnapshot call record

end OrderService.Delivery
