import OrderService.Config
import OrderService.Producer.Orders

/-!
# Keyed publishing (`producer/kafka_producer.py`)

A produced record is on its topic or is not, and the delivery report says so or does not: `DeliveryFate`
is what became of one record. `_publish_blocking` turns it into a result or one of two exceptions;
`publish_snapshot` ignores it. A topic is the list of its records in the order of their offsets, of
which those of one key lie on one partition.
-/

namespace OrderService

structure DeliveryResult where
  partition : Nat
  offset : Nat
deriving DecidableEq, Repr

inductive DeliveryError where
  /-- `DeliveryFailed`. -/
  | failed (detail : String)
  /-- `DeliveryTimeout`. -/
  | timeout (detail : String)
deriving DecidableEq, Repr

/-- What became of one produced record. -/
inductive DeliveryFate where
  | acked (result : DeliveryResult)
  /-- `produce` raised. -/
  | refused (detail : String)
  /-- The report is an error. -/
  | reported (stored : Bool) (detail : String)
  /-- No report within the wait. -/
  | silent (stored topicMissing : Bool)
deriving Repr

/-- The record is on the topic. -/
def DeliveryFate.stored : DeliveryFate → Bool
  | .acked _ => true
  | .refused _ => false
  | .reported stored _ => stored
  | .silent stored _ => stored

def DeliveryFate.isAcked : DeliveryFate → Bool
  | .acked _ => true
  | _ => false

theorem DeliveryFate.isAcked_iff {d : DeliveryFate} : d.isAcked = true ↔ ∃ result, d = .acked result := by
  cases d <;> simp [isAcked]

/-- `_publish_blocking`, after the record was produced. -/
def publishBlocking (topic what wait : String) : DeliveryFate → Except DeliveryError DeliveryResult
  | .acked result => .ok result
  | .refused detail => .error (.failed detail)
  | .reported _ detail => .error (.failed detail)
  | .silent _ true =>
    .error (.failed s!"topic '{topic}' does not exist and auto-creation is disabled — run scripts/create_topics.sh")
  | .silent _ false => .error (.timeout s!"no delivery report for {what} within {wait}s")

/-- The two topics the service writes. A `none` on the compacted one is a tombstone. -/
structure Topics where
  lifecycle : List LifecycleEvent := []
  snapshot : List (String × Option Snapshot) := []

structure ProducerSettings extends Settings where
  /-- `producer_delivery_wait_seconds`, as it is printed. -/
  producerDeliveryWait : String := "31.0"

namespace LifecycleEventProducer

variable (settings : ProducerSettings) (d : DeliveryFate) (topics : Topics)

def publishAndWait (event : LifecycleEvent) : Except DeliveryError DeliveryResult × Topics :=
  (publishBlocking settings.orderLifecycleTopic s!"{event.orderId} seq {event.sequence}"
      settings.producerDeliveryWait d,
    if d.stored then { topics with lifecycle := topics.lifecycle ++ [event] } else topics)

def publishTombstone (orderId : String) : Except DeliveryError DeliveryResult × Topics :=
  (publishBlocking settings.orderSnapshotTopic s!"tombstone for {orderId}"
      settings.producerDeliveryWait d,
    if d.stored then { topics with snapshot := topics.snapshot ++ [(orderId, none)] } else topics)

def publishSnapshot (orderId : String) (snapshot : Snapshot) : Topics :=
  if d.stored then { topics with snapshot := topics.snapshot ++ [(orderId, some snapshot)] }
  else topics

@[simp] theorem lifecycle_publishSnapshot (orderId : String) (snapshot : Snapshot) :
    (publishSnapshot d topics orderId snapshot).lifecycle = topics.lifecycle := by
  unfold publishSnapshot
  split <;> rfl

end LifecycleEventProducer

end OrderService
