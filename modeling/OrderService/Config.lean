import OrderService.Python

/-!
# Settings (`config.py`)

The settings the consumer side reads, with their defaults, and the values derived from them.
`Settings` carries the one refused combination as a field, as `_refuse_checkpoint_under_exactly_once`
refuses it before anything is built. Every consumer reads at the default isolation level
(`read_committed`).
-/

namespace OrderService

inductive StateBackend where
  | memory | local
deriving DecidableEq, Repr

inductive StateRebuild where
  | full | checkpoint
deriving DecidableEq, Repr

inductive StateWriteOrder where
  | stateFirst | offsetFirst
deriving DecidableEq, Repr

inductive StateCrashPoint where
  | none | stateWrite | offsetCommit | transactionOpen
deriving DecidableEq, Repr

inductive ProcessingGuarantee where
  | atLeastOnce | exactlyOnce
deriving DecidableEq, Repr

inductive HandlerFailureMode where
  | none | transient | poison
deriving DecidableEq, Repr

theorem ProcessingGuarantee.unrefused (r : StateRebuild) :
    ProcessingGuarantee.atLeastOnce = .exactlyOnce → r ≠ .checkpoint := by simp

theorem StateRebuild.unrefused (g : ProcessingGuarantee) :
    g = .exactlyOnce → StateRebuild.full ≠ .checkpoint := by simp

structure Settings where
  orderLifecycleTopic : String := "order-lifecycle"
  orderSnapshotTopic : String := "order-snapshot"
  consumerGroupId : Option String := none
  /-- `CONSUMER_INSTANCE_ID`, or the host name. -/
  instanceLabel : String := "localhost"
  stateWriteOrder : StateWriteOrder := .stateFirst
  stateCrashAfter : StateCrashPoint := .none
  stateDir : String := "/var/lib/order-state"
  stateChangelogPrefix : String := "order-fold"
  stateRebuild : StateRebuild := .full
  retryTopic : String := "order-lifecycle.retry"
  dlqTopic : String := "order-lifecycle.dlq"
  retryMaxAttempts : Int := 3
  /-- `RETRY_BACKOFF_SECONDS`, parsed, in microseconds. -/
  retryBackoff : List Int := [30000000, 120000000]
  handlerFailureMode : HandlerFailureMode := .none
  handlerFailureOrders : Option String := none
  handlerFailureAttempts : Int := 2
  processingGuarantee : ProcessingGuarantee := .atLeastOnce
  transactionCommitIntervalMessages : Int := 100
  transactionCommitIntervalMs : Int := 200
  deliveryTimeoutSeconds : Nat := 10
  checkpoint_refused : processingGuarantee = .exactlyOnce → stateRebuild ≠ .checkpoint := by
    first | exact ProcessingGuarantee.unrefused _ | exact StateRebuild.unrefused _

namespace Settings

variable (s : Settings)

def exactlyOnce : Bool := s.processingGuarantee = .exactlyOnce

def groupIdFor (serviceName : String) : String := s.consumerGroupId.getD (serviceName ++ "-service")

def transactionalIdFor (groupId : String) : String := s!"{groupId}-{s.instanceLabel}"

def changelogTopicFor (groupId : String) : String := s!"{s.stateChangelogPrefix}.{groupId}"

def retryBackoffSchedule : List Int := if s.retryBackoff = [] then [30000000] else s.retryBackoff

def backoffForAttempt (attempt : Int) : Int :=
  if attempt < 2 then 0
  else
    let schedule := s.retryBackoffSchedule
    schedule.getD (min (attempt - 2).toNat (schedule.length - 1)) 0

/-- `failing_orders`; empty means every order. -/
def failingOrders : List String :=
  match s.handlerFailureOrders with
  | none => []
  | some orders => ((orders.splitOn ",").map strip).filter (· ≠ "")

theorem rebuild_full_of_exactlyOnce (h : s.exactlyOnce = true) : s.stateRebuild = .full := by
  have := s.checkpoint_refused (by simpa [exactlyOnce] using h)
  cases hr : s.stateRebuild <;> simp_all

end Settings

end OrderService
