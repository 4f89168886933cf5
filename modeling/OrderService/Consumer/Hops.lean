import OrderService.Consumer.RetryWorker

/-!
# From one process to the next

A copy that a process puts on a topic is a message of the processes that consume it: the services read
the source topics, the worker the retry topic, and nothing reads the dead-letter topic. A `Lineage` is a
message and what became of it, copy after copy, whatever the environment did in the turns that made them.
-/

namespace OrderService

/-- The topics are apart, as the settings document them: no service subscribes to the retry topic, and
nothing to the dead-letter topic. A topic has a name. -/
structure Settings.Separate (s : Settings) : Prop where
  lifecycle_named : s.orderLifecycleTopic ≠ ""
  retry_ne_lifecycle : s.retryTopic ≠ s.orderLifecycleTopic
  retry_ne_snapshot : s.retryTopic ≠ s.orderSnapshotTopic
  dlq_ne_lifecycle : s.dlqTopic ≠ s.orderLifecycleTopic
  dlq_ne_snapshot : s.dlqTopic ≠ s.orderSnapshotTopic
  dlq_ne_retry : s.dlqTopic ≠ s.retryTopic

/-- The copies of messages among the records taken. -/
def copiesIn (calls : List Call) : List Queued :=
  calls.filterMap fun
    | .produce q true => if q.isFold then none else some q
    | _ => none

/-- The headers of a copy. -/
def Queued.header (q : Queued) : Headers := fun name =>
  match q.payload with
  | .copy _ _ headers => headers.lookup name
  | .fold .. => none

/-- `m` is the copy as a consumer polls it, anywhere in its partition. -/
structure Queued.PolledAs (q : Queued) (m : Message) : Prop where
  topic_eq : m.topic = q.topic
  partition_eq : m.partition = q.partition
  payload_eq : ∃ headers, q.payload = .copy m.key m.value headers ∧
    m.headers = headers.map fun (name, value) => (name, some value.toUTF8)

/-- The service runs beside the worker: one deployment, one registry. -/
structure Service.DeployedWith (c : Service) (w : Worker) : Prop where
  deployment_eq : c.toDeployment = w.toDeployment
  registered : c.name ∈ w.specs

/-- The message is on a topic the service subscribes to. -/
def Service.Consumes (c : Service) (m : Message) : Prop :=
  m.topic = c.settings.orderLifecycleTopic ∨ m.topic = c.settings.orderSnapshotTopic

/-- A turn of the service on `m` publishes the copy `q`. -/
def ServiceConsumer.Copies (c : Service) (env : Env) (m : Message) (q : Queued) : Prop :=
  ∃ backend w calls,
    ((handleMessage c (buildStateStore backend c.toDeployment c.groupId env) env m).exec w).2.trace =
      w.trace ++ calls ∧ q ∈ copiesIn calls

/-- A turn of the worker on `m` publishes the copy `q`. The worker begins no transaction. -/
def RetryWorker.Copies (c : Worker) (env : Env) (m : Message) (q : Queued) : Prop :=
  ∃ w calls, w.producer.txn = none ∧
    ((handleMessage c env m).exec w).2.trace = w.trace ++ calls ∧ q ∈ copiesIn calls

/-- A failed attempt at a message. -/
structure Attempt where
  service : String
  message : Message

/-- `m` came of `m₀`, by way of the worker `visits` times and of the `failed` attempts, the last one
first. A copy has a place of its own. -/
inductive Lineage (w : Worker) (m₀ : Message) : (visits : Nat) → (failed : List Attempt) → Message → Prop
  | first : Lineage w m₀ 0 [] m₀
  | attempt {visits : Nat} {failed : List Attempt} {m m' : Message} {c : Service} {env : Env} {q : Queued} :
      Lineage w m₀ visits failed m → c.DeployedWith w → c.Consumes m → ServiceConsumer.Copies c env m q →
      q.PolledAs m' → m'.id ≠ m₀.id → Lineage w m₀ visits (⟨c.name, m⟩ :: failed) m'
  | visit {visits : Nat} {failed : List Attempt} {m m' : Message} {env : Env} {q : Queued} :
      Lineage w m₀ visits failed m → m.topic = w.settings.retryTopic → RetryWorker.Copies w env m q →
      q.PolledAs m' → m'.id ≠ m₀.id → Lineage w m₀ (visits + 1) failed m'

end OrderService
