import OrderService.Consumer.Runtime

/-!
# The durable store from one process to the next

A store outlives its process: the directory and the checkpoint file of a partition are found again by
the process that opens them next. `DiskOp` is what happens to a store, in any order: a call, a new
process, and what its changelog sees from elsewhere (the records of the group's other members, the
cleaner). A process that dies in a call is started again; after any other exception it goes on.
-/

namespace OrderService

open KeyedLog

inductive DiskOp where
  | start
  | restore (rebuild : StateRebuild) (partitions : List Nat)
  | load (partition : Nat) (orderId : String)
  | save (partition : Nat) (orderId : String) (fold : OrderFold) (eventId : String)
  | delete (partition : Nat) (orderId : String)
  | flush
  | forget (partitions : List Nat)
  | discard (partitions : List Nat)
  | close
  /-- Other members append to a changelog partition. -/
  | others (partition : Nat) (entries : List (Entry String Row))
  /-- The cleaner leaves `log` of a changelog partition. -/
  | clean (partition : Nat) (log : KeyedLog String Row)

/-- The settings with `STATE_REBUILD` set anew, as it may be for each process; exactly once, only
`full` is accepted. -/
def Settings.rebuilding (s : Settings) (rebuild : StateRebuild) : Settings :=
  if h : s.processingGuarantee = .exactlyOnce then s
  else { s with stateRebuild := rebuild, checkpoint_refused := fun hx => absurd hx h }

def Deployment.rebuilding (d : Deployment) (rebuild : StateRebuild) : Deployment :=
  { d with settings := d.settings.rebuilding rebuild }

/-- The changelog partition `p` is `log` from now on. -/
def World.setLog (w : World) (p : Nat) (log : KeyedLog String Row) : World :=
  { w with broker := { w.broker with changelog := Function.update w.broker.changelog p log } }

namespace DiskOp

variable (d : Deployment) (groupId : String)

def run (env : Env) : DiskOp → M Unit
  | .start => modify ServiceConsumer.restart
  | .restore rebuild ps => LocalStateStore.restore (d.rebuilding rebuild) groupId env ps
  | .load p orderId => do let _ ← LocalStateStore.load d groupId env p orderId
  | .save p orderId fold eventId => do
    let _ ← LocalStateStore.save d groupId env p orderId fold eventId
  | .delete p orderId => do let _ ← LocalStateStore.delete d groupId env p orderId
  | .flush => LocalStateStore.flush env
  | .forget ps => LocalStateStore.forget env ps
  | .discard ps => LocalStateStore.discard env ps
  | .close => LocalStateStore.close env
  | .others p entries => modify fun w =>
    w.setLog p (entries.foldl KeyedLog.append (w.broker.changelog p))
  | .clean p log => modify fun w => w.setLog p log

/-- One operation, of a process that lives to make `crashIn` calls. -/
def call (l : Env × DiskOp) : M Unit := do
  modify fun w => { w with crashIn := l.1.crashIn }
  l.2.run d groupId l.1

/-- One operation: a process that dies is started again, and one that sees any other exception goes
on. -/
def step (l : Env × DiskOp) : M Unit := do
  try
    call d groupId l
  catch e =>
    match e with
    | .crash => modify ServiceConsumer.restart
    | _ => pure ()

/-- One operation of one process: it goes on after any exception but its death. -/
def attempt (l : Env × DiskOp) : M Unit := do
  try
    call d groupId l
  catch e =>
    match e with
    | .crash => throw .crash
    | _ => pure ()

end DiskOp

end OrderService
