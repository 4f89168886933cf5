import OrderService.Client

/-!
# How a consumer's offsets reach the broker (`transactions.py`)

`CommitStrategy` is the protocol; the guarantee picks one of its two implementations
(`buildCommitStrategy`). `directCommitter` commits each offset when its message is handled.
`transactionalCommitter` opens a transaction on the first message noted and closes it when one of
its two intervals is reached.
-/

namespace OrderService

/-- `CommitStrategy`. `abort` returns the partitions the aborted transaction had written to. -/
structure CommitStrategy where
  note : Message → M Unit
  maybeCommit : M Unit
  abort : String → M (List Nat)
  close : M Unit

/-- `is_fenced`. -/
def KafkaException.isFenced (e : KafkaException) : Bool :=
  match e.code with
  | some .fenced | some .invalidProducerEpoch | some .producerFenced => true
  | _ => false

namespace DirectCommitter

variable (env : Env)

/-- `note`: a rejected commit is logged, and consumption continues. -/
def note (m : Message) : M Unit := do
  try
    commitOffset env m
  catch e =>
    match e with
    | .kafka _ => pure ()
    | e => throw e

end DirectCommitter

def directCommitter (env : Env) : CommitStrategy where
  note := DirectCommitter.note env
  maybeCommit := pure ()
  abort := fun _ => return []
  close := pure ()

namespace TransactionalCommitter

variable (d : Deployment) (groupId : String) (env : Env)

/-- `_raise_if_fenced`, on any exception. -/
def raiseIfFenced (e : Exn) : M Unit :=
  match e with
  | .kafka k =>
    if k.isFenced then
      throw (.producerFenced
        s!"transactional.id {d.settings.transactionalIdFor groupId} was taken: {k.text}")
    else pure ()
  | _ => pure ()

/-- `_reset`. -/
def reset : M Unit := modify fun w => { w with committer := {} }

/-- `_begin_if_needed`. -/
def beginIfNeeded : M Unit := do
  if (← get).committer.isOpen then pure ()
  else
    try
      beginTransaction env
    catch e =>
      raiseIfFenced d groupId e
      throw e
    modify fun w => { w with committer := { w.committer with
      isOpen := true, messages := 0, openedAt := env.monotonic } }

/-- `note`: the offset recorded is where consumption resumes. -/
def note (m : Message) : M Unit := do
  beginIfNeeded d groupId env
  modify fun w => { w with committer := { w.committer with
    offsets := Function.update w.committer.offsets m.tp (some (m.offset + 1))
    touched := w.committer.touched.insert m.partition
    messages := w.committer.messages + 1 } }

/-- `commit`. -/
def commit : M Unit := do
  if !(← get).committer.isOpen then pure ()
  else
    try
      sendOffsetsToTransaction env (← get).committer.offsets
      commitTransaction env
    catch e =>
      raiseIfFenced d groupId e
      throw e
    finally
      reset

/-- One of the two intervals has been reached. -/
def due (c : CommitterState) : Bool :=
  d.settings.transactionCommitIntervalMessages ≤ c.messages ||
    d.settings.transactionCommitIntervalMs ≤ env.monotonic - c.openedAt

/-- `maybe_commit`. -/
def maybeCommit : M Unit := do
  let w ← get
  if !w.committer.isOpen then pure ()
  else if due d env w.committer then commit d groupId env
  else pure ()

/-- `abort`: an abort that fails without fencing is only logged. -/
def abort (_reason : String) : M (List Nat) := do
  let w ← get
  if !w.committer.isOpen then return []
  else
    try
      abortTransaction env
    catch e =>
      raiseIfFenced d groupId e
      match e with
      | .kafka _ => pure ()
      | e => throw e
    finally
      reset
    return w.committer.touched

end TransactionalCommitter

def transactionalCommitter (d : Deployment) (groupId : String) (env : Env) : CommitStrategy where
  note := TransactionalCommitter.note d groupId env
  maybeCommit := TransactionalCommitter.maybeCommit d groupId env
  abort := TransactionalCommitter.abort d groupId env
  close := do let _ ← TransactionalCommitter.abort d groupId env "shutdown"

/-- `build_commit_strategy`. -/
def buildCommitStrategy (d : Deployment) (groupId : String) (env : Env) : CommitStrategy :=
  if d.settings.exactlyOnce then transactionalCommitter d groupId env else directCommitter env

end OrderService
