import OrderService.Consumer.Transactions

/-!
# The transactional committer from one call to the next

`CommitterCall` is what is asked of a `TransactionalCommitter`, in any order. Its producer is shared
with the state store and the failure router, so every call finds it in a state of its own; with the
clock and the client's answers, that state is part of how a call is made (`Asked`). The caller goes on
after an exception: of each call is kept whether it returned and what it asked of the client.
-/

namespace OrderService

inductive CommitterCall where
  | note (m : Message)
  | maybeCommit
  | commit
  | abort (reason : String)
  | close

structure Asked where
  producer : ProducerState
  env : Env
  call : CommitterCall

/-- What came of a call. -/
structure CommitterTurn where
  call : CommitterCall
  returned : Bool
  calls : List Call

namespace TransactionalCommitter

variable (d : Deployment) (groupId : String)

def perform (env : Env) : CommitterCall → M Unit
  | .note m => note d groupId env m
  | .maybeCommit => maybeCommit d groupId env
  | .commit => commit d groupId env
  | .abort reason => do let _ ← abort d groupId env reason
  | .close => (transactionalCommitter d groupId env).close

/-- One call of a process that lives. -/
def turn (w : World) (a : Asked) : CommitterTurn × World :=
  let (result, t) := (perform d groupId a.env a.call).exec
    { w with producer := a.producer, crashIn := none }
  (⟨a.call, result.isOk, t.trace.drop w.trace.length⟩, t)

def turns : List Asked → World → List CommitterTurn × World
  | [], w => ([], w)
  | a :: l, w =>
    let (turn, t) := turn d groupId w a
    let (rest, u) := turns l t
    (turn :: rest, u)

end TransactionalCommitter

end OrderService
