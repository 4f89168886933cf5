import OrderService.Consumer.Runtime

/-!
# The members of a group

Several processes of one service, on one broker. They share nothing else, so a step lets one of them take
a whole step of its loop, on the broker as the others left it.
-/

namespace OrderService

/-- The broker, and what each member has for itself. -/
structure Group (ι : Type) where
  broker : Broker := {}
  members : ι → World := fun _ => {}

namespace Group

open ServiceConsumer

variable {ι : Type}

/-- Member `i`, as it finds the broker. -/
def member (g : Group ι) (i : ι) : World := { g.members i with broker := g.broker }

/-- Member `i` after a step of its loop, started again if it died. -/
def moved (c : Service) (g : Group ι) (i : ι) (l : Env × Label) : World :=
  ((lifeStep c .local l).exec (g.member i)).2

variable [DecidableEq ι]

/-- The group after a step of one member. -/
def after (c : Service) (l : ι × Env × Label) (g : Group ι) : Group ι where
  broker := (g.moved c l.1 l.2).broker
  members := Function.update g.members l.1 (g.moved c l.1 l.2)

def step (c : Service) (l : ι × Env × Label) : Eff (Group ι) Exn Unit := modify (after c l)

end Group

end OrderService
