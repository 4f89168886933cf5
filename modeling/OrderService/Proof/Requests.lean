import OrderService.Producer.Routes

/-!
# Where a request stands

The handlers, cut at their operations: `Stands r p` says that `p` is what is left of the handler of
`r` at one of these cuts. `Stands.answer` is the step lemma; with it every thread of a run stands
somewhere in its request (`stands_advance`).
-/

namespace OrderService

open Threads

variable {api : Api} {settings : ProducerSettings}

/-! ## The cuts -/

def mirroring (order : Order) (response : Response) : Handler Response :=
  .op (.publishSnapshot order.orderId order.asSnapshot) fun _ => .done response

def registering (orderId : String) (payload : OrderCreatedPayload) (result : DeliveryResult) :
    Handler Response :=
  .op (.register orderId payload) fun order =>
    mirroring order
      (.created orderId order.state.str order.totalAmount 1 result.partition result.offset)

def creating (orderId eventId : String) (payload : OrderCreatedPayload) : Handler Response :=
  .op (.publishAndWait ⟨eventId, orderId, 1, .orderCreated, Nat.one_pos⟩) fun
    | .error (.timeout detail) => .done (.error 504 detail)
    | .error (.failed detail) => .done (.error 502 detail)
    | .ok result => registering orderId payload result

def committing (orderId : String) (body : PublishEventRequest) (sequence : Sequence)
    (result : DeliveryResult) : Handler Response :=
  .op (.commit orderId body.eventType body.force) fun
    | .error _ => .done internalServerError
    | .ok order =>
      mirroring order (.published orderId sequence body.eventType order.state.str result.partition
        result.offset body.force)

def publishing (orderId eventId : String) (body : PublishEventRequest) (sequence : Sequence) :
    Handler Response :=
  .op (.publishAndWait ⟨eventId, orderId, sequence, body.eventType, sequence.2⟩) fun
    | .error (.timeout detail) => .done (.error 504 detail)
    | .error (.failed detail) => .done (.error 502 detail)
    | .ok result => committing orderId body sequence result

def reserving (orderId eventId : String) (body : PublishEventRequest) : Handler Response :=
  .op (.reserve orderId body.eventType body.force) fun
    | .error (.inl unknown) => .done (.error 404 unknown.detail)
    | .error (.inr illegal) => .done (.error 409 illegal.detail)
    | .ok sequence => publishing orderId eventId body sequence

def removing (orderId : String) : Handler Response :=
  .op (.remove orderId) fun
    | .error _ => .done .noContent
    | .ok _ => .done .noContent

def tombstoning (orderId : String) : Handler Response :=
  .op (.publishTombstone orderId) fun
    | .error (.timeout detail) => .done (.error 504 detail)
    | .error (.failed detail) => .done (.error 502 detail)
    | .ok _ => removing orderId

/-! ## The handlers at their cuts -/

theorem createOrder_eq {orderId eventId : String} {body : CreateOrderRequest} :
    createOrder api orderId eventId body = match body.toPayload with
      | .error detail => .done (.error 422 (api.validationError detail))
      | .ok payload => creating orderId eventId payload := by
  unfold createOrder
  rcases body.toPayload with detail | payload
  · rfl
  · refine congrArg (Prog.op _) (funext fun answer => ?_)
    rcases answer with (_ | _) | _ <;> rfl

theorem publishEvent_eq {orderId eventId : String} {body : PublishEventRequest} :
    publishEvent api orderId eventId body = .op (.get orderId) fun
      | none => .done (.error 404 s!"no order {orderId}")
      | some _ => match api.validatePayload body.eventType body.payload with
        | some detail => .done (.error 422 detail)
        | none => reserving orderId eventId body := by
  refine congrArg (Prog.op _) (funext fun found => ?_)
  rcases found with _ | _
  · rfl
  cases api.validatePayload body.eventType body.payload with
  | some detail => rfl
  | none =>
    refine congrArg (Prog.op _) (funext fun answer => ?_)
    rcases answer with (_ | _) | _
    · rfl
    · rfl
    refine congrArg (Prog.op _) (funext fun answer => ?_)
    rcases answer with (_ | _) | _
    · rfl
    · rfl
    refine congrArg (Prog.op _) (funext fun answer => ?_)
    rcases answer with _ | _ <;> rfl

theorem deleteOrder_eq {orderId : String} : deleteOrder orderId = .op (.get orderId) fun
    | none => .done (.error 404 s!"no order {orderId}")
    | some _ => tombstoning orderId := by
  refine congrArg (Prog.op _) (funext fun found => ?_)
  rcases found with _ | _
  · rfl
  refine congrArg (Prog.op _) (funext fun answer => ?_)
  rcases answer with (_ | _) | _
  · rfl
  · rfl
  refine congrArg (Prog.op _) (funext fun answer => ?_)
  rcases answer with _ | _ <;> rfl

theorem getOrder_eq {orderId : String} : getOrder orderId = .op (.get orderId) fun
    | none => .done (.error 404 s!"no order {orderId}")
    | some order => .done (.order order.asDict) := by
  refine congrArg (Prog.op _) (funext fun found => ?_)
  rcases found with _ | _ <;> rfl

/-! ## What one operation touches -/

/-- The order an operation is about. -/
def Op.subject : Op → String
  | .get orderId | .register orderId _ | .remove orderId | .reserve orderId _ _
  | .commit orderId _ _ | .publishTombstone orderId | .publishSnapshot orderId _ => orderId
  | .publishAndWait event => event.orderId

/-- The events of an order on the topic, in the order of their offsets. -/
def AppState.eventsOf (s : AppState) (orderId : String) : List LifecycleEvent :=
  s.topics.lifecycle.filter fun event => event.orderId = orderId

section

variable {o : Op} {d : DeliveryFate} {s : AppState} {orderId : String}

theorem orders_exec_of_ne (h : orderId ≠ o.subject) :
    (o.exec settings d s).2.orders orderId = s.orders orderId := by
  cases o with
  | get | publishAndWait | publishTombstone | publishSnapshot => rfl
  | register o payload => exact Function.update_of_ne h _ _
  | remove o =>
    cases ho : s.orders o with
    | none => simp only [Op.exec, OrderStore.remove_of_none ho]
    | some order =>
      simp only [Op.exec, OrderStore.remove_of_some ho]
      exact Function.update_of_ne h _ _
  | reserve o t force =>
    cases ho : s.orders o with
    | none => simp only [Op.exec, OrderStore.reserve_of_none ho]
    | some order =>
      simp only [Op.exec, OrderStore.reserve, ho]
      split
      · rfl
      · exact Function.update_of_ne h _ _
  | commit o t force =>
    cases ho : s.orders o with
    | none => simp only [Op.exec, OrderStore.commit_of_none ho]
    | some order =>
      simp only [Op.exec, OrderStore.commit, ho]
      split
      · rfl
      · exact Function.update_of_ne h _ _

theorem eventsOf_exec_of_ne (h : orderId ≠ o.subject) :
    (o.exec settings d s).2.eventsOf orderId = s.eventsOf orderId := by
  cases o with
  | get | register | remove | reserve | commit => rfl
  | publishAndWait event =>
    have hne : event.orderId ≠ orderId := Ne.symm h
    simp only [Op.exec, LifecycleEventProducer.publishAndWait, AppState.eventsOf]
    split <;> simp [hne]
  | publishTombstone o =>
    simp only [Op.exec, LifecycleEventProducer.publishTombstone, AppState.eventsOf]
    split <;> rfl
  | publishSnapshot o snapshot =>
    simp only [Op.exec, LifecycleEventProducer.publishSnapshot, AppState.eventsOf]
    split <;> rfl

end

/-! ## Along a run -/

variable (api) in
/-- `p` is what is left to do for the request. -/
inductive Stands : Request → Handler Response → Prop
  | answered {r : Request} (response : Response) : Stands r (.done response)
  | create {o e : String} {body : CreateOrderRequest} (payload : OrderCreatedPayload) :
      Stands (.create o e body) (creating o e payload)
  | register {o e : String} {body : CreateOrderRequest} (payload : OrderCreatedPayload)
      (result : DeliveryResult) : Stands (.create o e body) (registering o payload result)
  | mirrorCreated {o e : String} {body : CreateOrderRequest} (order : Order) (response : Response) :
      Stands (.create o e body) (mirroring order response)
  | check {o e : String} {body : PublishEventRequest} :
      Stands (.publish o e body) (publishEvent api o e body)
  | reserve {o e : String} {body : PublishEventRequest} :
      Stands (.publish o e body) (reserving o e body)
  | publish {o e : String} {body : PublishEventRequest} (sequence : Sequence) :
      Stands (.publish o e body) (publishing o e body sequence)
  | commit {o e : String} {body : PublishEventRequest} (sequence : Sequence)
      (result : DeliveryResult) : Stands (.publish o e body) (committing o body sequence result)
  | mirrorPublished {o e : String} {body : PublishEventRequest} (order : Order) (response : Response) :
      Stands (.publish o e body) (mirroring order response)
  | find {o : String} : Stands (.delete o) (deleteOrder o)
  | tombstone {o : String} : Stands (.delete o) (tombstoning o)
  | remove {o : String} : Stands (.delete o) (removing o)
  | view {o : String} : Stands (.view o) (getOrder o)

theorem stands_handler (r : Request) : Stands api r (r.handler api) := by
  cases r with
  | create o e body =>
    change Stands api _ (createOrder api o e body)
    rw [createOrder_eq]
    cases body.toPayload with
    | error detail => exact .answered _
    | ok payload => exact .create payload
  | publish o e body => exact .check
  | delete o => exact .find
  | view o => exact .view

/-- The step lemma: whatever the operation answers, the request stands at its next cut. -/
theorem Stands.answer {r : Request} {p : Handler Response} {o : Op} {k : o.Answer → Handler Response}
    (h : Stands api r p) (hp : p = .op o k) (answer : o.Answer) : Stands api r (k answer) := by
  cases h with
  | answered => cases hp
  | mirrorCreated | mirrorPublished =>
    cases hp
    exact .answered _
  | create payload =>
    cases hp
    rcases answer with (_ | _) | result
    · exact .answered _
    · exact .answered _
    · exact .register payload result
  | register =>
    cases hp
    exact .mirrorCreated _ _
  | check =>
    rw [publishEvent_eq] at hp
    cases hp
    rcases answer with _ | _
    · exact .answered _
    · dsimp only
      split
      · exact .answered _
      · exact .reserve
  | reserve =>
    cases hp
    rcases answer with (_ | _) | sequence
    · exact .answered _
    · exact .answered _
    · exact .publish sequence
  | publish sequence =>
    cases hp
    rcases answer with (_ | _) | result
    · exact .answered _
    · exact .answered _
    · exact .commit sequence result
  | commit =>
    cases hp
    rcases answer with _ | _
    · exact .answered _
    · exact .mirrorPublished _ _
  | find =>
    rw [deleteOrder_eq] at hp
    cases hp
    rcases answer with _ | _
    · exact .answered _
    · exact .tombstone
  | tombstone =>
    cases hp
    rcases answer with (_ | _) | _
    · exact .answered _
    · exact .answered _
    · exact .remove
  | remove =>
    cases hp
    rcases answer with _ | _ <;> exact .answered _
  | view =>
    rw [getOrder_eq] at hp
    cases hp
    rcases answer with _ | _ <;> exact .answered _

/-- A request forgets an order right after its tombstone. -/
theorem Stands.before_remove {r : Request} {p : Handler Response} {o : Op}
    {k : o.Answer → Handler Response} {answer : o.Answer} {orderId : String} (h : Stands api r p)
    (hp : p = .op o k) (hnext : (k answer).next = some (.remove orderId)) :
    o = .publishTombstone orderId := by
  cases h with
  | answered => cases hp
  | mirrorCreated | mirrorPublished | register =>
    cases hp
    cases hnext
  | create | publish =>
    cases hp
    rcases answer with (_ | _) | _ <;> cases hnext
  | check =>
    rw [publishEvent_eq] at hp
    cases hp
    rcases answer with _ | _
    · cases hnext
    · dsimp only at hnext
      split at hnext <;> cases hnext
  | reserve =>
    cases hp
    rcases answer with (_ | _) | _ <;> cases hnext
  | commit | remove =>
    cases hp
    rcases answer with _ | _ <;> cases hnext
  | find =>
    rw [deleteOrder_eq] at hp
    cases hp
    rcases answer with _ | _ <;> cases hnext
  | tombstone =>
    cases hp
    rcases answer with (_ | _) | _
    · cases hnext
    · cases hnext
    · cases hnext
      rfl
  | view =>
    rw [getOrder_eq] at hp
    cases hp
    rcases answer with _ | _ <;> cases hnext

/-- A deletion is answered `204` right after it forgot the order. -/
theorem Stands.before_noContent {p : Handler Response} {o : Op} {k : o.Answer → Handler Response}
    {answer : o.Answer} {orderId : String} (h : Stands api (.delete orderId) p) (hp : p = .op o k)
    (hnext : k answer = .done .noContent) : o = .remove orderId := by
  cases h with
  | answered => cases hp
  | find =>
    rw [deleteOrder_eq] at hp
    cases hp
    rcases answer with _ | _ <;> cases hnext
  | tombstone =>
    cases hp
    rcases answer with (_ | _) | _ <;> cases hnext
  | remove =>
    cases hp
    rfl

section

variable {ι : Type} {requests : ι → Request} {s : Serving ι}

variable (api requests) in
/-- Every thread stands somewhere in its request. -/
def AllStand (s : Serving ι) : Prop := ∀ i, Stands api (requests i) (s.threads i)

theorem allStand_start (state : AppState) : AllStand api requests (.start api requests state) :=
  fun i => stands_handler (requests i)

theorem AllStand.advance [DecidableEq ι] (h : AllStand api requests s) (i : ι) (d : DeliveryFate) :
    AllStand api requests (s.advance (Op.exec settings) i d) := by
  intro j
  cases hp : s.threads i with
  | done a => rw [Pool.advance_done hp]; exact h j
  | op o k =>
    rcases eq_or_ne j i with rfl | hj
    · rw [Pool.threads_advance_self hp]
      exact (h j).answer hp _
    · rw [Pool.threads_advance_of_ne hp hj]
      exact h j

end

end OrderService
