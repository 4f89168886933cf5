import OrderService.Proof.CompactedTable

/-!
# What a request answers and what it did

`Documented r moves response` says that the request `r` may be answered so after these operations of
its own. The only answer that is not documented is that of a publish request whose order was deleted
before it committed: `explained_iff` is the step lemma, `outcomes_documented` says it of runs.
-/

namespace OrderService

open Eff Threads

variable {ι : Type} {api : Api} {settings : ProducerSettings}

/-! ## The answers of each request -/

/-- What a request did so far. -/
abbrev Moves := List (Move Op AppState)

/-- The request published nothing and changed no order. -/
def Unchanged (moves : Moves) : Prop := ∀ m ∈ moves, m.after = m.before

/-- The request changed no order. -/
def OrdersKept (moves : Moves) : Prop := ∀ m ∈ moves, m.after.orders = m.before.orders

/-- The request changed one thing about the orders: the last sequence of this one is one more. -/
def SequenceBurned (orderId : String) (moves : Moves) : Prop :=
  ∃ pre m post order, moves = pre ++ m :: post ∧ OrdersKept (pre ++ post) ∧
    m.before.orders orderId = some order ∧
    m.after.orders = Function.update m.before.orders orderId
      (some { order with lastSequence := order.lastSequence + 1 })

/-- The success response of each endpoint and its `HTTPException`s, with what the request may have done
when it ends so. -/
inductive Documented : Request → Moves → Response → Prop
  | created {o e : String} {body : CreateOrderRequest} {moves : Moves} (orderId state : String)
      (totalAmount sequence partition offset : Nat) :
      Documented (.create o e body) moves (.created orderId state totalAmount sequence partition offset)
  | createRefused {o e : String} {body : CreateOrderRequest} {moves : Moves} (detail : String) :
      Unchanged moves → Documented (.create o e body) moves (.error 422 detail)
  | createFailed {o e : String} {body : CreateOrderRequest} {moves : Moves} {status : Nat} (detail : String) :
      status = 502 ∨ status = 504 → OrdersKept moves →
      Documented (.create o e body) moves (.error status detail)
  | published {o e : String} {body : PublishEventRequest} {moves : Moves} (orderId : String) (sequence : Nat)
      (eventType : EventType) (state : String) (partition offset : Nat) (forced : Bool) :
      Documented (.publish o e body) moves
        (.published orderId sequence eventType state partition offset forced)
  | publishRefused {o e : String} {body : PublishEventRequest} {moves : Moves} {status : Nat} (detail : String) :
      status = 404 ∨ status = 409 ∨ status = 422 → Unchanged moves →
      Documented (.publish o e body) moves (.error status detail)
  | publishFailed {o e : String} {body : PublishEventRequest} {moves : Moves} {status : Nat} (detail : String) :
      status = 502 ∨ status = 504 → SequenceBurned o moves →
      Documented (.publish o e body) moves (.error status detail)
  | deleted {o : String} {moves : Moves} : Documented (.delete o) moves .noContent
  | deleteRefused {o : String} {moves : Moves} (detail : String) : Unchanged moves →
      Documented (.delete o) moves (.error 404 detail)
  | deleteFailed {o : String} {moves : Moves} {status : Nat} (detail : String) :
      status = 502 ∨ status = 504 → OrdersKept moves → Documented (.delete o) moves (.error status detail)
  | viewed {o : String} {moves : Moves} (view : Snapshot) : Documented (.view o) moves (.order view)
  | viewRefused {o : String} {moves : Moves} (detail : String) : Unchanged moves →
      Documented (.view o) moves (.error 404 detail)

/-- Every request that has ended was answered as documented. -/
def Explained (requests : ι → Request) (s : Recorded Op.Answer Response ι AppState) : Prop :=
  ∀ i response, s.pool.threads i = .done response → Documented (requests i) (s.moves i) response

/-- A commit finds its order in the store. -/
def Op.Finds (s : AppState) : Op → Prop
  | .commit orderId _ _ => s.orders orderId ≠ none
  | _ => True

def CommitFinds (s : Recorded Op.Answer Response ι AppState) (l : ι × DeliveryFate) : Prop :=
  ∀ o ∈ (s.pool.threads l.1).next, o.Finds s.pool.shared

/-! ## Along a request -/

variable {r : Request} {moves : Moves} {m : Move Op AppState} {orderId : String}

theorem Unchanged.concat (h : Unchanged moves) (hm : m.after = m.before) : Unchanged (moves ++ [m]) := by
  intro x hx
  obtain hx | hx := List.mem_append.1 hx
  · exact h x hx
  · rw [List.mem_singleton.1 hx]
    exact hm

theorem Unchanged.ordersKept (h : Unchanged moves) : OrdersKept moves :=
  fun m hm => congrArg AppState.orders (h m hm)

theorem OrdersKept.concat (h : OrdersKept moves) (hm : m.after.orders = m.before.orders) :
    OrdersKept (moves ++ [m]) := by
  intro x hx
  obtain hx | hx := List.mem_append.1 hx
  · exact h x hx
  · rw [List.mem_singleton.1 hx]
    exact hm

theorem SequenceBurned.concat (h : SequenceBurned orderId moves) (hm : m.after.orders = m.before.orders) :
    SequenceBurned orderId (moves ++ [m]) := by
  obtain ⟨pre, x, post, order, rfl, hkept, hbefore, hafter⟩ := h
  refine ⟨pre, x, post ++ [m], order, by simp, ?_, hbefore, hafter⟩
  rw [← List.append_assoc]
  exact hkept.concat hm

variable (api) in
/-- `p` is what is left of a request that performed `moves`. -/
inductive Course : Request → Moves → Handler Response → Prop
  | answered {r : Request} {moves : Moves} {response : Response} : Documented r moves response →
      Course r moves (.done response)
  | create {o e : String} {body : CreateOrderRequest} {moves : Moves} (payload : OrderCreatedPayload) :
      Unchanged moves → Course (.create o e body) moves (creating o e payload)
  | register {o e : String} {body : CreateOrderRequest} {moves : Moves} (payload : OrderCreatedPayload)
      (result : DeliveryResult) : Course (.create o e body) moves (registering o payload result)
  | mirror {r : Request} {moves : Moves} (order : Order) {response : Response} : (∀ moves, Documented r moves response) →
      Course r moves (mirroring order response)
  | check {o e : String} {body : PublishEventRequest} {moves : Moves} : Unchanged moves →
      Course (.publish o e body) moves (publishEvent api o e body)
  | reserve {o e : String} {body : PublishEventRequest} {moves : Moves} : Unchanged moves →
      Course (.publish o e body) moves (reserving o e body)
  | publish {o e : String} {body : PublishEventRequest} {moves : Moves} (sequence : Sequence) :
      SequenceBurned o moves → Course (.publish o e body) moves (publishing o e body sequence)
  | commit {o e : String} {body : PublishEventRequest} {moves : Moves} (sequence : Sequence)
      (result : DeliveryResult) : Course (.publish o e body) moves (committing o body sequence result)
  | find {o : String} {moves : Moves} : Unchanged moves → Course (.delete o) moves (deleteOrder o)
  | tombstone {o : String} {moves : Moves} : Unchanged moves → Course (.delete o) moves (tombstoning o)
  | remove {o : String} {moves : Moves} : Course (.delete o) moves (removing o)
  | view {o : String} {moves : Moves} : Unchanged moves → Course (.view o) moves (getOrder o)

/-- The step lemma, for the request that moves: it goes on as it should, unless it commits an order
that is gone. -/
theorem Course.move {p : Handler Response} {o : Op} {k : o.Answer → Handler Response}
    (h : Course api r moves p) (hp : p = .op o k) (settings : ProducerSettings) (s : AppState)
    (d : DeliveryFate) :
    (o.Finds s → Course api r (moves ++ [⟨o, s, (o.exec settings d s).2⟩])
      (k (o.exec settings d s).1)) ∧
    (¬ o.Finds s → k (o.exec settings d s).1 = .done internalServerError ∧
      ∃ orderId e body, r = .publish orderId e body) := by
  cases h with
  | answered => cases hp
  | create payload hmoves =>
    cases hp
    refine ⟨fun _ => ?_, fun hlost => absurd trivial hlost⟩
    have hkept := hmoves.ordersKept
    rcases (Op.exec settings d _ s).1 with (_ | _) | result
    · exact .answered (.createFailed _ (.inl rfl) (hkept.concat rfl))
    · exact .answered (.createFailed _ (.inr rfl) (hkept.concat rfl))
    · exact .register payload result
  | register payload result =>
    cases hp
    exact ⟨fun _ => .mirror _ fun _ => .created _ _ _ _ _ _, fun hlost => absurd trivial hlost⟩
  | mirror order hdocumented =>
    cases hp
    exact ⟨fun _ => .answered (hdocumented _), fun hlost => absurd trivial hlost⟩
  | check hmoves =>
    rw [publishEvent_eq] at hp
    cases hp
    refine ⟨fun _ => ?_, fun hlost => absurd trivial hlost⟩
    rcases (Op.exec settings d _ s).1 with _ | _
    · exact .answered (.publishRefused _ (.inl rfl) (hmoves.concat rfl))
    · dsimp only
      split
      · exact .answered (.publishRefused _ (.inr (.inr rfl)) (hmoves.concat rfl))
      · exact .reserve (hmoves.concat rfl)
  | @reserve x e body _ hmoves =>
    cases hp
    refine ⟨fun _ => ?_, fun hlost => absurd trivial hlost⟩
    by_cases hok : ∃ order, s.orders x = some order ∧
        (body.force = true ∨ isLegalTransition body.eventType order.state = true)
    · obtain ⟨order, horder, hlegal⟩ := hok
      simp only [Op.exec, OrderStore.reserve_of_legal horder hlegal]
      exact .publish _ ⟨moves, _, [], order, rfl, by simpa using hmoves.ordersKept, horder, rfl⟩
    · have hrefused : (s.orders.reserve x body.eventType body.force).2 = s.orders :=
        OrderStore.reserve_of_refused hok
      have hsame : (Op.exec settings d (.reserve x body.eventType body.force) s).2 = s := by
        simp only [Op.exec, hrefused]
      rw [hsame]
      cases hanswer : (Op.exec settings d (.reserve x body.eventType body.force) s).1 with
      | ok sequence => exact absurd (OrderStore.reserve_ok hanswer) hok
      | error refusal =>
        rcases refusal with _ | _
        · exact .answered (.publishRefused _ (.inl rfl) (hmoves.concat rfl))
        · exact .answered (.publishRefused _ (.inr (.inl rfl)) (hmoves.concat rfl))
  | publish sequence hburned =>
    cases hp
    refine ⟨fun _ => ?_, fun hlost => absurd trivial hlost⟩
    rcases (Op.exec settings d _ s).1 with (_ | _) | result
    · exact .answered (.publishFailed _ (.inl rfl) (hburned.concat rfl))
    · exact .answered (.publishFailed _ (.inr rfl) (hburned.concat rfl))
    · exact .commit sequence result
  | @commit x e body _ sequence result =>
    cases hp
    constructor
    · intro hfinds
      obtain ⟨order, horder⟩ := Option.ne_none_iff_exists'.1 hfinds
      obtain ⟨order', hanswer, -⟩ : ∃ order', (s.orders.commit x body.eventType body.force).1 = .ok order' ∧
          _ := OrderStore.commit_of_some horder
      have hexec : (Op.exec settings d (.commit x body.eventType body.force) s).1 = .ok order' := hanswer
      rw [hexec]
      exact .mirror _ fun _ => .published _ _ _ _ _ _ _
    · intro hlost
      have horder : s.orders x = none := Decidable.not_not.1 hlost
      have hexec : (Op.exec settings d (.commit x body.eventType body.force) s).1 =
          .error (unknownOrder x) := by
        simp only [Op.exec, OrderStore.commit_of_none horder]
      rw [hexec]
      exact ⟨rfl, _, _, _, rfl⟩
  | find hmoves =>
    rw [deleteOrder_eq] at hp
    cases hp
    refine ⟨fun _ => ?_, fun hlost => absurd trivial hlost⟩
    rcases (Op.exec settings d _ s).1 with _ | _
    · exact .answered (.deleteRefused _ (hmoves.concat rfl))
    · exact .tombstone (hmoves.concat rfl)
  | tombstone hmoves =>
    cases hp
    refine ⟨fun _ => ?_, fun hlost => absurd trivial hlost⟩
    have hkept := hmoves.ordersKept
    rcases (Op.exec settings d _ s).1 with (_ | _) | _
    · exact .answered (.deleteFailed _ (.inl rfl) (hkept.concat rfl))
    · exact .answered (.deleteFailed _ (.inr rfl) (hkept.concat rfl))
    · exact .remove
  | remove =>
    cases hp
    refine ⟨fun _ => ?_, fun hlost => absurd trivial hlost⟩
    rcases (Op.exec settings d _ s).1 with _ | _
    · exact .answered .deleted
    · exact .answered .deleted
  | view hmoves =>
    rw [getOrder_eq] at hp
    cases hp
    refine ⟨fun _ => ?_, fun hlost => absurd trivial hlost⟩
    rcases (Op.exec settings d _ s).1 with _ | order
    · exact .answered (.viewRefused _ (hmoves.concat rfl))
    · exact .answered (.viewed _)

/-! ## Runs -/

theorem not_documented {o e : String} {body : PublishEventRequest} :
    ¬ Documented (.publish o e body) moves internalServerError := by
  unfold internalServerError
  intro h
  cases h with
  | publishRefused _ hstatus _ => simp at hstatus
  | publishFailed _ hstatus _ => simp at hstatus

/-- The request committed an order that was gone, and ended in a `500`. -/
def Lost (requests : ι → Request) (s : Recorded Op.Answer Response ι AppState) (i : ι) : Prop :=
  s.pool.threads i = .done internalServerError ∧ ∃ o e body, requests i = .publish o e body

variable (api) in
/-- Each request is where it should be, or lost. -/
def Answering (requests : ι → Request) (s : Recorded Op.Answer Response ι AppState) : Prop :=
  ∀ i, Course api (requests i) (s.moves i) (s.pool.threads i) ∨ Lost requests s i

variable {requests : ι → Request} {s : Recorded Op.Answer Response ι AppState}

theorem Explained.course (h : Explained requests s) (hs : Answering api requests s) (i : ι) :
    Course api (requests i) (s.moves i) (s.pool.threads i) := by
  obtain hi | ⟨hdone, o, e, body, hr⟩ := hs i
  · exact hi
  · have hdocumented := h i _ hdone
    rw [hr] at hdocumented
    exact absurd hdocumented not_documented

variable [DecidableEq ι]

/-- What a step makes of each thread, from a state in which all answers are documented. -/
theorem Explained.advance (h : Explained requests s) (hs : Answering api requests s)
    (settings : ProducerSettings) (i : ι) (d : DeliveryFate) :
    let t := s.advance (Op.exec settings) i d
    (∀ j, j ≠ i → Course api (requests j) (t.moves j) (t.pool.threads j)) ∧
      (CommitFinds s (i, d) → Course api (requests i) (t.moves i) (t.pool.threads i)) ∧
      (¬ CommitFinds s (i, d) → Lost requests t i) := by
  intro t
  rcases hp : s.pool.threads i with a | ⟨o, k⟩
  · have ht : t = s := Recorded.advance_done hp
    have hfinds : CommitFinds s (i, d) := fun o ho => by
      rw [hp] at ho
      cases ho
    rw [ht]
    exact ⟨fun j _ => h.course hs j, fun _ => h.course hs i, fun hlost => absurd hfinds hlost⟩
  · have hmoves : t.moves i = s.moves i ++ [⟨o, s.pool.shared, (o.exec settings d s.pool.shared).2⟩] :=
      Recorded.moves_advance_self hp
    have hpool : t.pool = s.pool.advance (Op.exec settings) i d := Recorded.pool_advance
    have hfinds : CommitFinds s (i, d) ↔ o.Finds s.pool.shared := by
      simp only [CommitFinds, hp, Prog.next_op, Option.mem_some_iff, forall_eq']
    obtain ⟨hgoes, hlost⟩ := (h.course hs i).move hp settings s.pool.shared d
    refine ⟨fun j hj => ?_, ?_, ?_⟩
    · have hsame : t.moves j = s.moves j := Recorded.moves_advance_of_ne hj
      rw [hsame, hpool, Pool.threads_advance_of_ne hp hj]
      exact h.course hs j
    · rw [hfinds, hmoves, hpool, Pool.threads_advance_self hp]
      exact hgoes
    · rw [hfinds, Lost, hpool, Pool.threads_advance_self hp]
      exact hlost

variable (api) in
/-- The service when the requests of `ι` arrive. -/
def Serving.recorded (requests : ι → Request) (state : AppState) :
    Recorded Op.Answer Response ι AppState where
  pool := Serving.start api requests state

end OrderService
