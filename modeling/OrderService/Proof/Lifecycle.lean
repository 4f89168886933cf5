import Mathlib.Data.Fintype.Basic
import OrderService.Proof.Requests

/-!
# Concurrent publish requests

The transition guard and the sequence are one critical section, the recorded state moves in a later
one. While a request is between the two (`inFlight`), the state another one is checked against is
stale. `advance_lawful` is the step lemma: if no reservation is made meanwhile, the events of an
order are a legal lifecycle in the order of their sequences.
-/

namespace OrderService

open Eff Threads

variable {ι : Type} {api : Api} {settings : ProducerSettings} {orderId : String}

/-! ## The lifecycle of an order -/

/-- The lifecycle R1.5 allows. -/
def lifecycle : List EventType := [.orderCreated, .packed, .shipped, .delivered]

def OrderState.rank : OrderState → Nat
  | .created => 0
  | .packed => 1
  | .shipped => 2
  | .delivered => 3

/-- The events that lead to a state. -/
def lifecycleTo (s : OrderState) : List EventType := lifecycle.take (s.rank + 1)

theorem lifecycleTo_prefix (s : OrderState) : lifecycleTo s <+: lifecycle := List.take_prefix _ _

theorem lifecycleTo_step {t : EventType} {s : OrderState} (h : isLegalTransition t s) :
    lifecycleTo (resultingState t) = lifecycleTo s ++ [t] := by
  cases t <;> cases s <;> revert h <;> decide

theorem rank_step {t : EventType} {s : OrderState} (h : isLegalTransition t s) :
    (resultingState t).rank = s.rank + 1 := by
  cases t <;> cases s <;> revert h <;> decide

theorem lifecycleTo_getLast? (s : OrderState) :
    (lifecycleTo s).getLast?.map resultingState = some s := by
  cases s <;> rfl

/-- The topic tells the order's lifecycle up to its recorded state. -/
structure Registered (orderId : String) (s : AppState) (order : Order) : Prop where
  held : s.orders orderId = some order
  types : (s.eventsOf orderId).map (·.eventType) = lifecycleTo order.state
  increasing : ((s.eventsOf orderId).map (·.sequence)).Pairwise (· < ·)
  le_last : ∀ event ∈ s.eventsOf orderId, event.sequence ≤ order.lastSequence

/-! ## What the claim says of a state, and the condition on a step -/

/-- The request has a sequence of the order and has not yet advanced the order's state. -/
def Op.inFlight (orderId : String) : Op → Bool
  | .publishAndWait event => event.orderId = orderId
  | .commit o _ _ => o = orderId
  | _ => false

def inFlight (orderId : String) (p : Handler Response) : Bool := p.next.any (Op.inFlight orderId)

/-- The events on the topic are a legal lifecycle in the order of their sequences; when no request
is at work the order is in the state of the last one. -/
structure Lawful (orderId : String) (s : Serving ι) : Prop where
  legal : (s.shared.eventsOf orderId).map (·.eventType) <+: lifecycle
  ordered : ((s.shared.eventsOf orderId).map (·.sequence)).Pairwise (· < ·)
  settled : (∀ i, (s.threads i).next = none) → ∃ order event,
    s.shared.orders orderId = some order ∧
      (s.shared.eventsOf orderId).getLast? = some event ∧ order.state = resultingState event.eventType

def Op.publishes : Op → Bool
  | .publishAndWait _ => true
  | _ => false

/-- An event that is published is acknowledged. -/
def PublishAcked (s : Serving ι) (l : ι × DeliveryFate) : Prop :=
  (s.threads l.1).next.any Op.publishes = true → l.2.isAcked = true

/-- The order for which the operation reserves, if the order's state admits the event. -/
def Op.reserves (s : AppState) : Op → Option String
  | .reserve o t _ =>
    if (s.orders o).any fun order => isLegalTransition t order.state then some o else none
  | _ => none

/-- An event that the state of its order admits is given a sequence only while no other request has
one of this order in flight. -/
def OneAtATime (s : Serving ι) (l : ι × DeliveryFate) : Prop :=
  ∀ o ∈ (s.threads l.1).next.bind (Op.reserves s.shared), ∀ j, j ≠ l.1 →
    inFlight o (s.threads j) = false

instance {s : Serving ι} {l : ι × DeliveryFate} : Decidable (PublishAcked s l) :=
  inferInstanceAs (Decidable (_ → _))

instance [Fintype ι] [DecidableEq ι] {s : Serving ι} {l : ι × DeliveryFate} :
    Decidable (OneAtATime s l) :=
  inferInstanceAs (Decidable (∀ o ∈ (s.threads l.1).next.bind (Op.reserves s.shared), ∀ j, j ≠ l.1 →
    inFlight o (s.threads j) = false))

/-! ## The invariant -/

/-- What is known of the order when the request about to perform `op` is the one in flight. -/
def Advancing (orderId : String) (s : AppState) (order : Order) : Option Op → Prop
  | some (.publishAndWait event) =>
    event.orderId = orderId ∧ isLegalTransition event.eventType order.state ∧
      (∀ e ∈ s.eventsOf orderId, e.sequence < event.sequence) ∧
      event.sequence ≤ order.lastSequence ∧
      (s.eventsOf orderId).map (·.eventType) = lifecycleTo order.state
  | some (.commit o t force) =>
    o = orderId ∧ force = false ∧ isLegalTransition t order.state ∧
      (s.eventsOf orderId).map (·.eventType) = lifecycleTo (resultingState t)
  | _ => False

structure OrderInv (orderId : String) (s : Serving ι) (order : Order) : Prop where
  held : s.shared.orders orderId = some order
  increasing : ((s.shared.eventsOf orderId).map (·.sequence)).Pairwise (· < ·)
  le_last : ∀ event ∈ s.shared.eventsOf orderId, event.sequence ≤ order.lastSequence
  flight : (∀ i, inFlight orderId (s.threads i) = false) ∧
      (s.shared.eventsOf orderId).map (·.eventType) = lifecycleTo order.state ∨
    ∃ i, (∀ j, j ≠ i → inFlight orderId (s.threads j) = false) ∧
      Advancing orderId s.shared order (s.threads i).next

theorem Advancing.inFlight {s : AppState} {order : Order} {p : Handler Response}
    (h : Advancing orderId s order p.next) : inFlight orderId p = true := by
  unfold OrderService.inFlight
  cases hn : p.next with
  | none => rw [hn] at h; exact h.elim
  | some o =>
    rw [hn] at h
    cases o with
    | publishAndWait event => simpa [Op.inFlight] using h.1
    | commit o t force => simpa [Op.inFlight] using h.1
    | _ => exact h.elim

variable {s t : Serving ι} {order : Order}

theorem OrderInv.lawful (h : OrderInv orderId s order) : Lawful orderId s := by
  have htypes : ∃ st, (s.shared.eventsOf orderId).map (·.eventType) = lifecycleTo st := by
    obtain ⟨-, ht⟩ | ⟨i, -, hi⟩ := h.flight
    · exact ⟨_, ht⟩
    · cases hn : (s.threads i).next with
      | none => rw [hn] at hi; exact hi.elim
      | some o =>
        rw [hn] at hi
        cases o with
        | publishAndWait event => exact ⟨_, hi.2.2.2.2⟩
        | commit o t force => exact ⟨_, hi.2.2.2⟩
        | _ => exact hi.elim
  obtain ⟨st, hst⟩ := htypes
  refine ⟨hst ▸ lifecycleTo_prefix st, h.increasing, fun hdone => ?_⟩
  obtain ⟨-, ht⟩ | ⟨i, -, hi⟩ := h.flight
  · have hlast := lifecycleTo_getLast? order.state
    rw [← ht, List.getLast?_map] at hlast
    obtain ⟨event, hevent, hstate⟩ : ∃ event, (s.shared.eventsOf orderId).getLast? = some event ∧
        resultingState event.eventType = order.state := by simpa using hlast
    exact ⟨order, event, h.held, hevent, hstate.symm⟩
  · rw [hdone i] at hi
    exact hi.elim

theorem Registered.inv (h : Registered orderId s.shared order)
    (hidle : ∀ i, inFlight orderId (s.threads i) = false) : OrderInv orderId s order :=
  ⟨h.held, h.increasing, h.le_last, .inl ⟨hidle, h.types⟩⟩

/-- A new order, once its creation is announced and it is registered. -/
theorem registered_create {state : AppState} {e : String} {result : DeliveryResult} {d : DeliveryFate}
    {payload : OrderCreatedPayload} (hnew : state.eventsOf orderId = []) :
    let announced := ((Op.publishAndWait ⟨e, orderId, 1, .orderCreated, le_rfl⟩).exec settings
      (.acked result) state).2
    let (order, registered) := (Op.register orderId payload).exec settings d announced
    Registered orderId registered order := by
  intro announced
  have hevents : announced.eventsOf orderId = [⟨e, orderId, 1, .orderCreated, le_rfl⟩] := by
    change List.filter _ (state.topics.lifecycle ++ [_]) = _
    rw [List.filter_append]
    change state.eventsOf orderId ++ _ = _
    rw [hnew]
    simp
  refine ⟨Function.update_self _ _ _, ?_, ?_, ?_⟩
  · change (announced.eventsOf orderId).map _ = _
    rw [hevents]
    rfl
  · change ((announced.eventsOf orderId).map _).Pairwise _
    rw [hevents]
    exact List.pairwise_singleton _ _
  · intro event he
    change event ∈ announced.eventsOf orderId at he
    rw [hevents, List.mem_singleton] at he
    rw [he]

/-- Nothing of the order changed, nor which request has it in flight. -/
theorem OrderInv.frame (h : OrderInv orderId s order) (horders : t.shared.orders orderId = s.shared.orders orderId)
    (hevents : t.shared.eventsOf orderId = s.shared.eventsOf orderId)
    (hthreads : ∀ j, t.threads j = s.threads j ∨
      inFlight orderId (s.threads j) = false ∧ inFlight orderId (t.threads j) = false) :
    OrderInv orderId t order := by
  have hfalse : ∀ j, inFlight orderId (s.threads j) = false → inFlight orderId (t.threads j) = false := by
    intro j hj
    obtain heq | ⟨-, hf⟩ := hthreads j
    · rw [heq]; exact hj
    · exact hf
  refine ⟨horders ▸ h.held, hevents ▸ h.increasing, fun event he => h.le_last event (hevents ▸ he), ?_⟩
  obtain ⟨hidle, ht⟩ | ⟨i, hothers, hi⟩ := h.flight
  · exact .inl ⟨fun j => hfalse j (hidle j), hevents ▸ ht⟩
  · refine .inr ⟨i, fun j hj => hfalse j (hothers j hj), ?_⟩
    have heq : t.threads i = s.threads i := by
      obtain heq | ⟨hf, -⟩ := hthreads i
      · exact heq
      · rw [hi.inFlight] at hf
        cases hf
    rw [heq]
    cases hn : (s.threads i).next with
    | none => rw [hn] at hi; exact hi.elim
    | some o =>
      rw [hn] at hi
      cases o with
      | publishAndWait event => simpa only [Advancing, hevents] using hi
      | commit o t force => simpa only [Advancing, hevents] using hi
      | _ => exact hi.elim

/-- When a request is seen in flight it is the one. -/
theorem OrderInv.advancing (h : OrderInv orderId s order) {i : ι} (hi : inFlight orderId (s.threads i) = true) :
    (∀ j, j ≠ i → inFlight orderId (s.threads j) = false) ∧
      Advancing orderId s.shared order (s.threads i).next := by
  obtain ⟨hidle, -⟩ | ⟨i', hothers, hadv⟩ := h.flight
  · rw [hidle i] at hi
    cases hi
  · have heq : i = i' := by
      by_contra hne
      rw [hothers i hne] at hi
      cases hi
    subst heq
    exact ⟨hothers, hadv⟩

/-! ## One step -/

variable [DecidableEq ι] {requests : ι → Request} {i : ι} {d : DeliveryFate}

/-- A thread that is not in flight on the order moves, and leaves the order alone. -/
theorem OrderInv.frame_advance (h : OrderInv orderId s order) {o : Op} {k : o.Answer → Handler Response}
    (hp : s.threads i = .op o k)
    (horders : (o.exec settings d s.shared).2.orders orderId = s.shared.orders orderId)
    (hevents : (o.exec settings d s.shared).2.eventsOf orderId = s.shared.eventsOf orderId)
    (hbefore : o.inFlight orderId = false)
    (hafter : inFlight orderId (k (o.exec settings d s.shared).1) = false) :
    OrderInv orderId (s.advance (Op.exec settings) i d) order := by
  refine h.frame (by rw [Pool.shared_advance hp]; exact horders)
    (by rw [Pool.shared_advance hp]; exact hevents) fun j => ?_
  rcases eq_or_ne j i with rfl | hj
  · rw [Pool.threads_advance_self hp, hp]
    exact .inr ⟨hbefore, hafter⟩
  · exact .inl (Pool.threads_advance_of_ne hp hj)

/-- What the request in flight does next, the others staying where they are. -/
theorem OrderInv.of_advancing {order' : Order} {o : Op} {k : o.Answer → Handler Response}
    (hp : s.threads i = .op o k) (hothers : ∀ j, j ≠ i → inFlight orderId (s.threads j) = false)
    (hheld : (o.exec settings d s.shared).2.orders orderId = some order')
    (hincreasing : (((o.exec settings d s.shared).2.eventsOf orderId).map (·.sequence)).Pairwise (· < ·))
    (hle : ∀ event ∈ (o.exec settings d s.shared).2.eventsOf orderId,
      event.sequence ≤ order'.lastSequence)
    (hflight : inFlight orderId (k (o.exec settings d s.shared).1) = false ∧
        ((o.exec settings d s.shared).2.eventsOf orderId).map (·.eventType)
          = lifecycleTo order'.state ∨
      Advancing orderId (o.exec settings d s.shared).2 order'
        (k (o.exec settings d s.shared).1).next) :
    OrderInv orderId (s.advance (Op.exec settings) i d) order' := by
  have hothers' : ∀ j, j ≠ i →
      inFlight orderId ((s.advance (Op.exec settings) i d).threads j) = false := fun j hj => by
    rw [Pool.threads_advance_of_ne hp hj]
    exact hothers j hj
  refine ⟨by rw [Pool.shared_advance hp]; exact hheld, by rw [Pool.shared_advance hp]; exact hincreasing,
    by rw [Pool.shared_advance hp]; exact hle, ?_⟩
  rw [Pool.shared_advance hp]
  obtain ⟨hidle, ht⟩ | hadv := hflight
  · refine .inl ⟨fun j => ?_, ht⟩
    rcases eq_or_ne j i with rfl | hj
    · rw [Pool.threads_advance_self hp]; exact hidle
    · exact hothers' j hj
  · refine .inr ⟨i, hothers', ?_⟩
    rw [Pool.threads_advance_self hp]
    exact hadv

/-- A reservation of the order, with nothing of it in flight. -/
theorem OrderInv.reserve {e : String} {body : PublishEventRequest} (h : OrderInv orderId s order)
    (hp : s.threads i = reserving orderId e body) (hforce : body.force = false)
    (hone : OneAtATime s (i, d)) : ∃ order', OrderInv orderId (s.advance (Op.exec settings) i d) order' ∧
      order.state.rank ≤ order'.state.rank := by
  cases hlegal : isLegalTransition body.eventType order.state with
  | false =>
    have hexec : (Op.reserve orderId body.eventType body.force).exec settings d s.shared =
        (.error (.inr ⟨orderId, order.state, body.eventType, expectedNextEvent order.state⟩), s.shared) := by
      simp only [Op.exec, hforce, OrderStore.reserve_of_not_legal h.held hlegal]
    refine ⟨order, h.frame_advance hp ?_ ?_ rfl ?_, le_rfl⟩
    all_goals rw [hexec]
    rfl
  | true =>
    have hothers : ∀ j, j ≠ i → inFlight orderId (s.threads j) = false :=
      hone orderId (by simp [hp, reserving, Op.reserves, h.held, hlegal])
    have hidle : ∀ j, inFlight orderId (s.threads j) = false := fun j => by
      rcases eq_or_ne j i with rfl | hj
      · rw [hp]; rfl
      · exact hothers j hj
    have htypes : (s.shared.eventsOf orderId).map (·.eventType) = lifecycleTo order.state := by
      obtain ⟨-, ht⟩ | ⟨j, -, hj⟩ := h.flight
      · exact ht
      · have := hj.inFlight
        rw [hidle j] at this
        cases this
    have hexec : (Op.reserve orderId body.eventType body.force).exec settings d s.shared =
        (.ok ⟨order.lastSequence + 1, Nat.succ_pos _⟩,
          ⟨Function.update s.shared.orders orderId
            (some { order with lastSequence := order.lastSequence + 1 }), s.shared.topics⟩) := by
      simp only [Op.exec, OrderStore.reserve_of_legal h.held (.inr hlegal)]
    refine ⟨{ order with lastSequence := order.lastSequence + 1 },
      .of_advancing hp hothers ?_ ?_ ?_ (.inr ?_), le_rfl⟩
    all_goals rw [hexec]
    · exact Function.update_self _ _ _
    · exact h.increasing
    · exact fun event he => (h.le_last event he).trans (Nat.le_succ _)
    · exact ⟨rfl, hlegal, fun event he => Nat.lt_succ_of_le (h.le_last event he), le_rfl, htypes⟩

/-- The event in flight is acknowledged. -/
theorem OrderInv.publish {e : String} {body : PublishEventRequest} {sequence : Sequence}
    {result : DeliveryResult} (h : OrderInv orderId s order)
    (hp : s.threads i = publishing orderId e body sequence) (hforce : body.force = false) :
    OrderInv orderId (s.advance (Op.exec settings) i (.acked result)) order := by
  let event : LifecycleEvent := ⟨e, orderId, sequence, body.eventType, sequence.2⟩
  obtain ⟨hothers, hadv⟩ := h.advancing (i := i) (by rw [hp]; simp [publishing, inFlight, Op.inFlight])
  rw [hp] at hadv
  obtain ⟨-, hlegal, hlt, hle, htypes⟩ := hadv
  have hexec : (Op.publishAndWait event).exec settings (.acked result) s.shared =
      (.ok result, { s.shared with
        topics := { s.shared.topics with lifecycle := s.shared.topics.lifecycle ++ [event] } }) := rfl
  have hevents : ((Op.publishAndWait event).exec settings (.acked result) s.shared).2.eventsOf orderId =
      s.shared.eventsOf orderId ++ [event] := by
    rw [hexec]
    simp [AppState.eventsOf, event]
  refine .of_advancing hp hothers h.held ?_ ?_ (.inr ?_)
  · change ((((Op.publishAndWait event).exec settings (.acked result) s.shared).2.eventsOf orderId).map
      (·.sequence)).Pairwise (· < ·)
    rw [hevents, List.map_append, List.pairwise_append]
    refine ⟨h.increasing, List.pairwise_singleton _ _, fun m hm n hn => ?_⟩
    obtain ⟨event', he', rfl⟩ := List.mem_map.1 hm
    cases List.mem_singleton.1 hn
    exact hlt event' he'
  · intro event' he'
    change event' ∈ ((Op.publishAndWait event).exec settings (.acked result) s.shared).2.eventsOf orderId
      at he'
    rw [hevents, List.mem_append] at he'
    obtain he' | he' := he'
    · exact h.le_last event' he'
    · cases List.mem_singleton.1 he'
      exact hle
  · refine ⟨rfl, hforce, hlegal, ?_⟩
    change (((Op.publishAndWait event).exec settings (.acked result) s.shared).2.eventsOf orderId).map
      (·.eventType) = _
    rw [hevents, List.map_append, htypes, lifecycleTo_step hlegal]
    rfl

/-- The request in flight advances the order's state. -/
theorem OrderInv.commit {body : PublishEventRequest} {sequence : Sequence} {result : DeliveryResult}
    (h : OrderInv orderId s order) (hp : s.threads i = committing orderId body sequence result) :
    ∃ order', OrderInv orderId (s.advance (Op.exec settings) i d) order' ∧
      order.state.rank ≤ order'.state.rank := by
  obtain ⟨hothers, hadv⟩ := h.advancing (i := i) (by rw [hp]; simp [committing, inFlight, Op.inFlight])
  rw [hp] at hadv
  obtain ⟨-, hforce, hlegal, htypes⟩ := hadv
  have hexec : (Op.commit orderId body.eventType body.force).exec settings d s.shared =
      (.ok { order with state := resultingState body.eventType },
        ⟨Function.update s.shared.orders orderId
          (some { order with state := resultingState body.eventType }), s.shared.topics⟩) := by
    simp only [Op.exec, OrderStore.commit_of_legal h.held (.inl hforce)]
  refine ⟨{ order with state := resultingState body.eventType },
    .of_advancing hp hothers ?_ ?_ ?_ (.inl ?_), by rw [rank_step hlegal]; exact Nat.le_succ _⟩
  all_goals rw [hexec]
  · exact Function.update_self _ _ _
  · exact h.increasing
  · exact h.le_last
  · exact ⟨rfl, htypes⟩

/-- A publish request of another order moves. -/
theorem OrderInv.other (h : OrderInv orderId s order) {o : Op} {k : o.Answer → Handler Response}
    (hp : s.threads i = .op o k) (hne : orderId ≠ o.subject)
    (hafter : inFlight orderId (k (o.exec settings d s.shared).1) = false) :
    OrderInv orderId (s.advance (Op.exec settings) i d) order := by
  refine h.frame_advance hp (orders_exec_of_ne hne) (eventsOf_exec_of_ne hne) ?_ hafter
  cases o with
  | publishAndWait event => simpa [Op.inFlight, Op.subject] using Ne.symm hne
  | commit o t force => simpa [Op.inFlight, Op.subject] using Ne.symm hne
  | _ => rfl

/-- **The step lemma**: a publish request moves, and reserves only while it is alone. -/
theorem OrderInv.advance {r : Request} (h : OrderInv orderId s order)
    (hr : ∃ o e body, r = .publish o e body ∧ body.force = false)
    (hstand : Stands api r (s.threads i)) (hacked : PublishAcked s (i, d)) (hone : OneAtATime s (i, d)) :
    ∃ order', OrderInv orderId (s.advance (Op.exec settings) i d) order' ∧
      order.state.rank ≤ order'.state.rank := by
  obtain ⟨o, e, body, rfl, hforce⟩ := hr
  generalize hp : s.threads i = p at hstand
  cases hstand with
  | answered response => exact ⟨order, by rw [Pool.advance_done hp]; exact h, le_rfl⟩
  | mirrorPublished order' response =>
    refine ⟨order, h.frame_advance hp rfl ?_ rfl rfl, le_rfl⟩
    simp only [Op.exec, LifecycleEventProducer.publishSnapshot, AppState.eventsOf]
    split <;> rfl
  | check =>
    rw [publishEvent_eq] at hp
    refine ⟨order, h.frame_advance hp rfl rfl rfl ?_, le_rfl⟩
    dsimp only [Op.exec, OrderStore.get]
    cases s.shared.orders o with
    | none => rfl
    | some found =>
      dsimp only
      cases api.validatePayload body.eventType body.payload <;> rfl
  | reserve =>
    obtain rfl | hne := eq_or_ne orderId o
    · exact h.reserve hp hforce hone
    · refine ⟨order, h.other hp hne ?_, le_rfl⟩
      rcases ((Op.reserve o body.eventType body.force).exec settings d s.shared).1 with
        (_ | _) | sequence
      · rfl
      · rfl
      · simpa [publishing, inFlight, Op.inFlight] using Ne.symm hne
  | publish sequence =>
    obtain ⟨result, rfl⟩ := DeliveryFate.isAcked_iff.1 (hacked (by rw [hp]; rfl))
    obtain rfl | hne := eq_or_ne orderId o
    · exact ⟨order, h.publish hp hforce, le_rfl⟩
    · refine ⟨order, h.other hp hne ?_, le_rfl⟩
      simpa [Op.exec, LifecycleEventProducer.publishAndWait, publishBlocking, committing, inFlight,
        Op.inFlight] using Ne.symm hne
  | commit sequence result' =>
    obtain rfl | hne := eq_or_ne orderId o
    · exact h.commit hp
    · refine ⟨order, h.other hp hne ?_, le_rfl⟩
      cases ((Op.commit o body.eventType body.force).exec settings d s.shared).1 <;> rfl

/-! ## Runs -/

section

variable {state : AppState} {ticks : List (ι × DeliveryFate)}
  (hrequests : ∀ i, ∃ o e body, requests i = .publish o e body ∧ body.force = false)
include hrequests

/-- The step lemma as a rule of runs: the order is never behind rank `n`. -/
theorem wp_step_orderInv (n : Nat) (s : Serving ι) (l : ι × DeliveryFate)
    (h : (∃ order, OrderInv orderId s order ∧ n ≤ order.state.rank) ∧ AllStand api requests s)
    (hl : PublishAcked s l ∧ OneAtATime s l) :
    wp (Serving.step settings l) (fun _ t => (∃ order, OrderInv orderId t order ∧
      n ≤ order.state.rank) ∧ AllStand api requests t) (fun _ _ => False) s := by
  obtain ⟨⟨order, hinv, hn⟩, hstand⟩ := h
  obtain ⟨order', hinv', hrank⟩ : ∃ order', OrderInv orderId (s.advance (Op.exec settings) l.1 l.2) order' ∧
      order.state.rank ≤ order'.state.rank :=
    hinv.advance (hrequests l.1) (hstand l.1) hl.1 hl.2
  exact ⟨⟨order', hinv', hn.trans hrank⟩, hstand.advance l.1 l.2⟩

/-- Non-forced publish requests, the order registered before: if an event that the order's state
admits is given a sequence only while no other is in flight, the topic tells a legal lifecycle in the
order of the sequences and the recorded state only advances. -/
theorem lifecycle_lawful (hregistered : Registered orderId state order)
    (hacked : Along (Serving.step settings) PublishAcked ticks (.start api requests state))
    (hone : Along (Serving.step settings) OneAtATime ticks (.start api requests state)) :
    Throughout (Serving.step settings) (Lawful orderId) ticks (.start api requests state) ∧
    ∀ pre mid post, ticks = pre ++ mid ++ post → ∀ order order',
      (Pool.after (Op.exec settings) pre (Serving.start api requests state)).shared.orders orderId
        = some order →
      (Pool.after (Op.exec settings) (pre ++ mid) (Serving.start api requests state)).shared.orders orderId
        = some order' →
      order.state.rank ≤ order'.state.rank := by
  have hidle : ∀ i, inFlight orderId ((Serving.start api requests state).threads i) = false := by
    intro i
    obtain ⟨o, e, body, hr, -⟩ := hrequests i
    change inFlight orderId ((requests i).handler api) = false
    rw [hr]
    rfl
  have hstart : (∃ order, OrderInv orderId (Serving.start api requests state) order ∧ 0 ≤ order.state.rank) ∧
      AllStand api requests (Serving.start api requests state) :=
    ⟨⟨order, Registered.inv hregistered hidle, Nat.zero_le _⟩, allStand_start state⟩
  have hboth := hacked.and hone
  refine ⟨throughout_of_invariant (wp_step_orderInv hrequests 0) ?_ hstart hboth,
    fun pre mid post heq order order' hpre hmid => ?_⟩
  · rintro s ⟨⟨order, hinv, -⟩, -⟩
    exact hinv.lawful
  subst heq
  have hrunPre := Pool.exec_run (Op.exec settings) pre (Serving.start api requests state)
  have hrunMid := Pool.exec_run (Op.exec settings) mid
    (Pool.after (Op.exec settings) pre (Serving.start api requests state))
  obtain ⟨⟨order₁, hinv₁, -⟩, hstand₁⟩ := run_invariant (wp_step_orderInv hrequests 0) hstart
    hboth.take.take hrunPre
  obtain ⟨⟨order₂, hinv₂, hrank⟩, -⟩ := run_invariant (wp_step_orderInv hrequests order₁.state.rank)
    ⟨⟨order₁, hinv₁, le_rfl⟩, hstand₁⟩ (hboth.take.drop hrunPre) hrunMid
  rw [← Pool.after_append] at hinv₂
  cases hinv₁.held.symm.trans hpre
  cases hinv₂.held.symm.trans hmid
  exact hrank

end

/-! ## Two requests for one order -/

def plainApi : Api := ⟨id, fun _ => none, fun _ => none⟩

def justCreated : Order where
  orderId := "o"
  customerId := "c"
  items := []
  totalAmount := 0
  payment := ⟨.card, "free", 0, by decide⟩
  state := .created
  lastSequence := 1

/-- The order `"o"` was created and announced. -/
def oneOrder : AppState where
  orders := Function.update (fun _ => none) "o" (some justCreated)
  topics := { lifecycle := [⟨"e1", "o", 1, .orderCreated, Nat.one_pos⟩] }

theorem registered_oneOrder : Registered "o" oneOrder justCreated := by
  refine ⟨rfl, rfl, List.pairwise_singleton _ _, fun event he => ?_⟩
  cases List.mem_singleton.1 he
  exact le_rfl

/-- Whoever moves, what it publishes is acknowledged. -/
def acked (i : Bool) : Bool × DeliveryFate := (i, .acked ⟨0, 0⟩)

def packThenShip : Bool → Request
  | false => .publish "o" "e2" { eventType := .packed }
  | true => .publish "o" "e3" { eventType := .shipped }

/-- Both requests are received at once; the second one reserves when the first has committed. -/
theorem lifecycle_lawful_packThenShip :
    let ticks := [acked false, acked true, acked false, acked false, acked false, acked true,
      acked true, acked false, acked true, acked true]
    let s := Serving.start plainApi packThenShip oneOrder
    (Along (Serving.step {}) PublishAcked ticks s ∧ Along (Serving.step {}) OneAtATime ticks s) ∧
      Throughout (Serving.step {}) (Lawful "o") ticks s := by
  intro ticks s
  have hacked : Along (Serving.step {}) PublishAcked ticks s := by
    refine .cons ?_ (.cons ?_ (.cons ?_ (.cons ?_ (.cons ?_ (.cons ?_ (.cons ?_ (.cons ?_ (.cons ?_
      (.cons ?_ trivial)))))))))
    all_goals decide +kernel
  have hone : Along (Serving.step {}) OneAtATime ticks s := by
    refine .cons ?_ (.cons ?_ (.cons ?_ (.cons ?_ (.cons ?_ (.cons ?_ (.cons ?_ (.cons ?_ (.cons ?_
      (.cons ?_ trivial)))))))))
    all_goals decide +kernel
  have hrequests : ∀ i, ∃ o e body, packThenShip i = .publish o e body ∧ body.force = false := by
    intro i
    cases i with
    | false => exact ⟨_, _, _, rfl, rfl⟩
    | true => exact ⟨_, _, _, rfl, rfl⟩
  exact ⟨⟨hacked, hone⟩, (lifecycle_lawful hrequests registered_oneOrder hacked hone).1⟩

def packTwice : Bool → Request
  | false => .publish "o" "e2" { eventType := .packed }
  | true => .publish "o" "e3" { eventType := .packed }

/-- Both requests reserve before either commits, and the second one is on the topic first. -/
def packRace : List (Bool × DeliveryFate) :=
  [acked false, acked true, acked false, acked true, acked true, acked false, acked true, acked false,
    acked true, acked false]

/-- Both are answered with success; the order was packed twice, its later sequence first. -/
theorem packed_twice :
    let t := Pool.after (Op.exec {}) packRace (Serving.start plainApi packTwice oneOrder)
    Along (Serving.step {}) PublishAcked packRace (Serving.start plainApi packTwice oneOrder) ∧
    (∀ i, ∃ sequence, t.threads i = .done (.published "o" sequence .packed "PACKED" 0 0 false)) ∧
    (t.shared.eventsOf "o").map (fun event => (event.eventType, event.sequence)) =
      [(.orderCreated, 1), (.packed, 3), (.packed, 2)] ∧
    ¬ Lawful "o" t := by
  refine ⟨?_, fun i => ?_, by decide +kernel, fun h => ?_⟩
  · refine .cons ?_ (.cons ?_ (.cons ?_ (.cons ?_ (.cons ?_ (.cons ?_ (.cons ?_ (.cons ?_ (.cons ?_
      (.cons ?_ trivial)))))))))
    all_goals decide +kernel
  · cases i with
    | false => exact ⟨2, rfl⟩
    | true => exact ⟨3, rfl⟩
  · have hlegal := h.legal
    revert hlegal
    decide +kernel

end OrderService
