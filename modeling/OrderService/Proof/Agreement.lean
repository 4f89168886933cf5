import OrderService.Proof.Lifecycle
import OrderService.Proof.Violations

/-!
# The two sides agree on an order

Requests one at a time: a publication that fails burns a sequence and nothing else, one that is
acknowledged advances the recorded state. `Chronicle` is what the attempts of an order then look
like; the producer's state follows from it (`chronicled_serve`) and so does the fold of a consumer
that reads the acknowledged ones (`Chronicle.consumed`).
-/

namespace OrderService

open Eff Threads

/-! ## One request -/

variable {api : Api} {settings : ProducerSettings} {s s' : AppState} {k : String}

/-- The order a request creates. -/
def Request.creates : Request → Option String
  | .create orderId _ _ => some orderId
  | _ => none

/-- What a request does to the orders and to the lifecycle topic, and the events it attempts. -/
inductive Outcome (r : Request) (s s' : AppState) : List (LifecycleEvent × Bool) → Prop
  | idle : s'.orders = s.orders → s'.topics.lifecycle = s.topics.lifecycle → Outcome r s s' []
  | notCreated (e : LifecycleEvent) : r.creates = some e.orderId → s'.orders = s.orders →
      s'.topics.lifecycle = s.topics.lifecycle → Outcome r s s' [(e, false)]
  | created (e : LifecycleEvent) (order : Order) : r.creates = some e.orderId → e.sequence = 1 →
      e.eventType = .orderCreated → order.state = .created → order.lastSequence = 1 →
      s'.orders = Function.update s.orders e.orderId (some order) →
      s'.topics.lifecycle = s.topics.lifecycle ++ [e] → Outcome r s s' [(e, true)]
  | burned (e : LifecycleEvent) (order : Order) : s.orders e.orderId = some order →
      e.sequence = order.lastSequence + 1 →
      s'.orders = Function.update s.orders e.orderId
        (some { order with lastSequence := e.sequence }) →
      s'.topics.lifecycle = s.topics.lifecycle → Outcome r s s' [(e, false)]
  | advanced (e : LifecycleEvent) (order : Order) : s.orders e.orderId = some order →
      e.sequence = order.lastSequence + 1 → legalPredecessor e.eventType = some order.state →
      s'.orders = Function.update s.orders e.orderId
        (some { order with lastSequence := e.sequence, state := resultingState e.eventType }) →
      s'.topics.lifecycle = s.topics.lifecycle ++ [e] → Outcome r s s' [(e, true)]

/-- A creation, or a publication that is not forced. -/
def Request.Plain : Request → Prop
  | .create _ _ _ => True
  | .publish _ _ body => body.force = false
  | .delete _ | .view _ => False

/-- The event was acknowledged, or is not on the topic. -/
def Visit.Decided (x : Visit) : Prop := x.event.isAcked = true ∨ x.event.stored = false

variable (settings s) in
/-- What `_publish` makes of a decided event. -/
theorem exec_publishAndWait {d : DeliveryFate} (h : d.isAcked = true ∨ d.stored = false)
    (event : LifecycleEvent) :
    (d.isAcked = true ∧ ∃ result, Op.exec settings d (.publishAndWait event) s = (.ok result,
      { s with topics := { s.topics with lifecycle := s.topics.lifecycle ++ [event] } })) ∨
    (d.isAcked = false ∧ ∃ error, Op.exec settings d (.publishAndWait event) s = (.error error, s)) := by
  cases d with
  | acked result => exact .inl ⟨rfl, result, rfl⟩
  | refused detail => exact .inr ⟨rfl, _, rfl⟩
  | reported stored detail =>
    obtain h | h := h
    · cases h
    · cases h
      exact .inr ⟨rfl, _, rfl⟩
  | silent stored missing =>
    obtain h | h := h
    · cases h
    · cases h
      cases missing <;> exact .inr ⟨rfl, _, rfl⟩

section

variable {x : Visit} (hx : x.Decided)
include hx

theorem outcome_create {orderId eventId : String} {body : CreateOrderRequest}
    (hr : x.request = .create orderId eventId body) :
    Outcome x.request s (x.serve api settings s) (x.attempts api settings s) := by
  unfold Visit.serve Visit.attempts
  rw [hr]
  change Outcome _ s ((createOrder api orderId eventId body).run _ s).2
    (((createOrder api orderId eventId body).trace _ s).filterMap _)
  rw [createOrder_eq]
  cases body.toPayload with
  | error detail => exact .idle rfl rfl
  | ok payload =>
    have hexec := exec_publishAndWait settings s hx
      ⟨eventId, orderId, 1, .orderCreated, le_rfl⟩
    obtain ⟨hacked, result, hexec⟩ | ⟨hnot, error, hexec⟩ := hexec
    · simp only [creating, Prog.run, Prog.trace, Visit.fate, hexec, hacked]
      exact .created ⟨eventId, orderId, 1, .orderCreated, le_rfl⟩ _ rfl rfl rfl rfl rfl rfl
        (by simp [registering, mirroring, Prog.run, Op.exec])
    · simp only [creating, Prog.run, Prog.trace, Visit.fate, hexec, hnot]
      cases error <;> exact .notCreated _ rfl rfl rfl

theorem outcome_publish {orderId eventId : String} {body : PublishEventRequest}
    (hr : x.request = .publish orderId eventId body) (hforce : body.force = false) :
    Outcome x.request s (x.serve api settings s) (x.attempts api settings s) := by
  unfold Visit.serve Visit.attempts
  rw [hr]
  change Outcome _ s ((publishEvent api orderId eventId body).run _ s).2
    (((publishEvent api orderId eventId body).trace _ s).filterMap _)
  rw [publishEvent_eq]
  simp only [Prog.run, Prog.trace, Op.exec, OrderStore.get]
  cases ho : s.orders orderId with
  | none => exact .idle rfl rfl
  | some order =>
    cases api.validatePayload body.eventType body.payload with
    | some detail => exact .idle rfl rfl
    | none =>
      simp only [reserving, Prog.run, Prog.trace, Op.exec, hforce]
      cases hlegal : isLegalTransition body.eventType order.state with
      | false =>
        rw [OrderStore.reserve_of_not_legal ho hlegal]
        exact .idle rfl rfl
      | true =>
        rw [OrderStore.reserve_of_legal ho (.inr hlegal)]
        obtain ⟨t, ht⟩ : ∃ t : AppState, t = ⟨Function.update s.orders orderId
          (some { order with lastSequence := order.lastSequence + 1 }), s.topics⟩ := ⟨_, rfl⟩
        simp only [← ht]
        have hexec := exec_publishAndWait settings t hx
          ⟨eventId, orderId, order.lastSequence + 1, body.eventType, Nat.succ_pos _⟩
        obtain ⟨hacked, result, hexec⟩ | ⟨hnot, error, hexec⟩ := hexec
        · have hheld : t.orders orderId = some { order with lastSequence := order.lastSequence + 1 } := by
            rw [ht]
            exact Function.update_self _ _ _
          have hcommit := OrderStore.commit_of_legal (t := body.eventType) hheld (.inl rfl)
          simp only [publishing, Prog.run, Prog.trace, Visit.fate, hexec, hacked]
          simp only [committing, Prog.run, Prog.trace, Op.exec, hforce, hcommit]
          refine .advanced ⟨eventId, orderId, order.lastSequence + 1, body.eventType, Nat.succ_pos _⟩
            order ho rfl (by simpa [isLegalTransition] using hlegal) ?_ ?_
          · simp [mirroring, Prog.run, Op.exec, ht]
          · simp [mirroring, Prog.run, Op.exec, ht]
        · simp only [publishing, Prog.run, Prog.trace, Visit.fate, hexec, hnot]
          let e : LifecycleEvent :=
            ⟨eventId, orderId, order.lastSequence + 1, body.eventType, Nat.succ_pos _⟩
          have hburned : Outcome (.publish orderId eventId body) s t [(e, false)] :=
            .burned e order ho rfl (by rw [ht]) (by rw [ht])
          cases error <;> exact hburned

variable (api settings s) in
/-- **The step lemma**: every plain request whose event is decided has one of the five outcomes. -/
theorem outcome_serve (hplain : x.request.Plain) :
    Outcome x.request s (x.serve api settings s) (x.attempts api settings s) := by
  rcases hr : x.request with ⟨o, e, body⟩ | ⟨o, e, body⟩ | o | o
  · exact hr ▸ outcome_create hx hr
  · rw [hr] at hplain
    exact hr ▸ outcome_publish hx hr hplain
  · rw [hr] at hplain
    exact hplain.elim
  · rw [hr] at hplain
    exact hplain.elim

end

/-! ## The attempts of one order -/

/-- Events attempted, oldest first, each with whether it was acknowledged. -/
abbrev Attempts := List (LifecycleEvent × Bool)

def acknowledged (a : Attempts) : List LifecycleEvent := (a.filter (·.2)).map Prod.fst

def attemptsOf (k : String) (a : Attempts) : Attempts := a.filter (·.1.orderId = k)

/-- The last attempt failed; `failed` if there is none. -/
def failedLast (failed : Bool) (a : Attempts) : Bool := (a.getLast?.map (!·.2)).getD failed

/-- The acknowledged events that directly follow a failed attempt. -/
def afterFailure : Bool → Attempts → List LifecycleEvent
  | _, [] => []
  | failed, (e, acked) :: a => (if failed && acked then [e] else []) ++ afterFailure (!acked) a

@[simp] theorem acknowledged_concat_true (a : Attempts) (e : LifecycleEvent) :
    acknowledged (a ++ [(e, true)]) = acknowledged a ++ [e] := by
  simp [acknowledged]

@[simp] theorem acknowledged_concat_false (a : Attempts) (e : LifecycleEvent) :
    acknowledged (a ++ [(e, false)]) = acknowledged a := by
  simp [acknowledged]

@[simp] theorem failedLast_concat (failed : Bool) (a : Attempts) (x : LifecycleEvent × Bool) :
    failedLast failed (a ++ [x]) = !x.2 := by
  simp [failedLast]

theorem failedLast_cons (failed : Bool) (x : LifecycleEvent × Bool) (a : Attempts) :
    failedLast failed (x :: a) = failedLast (!x.2) a := by
  cases a <;> simp [failedLast, List.getLast?_cons]

theorem afterFailure_concat (failed : Bool) (a : Attempts) (x : LifecycleEvent × Bool) :
    afterFailure failed (a ++ [x]) =
      afterFailure failed a ++ if failedLast failed a && x.2 then [x.1] else [] := by
  induction a generalizing failed with
  | nil => simp [afterFailure, failedLast]
  | cons y a ih =>
    rw [List.cons_append, afterFailure, ih, afterFailure, failedLast_cons, List.append_assoc]

theorem afterFailure_of_acknowledged_nil {a : Attempts} (failed : Bool) (h : acknowledged a = []) :
    afterFailure failed a = [] := by
  induction a generalizing failed with
  | nil => rfl
  | cons x a ih =>
    obtain ⟨e, b⟩ := x
    cases b with
    | true => simp [acknowledged] at h
    | false =>
      rw [afterFailure, ih]
      · simp
      · simpa [acknowledged] using h

/-- The attempts that bring an order to a state and to a sequence: its creation, then attempts at the
next sequence, of which the acknowledged ones are legal. -/
inductive Chronicle : Attempts → OrderState → Nat → Prop
  | created (e : LifecycleEvent) : e.sequence = 1 → e.eventType = .orderCreated →
      Chronicle [(e, true)] .created 1
  | failed {a : Attempts} {state : OrderState} {n : Nat} (e : LifecycleEvent) :
      Chronicle a state n → Chronicle (a ++ [(e, false)]) state (n + 1)
  | acked {a : Attempts} {state : OrderState} {n : Nat} (e : LifecycleEvent) :
      Chronicle a state n → e.sequence = n + 1 → legalPredecessor e.eventType = some state →
      Chronicle (a ++ [(e, true)]) (resultingState e.eventType) (n + 1)

theorem Chronicle.ne_nil {a : Attempts} {state : OrderState} {n : Nat} (h : Chronicle a state n) :
    a ≠ [] := by
  cases h <;> simp

/-! ### What a consumer makes of them -/

/-- The sequence of the last acknowledged event. -/
def lastAcked (a : Attempts) : Nat := ((acknowledged a).getLast?.map LifecycleEvent.sequence).getD 0

/-- Violations, as far as their type and the sequence they name go. -/
def outlines (reports : List Violation) : List (ViolationType × Nat) :=
  reports.map fun r => (r.type, r.sequence)

/-- What follows for a fold of the acknowledged events: it is in the producer's state, at the last
acknowledged sequence, which lags exactly after a failure. -/
structure Consumed (a : Attempts) (state : Option OrderState) (n : Nat) : Prop where
  standing_eq : standing (foldAll none (acknowledged a)) = (lastAcked a, state)
  level : failedLast false a = false → lastAcked a = n
  behind : failedLast false a = true → lastAcked a < n
  increasing : (acknowledged a).Pairwise (·.sequence < ·.sequence)
  le_last : ∀ e ∈ acknowledged a, e.sequence ≤ n
  reports : outlines (reportsOf none (acknowledged a)) =
    (afterFailure false a).map fun e => (.sequenceGap, e.sequence)

theorem outlines_applyEvent (current : Option OrderFold) (e : LifecycleEvent) :
    outlines (applyEvent current e).2 =
      ((applyEvent current e).2.map Violation.type).map fun type => (type, e.sequence) := by
  unfold outlines
  rw [List.map_map]
  refine List.map_congr_left fun v hv => ?_
  rw [(applyEvent_names current e v hv).2]
  rfl

theorem Consumed.le {a : Attempts} {state : Option OrderState} {n : Nat} (h : Consumed a state n) :
    lastAcked a ≤ n := by
  cases hfailed : failedLast false a with
  | false => exact Nat.le_of_eq (h.level hfailed)
  | true => exact Nat.le_of_lt (h.behind hfailed)

theorem Consumed.failed {a : Attempts} {state : Option OrderState} {n : Nat} (h : Consumed a state n)
    (e : LifecycleEvent) : Consumed (a ++ [(e, false)]) state (n + 1) := by
  have hlast : lastAcked (a ++ [(e, false)]) = lastAcked a := by
    unfold lastAcked
    rw [acknowledged_concat_false]
  refine ⟨?_, fun hfailed => ?_, fun _ => ?_, ?_, fun x hx => ?_, ?_⟩
  · rw [acknowledged_concat_false, hlast]
    exact h.standing_eq
  · simp at hfailed
  · rw [hlast]
    exact Nat.lt_succ_of_le h.le
  · rw [acknowledged_concat_false]
    exact h.increasing
  · rw [acknowledged_concat_false] at hx
    exact Nat.le_succ_of_le (h.le_last x hx)
  · rw [acknowledged_concat_false, afterFailure_concat, Bool.and_false, if_neg Bool.false_ne_true,
      List.append_nil]
    exact h.reports

theorem Consumed.acked {a : Attempts} {state : Option OrderState} {n : Nat} (h : Consumed a state n)
    {e : LifecycleEvent} (hseq : e.sequence = n + 1)
    (hlegal : legalPredecessor e.eventType = state) :
    Consumed (a ++ [(e, true)]) (some (resultingState e.eventType)) (n + 1) := by
  have hlast : lastAcked (a ++ [(e, true)]) = n + 1 := by
    unfold lastAcked
    rw [acknowledged_concat_true, List.getLast?_concat, Option.map_some, Option.getD_some, hseq]
  refine ⟨?_, fun _ => hlast, fun hfailed => ?_, ?_, fun x hx => ?_, ?_⟩
  · rw [acknowledged_concat_true, foldAll, List.foldl_concat, standing_applyEvent, hlast, hseq]
  · simp at hfailed
  · rw [acknowledged_concat_true, List.pairwise_append]
    refine ⟨h.increasing, List.pairwise_singleton _ _, fun x hx y hy => ?_⟩
    rw [List.mem_singleton.1 hy, hseq]
    exact Nat.lt_succ_of_le (h.le_last x hx)
  · rw [acknowledged_concat_true] at hx
    rcases List.mem_append.1 hx with hx | hx
    · exact Nat.le_succ_of_le (h.le_last x hx)
    · rw [List.mem_singleton.1 hx, hseq]
  · have hnext := expectedNextEvent_eq_some.2 hlegal
    rw [acknowledged_concat_true, reportsOf_concat, afterFailure_concat, Bool.and_true, outlines,
      List.map_append, ← outlines, ← outlines, h.reports, List.map_append, outlines_applyEvent,
      applyEvent_types, h.standing_eq, hseq]
    cases hfailed : failedLast false a with
    | false => simp [h.level hfailed, hnext]
    | true =>
      have hbehind := h.behind hfailed
      have hne : n ≠ lastAcked a := by omega
      simp [hne, hnext, hseq]

theorem consumed_nil : Consumed [] none 0 where
  standing_eq := rfl
  level _ := rfl
  behind h := by cases h
  increasing := .nil
  le_last e he := by cases he
  reports := rfl

/-- **The simulation**: a fold of the acknowledged events follows the producer's state. -/
theorem Chronicle.consumed {a : Attempts} {state : OrderState} {n : Nat} (h : Chronicle a state n) :
    Consumed a state n := by
  induction h with
  | created e hseq htype =>
    have hcreated : Consumed ([] ++ [(e, true)]) (some (resultingState e.eventType)) (0 + 1) :=
      consumed_nil.acked hseq (by rw [htype]; rfl)
    rwa [htype] at hcreated
  | failed e _ ih => exact ih.failed e
  | acked e _ hseq hlegal ih => exact ih.acked hseq hlegal

/-! ## Serial requests -/

/-- The producer's side of an order, its attempts being `a`: it does not exist and nothing of it was
acknowledged, or it is where its attempts brought it. The topic has the acknowledged events. -/
inductive Chronicled (k : String) (s : AppState) (a : Attempts) : Prop
  | absent : s.orders k = none → s.eventsOf k = [] → acknowledged a = [] → Chronicled k s a
  | held (order : Order) : s.orders k = some order → s.eventsOf k = acknowledged a →
      Chronicle a order.state order.lastSequence → Chronicled k s a

theorem Chronicled.eventsOf_eq {a : Attempts} (h : Chronicled k s a) :
    s.eventsOf k = acknowledged a := by
  cases h with
  | absent _ hevents hacked => rw [hevents, hacked]
  | held _ _ hevents _ => exact hevents

theorem Chronicled.chronicle {a : Attempts} {order : Order} (h : Chronicled k s a)
    (hheld : s.orders k = some order) : Chronicle a order.state order.lastSequence := by
  cases h with
  | absent hnone _ _ =>
    rw [hnone] at hheld
    cases hheld
  | held order' hheld' _ hc =>
    obtain rfl : order' = order := Option.some.inj (hheld'.symm.trans hheld)
    exact hc

theorem Chronicled.congr {a : Attempts} (h : Chronicled k s a) (horders : s'.orders k = s.orders k)
    (hevents : s'.eventsOf k = s.eventsOf k) : Chronicled k s' a := by
  cases h with
  | absent hnone hev hacked => exact .absent (horders.trans hnone) (hevents.trans hev) hacked
  | held order hheld hev hc => exact .held order (horders.trans hheld) (hevents.trans hev) hc

theorem attemptsOf_singleton (k : String) (x : LifecycleEvent × Bool) :
    attemptsOf k [x] = if x.1.orderId = k then [x] else [] := by
  simp [attemptsOf, List.filter_cons]

theorem eventsOf_congr (h : s'.topics.lifecycle = s.topics.lifecycle) :
    s'.eventsOf k = s.eventsOf k := by
  unfold AppState.eventsOf
  rw [h]

theorem eventsOf_extended {e : LifecycleEvent}
    (h : s'.topics.lifecycle = s.topics.lifecycle ++ [e]) :
    s'.eventsOf k = if e.orderId = k then s.eventsOf k ++ [e] else s.eventsOf k := by
  unfold AppState.eventsOf
  rw [h, List.filter_append]
  split <;> simp [*]

/-- One request. An order is created once: nothing was attempted of an order that a request creates. -/
theorem Chronicled.step {r : Request} {a new : Attempts} (h : Chronicled k s a)
    (ho : Outcome r s s' new) (hfresh : r.creates = some k → a = []) :
    Chronicled k s' (a ++ attemptsOf k new) := by
  have helse : ∀ e : LifecycleEvent, ∀ b, e.orderId ≠ k → a ++ attemptsOf k [(e, b)] = a := by
    intro e b hk
    rw [attemptsOf_singleton, if_neg hk, List.append_nil]
  have hself : ∀ e : LifecycleEvent, ∀ b, e.orderId = k →
      a ++ attemptsOf k [(e, b)] = a ++ [(e, b)] := by
    intro e b hk
    rw [attemptsOf_singleton, if_pos hk]
  cases ho with
  | idle horders htopic =>
    rw [attemptsOf, List.filter_nil, List.append_nil]
    exact h.congr (congrFun horders k) (eventsOf_congr htopic)
  | notCreated e hcreates horders htopic =>
    by_cases hk : e.orderId = k
    · subst hk
      obtain rfl := hfresh hcreates
      cases h with
      | absent hnone hev _ =>
        rw [hself e _ rfl]
        exact .absent ((congrFun horders _).trans hnone) ((eventsOf_congr htopic).trans hev) rfl
      | held _ _ _ hc => exact absurd rfl hc.ne_nil
    · rw [helse e _ hk]
      exact h.congr (congrFun horders k) (eventsOf_congr htopic)
  | created e order hcreates hseq htype hstate hlast horders htopic =>
    by_cases hk : e.orderId = k
    · subst hk
      obtain rfl := hfresh hcreates
      rw [hself e _ rfl, List.nil_append]
      refine .held order ?_ ?_ ?_
      · rw [horders, Function.update_self]
      · rw [eventsOf_extended htopic, if_pos rfl, h.eventsOf_eq]
        rfl
      · rw [hstate, hlast]
        exact .created e hseq htype
    · rw [helse e _ hk]
      refine h.congr ?_ ?_
      · rw [horders, Function.update_of_ne (Ne.symm hk)]
      · rw [eventsOf_extended htopic, if_neg hk]
  | burned e order hheld hseq horders htopic =>
    by_cases hk : e.orderId = k
    · subst hk
      rw [hself e _ rfl]
      refine .held _ (by rw [horders, Function.update_self]) ?_ ?_
      · rw [eventsOf_congr htopic, h.eventsOf_eq, acknowledged_concat_false]
      · rw [hseq]
        exact (h.chronicle hheld).failed e
    · rw [helse e _ hk]
      refine h.congr ?_ (eventsOf_congr htopic)
      rw [horders, Function.update_of_ne (Ne.symm hk)]
  | advanced e order hheld hseq hlegal horders htopic =>
    by_cases hk : e.orderId = k
    · subst hk
      rw [hself e _ rfl]
      refine .held _ (by rw [horders, Function.update_self]) ?_ ?_
      · rw [eventsOf_extended htopic, if_pos rfl, h.eventsOf_eq, acknowledged_concat_true]
      · rw [hseq]
        exact (h.chronicle hheld).acked e hseq hlegal
    · rw [helse e _ hk]
      refine h.congr ?_ ?_
      · rw [horders, Function.update_of_ne (Ne.symm hk)]
      · rw [eventsOf_extended htopic, if_neg hk]

/-- The orders that requests create, which `new_order_id` makes distinct. -/
def created (visits : List Visit) : List String := visits.filterMap fun x => x.request.creates

theorem mem_created {visits : List Visit} {x : Visit} (hx : x ∈ visits)
    (hk : x.request.creates = some k) : k ∈ created visits := List.mem_filterMap.2 ⟨x, hx, hk⟩

theorem created_cons_of_nodup {visits : List Visit} {x : Visit} (h : (created (x :: visits)).Nodup) :
    (created visits).Nodup ∧ ∀ k ∈ created visits, x.request.creates ≠ some k := by
  unfold created at *
  rw [List.filterMap_cons] at h
  split at h
  · rename_i hnone
    refine ⟨h, fun k _ hk => ?_⟩
    rw [hnone] at hk
    cases hk
  · rename_i o hsome
    obtain ⟨hnotin, hnodup⟩ := List.nodup_cons.1 h
    refine ⟨hnodup, fun k hmem hk => ?_⟩
    rw [hsome] at hk
    cases hk
    exact hnotin hmem

/-- Before an order is created, nothing is attempted of it. -/
theorem Chronicled.unattempted {r : Request} {new : Attempts} (h : Chronicled k s [])
    (ho : Outcome r s s' new) (hcreates : r.creates ≠ some k) : attemptsOf k new = [] := by
  have hnone : s.orders k = none := by
    cases h with
    | absent hnone _ _ => exact hnone
    | held _ _ _ hc => exact absurd rfl hc.ne_nil
  cases ho with
  | idle => rfl
  | notCreated e hk | created e _ hk =>
    rw [attemptsOf_singleton, if_neg fun heq : e.orderId = k => hcreates (heq ▸ hk)]
  | burned e order hheld | advanced e order hheld =>
    rw [attemptsOf_singleton, if_neg]
    rintro rfl
    rw [hnone] at hheld
    cases hheld

/-- **The run lemma.** -/
theorem chronicled_serve {visits : List Visit} {s : AppState} {a : Attempts}
    (hplain : ∀ x ∈ visits, x.request.Plain) (hdecided : ∀ x ∈ visits, x.Decided)
    (hdistinct : (created visits).Nodup) (hfresh : k ∈ created visits → a = [])
    (h : Chronicled k s a) : Chronicled k (serve api settings visits s)
      (a ++ attemptsOf k (attempts api settings visits s)) := by
  induction visits generalizing s a with
  | nil =>
    rw [attempts, attemptsOf, List.filter_nil, List.append_nil]
    exact h
  | cons x visits ih =>
    obtain ⟨hdistinct, hother⟩ := created_cons_of_nodup hdistinct
    have hsub : k ∈ created visits → k ∈ created (x :: visits) := by
      intro hk
      obtain ⟨y, hy, hcreates⟩ := List.mem_filterMap.1 hk
      exact mem_created (.tail _ hy) hcreates
    have hout := outcome_serve api settings s (hdecided x (.head _))
      (hplain x (.head _))
    have hstep := h.step hout fun hcreates => hfresh (mem_created (.head _) hcreates)
    rw [attempts, attemptsOf, List.filter_append, ← attemptsOf, ← attemptsOf, ← List.append_assoc]
    refine ih (fun y hy => hplain y (.tail _ hy)) (fun y hy => hdecided y (.tail _ hy)) hdistinct
      (fun hk => ?_) hstep
    obtain rfl := hfresh (hsub hk)
    exact h.unattempted hout (hother k hk)

/-! ## The two sides -/

/-- A consumer's fold of order `k` and its reports agree with the producer, `a` being the attempts:
same state, the last acknowledged sequence, and a gap reported for exactly the acknowledged events
that directly follow a failure. -/
structure SidesAgree (k : String) (s : AppState) (a : Attempts) (current : Option OrderFold)
    (reports : List Violation) : Prop where
  state_eq : current.bind OrderFold.state = (s.orders k).map Order.state
  sequence_eq : (current.map OrderFold.lastSequence).getD 0 = lastAcked a
  sequence_le : lastAcked a ≤ ((s.orders k).map Order.lastSequence).getD 0
  gaps : outlines reports = (afterFailure false a).map fun e => (.sequenceGap, e.sequence)
  legal : ∀ r ∈ reports, r.type ≠ .illegalTransition

theorem sidesAgree_of_gaps {a : Attempts} {current : Option OrderFold} {reports : List Violation}
    (hstanding : standing current = (lastAcked a, (s.orders k).map Order.state))
    (hle : lastAcked a ≤ ((s.orders k).map Order.lastSequence).getD 0)
    (hgaps : outlines reports = (afterFailure false a).map fun e => (.sequenceGap, e.sequence)) :
    SidesAgree k s a current reports := by
  obtain ⟨hsequence, hstate⟩ := Prod.mk.inj hstanding
  refine ⟨hstate, hsequence, hle, hgaps, fun r hr hillegal => ?_⟩
  have hmem : (r.type, r.sequence) ∈ outlines reports := List.mem_map_of_mem hr
  rw [hgaps] at hmem
  obtain ⟨e, -, he⟩ := List.mem_map.1 hmem
  rw [hillegal] at he
  cases he

theorem Chronicled.agrees {a : Attempts} (h : Chronicled k s a) :
    SidesAgree k s a (foldAll none (acknowledged a)) (reportsOf none (acknowledged a)) ∧
      (acknowledged a).Pairwise (·.sequence < ·.sequence) := by
  cases h with
  | absent hnone _ hacked =>
    rw [hacked]
    refine ⟨sidesAgree_of_gaps ?_ ?_ ?_, .nil⟩
    · simp [lastAcked, hacked, foldAll, hnone]
    · simp [lastAcked, hacked]
    · rw [afterFailure_of_acknowledged_nil false hacked]
      rfl
  | held order hheld _ hc =>
    have hconsumed := hc.consumed
    refine ⟨sidesAgree_of_gaps ?_ ?_ hconsumed.reports, hconsumed.increasing⟩
    · rw [hheld]
      exact hconsumed.standing_eq
    · rw [hheld]
      exact hconsumed.le

/-- **The two sides agree.** Creations and publications that are not forced, one at a time, each
event acknowledged or not written; a consumer that has handled the order's events as they are on the
topic, which are the acknowledged ones, agrees with the producer on the order. -/
theorem sides_agree (api : Api) (settings : ProducerSettings) (visits : List Visit) (k : String)
    (c : Service) (p : Nat) (l : List Delivery) (w t : World)
    (hplain : ∀ x ∈ visits, x.request.Plain) (hdecided : ∀ x ∈ visits, x.Decided)
    (hdistinct : (created visits).Nodup) (hl : ∀ x ∈ l, x.Succeeds c p)
    (hread : eventsOf k l = (serve api settings visits {}).eventsOf k)
    (hw : w.store.table p k = none) (hrun : (l.forM (consume c)).exec w = (.ok ⟨⟩, t)) :
    (serve api settings visits {}).eventsOf k =
        acknowledged (attemptsOf k (attempts api settings visits {})) ∧
      ∃ reports, t.reported = w.reported ++ reports ∧
        SidesAgree k (serve api settings visits {}) (attemptsOf k (attempts api settings visits {}))
          (t.store.fold p k) (violationsOf k reports) := by
  have hchronicled : Chronicled k (serve api settings visits {})
      ([] ++ attemptsOf k (attempts api settings visits {})) :=
    chronicled_serve hplain hdecided hdistinct (fun _ => rfl) (.absent rfl rfl rfl)
  rw [List.nil_append] at hchronicled
  obtain ⟨hagrees, hincreasing⟩ := hchronicled.agrees
  have hevents := hchronicled.eventsOf_eq
  refine ⟨hevents, ?_⟩
  rw [← hevents, ← hread] at hincreasing hagrees
  have hadvancing : advancing c p k l w = eventsOf k l := by
    refine advancing_of_increasing hl hrun hincreasing fun e _ => ?_
    unfold lastSequence
    rw [hw]
    exact e.one_le_sequence
  have hnone : w.store.fold p k = none := by
    unfold LocalStore.fold
    rw [hw, Option.map_none]
  obtain ⟨reports, hreports, hviolations⟩ := run_reports k hl hrun
  have hfold := run_fold k hl hrun
  rw [hadvancing, hnone] at hviolations hfold
  refine ⟨reports, hreports, ?_⟩
  rw [hviolations, hfold]
  exact hagrees

/-! An order whose second event is acknowledged at the second attempt. -/

def oneItemOrder : CreateOrderRequest where
  customerId := "buyer"
  items := [⟨"book", 2, 50, by decide, by decide, by decide⟩]
  payment := ⟨.card, "receipt", 100, by decide⟩
  customerId_ne := by decide
  items_ne := by decide

def packedTwice : List Visit :=
  [⟨.create "a" "e1" oneItemOrder, .acked ⟨0, 0⟩, .acked ⟨0, 0⟩⟩,
    ⟨.publish "a" "e2" { eventType := .packed }, .reported false "leader lost", .acked ⟨0, 1⟩⟩,
    ⟨.publish "a" "e3" { eventType := .packed }, .acked ⟨0, 1⟩, .acked ⟨0, 1⟩⟩]

def packedThird : LifecycleEvent := ⟨"e3", "a", 3, .packed, by decide⟩

def tracking : Service where
  toDeployment := .onePartition {} fun value =>
    if value.size = 1 then .event createdEvent else .event packedThird
  name := "stocking"
  handlers := []

def readPackedTwice : List Delivery :=
  [arrivalOf createdEvent ⟨#[1]⟩ 0, arrivalOf packedThird ⟨#[1, 1]⟩ 1]

theorem sides_agree_packedTwice :
    SidesAgree "a" (serve plainApi {} packedTwice {}) [(createdEvent, true),
        (⟨"e2", "a", 2, .packed, by decide⟩, false), (packedThird, true)]
      (((readPackedTwice.forM (consume tracking)).exec {}).2.store.fold 0 "a")
      (violationsOf "a" ((readPackedTwice.forM (consume tracking)).exec {}).2.reported) := by
  have hsucceeds : ∀ x ∈ readPackedTwice, x.Succeeds tracking 0 := by
    intro x hx
    simp only [readPackedTwice, List.mem_cons, List.not_mem_nil, or_false] at hx
    rcases hx with rfl | rfl
    · exact ⟨rfl, ⟨_, rfl, rfl⟩, by decide, by decide, rfl⟩
    · exact ⟨rfl, ⟨_, rfl, rfl⟩, by decide, by decide, rfl⟩
  have hvisits : ∀ x ∈ packedTwice, x.request.Plain ∧ x.Decided := by
    intro x hx
    simp only [packedTwice, List.mem_cons, List.not_mem_nil, or_false] at hx
    rcases hx with rfl | rfl | rfl
    · exact ⟨trivial, .inl rfl⟩
    · exact ⟨rfl, .inr rfl⟩
    · exact ⟨rfl, .inl rfl⟩
  obtain ⟨-, reports, hreports, hagrees⟩ := sides_agree plainApi {} packedTwice "a" tracking 0
    readPackedTwice {} _ (fun x hx => (hvisits x hx).1) (fun x hx => (hvisits x hx).2) (by decide)
    hsucceeds rfl rfl (exec_eq_of_ok (by decide +kernel))
  rw [hreports, List.nil_append]
  exact hagrees

end OrderService
