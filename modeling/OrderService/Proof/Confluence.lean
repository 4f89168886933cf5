import OrderService.Proof.Runtime

/-!
# Confluence of the fold

`apply_event` overwrites the fold, backwards too; the guard of `save` undoes that. What a stream of
deliveries leaves of an order is its `Summary`: the first delivered event of the greatest sequence,
and how many deliveries there were (`run_summary`). Hence the order of the deliveries does not matter
(`fold_confluence`).
-/

namespace OrderService

open Eff

/-! ## One delivery, on the row -/

/-- The row after an event is folded and saved. -/
def Row.deliver (previous : Option Row) (event : LifecycleEvent) : Row :=
  Row.next event.orderId previous
    (applyEvent (previous.map fun r => (r.decode event.orderId).fold) event).1 event.eventId

theorem Row.deliver_some (r : Row) (event : LifecycleEvent) : Row.deliver (some r) event =
    if r.lastSequence < event.sequence then
      ⟨event.sequence, some (resultingState event.eventType), event.eventId, r.handledCount + 1⟩
    else { r with handledCount := r.handledCount + 1 } := Row.next_some ..

/-- What a stream of events of one order leaves: the first delivered event of the greatest sequence
and the number of deliveries. -/
inductive Summary : List LifecycleEvent → Option Row → Prop where
  | empty : Summary [] none
  | led (pre : List LifecycleEvent) (e : LifecycleEvent) (post : List LifecycleEvent) :
      (∀ x ∈ pre, x.sequence < e.sequence) → (∀ x ∈ post, x.sequence ≤ e.sequence) →
      Summary (pre ++ e :: post)
        (some ⟨e.sequence, some (resultingState e.eventType), e.eventId, (pre ++ e :: post).length⟩)

theorem Summary.concat {es : List LifecycleEvent} {r : Option Row} (h : Summary es r)
    (e : LifecycleEvent) : Summary (es ++ [e]) (some (Row.deliver r e)) := by
  cases h with
  | empty => exact .led [] e [] (by simp) (by simp)
  | led pre x post hpre hpost =>
    rw [Row.deliver_some]
    split
    · rename_i hlt
      have := Summary.led (pre ++ x :: post) e [] (fun y hy => ?_) (by simp)
      · rwa [List.length_append] at this
      · rcases List.mem_append.1 hy with hy | hy
        · exact Nat.lt_trans (hpre y hy) hlt
        · rcases List.mem_cons.1 hy with rfl | hy
          · exact hlt
          · exact Nat.lt_of_le_of_lt (hpost y hy) hlt
    · rename_i hle
      have := Summary.led pre x (post ++ [e]) hpre fun y hy => ?_
      · rwa [← List.cons_append, ← List.append_assoc, List.length_append] at this
      · rcases List.mem_append.1 hy with hy | hy
        · exact hpost y hy
        · rw [List.mem_singleton.1 hy]
          exact Nat.le_of_not_lt hle

theorem Summary.handledCount {es : List LifecycleEvent} {r : Row} (h : Summary es (some r)) :
    r.handledCount = es.length := by
  cases h
  rfl

/-- The event a row remembers is one of the stream, and none has a greater sequence. -/
theorem Summary.leader {es : List LifecycleEvent} {r : Row} (h : Summary es (some r)) :
    ∃ e ∈ es, (∀ x ∈ es, x.sequence ≤ e.sequence) ∧
      r = ⟨e.sequence, some (resultingState e.eventType), e.eventId, r.handledCount⟩ := by
  cases h with
  | led pre e post hpre hpost =>
    refine ⟨e, by simp, fun x hx => ?_, rfl⟩
    rcases List.mem_append.1 hx with hx | hx
    · exact Nat.le_of_lt (hpre x hx)
    · rcases List.mem_cons.1 hx with rfl | hx
      · exact Nat.le_refl _
      · exact hpost x hx

/-- Events of one sequence are one event. -/
def SequenceIdentifies (es : List LifecycleEvent) : Prop :=
  ∀ x ∈ es, ∀ y ∈ es, x.sequence = y.sequence → x = y

/-- Two rows that differ in the number of deliveries at most. -/
def SameFold (r r' : Option Row) : Prop :=
  r.map (fun r => { r with handledCount := 0 }) = r'.map fun r => { r with handledCount := 0 }

/-- Streams of the same events leave the same fold, however often and in whatever order each event
comes. -/
theorem Summary.sameFold {es es' : List LifecycleEvent} {r r' : Option Row} (h : Summary es r)
    (h' : Summary es' r') (hid : SequenceIdentifies (es ++ es'))
    (hmem : ∀ e, e ∈ es ↔ e ∈ es') : SameFold r r' := by
  rcases r with _ | r
  · cases h
    rcases r' with _ | r'
    · rfl
    · obtain ⟨e, he, -⟩ := h'.leader
      simp at hmem
      exact absurd he (hmem e)
  · obtain ⟨e, he, hmax, hr⟩ := h.leader
    rcases r' with _ | r'
    · cases h'
      simp at hmem
      exact absurd he (hmem e)
    · obtain ⟨e', he', hmax', hr'⟩ := h'.leader
      have heq : e = e' := hid e (by simp [he]) e' (by simp [he'])
        (Nat.le_antisymm (hmax' e ((hmem e).1 he)) (hmax e' ((hmem e').2 he')))
      subst heq
      simp only [SameFold, Option.map_some, Option.some.injEq]
      rw [hr, hr']

theorem Summary.eq_of_perm {es es' : List LifecycleEvent} {r r' : Option Row} (h : Summary es r)
    (h' : Summary es' r') (hid : SequenceIdentifies (es ++ es')) (hperm : es.Perm es') : r = r' := by
  have hfold := h.sameFold h' hid fun e => hperm.mem_iff
  rcases r with _ | r <;> rcases r' with _ | r'
  · rfl
  · cases hfold
  · cases hfold
  · have hcount : r.handledCount = r'.handledCount := by
      rw [h.handledCount, h'.handledCount, hperm.length_eq]
    simp only [SameFold, Option.map_some, Option.some.injEq, Row.mk.injEq, and_true] at hfold
    obtain ⟨hs, hst, hid'⟩ := hfold
    cases r
    cases r'
    simp_all

/-! ## Runs -/

variable {c : Service} {p : Nat} {k : String} {w w' t t' : World}

/-- One event handed to the service's loop, as far as `_handle_message` gets once it is decoded. -/
structure Delivery where
  env : Env
  message : Message
  event : LifecycleEvent
  attempt : Int

/-- Load, fold, handler, save. -/
def deliver (c : Service) (x : Delivery) : M Unit :=
  ServiceConsumer.handleEvent c (localStateStore c.toDeployment c.groupId x.env) x.env x.message
    x.event x.attempt

/-- A stream on partition `p` whose handlers all succeed. -/
def Handled (c : Service) (p : Nat) (l : List Delivery) : Prop :=
  ∀ x ∈ l, x.message.partition = p ∧ ServiceConsumer.runHandler c x.env x.event x.attempt = .ok ()

/-- The events of order `k` in a stream. -/
def eventsOf (k : String) (l : List Delivery) : List LifecycleEvent :=
  (l.map Delivery.event).filter (·.orderId = k)

/-- What a delivery does to the rows of its partition. -/
theorem wp_deliver {x : Delivery} (hp : x.message.partition = p)
    (hh : ServiceConsumer.runHandler c x.env x.event x.attempt = .ok ()) :
    wp (deliver c x) (fun _ (t : World) => t.store.table p = Function.update (w.store.table p) x.event.orderId
      (some (Row.deliver (w.store.table p x.event.orderId) x.event))) (fun _ _ => True) w := by
  subst hp
  refine wp_handleEvent (fun _ _ _ _ => trivial) (fun exc n s r _ herr => ?_) fun n s r hs _ => ?_
  · rw [hh] at herr
    cases herr
  · refine wp_persistAndCommit_wrote (fun _ _ => trivial) fun t ht => ?_
    rw [ht.wrote.table_eq]
    simp only [hs.table_eq]
    rfl

theorem eventsOf_concat (l : List Delivery) (x : Delivery) :
    eventsOf k (l ++ [x]) = if x.event.orderId = k then eventsOf k l ++ [x.event] else eventsOf k l := by
  unfold eventsOf
  rw [List.map_append, List.filter_append]
  split <;> simp [*]

/-- **A run leaves the summary of its events.** -/
theorem run_summary {l : List Delivery} (hl : Handled c p l) (hw : w.store.table p k = none)
    (hrun : (l.forM (deliver c)).exec w = (.ok ⟨⟩, t)) :
    Summary (eventsOf k l) (t.store.table p k) := by
  have hall : wp (l.forM (deliver c))
      (fun _ (t : World) => Summary (eventsOf k l) (t.store.table p k)) (fun _ _ => True) w := by
    refine wp_forM_prefix (I := fun pre (t : World) => Summary (eventsOf k pre) (t.store.table p k))
      (hw ▸ Summary.empty) fun pre x post hlist s hs => ?_
    obtain ⟨hp, hh⟩ := hl x (by simp [hlist])
    refine wp_mono (wp_deliver hp hh) (fun _ u hu => ?_) fun _ _ _ => trivial
    rw [eventsOf_concat, hu]
    split
    · rename_i hk
      subst hk
      simpa using hs.concat x.event
    · rename_i hk
      rwa [Function.update_of_ne (Ne.symm hk)]
  exact exec_of_wp hall hrun

/-- The sequence a partition's store has an order at. -/
def lastSequence (w : World) (p : Nat) (k : String) : Nat :=
  ((w.store.table p k).map Row.lastSequence).getD 0

theorem lastSequence_le_deliver (r : Option Row) (event : LifecycleEvent) :
    (r.map Row.lastSequence).getD 0 ≤ (Row.deliver r event).lastSequence := by
  cases r with
  | none => exact Nat.zero_le _
  | some r => exact Row.lastSequence_le_next ..

theorem run_lastSequence {l : List Delivery} (hl : Handled c p l)
    (hrun : (l.forM (deliver c)).exec w = (.ok ⟨⟩, t)) :
    lastSequence w p k ≤ lastSequence t p k := by
  have hall : wp (l.forM (deliver c)) (fun _ t => lastSequence w p k ≤ lastSequence t p k)
      (fun _ _ => True) w := by
    refine wp_forM (Nat.le_refl _) fun x hx s hs => ?_
    obtain ⟨hp, hh⟩ := hl x hx
    refine wp_mono (wp_deliver hp hh) (fun _ u hu => Nat.le_trans hs ?_) fun _ _ _ => trivial
    unfold lastSequence
    rw [hu]
    by_cases hk : k = x.event.orderId
    · subst hk
      simpa using lastSequence_le_deliver (s.store.table p x.event.orderId) x.event
    · rw [Function.update_of_ne hk]
  exact exec_of_wp hall hrun

/-- **Fold confluence.** A stream leaves the summary of its events; when a sequence identifies its
event, streams of the same events leave the same fold, permuted streams the same record; and no
delivery takes the stored sequence back. -/
theorem fold_confluence (c : Service) (p : Nat) (k : String) (l l' : List Delivery)
    (w w' t t' : World) (hl : Handled c p l) (hl' : Handled c p l')
    (hw : w.store.table p k = none) (hw' : w'.store.table p k = none)
    (hrun : (l.forM (deliver c)).exec w = (.ok ⟨⟩, t))
    (hrun' : (l'.forM (deliver c)).exec w' = (.ok ⟨⟩, t')) :
    Summary (eventsOf k l) (t.store.table p k) ∧
      (SequenceIdentifies (eventsOf k l ++ eventsOf k l') →
        ((∀ e, e ∈ eventsOf k l ↔ e ∈ eventsOf k l') →
          SameFold (t.store.table p k) (t'.store.table p k)) ∧
        ((eventsOf k l).Perm (eventsOf k l') → t.store.table p k = t'.store.table p k)) ∧
      ∀ l₁ l₂ u, l = l₁ ++ l₂ → (l₁.forM (deliver c)).exec w = (.ok ⟨⟩, u) →
        lastSequence u p k ≤ lastSequence t p k := by
  have h := run_summary hl hw hrun
  have h' := run_summary hl' hw' hrun'
  refine ⟨h, fun hid => ⟨h.sameFold h' hid, h.eq_of_perm h' hid⟩, ?_⟩
  rintro l₁ l₂ u rfl hu
  refine run_lastSequence (l := l₂) (fun x hx => hl x (List.mem_append_right _ hx)) ?_
  rwa [exec_forM_append hu] at hrun

/-! Two events of order `a`, delivered the wrong way round and in order. -/

def createdEvent : LifecycleEvent := ⟨"e1", "a", 1, .orderCreated, by decide⟩

def packedEvent : LifecycleEvent := ⟨"e2", "a", 2, .packed, by decide⟩

def packing : Service where
  toDeployment := .onePartition {} fun _ => .invalid ""
  name := "packing"
  handlers := []

def deliveryOf (event : LifecycleEvent) (offset : Nat) : Delivery where
  env := { servedByFlush := [⟨"order-fold.packing-service", 0⟩] }
  message := { topic := "order-lifecycle", partition := 0, offset, key := none, value := none }
  event := event
  attempt := 1

def deliveredTo (l : List Delivery) : World := ((l.forM (deliver packing)).exec {}).2

theorem fold_confluence_swapped :
    (deliveredTo [deliveryOf packedEvent 0, deliveryOf createdEvent 1]).store.table 0 "a" =
      (deliveredTo [deliveryOf createdEvent 0, deliveryOf packedEvent 1]).store.table 0 "a" := by
  have hhandled : ∀ x y : LifecycleEvent, Handled packing 0 [deliveryOf x 0, deliveryOf y 1] := by
    intro x y z hz
    rcases List.mem_cons.1 hz with rfl | hz
    · exact ⟨rfl, rfl⟩
    · rw [List.mem_singleton.1 hz]
      exact ⟨rfl, rfl⟩
  have h := fold_confluence packing 0 "a" [deliveryOf packedEvent 0, deliveryOf createdEvent 1]
    [deliveryOf createdEvent 0, deliveryOf packedEvent 1] {} {} _ _ (hhandled _ _) (hhandled _ _)
    rfl rfl (exec_eq_of_ok (by decide +kernel)) (exec_eq_of_ok (by decide +kernel))
  have hevents : eventsOf "a" [deliveryOf packedEvent 0, deliveryOf createdEvent 1] =
      [packedEvent, createdEvent] := by
    simp [eventsOf, deliveryOf, createdEvent, packedEvent]
  have hevents' : eventsOf "a" [deliveryOf createdEvent 0, deliveryOf packedEvent 1] =
      [createdEvent, packedEvent] := by
    simp [eventsOf, deliveryOf, createdEvent, packedEvent]
  rw [hevents, hevents'] at h
  unfold deliveredTo
  refine (h.2.1 ?_).2 (.swap _ _ [])
  simp [SequenceIdentifies, createdEvent, packedEvent]

end OrderService
