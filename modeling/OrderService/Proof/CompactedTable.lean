import OrderService.Lib.KeyedLog
import OrderService.Proof.Lifecycle

/-!
# The compacted topic and the aggregate

A handler changes the store in one step and writes the order's record in another. `InOrder` is the
condition on the two steps that can leave the topic behind the store: a snapshot is written, an order
is forgotten. `agrees_iff_inOrder`: topic and store agree on every order throughout a run exactly if
all its steps meet the condition.
-/

namespace OrderService

open Eff Threads KeyedLog

variable {ι : Type} {api : Api} {settings : ProducerSettings}

/-- The latest record of each key on the compacted topic; `some none` is a tombstone. -/
def AppState.latest (s : AppState) : String → Option (Option Snapshot) :=
  replay (fun _ => none) (s.topics.snapshot.map fun r => (r.1, some r.2))

/-! ## Requests that are not done with an order -/

def Op.isTombstone (orderId : String) : Op → Bool
  | .publishTombstone o => o = orderId
  | _ => false

/-- The request still has to write a record of the order, or to forget the order. -/
def Op.isPending (orderId : String) : Op → Bool
  | .register o _ | .commit o _ _ | .publishSnapshot o _ | .publishTombstone o | .remove o =>
    o = orderId
  | .publishAndWait event => event.orderId = orderId
  | .get _ | .reserve _ _ _ => false

def tombstones (orderId : String) (p : Handler Response) : Bool := p.next.any (Op.isTombstone orderId)

def pending (orderId : String) (p : Handler Response) : Bool := p.next.any (Op.isPending orderId)

/-- Topic and store agree on an order, as far as the requests are done with it. -/
structure Agrees (s : Serving ι) (orderId : String) : Prop where
  held : ∀ order, s.shared.orders orderId = some order →
    (∀ i, pending orderId (s.threads i) = false) →
    s.shared.latest orderId = some (some order.asSnapshot)
  gone : s.shared.orders orderId = none → (∀ i, tombstones orderId (s.threads i) = false) →
    ∀ v, s.shared.latest orderId ≠ some (some v)

/-! ## The setting and the condition -/

def Op.produces : Op → Bool
  | .publishAndWait _ | .publishTombstone _ | .publishSnapshot _ _ => true
  | _ => false

def Op.fresh (s : AppState) : Op → Bool
  | .register o _ => (s.latest o).isNone
  | _ => true

/-- Every record that is produced is delivered, and a new order has an id under which nothing was
written. -/
def AllDelivered (s : Serving ι) (l : ι × DeliveryFate) : Prop :=
  ((s.threads l.1).next.any Op.produces = true → l.2.isAcked = true) ∧
    (s.threads l.1).next.all (Op.fresh s.shared) = true

/-- A snapshot is written while the store holds the order as the snapshot has it, or another
request's record of the order is still to come; an order is forgotten while its latest record is a
tombstone, or another one is still to come. -/
def Op.InOrder (s : Serving ι) (i : ι) : Op → Prop
  | .publishSnapshot o v =>
    (∀ order ∈ s.shared.orders o,
      order.asSnapshot = v ∨ ∃ j, j ≠ i ∧ pending o (s.threads j) = true) ∧
    (s.shared.orders o = none → ∃ j, tombstones o (s.threads j) = true)
  | .remove o => s.shared.orders o ≠ none →
      s.shared.latest o = some none ∨ ∃ j, tombstones o (s.threads j) = true
  | _ => True

def InOrder (s : Serving ι) (l : ι × DeliveryFate) : Prop :=
  ∀ o ∈ (s.threads l.1).next, o.InOrder s l.1

/-! ## What one operation does to the topic -/

section

variable {o : Op} {d : DeliveryFate} {s : AppState} {orderId : String}

theorem latest_concat {topics : Topics} {orders : OrderStore} (orders' : OrderStore)
    {r : String × Option Snapshot} :
    AppState.latest ⟨orders, { topics with snapshot := topics.snapshot ++ [r] }⟩ =
      Function.update (AppState.latest ⟨orders', topics⟩) r.1 (some r.2) := by
  simp only [AppState.latest, List.map_append, List.map_cons, List.map_nil]
  exact replay_concat _ _ _ _

theorem latest_exec_of_ne (h : orderId ≠ o.subject) :
    (o.exec settings d s).2.latest orderId = s.latest orderId := by
  cases o with
  | get | register | remove | reserve | commit => rfl
  | publishAndWait event =>
    simp only [Op.exec, LifecycleEventProducer.publishAndWait, AppState.latest]
    split <;> rfl
  | publishTombstone o =>
    simp only [Op.exec, LifecycleEventProducer.publishTombstone]
    split
    · rw [latest_concat s.orders]
      exact Function.update_of_ne h _ _
    · rfl
  | publishSnapshot o snapshot =>
    simp only [Op.exec, LifecycleEventProducer.publishSnapshot]
    split
    · rw [latest_concat s.orders]
      exact Function.update_of_ne h _ _
    · rfl

/-- A key that has a record keeps one. -/
theorem latest_exec_ne_none (h : s.latest orderId ≠ none) :
    (o.exec settings d s).2.latest orderId ≠ none := by
  obtain rfl | hne := eq_or_ne orderId o.subject
  · cases o with
    | get | register | remove | reserve | commit => exact h
    | publishAndWait event =>
      simp only [Op.exec, LifecycleEventProducer.publishAndWait]
      split <;> exact h
    | publishTombstone o =>
      simp only [Op.exec, LifecycleEventProducer.publishTombstone]
      split
      · rw [latest_concat s.orders]
        simp [Op.subject]
      · exact h
    | publishSnapshot o snapshot =>
      simp only [Op.exec, LifecycleEventProducer.publishSnapshot]
      split
      · rw [latest_concat s.orders]
        simp [Op.subject]
      · exact h
  · rw [latest_exec_of_ne hne]
    exact h

/-- A forgotten order stays forgotten, unless its id is registered. -/
theorem orders_exec_eq_none (h : s.orders orderId = none)
    (hne : ∀ payload, o ≠ .register orderId payload) :
    (o.exec settings d s).2.orders orderId = none := by
  obtain rfl | hsub := eq_or_ne orderId o.subject
  · cases o with
    | get | publishAndWait | publishTombstone | publishSnapshot => exact h
    | register o payload => exact absurd rfl (hne payload)
    | remove o =>
      have ho : s.orders o = none := h
      show (s.orders.remove o).2 o = none
      rw [OrderStore.remove_of_none ho]
      exact ho
    | reserve o t force =>
      have ho : s.orders o = none := h
      show (s.orders.reserve o t force).2 o = none
      rw [OrderStore.reserve_of_none ho]
      exact ho
    | commit o t force =>
      have ho : s.orders o = none := h
      show (s.orders.commit o t force).2 o = none
      rw [OrderStore.commit_of_none ho]
      exact ho
  · rw [orders_exec_of_ne hsub]
    exact h

/-- The store keeps each order under its own id. -/
def Keyed (store : OrderStore) : Prop := ∀ orderId order, store orderId = some order → order.orderId = orderId

theorem Keyed.update {store : OrderStore} (h : Keyed store) {order : Order} (ho : order.orderId = orderId) :
    Keyed (Function.update store orderId (some order)) := by
  intro x order' hx
  obtain rfl | hne := eq_or_ne x orderId
  · rw [Function.update_self] at hx
    cases hx
    exact ho
  · rw [Function.update_of_ne hne] at hx
    exact h x order' hx

theorem Keyed.exec (h : Keyed s.orders) : Keyed (o.exec settings d s).2.orders := by
  cases o with
  | get | publishAndWait | publishTombstone | publishSnapshot => exact h
  | register o payload => exact h.update rfl
  | remove o =>
    cases ho : s.orders o with
    | none => simpa only [Op.exec, OrderStore.remove_of_none ho] using h
    | some order =>
      simp only [Op.exec, OrderStore.remove_of_some ho]
      intro x order' hx
      obtain rfl | hne := eq_or_ne x o
      · rw [Function.update_self] at hx
        cases hx
      · rw [Function.update_of_ne hne] at hx
        exact h x order' hx
  | reserve o t force =>
    cases ho : s.orders o with
    | none => simpa only [Op.exec, OrderStore.reserve_of_none ho] using h
    | some order =>
      simp only [Op.exec, OrderStore.reserve, ho]
      split
      · exact h
      · exact h.update (h o order ho)
  | commit o t force =>
    cases ho : s.orders o with
    | none => simpa only [Op.exec, OrderStore.commit_of_none ho] using h
    | some order =>
      simp only [Op.exec, OrderStore.commit, ho]
      split
      · exact h
      · exact h.update (h o order ho)

end

/-! ## One step -/

variable [DecidableEq ι] {requests : ι → Request} {s : Serving ι} {i : ι} {d : DeliveryFate} {o : Op}
  {k : o.Answer → Handler Response} {orderId : String}

section

variable (hp : s.threads i = .op o k)
include hp

/-- What all threads do after the step: the others as before, the one that moved its next operation. -/
theorem forall_advance {P : Handler Response → Prop} :
    (∀ j, P ((s.advance (Op.exec settings) i d).threads j)) ↔
      P (k (o.exec settings d s.shared).1) ∧ ∀ j, j ≠ i → P (s.threads j) := by
  constructor
  · intro h
    refine ⟨?_, fun j hj => ?_⟩
    · rw [← Pool.threads_advance_self (d := d) hp]
      exact h i
    · rw [← Pool.threads_advance_of_ne (d := d) hp hj]
      exact h j
  · rintro ⟨hself, hothers⟩ j
    obtain rfl | hj := eq_or_ne j i
    · rw [Pool.threads_advance_self hp]
      exact hself
    · rw [Pool.threads_advance_of_ne hp hj]
      exact hothers j hj

/-- The request had nothing to do for the order, and did nothing to it. -/
theorem Agrees.still (h : Agrees s orderId) (hpending : o.isPending orderId = false)
    (horders : (o.exec settings d s.shared).2.orders orderId = s.shared.orders orderId)
    (hlatest : (o.exec settings d s.shared).2.latest orderId = s.shared.latest orderId) :
    Agrees (s.advance (Op.exec settings) i d) orderId := by
  have htombstone : o.isTombstone orderId = false := by
    cases o with
    | publishTombstone o => exact hpending
    | _ => rfl
  constructor
  · intro order horder hnone
    rw [Pool.shared_advance hp] at horder ⊢
    rw [forall_advance hp (P := fun p => pending orderId p = false)] at hnone
    rw [hlatest]
    refine h.held order (horders ▸ horder) fun j => ?_
    obtain rfl | hj := eq_or_ne j i
    · rw [hp]; exact hpending
    · exact hnone.2 j hj
  · intro hgone hnone
    rw [Pool.shared_advance hp] at hgone ⊢
    rw [forall_advance hp (P := fun p => tombstones orderId p = false)] at hnone
    rw [hlatest]
    refine h.gone (horders ▸ hgone) fun j => ?_
    obtain rfl | hj := eq_or_ne j i
    · rw [hp]; exact htombstone
    · exact hnone.2 j hj

/-- The request goes on with the order, whose records are as before. -/
theorem Agrees.busy (h : Agrees s orderId) (htombstone : o.isTombstone orderId = false)
    (horders : (o.exec settings d s.shared).2.orders orderId = none → s.shared.orders orderId = none)
    (hlatest : (o.exec settings d s.shared).2.latest orderId = s.shared.latest orderId)
    (hnext : (o.exec settings d s.shared).2.orders orderId ≠ none →
      pending orderId (k (o.exec settings d s.shared).1) = true) :
    Agrees (s.advance (Op.exec settings) i d) orderId := by
  constructor
  · intro order horder hnone
    rw [Pool.shared_advance hp] at horder
    have hself := ((forall_advance hp (P := fun p => pending orderId p = false)).1 hnone).1
    rw [hnext (by rw [horder]; exact nofun)] at hself
    cases hself
  · intro hgone hnone
    rw [Pool.shared_advance hp] at hgone ⊢
    rw [forall_advance hp (P := fun p => tombstones orderId p = false)] at hnone
    rw [hlatest]
    refine h.gone (horders hgone) fun j => ?_
    obtain rfl | hj := eq_or_ne j i
    · rw [hp]; exact htombstone
    · exact hnone.2 j hj

end

/-- What holds of every run of the setting. -/
structure Serves (api : Api) (requests : ι → Request) (s : Serving ι) : Prop where
  stand : AllStand api requests s
  keyed : Keyed s.shared.orders
  removing : ∀ i o, (s.threads i).next = some (.remove o) → s.shared.latest o ≠ none
  deleted : ∀ i o, requests i = .delete o → s.threads i = .done .noContent →
    s.shared.orders o = none ∧ s.shared.latest o ≠ none

/-- A tombstone that is delivered is the latest record. -/
theorem latest_publishTombstone {result : DeliveryResult} {s : AppState} :
    ((Op.publishTombstone orderId).exec settings (.acked result) s).2.latest orderId = some none := by
  change AppState.latest ⟨s.orders, { s.topics with snapshot := s.topics.snapshot ++ [_] }⟩ _ = _
  rw [latest_concat s.orders]
  exact Function.update_self _ _ _

theorem latest_publishSnapshot {result : DeliveryResult} {s : AppState} {v : Snapshot} :
    ((Op.publishSnapshot orderId v).exec settings (.acked result) s).2.latest orderId = some (some v) := by
  change AppState.latest ⟨s.orders, { s.topics with snapshot := s.topics.snapshot ++ [_] }⟩ _ = _
  rw [latest_concat s.orders]
  exact Function.update_self _ _ _

theorem orders_remove {s : AppState} :
    ((Op.remove orderId).exec settings d s).2.orders orderId = none := by
  cases ho : s.orders orderId with
  | none => simpa only [Op.exec, OrderStore.remove_of_none ho] using ho
  | some order =>
    simp only [Op.exec, OrderStore.remove_of_some ho]
    exact Function.update_self _ _ _

theorem Serves.advance (h : Serves api requests s) (hl : AllDelivered s (i, d)) :
    Serves api requests (s.advance (Op.exec settings) i d) := by
  cases hp : s.threads i with
  | done response => rwa [Pool.advance_done hp]
  | op o k =>
    refine ⟨h.stand.advance i d, by rw [Pool.shared_advance hp]; exact h.keyed.exec, fun j x hj => ?_,
      fun j x hr hj => ?_⟩
    · rw [Pool.shared_advance hp]
      obtain rfl | hne := eq_or_ne j i
      · -- a request is about to forget an order when its tombstone was delivered
        rw [Pool.threads_advance_self hp] at hj
        obtain rfl := (h.stand j).before_remove hp hj
        obtain ⟨result, rfl⟩ := DeliveryFate.isAcked_iff.1 (hl.1 (by rw [hp]; rfl))
        rw [latest_publishTombstone]
        exact nofun
      · rw [Pool.threads_advance_of_ne hp hne] at hj
        exact latest_exec_ne_none (h.removing j x hj)
    · rw [Pool.shared_advance hp]
      obtain rfl | hne := eq_or_ne j i
      · rw [Pool.threads_advance_self hp] at hj
        have hstand := h.stand j
        rw [hr] at hstand
        obtain rfl := hstand.before_noContent hp hj
        exact ⟨orders_remove, latest_exec_ne_none (h.removing j x (by rw [hp]; rfl))⟩
      · rw [Pool.threads_advance_of_ne hp hne] at hj
        obtain ⟨horders, hlatest⟩ := h.deleted j x hr hj
        refine ⟨orders_exec_eq_none horders fun payload ho => ?_, latest_exec_ne_none hlatest⟩
        have hfresh := hl.2
        rw [hp] at hfresh
        subst ho
        exact hlatest (Option.isNone_iff_eq_none.1 hfresh)

/-! ## The two steps that can go wrong -/

section

variable {result : DeliveryResult}

theorem agrees_iff_publishSnapshot {v : Snapshot} {response : Response}
    (hp : s.threads i = .op (.publishSnapshot orderId v) fun _ => .done response) :
    Agrees (s.advance (Op.exec settings) i (.acked result)) orderId ↔
      (Op.publishSnapshot orderId v).InOrder s i := by
  have horders : (s.advance (Op.exec settings) i (.acked result)).shared.orders = s.shared.orders := by
    rw [Pool.shared_advance hp]; rfl
  have hlatest : (s.advance (Op.exec settings) i (.acked result)).shared.latest orderId = some (some v) := by
    rw [Pool.shared_advance hp]; exact latest_publishSnapshot
  constructor
  · intro ht
    refine ⟨fun order horder => ?_, fun hgone => ?_⟩
    · by_contra hbad
      obtain ⟨hne, hnone⟩ := not_or.1 hbad
      refine hne (Option.some.inj (Option.some.inj ?_))
      rw [← hlatest]
      refine (ht.held order (by rw [horders]; exact horder) ?_).symm
      refine (forall_advance hp (P := fun p => pending orderId p = false)).2 ⟨rfl, fun j hj => ?_⟩
      exact Bool.eq_false_iff.2 fun hj' => hnone ⟨j, hj, hj'⟩
    · by_contra hnone
      refine ht.gone (by rw [horders]; exact hgone) ?_ v hlatest
      refine (forall_advance hp (P := fun p => tombstones orderId p = false)).2 ⟨rfl, fun j _ => ?_⟩
      exact Bool.eq_false_iff.2 fun hj => hnone ⟨j, hj⟩
  · rintro ⟨hheld, hgone⟩
    constructor
    · intro order horder hnone
      rw [horders] at horder
      obtain heq | ⟨j, hj, hpending⟩ := hheld order horder
      · rw [hlatest, heq]
      · have hself := ((forall_advance hp (P := fun p => pending orderId p = false)).1 hnone).2 j hj
        rw [hpending] at hself
        cases hself
    · intro hnotheld hnone
      rw [horders] at hnotheld
      obtain ⟨j, hj⟩ := hgone hnotheld
      have hne : j ≠ i := by
        rintro rfl
        rw [hp] at hj
        cases hj
      have hself := ((forall_advance hp (P := fun p => tombstones orderId p = false)).1 hnone).2 j hne
      rw [hj] at hself
      cases hself

theorem agrees_iff_remove (h : Agrees s orderId) (hserves : Serves api requests s)
    (hp : s.threads i = removing orderId) :
    Agrees (s.advance (Op.exec settings) i d) orderId ↔ (Op.remove orderId).InOrder s i := by
  have horders : (s.advance (Op.exec settings) i d).shared.orders orderId = none := by
    rw [Pool.shared_advance hp]
    exact orders_remove
  have hlatest : (s.advance (Op.exec settings) i d).shared.latest orderId = s.shared.latest orderId := by
    rw [Pool.shared_advance hp]; rfl
  have hothers : (∀ j, tombstones orderId ((s.advance (Op.exec settings) i d).threads j) = false) ↔
      ∀ j, tombstones orderId (s.threads j) = false := by
    rw [forall_advance hp (P := fun p => tombstones orderId p = false)]
    constructor
    · rintro ⟨-, hothers⟩ j
      obtain rfl | hj := eq_or_ne j i
      · rw [hp]; rfl
      · exact hothers j hj
    · refine fun hnone => ⟨?_, fun j _ => hnone j⟩
      cases ((Op.remove orderId).exec settings d s.shared).1 <;> rfl
  constructor
  · intro ht hheld
    by_contra hbad
    obtain ⟨hlast, hnone⟩ := not_or.1 hbad
    have hvalue := ht.gone horders (hothers.2 fun j => Bool.eq_false_iff.2 fun hj => hnone ⟨j, hj⟩)
    rw [hlatest] at hvalue
    have hsome := hserves.removing i orderId (by rw [hp]; rfl)
    rcases hl : s.shared.latest orderId with _ | _ | v
    · exact hsome hl
    · exact hlast hl
    · exact hvalue v hl
  · intro hin
    refine ⟨fun order horder => (by rw [horders] at horder; cases horder), fun _ hnone => ?_⟩
    rw [hothers] at hnone
    rw [hlatest]
    by_cases hgone : s.shared.orders orderId = none
    · exact h.gone hgone hnone
    · obtain hlast | ⟨j, hj⟩ := hin hgone
      · rw [hlast]
        exact fun v => nofun
      · rw [hnone j] at hj
        cases hj

end

/-- A step leaves the other orders in agreement. -/
theorem Agrees.other (h : Agrees s orderId) (hp : s.threads i = .op o k) (hne : orderId ≠ o.subject) :
    Agrees (s.advance (Op.exec settings) i d) orderId := by
  refine h.still hp ?_ (orders_exec_of_ne hne) (latest_exec_of_ne hne)
  cases o with
  | get | reserve => rfl
  | _ => simpa [Op.isPending, Op.subject] using Ne.symm hne

/-- **The step lemma**: topic and store agree after a step exactly if the step was in order. -/
theorem agrees_iff_inOrder (hserves : Serves api requests s) (h : ∀ x, Agrees s x)
    (hl : AllDelivered s (i, d)) :
    (∀ x, Agrees (s.advance (Op.exec settings) i d) x) ↔ InOrder s (i, d) := by
  cases hp : s.threads i with
  | done response =>
    rw [Pool.advance_done hp]
    refine iff_of_true h fun o ho => ?_
    rw [hp] at ho
    cases ho
  | op o k =>
    have hin : InOrder s (i, d) ↔ o.InOrder s i := by
      simp only [InOrder, hp, Prog.next_op, Option.mem_some_iff, forall_eq']
    have hsubject : (∀ x, Agrees (s.advance (Op.exec settings) i d) x) ↔
        Agrees (s.advance (Op.exec settings) i d) o.subject := by
      refine ⟨fun ht => ht _, fun ht x => ?_⟩
      obtain rfl | hne := eq_or_ne x o.subject
      · exact ht
      · exact (h x).other hp hne
    rw [hin, hsubject]
    have hstand := hserves.stand i
    generalize hr : requests i = r at hstand
    generalize hq : s.threads i = p at hstand
    have hop := hp.symm.trans hq
    cases hstand with
    | answered => cases hop
    | mirrorCreated | mirrorPublished =>
      cases hop
      obtain ⟨result, rfl⟩ := DeliveryFate.isAcked_iff.1 (hl.1 (by rw [hp]; rfl))
      exact agrees_iff_publishSnapshot hp
    | remove =>
      cases hop
      exact agrees_iff_remove (h _) hserves hp
    | create payload =>
      cases hop
      obtain ⟨result, rfl⟩ := DeliveryFate.isAcked_iff.1 (hl.1 (by rw [hp]; rfl))
      refine iff_of_true ((h _).busy hp rfl (fun h => h) rfl fun _ => ?_) trivial
      simp [Op.exec, LifecycleEventProducer.publishAndWait, publishBlocking, registering, pending,
        Op.isPending, Op.subject]
    | register payload result =>
      cases hop
      refine iff_of_true ((h _).busy hp rfl (fun hnone => ?_) rfl fun _ => ?_) trivial
      · exact absurd hnone (by simp [Op.exec, OrderStore.register, Op.subject])
      · simp [Op.exec, OrderStore.register, mirroring, pending, Op.isPending, Op.subject]
    | check =>
      rw [publishEvent_eq] at hop
      cases hop
      exact iff_of_true ((h _).still hp rfl rfl rfl) trivial
    | find =>
      rw [deleteOrder_eq] at hop
      cases hop
      exact iff_of_true ((h _).still hp rfl rfl rfl) trivial
    | view =>
      rw [getOrder_eq] at hop
      cases hop
      exact iff_of_true ((h _).still hp rfl rfl rfl) trivial
    | @reserve x e body =>
      cases hop
      refine iff_of_true ?_ trivial
      by_cases hok : ∃ order, s.shared.orders x = some order ∧
          (body.force = true ∨ isLegalTransition body.eventType order.state = true)
      · obtain ⟨order, horder, hlegal⟩ := hok
        refine (h _).busy hp rfl (fun hnone => ?_) rfl fun _ => ?_
        · simp [Op.exec, OrderStore.reserve_of_legal horder hlegal, Op.subject] at hnone
        · simp [Op.exec, OrderStore.reserve_of_legal horder hlegal, publishing, pending,
            Op.isPending, Op.subject]
      · refine (h _).still hp rfl ?_ rfl
        exact congrFun (OrderStore.reserve_of_refused hok) _
    | publish sequence =>
      cases hop
      obtain ⟨result, rfl⟩ := DeliveryFate.isAcked_iff.1 (hl.1 (by rw [hp]; rfl))
      refine iff_of_true ((h _).busy hp rfl (fun h => h) rfl fun _ => ?_) trivial
      simp [Op.exec, LifecycleEventProducer.publishAndWait, publishBlocking, committing, pending,
        Op.isPending, Op.subject]
    | @commit x e body sequence result =>
      cases hop
      refine iff_of_true ?_ trivial
      cases horder : s.shared.orders x with
      | none =>
        refine (h _).busy hp rfl (fun _ => horder) rfl fun hheld => absurd ?_ hheld
        exact orders_exec_eq_none horder fun payload h => by cases h
      | some order =>
        obtain ⟨order', hanswer, hstore, hkey⟩ : ∃ order',
            (s.shared.orders.commit x body.eventType body.force).1 = .ok order' ∧
            (s.shared.orders.commit x body.eventType body.force).2 x = some order' ∧
            order'.orderId = order.orderId := OrderStore.commit_of_some horder
        refine (h _).busy hp rfl (fun hnone => ?_) rfl fun _ => ?_
        · change (s.shared.orders.commit x body.eventType body.force).2 x = none at hnone
          rw [hstore] at hnone
          cases hnone
        · simp [Op.exec, hanswer, mirroring, pending, Op.isPending, Op.subject, hkey,
            hserves.keyed x order horder]
    | @tombstone x =>
      cases hop
      obtain ⟨result, rfl⟩ := DeliveryFate.isAcked_iff.1 (hl.1 (by rw [hp]; rfl))
      refine iff_of_true ⟨fun order horder hnone => ?_, fun _ _ v => ?_⟩ trivial
      · have hself := ((forall_advance hp (P := fun p => pending _ p = false)).1 hnone).1
        simp [Op.exec, LifecycleEventProducer.publishTombstone, publishBlocking, removing, pending,
          Op.isPending, Op.subject] at hself
      · rw [Pool.shared_advance hp]
        have hlatest : ((Op.publishTombstone x).exec settings (.acked result) s.shared).2.latest x =
            some none := latest_publishTombstone
        intro hv
        cases hlatest.symm.trans hv

/-! ## Runs -/

/-- The compacted topic is the aggregate, order by order. -/
structure Mirrored (s : AppState) : Prop where
  keyed : Keyed s.orders
  held : ∀ x order, s.orders x = some order → s.latest x = some (some order.asSnapshot)
  gone : ∀ x, s.orders x = none → ∀ v, s.latest x ≠ some (some v)

variable {state : AppState} {ticks : List (ι × DeliveryFate)}

omit [DecidableEq ι] in
theorem Mirrored.agrees (h : Mirrored state) (x : String) : Agrees (.start api requests state) x :=
  ⟨fun order horder _ => h.held x order horder, fun hgone _ => h.gone x hgone⟩

/-- No request starts with a removal. -/
theorem handler_next_ne_remove (r : Request) {x : String} :
    (r.handler api).next ≠ some (.remove x) := by
  intro h
  cases r with
  | create o e body =>
    change (createOrder api o e body).next = _ at h
    rw [createOrder_eq] at h
    cases hpayload : body.toPayload <;> rw [hpayload] at h <;> cases h
  | publish => cases h
  | delete => cases h
  | view => cases h

omit [DecidableEq ι] in
/-- No request has got as far as a removal. -/
theorem Mirrored.serves (h : Mirrored state) : Serves api requests (.start api requests state) := by
  refine ⟨allStand_start state, h.keyed, fun i x hi => ?_, fun i x hr hi => ?_⟩
  · exact absurd hi (handler_next_ne_remove (requests i))
  · change (requests i).handler api = _ at hi
    rw [hr] at hi
    cases hi

/-- The latest record of an order is its snapshot, or a tombstone if it was deleted. -/
structure Reflects (requests : ι → Request) (s : Serving ι) (x : String) : Prop where
  held : ∀ order, s.shared.orders x = some order → s.shared.latest x = some (some order.asSnapshot)
  deleted : ∀ i, requests i = .delete x → s.threads i = .done .noContent →
    s.shared.latest x = some none

omit [DecidableEq ι] in
theorem Serves.reflects (h : Serves api requests s) (hagrees : ∀ x, Agrees s x)
    (hdone : ∀ i, (s.threads i).next = none) (x : String) : Reflects requests s x := by
  have hpending : ∀ i, pending x (s.threads i) = false := fun i => by
    simp only [pending, hdone i, Option.any_none]
  have htombstones : ∀ i, tombstones x (s.threads i) = false := fun i => by
    simp only [tombstones, hdone i, Option.any_none]
  refine ⟨fun order horder => (hagrees x).held order horder hpending, fun i hr hi => ?_⟩
  obtain ⟨hgone, hsome⟩ := h.deleted i x hr hi
  rcases hl : s.shared.latest x with _ | _ | v
  · exact absurd hl hsome
  · rfl
  · exact absurd hl ((hagrees x).gone hgone htombstones v)

/-- From a service whose topic mirrors its store, with every record delivered: topic and store agree on
every order throughout a run exactly if its steps are in order, and then the topic reflects every order
once all requests are done. -/
theorem table_agrees (hstate : Mirrored state)
    (hdelivered : Along (Serving.step settings) AllDelivered ticks (.start api requests state)) :
    (Throughout (Serving.step settings) (fun s => ∀ x, Agrees s x) ticks (.start api requests state) ↔
      Along (Serving.step settings) InOrder ticks (.start api requests state)) ∧
    (Along (Serving.step settings) InOrder ticks (.start api requests state) →
      ∀ t, t = Pool.after (Op.exec settings) ticks (Serving.start api requests state) →
        (∀ i, (t.threads i).next = none) → ∀ x, Reflects requests t x) := by
  have hserves : ∀ s l, Serves api requests s → AllDelivered s l →
      wp (Serving.step settings l) (fun _ => Serves api requests) (fun _ _ => False) s :=
    fun s l hs hl => hs.advance hl
  have hrun := Pool.exec_run (Op.exec settings) ticks (Serving.start api requests state)
  have hiff : Throughout (Serving.step settings) (fun s => ∀ x, Agrees s x) ticks
        (.start api requests state) ↔
      Along (Serving.step settings) InOrder ticks (.start api requests state) := by
    refine throughout_iff_along_of_invariant (fun s l hs _ hl => hserves s l hs hl)
      (fun s l t hs h hl ht => ?_) hstate.serves
      hstate.agrees hdelivered hrun
    cases ht
    exact agrees_iff_inOrder hs h hl
  refine ⟨hiff, fun hin t ht hdone => ?_⟩
  subst ht
  have hserved : Serves api requests _ := run_invariant hserves hstate.serves hdelivered hrun
  exact hserved.reflects ((hiff.2 hin).last hrun) hdone

/-! ## A publish request and a deletion -/

section

variable {s : Serving ι} {l : ι × DeliveryFate}

instance : Decidable (AllDelivered s l) := inferInstanceAs (Decidable (_ ∧ _))

instance [Fintype ι] {i : ι} : DecidablePred (Op.InOrder s i)
  | .publishSnapshot _ _ => inferInstanceAs (Decidable (_ ∧ _))
  | .remove _ => inferInstanceAs (Decidable (_ → _))
  | .get _ | .register _ _ | .reserve _ _ _ | .commit _ _ _ | .publishAndWait _
  | .publishTombstone _ => inferInstanceAs (Decidable True)

instance [Fintype ι] : Decidable (InOrder s l) :=
  inferInstanceAs (Decidable (∀ o ∈ (s.threads l.1).next, o.InOrder s l.1))

end

/-- `oneOrder`, its snapshot written. -/
def oneMirrored : AppState where
  orders := oneOrder.orders
  topics := { oneOrder.topics with snapshot := [("o", some justCreated.asSnapshot)] }

theorem mirrored_oneMirrored : Mirrored oneMirrored := by
  have hne : ∀ x, x ≠ "o" → oneMirrored.orders x = none ∧ oneMirrored.latest x = none := by
    intro x hx
    constructor
    · show Function.update (fun _ => none) "o" (some justCreated) x = none
      rw [Function.update_of_ne hx]
    · show Function.update (fun _ => none) "o" (some (some justCreated.asSnapshot)) x = none
      rw [Function.update_of_ne hx]
  refine ⟨fun x order hx => ?_, fun x order hx => ?_, fun x hx v hv => ?_⟩
  · obtain rfl | ho := eq_or_ne x "o"
    · cases hx
      rfl
    · cases (hne x ho).1.symm.trans hx
  · obtain rfl | ho := eq_or_ne x "o"
    · cases hx
      rfl
    · cases (hne x ho).1.symm.trans hx
  · obtain rfl | ho := eq_or_ne x "o"
    · cases hx
    · cases (hne x ho).2.symm.trans hv

def packAndDelete : Bool → Request
  | false => .publish "o" "e2" { eventType := .packed }
  | true => .delete "o"

/-- Both requests find the order; its tombstone is written after the snapshot. -/
def packBeforeDelete : List (Bool × DeliveryFate) :=
  [acked false, acked true, acked false, acked false, acked false, acked false, acked true, acked true]

theorem table_agrees_packBeforeDelete : Reflects packAndDelete
    (Pool.after (Op.exec {}) packBeforeDelete (Serving.start plainApi packAndDelete oneMirrored)) "o" := by
  have hdelivered : Along (Serving.step {}) AllDelivered packBeforeDelete
      (Serving.start plainApi packAndDelete oneMirrored) := by
    refine .cons ?_ (.cons ?_ (.cons ?_ (.cons ?_ (.cons ?_ (.cons ?_ (.cons ?_ (.cons ?_ trivial)))))))
    all_goals decide +kernel
  have hin : Along (Serving.step {}) InOrder packBeforeDelete
      (Serving.start plainApi packAndDelete oneMirrored) := by
    refine .cons ?_ (.cons ?_ (.cons ?_ (.cons ?_ (.cons ?_ (.cons ?_ (.cons ?_ (.cons ?_ trivial)))))))
    all_goals decide +kernel
  refine (table_agrees mirrored_oneMirrored hdelivered).2 hin _ rfl (fun i => ?_) "o"
  cases i <;> rfl

/-- The snapshot of the committed order is written after the deletion. -/
def snapshotAfterDelete : List (Bool × DeliveryFate) :=
  [acked false, acked false, acked false, acked false, acked true, acked true, acked true, acked false]

/-- The deletion is answered `204`, the store has forgotten the order, and its latest record on the
compacted topic is a snapshot. -/
theorem snapshot_resurrects :
    let t := Pool.after (Op.exec {}) snapshotAfterDelete (Serving.start plainApi packAndDelete oneMirrored)
    Along (Serving.step {}) AllDelivered snapshotAfterDelete
      (Serving.start plainApi packAndDelete oneMirrored) ∧
    (∀ i, (t.threads i).next = none) ∧ t.threads true = .done .noContent ∧
    t.shared.orders "o" = none ∧
    t.shared.latest "o" = some (some { justCreated with state := .packed, lastSequence := 2 }.asSnapshot) ∧
    ¬ Reflects packAndDelete t "o" := by
  refine ⟨?_, fun i => ?_, rfl, rfl, rfl, fun h => ?_⟩
  · refine .cons ?_ (.cons ?_ (.cons ?_ (.cons ?_ (.cons ?_ (.cons ?_ (.cons ?_ (.cons ?_ trivial)))))))
    all_goals decide +kernel
  · cases i <;> rfl
  · cases h.deleted true rfl rfl

end OrderService
