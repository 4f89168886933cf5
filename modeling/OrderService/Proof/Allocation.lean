import OrderService.Producer.Locking
import OrderService.Proof.Requests

/-!
# Sequence allocation

`sequencesOf` reads the sequences of an order off the calls that returned, `Contiguous` compares them
with the store. The methods keep it when they run alone (`Contiguous.exec`), so by the monitor rule no
interleaving of their accesses loses an update (`sequences_contiguous`).
-/

namespace OrderService

open Eff Threads

/-- A call that returned, with its answer. -/
abbrev Returned := (c : StoreCall) × c.Answer

/-- What a call does to the sequences of an order: a registration begins them anew, a removal ends
them, a reservation that succeeds adds the one it answers. -/
def Returned.extend (orderId : String) (sequences : Option (List Nat)) : Returned → Option (List Nat)
  | ⟨.register o _, _⟩ => if o = orderId then some [] else sequences
  | ⟨.remove o, .ok _⟩ => if o = orderId then none else sequences
  | ⟨.reserve o _ _, .ok sequence⟩ =>
    if o = orderId then sequences.map (· ++ [sequence.1]) else sequences
  | _ => sequences

/-- The sequences that the reservations of an order returned since its registration; `none` if it is
not registered. -/
def sequencesOf (orderId : String) (calls : List Returned) : Option (List Nat) :=
  calls.foldl (Returned.extend orderId) none

/-- The call registers or removes the order, or reserves a sequence for it. -/
def Returned.allocates (orderId : String) : Returned → Bool
  | ⟨.register o _, _⟩ => o = orderId
  | ⟨.remove o, .ok _⟩ => o = orderId
  | ⟨.reserve o _ _, .ok _⟩ => o = orderId
  | _ => false

/-- The sequences returned are 2, 3, ..., and the order's last one is one more than their number. -/
structure Contiguous (orderId : String) (calls : List Returned) (store : OrderStore) : Prop where
  known : (sequencesOf orderId calls).isSome = (store orderId).isSome
  sequences : ∀ ns, sequencesOf orderId calls = some ns → ns = List.range' 2 ns.length
  last : ∀ order ns, store orderId = some order → sequencesOf orderId calls = some ns →
    order.lastSequence = 1 + ns.length

variable {orderId : String} {calls new : List Returned} {store : OrderStore}

theorem sequencesOf_concat (c : Returned) :
    sequencesOf orderId (calls ++ [c]) = c.extend orderId (sequencesOf orderId calls) := by
  simp [sequencesOf]

theorem extend_of_not_allocates {c : Returned} (h : c.allocates orderId = false)
    (sequences : Option (List Nat)) : c.extend orderId sequences = sequences := by
  obtain ⟨c, answer⟩ := c
  cases c with
  | get | commit => rfl
  | register o payload => simpa [Returned.extend] using fun ho => absurd ho (of_decide_eq_false h)
  | remove o =>
    cases answer with
    | error e => rfl
    | ok order => simpa [Returned.extend] using fun ho => absurd ho (of_decide_eq_false h)
  | reserve o t force =>
    cases answer with
    | error e => rfl
    | ok sequence => simpa [Returned.extend] using fun ho => absurd ho (of_decide_eq_false h)

theorem sequencesOf_append (h : ∀ c ∈ new, c.allocates orderId = false) :
    sequencesOf orderId (calls ++ new) = sequencesOf orderId calls := by
  induction new generalizing calls with
  | nil => rw [List.append_nil]
  | cons c new ih =>
    rw [List.append_cons, ih fun c hc => h c (.tail _ hc), sequencesOf_concat,
      extend_of_not_allocates (h c (.head _))]

/-! ## One call -/

/-- The call, as an operation of a handler. -/
def StoreCall.op : StoreCall → Op
  | .register orderId payload => .register orderId payload
  | .get orderId => .get orderId
  | .remove orderId => .remove orderId
  | .reserve orderId eventType force => .reserve orderId eventType force
  | .commit orderId eventType force => .commit orderId eventType force

theorem op_exec (settings : ProducerSettings) (d : DeliveryFate) (topics : Topics) (c : StoreCall) :
    (c.op.exec settings d ⟨store, topics⟩).2.orders = (c.exec store).2 := by
  cases c <;> rfl

theorem exec_of_ne {c : StoreCall} (h : orderId ≠ c.op.subject) :
    (c.exec store).2 orderId = store orderId := by
  rw [← op_exec {} (.refused "") {}]
  exact orders_exec_of_ne h

theorem not_allocates_of_ne {c : StoreCall} {answer : c.Answer} (h : orderId ≠ c.op.subject) :
    Returned.allocates orderId ⟨c, answer⟩ = false := by
  cases c with
  | get | commit => rfl
  | register o payload => exact decide_eq_false (Ne.symm h)
  | remove o =>
    cases answer with
    | error e => rfl
    | ok order => exact decide_eq_false (Ne.symm h)
  | reserve o t force =>
    cases answer with
    | error e => rfl
    | ok sequence => exact decide_eq_false (Ne.symm h)

/-- A call that allocates nothing, and leaves the order its last sequence. -/
theorem Contiguous.keep (h : Contiguous orderId calls store) {c : Returned} {store' : OrderStore}
    (hc : c.allocates orderId = false)
    (hlast : (store' orderId).map Order.lastSequence = (store orderId).map Order.lastSequence) :
    Contiguous orderId (calls ++ [c]) store' := by
  have hsame : sequencesOf orderId (calls ++ [c]) = sequencesOf orderId calls :=
    sequencesOf_append (by simpa using hc)
  refine ⟨?_, fun ns hns => h.sequences ns (hsame ▸ hns), fun order ns horder hns => ?_⟩
  · have hisSome := congrArg Option.isSome hlast
    simp only [Option.isSome_map] at hisSome
    rw [hsame, h.known, hisSome]
  · rw [horder] at hlast
    obtain ⟨order', horder', heq⟩ := Option.map_eq_some_iff.1 hlast.symm
    rw [← heq]
    exact h.last order' ns horder' (hsame ▸ hns)

/-- The order is held, with these sequences. -/
theorem Contiguous.of_held {order : Order} (ns : List Nat) (horder : store orderId = some order)
    (hns : sequencesOf orderId calls = some ns) (hsequences : ns = List.range' 2 ns.length)
    (hlast : order.lastSequence = 1 + ns.length) : Contiguous orderId calls store := by
  refine ⟨by rw [hns, horder]; rfl, fun ns' hns' => ?_, fun order' ns' horder' hns' => ?_⟩
  · cases hns.symm.trans hns'
    exact hsequences
  · cases hns.symm.trans hns'
    cases horder.symm.trans horder'
    exact hlast

theorem Contiguous.of_gone (horder : store orderId = none) (hns : sequencesOf orderId calls = none) :
    Contiguous orderId calls store := by
  refine ⟨by rw [hns, horder]; rfl, fun ns' hns' => ?_, fun order' ns' _ hns' => ?_⟩
  · cases hns.symm.trans hns'
  · cases hns.symm.trans hns'

theorem Contiguous.held (h : Contiguous orderId calls store) {order : Order}
    (horder : store orderId = some order) : ∃ ns, sequencesOf orderId calls = some ns ∧
      ns = List.range' 2 ns.length ∧ order.lastSequence = 1 + ns.length := by
  have hknown := h.known
  rw [horder] at hknown
  obtain ⟨ns, hns⟩ := Option.isSome_iff_exists.1 hknown
  exact ⟨ns, hns, h.sequences ns hns, h.last order ns horder hns⟩

/-- **The step lemma**: a method that runs alone keeps the sequences contiguous. -/
theorem Contiguous.exec (h : Contiguous orderId calls store) (c : StoreCall) :
    Contiguous orderId (calls ++ [⟨c, (c.exec store).1⟩]) (c.exec store).2 := by
  obtain rfl | hne := eq_or_ne orderId c.op.subject
  swap
  · exact h.keep (not_allocates_of_ne hne) (by rw [exec_of_ne hne])
  cases c with
  | get o => exact h.keep rfl rfl
  | register o payload =>
    refine .of_held [] (Function.update_self _ _ _) ?_ rfl rfl
    rw [sequencesOf_concat]
    exact if_pos rfl
  | remove o =>
    cases horder : store o with
    | none =>
      simp only [StoreCall.exec, OrderStore.remove_of_none horder]
      exact h.keep rfl rfl
    | some order =>
      simp only [StoreCall.exec, OrderStore.remove_of_some horder]
      refine .of_gone (Function.update_self _ _ _) ?_
      rw [sequencesOf_concat]
      exact if_pos rfl
  | commit o t force =>
    refine h.keep rfl ?_
    cases horder : store o with
    | none => simp only [StoreCall.exec, OrderStore.commit_of_none horder, StoreCall.op, Op.subject]
    | some order =>
      simp only [StoreCall.exec, OrderStore.commit, StoreCall.op, Op.subject, horder]
      split
      · exact congrArg _ horder
      · simp
  | reserve o t force =>
    by_cases hok : ∃ order, store o = some order ∧ (force = true ∨ isLegalTransition t order.state = true)
    · obtain ⟨order, horder, hlegal⟩ := hok
      obtain ⟨ns, hns, hsequences, hlast⟩ := h.held horder
      simp only [StoreCall.exec, OrderStore.reserve_of_legal horder hlegal]
      refine .of_held (ns ++ [order.lastSequence + 1]) (Function.update_self _ _ _) ?_ ?_ ?_
      · rw [sequencesOf_concat]
        simp only [StoreCall.op, Op.subject] at hns
        simp [Returned.extend, hns, StoreCall.op, Op.subject]
      · rw [List.length_append, List.length_singleton, List.range'_1_concat, ← hsequences, hlast]
        congr 2
        omega
      · rw [List.length_append, List.length_singleton]
        dsimp only
        omega
    · have hrefused : (store.reserve o t force).2 = store := OrderStore.reserve_of_refused hok
      refine h.keep ?_ (by simp only [StoreCall.exec, hrefused])
      change Returned.allocates o ⟨.reserve o t force, (store.reserve o t force).1⟩ = false
      cases hanswer : (store.reserve o t force).1 with
      | error e => rfl
      | ok sequence => exact absurd (OrderStore.reserve_ok hanswer) hok

/-! ## Runs -/

variable {ι α : Type} [DecidableEq ι]

/-- Threads that share a new `OrderStore`. -/
def callers (programs : ι → Prog StoreCall.Answer α) :
    Monitor.Callers StoreCall.Answer DictAccess.Answer α ι OrderStore where
  threads := programs
  shared := fun _ => none

theorem Contiguous.last_eq {store' : OrderStore} (h : Contiguous orderId calls store)
    (h' : Contiguous orderId (calls ++ new) store') (hnew : ∀ c ∈ new, c.allocates orderId = false) :
    (store' orderId).map Order.lastSequence = (store orderId).map Order.lastSequence := by
  have hsame : sequencesOf orderId (calls ++ new) = sequencesOf orderId calls := sequencesOf_append hnew
  cases horder : store orderId with
  | none =>
    have hgone : (store' orderId).isSome = false := by
      rw [← h'.known, hsame, h.known, horder]
      rfl
    rw [Option.isSome_eq_false_iff, Option.isNone_iff_eq_none] at hgone
    rw [hgone]
  | some order =>
    obtain ⟨ns, hns, -, hlast⟩ := h.held horder
    cases horder' : store' orderId with
    | none =>
      have hknown := h'.known
      rw [hsame, hns, horder'] at hknown
      cases hknown
    | some order' =>
      have hlast' := h'.last order' ns horder' (hsame.trans hns)
      simp [hlast, hlast']

/-- Any number of threads call the methods of a new store: whenever its lock is free, the sequences
that were returned for an order since its registration are 2, 3, ..., and its last sequence is one more
than their number; it stays as it is while no call registers or removes the order or reserves for it. -/
theorem sequences_contiguous (programs : ι → Prog StoreCall.Answer α) (orderId : String) :
    (∀ ticks, Throughout orders.step
      (fun s => s.holder = none → Contiguous orderId s.returned s.shared) ticks (callers programs)) ∧
    ∀ (earlier later : List ι) s t new, (earlier.forM orders.step).exec (callers programs) = (.ok ⟨⟩, s) →
      (later.forM orders.step).exec s = (.ok ⟨⟩, t) → s.holder = none → t.holder = none →
      t.returned = s.returned ++ new → (∀ c ∈ new, Returned.allocates orderId c = false) →
      (t.shared orderId).map Order.lastSequence = (s.shared orderId).map Order.lastSequence := by
  have hall : ∀ ticks, Throughout orders.step
      (fun s => s.holder = none → Contiguous orderId s.returned s.shared) ticks (callers programs) :=
    fun ticks => Monitor.throughout (fun calls store c h => orders_exec c store ▸ h.exec c) rfl
      (.of_gone rfl rfl)
  refine ⟨hall, fun earlier later s t new hearlier hlater hs ht hnew hallocates => ?_⟩
  have hboth : ((earlier ++ later).forM orders.step).exec (callers programs) = (.ok ⟨⟩, t) :=
    (exec_forM_append hearlier).trans hlater
  have hcontiguous := (hall (earlier ++ later)).last hboth ht
  rw [hnew] at hcontiguous
  exact ((hall earlier).last hearlier hs).last_eq hcontiguous hallocates

/-! ## Two threads that reserve at once -/

def oneItem : OrderCreatedPayload where
  customerId := "c"
  items := [⟨"sku", 1, 1, by decide, by decide, by decide⟩]
  totalAmount := 1
  payment := ⟨.card, "paid", 1, by decide⟩
  customerId_ne := by decide
  items_ne := by decide
  totalAmount_eq := rfl
  amount_eq := rfl

/-- One thread registers the order and packs it, the other one ships it by force. -/
def packAndForce : Bool → Prog StoreCall.Answer Unit
  | false => do
    let _ ← Prog.perform (StoreCall.register "o" oneItem)
    let _ ← Prog.perform (StoreCall.reserve "o" .packed false)
    let _ ← Prog.perform (StoreCall.commit "o" .packed false)
  | true => do
    let _ ← Prog.perform (StoreCall.reserve "o" .shipped true)

/-- The second thread comes to the lock in the middle of the first one's reservation, and commits wait
for it. -/
def contending : List Bool :=
  [false, false, false, false, true, false, true, false, false, true, true, false, true, true, true,
    false, false, false, false]

theorem sequences_contiguous_contending :
    let t := ((contending.forM orders.step).exec (callers packAndForce)).2
    t.holder = none ∧ Contiguous "o" t.returned t.shared ∧ sequencesOf "o" t.returned = some [2, 3] := by
  intro t
  have h := (sequences_contiguous packAndForce "o").1 contending
  exact ⟨rfl, h.last (t := t) rfl rfl, rfl⟩

end OrderService
