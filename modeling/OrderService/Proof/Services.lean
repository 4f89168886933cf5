import OrderService.Producer.Bodies
import OrderService.Proof.Codec
import OrderService.Proof.EventFormat

/-!
# The services on the events they read

No registered service fails at an event that was decoded (`handle_ok`).
-/

namespace OrderService

open Unicode Json Json.Value

/-- An integer that pydantic makes of a value can be printed, if those of the value can. -/
def Pydantic.KeepsDigits (pd : Pydantic) (L : Limits) : Prop :=
  ∀ v depth n, v.fits L depth = true → pd.int v = some n → (Value.int n).fits L 0 = true

theorem plain_keepsDigits : plain.KeepsDigits cpython.limits := by
  intro v depth n hfits h
  cases v with
  | int k =>
    cases h
    exact hfits
  | bool b =>
    cases h
    cases b <;> rfl
  | _ => cases h

section
variable {py : Interpreter} {pd : Pydantic}

theorem fits_int_iff {n : Int} {depth : Nat} : (Value.int n).fits py.limits depth = true ↔ Printable py n := by
  unfold Printable
  simp only [fits, Bool.not_eq_true']
  cases py.limits.digits with
  | none => simp
  | some limit => simp

/-! ## What a validation says -/

section Validation

variable {α β : Type} {fields : List (Text × Value)} {name : String} {coerce : Value → Option α} {a : α}

theorem needField_ok (h : needField fields name coerce = .ok a) :
    ∃ v, (text name, v) ∈ fields ∧ coerce v = some a := by
  unfold needField at h
  split at h
  · next b hb =>
    cases h
    obtain ⟨v, hv, hcoerce⟩ := Option.bind_eq_some_iff.1 hb
    exact ⟨v, field?_mem hv, hcoerce⟩
  · cases h

theorem fieldOr_ok {default : α} (h : fieldOr fields name coerce default = .ok a) :
    a = default ∨ ∃ v, (text name, v) ∈ fields ∧ coerce v = some a := by
  unfold fieldOr at h
  split at h
  · cases h
    exact .inl rfl
  · next v hv =>
    split at h
    · next b hb =>
      cases h
      exact .inr ⟨v, field?_mem hv, hb⟩
    · cases h

theorem fieldsOf_ok {v : Value} (h : fieldsOf v = .ok fields) : v = .obj fields := by
  unfold fieldsOf at h
  split at h <;> cases h
  rfl

theorem mapM_ok {f : α → Except Refusal β} {xs : List α} : ∀ {ys : List β}, xs.mapM f = .ok ys →
    ∀ y ∈ ys, ∃ x ∈ xs, f x = .ok y := by
  induction xs with
  | nil =>
    intro ys h
    cases h
    exact List.forall_mem_nil _
  | cons x xs ih =>
    intro ys h
    rw [List.mapM_cons] at h
    obtain ⟨y, hy, h⟩ := bind_eq_ok h
    obtain ⟨ys, hys, h⟩ := bind_eq_ok h
    cases h
    refine List.forall_mem_cons.2 ⟨⟨x, .head _, hy⟩, fun y' hy' => ?_⟩
    obtain ⟨x', hx', heq⟩ := ih hys y' hy'
    exact ⟨x', .tail _ hx', heq⟩

end Validation

/-- What became of the fields of an item. -/
theorem OrderItem.modelValidate_ok {v : Value} {item : OrderItem} (h : OrderItem.modelValidate pd v = .ok item) :
    ∃ fields, v = .obj fields ∧ (∃ x, (text "qty", x) ∈ fields ∧ pd.int x = some (item.qty : Int)) ∧
      ∃ x, (text "unit_price", x) ∈ fields ∧ pd.int x = some (item.unitPrice : Int) := by
  obtain ⟨fields, hfields, h⟩ := bind_eq_ok h
  obtain ⟨sku, -, h⟩ := bind_eq_ok h
  obtain ⟨qty, hqty, h⟩ := bind_eq_ok h
  obtain ⟨unitPrice, hprice, h⟩ := bind_eq_ok h
  split at h
  · next hok =>
    cases h
    refine ⟨fields, fieldsOf_ok hfields, ?_, ?_⟩
    · rw [Int.toNat_of_nonneg (Int.le_of_lt hok.2.1)]
      exact needField_ok hqty
    · rw [Int.toNat_of_nonneg (Int.le_of_lt hok.2.2)]
      exact needField_ok hprice
  · cases h

/-- What became of the fields of a creation payload. -/
theorem OrderCreatedPayload.modelValidate_ok {v : Value} {payload : OrderCreatedPayload}
    (h : OrderCreatedPayload.modelValidate pd v = .ok payload) :
    ∃ fields, v = .obj fields ∧
      (∃ x, (text "total_amount", x) ∈ fields ∧ pd.int x = some (payload.totalAmount : Int)) ∧
      ∃ xs, (text "items", .arr xs) ∈ fields ∧ xs.mapM (OrderItem.modelValidate pd) = .ok payload.items := by
  obtain ⟨fields, hfields, h⟩ := bind_eq_ok h
  obtain ⟨customerId, -, h⟩ := bind_eq_ok h
  obtain ⟨xs, hxs, h⟩ := bind_eq_ok h
  obtain ⟨items, hitems, h⟩ := bind_eq_ok h
  obtain ⟨totalAmount, htotal, h⟩ := bind_eq_ok h
  obtain ⟨x, -, h⟩ := bind_eq_ok h
  obtain ⟨payment, -, h⟩ := bind_eq_ok h
  split at h
  · split at h
    · cases h
    · next hsum =>
      split at h
      · cases h
      · cases h
        refine ⟨fields, fieldsOf_ok hfields, ?_, ?_⟩
        · rw [← not_not.1 hsum]
          exact needField_ok htotal
        · obtain ⟨w, hw, hlist⟩ := needField_ok hxs
          cases w with
          | arr ws =>
            cases hlist
            exact ⟨xs, hw, hitems⟩
          | _ => cases hlist
  · cases h

/-! ## The limits of what was read -/

/-- What is in a field is within the limits of its object. -/
theorem fits_field {fields : List (Text × Value)} {depth : Nat} {name : Text} {v : Value} {L : Limits}
    (h : (Value.obj fields).fits L depth = true) (hv : (name, v) ∈ fields) : v.fits L (depth + 1) = true :=
  (fitsMembers_iff fields).1 (Bool.and_eq_true_iff.1 h).2 _ hv

theorem fits_element {xs : List Value} {depth : Nat} {v : Value} {L : Limits}
    (h : (Value.arr xs).fits L depth = true) (hv : v ∈ xs) : v.fits L (depth + 1) = true :=
  (fitsElements_iff xs).1 (Bool.and_eq_true_iff.1 h).2 v hv

theorem WireEvent.build_ok {event : LifecycleEvent} {occurredAt : Datetime} {payload : List (Text × Value)}
    {hdict : (Value.obj payload).IsDict} {e : WireEvent pd} (h : build event occurredAt payload hdict = .ok e) :
    e.toLifecycleEvent = event ∧ e.occurredAt = occurredAt ∧ e.payload = payload := by
  unfold build at h
  split at h
  · cases h
    exact ⟨rfl, rfl, rfl⟩
  · cases h

theorem WireEvent.build_of_valid {event : LifecycleEvent} {occurredAt : Datetime} {payload : List (Text × Value)}
    {hdict : (Value.obj payload).IsDict} {m : PayloadModel}
    (h : validatePayload pd event.eventType (.obj payload) = .ok m) :
    ∃ e : WireEvent pd, build event occurredAt payload hdict = .ok e := by
  unfold build
  split
  · exact ⟨_, rfl⟩
  · next r hr =>
    rw [h] at hr
    cases hr

/-- The payload of an event that was read is within the limits it was read by. -/
theorem payload_fits {defaults : WireEvent.Defaults} {raw : List UInt8} {e : WireEvent pd}
    (h : readEvent py pd defaults raw = .ok e) : fitsMembers py.limits e.payload 2 = true := by
  unfold readEvent at h
  obtain ⟨cs, -, h⟩ := bind_eq_ok h
  obtain ⟨document, hdocument, h⟩ := bind_eq_ok h
  split at h
  · next e' he =>
    cases h
    have hfits : document.fits py.limits 0 = true := by
      unfold loadsStr at hdocument
      split at hdocument
      · cases hdocument
      · split at hdocument
        · next v hv =>
          cases hdocument
          exact loadsText_fits hv
        · cases hdocument
        · cases hdocument
    unfold WireEvent.modelValidate at he
    obtain ⟨fields, hfields, he⟩ := bind_eq_ok he
    obtain ⟨_, -, he⟩ := bind_eq_ok he
    obtain ⟨_, -, he⟩ := bind_eq_ok he
    obtain ⟨_, -, he⟩ := bind_eq_ok he
    obtain ⟨_, -, he⟩ := bind_eq_ok he
    obtain ⟨_, -, he⟩ := bind_eq_ok he
    obtain ⟨payload, hpayload, he⟩ := bind_eq_ok he
    split at he
    · rw [(WireEvent.build_ok he).2.2]
      obtain rfl | ⟨v, hv, hdict⟩ := fieldOr_ok hpayload
      · rfl
      · cases v with
        | obj ms =>
          cases hdict
          rw [fieldsOf_ok hfields] at hfits
          exact (Bool.and_eq_true_iff.1 (fits_collapse _ _ (fits_field hfits hv))).2
        | _ => cases hdict
    · cases he
  · cases h

theorem printable_int (hdigits : pd.KeepsDigits py.limits) {v : Value} {depth : Nat} {n : Int}
    (hfits : v.fits py.limits depth = true) (h : pd.int v = some n) : Printable py n :=
  fits_int_iff.1 (hdigits v depth n hfits h)

theorem printable_totalAmount (hdigits : pd.KeepsDigits py.limits) {fields : List (Text × Value)} {depth : Nat}
    (hfits : fitsMembers py.limits fields depth = true) {payload : OrderCreatedPayload}
    (h : OrderCreatedPayload.modelValidate pd (.obj fields) = .ok payload) :
    Printable py payload.totalAmount := by
  obtain ⟨fields', heq, ⟨x, hx, hint⟩, -⟩ := OrderCreatedPayload.modelValidate_ok h
  cases heq
  exact printable_int hdigits ((fitsMembers_iff fields).1 hfits _ hx) hint

/-! ## The handlers -/

theorem strInt_ok {n : Int} (h : Printable py n) : ∃ s, py.strInt n = .ok s := by
  unfold Interpreter.strInt
  obtain ⟨digits, hdigits⟩ := Option.isSome_iff_exists.1 ((dumpInt?_isSome _ _).2 h)
  rw [hdigits]
  exact ⟨_, rfl⟩

theorem WireEvent.asOrderCreated_ok {e : WireEvent pd} (h : e.eventType = .orderCreated) :
    ∃ payload, e.asOrderCreated = .ok payload ∧
      OrderCreatedPayload.modelValidate pd (.obj e.payload) = .ok payload := by
  have hok := e.payload_ok
  rw [h] at hok
  unfold asOrderCreated
  rw [if_neg (not_not.2 h)]
  cases hpayload : OrderCreatedPayload.modelValidate pd (.obj e.payload) with
  | ok payload => exact ⟨payload, rfl, rfl⟩
  | error r =>
    simp only [validatePayload, hpayload] at hok
    cases hok

theorem WireEvent.asShipped_ok {e : WireEvent pd} (h : e.eventType = .shipped) :
    ∃ payload, e.asShipped = .ok payload := by
  have hok := e.payload_ok
  rw [h] at hok
  unfold asShipped
  rw [if_neg (not_not.2 h)]
  cases hpayload : ShippedPayload.modelValidate pd (.obj e.payload) with
  | ok payload => exact ⟨payload, rfl⟩
  | error r =>
    simp only [validatePayload, hpayload] at hok
    cases hok

/-- The texts of a notification. -/
theorem Notification.messageFor_ok (hdigits : pd.KeepsDigits py.limits) {defaults : WireEvent.Defaults}
    {raw : List UInt8} {e : WireEvent pd} (h : readEvent py pd defaults raw = .ok e) :
    ∃ message, Notification.messageFor py e = .ok message := by
  unfold Notification.messageFor
  by_cases hshipped : e.eventType = .shipped
  · obtain ⟨shipped, hpayload⟩ := WireEvent.asShipped_ok hshipped
    rw [if_pos hshipped, hpayload]
    exact ⟨_, rfl⟩
  · by_cases hcreated : e.eventType = .orderCreated
    · obtain ⟨created, hpayload, hvalid⟩ := WireEvent.asOrderCreated_ok hcreated
      obtain ⟨total, htotal⟩ := strInt_ok (printable_totalAmount hdigits (payload_fits h) hvalid)
      rw [if_neg hshipped, if_pos hcreated, hpayload]
      show ∃ message, (py.strInt created.totalAmount >>= _) = .ok message
      rw [htotal]
      exact ⟨_, rfl⟩
    · rw [if_neg hshipped, if_neg hcreated]
      exact ⟨_, rfl⟩

/-- **No registered service fails at an event it has read.** -/
theorem handle_ok (hdigits : pd.KeepsDigits py.limits) {defaults : WireEvent.Defaults} {raw : List UInt8}
    {e : WireEvent pd} (h : readEvent py pd defaults raw = .ok e) (r : RegisteredService)
    (counts : Analytics.Tally) :
    ∃ lines counts', r.handle py counts e = .ok (lines, counts') := by
  cases r with
  | inventory =>
    unfold RegisteredService.handle Inventory.reserveStock Inventory.releaseReservation
    cases ht : e.eventType with
    | orderCreated =>
      obtain ⟨payload, hpayload, -⟩ := WireEvent.asOrderCreated_ok ht
      rw [hpayload]
      exact ⟨_, _, rfl⟩
    | shipped =>
      obtain ⟨payload, hpayload⟩ := WireEvent.asShipped_ok ht
      rw [hpayload]
      exact ⟨_, _, rfl⟩
    | packed => exact ⟨_, _, rfl⟩
    | delivered => exact ⟨_, _, rfl⟩
  | notification =>
    obtain ⟨message, hmessage⟩ := Notification.messageFor_ok hdigits h
    unfold RegisteredService.handle Notification.notify
    rw [hmessage]
    exact ⟨_, _, rfl⟩
  | analytics => exact ⟨_, _, rfl⟩

end

end OrderService
