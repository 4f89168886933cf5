import OrderService.Proof.Services

/-!
# From the body of a request to the services

What `publish_event` was given is what the services read (`published_event_served`), and what they do at an
order that was created is what its body asked for (`created_order_served`).
-/

namespace OrderService

open Unicode Json Json.Value

section
variable {py : Interpreter} {pd : Pydantic}

/-! ## What is in a body -/

theorem loads_fits {bytes : List UInt8} {v : Value} (h : loads py bytes = .ok v) :
    v.fits py.limits 0 = true := by
  unfold loads at h
  split at h
  · next v' hv =>
    cases h
    exact Json.loads_fits hv
  · cases h
  · cases h

/-- A payload that came with a request can be read at its place in an event. -/
theorem PublishBody.payload_fits {v : Value} {body : PublishBody} (hfits : v.fits py.limits 0 = true)
    (hnesting : py.limits.nesting.any (· < 1) = false) (h : PublishBody.modelValidate pd v = .ok body) :
    (Value.obj body.payload.1).fits py.limits 1 = true := by
  obtain ⟨fields, hfields, h⟩ := bind_eq_ok h
  obtain ⟨eventType, -, h⟩ := bind_eq_ok h
  obtain ⟨payload, hpayload, h⟩ := bind_eq_ok h
  obtain ⟨force, -, h⟩ := bind_eq_ok h
  cases h
  rw [fieldsOf_ok hfields] at hfits
  obtain rfl | ⟨x, hx, hdict⟩ := fieldOr_ok hpayload
  · show (!py.limits.nesting.any (· < 1) && true) = true
    rw [hnesting]
    rfl
  · cases x with
    | obj ms =>
      cases hdict
      exact fits_collapse _ _ (fits_field hfits hx)
    | _ => cases hdict

theorem PaymentInfo.modelValidate_ok {v : Value} {payment : PaymentInfo}
    (h : PaymentInfo.modelValidate pd v = .ok payment) :
    ∃ fields, v = .obj fields ∧ ∃ x, (text "amount", x) ∈ fields ∧ pd.int x = some (payment.amount : Int) := by
  obtain ⟨fields, hfields, h⟩ := bind_eq_ok h
  obtain ⟨method, -, h⟩ := bind_eq_ok h
  obtain ⟨reference, -, h⟩ := bind_eq_ok h
  obtain ⟨amount, hamount, h⟩ := bind_eq_ok h
  split at h
  · next hok =>
    cases h
    refine ⟨fields, fieldsOf_ok hfields, ?_⟩
    rw [Int.toNat_of_nonneg hok.2]
    exact needField_ok hamount
  · cases h

/-- The numbers of a creation payload can be printed. -/
structure OrderCreatedPayload.Prints (payload : OrderCreatedPayload) (py : Interpreter) : Prop where
  items : ∀ item ∈ payload.items, Printable py item.qty ∧ Printable py item.unitPrice
  totalAmount : Printable py payload.totalAmount

/-- An order that was accepted has only numbers that its body had. -/
theorem CreateOrderRequest.prints (hdigits : pd.KeepsDigits py.limits) {v : Value} {body : CreateOrderRequest}
    {payload : OrderCreatedPayload} (hfits : v.fits py.limits 0 = true)
    (h : CreateOrderRequest.modelValidate pd v = .ok body) (hpayload : body.toPayload = .ok payload) :
    payload.Prints py := by
  obtain ⟨fields, hfields, h⟩ := bind_eq_ok h
  obtain ⟨customerId, -, h⟩ := bind_eq_ok h
  obtain ⟨xs, hxs, h⟩ := bind_eq_ok h
  obtain ⟨items, hitems, h⟩ := bind_eq_ok h
  obtain ⟨x, hx, h⟩ := bind_eq_ok h
  obtain ⟨payment, hpayment, h⟩ := bind_eq_ok h
  rw [fieldsOf_ok hfields] at hfits
  split_ifs at h
  · cases h
    unfold CreateOrderRequest.toPayload at hpayload
    dsimp only at hpayload
    split at hpayload
    · next hamount =>
      cases hpayload
      constructor
      · intro item hitem
        obtain ⟨w, hw, hlist⟩ := needField_ok hxs
        cases w with
        | arr ws =>
          cases hlist
          obtain ⟨y, hy, hvalid⟩ := mapM_ok hitems item hitem
          obtain ⟨inner, rfl, ⟨q, hq, hqty⟩, p, hp, hprice⟩ := OrderItem.modelValidate_ok hvalid
          have harr := fits_field hfits hw
          have hinner := fits_element harr hy
          exact ⟨printable_int hdigits (fits_field hinner hq) hqty,
            printable_int hdigits (fits_field hinner hp) hprice⟩
        | _ => cases hlist
      · obtain ⟨w, hw, hsome⟩ := needField_ok hx
        cases hsome
        obtain ⟨inner, rfl, a, ha, hint⟩ := PaymentInfo.modelValidate_ok hpayment
        have hprintable := printable_int hdigits (fits_field (fits_field hfits hw) ha) hint
        rw [hamount] at hprintable
        exact hprintable
    · cases hpayload

/-! ## `publish_event` -/

theorem nesting_le {L : Limits} {m n : Nat} (h : L.nesting.any (· < n) = false) (hmn : m ≤ n) :
    L.nesting.any (· < m) = false := by
  cases hL : L.nesting with
  | none => rfl
  | some limit =>
    rw [hL] at h
    simp only [Option.any_some, decide_eq_false_iff_not] at h ⊢
    omega

theorem OrderCreatedPayload.Prints.fits {payload : OrderCreatedPayload} (h : payload.Prints py)
    (hnesting : py.limits.nesting.any (· < 3) = false) :
    (Value.obj payload.modelDump).fits py.limits 1 = true := by
  have hitems : fitsElements py.limits (payload.items.map fun item => .obj item.modelDump) 3 = true := by
    rw [fitsElements_iff]
    intro x hx
    obtain ⟨item, hitem, rfl⟩ := List.mem_map.1 hx
    obtain ⟨hqty, hprice⟩ := h.items item hitem
    show (!py.limits.nesting.any (· < 3) && (true && ((Value.int item.qty).fits py.limits 4 &&
      ((Value.int item.unitPrice).fits py.limits 4 && true)))) = true
    rw [hnesting, fits_int_iff.2 hqty, fits_int_iff.2 hprice]
    rfl
  have hamount : Printable py payload.payment.amount := by
    rw [payload.amount_eq]
    exact h.totalAmount
  show (!py.limits.nesting.any (· < 1) && (true &&
    ((!py.limits.nesting.any (· < 2) &&
      fitsElements py.limits (payload.items.map fun item => .obj item.modelDump) 3) &&
    ((Value.int payload.totalAmount).fits py.limits 2 &&
    ((!py.limits.nesting.any (· < 2) && (true && (true && ((Value.int payload.payment.amount).fits py.limits 3 &&
      true)))) && true))))) = true
  rw [nesting_le hnesting (by decide), nesting_le hnesting (by decide), hitems, fits_int_iff.2 h.totalAmount,
    fits_int_iff.2 hamount]
  rfl

/-- A payload has texts of its fields and no doubles. -/
theorem passes_modelDump {p : Text → Bool} {q : Binary64 → Bool} (hp : ∀ s, p (text s) = true)
    (payload : OrderCreatedPayload) : passesMembers p q payload.modelDump = true := by
  have hitem (item : OrderItem) : passes p q (.obj item.modelDump) = true := by
    simp only [OrderItem.modelDump, passes, passesMembers, hp, Bool.and_true]
  have hitems (items : List OrderItem) :
      passesElements p q (items.map fun item => .obj item.modelDump) = true := by
    induction items with
    | nil => rfl
    | cons item items ih =>
      show (passes p q (.obj item.modelDump) &&
        passesElements p q (items.map fun item => .obj item.modelDump)) = true
      rw [hitem, ih]
      rfl
  simp only [OrderCreatedPayload.modelDump, PaymentInfo.modelDump, passesMembers, passes, hp, hitems,
    Bool.and_true]

theorem strInt_natCast {n : Nat} (h : Printable py n) : py.strInt n = .ok (toString n) := by
  have hdump : dumpInt? py.limits (n : Int) = some (Nat.toDigits 10 n) := by
    have hlimit : (Value.int (n : Int)).fits py.limits 0 = true := fits_int_iff.2 h
    simp only [Json.Value.fits, Bool.not_eq_true'] at hlimit
    unfold dumpInt?
    dsimp only
    rw [hlimit, if_neg Bool.false_ne_true, if_neg (Int.not_lt.2 (Int.natCast_nonneg n))]
    rfl
  unfold Interpreter.strInt
  rw [hdump]
  exact congrArg Except.ok Nat.toString_eq_ofList_toDigits.symm

/-- What the customer is told of an order that was created. -/
def confirmation (payload : OrderCreatedPayload) : String :=
  s!"Order confirmed — payment received, we are preparing it (total {payload.totalAmount})"

/-- The services at the event of a creation. -/
theorem handle_creation {e : WireEvent pd} {payload : OrderCreatedPayload} {orderId : String}
    (htype : e.eventType = .orderCreated) (horder : e.orderId = orderId)
    (hpayload : e.asOrderCreated = .ok payload)
    (htotal : Printable py payload.totalAmount) (counts : Analytics.Tally) :
    RegisteredService.inventory.handle py counts e = .ok
        (payload.items.map fun item => s!"[inventory] reserving {item.qty} × {item.sku} for {orderId}", counts) ∧
      RegisteredService.notification.handle py counts e = .ok
        ([s!"[notification] → customer of {orderId}: {confirmation payload}"], counts) ∧
      (Analytics.count counts e).2 = Function.update counts .orderCreated (counts .orderCreated + 1) := by
  refine ⟨?_, ?_, ?_⟩
  · unfold RegisteredService.handle Inventory.reserveStock
    rw [htype, hpayload, horder]
    rfl
  · have hmessage : Notification.messageFor py e = .ok (confirmation payload) := by
      unfold Notification.messageFor
      rw [htype, if_neg (by decide), if_pos rfl, hpayload]
      show (py.strInt payload.totalAmount >>= _) = _
      rw [strInt_natCast htotal]
      rfl
    unfold RegisteredService.handle Notification.notify
    dsimp only
    rw [hmessage, horder]
    rfl
  · unfold Analytics.count
    rw [htype]

/-- **From a creation to the services**: the event of every order that `create_order` accepts is written, is
read as it was by every consumer, holds the payload, and is taken by the services for what its body asked. -/
theorem created_order_served (hpd : pd.ReadsBack py.limits) (hdigits : pd.KeepsDigits py.limits)
    (hnesting : py.limits.nesting.any (· < 3) = false) (defaults : WireEvent.Defaults) {bytes : List UInt8}
    {v : Value} {body : CreateOrderRequest} {payload : OrderCreatedPayload} (hload : loads py bytes = .ok v)
    (hbody : CreateOrderRequest.modelValidate pd v = .ok body) (hpayload : body.toPayload = .ok payload)
    (orderId eventId : String) (occurredAt : Datetime) (htime : (pd.datetimeText occurredAt).isSome = true) :
    ∃ e raw, creationEvent pd orderId eventId occurredAt payload = .ok e ∧ e.modelDumpJson = some raw ∧
      readEvent py pd defaults raw = .ok e ∧ e.asOrderCreated = .ok payload ∧
      ∀ counts, RegisteredService.inventory.handle py counts e = .ok
          (body.items.map fun item => s!"[inventory] reserving {item.qty} × {item.sku} for {orderId}", counts) ∧
        RegisteredService.notification.handle py counts e = .ok
          ([s!"[notification] → customer of {orderId}: {confirmation payload}"], counts) ∧
        (Analytics.count counts e).2 = Function.update counts .orderCreated (counts .orderCreated + 1) := by
  have hprints := CreateOrderRequest.prints hdigits (loads_fits hload) hbody hpayload
  have hvalid : validatePayload pd .orderCreated (.obj payload.modelDump) = .ok (.orderCreated payload) := by
    unfold validatePayload
    rw [OrderCreatedPayload.modelValidate_modelDump hpd]
    rfl
  obtain ⟨e, he⟩ : ∃ e, creationEvent pd orderId eventId occurredAt payload = .ok e :=
    WireEvent.build_of_valid hvalid
  obtain ⟨hevent, hoccurred, hdump⟩ := WireEvent.build_ok he
  have htype : e.eventType = .orderCreated := by rw [hevent]
  have horder : e.orderId = orderId := by rw [hevent]
  have hwritten : e.modelDumpJson.isSome = true := by
    rw [isSome_modelDumpJson, hoccurred, htime, hdump]
    exact passes_modelDump (p := fun t => (rawString? t).isSome) (fun s => rawString?_ofChars _) payload
  obtain ⟨raw, hraw⟩ := Option.isSome_iff_exists.1 hwritten
  have hwithin : e.Within py.limits := by
    have hone : Printable py (e.sequence : Int) := by
      rw [hevent]
      intro limit hlimit
      have hpos : 0 < (Nat.toDigits 10 (payload.totalAmount : Int).natAbs).length := Nat.length_toDigits_pos
      have hone : (Nat.toDigits 10 1).length = 1 := rfl
      show (Nat.toDigits 10 1).length ≤ limit
      rw [hone]
      exact Nat.le_trans hpos (hprints.totalAmount limit hlimit)
    refine ⟨fits_int_iff.2 hone, ?_, ?_⟩
    · rw [hdump]
      exact hprints.fits hnesting
    · rw [hdump]
      exact passes_modelDump (fun _ => rfl) payload
  have htyped : e.asOrderCreated = .ok payload := by
    obtain ⟨payload', htyped, hvalid'⟩ := WireEvent.asOrderCreated_ok htype
    rw [hdump, OrderCreatedPayload.modelValidate_modelDump hpd] at hvalid'
    cases hvalid'
    exact htyped
  have hitems : body.items = payload.items := by
    unfold CreateOrderRequest.toPayload at hpayload
    dsimp only at hpayload
    split at hpayload
    · cases hpayload
      rfl
    · cases hpayload
  refine ⟨e, raw, he, hraw, readEvent_modelDumpJson hpd defaults e hwithin hraw, htyped, fun counts => ?_⟩
  rw [hitems]
  exact handle_creation htype horder htyped hprints.totalAmount counts

/-- The body of a request to create an order of two items. -/
def orderRequest : List UInt8 :=
  ("\x7b\"customer_id\": \"c-1\", \"items\": [\x7b\"sku\": \"tea\", \"qty\": 12, \"unit_price\": 150\x7d, " ++
    "\x7b\"sku\": \"mug\", \"qty\": 11, \"unit_price\": 200\x7d], " ++
    "\"payment\": \x7b\"method\": \"CARD\", \"reference\": \"r-1\", \"amount\": 4000\x7d\x7d").toUTF8.data.toList

def twoItems : CreateOrderRequest where
  customerId := "c-1"
  items := [⟨"tea", 12, 150, by decide, by decide, by decide⟩, ⟨"mug", 11, 200, by decide, by decide, by decide⟩]
  payment := ⟨.card, "r-1", 4000, by decide⟩
  customerId_ne := by decide
  items_ne := List.cons_ne_nil _ _

set_option maxRecDepth 20000 in
theorem created_order_served_orderRequest : ∃ v payload,
    loads cpython orderRequest = .ok v ∧ CreateOrderRequest.modelValidate plain v = .ok twoItems ∧
    twoItems.toPayload = .ok payload ∧
    ∃ e raw, e.modelDumpJson = some raw ∧ readEvent cpython plain ⟨"", .naive 0⟩ raw = .ok e ∧
      RegisteredService.inventory.handle cpython (fun _ => 0) e = .ok
        (["[inventory] reserving 12 × tea for ord-1", "[inventory] reserving 11 × mug for ord-1"], fun _ => 0) := by
  obtain ⟨v, hload, hbody⟩ : ∃ v, loads cpython orderRequest = .ok v ∧
      CreateOrderRequest.modelValidate plain v = .ok twoItems := ⟨_, rfl, rfl⟩
  obtain ⟨payload, hpayload⟩ : ∃ payload, twoItems.toPayload = .ok payload := ⟨_, rfl⟩
  obtain ⟨e, raw, -, hraw, hread, -, hserved⟩ := created_order_served (plain_readsBack _) plain_keepsDigits
    (by rfl) ⟨"", .naive 0⟩ hload hbody hpayload "ord-1" "evt-1" (.aware 1767225600000000) (by rfl)
  exact ⟨v, payload, hload, hbody, hpayload, e, raw, hraw, hread, (hserved fun _ => 0).1⟩

end

end OrderService
