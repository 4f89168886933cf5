import OrderService.Consumer.Services
import OrderService.Proof.Codec

/-!
# The format of an event

`event_survives_wire`: what the producer writes of an event is read as that event by every consumer, and it
writes every event of whose texts none holds a surrogate. A creation payload is read back from its dump.
-/

namespace OrderService

open Unicode Json Json.Value

/-- A double that JSON has a number for. -/
def isFinite : Binary64 → Bool
  | .finite _ _ => true
  | _ => false

/-- Pydantic takes a text and an integer as they are, and the times and the finite doubles it wrote. -/
structure Pydantic.ReadsBack (pd : Pydantic) (L : Limits) : Prop where
  str : ∀ s, pd.str (.str (text s)) = some s
  int : ∀ n, pd.int (.int n) = some n
  datetime : ∀ t s, pd.datetimeText t = some s → pd.datetime (.str (text s)) = some t
  float : ∀ x cs, isFinite x = true → pd.floatText x = some cs → ∀ depth, ReadsAs L depth cs (.float x)

section
variable {py : Interpreter} {pd : Pydantic}

/-! ## The text of a document -/

theorem decodeStrict_toUTF8 (cs : List Char) :
    decodeStrict (String.ofList cs).toUTF8.data.toList = .ok cs := by
  unfold decodeStrict
  rw [toUTF8_ofList, decodeUtf8_chars, Option.bind_some, toChars?_ofChars]

/-- An object that was written is read. -/
theorem loadsStr_write (hpd : pd.ReadsBack py.limits) {ms : List (Text × Value)} {cs : List Char}
    (h : (Style.raw pd.floatText).write? (.obj ms) = some cs) (hfits : (Value.obj ms).fits py.limits 0 = true)
    (hexact : passesMembers (fun _ => true) isFinite ms = true) : loadsStr py cs = .ok (.obj ms) := by
  have hload := loadsText_write (Style.readable_raw hpd.float) h hfits hexact
  rw [mapMembers_id] at hload
  have hhead : cs.head? ≠ some byteOrderMark := by
    cases ms with
    | nil =>
      cases h
      decide
    | cons m ms =>
      obtain ⟨t, rfl⟩ := Style.write?_obj_head h
      exact fun heq => absurd (Option.some.inj heq) (by decide)
  unfold loadsStr
  rw [if_neg hhead, hload]

/-! ## The fields of an event -/

theorem eventTypeOf_str (t : EventType) : WireEvent.eventTypeOf (.str (text t.str)) = some t := by
  cases t <;> rfl

namespace WireEvent

variable {e : WireEvent pd} {occurredAt : String}

/-- Each field is found under its name. -/
theorem field?_members (e : WireEvent pd) (occurredAt : String) :
    field? (e.members occurredAt) (text "event_id") = some (.str (text e.eventId)) ∧
      field? (e.members occurredAt) (text "order_id") = some (.str (text e.orderId)) ∧
      field? (e.members occurredAt) (text "sequence") = some (.int e.sequence) ∧
      field? (e.members occurredAt) (text "event_type") = some (.str (text e.eventType.str)) ∧
      field? (e.members occurredAt) (text "occurred_at") = some (.str (text occurredAt)) ∧
      field? (e.members occurredAt) (text "payload") = some (.obj e.payload) :=
  ⟨rfl, rfl, rfl, rfl, rfl, rfl⟩

theorem build_self (e : WireEvent pd) :
    build e.toLifecycleEvent e.occurredAt e.payload e.payload_isDict = .ok e := by
  unfold build
  split
  · rfl
  · next r hr =>
    have hok := e.payload_ok
    rw [hr] at hok
    cases hok

/-- The dict of the payload is the payload. -/
theorem dictOf?_payload (e : WireEvent pd) :
    dictOf? (.obj e.payload) = some ⟨e.payload, e.payload_isDict⟩ := by
  have hcollapse := collapse_of_isDict _ e.payload_isDict
  apply congrArg some
  apply Subtype.ext
  exact Value.obj.inj hcollapse

theorem modelValidate_members (hpd : pd.ReadsBack py.limits) (defaults : Defaults) (e : WireEvent pd)
    (htime : pd.datetimeText e.occurredAt = some occurredAt) :
    modelValidate defaults (.obj (e.members occurredAt)) = .ok e := by
  obtain ⟨hid, horder, hsequence, htype, hoccurred, hpayload⟩ := field?_members e occurredAt
  have hle : (1 : Int) ≤ e.sequence := Int.ofNat_le.2 e.one_le_sequence
  unfold modelValidate fieldsOf fieldOr needField
  simp only [hid, horder, hsequence, htype, hoccurred, hpayload, Option.bind_some, hpd.str, hpd.int,
    eventTypeOf_str, hpd.datetime _ _ htime, dictOf?_payload, bind, Except.bind]
  rw [dif_pos hle]
  exact build_self e

end WireEvent

/-- The numbers and the nesting of an event are within the limits of who reads it. -/
structure WireEvent.Within (e : WireEvent pd) (L : Limits) : Prop where
  sequence : (Value.int e.sequence).fits L 1 = true
  payload : (Value.obj e.payload).fits L 1 = true
  finite : passesMembers (fun _ => true) isFinite e.payload = true

theorem readEvent_modelDumpJson (hpd : pd.ReadsBack py.limits) (defaults : WireEvent.Defaults) (e : WireEvent pd)
    (hwithin : e.Within py.limits) {raw : List UInt8} (h : e.modelDumpJson = some raw) :
    readEvent py pd defaults raw = .ok e := by
  obtain ⟨occurredAt, htime, h⟩ := Option.bind_eq_some_iff.1 h
  obtain ⟨document, hdocument, h⟩ := Option.bind_eq_some_iff.1 h
  cases h
  have hfits : (Value.obj (e.members occurredAt)).fits py.limits 0 = true := by
    have hdepth : py.limits.nesting.any (· < 0) = false := by cases py.limits.nesting <;> rfl
    simp only [WireEvent.members, fits, fitsMembers, hdepth, Bool.not_false, Bool.true_and, Bool.and_true]
    exact Bool.and_eq_true_iff.2 ⟨hwithin.sequence, hwithin.payload⟩
  have hexact : passesMembers (fun _ => true) isFinite (e.members occurredAt) = true := by
    simp only [WireEvent.members, passesMembers, passes, hwithin.finite, Bool.and_true]
  unfold readEvent
  simp only [decodeStrict_toUTF8, loadsStr_write hpd hdocument hfits hexact,
    WireEvent.modelValidate_members hpd defaults e htime, bind, Except.bind]

/-! ## What is written -/

theorem isSome_modelDumpJson (e : WireEvent pd) : e.modelDumpJson.isSome =
    ((pd.datetimeText e.occurredAt).isSome &&
      passesMembers (fun t => (rawString? t).isSome) (fun x => (pd.floatText x).isSome) e.payload) := by
  have hwrite (occurredAt : String) :
      ((Style.raw pd.floatText).write? (.obj (e.members occurredAt))).isSome =
        passesMembers (fun t => (rawString? t).isSome) (fun x => (pd.floatText x).isSome) e.payload := by
    have htext (s : String) : (rawString? (text s)).isSome = true := rawString?_ofChars _
    rw [isSome_write? rfl]
    show passesMembers (fun t => (rawString? t).isSome) (fun x => (pd.floatText x).isSome)
      (e.members occurredAt) = _
    simp only [WireEvent.members, passesMembers, passes, htext, Bool.true_and, Bool.and_true]
  unfold WireEvent.modelDumpJson
  cases htime : pd.datetimeText e.occurredAt with
  | none => rfl
  | some occurredAt =>
    rw [Option.isSome_some, Bool.true_and, ← hwrite occurredAt]
    show ((Style.raw pd.floatText).write? (.obj (e.members occurredAt)) >>= _).isSome = _
    cases (Style.raw pd.floatText).write? (.obj (e.members occurredAt)) <;> rfl

/-- Pydantic on texts, integers and one time. -/
def plain : Pydantic where
  str := fun
    | .str s => (toChars? s).map String.ofList
    | _ => none
  int := fun
    | .int n => some n
    | .bool b => some b.toNat
    | _ => none
  bool := fun
    | .bool b => some b
    | _ => none
  datetime := fun
    | .str s => if s = text "2026-01-01T00:00:00Z" then some (.aware 1767225600000000) else none
    | _ => none
  datetimeText := fun t => if t = .aware 1767225600000000 then some "2026-01-01T00:00:00Z" else none
  floatText := fun _ => none
  errorText := fun _ => "1 validation error"

theorem plain_readsBack (L : Limits) : plain.ReadsBack L where
  str s := by
    show (toChars? (ofChars s.toList)).map String.ofList = some s
    rw [toChars?_ofChars, Option.map_some, String.ofList_toList]
  int _ := rfl
  datetime t s h := by
    simp only [plain] at h
    split at h
    · next ht =>
      cases h
      rw [ht]
      rfl
    · cases h
  float _ _ _ h := by cases h

section Typed

variable {L : Limits}

theorem PaymentMethod.ofValue_str (method : PaymentMethod) :
    PaymentMethod.ofValue (.str (text method.str)) = some method := by
  cases method <;> rfl

theorem OrderItem.modelValidate_modelDump (hpd : pd.ReadsBack L) (item : OrderItem) :
    OrderItem.modelValidate pd (.obj item.modelDump) = .ok item := by
  have hsku : field? item.modelDump (text "sku") = some (.str (text item.sku)) := rfl
  have hqty : field? item.modelDump (text "qty") = some (.int item.qty) := rfl
  have hprice : field? item.modelDump (text "unit_price") = some (.int item.unitPrice) := rfl
  have hok : item.sku ≠ "" ∧ (0 : Int) < item.qty ∧ (0 : Int) < item.unitPrice :=
    ⟨item.sku_ne, Int.natCast_pos.2 item.qty_pos, Int.natCast_pos.2 item.unitPrice_pos⟩
  unfold OrderItem.modelValidate fieldsOf needField
  simp only [hsku, hqty, hprice, Option.bind_some, hpd.str, hpd.int, bind, Except.bind]
  rw [dif_pos hok]
  rfl

theorem PaymentInfo.modelValidate_modelDump (hpd : pd.ReadsBack L) (payment : PaymentInfo) :
    PaymentInfo.modelValidate pd (.obj payment.modelDump) = .ok payment := by
  have hmethod : field? payment.modelDump (text "method") = some (.str (text payment.method.str)) := rfl
  have hreference : field? payment.modelDump (text "reference") = some (.str (text payment.reference)) := rfl
  have hamount : field? payment.modelDump (text "amount") = some (.int payment.amount) := rfl
  have hok : payment.reference ≠ "" ∧ (0 : Int) ≤ payment.amount :=
    ⟨payment.reference_ne, Int.natCast_nonneg _⟩
  unfold PaymentInfo.modelValidate fieldsOf needField
  simp only [hmethod, hreference, hamount, Option.bind_some, PaymentMethod.ofValue_str, hpd.str, hpd.int, bind,
    Except.bind]
  rw [dif_pos hok]
  rfl

theorem mapM_modelDump (hpd : pd.ReadsBack L) (items : List OrderItem) :
    (items.map fun item => Value.obj item.modelDump).mapM (OrderItem.modelValidate pd) = .ok items := by
  induction items with
  | nil => rfl
  | cons item items ih =>
    rw [List.map_cons, List.mapM_cons, OrderItem.modelValidate_modelDump hpd, ih]
    rfl

/-- A payload is read back from its dump, item by item. -/
theorem OrderCreatedPayload.modelValidate_modelDump (hpd : pd.ReadsBack L) (payload : OrderCreatedPayload) :
    OrderCreatedPayload.modelValidate pd (.obj payload.modelDump) = .ok payload := by
  have hcustomer : field? payload.modelDump (text "customer_id") = some (.str (text payload.customerId)) := rfl
  have hitems : field? payload.modelDump (text "items") =
      some (.arr (payload.items.map fun item => .obj item.modelDump)) := rfl
  have htotal : field? payload.modelDump (text "total_amount") = some (.int payload.totalAmount) := rfl
  have hpayment : field? payload.modelDump (text "payment") = some (.obj payload.payment.modelDump) := rfl
  have hok : payload.customerId ≠ "" ∧ payload.items ≠ [] := ⟨payload.customerId_ne, payload.items_ne⟩
  have hsum : ¬ (payload.totalAmount : Int) ≠ itemSum payload.items :=
    not_not.2 (congrArg Nat.cast payload.totalAmount_eq)
  have hamount : ¬ payload.payment.amount ≠ itemSum payload.items :=
    not_not.2 (payload.amount_eq.trans payload.totalAmount_eq)
  unfold OrderCreatedPayload.modelValidate fieldsOf needField
  simp only [hcustomer, hitems, htotal, hpayment, Option.bind_some, listOf?, hpd.str, hpd.int, mapM_modelDump hpd,
    PaymentInfo.modelValidate_modelDump hpd, bind, Except.bind]
  rw [dif_pos hok, if_neg hsum, dif_neg hamount]
  cases payload with
  | mk customerId items totalAmount payment customerId_ne items_ne totalAmount_eq amount_eq =>
    subst totalAmount_eq
    rfl

end Typed

end

end OrderService
