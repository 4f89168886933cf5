import OrderService.Proof.Bodies

/-!
# The format of a snapshot

A snapshot on the compacted topic is all there is of its order, whose earlier records are compacted away.
`snapshot_self_contained`: the order can be read from it.
-/

namespace OrderService

open Unicode Json Json.Value

variable {py : Interpreter} {pd : Pydantic}

/-- An order, read from a snapshot. -/
def Order.ofSnapshot (pd : Pydantic) (v : Value) : Except Refusal Order := do
  let fields ← fieldsOf v
  let orderId ← needField fields "order_id" pd.str
  let customerId ← needField fields "customer_id" pd.str
  let state ← needField fields "state" fun
    | .str s => [OrderState.created, .packed, .shipped, .delivered].find? fun state => text state.str = s
    | _ => none
  let lastSequence ← needField fields "last_sequence" pd.int
  let totalAmount ← needField fields "total_amount" pd.int
  let payment ← PaymentInfo.modelValidate pd (← needField fields "payment" some)
  let items ← (← needField fields "items" listOf?).mapM (OrderItem.modelValidate pd)
  return ⟨orderId, customerId, items, totalAmount.toNat, payment, state, lastSequence.toNat⟩

theorem mapText_text (s : String) : joinPairs (text s) = text s := joinPairs_ofChars s.toList

/-- The texts of a snapshot hold no surrogates. -/
theorem mapMembers_snapshot (s : Snapshot) : mapMembers joinPairs s.members = s.members := by
  have hitem (item : OrderItem) : mapText joinPairs (.obj item.modelDump) = .obj item.modelDump := by
    simp only [OrderItem.modelDump, mapText, mapMembers, mapText_text]
  have hitems (items : List OrderItem) : mapElements joinPairs (items.map fun item => .obj item.modelDump) =
      items.map fun item => .obj item.modelDump := by
    induction items with
    | nil => rfl
    | cons item items ih =>
      show mapText joinPairs (.obj item.modelDump) ::
        mapElements joinPairs (items.map fun item => .obj item.modelDump) = _
      rw [hitem, ih]
      rfl
  unfold Snapshot.members
  cases s.expectedNextEvent <;> simp only [mapText, mapMembers, mapText_text, hitems]

/-- A document that starts as an object of members is read as UTF-8. -/
theorem loads_object (cs : List Char) :
    Json.loads py.limits (String.ofList ('{' :: '"' :: cs)).toUTF8.data.toList =
      loadsText py.limits (ofChars ('{' :: '"' :: cs)) := by
  have hbytes : ('{' :: '"' :: cs).flatMap String.utf8EncodeChar =
      0x7b :: 0x22 :: cs.flatMap String.utf8EncodeChar := rfl
  rw [loads_eq, toUTF8_ofList, hbytes, decodeBytes_utf8 (by decide) (by decide), ← hbytes, decodeUtf8_chars]

theorem Order.ofSnapshot_asSnapshot (hpd : pd.ReadsBack py.limits) (order : Order) :
    Order.ofSnapshot pd (.obj order.asSnapshot.members) = .ok order := by
  have horder : field? order.asSnapshot.members (text "order_id") = some (.str (text order.orderId)) := rfl
  have hcustomer : field? order.asSnapshot.members (text "customer_id") =
      some (.str (text order.customerId)) := rfl
  have hstate : field? order.asSnapshot.members (text "state") = some (.str (text order.state.str)) := rfl
  have hlast : field? order.asSnapshot.members (text "last_sequence") = some (.int order.lastSequence) := rfl
  have htotal : field? order.asSnapshot.members (text "total_amount") = some (.int order.totalAmount) := rfl
  have hpayment : field? order.asSnapshot.members (text "payment") = some (.obj order.payment.modelDump) := rfl
  have hitems : field? order.asSnapshot.members (text "items") =
      some (.arr (order.items.map fun item => .obj item.modelDump)) := rfl
  have hfind : [OrderState.created, .packed, .shipped, .delivered].find?
      (fun state => text state.str = text order.state.str) = some order.state := by
    cases order.state <;> rfl
  unfold Order.ofSnapshot fieldsOf needField
  simp only [horder, hcustomer, hstate, hlast, htotal, hpayment, hitems, Option.bind_some, listOf?, hpd.str,
    hpd.int, hfind, mapM_modelDump hpd, PaymentInfo.modelValidate_modelDump hpd, bind, Except.bind]
  rfl

/-- A snapshot that was written can be read: two containers deep at most. -/
theorem fits_snapshot (hnesting : py.limits.nesting.any (· < 2) = false) {s : Snapshot} {cs : List Char}
    (h : (Style.ascii py.limits fun _ => none).write? (.obj s.members) = some cs) :
    (Value.obj s.members).fits py.limits 0 = true := by
  have hwritten := fits_of_write? (.obj s.members) 0 (by rw [h]; rfl)
  have hint (n : Int) (depth : Nat) : (Value.int n).fits ⟨py.limits.digits, none⟩ depth =
      (Value.int n).fits py.limits 0 := rfl
  have hitem (item : OrderItem) :
      (Value.obj item.modelDump).fits ⟨py.limits.digits, none⟩ 2 =
        (Value.obj item.modelDump).fits py.limits 2 := by
    show (true && (true && _)) = (!py.limits.nesting.any (· < 2) && (true && _))
    rw [hnesting]
    rfl
  have hitems (items : List OrderItem) :
      fitsElements ⟨py.limits.digits, none⟩ (items.map fun item => .obj item.modelDump) 2 =
        fitsElements py.limits (items.map fun item => .obj item.modelDump) 2 := by
    induction items with
    | nil => rfl
    | cons item items ih => exact congrArg₂ Bool.and (hitem item) ih
  have heq : (Value.obj s.members).fits ⟨py.limits.digits, none⟩ 0 = (Value.obj s.members).fits py.limits 0 := by
    unfold Snapshot.members
    simp only [Json.Value.fits, fitsMembers, hitems, nesting_le hnesting (by decide : 0 ≤ 2),
      nesting_le hnesting (by decide : 1 ≤ 2), Option.any_none]
    cases s.expectedNextEvent <;> rfl
  rw [← heq]
  exact hwritten

theorem passes_snapshot {q : Binary64 → Bool} (s : Snapshot) :
    passesMembers (fun _ => true) q s.members = true := by
  have hitems (items : List OrderItem) :
      passesElements (fun _ => true) q (items.map fun item => .obj item.modelDump) = true := by
    induction items with
    | nil => rfl
    | cons item items ih => exact ih
  unfold Snapshot.members
  cases s.expectedNextEvent <;> simp only [passesMembers, passes, hitems, Bool.and_true]

/-- **A snapshot is self-contained**: from its bytes alone the order can be read, whatever its state. -/
theorem snapshot_self_contained (hpd : pd.ReadsBack py.limits) (hnesting : py.limits.nesting.any (· < 2) = false)
    (order : Order) {raw : List UInt8} (h : order.asSnapshot.dumps py = .ok raw) :
    ∃ v, loads py raw = .ok v ∧ Order.ofSnapshot pd v = .ok order := by
  unfold Snapshot.dumps at h
  split at h
  · next document hdocument =>
    cases h
    have hstyle : (Style.ascii py.limits fun _ => none).Readable py.limits joinPairs fun _ => false :=
      Style.readable_ascii fun _ _ h => absurd h Bool.false_ne_true
    have hread := loadsText_write hstyle hdocument (fits_snapshot hnesting hdocument) (passes_snapshot _)
    rw [mapMembers_snapshot] at hread
    have hbytes : Json.loads py.limits (String.ofList document).toUTF8.data.toList =
        loadsText py.limits (ofChars document) := by
      obtain ⟨t, rfl⟩ := Style.write?_obj_head hdocument
      exact loads_object t
    refine ⟨_, ?_, Order.ofSnapshot_asSnapshot hpd order⟩
    unfold loads
    rw [hbytes, hread]
  · cases h

/-- An order of two items, on its way. -/
def shippedOrder : Order where
  orderId := "ord-1"
  customerId := "c-1"
  items := twoItems.items
  totalAmount := 4000
  payment := twoItems.payment
  state := .shipped
  lastSequence := 3

set_option maxRecDepth 20000 in
theorem snapshot_self_contained_shippedOrder : ∃ raw v, shippedOrder.asSnapshot.dumps cpython = .ok raw ∧
    loads cpython raw = .ok v ∧ Order.ofSnapshot plain v = .ok shippedOrder := by
  obtain ⟨raw, hraw⟩ : ∃ raw, shippedOrder.asSnapshot.dumps cpython = .ok raw := ⟨_, rfl⟩
  obtain ⟨v, hv, horder⟩ := snapshot_self_contained (plain_readsBack _) (by rfl) shippedOrder hraw
  exact ⟨raw, v, hraw, hv, horder⟩

end OrderService
