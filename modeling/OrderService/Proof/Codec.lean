import OrderService.Consumer.Codec
import OrderService.Lib.JsonRoundTrip

/-!
# The codec, on every record and on all bytes

`codec_exact`: a record comes back from its bytes exactly when it is the order's, Python writes its
numbers and no high surrogate of its `last_event_id` stands right before a low one; and decoding ends in a
record or in `StateStoreUnavailable` on exactly the bytes that do not `Escapes`: `int()` of an infinity
raises `OverflowError`, which the handler does not name.
-/

namespace OrderService

open Unicode

section
variable {py : Interpreter} {orderId : String} {raw : List UInt8}

/-! ## Encoding, then decoding -/

/-- Python writes the integer: its digits are within the limit. -/
def Printable (py : Interpreter) (n : Int) : Prop :=
  ∀ limit, py.limits.digits = some limit → (Nat.toDigits 10 n.natAbs).length ≤ limit

theorem encode_eq_ok {r : StoredRecord Text} :
    (∃ raw, r.encode py = .ok raw) ↔ Printable py r.fold.lastSequence ∧ Printable py r.handledCount := by
  have hdumps : (∃ raw, r.encode py = .ok raw) ↔ (Json.dumps? py.limits r.members).isSome := by
    unfold StoredRecord.encode
    cases Json.dumps? py.limits r.members <;> simp
  have hstate : (Json.dumpScalar? py.limits (dumpState r.fold.state)).isSome := by
    cases r.fold.state <;> rfl
  rw [hdumps, Json.dumps?_isSome]
  simp only [StoredRecord.members, List.forall_mem_cons, hstate, true_and]
  refine and_congr (Json.dumpInt?_isSome _ _) ?_
  refine ⟨fun h => (Json.dumpInt?_isSome _ _).1 h.2.1, fun h => ⟨rfl, (Json.dumpInt?_isSome _ _).2 h, ?_⟩⟩
  exact List.forall_mem_nil _

/-- The payload that is read back has the four values. -/
theorem getItem_members (r : StoredRecord Text) :
    let payload := Json.Value.obj (r.members.map Json.Member.read)
    getItem payload "last_sequence" = .ok (.int r.fold.lastSequence) ∧
      getItem payload "state" = .ok (dumpState r.fold.state).read ∧
      getItem payload "last_event_id" = .ok (.str (joinPairs r.lastEventId)) ∧
      getItem payload "handled_count" = .ok (.int r.handledCount) := by
  simp only [StoredRecord.members, List.map_cons, List.map_nil, Json.Member.read, text, joinPairs_ofChars]
  exact ⟨rfl, rfl, rfl, rfl⟩

theorem stateOf_dumpState (state : Option OrderState) : stateOf (dumpState state).read = .ok state := by
  cases state with
  | none => rfl
  | some state => cases state <;> rfl

/-- What is decoded from what was encoded: the same, the pairs of its text joined. -/
theorem decode_encode {r : StoredRecord Text} (h : r.encode py = .ok raw) :
    StoredRecord.decode py orderId raw = .ok ⟨⟨orderId, r.fold.lastSequence, r.fold.state⟩,
      .str (joinPairs r.lastEventId), r.handledCount⟩ := by
  unfold StoredRecord.encode at h
  split at h
  · next document hdumps =>
    cases h
    have hloads : loads py document.toUTF8.data.toList = .ok (.obj (r.members.map Json.Member.read)) := by
      unfold loads
      rw [Json.loads_dumps hdumps]
    obtain ⟨hlast, hstate, hid, hcount⟩ := getItem_members r
    have hbuild : StoredRecord.build py orderId document.toUTF8.data.toList =
        .ok ⟨⟨orderId, r.fold.lastSequence, r.fold.state⟩, .str (joinPairs r.lastEventId), r.handledCount⟩ := by
      simp only [StoredRecord.build, hloads, hlast, hstate, hid, hcount, stateOf_dumpState, intOf, bind,
        Except.bind]
      rfl
    unfold StoredRecord.decode
    rw [hbuild]
  · cases h

theorem round_trip_iff (r : StoredRecord Text) :
    (∃ raw, r.encode py = .ok raw ∧ StoredRecord.decode py orderId raw = .ok (r.map .str)) ↔
      r.fold.orderId = orderId ∧ Printable py r.fold.lastSequence ∧ Printable py r.handledCount ∧
        Joined r.lastEventId := by
  rw [← joinPairs_eq_iff]
  constructor
  · rintro ⟨raw, hencode, hdecode⟩
    obtain ⟨hlast, hcount⟩ := encode_eq_ok.1 ⟨raw, hencode⟩
    rw [decode_encode hencode] at hdecode
    cases r
    simp only [StoredRecord.map, Except.ok.injEq, StoredRecord.mk.injEq, Json.Value.str.injEq] at hdecode
    exact ⟨by rw [← hdecode.1], hlast, hcount, hdecode.2.1⟩
  · rintro ⟨rfl, hlast, hcount, hjoined⟩
    obtain ⟨raw, hencode⟩ := encode_eq_ok.2 ⟨hlast, hcount⟩
    refine ⟨raw, hencode, ?_⟩
    rw [decode_encode hencode, hjoined]
    rfl

/-- The codec of a `Record`: what `Row` takes it for. -/
theorem decode_encode_stored (r : Record) (hlast : Printable py r.fold.lastSequence)
    (hcount : Printable py r.handledCount) :
    ∃ raw, r.stored.encode py = .ok raw ∧ StoredRecord.decode py r.fold.orderId raw =
      .ok ((r.encode.decode r.fold.orderId).stored.map .str) := by
  have hjoined : Joined (text r.lastEventId) := (joinPairs_eq_iff _).1 (joinPairs_ofChars _)
  exact (round_trip_iff r.stored).2 ⟨rfl, hlast, hcount, hjoined⟩

/-! ## Decoding any bytes -/

/-- `int()` of it overflows. -/
def IsInfinite (v : Json.Value) : Prop := ∃ negative, v = .float (.infinite negative)

/-- The bytes whose error the handler does not name: a document nested too deep, or one with an infinite
number where `int()` is called on it. -/
inductive Escapes (py : Interpreter) (raw : List UInt8) : Prop where
  | nesting (h : Json.loads py.limits raw = .error .tooDeep)
  | lastSequence {fields : List (Text × Json.Value)} {state last : Json.Value}
      (hloads : Json.loads py.limits raw = .ok (.obj fields))
      (hstate : Json.field? fields (text "state") = some state)
      (hlast : Json.field? fields (text "last_sequence") = some last) (hinfinite : IsInfinite last)
  | handledCount {fields : List (Text × Json.Value)} {state last id count : Json.Value}
      (hloads : Json.loads py.limits raw = .ok (.obj fields))
      (hstate : Json.field? fields (text "state") = some state) (hvalid : (stateOf state).isOk)
      (hlast : Json.field? fields (text "last_sequence") = some last) (hint : (intOf py last).isOk)
      (hid : Json.field? fields (text "last_event_id") = some id)
      (hcount : Json.field? fields (text "handled_count") = some count) (hinfinite : IsInfinite count)

theorem bind_error {α β : Type} {x : Except PyError α} {f : α → Except PyError β} {e : PyError} :
    x >>= f = .error e ↔ x = .error e ∨ ∃ a, x = .ok a ∧ f a = .error e := by
  cases x <;> simp [bind, Except.bind]

theorem loads_error {e : PyError} (h : loads py raw = .error e) (he : e.isCaught = false) :
    Json.loads py.limits raw = .error .tooDeep := by
  unfold loads at h
  split at h
  · cases h
  · cases h
    cases he
  · next f hinvalid heq =>
    cases f with
    | invalid => exact absurd rfl hinvalid
    | tooDeep => exact heq
    | exhausted => exact absurd heq (Json.loads_ne_exhausted _ _)

theorem loads_ok {payload : Json.Value} :
    loads py raw = .ok payload ↔ Json.loads py.limits raw = .ok payload := by
  unfold loads
  split <;> simp_all

theorem getItem_ok {payload v : Json.Value} {name : String} :
    getItem payload name = .ok v ↔
      ∃ fields, payload = .obj fields ∧ Json.field? fields (text name) = some v := by
  unfold getItem
  split
  · next fields =>
    cases hfield : Json.field? fields (text name) <;> simp [hfield]
  · next hne => simpa using fun fields heq => absurd heq (hne fields)

theorem getItem_error {payload : Json.Value} {name : String} {e : PyError}
    (h : getItem payload name = .error e) : e.isCaught = true := by
  unfold getItem at h
  split at h
  · split at h
    · cases h
    · cases h
      rfl
  · cases h
    rfl

theorem stateOf_error {v : Json.Value} {e : PyError} (h : stateOf v = .error e) : e.isCaught = true := by
  unfold stateOf at h
  split at h
  · cases h
  · split at h
    · cases h
    · cases h
      rfl
  · cases h
    rfl

theorem intOf_error {v : Json.Value} {e : PyError} (h : intOf py v = .error e) :
    e.isCaught = false ↔ IsInfinite v := by
  have hcaught (hne : ∀ negative, v ≠ .float (.infinite negative)) (he : e.isCaught = true) :
      e.isCaught = false ↔ IsInfinite v := by
    refine iff_of_false (by rw [he]; decide) ?_
    rintro ⟨negative, heq⟩
    exact hne negative heq
  unfold intOf at h
  split at h
  · cases h
  · cases h
  · cases h
    exact hcaught (by simp) rfl
  · cases h
    exact iff_of_true rfl ⟨_, rfl⟩
  · cases h
  · split at h
    · cases h
    · cases h
      exact hcaught (by simp) rfl
  all_goals
    cases h
    exact hcaught (by simp) rfl

theorem intOf_infinite {v : Json.Value} (h : IsInfinite v) : intOf py v = .error .overflowError := by
  obtain ⟨negative, rfl⟩ := h
  rfl

theorem isOk_iff {α : Type} {x : Except PyError α} : x.isOk ↔ ∃ a, x = .ok a := by
  cases x <;> simp [Except.isOk, Except.toBool]

theorem build_escapes :
    (∃ e, StoredRecord.build py orderId raw = .error e ∧ e.isCaught = false) ↔ Escapes py raw := by
  constructor
  · rintro ⟨e, herror, he⟩
    have huncaught : e.isCaught ≠ true := by simp [he]
    unfold StoredRecord.build at herror
    obtain h | ⟨payload, hloads, herror⟩ := bind_error.1 herror
    · exact .nesting (loads_error h he)
    obtain h | ⟨state, hget, herror⟩ := bind_error.1 herror
    · exact absurd (getItem_error h) huncaught
    obtain ⟨fields, rfl, hstate⟩ := getItem_ok.1 hget
    obtain h | ⟨last, hget, herror⟩ := bind_error.1 herror
    · exact absurd (getItem_error h) huncaught
    obtain ⟨_, heq, hlast⟩ := getItem_ok.1 hget
    cases heq
    obtain h | ⟨lastSequence, hint, herror⟩ := bind_error.1 herror
    · exact .lastSequence (loads_ok.1 hloads) hstate hlast ((intOf_error h).1 he)
    obtain h | ⟨state', hvalid, herror⟩ := bind_error.1 herror
    · exact absurd (stateOf_error h) huncaught
    obtain h | ⟨id, hget, herror⟩ := bind_error.1 herror
    · exact absurd (getItem_error h) huncaught
    obtain ⟨_, heq, hid⟩ := getItem_ok.1 hget
    cases heq
    obtain h | ⟨count, hget, herror⟩ := bind_error.1 herror
    · exact absurd (getItem_error h) huncaught
    obtain ⟨_, heq, hcount⟩ := getItem_ok.1 hget
    cases heq
    obtain h | ⟨handledCount, -, herror⟩ := bind_error.1 herror
    · exact .handledCount (loads_ok.1 hloads) hstate (isOk_iff.2 ⟨_, hvalid⟩) hlast (isOk_iff.2 ⟨_, hint⟩)
        hid hcount ((intOf_error h).1 he)
    · cases herror
  · intro h
    unfold StoredRecord.build
    cases h with
    | nesting h =>
      refine ⟨.recursionError, bind_error.2 (.inl ?_), rfl⟩
      unfold loads
      rw [h]
    | lastSequence hloads hstate hlast hinfinite =>
      refine ⟨.overflowError, ?_, rfl⟩
      simp only [loads_ok.2 hloads, getItem_ok.2 ⟨_, rfl, hstate⟩, getItem_ok.2 ⟨_, rfl, hlast⟩,
        intOf_infinite hinfinite, bind, Except.bind]
    | handledCount hloads hstate hvalid hlast hint hid hcount hinfinite =>
      obtain ⟨state, hvalid⟩ := isOk_iff.1 hvalid
      obtain ⟨lastSequence, hint⟩ := isOk_iff.1 hint
      refine ⟨.overflowError, ?_, rfl⟩
      simp only [loads_ok.2 hloads, getItem_ok.2 ⟨_, rfl, hstate⟩, hvalid, getItem_ok.2 ⟨_, rfl, hlast⟩, hint,
        getItem_ok.2 ⟨_, rfl, hid⟩, getItem_ok.2 ⟨_, rfl, hcount⟩, intOf_infinite hinfinite, bind, Except.bind]

theorem decode_expected_iff : ((∃ r, StoredRecord.decode py orderId raw = .ok r) ∨
    ∃ text, StoredRecord.decode py orderId raw = .error (.stateStoreUnavailable text)) ↔ ¬Escapes py raw := by
  have hescapes : (∃ e, StoredRecord.build py orderId raw = .error e ∧ e.isCaught = false) ↔ Escapes py raw :=
    build_escapes
  rw [← hescapes]
  unfold StoredRecord.decode
  cases StoredRecord.build py orderId raw with
  | ok r => simp
  | error e => cases he : e.isCaught <;> simp [he]

end

/-- **The codec, exactly.** -/
theorem codec_exact (py : Interpreter) (orderId : String) :
    (∀ r : StoredRecord Text,
      (∃ raw, r.encode py = .ok raw ∧ StoredRecord.decode py orderId raw = .ok (r.map .str)) ↔
        r.fold.orderId = orderId ∧ Printable py r.fold.lastSequence ∧ Printable py r.handledCount ∧
          Joined r.lastEventId) ∧
      ∀ raw, ((∃ r, StoredRecord.decode py orderId raw = .ok r) ∨
        ∃ text, StoredRecord.decode py orderId raw = .error (.stateStoreUnavailable text)) ↔
          ¬Escapes py raw :=
  ⟨round_trip_iff, fun _ => decode_expected_iff⟩

/-- CPython's limits, and the text of its `OverflowError`. -/
def cpython : Interpreter where
  int := String.toInt?
  fromisoformat := fun _ => none
  isoformat := toString
  fromtimestamp := fun _ => none
  limits := ⟨some 4300, some 1000⟩
  errorText := fun _ => "cannot convert float infinity to integer"

/-- A row whose `last_sequence` is `Infinity`. -/
def infinityRow : List UInt8 :=
  "\x7b\"last_sequence\": Infinity, \"state\": null, \"last_event_id\": \"e\", \"handled_count\": 1\x7d".toUTF8.data.toList

set_option maxRecDepth 4000 in
/-- It is neither decoded nor reported as undecodable. -/
theorem decode_infinityRow : ¬((∃ r, StoredRecord.decode cpython "order-1" infinityRow = .ok r) ∨
    ∃ text, StoredRecord.decode cpython "order-1" infinityRow = .error (.stateStoreUnavailable text)) := by
  have hescapes : StoredRecord.decode cpython "order-1" infinityRow =
      .error (.other "OverflowError" "cannot convert float infinity to integer") := by
    rfl
  rw [hescapes]
  simp

end OrderService
