import OrderService.Lib.JsonWriter

/-!
# Two styles of documents

`Style.ascii` is that of `json.dumps`; `Style.raw` escapes only what a string cannot hold and leaves no gaps.
Both are readable. A style writes a value whose texts and doubles it can write (`isSome_write?`), and of what
it wrote the integers are within its limit (`fits_of_write?`).
-/

namespace Json

open Unicode Value

/-- `json.dumps`: all in ASCII. -/
def Style.ascii (L : Limits) (float : Binary64 → Option (List Char)) : Style where
  gap := [' ']
  string s := some (s.flatMap escape)
  float := float
  digits := L.digits

/-- A code point where only quotes, backslashes and control characters are escaped. -/
def escapeRaw? : CodePoint → Option (List Char)
  | .scalar c =>
    match shortEscape? c with
    | some e => some ['\\', e]
    | none => some (if c < ' ' then escapeUnit c.toNat else [c])
  | _ => none

def rawString? : Text → Option (List Char)
  | [] => some []
  | p :: s => do return (← escapeRaw? p) ++ (← rawString? s)

/-- No gaps, and text as it is. -/
def Style.raw (float : Binary64 → Option (List Char)) : Style where
  gap := []
  string := rawString?
  float := float
  digits := none

theorem Style.readable_ascii {L : Limits} {float : Binary64 → Option (List Char)} {exact : Binary64 → Bool}
    (hfloat : ∀ x cs, exact x = true → float x = some cs → ∀ depth, ReadsAs L depth cs (.float x)) :
    (Style.ascii L float).Readable L joinPairs exact where
  gap c hc := by
    rw [List.mem_singleton.1 hc]
    decide
  string t cs h s := by
    cases h
    exact scanString_dump t s
  float := hfloat

theorem escapeRaw?_eq_some {p : CodePoint} {cs : List Char} (h : escapeRaw? p = some cs) :
    ∃ c, p = .scalar c ∧ ∃ escaped, ∀ s,
      scanPieces (ofChars cs ++ s) = (scanPieces s).map fun r => ((.scalar c, escaped) :: r.1, r.2) := by
  cases p with
  | scalar c =>
    refine ⟨c, rfl, ?_⟩
    unfold escapeRaw? at h
    dsimp only at h
    cases he : shortEscape? c with
    | some e =>
      rw [he] at h
      cases h
      exact ⟨false, scanPieces_shortEscape he⟩
    | none =>
      rw [he] at h
      cases h
      by_cases hcontrol : c < ' '
      · have hlt : c.toNat < 0x10000 := Nat.lt_trans hcontrol (by decide)
        rw [if_pos hcontrol]
        refine ⟨true, fun s => ?_⟩
        rw [scanPieces_escapeUnit hlt, CodePoint.ofNat_toNat]
      · rw [if_neg hcontrol]
        exact ⟨false, scanPieces_plain he (Char.not_lt.1 hcontrol)⟩
  | high h => cases h
  | low l => cases h

theorem scanPieces_raw {t : Text} : ∀ {cs : List Char}, rawString? t = some cs →
    ∃ ps : List Piece, joinEscaped ps = t ∧ ∀ s, scanPieces (ofChars cs ++ .scalar '"' :: s) = .ok (ps, s) := by
  induction t with
  | nil =>
    intro cs h
    cases h
    exact ⟨[], rfl, fun _ => rfl⟩
  | cons p t ih =>
    intro cs h
    obtain ⟨first, hfirst, h⟩ := Option.bind_eq_some_iff.1 h
    obtain ⟨rest, hrest, h⟩ := Option.bind_eq_some_iff.1 h
    cases h
    obtain ⟨c, rfl, escaped, hscan⟩ := escapeRaw?_eq_some hfirst
    obtain ⟨ps, hjoin, hps⟩ := ih hrest
    refine ⟨(.scalar c, escaped) :: ps, ?_, ?_⟩
    · show .scalar c :: joinEscaped ps = _
      rw [hjoin]
    · intro s
      rw [ofChars_append, List.append_assoc, hscan, hps]
      rfl

theorem Style.readable_raw {L : Limits} {float : Binary64 → Option (List Char)} {exact : Binary64 → Bool}
    (hfloat : ∀ x cs, exact x = true → float x = some cs → ∀ depth, ReadsAs L depth cs (.float x)) :
    (Style.raw float).Readable L id exact where
  gap := List.forall_mem_nil _
  string t cs h s := by
    obtain ⟨ps, hjoin, hps⟩ := scanPieces_raw h
    unfold scanString
    rw [hps, ← hjoin]
    rfl
  float := hfloat

/-! ## What is written at all -/

theorem isSome_seq {α β γ : Type} (x : Option α) (y : Option β) (f : α → β → γ) :
    (do return f (← x) (← y) : Option γ).isSome = (x.isSome && y.isSome) := by
  cases x <;> cases y <;> rfl

theorem isSome_dumpInt?_none (n : Int) : (dumpInt? ⟨none, none⟩ n).isSome = true := rfl

section
variable {st : Style}

mutual

/-- A style without a limit on digits writes what its texts and doubles let it write. -/
theorem isSome_write? (hst : st.digits = none) : ∀ v : Value,
    (st.write? v).isSome = v.passes (fun t => (st.string t).isSome) (fun x => (st.float x).isSome)
  | .null | .bool true | .bool false | .float _ => rfl
  | .int n => by
    show (dumpInt? ⟨st.digits, none⟩ n).isSome = true
    rw [hst]
    exact isSome_dumpInt?_none n
  | .str s => by
    show (do return '"' :: ((← st.string s) ++ ['"']) : Option (List Char)).isSome = _
    unfold passes
    cases st.string s <;> rfl
  | .arr [] => rfl
  | .arr (x :: xs) => by
    show (do return '[' :: ((← st.write? x) ++ (← st.writeElements? xs)) : Option (List Char)).isSome = _
    rw [isSome_seq, isSome_write? hst x, isSome_writeElements? hst xs]
    rfl
  | .obj [] => rfl
  | .obj (m :: ms) => by
    show (do return '{' :: ((← st.writeMember? m) ++ (← st.writeMembers? ms)) : Option (List Char)).isSome = _
    rw [isSome_seq, isSome_writeMember? hst m, isSome_writeMembers? hst ms]
    rfl

theorem isSome_writeElements? (hst : st.digits = none) : ∀ xs : List Value,
    (st.writeElements? xs).isSome =
      passesElements (fun t => (st.string t).isSome) (fun x => (st.float x).isSome) xs
  | [] => rfl
  | x :: xs => by
    show (do return ',' :: (st.gap ++ ((← st.write? x) ++ (← st.writeElements? xs))) :
      Option (List Char)).isSome = _
    rw [isSome_seq, isSome_write? hst x, isSome_writeElements? hst xs]
    rfl

theorem isSome_writeMember? (hst : st.digits = none) : ∀ m : Text × Value,
    (st.writeMember? m).isSome = ((st.string m.1).isSome &&
      m.2.passes (fun t => (st.string t).isSome) (fun x => (st.float x).isSome))
  | (name, v) => by
    show (do return '"' :: ((← st.string name) ++ '"' :: ':' :: (st.gap ++ (← st.write? v))) :
      Option (List Char)).isSome = _
    rw [isSome_seq, isSome_write? hst v]

theorem isSome_writeMembers? (hst : st.digits = none) : ∀ ms : List (Text × Value),
    (st.writeMembers? ms).isSome =
      passesMembers (fun t => (st.string t).isSome) (fun x => (st.float x).isSome) ms
  | [] => rfl
  | m :: ms => by
    show (do return ',' :: (st.gap ++ ((← st.writeMember? m) ++ (← st.writeMembers? ms))) :
      Option (List Char)).isSome = _
    rw [isSome_seq, isSome_writeMember? hst m, isSome_writeMembers? hst ms]
    rfl

end

end

section
variable {st : Style}

mutual

/-- The integers of what was written have no more digits than the writer allows. -/
theorem fits_of_write? : ∀ (v : Value) (depth : Nat), (st.write? v).isSome → v.fits ⟨st.digits, none⟩ depth = true
  | .null, _, _ | .bool _, _, _ | .float _, _, _ | .str _, _, _ => rfl
  | .int n, _, h => by
    simp only [Style.write?, dumpInt?] at h
    simp only [fits, Bool.not_eq_true']
    split at h
    · cases h
    · next hlimit => exact Bool.eq_false_iff.2 hlimit
  | .arr [], _, _ => rfl
  | .arr (x :: xs), depth, h => by
    change (do return '[' :: ((← st.write? x) ++ (← st.writeElements? xs)) : Option (List Char)).isSome = true at h
    rw [isSome_seq, Bool.and_eq_true] at h
    show (fits _ x (depth + 1) && fitsElements _ xs (depth + 1)) = true
    rw [fits_of_write? x _ h.1, fits_of_writeElements? xs _ h.2]
    rfl
  | .obj [], _, _ => rfl
  | .obj ((name, v) :: ms), depth, h => by
    change (do return '{' :: ((← st.writeMember? (name, v)) ++ (← st.writeMembers? ms)) :
      Option (List Char)).isSome = true at h
    rw [isSome_seq, Bool.and_eq_true] at h
    show (fits _ v (depth + 1) && fitsMembers _ ms (depth + 1)) = true
    rw [fits_of_writeMember? (name, v) _ h.1, fits_of_writeMembers? ms _ h.2]
    rfl

theorem fits_of_writeElements? : ∀ (xs : List Value) (depth : Nat), (st.writeElements? xs).isSome →
    fitsElements ⟨st.digits, none⟩ xs depth = true
  | [], _, _ => rfl
  | x :: xs, depth, h => by
    change (do return ',' :: (st.gap ++ ((← st.write? x) ++ (← st.writeElements? xs))) :
      Option (List Char)).isSome = true at h
    rw [isSome_seq, Bool.and_eq_true] at h
    show (fits _ x depth && fitsElements _ xs depth) = true
    rw [fits_of_write? x _ h.1, fits_of_writeElements? xs _ h.2]
    rfl

theorem fits_of_writeMember? : ∀ (m : Text × Value) (depth : Nat), (st.writeMember? m).isSome →
    m.2.fits ⟨st.digits, none⟩ depth = true
  | (name, v), depth, h => by
    change (do return '"' :: ((← st.string name) ++ '"' :: ':' :: (st.gap ++ (← st.write? v))) :
      Option (List Char)).isSome = true at h
    rw [isSome_seq, Bool.and_eq_true] at h
    exact fits_of_write? v depth h.2

theorem fits_of_writeMembers? : ∀ (ms : List (Text × Value)) (depth : Nat), (st.writeMembers? ms).isSome →
    fitsMembers ⟨st.digits, none⟩ ms depth = true
  | [], _, _ => rfl
  | (name, v) :: ms, depth, h => by
    change (do return ',' :: (st.gap ++ ((← st.writeMember? (name, v)) ++ (← st.writeMembers? ms))) :
      Option (List Char)).isSome = true at h
    rw [isSome_seq, Bool.and_eq_true] at h
    show (fits _ v depth && fitsMembers _ ms depth) = true
    rw [fits_of_writeMember? (name, v) _ h.1, fits_of_writeMembers? ms _ h.2]
    rfl

end

end

/-- A text is written as it is if it holds no surrogate. -/
theorem isSome_rawString? (t : Text) : (rawString? t).isSome = (toChars? t).isSome := by
  induction t with
  | nil => rfl
  | cons p t ih =>
    cases p with
    | scalar c =>
      have hpoint : (escapeRaw? (.scalar c)).isSome = true := by
        unfold escapeRaw?
        dsimp only
        split <;> rfl
      show (do return (← escapeRaw? (.scalar c)) ++ (← rawString? t) : Option (List Char)).isSome = _
      rw [isSome_seq, hpoint, ih, toChars?_scalar, Option.isSome_map]
      rfl
    | high _ => rfl
    | low _ => rfl

theorem rawString?_ofChars (cs : List Char) : (rawString? (ofChars cs)).isSome = true := by
  rw [isSome_rawString?, toChars?_ofChars]
  rfl

end Json
