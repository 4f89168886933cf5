import OrderService.Lib.JsonRoundTrip

/-!
# Documents of any shape

`Style.write?` lays out a value of any depth. A style is `Readable` when its strings and its doubles are
read back; what it wrote of a value is then read as that value (`loadsText_write`), if the integers and the
nesting of the value are within the limits of the reader (`fits`).
-/

namespace Json

open Unicode Value

/-- The document of a text. -/
def loadsText (L : Limits) (s : Text) : Except Fault Value := do
  let (v, s) ← scanOnce L (2 * s.length + 1) 0 (skipSpace s)
  if skipSpace s = [] then return v else .error .invalid

theorem loads_eq (L : Limits) (bytes : List UInt8) :
    loads L bytes = match decodeBytes bytes with
      | none => .error .invalid
      | some s => loadsText L s := rfl

/-! ## Writing -/

structure Style where
  /-- What stands after a comma and after a colon. -/
  gap : List Char
  /-- What stands between the quotes; `none` if the text cannot be written. -/
  string : Text → Option (List Char)
  float : Binary64 → Option (List Char)
  /-- The digits that an integer may have. -/
  digits : Option Nat

namespace Style

variable (st : Style)

mutual

def write? : Value → Option (List Char)
  | .null => some "null".toList
  | .bool true => some "true".toList
  | .bool false => some "false".toList
  | .int n => dumpInt? ⟨st.digits, none⟩ n
  | .float x => st.float x
  | .str s => do return '"' :: ((← st.string s) ++ ['"'])
  | .arr [] => some ['[', ']']
  | .arr (x :: xs) => do return '[' :: ((← write? x) ++ (← writeElements? xs))
  | .obj [] => some ['{', '}']
  | .obj (m :: ms) => do return '{' :: ((← writeMember? m) ++ (← writeMembers? ms))

/-- The elements after the first, up to the closing bracket. -/
def writeElements? : List Value → Option (List Char)
  | [] => some [']']
  | x :: xs => do return ',' :: (st.gap ++ ((← write? x) ++ (← writeElements? xs)))

def writeMember? : Text × Value → Option (List Char)
  | (name, v) => do return '"' :: ((← st.string name) ++ '"' :: ':' :: (st.gap ++ (← write? v)))

/-- The members after the first, up to the closing brace. -/
def writeMembers? : List (Text × Value) → Option (List Char)
  | [] => some ['}']
  | m :: ms => do return ',' :: (st.gap ++ ((← writeMember? m) ++ (← writeMembers? ms)))

end

end Style

namespace Value

mutual

/-- The value with `f` applied to its texts, the names included. -/
def mapText (f : Text → Text) : Value → Value
  | .null => .null
  | .bool b => .bool b
  | .int n => .int n
  | .float x => .float x
  | .str s => .str (f s)
  | .arr xs => .arr (mapElements f xs)
  | .obj ms => .obj (mapMembers f ms)

def mapElements (f : Text → Text) : List Value → List Value
  | [] => []
  | x :: xs => mapText f x :: mapElements f xs

def mapMembers (f : Text → Text) : List (Text × Value) → List (Text × Value)
  | [] => []
  | (name, v) :: ms => (f name, mapText f v) :: mapMembers f ms

end

mutual

/-- Its integers and its nesting, in `depth` containers, are within the limits. -/
def fits (L : Limits) : Value → Nat → Bool
  | .int n, _ => !L.digits.any (· < (Nat.toDigits 10 n.natAbs).length)
  | .arr xs, depth => !L.nesting.any (· < depth) && fitsElements L xs (depth + 1)
  | .obj ms, depth => !L.nesting.any (· < depth) && fitsMembers L ms (depth + 1)
  | _, _ => true

def fitsElements (L : Limits) : List Value → Nat → Bool
  | [], _ => true
  | x :: xs, depth => fits L x depth && fitsElements L xs depth

def fitsMembers (L : Limits) : List (Text × Value) → Nat → Bool
  | [], _ => true
  | (_, v) :: ms, depth => fits L v depth && fitsMembers L ms depth

end

mutual

/-- Its texts, the names included, and its doubles pass a test. -/
def passes (text : Text → Bool) (float : Binary64 → Bool) : Value → Bool
  | .str s => text s
  | .float x => float x
  | .arr xs => passesElements text float xs
  | .obj ms => passesMembers text float ms
  | _ => true

def passesElements (text : Text → Bool) (float : Binary64 → Bool) : List Value → Bool
  | [] => true
  | x :: xs => passes text float x && passesElements text float xs

def passesMembers (text : Text → Bool) (float : Binary64 → Bool) : List (Text × Value) → Bool
  | [] => true
  | (name, v) :: ms => text name && passes text float v && passesMembers text float ms

end

mutual

theorem mapText_id : ∀ v : Value, v.mapText id = v
  | .null | .bool _ | .int _ | .float _ | .str _ => rfl
  | .arr xs => congrArg Value.arr (mapElements_id xs)
  | .obj ms => congrArg Value.obj (mapMembers_id ms)

theorem mapElements_id : ∀ xs : List Value, mapElements id xs = xs
  | [] => rfl
  | x :: xs => congrArg₂ List.cons (mapText_id x) (mapElements_id xs)

theorem mapMembers_id : ∀ ms : List (Text × Value), mapMembers id ms = ms
  | [] => rfl
  | (name, v) :: ms => congrArg₂ (fun v ms => (name, v) :: ms) (mapText_id v) (mapMembers_id ms)

end

end Value

/-! ## Reading what was written -/

/-- The text is read as the value, whatever delimiter comes after it. -/
structure ReadsAs (L : Limits) (depth : Nat) (cs : List Char) (v : Value) : Prop where
  space : ∀ s, skipSpace (ofChars cs ++ s) = ofChars cs ++ s
  scan : ∀ fuel s, cs.length ≤ fuel → Delimited s → scanOnce L fuel depth (ofChars cs ++ s) = .ok (v, s)

/-- What a style writes of texts is read back up to `norm`, what it writes of the `exact` doubles as they
were. -/
structure Style.Readable (st : Style) (L : Limits) (norm : Text → Text) (exact : Binary64 → Bool) : Prop where
  gap : ∀ c ∈ st.gap, c ∈ [' ', '\t', '\n', '\r']
  string : ∀ t cs, st.string t = some cs →
    ∀ s, scanString (ofChars cs ++ .scalar '"' :: s) = .ok (norm t, s)
  float : ∀ x cs, exact x = true → st.float x = some cs → ∀ depth, ReadsAs L depth cs (.float x)

theorem skipSpace_spaces {cs : List Char} (h : ∀ c ∈ cs, c ∈ [' ', '\t', '\n', '\r']) (s : Text) :
    skipSpace (ofChars cs ++ s) = skipSpace s := by
  induction cs with
  | nil => rfl
  | cons c cs ih =>
    rw [ofChars_cons, List.cons_append, skipSpace, if_pos (h c (.head _))]
    exact ih fun c hc => h c (.tail _ hc)

section
variable {L : Limits} {depth : Nat} {cs : List Char}

theorem readsAs_word {v : Value} {word : String} (h : (word, v) ∈ [("null", Value.null), ("true", .bool true),
    ("false", .bool false)]) : ReadsAs L depth word.toList v := by
  have hscan : ∀ fuel s, 1 ≤ fuel →
      skipSpace (ofChars word.toList ++ s) = ofChars word.toList ++ s ∧
        scanOnce L fuel depth (ofChars word.toList ++ s) = .ok (v, s) ∧ 1 ≤ word.toList.length := by
    intro fuel s hfuel
    obtain ⟨fuel, rfl⟩ : ∃ n, fuel = n + 1 := ⟨fuel - 1, by omega⟩
    simp only [List.mem_cons, List.not_mem_nil, or_false, Prod.mk.injEq] at h
    obtain ⟨rfl, rfl⟩ | ⟨rfl, rfl⟩ | ⟨rfl, rfl⟩ := h <;> exact ⟨rfl, rfl, by decide⟩
  constructor
  · intro s
    exact (hscan 1 s (Nat.le_refl 1)).1
  · intro fuel s hfuel _
    have hpos := (hscan 1 s (Nat.le_refl 1)).2.2
    exact (hscan fuel s (by omega)).2.1

theorem readsAs_int {n : Int} {digits : Option Nat} (h : dumpInt? ⟨digits, none⟩ n = some cs)
    (hfits : (Value.int n).fits L depth = true) : ReadsAs L depth cs (.int n) := by
  have hdump : dumpScalar? L (.int n) = some cs := by
    simp only [Value.fits, Bool.not_eq_true'] at hfits
    unfold dumpScalar? dumpInt?
    dsimp only
    rw [hfits]
    unfold dumpInt? at h
    dsimp only at h
    split at h
    · cases h
    · exact h
  have hpos : 1 ≤ cs.length := by
    obtain ⟨-, d, ds, -, -, rfl⟩ := dumpInt?_eq_some hdump
    split <;> exact Nat.succ_le_succ (Nat.zero_le _)
  constructor
  · exact skipSpace_dump hdump
  · intro fuel s hfuel hs
    obtain ⟨fuel, rfl⟩ : ∃ n, fuel = n + 1 := ⟨fuel - 1, by omega⟩
    exact scanOnce_dump hdump hs fuel depth

/-- What is made of an object's text after one of its members. -/
def moreMembers (L : Limits) (fuel depth : Nat) (m : Text × Value) (s : Text) :
    Except Fault (List (Text × Value) × Text) :=
  match skipSpace s with
  | .scalar '}' :: s => return ([m], s)
  | .scalar ',' :: s => do
    let (fields, s) ← scanMembers L fuel depth (skipSpace s)
    return (m :: fields, s)
  | _ => .error .invalid

/-- What is made of an array's text after one of its elements. -/
def moreElements (L : Limits) (fuel depth : Nat) (v : Value) (s : Text) :
    Except Fault (List Value × Text) :=
  match skipSpace s with
  | .scalar ']' :: s => return ([v], s)
  | .scalar ',' :: s => do
    let (xs, s) ← scanElements L fuel depth (skipSpace s)
    return (v :: xs, s)
  | _ => .error .invalid

theorem ReadsAs.pos {v : Value} (h : ReadsAs L depth cs v) : 1 ≤ cs.length := by
  cases cs with
  | nil =>
    have hscan := h.scan 0 [.scalar ','] (Nat.le_refl 0) ⟨',', [], rfl, .inl rfl⟩
    cases hscan
  | cons c cs => exact Nat.succ_le_succ (Nat.zero_le _)

theorem ReadsAs.scanElements {v : Value} (h : ReadsAs L depth cs v) {fuel : Nat} (hfuel : cs.length ≤ fuel)
    {s : Text} (hs : Delimited s) :
    scanElements L (fuel + 1) depth (ofChars cs ++ s) = moreElements L fuel depth v s := by
  unfold Json.scanElements
  rw [h.scan fuel s hfuel hs]
  rfl

variable {st : Style} {norm : Text → Text} {exact : Binary64 → Bool}

theorem Style.writeMember?_head {name : Text} {v : Value} (h : st.writeMember? (name, v) = some cs) :
    ∃ t, cs = '"' :: t := by
  obtain ⟨ns, -, h⟩ := Option.bind_eq_some_iff.1 h
  obtain ⟨vs, -, h⟩ := Option.bind_eq_some_iff.1 h
  exact ⟨_, (Option.some.inj h).symm⟩

theorem Style.write?_obj_head {name : Text} {v : Value} {ms : List (Text × Value)}
    (h : st.write? (.obj ((name, v) :: ms)) = some cs) : ∃ t, cs = '{' :: '"' :: t := by
  obtain ⟨first, hfirst, h⟩ := Option.bind_eq_some_iff.1 h
  obtain ⟨rest, -, h⟩ := Option.bind_eq_some_iff.1 h
  obtain ⟨t, rfl⟩ := Style.writeMember?_head hfirst
  exact ⟨_, (Option.some.inj h).symm⟩

/-- A member is read, and what comes after it is looked at. -/
theorem Style.Readable.member (hst : st.Readable L norm exact) {name : Text} {v v' : Value}
    (h : st.writeMember? (name, v) = some cs)
    (hv : ∀ vs, st.write? v = some vs → ReadsAs L depth vs v') {fuel : Nat} (hfuel : cs.length ≤ fuel + 1)
    {s : Text} (hs : Delimited s) :
    scanMembers L (fuel + 1) depth (skipSpace (ofChars cs ++ s)) = moreMembers L fuel depth (norm name, v') s := by
  obtain ⟨ns, hname, h⟩ := Option.bind_eq_some_iff.1 h
  obtain ⟨vs, hvalue, h⟩ := Option.bind_eq_some_iff.1 h
  cases h
  have hread := hv vs hvalue
  have htext : ofChars ('"' :: (ns ++ '"' :: ':' :: (st.gap ++ vs))) ++ s =
      .scalar '"' :: (ofChars ns ++ .scalar '"' :: .scalar ':' :: (ofChars st.gap ++ (ofChars vs ++ s))) := by
    simp [ofChars]
  simp only [List.length_cons, List.length_append] at hfuel
  rw [htext]
  unfold scanMembers
  show (scanString _ >>= _) = _
  rw [hst.string name ns hname]
  show (scanOnce L fuel depth (skipSpace (ofChars st.gap ++ (ofChars vs ++ s))) >>= _) = _
  rw [skipSpace_spaces hst.gap, hread.space, hread.scan fuel s (by omega) hs]
  rfl

theorem scanOnce_brace (hdepth : L.nesting.any (· < depth) = false) (fuel : Nat) {s : Text}
    (h : ∀ t, skipSpace s ≠ .scalar '}' :: t) :
    scanOnce L (fuel + 1) depth (.scalar '{' :: s) =
      (scanMembers L fuel (depth + 1) (skipSpace s)).map fun r => (.obj r.1, r.2) := by
  unfold scanOnce
  simp only [hdepth, Bool.false_eq_true, if_false]
  cases scanMembers L fuel (depth + 1) (skipSpace s) <;> rfl

theorem scanOnce_bracket (hdepth : L.nesting.any (· < depth) = false) (fuel : Nat) {s : Text}
    (h : ∀ t, skipSpace s ≠ .scalar ']' :: t) :
    scanOnce L (fuel + 1) depth (.scalar '[' :: s) =
      (scanElements L fuel (depth + 1) (skipSpace s)).map fun r => (.arr r.1, r.2) := by
  unfold scanOnce
  simp only [hdepth, Bool.false_eq_true, if_false]
  cases scanElements L fuel (depth + 1) (skipSpace s) <;> rfl

theorem scanOnce_closing (fuel : Nat) (s : Text) (r : Value × Text) :
    scanOnce L fuel depth (.scalar ']' :: s) ≠ .ok r := by
  intro h
  cases fuel with
  | zero => cases h
  | succ fuel =>
    unfold scanOnce at h
    cases h

theorem ReadsAs.head_ne {v : Value} (h : ReadsAs L depth cs v) (s t : Text) :
    ofChars cs ++ s ≠ .scalar ']' :: t := by
  intro heq
  cases cs with
  | nil => exact absurd h.pos (by decide)
  | cons c cs =>
    cases heq
    exact scanOnce_closing _ _ _ (h.scan _ [.scalar ','] (Nat.le_refl _) ⟨',', [], rfl, .inl rfl⟩)

/-! ### By the shape of the value -/

/-- What was written after an element is read as the elements that come next. -/
def MoreElements (L : Limits) (depth : Nat) (cs : List Char) (xs : List Value) : Prop :=
  1 ≤ cs.length ∧ ∀ fuel v s, cs.length ≤ fuel →
    Delimited (ofChars cs ++ s) ∧ moreElements L fuel depth v (ofChars cs ++ s) = .ok (v :: xs, s)

/-- What was written after a member is read as the members that come next. -/
def MoreMembers (L : Limits) (depth : Nat) (cs : List Char) (ms : List (Text × Value)) : Prop :=
  1 ≤ cs.length ∧ ∀ fuel m s, cs.length ≤ fuel →
    Delimited (ofChars cs ++ s) ∧ moreMembers L fuel depth m (ofChars cs ++ s) = .ok (m :: ms, s)

theorem ReadsAs.arr {v : Value} {xs : List Value} {first rest : List Char}
    (hdepth : L.nesting.any (· < depth) = false) (hfirst : ReadsAs L (depth + 1) first v)
    (hrest : MoreElements L (depth + 1) rest xs) {fuel : Nat}
    (hfuel : ('[' :: (first ++ rest)).length ≤ fuel) (s : Text) :
    scanOnce L fuel depth (ofChars ('[' :: (first ++ rest)) ++ s) = .ok (.arr (v :: xs), s) := by
  have hpos := hfirst.pos
  have hpos' := hrest.1
  simp only [List.length_cons, List.length_append] at hfuel
  obtain ⟨fuel, rfl⟩ : ∃ n, fuel = n + 2 := ⟨fuel - 2, by omega⟩
  obtain ⟨hdelimited, hmore⟩ := hrest.2 fuel v s (by omega)
  have hhead : ∀ t, skipSpace (ofChars first ++ (ofChars rest ++ s)) ≠ .scalar ']' :: t := by
    intro t
    rw [hfirst.space]
    exact hfirst.head_ne _ t
  rw [ofChars_cons, List.cons_append, ofChars_append, List.append_assoc, scanOnce_bracket hdepth _ hhead,
    hfirst.space, hfirst.scanElements (by omega) hdelimited, hmore]
  rfl

theorem Style.Readable.obj (hst : st.Readable L norm exact) {name : Text} {v v' : Value} {ms : List (Text × Value)}
    {first rest : List Char} (hdepth : L.nesting.any (· < depth) = false)
    (hfirst : st.writeMember? (name, v) = some first)
    (hv : ∀ vs, st.write? v = some vs → ReadsAs L (depth + 1) vs v')
    (hrest : MoreMembers L (depth + 1) rest ms) {fuel : Nat}
    (hfuel : ('{' :: (first ++ rest)).length ≤ fuel) (s : Text) :
    scanOnce L fuel depth (ofChars ('{' :: (first ++ rest)) ++ s) = .ok (.obj ((norm name, v') :: ms), s) := by
  obtain ⟨t, rfl⟩ := Style.writeMember?_head hfirst
  simp only [List.length_cons, List.length_append] at hfuel
  obtain ⟨fuel, rfl⟩ : ∃ n, fuel = n + 2 := ⟨fuel - 2, by omega⟩
  obtain ⟨hdelimited, hmore⟩ := hrest.2 fuel (norm name, v') s (by omega)
  have hhead : ∀ u, skipSpace (ofChars ('"' :: t) ++ (ofChars rest ++ s)) ≠ .scalar '}' :: u := by
    intro u heq
    cases heq
  rw [ofChars_cons, List.cons_append, ofChars_append, List.append_assoc, scanOnce_brace hdepth _ hhead,
    hst.member hfirst hv (by simp only [List.length_cons]; omega) hdelimited, hmore]
  rfl

mutual

theorem Style.Readable.value (hst : st.Readable L norm exact) : ∀ (v : Value) (depth : Nat) (cs : List Char),
    st.write? v = some cs → v.fits L depth = true → v.passes (fun _ => true) exact = true →
      ReadsAs L depth cs (v.mapText norm)
  | .null, depth, cs, h, _, _ => by
    cases h
    exact readsAs_word (v := .null) (by simp)
  | .bool true, depth, cs, h, _, _ => by
    cases h
    exact readsAs_word (v := .bool true) (by simp)
  | .bool false, depth, cs, h, _, _ => by
    cases h
    exact readsAs_word (v := .bool false) (by simp)
  | .int n, depth, cs, h, hfits, _ => readsAs_int h hfits
  | .float x, depth, cs, h, _, hexact => hst.float x cs hexact h depth
  | .str t, depth, cs, h, _, _ => by
    obtain ⟨ts, ht, h⟩ := Option.bind_eq_some_iff.1 h
    cases h
    constructor
    · intro s
      rfl
    · intro fuel s hfuel _
      obtain ⟨fuel, rfl⟩ : ∃ n, fuel = n + 1 := ⟨fuel - 1, by simp only [List.length_cons] at hfuel; omega⟩
      rw [ofChars_cons, List.cons_append, ofChars_append, List.append_assoc]
      unfold scanOnce
      show (scanString (ofChars ts ++ .scalar '"' :: s) >>= _) = _
      rw [hst.string t ts ht]
      rfl
  | .arr [], depth, cs, h, hfits, _ => by
    cases h
    simp only [fits, fitsElements, Bool.and_true, Bool.not_eq_true'] at hfits
    constructor
    · intro s
      rfl
    · intro fuel s hfuel _
      obtain ⟨fuel, rfl⟩ : ∃ n, fuel = n + 1 := ⟨fuel - 1, by simp only [List.length_cons] at hfuel; omega⟩
      show scanOnce L (fuel + 1) depth (.scalar '[' :: .scalar ']' :: s) = _
      unfold scanOnce
      dsimp only
      rw [hfits]
      rfl
  | .arr (x :: xs), depth, cs, h, hfits, hexact => by
    obtain ⟨first, hfirst, h⟩ := Option.bind_eq_some_iff.1 h
    obtain ⟨rest, hrest, h⟩ := Option.bind_eq_some_iff.1 h
    cases h
    simp only [fits, fitsElements, Bool.and_eq_true, Bool.not_eq_true'] at hfits
    obtain ⟨hdepth, hfitsFirst, hfitsRest⟩ := hfits
    obtain ⟨hexactFirst, hexactRest⟩ := Bool.and_eq_true_iff.1 hexact
    have hread := hst.value x (depth + 1) first hfirst hfitsFirst hexactFirst
    have hmore := hst.elements xs (depth + 1) rest hrest hfitsRest hexactRest
    exact ⟨fun _ => rfl, fun fuel s hfuel _ => ReadsAs.arr hdepth hread hmore hfuel s⟩
  | .obj ms, depth, cs, h, hfits, hexact => by
    constructor
    · intro s
      cases ms with
      | nil =>
        cases h
        rfl
      | cons m ms =>
        obtain ⟨t, rfl⟩ := Style.write?_obj_head h
        rfl
    · intro fuel s hfuel _
      exact hst.object ms depth cs h hfits hexact fuel s hfuel

/-- An object ends by itself. -/
theorem Style.Readable.object (hst : st.Readable L norm exact) : ∀ (ms : List (Text × Value)) (depth : Nat)
    (cs : List Char), st.write? (.obj ms) = some cs → (Value.obj ms).fits L depth = true →
      passesMembers (fun _ => true) exact ms = true → ∀ fuel s, cs.length ≤ fuel →
        scanOnce L fuel depth (ofChars cs ++ s) = .ok (.obj (mapMembers norm ms), s)
  | [], depth, cs, h, hfits, _, fuel, s, hfuel => by
    cases h
    simp only [fits, fitsMembers, Bool.and_true, Bool.not_eq_true'] at hfits
    obtain ⟨fuel, rfl⟩ : ∃ n, fuel = n + 1 := ⟨fuel - 1, by simp only [List.length_cons] at hfuel; omega⟩
    show scanOnce L (fuel + 1) depth (.scalar '{' :: .scalar '}' :: s) = _
    unfold scanOnce
    dsimp only
    rw [hfits]
    rfl
  | (name, v) :: ms, depth, cs, h, hfits, hexact, fuel, s, hfuel => by
    obtain ⟨first, hfirst, h⟩ := Option.bind_eq_some_iff.1 h
    obtain ⟨rest, hrest, h⟩ := Option.bind_eq_some_iff.1 h
    cases h
    simp only [fits, fitsMembers, Bool.and_eq_true, Bool.not_eq_true'] at hfits
    obtain ⟨hdepth, hfitsFirst, hfitsRest⟩ := hfits
    obtain ⟨hexactFirst, hexactRest⟩ := Bool.and_eq_true_iff.1 hexact
    have hread : ∀ vs, st.write? v = some vs → ReadsAs L (depth + 1) vs (v.mapText norm) :=
      fun vs hvs => hst.value v (depth + 1) vs hvs hfitsFirst hexactFirst
    have hmore := hst.members ms (depth + 1) rest hrest hfitsRest hexactRest
    exact hst.obj hdepth hfirst hread hmore hfuel s

theorem Style.Readable.elements (hst : st.Readable L norm exact) :
    ∀ (xs : List Value) (depth : Nat) (cs : List Char),
    st.writeElements? xs = some cs → fitsElements L xs depth = true →
      passesElements (fun _ => true) exact xs = true → MoreElements L depth cs (mapElements norm xs)
  | [], depth, cs, h, _, _ => by
    cases h
    exact ⟨Nat.le_refl 1, fun fuel v s _ => ⟨⟨']', s, rfl, .inr (.inr rfl)⟩, rfl⟩⟩
  | x :: xs, depth, cs, h, hfits, hexact => by
    obtain ⟨first, hfirst, h⟩ := Option.bind_eq_some_iff.1 h
    obtain ⟨rest, hrest, h⟩ := Option.bind_eq_some_iff.1 h
    cases h
    simp only [fitsElements, Bool.and_eq_true] at hfits
    obtain ⟨hexactFirst, hexactRest⟩ := Bool.and_eq_true_iff.1 hexact
    have hread := hst.value x depth first hfirst hfits.1 hexactFirst
    have hmore := hst.elements xs depth rest hrest hfits.2 hexactRest
    refine ⟨Nat.succ_le_succ (Nat.zero_le _), ?_⟩
    intro fuel v s hfuel
    have hpos := hmore.1
    simp only [List.length_cons, List.length_append] at hfuel
    obtain ⟨fuel, rfl⟩ : ∃ n, fuel = n + 1 := ⟨fuel - 1, by omega⟩
    obtain ⟨hdelimited, hmore⟩ := hmore.2 fuel (x.mapText norm) s (by omega)
    refine ⟨⟨',', _, rfl, .inl rfl⟩, ?_⟩
    show (scanElements L (fuel + 1) depth (skipSpace (ofChars (st.gap ++ (first ++ rest)) ++ s)) >>= _) = _
    rw [ofChars_append, List.append_assoc, skipSpace_spaces hst.gap, ofChars_append, List.append_assoc, hread.space,
      hread.scanElements (by omega) hdelimited, hmore]
    rfl

theorem Style.Readable.members (hst : st.Readable L norm exact) : ∀ (ms : List (Text × Value)) (depth : Nat)
    (cs : List Char), st.writeMembers? ms = some cs → fitsMembers L ms depth = true →
      passesMembers (fun _ => true) exact ms = true → MoreMembers L depth cs (mapMembers norm ms)
  | [], depth, cs, h, _, _ => by
    cases h
    exact ⟨Nat.le_refl 1, fun fuel v s _ => ⟨⟨'}', s, rfl, .inr (.inl rfl)⟩, rfl⟩⟩
  | (name, v) :: ms, depth, cs, h, hfits, hexact => by
    obtain ⟨first, hfirst, h⟩ := Option.bind_eq_some_iff.1 h
    obtain ⟨rest, hrest, h⟩ := Option.bind_eq_some_iff.1 h
    cases h
    simp only [fitsMembers, Bool.and_eq_true] at hfits
    obtain ⟨hexactFirst, hexactRest⟩ := Bool.and_eq_true_iff.1 hexact
    have hread : ∀ vs, st.write? v = some vs → ReadsAs L depth vs (v.mapText norm) :=
      fun vs hvs => hst.value v depth vs hvs hfits.1 hexactFirst
    have hmore := hst.members ms depth rest hrest hfits.2 hexactRest
    refine ⟨Nat.succ_le_succ (Nat.zero_le _), ?_⟩
    intro fuel m s hfuel
    have hpos := hmore.1
    simp only [List.length_cons, List.length_append] at hfuel
    obtain ⟨fuel, rfl⟩ : ∃ n, fuel = n + 1 := ⟨fuel - 1, by omega⟩
    obtain ⟨hdelimited, hmore⟩ := hmore.2 fuel (norm name, v.mapText norm) s (by omega)
    refine ⟨⟨',', _, rfl, .inl rfl⟩, ?_⟩
    show (scanMembers L (fuel + 1) depth (skipSpace (ofChars (st.gap ++ (first ++ rest)) ++ s)) >>= _) = _
    rw [ofChars_append, List.append_assoc, skipSpace_spaces hst.gap, ofChars_append, List.append_assoc,
      hst.member hfirst hread (by omega) hdelimited, hmore]
    rfl

end

/-- **The round trip.** -/
theorem loadsText_write (hst : st.Readable L norm exact) {ms : List (Text × Value)}
    (h : st.write? (.obj ms) = some cs) (hfits : (Value.obj ms).fits L 0 = true)
    (hexact : passesMembers (fun _ => true) exact ms = true) :
    loadsText L (ofChars cs) = .ok (.obj (mapMembers norm ms)) := by
  have hspace := (hst.value (.obj ms) 0 cs h hfits hexact).space []
  have hscan := hst.object ms 0 cs h hfits hexact (2 * (ofChars cs).length + 1) [] (by
    rw [ofChars, List.length_map]
    omega)
  rw [List.append_nil] at hspace hscan
  unfold loadsText
  rw [hspace, hscan]
  rfl

end

end Json
