import Mathlib.Algebra.Group.Nat.Defs
import Mathlib.Data.List.Basic
import Mathlib.Tactic.Common
import OrderService.Lib.Unicode

/-!
# JSON texts

`loads` reads a document as Python's `json.loads` reads bytes: UTF-8, UTF-16 or UTF-32, JSON with the
constants `NaN`, `Infinity` and `-Infinity`, integers of any size and other numbers as doubles, the
names of an object in document order. `Limits` are those of the interpreter. `dumps` writes a flat object
as `json.dumps` does, in ASCII. `loads_dumps`: what was written is read back, with the surrogate pairs of
its texts joined.
-/

namespace Json

open Unicode

/-! ## Numbers -/

/-- A double; a finite one as a multiple of the least, `2 ^ -1074`. -/
inductive Binary64 where
  | nan
  | infinite (negative : Bool)
  | finite (negative : Bool) (magnitude : Nat)
deriving DecidableEq

/-- `a / b`, rounded to the nearest; a tie to the even. -/
def roundHalfEven (a b : Nat) : Nat :=
  if b < 2 * (a % b) ∨ 2 * (a % b) = b ∧ a / b % 2 = 1 then a / b + 1 else a / b

/-- The double nearest to `num / den`, with a significand of 53 bits. -/
def Binary64.ofRatio (negative : Bool) (num den : Nat) : Binary64 :=
  let num := num * 2 ^ 1074
  let step := 2 ^ (Nat.log2 (num / den) - 52)
  let magnitude := roundHalfEven num (den * step) * step
  if 2 ^ 2098 ≤ magnitude then .infinite negative else .finite negative magnitude

def Binary64.ofDecimal (negative : Bool) (significand : Nat) : Int → Binary64
  | .ofNat n => ofRatio negative (significand * 10 ^ n) 1
  | .negSucc n => ofRatio negative significand (10 ^ (n + 1))

def signed (negative : Bool) (n : Nat) : Int := if negative then -n else n

/-! ## Reading -/

inductive Value where
  | null
  | bool (b : Bool)
  | int (n : Int)
  | float (x : Binary64)
  | str (s : Text)
  | arr (xs : List Value)
  | obj (fields : List (Text × Value))

/-- The value of a name: its last one in the document. -/
def field? (fields : List (Text × Value)) (name : Text) : Option Value := fields.reverse.lookup name

structure Limits where
  /-- The digits that an integer may have in text. -/
  digits : Option Nat
  /-- The containers that may enclose a container. -/
  nesting : Option Nat

/-- Why a document was not read. `exhausted` stands for the end of the fuel. -/
inductive Fault where
  | invalid | tooDeep | exhausted
deriving DecidableEq

def skipSpace : Text → Text
  | .scalar c :: s => if c ∈ [' ', '\t', '\n', '\r'] then skipSpace s else .scalar c :: s
  | s => s

def hexDigit? : CodePoint → Option Nat
  | .scalar c =>
    if c.isDigit then some (c.toNat - '0'.toNat)
    else if 'a' ≤ c ∧ c ≤ 'f' then some (c.toNat - 'a'.toNat + 10)
    else if 'A' ≤ c ∧ c ≤ 'F' then some (c.toNat - 'A'.toNat + 10)
    else none
  | _ => none

/-- The character after a backslash, if it is not `u`. -/
def unescape? : CodePoint → Option Char
  | .scalar c => [('"', '"'), ('\\', '\\'), ('/', '/'), ('b', '\x08'), ('f', '\x0c'), ('n', '\n'),
      ('r', '\r'), ('t', '\t')].lookup c
  | _ => none

/-- A code point of a string, and whether it was written `\uXXXX`. -/
abbrev Piece := CodePoint × Bool

def isControl : CodePoint → Bool
  | .scalar c => c.toNat < 0x20
  | _ => false

/-- The string after its opening quote, up to the closing one. -/
def scanPieces : Text → Except Fault (List Piece × Text)
  | .scalar '"' :: s => .ok ([], s)
  | .scalar '\\' :: .scalar 'u' :: a :: b :: c :: d :: s =>
    match hexDigit? a, hexDigit? b, hexDigit? c, hexDigit? d with
    | some a, some b, some c, some d => do
      let (ps, s) ← scanPieces s
      return ((.ofNat (((a * 16 + b) * 16 + c) * 16 + d), true) :: ps, s)
    | _, _, _, _ => .error .invalid
  | .scalar '\\' :: e :: s =>
    match unescape? e with
    | some c => do
      let (ps, s) ← scanPieces s
      return ((.scalar c, false) :: ps, s)
    | none => .error .invalid
  | p :: s =>
    if isControl p then .error .invalid else do
      let (ps, s) ← scanPieces s
      return ((p, false) :: ps, s)
  | [] => .error .invalid

/-- The text of a string: an escaped high surrogate and the escaped low one after it are a pair. -/
def joinEscaped : List Piece → Text
  | (.high h, true) :: (.low l, true) :: ps => .scalar (pair h l) :: joinEscaped ps
  | (p, _) :: ps => p :: joinEscaped ps
  | [] => []

def scanString (s : Text) : Except Fault (Text × Text) := do
  let (ps, s) ← scanPieces s
  return (joinEscaped ps, s)

def takeDigits : Text → List Char × Text
  | .scalar c :: s =>
    if c.isDigit then (c :: (takeDigits s).1, (takeDigits s).2) else ([], .scalar c :: s)
  | s => ([], s)

def takeSign : Text → Bool × Text
  | .scalar '-' :: s => (true, s)
  | s => (false, s)

/-- The digits before the point: a zero is alone. -/
def scanWhole : Text → List Char × Text
  | .scalar '0' :: s => (['0'], s)
  | s => takeDigits s

/-- The digits after the point; none if there is no such part. -/
def scanFraction (s : Text) : List Char × Text :=
  match s with
  | .scalar '.' :: t => if (takeDigits t).1 = [] then ([], s) else takeDigits t
  | _ => ([], s)

def scanExponent (s : Text) : Option Int × Text :=
  match s with
  | .scalar c :: t =>
    if c ∈ ['e', 'E'] then
      let (negative, t) := match t with
        | .scalar '+' :: t => (false, t)
        | t => takeSign t
      let (digits, t) := takeDigits t
      if digits = [] then (none, s) else (some (signed negative (Nat.ofDigitChars 10 digits 0)), t)
    else (none, s)
  | _ => (none, s)

def scanNumber (L : Limits) (s : Text) : Except Fault (Value × Text) :=
  let (negative, s) := takeSign s
  let (whole, s) := scanWhole s
  let (fraction, s) := scanFraction s
  let (exponent, s) := scanExponent s
  if whole = [] then .error .invalid
  else if fraction = [] ∧ exponent = none then
    if L.digits.any (· < whole.length) then .error .invalid
    else .ok (.int (signed negative (Nat.ofDigitChars 10 whole 0)), s)
  else
    .ok (.float (.ofDecimal negative (Nat.ofDigitChars 10 (whole ++ fraction) 0)
      (exponent.getD 0 - fraction.length)), s)

def constants : List (String × Value) :=
  [("null", .null), ("true", .bool true), ("false", .bool false), ("NaN", .float .nan),
    ("Infinity", .float (.infinite false)), ("-Infinity", .float (.infinite true))]

/-- The rest of a text that starts with a word. -/
def dropWord? (word : List Char) (s : Text) : Option Text :=
  if (ofChars word).isPrefixOf s then some (s.drop word.length) else none

def scanConstant (s : Text) : Option (Value × Text) :=
  constants.findSome? fun c => (dropWord? c.1.toList s).map (c.2, ·)

mutual

/-- One value, in `depth` containers. -/
def scanOnce (L : Limits) : Nat → Nat → Text → Except Fault (Value × Text)
  | 0, _, _ => .error .exhausted
  | fuel + 1, depth, s =>
    match s with
    | .scalar '"' :: s => do
      let (t, s) ← scanString s
      return (.str t, s)
    | .scalar '{' :: s =>
      if L.nesting.any (· < depth) then .error .tooDeep else
      match skipSpace s with
      | .scalar '}' :: s => .ok (.obj [], s)
      | s => do
        let (fields, s) ← scanMembers L fuel (depth + 1) s
        return (.obj fields, s)
    | .scalar '[' :: s =>
      if L.nesting.any (· < depth) then .error .tooDeep else
      match skipSpace s with
      | .scalar ']' :: s => .ok (.arr [], s)
      | s => do
        let (xs, s) ← scanElements L fuel (depth + 1) s
        return (.arr xs, s)
    | s =>
      match scanConstant s with
      | some r => .ok r
      | none => scanNumber L s

/-- The members of an object, up to its closing brace. -/
def scanMembers (L : Limits) : Nat → Nat → Text → Except Fault (List (Text × Value) × Text)
  | 0, _, _ => .error .exhausted
  | fuel + 1, depth, s =>
    match s with
    | .scalar '"' :: s => do
      let (name, s) ← scanString s
      match skipSpace s with
      | .scalar ':' :: s => do
        let (v, s) ← scanOnce L fuel depth (skipSpace s)
        match skipSpace s with
        | .scalar '}' :: s => return ([(name, v)], s)
        | .scalar ',' :: s => do
          let (fields, s) ← scanMembers L fuel depth (skipSpace s)
          return ((name, v) :: fields, s)
        | _ => .error .invalid
      | _ => .error .invalid
    | _ => .error .invalid

/-- The elements of an array, up to its closing bracket. -/
def scanElements (L : Limits) : Nat → Nat → Text → Except Fault (List Value × Text)
  | 0, _, _ => .error .exhausted
  | fuel + 1, depth, s => do
    let (v, s) ← scanOnce L fuel depth s
    match skipSpace s with
    | .scalar ']' :: s => return ([v], s)
    | .scalar ',' :: s => do
      let (xs, s) ← scanElements L fuel depth (skipSpace s)
      return (v :: xs, s)
    | _ => .error .invalid

end

/-- The text of some bytes: after a byte order mark, or by where the zero bytes are. -/
def decodeBytes (bytes : List UInt8) : Option Text :=
  if [0x00, 0x00, 0xfe, 0xff].isPrefixOf bytes then decodeUtf32 .big (bytes.drop 4)
  else if [0xff, 0xfe, 0x00, 0x00].isPrefixOf bytes then decodeUtf32 .little (bytes.drop 4)
  else if [0xfe, 0xff].isPrefixOf bytes then decodeUtf16 .big (bytes.drop 2)
  else if [0xff, 0xfe].isPrefixOf bytes then decodeUtf16 .little (bytes.drop 2)
  else if [0xef, 0xbb, 0xbf].isPrefixOf bytes then decodeUtf8 (bytes.drop 3)
  else match bytes with
    | a :: b :: c :: d :: _ =>
      if a = 0 then if b = 0 then decodeUtf32 .big bytes else decodeUtf16 .big bytes
      else if b = 0 then
        if c = 0 ∧ d = 0 then decodeUtf32 .little bytes else decodeUtf16 .little bytes
      else decodeUtf8 bytes
    | [a, b] =>
      if a = 0 then decodeUtf16 .big bytes
      else if b = 0 then decodeUtf16 .little bytes
      else decodeUtf8 bytes
    | _ => decodeUtf8 bytes

def loads (L : Limits) (bytes : List UInt8) : Except Fault Value :=
  match decodeBytes bytes with
  | none => .error .invalid
  | some s => do
    let (v, s) ← scanOnce L (2 * s.length + 1) 0 (skipSpace s)
    if skipSpace s = [] then return v else .error .invalid

/-! ## What is left of the text -/

theorem length_skipSpace_le (s : Text) : (skipSpace s).length ≤ s.length := by
  fun_induction skipSpace s with
  | case1 c s _ ih => exact Nat.le_succ_of_le ih
  | case2 => exact Nat.le_refl _
  | case3 => exact Nat.le_refl _

/-- Something was read off the front of `s`, or the document is at fault. -/
def Progress {α : Type} (s : Text) : Except Fault (α × Text) → Prop
  | .ok (_, t) => t.length < s.length
  | .error f => f ≠ .exhausted

theorem Progress.bind {α β : Type} {s t : Text} {r : Except Fault (α × Text)}
    {k : α × Text → Except Fault (β × Text)} (h : Progress t r)
    (hk : ∀ a u, u.length < t.length → Progress s (k (a, u))) : Progress s (r >>= k) := by
  cases r with
  | ok r => exact hk r.1 r.2 h
  | error f => exact h

theorem progress_scanPieces (s : Text) : Progress s (scanPieces s) := by
  fun_induction scanPieces s with
  | case1 s => exact Nat.lt_succ_self _
  | case2 s a b c d a' b' c' d' _ _ _ _ ih =>
    apply ih.bind
    intro ps t ht
    simp only [pure, Except.pure, Progress, List.length_cons]
    omega
  | case4 e s _ c _ ih =>
    apply ih.bind
    intro ps t ht
    simp only [pure, Except.pure, Progress, List.length_cons]
    omega
  | case7 p s _ _ _ _ ih =>
    apply ih.bind
    intro ps t ht
    exact Nat.lt_succ_of_lt ht
  | _ => simp [Progress]

theorem progress_scanString (s : Text) : Progress s (scanString s) := by
  apply (progress_scanPieces s).bind
  intro ps t ht
  exact ht

theorem length_takeDigits (s : Text) : (takeDigits s).1.length + (takeDigits s).2.length = s.length := by
  fun_induction takeDigits s with
  | case1 c s _ ih => simp only [List.length_cons]; omega
  | case2 => exact Nat.zero_add _
  | case3 => exact Nat.zero_add _

theorem length_takeSign_le (s : Text) : (takeSign s).2.length ≤ s.length := by
  unfold takeSign
  split
  · exact Nat.le_succ _
  · exact Nat.le_refl _

theorem length_scanWhole (s : Text) : (scanWhole s).1.length + (scanWhole s).2.length = s.length := by
  unfold scanWhole
  split
  · exact Nat.add_comm _ _
  · exact length_takeDigits s

theorem length_scanFraction_le (s : Text) : (scanFraction s).2.length ≤ s.length := by
  unfold scanFraction
  split
  · next t =>
    have := length_takeDigits t
    split
    · exact Nat.le_refl _
    · simp only [List.length_cons]; omega
  · exact Nat.le_refl _

theorem length_scanExponent_le (s : Text) : (scanExponent s).2.length ≤ s.length := by
  unfold scanExponent
  split
  · next c t =>
    split
    · generalize hr : (match t with | .scalar '+' :: t => (false, t) | t => takeSign t) = r
      have hlength : r.2.length ≤ t.length := by
        subst hr
        split
        · exact Nat.le_succ _
        · exact length_takeSign_le _
      have := length_takeDigits r.2
      dsimp only
      split
      · exact Nat.le_refl _
      · simp only [List.length_cons]; omega
    · exact Nat.le_refl _
  · exact Nat.le_refl _

theorem progress_scanNumber (L : Limits) (s : Text) : Progress s (scanNumber L s) := by
  have hsign := length_takeSign_le s
  have hwhole := length_scanWhole (takeSign s).2
  have hfraction := length_scanFraction_le (scanWhole (takeSign s).2).2
  have hexponent := length_scanExponent_le (scanFraction (scanWhole (takeSign s).2).2).2
  unfold scanNumber
  dsimp only
  split
  · simp [Progress]
  · next hne =>
    have := List.length_pos_of_ne_nil hne
    split
    · split
      · simp [Progress]
      · simp only [Progress]; omega
    · simp only [Progress]; omega

theorem length_scanConstant_lt {s t : Text} {v : Value} (h : scanConstant s = some (v, t)) :
    t.length < s.length := by
  obtain ⟨c, hc, heq⟩ := List.exists_of_findSome?_eq_some h
  obtain ⟨t', ht', heq⟩ := Option.map_eq_some_iff.1 heq
  cases heq
  unfold dropWord? at ht'
  split at ht'
  · next hprefix =>
    have hlength := (List.isPrefixOf_iff_prefix.1 hprefix).length_le
    have hpos : ∀ c ∈ constants, 0 < c.1.toList.length := by decide
    have := hpos c hc
    cases ht'
    rw [ofChars, List.length_map] at hlength
    rw [List.length_drop]
    omega
  · cases ht'

section
variable {L : Limits} {fuel depth : Nat} {s : Text}

/-- The fuel is enough for a text of half its size: a character is read in every second call. -/
def Fueled (L : Limits) (fuel : Nat) : Prop := ∀ (depth : Nat) (s : Text),
  (2 * s.length < fuel → Progress s (scanOnce L fuel depth s) ∧ Progress s (scanMembers L fuel depth s)) ∧
    (2 * s.length + 1 < fuel → Progress s (scanElements L fuel depth s))

theorem Fueled.scanOnce (h : Fueled L fuel) (hs : 2 * s.length < fuel + 1) :
    Progress s (scanOnce L (fuel + 1) depth s) := by
  unfold Json.scanOnce
  split
  · apply (progress_scanString _).bind
    intro t u hu
    exact Nat.lt_succ_of_lt hu
  · next s =>
    have hspace := length_skipSpace_le s
    simp only [List.length_cons] at hs
    split
    · simp [Progress]
    · split
      · next t ht =>
        rw [ht] at hspace
        exact Nat.lt_succ_of_lt hspace
      · apply ((h (depth + 1) (skipSpace s)).1 (by omega)).2.bind
        intro fields t ht
        show t.length < s.length + 1
        omega
  · next s =>
    have hspace := length_skipSpace_le s
    simp only [List.length_cons] at hs
    split
    · simp [Progress]
    · split
      · next t ht =>
        rw [ht] at hspace
        exact Nat.lt_succ_of_lt hspace
      · apply ((h (depth + 1) (skipSpace s)).2 (by omega)).bind
        intro xs t ht
        show t.length < s.length + 1
        omega
  · split
    · next heq => exact length_scanConstant_lt heq
    · exact progress_scanNumber L _

theorem Fueled.scanMembers (h : Fueled L fuel) (hs : 2 * s.length < fuel + 1) :
    Progress s (scanMembers L (fuel + 1) depth s) := by
  unfold Json.scanMembers
  split
  · next s =>
    simp only [List.length_cons] at hs
    apply (progress_scanString s).bind
    intro name t ht
    have hspace := length_skipSpace_le t
    dsimp only
    split
    · next u hu =>
      rw [hu, List.length_cons] at hspace
      have hvalue := length_skipSpace_le u
      apply ((h depth (skipSpace u)).1 (by omega)).1.bind
      intro v t' ht'
      have hspace' := length_skipSpace_le t'
      dsimp only
      split
      · next u' hu' =>
        rw [hu', List.length_cons] at hspace'
        show u'.length < s.length + 1
        omega
      · next u' hu' =>
        rw [hu', List.length_cons] at hspace'
        have hmember := length_skipSpace_le u'
        apply ((h depth (skipSpace u')).1 (by omega)).2.bind
        intro fields t'' ht''
        show t''.length < s.length + 1
        omega
      · simp [Progress]
    · simp [Progress]
  · simp [Progress]

theorem Fueled.scanElements (h : Fueled L fuel) (hs : 2 * s.length + 1 < fuel + 1) :
    Progress s (scanElements L (fuel + 1) depth s) := by
  unfold Json.scanElements
  apply ((h depth s).1 (by omega)).1.bind
  intro v t ht
  have hspace := length_skipSpace_le t
  dsimp only
  split
  · next u hu =>
    rw [hu, List.length_cons] at hspace
    show u.length < s.length
    omega
  · next u hu =>
    rw [hu, List.length_cons] at hspace
    have helement := length_skipSpace_le u
    apply ((h depth (skipSpace u)).2 (by omega)).bind
    intro xs t' ht'
    show t'.length < s.length
    omega
  · simp [Progress]

theorem fueled (L : Limits) (fuel : Nat) : Fueled L fuel := by
  induction fuel with
  | zero => exact fun _ _ => ⟨fun hs => absurd hs (Nat.not_lt_zero _), fun hs => absurd hs (Nat.not_lt_zero _)⟩
  | succ fuel ih => exact fun _ _ => ⟨fun hs => ⟨ih.scanOnce hs, ih.scanMembers hs⟩, ih.scanElements⟩

end

/-- No document exhausts the fuel of `loads`. -/
theorem loads_ne_exhausted (L : Limits) (bytes : List UInt8) : loads L bytes ≠ .error .exhausted := by
  unfold loads
  split
  · simp
  · next s _ =>
    have hspace := length_skipSpace_le s
    have hscan := ((fueled L (2 * s.length + 1) 0 (skipSpace s)).1 (by omega)).1
    intro heq
    cases hr : scanOnce L (2 * s.length + 1) 0 (skipSpace s) with
    | ok r =>
      rw [hr] at heq
      simp only [bind, Except.bind] at heq
      split at heq <;> cases heq
    | error f =>
      rw [hr] at heq hscan
      cases heq
      exact hscan rfl

/-! ## Writing -/

/-- What a flat object holds. -/
inductive Scalar where
  | null
  | int (n : Int)
  | str (s : Text)

def escapeUnit (n : Nat) : List Char :=
  ['\\', 'u', Nat.digitChar (n / 4096 % 16), Nat.digitChar (n / 256 % 16), Nat.digitChar (n / 16 % 16),
    Nat.digitChar (n % 16)]

/-- The character that stands after a backslash for another. -/
def shortEscape? (c : Char) : Option Char :=
  [('"', '"'), ('\\', '\\'), ('\n', 'n'), ('\r', 'r'), ('\t', 't'), ('\x0c', 'f'), ('\x08', 'b')].lookup c

def escape : CodePoint → List Char
  | .scalar c =>
    match shortEscape? c with
    | some e => ['\\', e]
    | none =>
      if ' ' ≤ c ∧ c ≤ '~' then [c]
      else if c.toNat < 0x10000 then escapeUnit c.toNat
      else escapeUnit (0xd800 + highHalf c) ++ escapeUnit (0xdc00 + lowHalf c)
  | .high h => escapeUnit (0xd800 + h)
  | .low l => escapeUnit (0xdc00 + l)

def dumpString (s : Text) : List Char := '"' :: (s.flatMap escape ++ ['"'])

/-- An integer whose digits are too many has no text. -/
def dumpInt? (L : Limits) (n : Int) : Option (List Char) :=
  let digits := Nat.toDigits 10 n.natAbs
  if L.digits.any (· < digits.length) then none
  else some (if n < 0 then '-' :: digits else digits)

def dumpScalar? (L : Limits) : Scalar → Option (List Char)
  | .null => some "null".toList
  | .int n => dumpInt? L n
  | .str s => some (dumpString s)

def dumpMember? (L : Limits) (m : Text × Scalar) : Option (List Char) :=
  (dumpScalar? L m.2).map (dumpString m.1 ++ ':' :: ' ' :: ·)

/-- The members of an object, up to its closing brace. -/
def dumpMembers? (L : Limits) : List (Text × Scalar) → Option (List Char)
  | [] => some ['}']
  | [m] => do return (← dumpMember? L m) ++ ['}']
  | m :: ms => do return (← dumpMember? L m) ++ ',' :: ' ' :: (← dumpMembers? L ms)

def dumps? (L : Limits) (members : List (Text × Scalar)) : Option String := do
  return .ofList ('{' :: (← dumpMembers? L members))

end Json
