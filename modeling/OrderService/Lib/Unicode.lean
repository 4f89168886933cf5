import Mathlib.Tactic.Common

/-!
# Text that may hold surrogates

A `CodePoint` is a Unicode scalar value or one half of a surrogate pair, as strings hold them in the
languages whose strings are sequences of code points. `decodeUtf8`, `decodeUtf16` and `decodeUtf32`
read bytes and let surrogates pass, so a text may hold the two halves of a pair one after the other;
`joinPairs` is the text with such halves joined.
-/

namespace Unicode

inductive CodePoint where
  | scalar (c : Char)
  | high (bits : Fin 1024)
  | low (bits : Fin 1024)
deriving DecidableEq

abbrev Text := List CodePoint

def ofChars (cs : List Char) : Text := cs.map .scalar

/-- The characters of a text without surrogates. -/
def toChars? (s : Text) : Option (List Char) := s.mapM fun
  | .scalar c => some c
  | _ => none

/-- The code point of a number below `0x110000`. -/
def CodePoint.ofNat (n : Nat) : CodePoint :=
  if n < 0xd800 then .scalar (Char.ofNat n)
  else if n < 0xdc00 then .high (Fin.ofNat 1024 n)
  else if n < 0xe000 then .low (Fin.ofNat 1024 n)
  else .scalar (Char.ofNat n)

/-- The character that a surrogate pair stands for. -/
def pair (h l : Fin 1024) : Char := Char.ofNat (0x10000 + h * 1024 + l)

/-- The surrogates of a character beyond the first 65536. -/
def highHalf (c : Char) : Fin 1024 := Fin.ofNat 1024 ((c.toNat - 0x10000) / 1024)

def lowHalf (c : Char) : Fin 1024 := Fin.ofNat 1024 (c.toNat - 0x10000)

/-- Each high surrogate right before a low one makes one character with it. -/
def joinPairs : Text → Text
  | .high h :: .low l :: s => .scalar (pair h l) :: joinPairs s
  | p :: s => p :: joinPairs s
  | [] => []

/-! ## Decoding bytes -/

/-- The bits of a continuation byte. -/
def tailBits (b : UInt8) : Option Nat :=
  if 0x80 ≤ b ∧ b < 0xc0 then some (b.toNat - 0x80) else none

/-- UTF-8, with surrogates allowed; neither overlong nor beyond `0x10ffff`. -/
def decodeUtf8 : List UInt8 → Option Text
  | [] => some []
  | a :: rest =>
    if a < 0x80 then do
      return .scalar (Char.ofNat a.toNat) :: (← decodeUtf8 rest)
    else if a < 0xc2 then none
    else if a < 0xe0 then
      match rest with
      | b :: rest => do
        let n := (a.toNat - 0xc0) * 64 + (← tailBits b)
        return .ofNat n :: (← decodeUtf8 rest)
      | _ => none
    else if a < 0xf0 then
      match rest with
      | b :: c :: rest => do
        let n := (a.toNat - 0xe0) * 4096 + (← tailBits b) * 64 + (← tailBits c)
        if n < 0x800 then none else return .ofNat n :: (← decodeUtf8 rest)
      | _ => none
    else
      match rest with
      | b :: c :: d :: rest => do
        let n := (a.toNat - 0xf0) * 262144 + (← tailBits b) * 4096 + (← tailBits c) * 64 + (← tailBits d)
        if n < 0x10000 ∨ 0x110000 ≤ n then none else return .ofNat n :: (← decodeUtf8 rest)
      | _ => none

inductive Endian where
  | big | little

def units : Endian → List UInt8 → Option (List Nat)
  | _, [] => some []
  | .big, a :: b :: rest => do return (a.toNat * 256 + b.toNat) :: (← units .big rest)
  | .little, a :: b :: rest => do return (b.toNat * 256 + a.toNat) :: (← units .little rest)
  | _, [_] => none

def decodeUtf16 (endian : Endian) (bytes : List UInt8) : Option Text :=
  (units endian bytes).map fun us => joinPairs (us.map .ofNat)

def words : Endian → List Nat → Option (List Nat)
  | _, [] => some []
  | .big, a :: b :: rest => do return (a * 65536 + b) :: (← words .big rest)
  | .little, a :: b :: rest => do return (b * 65536 + a) :: (← words .little rest)
  | _, [_] => none

def decodeUtf32 (endian : Endian) (bytes : List UInt8) : Option Text := do
  let ws ← words endian (← units endian bytes)
  if ws.all (· < 0x110000) then return ws.map .ofNat else none

/-! ## Lemmas -/

@[simp] theorem ofChars_cons (c : Char) (cs : List Char) : ofChars (c :: cs) = .scalar c :: ofChars cs := rfl

@[simp] theorem ofChars_append (cs cs' : List Char) : ofChars (cs ++ cs') = ofChars cs ++ ofChars cs' :=
  List.map_append

theorem CodePoint.ofNat_toNat (c : Char) : CodePoint.ofNat c.toNat = .scalar c := by
  have hvalid : c.toNat < 0xd800 ∨ 0xdfff < c.toNat ∧ c.toNat < 0x110000 := c.valid
  unfold CodePoint.ofNat
  by_cases hlow : c.toNat < 0xd800
  · rw [if_pos hlow, Char.ofNat_toNat]
  · rw [if_neg hlow, if_neg (by omega), if_neg (by omega), Char.ofNat_toNat]

theorem CodePoint.ofNat_high {n : Nat} (h : n < 1024) : CodePoint.ofNat (0xd800 + n) = .high ⟨n, h⟩ := by
  unfold CodePoint.ofNat
  rw [if_neg (by omega), if_pos (by omega), CodePoint.high.injEq]
  apply Fin.ext
  show (0xd800 + n) % 1024 = n
  omega

theorem CodePoint.ofNat_low {n : Nat} (h : n < 1024) : CodePoint.ofNat (0xdc00 + n) = .low ⟨n, h⟩ := by
  unfold CodePoint.ofNat
  rw [if_neg (by omega), if_neg (by omega), if_pos (by omega), CodePoint.low.injEq]
  apply Fin.ext
  show (0xdc00 + n) % 1024 = n
  omega

theorem toNat_lt (c : Char) : c.toNat < 0x110000 := by
  have hvalid : c.toNat < 0xd800 ∨ 0xdfff < c.toNat ∧ c.toNat < 0x110000 := c.valid
  omega

theorem pair_halves {c : Char} (h : 0x10000 ≤ c.toNat) : pair (highHalf c) (lowHalf c) = c := by
  have hlt := toNat_lt c
  have hnat : 0x10000 + (highHalf c).val * 1024 + (lowHalf c).val = c.toNat := by
    show 0x10000 + (c.toNat - 0x10000) / 1024 % 1024 * 1024 + (c.toNat - 0x10000) % 1024 = c.toNat
    omega
  unfold pair
  rw [hnat, Char.ofNat_toNat]

theorem toChars?_scalar (c : Char) (s : Text) : toChars? (.scalar c :: s) = (toChars? s).map (c :: ·) := by
  unfold toChars?
  rw [List.mapM_cons]
  cases List.mapM (m := Option) _ s <;> rfl

theorem toChars?_ofChars (cs : List Char) : toChars? (ofChars cs) = some cs := by
  induction cs with
  | nil => rfl
  | cons c cs ih =>
    rw [ofChars_cons, toChars?_scalar, ih]
    rfl

/-- No high surrogate stands right before a low one. -/
def Joined (s : Text) : Prop := s.IsChain fun p q => ∀ h l, p = .high h → q ≠ .low l

@[simp] theorem joinPairs_ofChars (cs : List Char) : joinPairs (ofChars cs) = ofChars cs := by
  induction cs with
  | nil => rfl
  | cons c cs ih => 
    show .scalar c :: joinPairs (ofChars cs) = _
    rw [ih]
    rfl
theorem joinPairs_eq_iff (s : Text) : joinPairs s = s ↔ Joined s := by
  fun_induction joinPairs s with
  | case1 h l s ih =>
    refine iff_of_false (fun heq => ?_) fun hchain => ?_
    · cases (List.cons.inj heq).1
    · exact (List.isChain_cons_cons.1 hchain).1 h l rfl rfl
  | case2 p s hne ih =>
    rw [List.cons.injEq, ih]
    cases s with
    | nil => exact iff_of_true ⟨rfl, .nil⟩ (.singleton _)
    | cons q s =>
      unfold Joined
      rw [List.isChain_cons_cons]
      refine and_congr_left fun _ => iff_of_true rfl fun h l hp hq => ?_
      exact hne h l s hp (by rw [hq])
  | case3 => exact iff_of_true rfl .nil

theorem decodeUtf8_cons_ascii {a : UInt8} (h : a < 0x80) (rest : List UInt8) :
    decodeUtf8 (a :: rest) = (decodeUtf8 rest).map (.scalar (Char.ofNat a.toNat) :: ·) := by
  rw [decodeUtf8.eq_def]
  simp only [h, if_true]
  cases decodeUtf8 rest <;> rfl

theorem decodeUtf8_ascii {cs : List Char} (h : ∀ c ∈ cs, c.toNat < 0x80) :
    decodeUtf8 (String.ofList cs).toUTF8.data.toList = some (ofChars cs) := by
  have hbytes : (String.ofList cs).toUTF8.data.toList = cs.flatMap String.utf8EncodeChar := by
    simp [String.toUTF8, List.utf8Encode]
  rw [hbytes]
  clear hbytes
  induction cs with
  | nil => rfl
  | cons c cs ih =>
    have hc : c.toNat < 0x80 := h c (.head _)
    have hchar : String.utf8EncodeChar c = [UInt8.ofNat c.toNat] := if_pos (Nat.le_of_lt_succ hc)
    have hnat : (UInt8.ofNat c.toNat).toNat = c.toNat := by
      apply UInt8.toNat_ofNat_of_lt'
      show c.toNat < 256
      omega
    have hlt : UInt8.ofNat c.toNat < 0x80 := by
      rw [UInt8.lt_iff_toNat_lt, hnat]
      exact hc
    have ih := ih fun c hc => h c (.tail _ hc)
    rw [List.flatMap_cons, hchar, List.singleton_append, decodeUtf8_cons_ascii hlt, ih, hnat, Char.ofNat_toNat]
    rfl

/-! ## Reading encoded characters -/

theorem toNat_byte {n : Nat} (h : n < 256) : (UInt8.ofNat n).toNat = n := UInt8.toNat_ofNat_of_lt' h

theorem byte_lt {n : Nat} (h : n < 256) (b : UInt8) : UInt8.ofNat n < b ↔ n < b.toNat := by
  rw [UInt8.lt_iff_toNat_lt, toNat_byte h]

theorem tailBits_ofNat {n : Nat} (h : n < 64) : tailBits (UInt8.ofNat (n + 0x80)) = some n := by
  have hnat := toNat_byte (n := n + 0x80) (by omega)
  have hrange : 0x80 ≤ UInt8.ofNat (n + 0x80) ∧ UInt8.ofNat (n + 0x80) < 0xc0 := by
    rw [UInt8.le_iff_toNat_le, UInt8.lt_iff_toNat_lt, hnat]
    show 128 ≤ n + 128 ∧ n + 128 < 192
    omega
  unfold tailBits
  rw [if_pos hrange, hnat, Nat.add_sub_cancel]

/-- The comparisons that `decodeUtf8` makes of a first byte, in their order. -/
theorem firstByte {n : Nat} (h : n < 256) :
    (UInt8.ofNat n < 0x80 ↔ n < 0x80) ∧ (UInt8.ofNat n < 0xc2 ↔ n < 0xc2) ∧
      (UInt8.ofNat n < 0xe0 ↔ n < 0xe0) ∧ (UInt8.ofNat n < 0xf0 ↔ n < 0xf0) :=
  ⟨byte_lt h _, byte_lt h _, byte_lt h _, byte_lt h _⟩

section
variable {a b c d : Nat} (rest : List UInt8)

theorem decodeUtf8_two (ha : 2 ≤ a) (ha' : a < 32) (hb : b < 64) :
    decodeUtf8 (.ofNat (a + 0xc0) :: .ofNat (b + 0x80) :: rest) =
      (decodeUtf8 rest).map (.ofNat (a * 64 + b) :: ·) := by
  have hlead : a + 0xc0 < 256 := by omega
  obtain ⟨hascii, hcontinuation, htwo, -⟩ := firstByte hlead
  rw [decodeUtf8.eq_def]
  dsimp only
  rw [if_neg (by rw [hascii]; omega), if_neg (by rw [hcontinuation]; omega), if_pos (by rw [htwo]; omega),
    tailBits_ofNat hb, toNat_byte hlead, Nat.add_sub_cancel]
  cases decodeUtf8 rest <;> rfl

theorem decodeUtf8_three (ha : a < 16) (hb : b < 64) (hc : c < 64) (hn : 0x800 ≤ a * 4096 + b * 64 + c) :
    decodeUtf8 (.ofNat (a + 0xe0) :: .ofNat (b + 0x80) :: .ofNat (c + 0x80) :: rest) =
      (decodeUtf8 rest).map (.ofNat (a * 4096 + b * 64 + c) :: ·) := by
  have hlead : a + 0xe0 < 256 := by omega
  obtain ⟨hascii, hcontinuation, htwo, hthree⟩ := firstByte hlead
  rw [decodeUtf8.eq_def]
  dsimp only
  rw [if_neg (by rw [hascii]; omega), if_neg (by rw [hcontinuation]; omega), if_neg (by rw [htwo]; omega),
    if_pos (by rw [hthree]; omega), tailBits_ofNat hb, tailBits_ofNat hc, toNat_byte hlead, Nat.add_sub_cancel]
  dsimp only [bind, Option.bind]
  rw [if_neg (Nat.not_lt.2 hn)]
  cases decodeUtf8 rest <;> rfl

theorem decodeUtf8_four (ha : a < 16) (hb : b < 64) (hc : c < 64) (hd : d < 64)
    (hn : 0x10000 ≤ a * 262144 + b * 4096 + c * 64 + d) (hn' : a * 262144 + b * 4096 + c * 64 + d < 0x110000) :
    decodeUtf8 (.ofNat (a + 0xf0) :: .ofNat (b + 0x80) :: .ofNat (c + 0x80) :: .ofNat (d + 0x80) :: rest) =
      (decodeUtf8 rest).map (.ofNat (a * 262144 + b * 4096 + c * 64 + d) :: ·) := by
  have hlead : a + 0xf0 < 256 := by omega
  obtain ⟨hascii, hcontinuation, htwo, hthree⟩ := firstByte hlead
  rw [decodeUtf8.eq_def]
  dsimp only
  rw [if_neg (by rw [hascii]; omega), if_neg (by rw [hcontinuation]; omega), if_neg (by rw [htwo]; omega),
    if_neg (by rw [hthree]; omega), tailBits_ofNat hb, tailBits_ofNat hc, tailBits_ofNat hd, toNat_byte hlead,
    Nat.add_sub_cancel]
  dsimp only [bind, Option.bind]
  rw [if_neg (by omega)]
  cases decodeUtf8 rest <;> rfl

end

/-- A character is read back from its bytes. -/
theorem decodeUtf8_char (c : Char) (rest : List UInt8) :
    decodeUtf8 (String.utf8EncodeChar c ++ rest) = (decodeUtf8 rest).map (.scalar c :: ·) := by
  have hvalid := toNat_lt c
  have hchar : c.val.toNat = c.toNat := rfl
  rw [← CodePoint.ofNat_toNat c]
  unfold String.utf8EncodeChar
  rw [hchar]
  dsimp only
  by_cases h1 : c.toNat ≤ 0x7f
  · have hlt : UInt8.ofNat c.toNat < 0x80 := (byte_lt (by omega) _).2 (Nat.lt_succ_of_le h1)
    rw [if_pos h1, List.singleton_append, decodeUtf8_cons_ascii hlt, toNat_byte (by omega), Char.ofNat_toNat,
      CodePoint.ofNat_toNat]
  rw [if_neg h1]
  by_cases h2 : c.toNat ≤ 0x7ff
  · have hbits : c.toNat / 64 % 0x20 * 64 + c.toNat % 0x40 = c.toNat := by omega
    rw [if_pos h2]
    refine (decodeUtf8_two rest (by omega) (by omega) (by omega)).trans ?_
    rw [hbits]
  rw [if_neg h2]
  by_cases h3 : c.toNat ≤ 0xffff
  · have hbits : c.toNat / 4096 % 0x10 * 4096 + c.toNat / 64 % 0x40 * 64 + c.toNat % 0x40 = c.toNat := by omega
    rw [if_pos h3]
    refine (decodeUtf8_three rest (by omega) (by omega) (by omega) (by omega)).trans ?_
    rw [hbits]
  · have hbits : c.toNat / 262144 % 0x08 * 262144 + c.toNat / 4096 % 0x40 * 4096 + c.toNat / 64 % 0x40 * 64 +
        c.toNat % 0x40 = c.toNat := by omega
    rw [if_neg h3]
    refine (decodeUtf8_four rest (by omega) (by omega) (by omega) (by omega) (by omega) (by omega)).trans ?_
    rw [hbits]

theorem decodeUtf8_chars (cs : List Char) : decodeUtf8 (cs.flatMap String.utf8EncodeChar) = some (ofChars cs) := by
  induction cs with
  | nil => rfl
  | cons c cs ih =>
    rw [List.flatMap_cons, decodeUtf8_char, ih]
    rfl

theorem toUTF8_ofList (cs : List Char) :
    (String.ofList cs).toUTF8.data.toList = cs.flatMap String.utf8EncodeChar := by
  simp [String.toUTF8, List.utf8Encode]

end Unicode
