import OrderService.Lib.Json

/-!
# Reading what was written

`loads_dumps`: a document that `dumps` wrote is read as the members it was written from, with the
surrogate pairs of their texts joined. The layers follow the writer: an escape, a string, an integer, a
member, the members of the object.
-/

namespace Json

open Unicode

/-! ## Strings -/

theorem hexDigit?_digitChar : ∀ n < 16, hexDigit? (.scalar (Nat.digitChar n)) = some n := by
  decide

theorem scanPieces_escapeUnit {n : Nat} (h : n < 0x10000) (s : Text) :
    scanPieces (ofChars (escapeUnit n) ++ s) =
      (scanPieces s).map fun r => ((.ofNat n, true) :: r.1, r.2) := by
  have hdigits : ((n / 4096 % 16 * 16 + n / 256 % 16) * 16 + n / 16 % 16) * 16 + n % 16 = n := by
    omega
  simp only [escapeUnit, ofChars, List.map_cons, List.map_nil, List.cons_append, List.nil_append]
  rw [scanPieces, hexDigit?_digitChar _ (Nat.mod_lt _ (by decide)),
    hexDigit?_digitChar _ (Nat.mod_lt _ (by decide)), hexDigit?_digitChar _ (Nat.mod_lt _ (by decide)),
    hexDigit?_digitChar _ (Nat.mod_lt _ (by decide))]
  dsimp only
  rw [hdigits]
  cases scanPieces s <;> rfl

theorem shortEscape?_eq_some {c e : Char} (h : shortEscape? c = some e) :
    unescape? (.scalar e) = some c ∧ e ≠ 'u' ∧ e.toNat < 0x80 := by
  obtain ⟨_, _, hmem, -⟩ := List.lookup_eq_some_iff.1 h
  have hall : ∀ m ∈ [('"', '"'), ('\\', '\\'), ('\n', 'n'), ('\r', 'r'), ('\t', 't'), ('\x0c', 'f'),
      ('\x08', 'b')], unescape? (.scalar m.2) = some m.1 ∧ m.2 ≠ 'u' ∧ m.2.toNat < 0x80 := by
    decide
  exact hall (c, e) (by rw [hmem]; simp)

theorem scanPieces_shortEscape {c e : Char} (h : shortEscape? c = some e) (s : Text) :
    scanPieces (.scalar '\\' :: .scalar e :: s) =
      (scanPieces s).map fun r => ((.scalar c, false) :: r.1, r.2) := by
  obtain ⟨he, hu, -⟩ := shortEscape?_eq_some h
  rw [scanPieces, he]
  · dsimp only
    cases scanPieces s <;> rfl
  · intro a b c' d t heq
    cases heq
    exact absurd rfl hu

theorem scanPieces_plain {c : Char} (h : shortEscape? c = none) (hc : ' ' ≤ c) (s : Text) :
    scanPieces (.scalar c :: s) = (scanPieces s).map fun r => ((.scalar c, false) :: r.1, r.2) := by
  have hquote : c ≠ '"' := by
    rintro rfl
    cases h
  have hslash : c ≠ '\\' := by
    rintro rfl
    cases h
  have hcontrol : isControl (.scalar c) = false := by
    apply decide_eq_false
    exact Nat.not_lt.2 hc
  rw [scanPieces]
  · rw [hcontrol]
    cases scanPieces s <;> rfl
  · intro heq
    cases heq
    exact hquote rfl
  · intro _ _ _ _ _ heq
    cases heq
    exact absurd rfl hslash
  · intro _ _ heq
    cases heq
    exact absurd rfl hslash

/-- What an escaped code point is read as. -/
def pieces : CodePoint → List Piece
  | .scalar c =>
    match shortEscape? c with
    | some _ => [(.scalar c, false)]
    | none =>
      if ' ' ≤ c ∧ c ≤ '~' then [(.scalar c, false)]
      else if c.toNat < 0x10000 then [(.scalar c, true)]
      else [(.high (highHalf c), true), (.low (lowHalf c), true)]
  | p => [(p, true)]

theorem scanPieces_escape (p : CodePoint) (s : Text) :
    scanPieces (ofChars (escape p) ++ s) = (scanPieces s).map fun r => (pieces p ++ r.1, r.2) := by
  cases p with
  | scalar c =>
    unfold escape pieces
    dsimp only
    cases he : shortEscape? c with
    | some e => exact scanPieces_shortEscape he s
    | none =>
      dsimp only
      by_cases hplain : ' ' ≤ c ∧ c ≤ '~'
      · rw [if_pos hplain, if_pos hplain]
        exact scanPieces_plain he hplain.1 s
      · rw [if_neg hplain, if_neg hplain]
        by_cases hlt : c.toNat < 0x10000
        · rw [if_pos hlt, if_pos hlt, scanPieces_escapeUnit hlt, CodePoint.ofNat_toNat]
          rfl
        · have hhigh := (highHalf c).isLt
          have hlow := (lowHalf c).isLt
          rw [if_neg hlt, if_neg hlt, ofChars_append, List.append_assoc, scanPieces_escapeUnit (by omega),
            scanPieces_escapeUnit (by omega), CodePoint.ofNat_high hhigh, CodePoint.ofNat_low hlow]
          cases scanPieces s <;> rfl
  | high h =>
    have hh := h.isLt
    refine (scanPieces_escapeUnit (by omega) s).trans ?_
    rw [CodePoint.ofNat_high hh]
    rfl
  | low l =>
    have hl := l.isLt
    refine (scanPieces_escapeUnit (by omega) s).trans ?_
    rw [CodePoint.ofNat_low hl]
    rfl

theorem joinEscaped_scalar (c : Char) (ps : List Piece) :
    joinEscaped (pieces (.scalar c) ++ ps) = .scalar c :: joinEscaped ps := by
  unfold pieces
  dsimp only
  split
  · rfl
  · split
    · rfl
    · split
      · rfl
      · next hle =>
        show .scalar (pair (highHalf c) (lowHalf c)) :: joinEscaped ps = _
        rw [pair_halves (Nat.not_lt.1 hle)]

/-- A high surrogate is alone unless a low one comes next. -/
theorem joinEscaped_high {h : Fin 1024} {s : Text} (hne : ∀ l s', s ≠ .low l :: s') :
    joinEscaped ((.high h, true) :: s.flatMap pieces) = .high h :: joinEscaped (s.flatMap pieces) := by
  cases s with
  | nil => rfl
  | cons q s =>
    rw [List.flatMap_cons]
    cases q with
    | scalar c =>
      unfold pieces
      dsimp only
      repeat' split
      all_goals rfl
    | high _ => rfl
    | low l => exact absurd rfl (hne l s)

theorem joinEscaped_pieces (s : Text) : joinEscaped (s.flatMap pieces) = joinPairs s := by
  fun_induction joinPairs s with
  | case1 h l s ih =>
    show joinEscaped ((.high h, true) :: (.low l, true) :: s.flatMap pieces) = _
    rw [joinEscaped, ih]
  | case2 p s hne ih =>
    rw [List.flatMap_cons]
    cases p with
    | scalar c => rw [joinEscaped_scalar, ih]
    | high h =>
      refine (joinEscaped_high fun l s' heq => hne h l s' rfl heq).trans ?_
      rw [ih]
    | low l =>
      show .low l :: joinEscaped (s.flatMap pieces) = _
      rw [ih]
  | case3 => rfl

theorem scanString_dump (t s : Text) :
    scanString (ofChars (t.flatMap escape) ++ .scalar '"' :: s) = .ok (joinPairs t, s) := by
  have hpieces : scanPieces (ofChars (t.flatMap escape) ++ .scalar '"' :: s) = .ok (t.flatMap pieces, s) := by
    induction t with
    | nil => rfl
    | cons p t ih =>
      rw [List.flatMap_cons, ofChars_append, List.append_assoc, scanPieces_escape, ih]
      rfl
  unfold scanString
  rw [hpieces, ← joinEscaped_pieces]
  rfl

/-! ## Integers -/

/-- What follows a value: a comma or the end of its object or array. -/
def Delimited (s : Text) : Prop := ∃ c t, s = .scalar c :: t ∧ (c = ',' ∨ c = '}' ∨ c = ']')

theorem takeDigits_append {digits : List Char} (h : ∀ c ∈ digits, c.isDigit) {s : Text}
    (hs : Delimited s) : takeDigits (ofChars digits ++ s) = (digits, s) := by
  induction digits with
  | nil =>
    obtain ⟨c, t, rfl, rfl | rfl | rfl⟩ := hs <;> rfl
  | cons c digits ih =>
    have hc : c.isDigit := h c (.head _)
    rw [ofChars_cons, List.cons_append, takeDigits, if_pos hc, ih fun c hc => h c (.tail _ hc)]

/-- A leading zero is the only digit. -/
theorem toDigits_of_zero (n : Nat) : ∀ t, Nat.toDigits 10 n = '0' :: t → t = [] ∧ n = 0 := by
  induction n using Nat.strongRecOn with
  | ind n ih =>
    intro t h
    by_cases hlt : n < 10
    · rw [Nat.toDigits_of_lt_base hlt] at h
      exact ⟨(List.cons.inj h).2.symm, Nat.digitChar_eq_zero.1 (List.cons.inj h).1⟩
    · rw [Nat.toDigits_of_base_le (by decide) (Nat.not_lt.1 hlt)] at h
      obtain ⟨d, ds, hdigits⟩ := List.exists_cons_of_ne_nil (Nat.toDigits_ne_nil (n := n / 10) (b := 10))
      rw [hdigits, List.cons_append] at h
      have hzero := (ih (n / 10) (by omega) ds (by rw [hdigits, (List.cons.inj h).1])).2
      omega

theorem scanWhole_toDigits (n : Nat) {s : Text} (hs : Delimited s) :
    scanWhole (ofChars (Nat.toDigits 10 n) ++ s) = (Nat.toDigits 10 n, s) := by
  have hdigits : ∀ c ∈ Nat.toDigits 10 n, c.isDigit := fun c hc =>
    Nat.isDigit_of_mem_toDigits (by decide) (by decide) hc
  cases hn : Nat.toDigits 10 n with
  | nil => exact absurd hn Nat.toDigits_ne_nil
  | cons d ds =>
    by_cases hd : d = '0'
    · subst hd
      rw [(toDigits_of_zero n ds hn).1]
      rfl
    · rw [← takeDigits_append (hn ▸ hdigits) hs, ofChars_cons, List.cons_append]
      unfold scanWhole
      split
      · next heq =>
        cases heq
        exact absurd rfl hd
      · rfl

theorem scanConstant_eq_none {c : Char} (h : c.isDigit) (s : Text) :
    scanConstant (.scalar c :: s) = none ∧ scanConstant (.scalar '-' :: .scalar c :: s) = none := by
  have hne : ∀ x : Char, x.isDigit = false → x ≠ c := by
    rintro x hx rfl
    rw [h] at hx
    cases hx
  simp [scanConstant, constants, dropWord?, ofChars, hne]

theorem dumpInt?_eq_some {L : Limits} {n : Int} {cs : List Char} (h : dumpInt? L n = some cs) :
    L.digits.any (· < (Nat.toDigits 10 n.natAbs).length) = false ∧
      ∃ d ds, Nat.toDigits 10 n.natAbs = d :: ds ∧ d.isDigit ∧
        cs = if n < 0 then '-' :: d :: ds else d :: ds := by
  unfold dumpInt? at h
  dsimp only at h
  split at h
  · cases h
  · next hlimit =>
    obtain ⟨d, ds, hdigits⟩ := List.exists_cons_of_ne_nil (Nat.toDigits_ne_nil (n := n.natAbs) (b := 10))
    have hd : d.isDigit := Nat.isDigit_of_mem_toDigits (b := 10) (n := n.natAbs) (by decide) (by decide)
      (by rw [hdigits]; exact .head _)
    refine ⟨Bool.eq_false_iff.2 hlimit, d, ds, hdigits, hd, ?_⟩
    rw [hdigits] at h
    exact (Option.some.inj h).symm

theorem scanNumber_dump {L : Limits} {n : Int} {cs : List Char} (h : dumpInt? L n = some cs) {s : Text}
    (hs : Delimited s) : scanNumber L (ofChars cs ++ s) = .ok (.int n, s) := by
  obtain ⟨hlimit, d, ds, hdigits, hd, rfl⟩ := dumpInt?_eq_some h
  have hsign : takeSign (ofChars (if n < 0 then '-' :: d :: ds else d :: ds) ++ s) =
      (decide (n < 0), ofChars (Nat.toDigits 10 n.natAbs) ++ s) := by
    rw [hdigits]
    by_cases hneg : n < 0
    · rw [if_pos hneg, decide_eq_true hneg]
      rfl
    · rw [if_neg hneg, decide_eq_false hneg, ofChars_cons, List.cons_append]
      unfold takeSign
      split
      · next heq =>
        cases heq
        cases hd
      · rfl
  have hfraction : scanFraction s = ([], s) := by
    obtain ⟨c, t, rfl, rfl | rfl | rfl⟩ := hs <;> rfl
  have hexponent : scanExponent s = (none, s) := by
    obtain ⟨c, t, rfl, rfl | rfl | rfl⟩ := hs <;> rfl
  have hvalue : signed (decide (n < 0)) n.natAbs = n := by
    unfold signed
    by_cases hneg : n < 0
    · rw [decide_eq_true hneg, if_pos rfl]
      omega
    · rw [decide_eq_false hneg, if_neg Bool.false_ne_true]
      omega
  unfold scanNumber
  simp only [hsign, scanWhole_toDigits _ hs, hfraction, hexponent, Nat.toDigits_ne_nil, if_false,
    hlimit, Nat.ofDigitChars_ten_toDigits, hvalue, and_self, if_true]
  rfl

/-! ## The object -/

/-- What a written value is read as. -/
def Scalar.read : Scalar → Value
  | .null => .null
  | .int n => .int n
  | .str s => .str (joinPairs s)

theorem scanOnce_dump {L : Limits} {v : Scalar} {cs : List Char} (h : dumpScalar? L v = some cs)
    {s : Text} (hs : Delimited s) (fuel depth : Nat) :
    scanOnce L (fuel + 1) depth (ofChars cs ++ s) = .ok (v.read, s) := by
  cases v with
  | null =>
    cases h
    rfl
  | int n =>
    have hscan : scanConstant (ofChars cs ++ s) = none := by
      obtain ⟨-, d, ds, -, hd, rfl⟩ := dumpInt?_eq_some h
      split
      · exact (scanConstant_eq_none hd _).2
      · exact (scanConstant_eq_none hd _).1
    have hhead : ∀ c ∈ ['"', '{', '['], ∀ t, ofChars cs ++ s ≠ .scalar c :: t := by
      obtain ⟨-, d, ds, -, hd, rfl⟩ := dumpInt?_eq_some h
      intro c hc t heq
      split at heq
      · cases heq
        revert hc
        decide
      · cases heq
        have hother : ∀ c ∈ ['"', '{', '['], c.isDigit = false := by simp
        rw [hother _ hc] at hd
        cases hd
    unfold scanOnce
    split
    · next heq => exact absurd heq (hhead _ (by decide) _)
    · next heq => exact absurd heq (hhead _ (by decide) _)
    · next heq => exact absurd heq (hhead _ (by decide) _)
    · rw [hscan]
      exact scanNumber_dump h hs
  | str t =>
    cases h
    have hstring := scanString_dump t s
    unfold dumpString
    rw [ofChars_cons, List.cons_append, ofChars_append, List.append_assoc]
    unfold scanOnce
    show (scanString (ofChars (t.flatMap escape) ++ .scalar '"' :: s) >>= _) = _
    rw [hstring]
    rfl

theorem skipSpace_dump {L : Limits} {v : Scalar} {cs : List Char} (h : dumpScalar? L v = some cs) (s : Text) :
    skipSpace (ofChars cs ++ s) = ofChars cs ++ s := by
  cases v with
  | null =>
    cases h
    rfl
  | int n =>
    obtain ⟨-, d, ds, -, hd, rfl⟩ := dumpInt?_eq_some h
    by_cases hneg : n < 0
    · rw [if_pos hneg]
      rfl
    · rw [if_neg hneg]
      have hother : ∀ c ∈ [' ', '\t', '\n', '\r'], c.isDigit = false := by simp
      refine if_neg fun hmem => ?_
      rw [hother d hmem] at hd
      cases hd
  | str t =>
    cases h
    rfl

def Member.read (m : Text × Scalar) : Text × Value := (joinPairs m.1, m.2.read)

/-- One member, and what is done after it. -/
theorem scanMembers_dumpMember {L : Limits} {m : Text × Scalar} {cs : List Char}
    (h : dumpMember? L m = some cs) {s : Text} (hs : Delimited s) (fuel depth : Nat) :
    scanMembers L (fuel + 2) depth (ofChars cs ++ s) =
      match skipSpace s with
      | .scalar '}' :: s => return ([Member.read m], s)
      | .scalar ',' :: s => do
        let (fields, s) ← scanMembers L (fuel + 1) depth (skipSpace s)
        return (Member.read m :: fields, s)
      | _ => .error .invalid := by
  obtain ⟨value, hvalue, rfl⟩ := Option.map_eq_some_iff.1 h
  have hname := scanString_dump m.1 (.scalar ':' :: .scalar ' ' :: (ofChars value ++ s))
  have hspace : skipSpace (.scalar ' ' :: (ofChars value ++ s)) = ofChars value ++ s :=
    skipSpace_dump hvalue s
  have htext : ofChars (dumpString m.1 ++ ':' :: ' ' :: value) ++ s =
      .scalar '"' :: (ofChars (m.1.flatMap escape) ++
        .scalar '"' :: .scalar ':' :: .scalar ' ' :: (ofChars value ++ s)) := by
    simp [dumpString, ofChars]
  rw [htext]
  unfold scanMembers
  show (scanString _ >>= _) = _
  rw [hname]
  show (scanOnce L (fuel + 1) depth (skipSpace (.scalar ' ' :: (ofChars value ++ s))) >>= _) = _
  rw [hspace, scanOnce_dump hvalue hs]
  rfl

theorem dumpMembers?_cons {L : Limits} {m : Text × Scalar} {ms : List (Text × Scalar)} {cs : List Char}
    (h : dumpMembers? L (m :: ms) = some cs) :
    ∃ text rest, dumpMember? L m = some text ∧
      (ms = [] ∧ rest = ['}'] ∨ ∃ more, dumpMembers? L ms = some more ∧ ms ≠ [] ∧ rest = ',' :: ' ' :: more) ∧
      cs = text ++ rest := by
  cases ms with
  | nil =>
    obtain ⟨text, htext, heq⟩ := Option.bind_eq_some_iff.1 h
    exact ⟨text, _, htext, .inl ⟨rfl, rfl⟩, (Option.some.inj heq).symm⟩
  | cons m' ms =>
    obtain ⟨text, htext, heq⟩ := Option.bind_eq_some_iff.1 h
    obtain ⟨more, hmore, heq⟩ := Option.bind_eq_some_iff.1 heq
    exact ⟨text, _, htext, .inr ⟨more, hmore, List.cons_ne_nil _ _, rfl⟩, (Option.some.inj heq).symm⟩

theorem dumpMembers?_head {L : Limits} {m : Text × Scalar} {ms : List (Text × Scalar)} {cs : List Char}
    (h : dumpMembers? L (m :: ms) = some cs) : ∃ t, cs = '"' :: t := by
  obtain ⟨text, rest, htext, -, rfl⟩ := dumpMembers?_cons h
  obtain ⟨value, -, rfl⟩ := Option.map_eq_some_iff.1 htext
  exact ⟨_, rfl⟩

theorem scanMembers_dump {L : Limits} (ms : List (Text × Scalar)) (s : Text) (depth : Nat) :
    ∀ (m : Text × Scalar) (cs : List Char) (fuel : Nat), dumpMembers? L (m :: ms) = some cs →
      ms.length + 1 < fuel →
      scanMembers L fuel depth (ofChars cs ++ s) = .ok ((m :: ms).map Member.read, s) := by
  induction ms with
  | nil =>
    intro m cs fuel h hfuel
    obtain ⟨fuel, rfl⟩ : ∃ n, fuel = n + 2 := ⟨fuel - 2, by simp only [List.length_nil] at hfuel; omega⟩
    obtain ⟨text, rest, htext, hrest, rfl⟩ := dumpMembers?_cons h
    obtain ⟨-, rfl⟩ | ⟨_, _, hne, -⟩ := hrest
    · have hdelimited : Delimited (ofChars ['}'] ++ s) := ⟨'}', s, rfl, .inr (.inl rfl)⟩
      rw [ofChars_append, List.append_assoc, scanMembers_dumpMember htext hdelimited]
      rfl
    · exact absurd rfl hne
  | cons m' ms ih =>
    intro m cs fuel h hfuel
    obtain ⟨fuel, rfl⟩ : ∃ n, fuel = n + 2 := ⟨fuel - 2, by omega⟩
    obtain ⟨text, rest, htext, hrest, rfl⟩ := dumpMembers?_cons h
    obtain ⟨hnil, -⟩ | ⟨more, hmore, -, rfl⟩ := hrest
    · cases hnil
    · have hrest := ih m' more (fuel + 1) hmore (by simp only [List.length_cons] at hfuel; omega)
      obtain ⟨t, rfl⟩ := dumpMembers?_head hmore
      have hdelimited : Delimited (ofChars (',' :: ' ' :: '"' :: t) ++ s) := ⟨',', _, rfl, .inl rfl⟩
      rw [ofChars_append, List.append_assoc, scanMembers_dumpMember htext hdelimited]
      show (scanMembers L (fuel + 1) depth (ofChars ('"' :: t) ++ s) >>= _) = _
      rw [hrest]
      rfl

/-! ## The document -/

def Ascii (cs : List Char) : Prop := ∀ c ∈ cs, c.toNat < 0x80

theorem Ascii.append {cs cs' : List Char} (h : Ascii cs) (h' : Ascii cs') : Ascii (cs ++ cs') :=
  List.forall_mem_append.2 ⟨h, h'⟩

theorem Ascii.cons {c : Char} {cs : List Char} (hc : c.toNat < 0x80) (h : Ascii cs) : Ascii (c :: cs) :=
  List.forall_mem_cons.2 ⟨hc, h⟩

theorem ascii_nil : Ascii [] := List.forall_mem_nil _

theorem ascii_escapeUnit (n : Nat) : Ascii (escapeUnit n) := by
  have hdigit : ∀ n < 16, (Nat.digitChar n).toNat < 0x80 := by decide
  have hmod (n : Nat) : (Nat.digitChar (n % 16)).toNat < 0x80 := hdigit _ (Nat.mod_lt _ (by decide))
  intro c hc
  simp only [escapeUnit, List.mem_cons, List.not_mem_nil, or_false] at hc
  obtain rfl | rfl | rfl | rfl | rfl | rfl := hc
  · decide
  · decide
  all_goals exact hmod _

theorem ascii_escape (p : CodePoint) : Ascii (escape p) := by
  cases p with
  | scalar c =>
    unfold escape
    dsimp only
    split
    · next e he =>
      have hascii := (shortEscape?_eq_some he).2.2
      exact .cons (by decide) (.cons hascii ascii_nil)
    · split
      · next hplain =>
        have hascii : c.toNat < 0x80 := Nat.lt_of_le_of_lt hplain.2 (by decide)
        exact .cons hascii ascii_nil
      · split
        · exact ascii_escapeUnit _
        · exact (ascii_escapeUnit _).append (ascii_escapeUnit _)
  | high h => exact ascii_escapeUnit _
  | low l => exact ascii_escapeUnit _

theorem ascii_dumpString (s : Text) : Ascii (dumpString s) := by
  have hescaped : Ascii (s.flatMap escape) := by
    intro c hc
    obtain ⟨p, -, hc⟩ := List.mem_flatMap.1 hc
    exact ascii_escape p c hc
  exact .cons (by decide) (hescaped.append (.cons (by decide) ascii_nil))

theorem ascii_dumpScalar {L : Limits} {v : Scalar} {cs : List Char} (h : dumpScalar? L v = some cs) :
    Ascii cs := by
  cases v with
  | null =>
    cases h
    exact .cons (by decide) (.cons (by decide) (.cons (by decide) (.cons (by decide) ascii_nil)))
  | int n =>
    obtain ⟨-, d, ds, hdigits, -, rfl⟩ := dumpInt?_eq_some h
    have hascii : Ascii (d :: ds) := by
      rw [← hdigits]
      intro c hc
      have hdigit : c.isDigit := Nat.isDigit_of_mem_toDigits (by decide) (by decide) hc
      simp only [Char.isDigit, Bool.and_eq_true, decide_eq_true_eq] at hdigit
      exact Nat.lt_of_le_of_lt hdigit.2 (by decide)
    split
    · exact .cons (by decide) hascii
    · exact hascii
  | str s =>
    cases h
    exact ascii_dumpString s

theorem ascii_dumpMembers {L : Limits} (ms : List (Text × Scalar)) :
    ∀ cs, dumpMembers? L ms = some cs → Ascii cs ∧ ms.length < cs.length := by
  induction ms with
  | nil =>
    intro cs h
    cases h
    exact ⟨.cons (by decide) ascii_nil, Nat.one_pos⟩
  | cons m ms ih =>
    intro cs h
    obtain ⟨text, rest, htext, hrest, rfl⟩ := dumpMembers?_cons h
    obtain ⟨value, hvalue, rfl⟩ := Option.map_eq_some_iff.1 htext
    have hmember : Ascii (dumpString m.1 ++ ':' :: ' ' :: value) :=
      (ascii_dumpString m.1).append (.cons (by decide) (.cons (by decide) (ascii_dumpScalar hvalue)))
    obtain ⟨rfl, rfl⟩ | ⟨more, hmore, -, rfl⟩ := hrest
    · refine ⟨hmember.append (.cons (by decide) ascii_nil), ?_⟩
      simp only [List.length_append, List.length_cons, List.length_nil]
      omega
    · obtain ⟨hascii, hlength⟩ := ih more hmore
      refine ⟨hmember.append (.cons (by decide) (.cons (by decide) hascii)), ?_⟩
      simp only [List.length_append, List.length_cons]
      omega

theorem decodeBytes_utf8 {a b : UInt8} (ha : a ∉ [0x00, 0xff, 0xfe, 0xef]) (hb : b ≠ 0) (rest : List UInt8) :
    decodeBytes (a :: b :: rest) = decodeUtf8 (a :: b :: rest) := by
  simp only [List.mem_cons, List.not_mem_nil, not_or, or_false] at ha
  obtain ⟨hzero, hff, hfe, hef⟩ := ha
  have hmark : ∀ x, x ≠ a → ∀ xs, (x :: xs).isPrefixOf (a :: b :: rest) = false := by
    intro x hx xs
    simp [List.isPrefixOf, hx]
  unfold decodeBytes
  simp only [hmark _ (Ne.symm hzero), hmark _ (Ne.symm hff), hmark _ (Ne.symm hfe), hmark _ (Ne.symm hef),
    Bool.false_eq_true, if_false]
  split
  · next heq =>
    cases heq
    rw [if_neg hzero, if_neg hb]
  · next heq =>
    cases heq
    rw [if_neg hzero, if_neg hb]
  · rfl

/-- Only an integer of too many digits is not written. -/
theorem dumpInt?_isSome (L : Limits) (n : Int) :
    (dumpInt? L n).isSome ↔ ∀ limit, L.digits = some limit → (Nat.toDigits 10 n.natAbs).length ≤ limit := by
  unfold dumpInt?
  dsimp only
  cases L.digits with
  | none => simp
  | some limit =>
    by_cases hlt : limit < (Nat.toDigits 10 n.natAbs).length
    · simp [hlt]
    · simp [hlt, Nat.not_lt.1 hlt]

theorem dumpMembers?_isSome (L : Limits) (ms : List (Text × Scalar)) :
    (dumpMembers? L ms).isSome ↔ ∀ m ∈ ms, (dumpScalar? L m.2).isSome := by
  fun_induction dumpMembers? L ms with
  | case1 => simp
  | case2 m => 
    cases hm : dumpScalar? L m.2 <;> simp [dumpMember?, hm]
  | case3 m ms hne ih =>
    rw [List.forall_mem_cons, ← ih]
    cases hm : dumpScalar? L m.2 <;> cases hms : dumpMembers? L ms <;> simp [dumpMember?, hm]

theorem dumps?_isSome (L : Limits) (ms : List (Text × Scalar)) :
    (dumps? L ms).isSome ↔ ∀ m ∈ ms, (dumpScalar? L m.2).isSome := by
  rw [← dumpMembers?_isSome]
  unfold dumps?
  cases dumpMembers? L ms <;> simp
/-- **The round trip**. -/
theorem loads_dumps {L : Limits} {ms : List (Text × Scalar)} {document : String}
    (h : dumps? L ms = some document) :
    loads L document.toUTF8.data.toList = .ok (.obj (ms.map Member.read)) := by
  obtain ⟨cs, hcs, heq⟩ := Option.bind_eq_some_iff.1 h
  cases heq
  obtain ⟨hascii, hlength⟩ := ascii_dumpMembers ms cs hcs
  have hdocument := decodeUtf8_ascii (Ascii.cons (c := '{') (by decide) hascii)
  have hbytes : decodeBytes (String.ofList ('{' :: cs)).toUTF8.data.toList = some (ofChars ('{' :: cs)) := by
    rw [← hdocument]
    cases ms with
    | nil =>
      cases hcs
      rfl
    | cons m ms =>
      obtain ⟨t, rfl⟩ := dumpMembers?_head hcs
      have hbytes : (String.ofList ('{' :: '"' :: t)).toUTF8.data.toList =
          0x7b :: 0x22 :: t.flatMap String.utf8EncodeChar := by
        simp [String.toUTF8, List.utf8Encode]
        rfl
      rw [hbytes]
      exact decodeBytes_utf8 (by decide) (by decide) _
  have hscan : scanOnce L (2 * (ofChars ('{' :: cs)).length + 1) 0 (ofChars ('{' :: cs)) =
      .ok (.obj (ms.map Member.read), []) := by
    have hdepth : L.nesting.any (· < 0) = false := by cases L.nesting <;> rfl
    rw [ofChars_cons]
    unfold scanOnce
    dsimp only
    rw [hdepth]
    cases ms with
    | nil =>
      cases hcs
      rfl
    | cons m ms =>
      have hmembers := scanMembers_dump ms [] 1 m cs (2 * (ofChars ('{' :: cs)).length) hcs (by
        simp only [ofChars, List.map_cons, List.length_cons, List.length_map] at hlength ⊢
        omega)
      obtain ⟨t, rfl⟩ := dumpMembers?_head hcs
      rw [List.append_nil] at hmembers
      show (scanMembers L (2 * (ofChars ('{' :: '"' :: t)).length) 1 (ofChars ('"' :: t)) >>= _) = _
      rw [hmembers]
      rfl
  unfold loads
  rw [hbytes]
  show (scanOnce L (2 * (ofChars ('{' :: cs)).length + 1) 0 (ofChars ('{' :: cs)) >>= _) = _
  rw [hscan]
  rfl

end Json
