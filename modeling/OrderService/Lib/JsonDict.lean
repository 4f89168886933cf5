import OrderService.Lib.JsonWriter

/-!
# What a reader makes of a document

Its values are within the limits it reads by (`loadsText_fits`). Of an object that has a name twice, a dict
keeps the place of the first and the value of the last: `Value.collapse` does so at every depth, and leaves
a value alone that has no name twice (`IsDict`).
-/

namespace Json

open Unicode Value

/-! ## Within the limits -/

theorem takeDigits_isDigit (s : Text) : ∀ c ∈ (takeDigits s).1, c.isDigit := by
  fun_induction takeDigits s with
  | case1 c s hc ih => exact List.forall_mem_cons.2 ⟨hc, ih⟩
  | case2 => exact List.forall_mem_nil _
  | case3 => exact List.forall_mem_nil _

theorem scanWhole_isDigit (s : Text) : ∀ c ∈ (scanWhole s).1, c.isDigit := by
  unfold scanWhole
  split
  · exact List.forall_mem_singleton.2 rfl
  · exact takeDigits_isDigit s

theorem ofDigitChars_lt {cs : List Char} (h : ∀ c ∈ cs, c.isDigit) :
    ∀ init, Nat.ofDigitChars 10 cs init < (init + 1) * 10 ^ cs.length := by
  induction cs with
  | nil =>
    intro init
    rw [Nat.ofDigitChars_nil, List.length_nil, Nat.pow_zero, Nat.mul_one]
    exact Nat.lt_succ_self init
  | cons c cs ih =>
    intro init
    have hc : c.toNat - '0'.toNat < 10 := by
      have hdigit := h c (.head _)
      simp only [Char.isDigit, Bool.and_eq_true, decide_eq_true_eq] at hdigit
      have hle : c.toNat ≤ '9'.toNat := hdigit.2
      have hnine : '9'.toNat - '0'.toNat = 9 := rfl
      omega
    rw [Nat.ofDigitChars_cons, List.length_cons, Nat.pow_succ']
    calc Nat.ofDigitChars 10 cs (10 * init + (c.toNat - '0'.toNat))
        < (10 * init + (c.toNat - '0'.toNat) + 1) * 10 ^ cs.length := ih (fun c hc => h c (.tail _ hc)) _
      _ ≤ ((init + 1) * 10) * 10 ^ cs.length := Nat.mul_le_mul_right _ (by omega)
      _ = (init + 1) * (10 * 10 ^ cs.length) := Nat.mul_assoc _ _ _

/-- A number has no more digits than its text. -/
theorem length_toDigits_ofDigitChars {cs : List Char} (h : ∀ c ∈ cs, c.isDigit) (hne : cs ≠ []) :
    (Nat.toDigits 10 (Nat.ofDigitChars 10 cs 0)).length ≤ cs.length := by
  rw [Nat.length_toDigits_le_iff (by decide) (List.length_pos_of_ne_nil hne)]
  have hlt := ofDigitChars_lt h 0
  rwa [Nat.zero_add, Nat.one_mul] at hlt

section
variable {L : Limits} {fuel depth : Nat} {s t : Text}

theorem scanNumber_fits {v : Value} (h : scanNumber L s = .ok (v, t)) : v.fits L depth = true := by
  have hdigits := scanWhole_isDigit (takeSign s).2
  unfold scanNumber at h
  dsimp only at h
  split at h
  · cases h
  · next hne =>
    split at h
    · split at h
      · cases h
      · next hlimit =>
        cases h
        have hlength := length_toDigits_ofDigitChars hdigits hne
        have habs : (signed (takeSign s).1 (Nat.ofDigitChars 10 (scanWhole (takeSign s).2).1 0)).natAbs =
            Nat.ofDigitChars 10 (scanWhole (takeSign s).2).1 0 := by
          unfold signed
          split
          · rw [Int.natAbs_neg, Int.natAbs_natCast]
          · exact Int.natAbs_natCast _
        simp only [fits, habs, Bool.not_eq_true']
        cases hL : L.digits with
        | none => rfl
        | some limit =>
          rw [hL] at hlimit
          simp only [Option.any_some, decide_eq_true_eq] at hlimit
          simp only [Option.any_some, decide_eq_false_iff_not]
          omega
    · cases h
      rfl

theorem scanConstant_fits {v : Value} (h : scanConstant s = some (v, t)) : v.fits L depth = true := by
  obtain ⟨c, hc, heq⟩ := List.exists_of_findSome?_eq_some h
  obtain ⟨_, -, heq⟩ := Option.map_eq_some_iff.1 heq
  cases heq
  have hall : ∀ c ∈ constants, c.2.fits L depth = true := by
    intro c hc
    simp only [constants, List.mem_cons, List.not_mem_nil, or_false] at hc
    obtain rfl | rfl | rfl | rfl | rfl | rfl := hc <;> rfl
  exact hall c hc

/-- What is read with some fuel is within the limits. -/
structure Within (L : Limits) (fuel : Nat) : Prop where
  value : ∀ depth s v t, scanOnce L fuel depth s = .ok (v, t) → v.fits L depth = true
  members : ∀ depth s ms t, scanMembers L fuel depth s = .ok (ms, t) → fitsMembers L ms depth = true
  elements : ∀ depth s xs t, scanElements L fuel depth s = .ok (xs, t) → fitsElements L xs depth = true

theorem bind_eq_ok {ε α β : Type} {x : Except ε α} {f : α → Except ε β} {b : β} (h : x >>= f = .ok b) :
    ∃ a, x = .ok a ∧ f a = .ok b := by
  cases x with
  | ok a => exact ⟨a, rfl, h⟩
  | error e => cases h

theorem Within.scanOnce (h : Within L fuel) {v : Value} (hscan : scanOnce L (fuel + 1) depth s = .ok (v, t)) :
    v.fits L depth = true := by
  unfold Json.scanOnce at hscan
  split at hscan
  · obtain ⟨r, -, heq⟩ := bind_eq_ok hscan
    cases heq
    rfl
  · split at hscan
    · cases hscan
    · next hdepth =>
      rw [Bool.not_eq_true] at hdepth
      split at hscan
      · cases hscan
        simp [fits, fitsMembers, hdepth]
      · obtain ⟨r, hmembers, heq⟩ := bind_eq_ok hscan
        cases heq
        simp [fits, hdepth, h.members _ _ _ _ hmembers]
  · split at hscan
    · cases hscan
    · next hdepth =>
      rw [Bool.not_eq_true] at hdepth
      split at hscan
      · cases hscan
        simp [fits, fitsElements, hdepth]
      · obtain ⟨r, helements, heq⟩ := bind_eq_ok hscan
        cases heq
        simp [fits, hdepth, h.elements _ _ _ _ helements]
  · split at hscan
    · next hword =>
      cases hscan
      exact scanConstant_fits hword
    · exact scanNumber_fits hscan

theorem Within.scanMembers (h : Within L fuel) {ms : List (Text × Value)}
    (hscan : scanMembers L (fuel + 1) depth s = .ok (ms, t)) : fitsMembers L ms depth = true := by
  unfold Json.scanMembers at hscan
  split at hscan
  · obtain ⟨⟨name, s⟩, -, hscan⟩ := bind_eq_ok hscan
    dsimp only at hscan
    split at hscan
    · obtain ⟨⟨v, s⟩, hvalue, hscan⟩ := bind_eq_ok hscan
      have hfits := h.value _ _ _ _ hvalue
      dsimp only at hscan
      split at hscan
      · cases hscan
        simp [fitsMembers, hfits]
      · obtain ⟨⟨more, s⟩, hmore, heq⟩ := bind_eq_ok hscan
        cases heq
        simp [fitsMembers, hfits, h.members _ _ _ _ hmore]
      · cases hscan
    · cases hscan
  · cases hscan

theorem Within.scanElements (h : Within L fuel) {xs : List Value}
    (hscan : scanElements L (fuel + 1) depth s = .ok (xs, t)) : fitsElements L xs depth = true := by
  unfold Json.scanElements at hscan
  obtain ⟨⟨v, s⟩, hvalue, hscan⟩ := bind_eq_ok hscan
  have hfits := h.value _ _ _ _ hvalue
  dsimp only at hscan
  split at hscan
  · cases hscan
    simp [fitsElements, hfits]
  · obtain ⟨⟨more, s⟩, hmore, heq⟩ := bind_eq_ok hscan
    cases heq
    simp [fitsElements, hfits, h.elements _ _ _ _ hmore]
  · cases hscan

theorem within (L : Limits) (fuel : Nat) : Within L fuel := by
  induction fuel with
  | zero =>
    constructor
    all_goals
      intro _ _ _ _ hscan
      cases hscan
  | succ fuel ih =>
    exact ⟨fun _ _ _ _ => ih.scanOnce, fun _ _ _ _ => ih.scanMembers, fun _ _ _ _ => ih.scanElements⟩

/-- **A document is within the limits of its reader.** -/
theorem loadsText_fits {v : Value} (h : loadsText L s = .ok v) : v.fits L 0 = true := by
  unfold loadsText at h
  obtain ⟨⟨v', s'⟩, hscan, h⟩ := bind_eq_ok h
  dsimp only at h
  split at h
  · cases h
    exact (within L _).value _ _ _ _ hscan
  · cases h

theorem loads_fits {bytes : List UInt8} {v : Value} (h : loads L bytes = .ok v) : v.fits L 0 = true := by
  rw [loads_eq] at h
  split at h
  · cases h
  · exact loadsText_fits h

end

/-! ## Each name once -/

namespace Value

mutual

/-- No object of it has a name twice. -/
def IsDict : Value → Prop
  | .arr xs => AreDicts xs
  | .obj ms => (ms.map Prod.fst).Nodup ∧ HoldDicts ms
  | _ => True

def AreDicts : List Value → Prop
  | [] => True
  | x :: xs => IsDict x ∧ AreDicts xs

def HoldDicts : List (Text × Value) → Prop
  | [] => True
  | (_, v) :: ms => IsDict v ∧ HoldDicts ms

end

/-- The dict of some pairs, in the order in which it was filled. -/
def dictOf : List (Text × Value) → List (Text × Value)
  | [] => []
  | (name, v) :: ms => (name, (field? ms name).getD v) :: (dictOf ms).filter (·.1 ≠ name)

mutual

def collapse : Value → Value
  | .null => .null
  | .bool b => .bool b
  | .int n => .int n
  | .float x => .float x
  | .str s => .str s
  | .arr xs => .arr (collapseElements xs)
  | .obj ms => .obj (dictOf (collapseMembers ms))

def collapseElements : List Value → List Value
  | [] => []
  | x :: xs => collapse x :: collapseElements xs

def collapseMembers : List (Text × Value) → List (Text × Value)
  | [] => []
  | (name, v) :: ms => (name, collapse v) :: collapseMembers ms

end

theorem holdDicts_iff (ms : List (Text × Value)) : HoldDicts ms ↔ ∀ m ∈ ms, m.2.IsDict := by
  induction ms with
  | nil => exact iff_of_true trivial (List.forall_mem_nil _)
  | cons m ms ih =>
    rw [List.forall_mem_cons, ← ih]
    exact Iff.rfl

theorem field?_mem {ms : List (Text × Value)} {name : Text} {v : Value} (h : field? ms name = some v) :
    (name, v) ∈ ms := by
  obtain ⟨l₁, l₂, heq, -⟩ := List.lookup_eq_some_iff.1 h
  rw [← List.mem_reverse, heq]
  exact List.mem_append_right _ (.head _)

/-- A dict is filled with pairs that were there. -/
theorem dictOf_subset (ms : List (Text × Value)) : ∀ m ∈ dictOf ms, m ∈ ms := by
  induction ms with
  | nil => exact List.forall_mem_nil _
  | cons m ms ih =>
    refine List.forall_mem_cons.2 ⟨?_, fun m' hm' => .tail _ (ih m' (List.mem_of_mem_filter hm'))⟩
    cases hfield : field? ms m.1 with
    | none => exact .head _
    | some v => exact .tail _ (field?_mem hfield)

theorem nodup_dictOf (ms : List (Text × Value)) : ((dictOf ms).map Prod.fst).Nodup := by
  induction ms with
  | nil => exact List.nodup_nil
  | cons m ms ih =>
    refine List.nodup_cons.2 ⟨fun hmem => ?_, ?_⟩
    · obtain ⟨m', hm', heq⟩ := List.mem_map.1 hmem
      exact absurd heq (of_decide_eq_true (List.mem_filter.1 hm').2)
    · exact ih.sublist (List.filter_sublist.map _)

theorem dictOf_of_nodup {ms : List (Text × Value)} (h : (ms.map Prod.fst).Nodup) : dictOf ms = ms := by
  induction ms with
  | nil => rfl
  | cons m ms ih =>
    obtain ⟨hnotMem, hnodup⟩ := List.nodup_cons.1 h
    have hother : ∀ m' ∈ ms, m'.1 ≠ m.1 := fun m' hm' heq => hnotMem (List.mem_map.2 ⟨m', hm', heq⟩)
    have hfield : field? ms m.1 = none := by
      cases hfield : field? ms m.1 with
      | none => rfl
      | some v => exact absurd rfl (hother (m.1, v) (field?_mem hfield))
    rw [dictOf, hfield, ih hnodup, List.filter_eq_self.2 fun m' hm' => decide_eq_true (hother m' hm')]
    rfl

mutual

theorem isDict_collapse : ∀ v : Value, v.collapse.IsDict
  | .null | .bool _ | .int _ | .float _ | .str _ => trivial
  | .arr xs => areDicts_collapse xs
  | .obj ms => by
    refine ⟨nodup_dictOf _, (holdDicts_iff _).2 fun m hm => ?_⟩
    exact (holdDicts_iff _).1 (holdDicts_collapse ms) m (dictOf_subset _ m hm)

theorem areDicts_collapse : ∀ xs : List Value, AreDicts (collapseElements xs)
  | [] => trivial
  | x :: xs => ⟨isDict_collapse x, areDicts_collapse xs⟩

theorem holdDicts_collapse : ∀ ms : List (Text × Value), HoldDicts (collapseMembers ms)
  | [] => trivial
  | (_, v) :: ms => ⟨isDict_collapse v, holdDicts_collapse ms⟩

end

mutual

theorem collapse_of_isDict : ∀ v : Value, v.IsDict → v.collapse = v
  | .null, _ | .bool _, _ | .int _, _ | .float _, _ | .str _, _ => rfl
  | .arr xs, h => congrArg Value.arr (collapse_of_areDicts xs h)
  | .obj ms, h => by
    show Value.obj (dictOf (collapseMembers ms)) = _
    rw [collapse_of_holdDicts ms h.2, dictOf_of_nodup h.1]

theorem collapse_of_areDicts : ∀ xs : List Value, AreDicts xs → collapseElements xs = xs
  | [], _ => rfl
  | x :: xs, h => congrArg₂ List.cons (collapse_of_isDict x h.1) (collapse_of_areDicts xs h.2)

theorem collapse_of_holdDicts : ∀ ms : List (Text × Value), HoldDicts ms → collapseMembers ms = ms
  | [], _ => rfl
  | (name, v) :: ms, h =>
    congrArg₂ (fun v ms => (name, v) :: ms) (collapse_of_isDict v h.1) (collapse_of_holdDicts ms h.2)

end

theorem fitsElements_iff {L : Limits} {depth : Nat} (xs : List Value) :
    fitsElements L xs depth = true ↔ ∀ x ∈ xs, x.fits L depth = true := by
  induction xs with
  | nil => exact iff_of_true rfl (List.forall_mem_nil _)
  | cons x xs ih =>
    rw [List.forall_mem_cons, ← ih]
    exact Bool.and_eq_true_iff

theorem fitsMembers_iff {L : Limits} {depth : Nat} (ms : List (Text × Value)) :
    fitsMembers L ms depth = true ↔ ∀ m ∈ ms, m.2.fits L depth = true := by
  induction ms with
  | nil => exact iff_of_true rfl (List.forall_mem_nil _)
  | cons m ms ih =>
    rw [List.forall_mem_cons, ← ih]
    exact Bool.and_eq_true_iff

mutual

/-- A dict has no more in it than its object. -/
theorem fits_collapse {L : Limits} : ∀ (v : Value) (depth : Nat), v.fits L depth = true →
    v.collapse.fits L depth = true
  | .null, _, _ | .bool _, _, _ | .float _, _, _ | .str _, _, _ => rfl
  | .int _, _, h => h
  | .arr xs, depth, h => by
    obtain ⟨hdepth, hxs⟩ := Bool.and_eq_true_iff.1 h
    exact Bool.and_eq_true_iff.2 ⟨hdepth, fitsElements_collapse xs (depth + 1) hxs⟩
  | .obj ms, depth, h => by
    obtain ⟨hdepth, hms⟩ := Bool.and_eq_true_iff.1 h
    have hcollapsed := (fitsMembers_iff _).1 (fitsMembers_collapse ms (depth + 1) hms)
    exact Bool.and_eq_true_iff.2
      ⟨hdepth, (fitsMembers_iff _).2 fun m hm => hcollapsed m (dictOf_subset _ m hm)⟩

theorem fitsElements_collapse {L : Limits} : ∀ (xs : List Value) (depth : Nat),
    fitsElements L xs depth = true → fitsElements L (collapseElements xs) depth = true
  | [], _, _ => rfl
  | x :: xs, depth, h => by
    obtain ⟨hx, hxs⟩ := Bool.and_eq_true_iff.1 h
    exact Bool.and_eq_true_iff.2 ⟨fits_collapse x depth hx, fitsElements_collapse xs depth hxs⟩

theorem fitsMembers_collapse {L : Limits} : ∀ (ms : List (Text × Value)) (depth : Nat),
    fitsMembers L ms depth = true → fitsMembers L (collapseMembers ms) depth = true
  | [], _, _ => rfl
  | (_, v) :: ms, depth, h => by
    obtain ⟨hv, hms⟩ := Bool.and_eq_true_iff.1 h
    exact Bool.and_eq_true_iff.2 ⟨fits_collapse v depth hv, fitsMembers_collapse ms depth hms⟩

end

end Value

end Json
