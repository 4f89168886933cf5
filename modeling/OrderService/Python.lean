import Mathlib.Data.List.Sort
import Mathlib.Data.List.Dedup
import Mathlib.Tactic.Common

/-!
# The Python standard library, as far as the service uses it

`Stdlib` collects the conversions between text and numbers or times. Each is a parameter of the
model: every theorem holds whatever text they accept. Times are microseconds since the epoch.
-/

namespace OrderService

/-- A parsed `datetime`: with a UTC offset (its instant is known) or without one. -/
inductive Datetime where
  | aware (instant : Int)
  | naive (reading : Int)
deriving DecidableEq, Repr

structure Stdlib where
  /-- `int(text)`; `none` is `ValueError`. -/
  int : String → Option Int
  /-- `datetime.fromisoformat(text)`; `none` is `ValueError`. -/
  fromisoformat : String → Option Datetime
  /-- `datetime.isoformat()` of a UTC instant. -/
  isoformat : Int → String
  /-- `datetime.fromtimestamp(ms / 1000, tz=utc).isoformat()`; `none` when `ms` is out of the range
  of a `datetime`. -/
  fromtimestamp : Int → Option String

/-- `str.isspace` of one character. -/
def isSpace (c : Char) : Bool :=
  let n := c.toNat
  (9 ≤ n && n ≤ 13) || (28 ≤ n && n ≤ 32) || n = 0x85 || n = 0xa0 || n = 0x1680 ||
    (0x2000 ≤ n && n ≤ 0x200a) || n = 0x2028 || n = 0x2029 || n = 0x202f || n = 0x205f || n = 0x3000

/-- `str.strip()`. -/
def strip (s : String) : String :=
  String.ofList (((s.toList.dropWhile isSpace).reverse.dropWhile isSpace).reverse)

/-- `sorted(set(xs))`. -/
def sortedSet (xs : List Nat) : List Nat := xs.dedup.insertionSort (· ≤ ·)

@[simp] theorem mem_sortedSet {x : Nat} {xs : List Nat} : x ∈ sortedSet xs ↔ x ∈ xs := by
  simp [sortedSet]

@[simp] theorem sortedSet_nil : sortedSet [] = [] := rfl

theorem nodup_sortedSet (xs : List Nat) : (sortedSet xs).Nodup :=
  (List.perm_insertionSort _ _).nodup_iff.2 xs.nodup_dedup

/-- A loop over a set comes to each element once. -/
theorem sortedSet_next {xs pre post : List Nat} {x : Nat} (h : sortedSet xs = pre ++ x :: post) :
    x ∈ xs ∧ x ∉ pre := by
  have hmem : x ∈ sortedSet xs := by
    rw [h]
    exact List.mem_append_right _ (.head _)
  have hnodup := nodup_sortedSet xs
  rw [h] at hnodup
  exact ⟨mem_sortedSet.1 hmem, fun hpre => List.disjoint_of_nodup_append hnodup hpre (.head _)⟩

end OrderService
