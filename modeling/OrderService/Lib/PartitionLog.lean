import Mathlib.Data.List.Basic
import Mathlib.Logic.Function.Basic

/-!
# How far a partitioned log was read

A log has lanes, and an entry at some of the offsets of each. A reader takes the entries of a lane in
order, and those of different lanes in any order: `Consumed laneOf log next as` says that the entries `as`
are those before the offsets `next`, each taken once. Offsets between which there is no entry are the same
place (`readTo_congr`).
-/

namespace PartitionLog

variable {Λ α : Type} {log : Λ → Nat → Option α} {lane : Λ} {i j : Nat}

/-- The entries of a lane before offset `n`, in order. -/
def readTo (log : Λ → Nat → Option α) (lane : Λ) (n : Nat) : List α := (List.range n).filterMap (log lane)

theorem readTo_succ (log : Λ → Nat → Option α) (lane : Λ) (n : Nat) :
    readTo log lane (n + 1) = readTo log lane n ++ (log lane n).toList := by
  unfold readTo
  rw [List.range_succ, List.filterMap_append]
  cases h : log lane n <;> simp [h]

theorem readTo_of_gap (hij : i ≤ j) (hgap : ∀ o, i ≤ o → o < j → log lane o = none) :
    readTo log lane j = readTo log lane i := by
  induction hij with
  | refl => rfl
  | step hij ih =>
    rename_i j
    have hlast : log lane j = none := hgap j hij (Nat.lt_succ_self j)
    rw [readTo_succ, hlast, ih fun o hio hoj => hgap o hio (Nat.lt_succ_of_lt hoj)]
    simp

/-- Two offsets before the same entries. -/
theorem readTo_congr (h : ∀ o, (log lane o).isSome = true → (i ≤ o ↔ j ≤ o)) :
    readTo log lane i = readTo log lane j := by
  have hnone : ∀ o, ¬ (i ≤ o ↔ j ≤ o) → log lane o = none := by
    intro o hne
    cases ho : log lane o with
    | none => rfl
    | some a => exact absurd (h o (by simp [ho])) hne
  obtain hij | hji := Nat.le_total i j
  · exact (readTo_of_gap hij fun o hio hoj => hnone o (by omega)).symm
  · exact readTo_of_gap hji fun o hjo hoi => hnone o (by omega)

variable [DecidableEq Λ] {laneOf : α → Λ} {next : Λ → Nat} {as : List α} {a : α}

/-- The entries `as` are those of the log before the offsets `next`, lane by lane. -/
def Consumed (laneOf : α → Λ) (log : Λ → Nat → Option α) (next : Λ → Nat) (as : List α) : Prop :=
  ∀ lane, as.filter (laneOf · = lane) = readTo log lane (next lane)

theorem Consumed.nil (laneOf : α → Λ) (log : Λ → Nat → Option α) : Consumed laneOf log (fun _ => 0) [] :=
  fun _ => rfl

/-- The next entry of its lane is taken. -/
theorem Consumed.concat (h : Consumed laneOf log next as) (ha : log (laneOf a) i = some a)
    (hplace : ∀ o, (log (laneOf a) o).isSome = true → (i ≤ o ↔ next (laneOf a) ≤ o)) :
    Consumed laneOf log (Function.update next (laneOf a) (i + 1)) (as ++ [a]) := by
  intro lane
  rw [List.filter_append, h lane]
  by_cases hlane : lane = laneOf a
  · subst hlane
    rw [Function.update_self, readTo_succ, readTo_congr hplace, ha]
    simp
  · rw [Function.update_of_ne hlane]
    simp [Ne.symm hlane]

end PartitionLog
