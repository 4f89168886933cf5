import Mathlib.Data.List.Nodup

/-!
# Effects between two marks

Things have a lane and a place in it, and each lane a mark that only rises. `Between low high as` says that
the things `as` are distinct and lie between the marks `low` and `high` of their lanes. Such stretches follow
one another (`Between.append`), so whatever stops and goes on at the mark does nothing twice, and nothing
below the mark it goes on from (`Between.not_mem`).
-/

namespace Watermark

variable {Λ α : Type} {lane : α → Λ} {place : α → Nat} {low mid high : Λ → Nat} {as bs : List α} {a : α}

structure Between (lane : α → Λ) (place : α → Nat) (low high : Λ → Nat) (as : List α) : Prop where
  le : ∀ l, low l ≤ high l
  nodup : as.Nodup
  above : ∀ a ∈ as, low (lane a) ≤ place a
  below : ∀ a ∈ as, place a < high (lane a)

/-- The marks rise, and nothing is done. -/
theorem Between.nil (h : ∀ l, low l ≤ high l) : Between lane place low high [] :=
  ⟨h, List.nodup_nil, by simp, by simp⟩

theorem Between.single (hle : ∀ l, low l ≤ high l) (habove : low (lane a) ≤ place a)
    (hbelow : place a < high (lane a)) : Between lane place low high [a] := by
  refine ⟨hle, List.nodup_singleton a, fun b hb => ?_, fun b hb => ?_⟩
  · rwa [List.mem_singleton.1 hb]
  · rwa [List.mem_singleton.1 hb]

theorem Between.append (h : Between lane place low mid as) (h' : Between lane place mid high bs) :
    Between lane place low high (as ++ bs) where
  le l := Nat.le_trans (h.le l) (h'.le l)
  nodup := by
    refine List.nodup_append.2 ⟨h.nodup, h'.nodup, fun a ha b hb heq => ?_⟩
    subst heq
    exact Nat.lt_irrefl _ (Nat.lt_of_lt_of_le (h.below a ha) (h'.above a hb))
  above a ha := by
    rcases List.mem_append.1 ha with ha | ha
    · exact h.above a ha
    · exact Nat.le_trans (h.le _) (h'.above a ha)
  below a ha := by
    rcases List.mem_append.1 ha with ha | ha
    · exact Nat.lt_of_lt_of_le (h.below a ha) (h'.le _)
    · exact h'.below a ha

/-- What is below the first mark is not among them. -/
theorem Between.not_mem (h : Between lane place low high as) (ha : place a < low (lane a)) : a ∉ as :=
  fun hmem => Nat.not_lt.2 (h.above a hmem) ha

end Watermark
