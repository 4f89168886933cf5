import OrderService.Lib.Threads

/-!
# Methods under one lock

A `Monitor` is a state with methods `o : O`; the body of a method is a program of single accesses to
the state, and it runs under the lock of the monitor. `Callers` is a family of threads that call its
methods: a step lets one of them take the lock, make the next access of the method it is in, or return
from it; a thread that finds the lock taken waits. `throughout` is the rule: what each method keeps
when it runs alone holds in every interleaving, whenever the lock is free.
-/

namespace Threads

open Eff

variable {O A : Type} {R : O → Type} {Q : A → Type} {α ι σ : Type}

structure Monitor (R : O → Type) (Q : A → Type) (σ : Type) where
  body : (o : O) → Prog Q (R o)
  access : (a : A) → σ → Q a × σ

namespace Monitor

/-- A method that runs alone. -/
def exec (m : Monitor R Q σ) (o : O) (s : σ) : R o × σ := (m.body o).run m.access s

/-- Where the thread that holds the lock is: the method, what is left of its body, and what the
thread does with the answer. -/
structure Inside (R : O → Type) (Q : A → Type) (α : Type) where
  method : O
  rest : Prog Q (R method)
  resume : R method → Prog R α

/-- `returned`: the calls that returned, with their answers, in the order they held the lock. -/
structure Callers (R : O → Type) (Q : A → Type) (α ι σ : Type) where
  threads : ι → Prog R α
  holder : Option (ι × Inside R Q α) := none
  shared : σ
  returned : List ((o : O) × R o) := []

variable [DecidableEq ι] (m : Monitor R Q σ)

def advance (i : ι) (s : Callers R Q α ι σ) : Callers R Q α ι σ :=
  match s.holder with
  | none =>
    match s.threads i with
    | .done _ => s
    | .op o k => { s with holder := some (i, ⟨o, m.body o, k⟩) }
  | some (j, c) =>
    if j = i then
      match c.rest with
      | .op a k =>
        { s with
          holder := some (i, { c with rest := k (m.access a s.shared).1 })
          shared := (m.access a s.shared).2 }
      | .done r =>
        { s with
          threads := Function.update s.threads i (c.resume r)
          holder := none
          returned := s.returned ++ [⟨c.method, r⟩] }
    else s

/-- The step of the system: some thread moves, or waits. -/
def step (i : ι) : Eff (Callers R Q α ι σ) Empty PUnit := modify (advance m i)

variable {m} {J : List ((o : O) × R o) → σ → Prop} {s : Callers R Q α ι σ} {l : List ι}

/-- `J` holds of the calls that returned and of the state, or of the state in which the method under
way took the lock: run to its end, that method would answer and leave what it does alone. -/
def Under (m : Monitor R Q σ) (J : List ((o : O) × R o) → σ → Prop) (s : Callers R Q α ι σ) : Prop :=
  match s.holder with
  | none => J s.returned s.shared
  | some (_, c) => ∃ s₀, J s.returned s₀ ∧ c.rest.run m.access s.shared = m.exec c.method s₀

/-- The step lemma: the state matters only when a method begins, what it did only when it ends. -/
theorem Under.advance
    (hmethod : ∀ calls s o, J calls s → J (calls ++ [⟨o, (m.exec o s).1⟩]) (m.exec o s).2)
    (h : Under m J s) (i : ι) : Under m J (advance m i s) := by
  obtain ⟨threads, holder, shared, returned⟩ := s
  cases holder with
  | none =>
    simp only [Monitor.advance]
    cases threads i with
    | done a => exact h
    | op o k => exact ⟨shared, h, rfl⟩
  | some holder =>
    obtain ⟨j, c⟩ := holder
    simp only [Monitor.advance]
    by_cases hj : j = i
    · rw [if_pos hj]
      obtain ⟨method, rest, resume⟩ := c
      obtain ⟨s₀, hJ, hrun⟩ := h
      cases rest with
      | op a k => exact ⟨s₀, hJ, hrun⟩
      | done r =>
        have hnext := hmethod returned s₀ method hJ
        rw [← hrun] at hnext
        exact hnext
    · rw [if_neg hj]
      exact h

/-- **The monitor rule**: what every method keeps when it runs alone, every interleaving of the
threads keeps. -/
theorem throughout
    (hmethod : ∀ calls s o, J calls s → J (calls ++ [⟨o, (m.exec o s).1⟩]) (m.exec o s).2)
    (hfree : s.holder = none) (hJ : J s.returned s.shared) :
    Throughout (step m) (fun t => t.holder = none → J t.returned t.shared) l s := by
  have hstep : ∀ (t : Callers R Q α ι σ) i, Under m J t → True →
      wp (step m i) (fun _ => Under m J) (fun _ _ => False) t := fun t i ht _ => ht.advance hmethod i
  have hstart : Under m J s := by simpa only [Under, hfree] using hJ
  refine throughout_of_invariant hstep (fun t ht hnone => ?_) hstart
    (along_of_forall (fun _ _ => trivial) l s)
  simpa only [Under, hnone] using ht

end Monitor

end Threads
