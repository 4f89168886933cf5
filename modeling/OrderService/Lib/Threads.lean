import OrderService.Lib.Run

/-!
# Threads over a shared state

`Prog R α` is a program that performs operations `o : O` one at a time, each answered by an `R o`,
and ends in an `α`. A `Pool` is a family of such programs over one shared state. Its step performs
the next operation of one thread, so the runs of `step` are the interleavings of the threads, each
operation being atomic. `next` is the operation a program is about to perform; `step_op` and
`step_done` are the two things a step can do.
-/

namespace Threads

open Eff

variable {O : Type} {R : O → Type} {α β ι σ δ : Type}

inductive Prog (R : O → Type) (α : Type) : Type
  | done (a : α) : Prog R α
  | op (o : O) (k : R o → Prog R α) : Prog R α

namespace Prog

def bind : Prog R α → (α → Prog R β) → Prog R β
  | .done a, f => f a
  | .op o k, f => .op o fun r => (k r).bind f

instance : Monad (Prog R) where
  pure := .done
  bind := bind

def perform (o : O) : Prog R (R o) := .op o .done

/-- The program run to its end with nothing in between: the result and the state it leaves. -/
def run (exec : (o : O) → σ → R o × σ) : Prog R α → σ → α × σ
  | .done a, s => (a, s)
  | .op o k, s => (k (exec o s).1).run exec (exec o s).2

/-- The operations of that run. -/
def trace (exec : (o : O) → σ → R o × σ) : Prog R α → σ → List O
  | .done _, _ => []
  | .op o k, s => o :: (k (exec o s).1).trace exec (exec o s).2

/-- The operation the program performs next. -/
def next : Prog R α → Option O
  | .done _ => none
  | .op o _ => some o

@[simp] theorem run_pure (exec : (o : O) → σ → R o × σ) (a : α) (s : σ) :
    (pure a : Prog R α).run exec s = (a, s) := rfl

@[simp] theorem run_perform (exec : (o : O) → σ → R o × σ) (o : O) (s : σ) :
    (perform o : Prog R (R o)).run exec s = exec o s := rfl

/-- A program goes on where its first part ended. -/
@[simp] theorem run_bind (exec : (o : O) → σ → R o × σ) (p : Prog R α) (f : α → Prog R β) (s : σ) :
    (p >>= f).run exec s = (f (p.run exec s).1).run exec (p.run exec s).2 := by
  induction p generalizing s with
  | done a => rfl
  | op o k ih => exact ih _ _

@[simp] theorem next_done (a : α) : (done a : Prog R α).next = none := rfl

@[simp] theorem next_op (o : O) (k : R o → Prog R α) : (op o k).next = some o := rfl

/-- The program ends after `n` operations or less, whatever they answer. -/
inductive Within : Nat → Prog R α → Prop
  | done {n : Nat} (a : α) : Within n (.done a)
  | op {n : Nat} {o : O} {k : R o → Prog R α} : (∀ r, Within n (k r)) → Within (n + 1) (.op o k)

end Prog

/-- A family of programs and the state they share. -/
structure Pool (R : O → Type) (α ι σ : Type) where
  threads : ι → Prog R α
  shared : σ

namespace Pool

variable [DecidableEq ι] (exec : δ → (o : O) → σ → R o × σ)

/-- Thread `i` performs its next operation, under what the environment `d` decides. -/
def advance (i : ι) (d : δ) (s : Pool R α ι σ) : Pool R α ι σ :=
  match s.threads i with
  | .done _ => s
  | .op o k =>
    { threads := Function.update s.threads i (k (exec d o s.shared).1)
      shared := (exec d o s.shared).2 }

/-- The step of the system: some thread moves. -/
def step (l : ι × δ) : Eff (Pool R α ι σ) Empty PUnit := modify (advance exec l.1 l.2)

variable {exec} {i j : ι} {d : δ} {o : O} {k : R o → Prog R α} {s t : Pool R α ι σ}

@[simp] theorem exec_step (l : ι × δ) : (step exec l).exec s = (.ok ⟨⟩, advance exec l.1 l.2 s) := rfl

theorem advance_done {a : α} (h : s.threads i = .done a) : advance exec i d s = s := by
  simp only [advance, h]

section op

variable (h : s.threads i = .op o k)
include h

theorem advance_op : advance exec i d s =
    { threads := Function.update s.threads i (k (exec d o s.shared).1)
      shared := (exec d o s.shared).2 } := by
  simp only [advance, h]

theorem shared_advance : (advance exec i d s).shared = (exec d o s.shared).2 := by
  rw [advance_op h]

theorem threads_advance_self :
    (advance exec i d s).threads i = k (exec d o s.shared).1 := by
  rw [advance_op h]
  exact Function.update_self _ _ _

theorem threads_advance_of_ne (hj : j ≠ i) : (advance exec i d s).threads j = s.threads j := by
  rw [advance_op h]
  exact Function.update_of_ne hj _ _

end op

/-- The state after a run. -/
def after (exec : δ → (o : O) → σ → R o × σ) (l : List (ι × δ)) (s : Pool R α ι σ) :
    Pool R α ι σ :=
  l.foldl (fun s l => advance exec l.1 l.2 s) s

theorem after_append (l l' : List (ι × δ)) (s : Pool R α ι σ) :
    after exec (l ++ l') s = after exec l' (after exec l s) := List.foldl_append

variable (exec) in
theorem exec_run : ∀ (l : List (ι × δ)) (s : Pool R α ι σ),
    (l.forM (step exec)).exec s = (.ok ⟨⟩, after exec l s)
  | [], _ => rfl
  | i :: l, s => by
    change (step exec i >>= fun _ => l.forM (step exec)).exec s = _
    rw [exec_bind, exec_step]
    exact exec_run l _

end Pool

/-! ## Recorded runs -/

/-- An operation that a thread performed. -/
structure Move (O σ : Type) where
  op : O
  before : σ
  after : σ

/-- A pool, and what each thread did so far. -/
structure Recorded {O : Type} (R : O → Type) (α ι σ : Type) where
  pool : Pool R α ι σ
  moves : ι → List (Move O σ) := fun _ => []

namespace Recorded

variable [DecidableEq ι] (exec : δ → (o : O) → σ → R o × σ)

def advance (i : ι) (d : δ) (s : Recorded R α ι σ) : Recorded R α ι σ :=
  match s.pool.threads i with
  | .done _ => s
  | .op o _ =>
    { pool := s.pool.advance exec i d
      moves := Function.update s.moves i
        (s.moves i ++ [⟨o, s.pool.shared, (exec d o s.pool.shared).2⟩]) }

def step (l : ι × δ) : Eff (Recorded R α ι σ) Empty PUnit := modify (advance exec l.1 l.2)

variable {exec} {i j : ι} {d : δ} {o : O} {k : R o → Prog R α} {s : Recorded R α ι σ}

theorem advance_done {a : α} (h : s.pool.threads i = .done a) : advance exec i d s = s := by
  simp only [advance, h]

theorem pool_advance : (advance exec i d s).pool = s.pool.advance exec i d := by
  cases h : s.pool.threads i with
  | done a => rw [advance_done h, Pool.advance_done h]
  | op o k => simp only [advance, h]

theorem moves_advance_self (h : s.pool.threads i = .op o k) : (advance exec i d s).moves i =
    s.moves i ++ [⟨o, s.pool.shared, (exec d o s.pool.shared).2⟩] := by
  simp only [advance, h]
  exact Function.update_self _ _ _

theorem moves_advance_of_ne (hj : j ≠ i) : (advance exec i d s).moves j = s.moves j := by
  cases h : s.pool.threads i with
  | done a => rw [advance_done h]
  | op o k =>
    simp only [advance, h]
    exact Function.update_of_ne hj _ _

/-- Each thread ends within `n` operations, those it performed included. -/
def Bounded (n : Nat) (s : Recorded R α ι σ) : Prop :=
  ∀ i, ∃ left, (s.moves i).length + left = n ∧ (s.pool.threads i).Within left

theorem Bounded.advance {n : Nat} (h : Bounded n s) : Bounded n (advance exec i d s) := by
  intro j
  obtain ⟨left, hleft, hwithin⟩ := h j
  rcases hp : s.pool.threads i with a | ⟨o, k⟩
  · rw [advance_done hp]
    exact ⟨left, hleft, hwithin⟩
  · obtain rfl | hj := eq_or_ne j i
    · rw [hp] at hwithin
      cases hwithin with
      | @op m _ _ hnext =>
        refine ⟨m, ?_, ?_⟩
        · rw [moves_advance_self hp, List.length_append, List.length_singleton]
          omega
        · rw [pool_advance, Pool.threads_advance_self hp]
          exact hnext _
    · refine ⟨left, ?_, ?_⟩
      · rw [moves_advance_of_ne hj]
        exact hleft
      · rw [pool_advance, Pool.threads_advance_of_ne hp hj]
        exact hwithin

omit [DecidableEq ι] in
/-- A thread that performed `n` operations is done. -/
theorem Bounded.ended {n : Nat} (h : Bounded n s) (hn : n ≤ (s.moves i).length) :
    ∃ a, s.pool.threads i = .done a := by
  obtain ⟨left, hleft, hwithin⟩ := h i
  obtain rfl : left = 0 := by omega
  cases hp : s.pool.threads i with
  | done a => exact ⟨a, rfl⟩
  | op o k =>
    rw [hp] at hwithin
    cases hwithin

end Recorded

end Threads
