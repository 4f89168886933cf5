import Mathlib.Tactic.Common

/-!
# Effects whose state survives an exception

`Eff σ ε α` is a computation over a state `σ` that returns an `α` or raises an `ε`; what it wrote
before raising stays written, as in Python or Java. `Eff.wp x Q E s` says that `x`, run from `s`,
returns into `Q` or raises into `E`. One equation per control construct (`wp_bind`, `wp_tryCatch`,
`wp_tryFinally`, ...) turns a program into its weakest precondition; `wp_mono` plugs in what is
known of a callee; `wp_forM` is the rule of a loop over a list.
-/

/-- A computation over a state `σ`, which keeps the state when it raises. -/
abbrev Eff (σ ε : Type) := ExceptT ε (StateM σ)

namespace Eff

variable {σ ε α β : Type}

/-- Run from a state: the result or the exception, and the state left behind. -/
def exec (x : Eff σ ε α) (s : σ) : Except ε α × σ := StateT.run (ExceptT.run x) s

/-- The outcome is a return into `Q` or a raise into `E`. -/
def Post (Q : α → σ → Prop) (E : ε → σ → Prop) : Except ε α × σ → Prop
  | (.ok a, s) => Q a s
  | (.error e, s) => E e s

/-- From `s`, `x` returns into `Q` or raises into `E`. -/
def wp (x : Eff σ ε α) (Q : α → σ → Prop) (E : ε → σ → Prop) (s : σ) : Prop := Post Q E (x.exec s)

/-! ## Execution -/

theorem exec_eq_of_ok {x : Eff σ ε PUnit} {s : σ} (h : (x.exec s).1 = .ok ⟨⟩) :
    x.exec s = (.ok ⟨⟩, (x.exec s).2) := Prod.ext h rfl

theorem exec_bind (x : Eff σ ε α) (f : α → Eff σ ε β) (s : σ) :
    (x >>= f).exec s = match x.exec s with
      | (.ok a, s') => (f a).exec s'
      | (.error e, s') => (.error e, s') := by
  unfold exec ExceptT.run StateT.run
  simp only [bind, ExceptT.bind, ExceptT.mk, StateT.bind, ExceptT.bindCont]
  rcases x s with ⟨_ | _, _⟩ <;> rfl

theorem exec_tryCatch (x : Eff σ ε α) (h : ε → Eff σ ε α) (s : σ) :
    (tryCatch x h).exec s = match x.exec s with
      | (.ok a, s') => (.ok a, s')
      | (.error e, s') => (h e).exec s' := by
  unfold exec ExceptT.run StateT.run
  simp only [tryCatch, MonadExcept.tryCatch, tryCatchThe, MonadExceptOf.tryCatch,
    ExceptT.tryCatch, ExceptT.mk, bind, StateT.bind]
  rcases x s with ⟨_ | _, _⟩ <;> rfl

theorem exec_tryFinally (x : Eff σ ε α) (f : Eff σ ε PUnit) (s : σ) :
    (tryFinally x f).exec s = match x.exec s, f.exec (x.exec s).2 with
      | (r, _), (.ok _, s') => (r, s')
      | _, (.error e, s') => (.error e, s') := by
  unfold exec ExceptT.run StateT.run
  simp only [tryFinally, MonadFinally.tryFinally', ExceptT.mk, bind, StateT.bind, Functor.map,
    ExceptT.map]
  rcases x s with ⟨e | a, s'⟩
  · rcases h : f s' with ⟨_ | _, _⟩ <;> simp [h] <;> rfl
  · rcases h : f s' with ⟨_ | _, _⟩ <;> simp [h] <;> rfl

/-! ## Weakest preconditions -/

variable {Q : α → σ → Prop} {E : ε → σ → Prop} {s : σ}

theorem wp_iff_forall {x : Eff σ ε α} :
    wp x Q E s ↔ (∀ a t, x.exec s = (.ok a, t) → Q a t) ∧ ∀ e t, x.exec s = (.error e, t) → E e t := by
  unfold wp
  rcases x.exec s with ⟨_ | _, _⟩ <;> simp [Post]

@[simp] theorem wp_pure {a : α} : wp (pure a : Eff σ ε α) Q E s ↔ Q a s := Iff.rfl

@[simp] theorem wp_throw {e : ε} : wp (throw e : Eff σ ε α) Q E s ↔ E e s := Iff.rfl

@[simp] theorem wp_get {Q : σ → σ → Prop} : wp (get : Eff σ ε σ) Q E s ↔ Q s s := Iff.rfl

@[simp] theorem wp_modify {Q : PUnit → σ → Prop} {f : σ → σ} :
    wp (modify f : Eff σ ε PUnit) Q E s ↔ Q ⟨⟩ (f s) := Iff.rfl

@[simp] theorem wp_bind {x : Eff σ ε β} {f : β → Eff σ ε α} :
    wp (x >>= f) Q E s ↔ wp x (fun b t => wp (f b) Q E t) E s := by
  unfold wp
  rw [exec_bind]
  rcases x.exec s with ⟨_ | _, _⟩ <;> rfl

@[simp] theorem wp_tryCatch {x : Eff σ ε α} {h : ε → Eff σ ε α} :
    wp (tryCatch x h) Q E s ↔ wp x Q (fun e t => wp (h e) Q E t) s := by
  unfold wp
  rw [exec_tryCatch]
  rcases x.exec s with ⟨_ | _, _⟩ <;> rfl

@[simp] theorem wp_tryFinally {x : Eff σ ε α} {f : Eff σ ε PUnit} :
    wp (tryFinally x f) Q E s ↔
      wp x (fun a t => wp f (fun _ u => Q a u) E t) (fun e t => wp f (fun _ u => E e u) E t) s := by
  unfold wp
  rw [exec_tryFinally]
  rcases x.exec s with ⟨_ | _, s'⟩ <;> rcases hf : f.exec s' with ⟨_ | _, _⟩ <;> simp [Post, hf]

@[simp] theorem wp_ite {c : Prop} [Decidable c] {x y : Eff σ ε α} :
    wp (if c then x else y) Q E s ↔ (c → wp x Q E s) ∧ (¬ c → wp y Q E s) := by
  split <;> simp_all

theorem wp_mono {Q' : α → σ → Prop} {E' : ε → σ → Prop} {x : Eff σ ε α} (h : wp x Q' E' s)
    (hQ : ∀ a t, Q' a t → Q a t) (hE : ∀ e t, E' e t → E e t) : wp x Q E s := by
  unfold wp at *
  revert h
  rcases x.exec s with ⟨_ | _, _⟩
  · exact hE _ _
  · exact hQ _ _

theorem wp_and {Q' : α → σ → Prop} {E' : ε → σ → Prop} {x : Eff σ ε α} (h : wp x Q E s)
    (h' : wp x Q' E' s) : wp x (fun a t => Q a t ∧ Q' a t) (fun e t => E e t ∧ E' e t) s := by
  unfold wp at *
  revert h h'
  rcases x.exec s with ⟨_ | _, _⟩
  · exact And.intro
  · exact And.intro

theorem wp_of_forall {x : Eff σ ε α} (hQ : ∀ a t, Q a t) (hE : ∀ e t, E e t) : wp x Q E s :=
  wp_iff_forall.2 ⟨fun a t _ => hQ a t, fun e t _ => hE e t⟩

/-- A computation does not return into `Q` if it always raises or returns outside of `Q`. -/
theorem wp_absurd {x : Eff σ ε α} (h : wp x Q (fun _ _ => False) s)
    (h' : wp x (fun a t => ¬ Q a t) (fun _ _ => True) s) : False := by
  unfold wp at h h'
  revert h h'
  rcases x.exec s with ⟨_ | _, _⟩
  · exact fun h _ => h
  · exact fun h h' => h' h

/-- What holds of the outcome holds of the outcome that `x` really has. -/
theorem wp_exec {x : Eff σ ε α} (h : wp x Q E s) :
    wp x (fun a t => x.exec s = (.ok a, t) ∧ Q a t) E s := by
  obtain ⟨hok, herr⟩ := wp_iff_forall.1 h
  exact wp_iff_forall.2 ⟨fun a t ht => ⟨ht, hok a t ht⟩, herr⟩

theorem exec_of_wp {x : Eff σ ε α} {r : Except ε α} {t : σ} (h : wp x Q E s)
    (hx : x.exec s = (r, t)) : Post Q E (r, t) := by
  unfold wp at h
  rwa [hx] at h

/-- What holds however `x` ends holds of the state it leaves. -/
theorem left_of_wp {x : Eff σ ε α} {R : σ → Prop} (h : wp x (fun _ => R) (fun _ => R) s) :
    R (x.exec s).2 := by
  unfold wp at h
  revert h
  rcases x.exec s with ⟨_ | _, _⟩
  · exact id
  · exact id

/-- A loop over a list keeps what each iteration keeps. -/
theorem wp_forM {I : σ → Prop} {f : β → Eff σ ε PUnit} :
    ∀ {l : List β} {s : σ}, I s → (∀ b ∈ l, ∀ s, I s → wp (f b) (fun _ => I) E s) →
      wp (l.forM f) (fun _ => I) E s
  | [], _, h, _ => h
  | b :: l, s, h, hf => by
    change wp (f b >>= fun _ => l.forM f) _ _ _
    rw [wp_bind]
    exact wp_mono (hf b (.head _) s h) (fun _ t ht => wp_forM ht fun b hb => hf b (.tail _ hb))
      fun _ _ he => he

/-- A loop over two lists goes on where the first one ended. -/
theorem exec_forM_append {f : β → Eff σ ε PUnit} {l₁ l₂ : List β} {s t : σ}
    (h : (l₁.forM f).exec s = (.ok ⟨⟩, t)) : ((l₁ ++ l₂).forM f).exec s = (l₂.forM f).exec t := by
  have happend : (l₁ ++ l₂).forM f = l₁.forM f >>= fun _ => l₂.forM f := List.forM_append
  rw [happend, exec_bind, h]

/-- A loop that returns has returned from its first iteration, and goes on from there. -/
theorem exec_forM_cons {f : β → Eff σ ε PUnit} {b : β} {l : List β} {s t : σ}
    (h : ((b :: l).forM f).exec s = (.ok ⟨⟩, t)) :
    ∃ u, (f b).exec s = (.ok ⟨⟩, u) ∧ (l.forM f).exec u = (.ok ⟨⟩, t) := by
  have hcons : (b :: l).forM f = f b >>= fun _ => l.forM f := rfl
  rw [hcons, exec_bind] at h
  rcases hb : (f b).exec s with ⟨e | ⟨⟩, u⟩
  · rw [hb] at h
    cases h
  · rw [hb] at h
    exact ⟨u, rfl, h⟩

/-- A loop over two lists that returns has returned from the first one. -/
theorem exec_forM_split {f : β → Eff σ ε PUnit} {l₁ l₂ : List β} {s t : σ}
    (h : ((l₁ ++ l₂).forM f).exec s = (.ok ⟨⟩, t)) :
    ∃ u, (l₁.forM f).exec s = (.ok ⟨⟩, u) ∧ (l₂.forM f).exec u = (.ok ⟨⟩, t) := by
  induction l₁ generalizing s with
  | nil => exact ⟨s, rfl, h⟩
  | cons b l₁ ih =>
    obtain ⟨u, hb, hrest⟩ := exec_forM_cons h
    obtain ⟨v, hl₁, hl₂⟩ := ih hrest
    refine ⟨v, ?_, hl₂⟩
    change (f b >>= fun _ => l₁.forM f).exec s = _
    rw [exec_bind, hb]
    exact hl₁

/-- The rule with the postcondition of the list left to the caller: what the iterations done so
far establish, each next one extends. -/
theorem wp_forM_prefix {I : List β → σ → Prop} {f : β → Eff σ ε PUnit} {l : List β} (h : I [] s)
    (hf : ∀ pre b post, l = pre ++ b :: post → ∀ s, I pre s →
      wp (f b) (fun _ => I (pre ++ [b])) E s) : wp (l.forM f) (fun _ => I l) E s := by
  suffices key : ∀ pre post, l = pre ++ post → ∀ s, I pre s →
      wp (post.forM f) (fun _ => I l) E s from key [] l rfl s h
  intro pre post hl
  induction post generalizing pre with
  | nil =>
    intro s hs
    rw [List.append_nil] at hl
    exact hl ▸ hs
  | cons b post ih =>
    intro s hs
    change wp (f b >>= fun _ => post.forM f) _ _ _
    rw [wp_bind]
    exact wp_mono (hf pre b post hl s hs)
      (fun _ t ht => ih (pre ++ [b]) (by rw [hl, List.append_assoc]; rfl) t ht) fun _ _ he => he

end Eff
