import OrderService.Lib.Eff

/-!
# Runs of a labelled step

A system is a step `step : ι → Eff σ ε PUnit`, one computation for each label; its run over a list
of labels is `l.forM step`, which stops at the first step that raises. `Along step G l s` says that
each step of that run meets the guard `G` in the state it starts from. `wp_run` is the invariant
rule of guarded runs, `wp_run_simulates` its form with a specification run alongside; `along_iff`
compares two guards along one run.
-/

namespace Eff

variable {σ ε ι : Type} (step : ι → Eff σ ε PUnit)

/-- Every step of the run over `l` from `s` meets the guard `G` in the state it starts from. -/
def Along (G : σ → ι → Prop) : List ι → σ → Prop
  | [], _ => True
  | i :: l, s => G s i ∧ ∀ t, (step i).exec s = (.ok ⟨⟩, t) → Along G l t

variable {step} {G H : σ → ι → Prop} {I : σ → Prop} {E : ε → σ → Prop}

/-- **The simulation rule**: a specification `next` that each guarded step follows is followed by
each guarded run. -/
theorem wp_run_simulates {γ : Type} {J : γ → σ → Prop} (next : γ → ι → γ)
    (hstep : ∀ g s i, J g s → G s i → wp (step i) (fun _ => J (next g i)) E s) :
    ∀ {l : List ι} {g : γ} {s : σ}, J g s → Along step G l s →
      wp (l.forM step) (fun _ => J (l.foldl next g)) E s
  | [], _, _, hJ, _ => hJ
  | i :: l, g, s, hJ, ⟨hG, hl⟩ => by
    change wp (step i >>= fun _ => l.forM step) _ _ _
    rw [wp_bind, wp_iff_forall]
    obtain ⟨hok, herr⟩ := wp_iff_forall.1 (hstep g s i hJ hG)
    exact ⟨fun _ t ht => wp_run_simulates next hstep (hok _ t ht) (hl t ht), herr⟩

/-- **The invariant rule**: what every guarded step keeps, every guarded run keeps. -/
theorem wp_run (hstep : ∀ s i, I s → G s i → wp (step i) (fun _ => I) E s) {l : List ι} {s : σ}
    (hI : I s) (hl : Along step G l s) : wp (l.forM step) (fun _ => I) E s := by
  have hstay : ∀ (_ : Unit) s i, I s → G s i → wp (step i) (fun _ => I) E s := fun _ s i => hstep s i
  exact wp_run_simulates (fun (_ : Unit) _ => ()) (J := fun _ => I) hstay (g := ()) hI hl

/-- One more step after a run that returned. -/
theorem exec_forM_concat {i : ι} {l : List ι} {s t : σ} (h : (l.forM step).exec s = (.ok ⟨⟩, t)) :
    ((l ++ [i]).forM step).exec s = (step i).exec t := by
  rw [exec_forM_append h]
  change (step i >>= fun _ => (pure () : Eff σ ε PUnit)).exec t = _
  rw [bind_pure]

/-- The rule whose invariant may speak of the steps taken so far. -/
theorem wp_run_history {J : List ι → σ → Prop} {s : σ}
    (hstep : ∀ pre i t, (pre.forM step).exec s = (.ok ⟨⟩, t) → J pre t → G t i →
      wp (step i) (fun _ => J (pre ++ [i])) E t) {l : List ι} (hJ : J [] s) (hl : Along step G l s) :
    wp (l.forM step) (fun _ => J l) E s := by
  have hfollow : ∀ pre t i, ((pre.forM step).exec s = (.ok ⟨⟩, t) ∧ J pre t) → G t i →
      wp (step i) (fun _ u => ((pre ++ [i]).forM step).exec s = (.ok ⟨⟩, u) ∧ J (pre ++ [i]) u) E t := by
    rintro pre t i ⟨hpre, hJ⟩ hG
    refine wp_mono (wp_exec (hstep pre i t hpre hJ hG)) (fun _ u hu => ?_) fun _ _ he => he
    exact ⟨(exec_forM_concat hpre).trans hu.1, hu.2⟩
  have hrun := wp_run_simulates (fun pre i => pre ++ [i]) hfollow ⟨rfl, hJ⟩ hl
  have hfold : l.foldl (fun pre i => pre ++ [i]) [] = l := by
    rw [List.foldl_append_eq_append, List.nil_append]
    exact List.flatMap_singleton' l
  rw [hfold] at hrun
  exact wp_mono hrun (fun _ _ h => h.2) fun _ _ he => he

/-- A run from a state of the invariant that returns ends in a state of the invariant. -/
theorem run_invariant (hstep : ∀ s i, I s → G s i → wp (step i) (fun _ => I) E s) {l : List ι}
    {s t : σ} (hI : I s) (hl : Along step G l s) (h : (l.forM step).exec s = (.ok ⟨⟩, t)) : I t :=
  exec_of_wp (wp_run hstep hI hl) h

/-- Two guards that agree in the states of an invariant, which the first one keeps, hold along the
same runs. -/
theorem along_iff (hstep : ∀ s i, I s → G s i → wp (step i) (fun _ => I) (fun _ _ => True) s)
    (hiff : ∀ s i, I s → (G s i ↔ H s i)) :
    ∀ {l : List ι} {s : σ}, I s → (Along step G l s ↔ Along step H l s)
  | [], _, _ => Iff.rfl
  | i :: l, s, hI => by
    have key : ∀ hG : G s i, ∀ t, (step i).exec s = (.ok ⟨⟩, t) →
        (Along step G l t ↔ Along step H l t) :=
      fun hG t ht => along_iff hstep hiff (exec_of_wp (hstep s i hI hG) ht)
    simp only [Along]
    constructor
    · rintro ⟨hG, hl⟩
      exact ⟨(hiff s i hI).1 hG, fun t ht => (key hG t ht).1 (hl t ht)⟩
    · rintro ⟨hH, hl⟩
      have hG := (hiff s i hI).2 hH
      exact ⟨hG, fun t ht => (key hG t ht).2 (hl t ht)⟩

theorem Along.cons {i : ι} {l : List ι} {s : σ} (hG : G s i)
    (hl : Along step G l ((step i).exec s).2) : Along step G (i :: l) s :=
  ⟨hG, fun t ht => by rwa [ht] at hl⟩

theorem along_of_forall (h : ∀ s i, G s i) : ∀ (l : List ι) (s : σ), Along step G l s
  | [], _ => trivial
  | _ :: l, s => ⟨h s _, fun t _ => along_of_forall h l t⟩

theorem along_of_mem : ∀ {l : List ι} {s : σ}, (∀ s, ∀ i ∈ l, G s i) → Along step G l s
  | [], _, _ => trivial
  | _ :: _, s, h => ⟨h s _ (.head _), fun _ _ => along_of_mem fun s i hi => h s i (.tail _ hi)⟩

theorem Along.take : ∀ {pre post : List ι} {s : σ}, Along step G (pre ++ post) s →
    Along step G pre s
  | [], _, _, _ => trivial
  | _ :: _, _, _, ⟨hG, hl⟩ => ⟨hG, fun t ht => (hl t ht).take⟩

/-- What is left of a guarded run is guarded. -/
theorem Along.drop : ∀ {pre post : List ι} {s t : σ}, Along step G (pre ++ post) s →
    (pre.forM step).exec s = (.ok ⟨⟩, t) → Along step G post t
  | [], _, _, _, h, hpre => by
    cases (congrArg Prod.snd hpre : _ = _)
    exact h
  | i :: pre, _, s, _, ⟨_, hl⟩, hpre => by
    obtain ⟨u, hi, hrest⟩ := exec_forM_cons hpre
    exact (hl u hi).drop hrest

theorem Along.mono (hGH : ∀ s i, G s i → H s i) : ∀ {l : List ι} {s : σ},
    Along step G l s → Along step H l s
  | [], _, _ => trivial
  | _ :: _, _, ⟨hG, hl⟩ => ⟨hGH _ _ hG, fun t ht => (hl t ht).mono hGH⟩

theorem Along.and : ∀ {l : List ι} {s : σ}, Along step G l s → Along step H l s →
    Along step (fun s i => G s i ∧ H s i) l s
  | [], _, _, _ => trivial
  | _ :: _, _, ⟨hG, hl⟩, ⟨hH, hl'⟩ => ⟨⟨hG, hH⟩, fun t ht => (hl t ht).and (hl' t ht)⟩

/-! ## Every state of a run -/

variable (step) in
/-- `P` holds at the start and after every step of the run that is reached. -/
def Throughout (P : σ → Prop) : List ι → σ → Prop
  | [], s => P s
  | i :: l, s => P s ∧ ∀ t, (step i).exec s = (.ok ⟨⟩, t) → Throughout P l t

/-- What follows from an invariant of the guarded steps holds throughout a guarded run. -/
theorem throughout_of_invariant {P : σ → Prop} (hstep : ∀ s i, I s → G s i → wp (step i) (fun _ => I) E s)
    (hP : ∀ s, I s → P s) : ∀ {l : List ι} {s : σ}, I s → Along step G l s → Throughout step P l s
  | [], s, hI, _ => hP s hI
  | i :: _, s, hI, ⟨hG, hl⟩ =>
    ⟨hP s hI, fun t ht =>
      throughout_of_invariant hstep hP (exec_of_wp (hstep s i hI hG) ht) (hl t ht)⟩

/-- What holds throughout a run that returns holds at its end. -/
theorem Throughout.last {P : σ → Prop} : ∀ {l : List ι} {s t : σ}, Throughout step P l s →
    (l.forM step).exec s = (.ok ⟨⟩, t) → P t
  | [], _, _, h, hrun => by
    cases (congrArg Prod.snd hrun : _ = _)
    exact h
  | i :: l, s, t, ⟨_, h⟩, hrun => by
    obtain ⟨u, hi, hrest⟩ := exec_forM_cons hrun
    exact (h u hi).last hrest

theorem Throughout.mono {P Q : σ → Prop} (hPQ : ∀ s, P s → Q s) : ∀ {l : List ι} {s : σ},
    Throughout step P l s → Throughout step Q l s
  | [], s, h => hPQ s h
  | _ :: _, s, ⟨hP, h⟩ => ⟨hPQ s hP, fun t ht => (h t ht).mono hPQ⟩

theorem Throughout.and {P Q : σ → Prop} : ∀ {l : List ι} {s : σ}, Throughout step P l s →
    Throughout step Q l s → Throughout step (fun s => P s ∧ Q s) l s
  | [], _, hP, hQ => ⟨hP, hQ⟩
  | _ :: _, _, ⟨hP, h⟩, ⟨hQ, h'⟩ => ⟨⟨hP, hQ⟩, fun t ht => (h t ht).and (h' t ht)⟩

variable (step) in
/-- Some step of the run over `l` is reached, returns, and is one of `D`. -/
def Sometime (D : σ → ι → σ → Prop) (l : List ι) (s : σ) : Prop :=
  ∃ pre i post t u, l = pre ++ i :: post ∧ (pre.forM step).exec s = (.ok ⟨⟩, t) ∧
    (step i).exec t = (.ok ⟨⟩, u) ∧ D t i u

theorem Sometime.append {D : σ → ι → σ → Prop} {l : List ι} {s : σ} (h : Sometime step D l s)
    (l' : List ι) : Sometime step D (l ++ l') s := by
  obtain ⟨pre, i, post, t, u, rfl, hpre, hi, hD⟩ := h
  exact ⟨pre, i, post ++ l', t, u, by simp, hpre, hi, hD⟩

theorem sometime_concat {D : σ → ι → σ → Prop} {l : List ι} {i : ι} {s t u : σ}
    (hl : (l.forM step).exec s = (.ok ⟨⟩, t)) (hi : (step i).exec t = (.ok ⟨⟩, u)) (hD : D t i u) :
    Sometime step D (l ++ [i]) s :=
  ⟨l, i, [], t, u, rfl, hl, hi, hD⟩

/-- When every step from a state of `P` ends in `P` exactly if it meets the guard, a run that
returns stays in `P` exactly if all its steps meet the guard. `V` is what is known of the steps. -/
theorem throughout_iff_along {P : σ → Prop} {V : σ → ι → Prop}
    (hstep : ∀ s i t, P s → V s i → (step i).exec s = (.ok ⟨⟩, t) → (P t ↔ G s i)) :
    ∀ {l : List ι} {s t : σ}, P s → Along step V l s → (l.forM step).exec s = (.ok ⟨⟩, t) →
      (Throughout step P l s ↔ Along step G l s)
  | [], _, _, hP, _, _ => ⟨fun _ => trivial, fun _ => hP⟩
  | i :: l, s, t, hP, ⟨hV, hl⟩, hrun => by
    obtain ⟨u, hi, hafter⟩ := exec_forM_cons hrun
    have huniq : ∀ v, (step i).exec s = (.ok ⟨⟩, v) → v = u := fun v hv => by
      rw [hi] at hv
      exact (congrArg Prod.snd hv).symm
    have hiff := hstep s i u hP hV hi
    constructor
    · rintro ⟨-, hrest⟩
      have hu : P u := by
        cases l with
        | nil => exact hrest u hi
        | cons j l => exact (hrest u hi).1
      refine ⟨hiff.1 hu, fun v hv => ?_⟩
      cases huniq v hv
      exact (throughout_iff_along hstep hu (hl u hi) hafter).1 (hrest u hi)
    · rintro ⟨hG, hrest⟩
      have hu := hiff.2 hG
      refine ⟨hP, fun v hv => ?_⟩
      cases huniq v hv
      exact (throughout_iff_along hstep hu (hl u hi) hafter).2 (hrest u hi)

/-- What the steps from states of `P` keep holds throughout a run that stays in `P`. -/
theorem Throughout.with_invariant {P : σ → Prop} {V : σ → ι → Prop}
    (hinv : ∀ s i, I s → P s → V s i → wp (step i) (fun _ => I) E s) :
    ∀ {l : List ι} {s : σ}, I s → Along step V l s → Throughout step P l s →
      Throughout step (fun s => I s ∧ P s) l s
  | [], _, hI, _, hP => ⟨hI, hP⟩
  | _ :: _, _, hI, ⟨hV, hl⟩, ⟨hP, h⟩ =>
    ⟨⟨hI, hP⟩, fun t ht =>
      Throughout.with_invariant hinv (exec_of_wp (hinv _ _ hI hP hV) ht) (hl t ht) (h t ht)⟩

/-- The same, for steps from states of an invariant that they keep from states of `P`. -/
theorem throughout_iff_along_of_invariant {P : σ → Prop} {V : σ → ι → Prop}
    (hinv : ∀ s i, I s → P s → V s i → wp (step i) (fun _ => I) E s)
    (hstep : ∀ s i t, I s → P s → V s i → (step i).exec s = (.ok ⟨⟩, t) → (P t ↔ G s i))
    {l : List ι} {s t : σ} (hI : I s) (hP : P s) (hV : Along step V l s)
    (hrun : (l.forM step).exec s = (.ok ⟨⟩, t)) : Throughout step P l s ↔ Along step G l s := by
  have hboth : Throughout step (fun s => I s ∧ P s) l s ↔ Along step G l s := by
    refine throughout_iff_along (fun s i t h hv ht => ?_) ⟨hI, hP⟩ hV hrun
    have hIt : I t := exec_of_wp (hinv s i h.1 h.2 hv) ht
    rw [← hstep s i t h.1 h.2 hv ht]
    exact and_iff_right hIt
  rw [← hboth]
  exact ⟨Throughout.with_invariant hinv hI hV, fun h => h.mono fun _ h => h.2⟩

end Eff
