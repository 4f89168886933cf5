import OrderService.Lib.Run
import OrderService.Proof.Restore
import OrderService.Proof.Runtime

/-!
# Who holds which store

The member owns topic-partitions, the stores are kept by partition number, and both topics have a
partition of each number. `held()` is the set of owned numbers throughout a run exactly if every
revocation that takes one topic's partition takes the other's with it (`held_iff_numberClosed`).
-/

namespace OrderService

open Eff

variable {c : Service} {env : Env} {w t : World} {m : Message} {R : Unit → World → Prop}

/-- Some topic-partition of number `p` is assigned to the member. -/
def Owned (w : World) (p : Nat) : Prop := ∃ tp ∈ w.assignment, tp.partition = p

/-- `held()` lists the numbers owned. -/
def HeldExact (w : World) : Prop :=
  ∃ ps, LocalStateStore.held.exec w = (.ok ps, w) ∧ ∀ p, p ∈ ps ↔ Owned w p

theorem heldExact_iff : HeldExact w ↔ ∀ p, p ∈ w.store.stores ↔ Owned w p := by
  have hheld : LocalStateStore.held.exec w = (.ok (sortedSet w.store.stores), w) := rfl
  constructor
  · rintro ⟨ps, hps, h⟩ p
    rw [hheld] at hps
    cases hps
    rw [← h, mem_sortedSet]
  · exact fun h => ⟨_, hheld, fun p => by rw [mem_sortedSet, h]⟩

/-! ## What a step does to the stores -/

/-- With a topic-partition the set takes every owned one of its number. -/
def NumberClosed (w : World) (tps : List TopicPartition) : Prop :=
  ∀ tp ∈ w.assignment, tp ∉ tps → ∀ tp' ∈ tps, tp'.partition ≠ tp.partition

namespace ServiceConsumer

/-- What the client promises of a step: it revokes only what is held and delivers only what is
assigned. -/
def Valid (w : World) : Env × Label → Prop
  | (_, .revoke tps) | (_, .lost tps) => ∀ tp ∈ tps, tp ∈ w.assignment
  | (_, .message m) => m.tp ∈ w.assignment
  | _ => True

/-- The revocations take both topics' partitions of a number, or none. -/
def Closed (w : World) : Env × Label → Prop
  | (_, .revoke tps) | (_, .lost tps) => NumberClosed w tps
  | _ => True

end ServiceConsumer

open ServiceConsumer

theorem Untouched.of_settle {store : StateStore} :
    wp (settle c store env) (fun _ t => Untouched w t) (fun _ _ => True) w :=
  wp_settle (.refl w) (fun _ _ _ _ _ _ _ => trivial) (fun _ _ _ _ _ _ => ⟨rfl, rfl, rfl, rfl⟩)
    (fun _ _ _ _ _ _ _ => ⟨rfl, rfl, rfl, rfl⟩)

theorem Untouched.of_abort {reason : String} :
    wp ((commits c env).abort reason) (fun _ t => Untouched w t) (fun _ _ => True) w := by
  unfold commits buildCommitStrategy
  split
  · change wp (TransactionalCommitter.abort _ _ _ reason) _ _ _
    exact wp_abort (fun _ => .refl w) (fun _ _ _ _ _ _ => trivial)
      (fun _ _ _ => ⟨rfl, rfl, rfl, rfl⟩) (fun _ _ _ _ _ => ⟨rfl, rfl, rfl, rfl⟩)
  · exact .refl w

/-- The open stores gained those in `ps`; the assignment is as it was. -/
structure Gained (ps : List Nat) (w t : World) : Prop where
  mem_stores : ∀ j, j ∈ t.store.stores ↔ j ∈ ps ∨ j ∈ w.store.stores
  assignment_eq : t.assignment = w.assignment

theorem Untouched.gained {ps : List Nat} {w t u : World} (h' : Untouched t u) (h : Gained ps w t) :
    Gained ps w u :=
  ⟨fun j => by rw [h'.stores_eq, h.mem_stores], h'.assignment_eq.trans h.assignment_eq⟩

theorem Untouched.gained_nil (h : Untouched w t) : Gained [] w t := h.gained ⟨by simp, rfl⟩

/-- A message opens at most the store of its own partition. -/
theorem wp_handleMessage_gained : wp
    (handleMessage c (localStateStore c.toDeployment c.groupId env) env m)
    (fun _ t => Gained [] w t ∨ Gained [m.partition] w t) (fun _ _ => True) w := by
  have hnone : ∀ t, Untouched w t → Gained [] w t ∨ Gained [m.partition] w t :=
    fun t ht => .inl ht.gained_nil
  refine wp_handleMessage (fun _ _ _ _ => trivial) (fun _ => ?_) (fun _ => ?_) ?_ ?_
  · exact wp_handleTombstone_wrote (fun _ _ => trivial) fun t ht =>
      .inr ⟨fun j => by rw [ht.wrote.mem_stores, List.mem_singleton], ht.assignment_eq⟩
  · exact wp_commit_untouched (fun _ _ => trivial) hnone
  · intro exc attempt n s reported _ _ hs
    refine wp_routeFailure_untouched (fun _ _ => trivial) fun t ht => ?_
    rcases hs with rfl | hs
    · exact .inl (ht.gained ⟨by simp, rfl⟩)
    · exact .inr (ht.gained ⟨fun j => by simp [hs.mem_stores], rfl⟩)
  · intro value event attempt n s reported _ _ _ hs _
    refine wp_persistAndCommit_wrote (fun _ _ => trivial) fun t ht => .inr ⟨fun j => ?_, ht.assignment_eq⟩
    rw [ht.wrote.mem_stores, hs.mem_stores, List.mem_singleton]
    tauto

/-- A revocation closes the stores of the numbers it names. -/
theorem heldExact_of_release {tps : List TopicPartition} {w t u : World} (hw : HeldExact w)
    (hstores : ∀ j, j ∈ t.store.stores ↔ j ∉ tps.map (·.partition) ∧ j ∈ w.store.stores)
    (hassignment : t.assignment = w.assignment) (hu : u = t.unassign tps) :
    HeldExact u ↔ NumberClosed w tps := by
  rw [heldExact_iff] at hw
  have howned : ∀ p, Owned u p ↔ ∃ tp ∈ w.assignment, tp ∉ tps ∧ tp.partition = p := by
    intro p
    subst hu
    simp only [Owned, World.unassign, hassignment, List.mem_filter, decide_eq_true_eq, and_assoc]
  have hu : u.store.stores = t.store.stores := by rw [hu]; rfl
  rw [heldExact_iff, hu]
  constructor
  · -- an owned number that was released contradicts the invariant
    intro h tp htp hkept tp' htp' heq
    have hheld := (h tp.partition).2 ((howned _).2 ⟨tp, htp, hkept, rfl⟩)
    rw [hstores] at hheld
    exact hheld.1 (List.mem_map.2 ⟨tp', htp', heq⟩)
  · intro hclosed p
    rw [hstores, howned, hw]
    constructor
    · rintro ⟨hp, tp, htp, rfl⟩
      exact ⟨tp, htp, fun h => hp (List.mem_map_of_mem h), rfl⟩
    · rintro ⟨tp, htp, hkept, rfl⟩
      refine ⟨fun hp => ?_, tp, htp, rfl⟩
      obtain ⟨tp', htp', heq⟩ := List.mem_map.1 hp
      exact hclosed tp htp hkept tp' htp' heq

theorem heldExact_of_gained {ps : List Nat} (hw : HeldExact w) (h : Gained ps w t)
    (hps : ∀ p ∈ ps, Owned w p) : HeldExact t := by
  rw [heldExact_iff] at hw ⊢
  intro p
  unfold Owned
  rw [h.mem_stores, h.assignment_eq, hw]
  exact ⟨fun hp => hp.elim (hps p) id, .inr⟩

/-- Releasing, in both callbacks: the abort first, then `_forget`. -/
theorem wp_release {tps : List TopicPartition} {reason : String}
    (hok : ∀ t u : World, (∀ j, j ∈ t.store.stores ↔
        j ∉ tps.map (·.partition) ∧ j ∈ w.store.stores) →
      t.assignment = w.assignment → u = t.unassign tps → R ⟨⟩ u) :
    wp (do
      let _ ← (commits c env).abort reason
      forget (localStateStore c.toDeployment c.groupId env) tps
      modify fun w => w.unassign tps) R (fun _ _ => True) w := by
  simp only [wp_bind]
  refine wp_mono Untouched.of_abort (fun _ t ht => ?_) fun _ _ _ => trivial
  refine wp_forget (fun h => ?_) trivial (fun _ _ _ _ _ _ _ => trivial) fun n s rs b p _ hs => ?_
  · refine hok t _ (fun j => ?_) ht.assignment_eq rfl
    rw [ht.stores_eq, h]
    simp
  · refine hok { t with broker := b, producer := p, store := s, crashIn := n } _ (fun j => ?_)
      ht.assignment_eq rfl
    rw [← ht.stores_eq]
    exact hs.mem_stores j

/-- **One step keeps `held()` exact exactly if it is no revocation that splits a number.** -/
theorem wp_localStep_held {l : Env × Label} (hw : HeldExact w) (hv : Valid w l) :
    wp (localStep c l) (fun _ t => HeldExact t ↔ Closed w l) (fun _ _ => True) w := by
  obtain ⟨env, l⟩ := l
  have hw' : HeldExact { w with crashIn := env.crashIn } :=
    heldExact_iff.2 fun p => heldExact_iff.1 hw p
  have hgained : ∀ {t ps}, Gained ps { w with crashIn := env.crashIn } t →
      (∀ p ∈ ps, Owned w p) → HeldExact t := fun h hps => heldExact_of_gained hw' h hps
  have hstays : ∀ {t}, HeldExact t → Closed w (env, l) → (HeldExact t ↔ Closed w (env, l)) :=
    fun ht hclosed => iff_of_true ht hclosed
  refine wp_localStep (fun tps hl => ?_) (fun tps reason hl => ?_) (fun hl => ?_) (fun e fatal hl => ?_)
    fun m hl => ?_
  · subst hl
    refine wp_restore (fun _ _ _ => trivial) fun n s hs => hstays (heldExact_iff.2 fun p => ?_) trivial
    have := heldExact_iff.1 hw p
    simp only [World.assign, Owned, hs.mem_stores, List.mem_map, List.mem_append, this]
    constructor
    · rintro (⟨tp, htp, rfl⟩ | ⟨tp, htp, rfl⟩)
      · exact ⟨tp, .inr htp, rfl⟩
      · exact ⟨tp, .inl htp, rfl⟩
    · rintro ⟨tp, htp | htp, rfl⟩
      · exact .inr ⟨tp, htp, rfl⟩
      · exact .inl ⟨tp, htp, rfl⟩
  · have hclosed : Closed w (env, l) ↔ NumberClosed w tps := by obtain rfl | rfl := hl <;> rfl
    refine wp_release fun t u hs ha hu => ?_
    rw [hclosed]
    exact heldExact_of_release (w := { w with crashIn := env.crashIn }) hw' hs ha hu
  · subst hl
    refine wp_mono Untouched.of_settle (fun _ t ht => hstays ?_ trivial) fun _ _ _ => trivial
    exact hgained ht.gained_nil (by simp)
  · subst hl
    exact ⟨hstays hw' trivial, trivial⟩
  · subst hl
    refine wp_mono wp_handleMessage_gained (fun _ t ht => ?_) fun _ _ _ => trivial
    refine wp_mono Untouched.of_settle (fun _ u hu => hstays ?_ trivial) fun _ _ _ => trivial
    rcases ht with ht | ht
    · exact hgained (hu.gained ⟨ht.mem_stores, ht.assignment_eq⟩) (by simp)
    · refine hgained (hu.gained ⟨ht.mem_stores, ht.assignment_eq⟩) fun p hp => ?_
      rw [List.mem_singleton.1 hp]
      exact ⟨m.tp, hv, rfl⟩

/-! ## The in-process backend -/

/-- A step on the in-process store. -/
def memoryStep (c : Service) (l : Env × Label) : M Unit := step c memoryStateStore l.1 l.2

/-- A rebalance callback forgets no fold, and no delivery count, of a partition number it leaves
owned. -/
def KeepsOwned (c : Service) (w : World) (l : Env × Label) : Prop :=
  ∀ t, (memoryStep c l).exec w = (.ok ⟨⟩, t) →
    match l.2 with
    | .assign _ | .revoke _ | .lost _ => ∀ p, Owned t p →
        t.memory.folds p = w.memory.folds p ∧ t.memory.handled p = w.memory.handled p
    | _ => True

theorem wp_memoryRelease {tps : List TopicPartition} {reason : String} (hclosed : NumberClosed w tps) :
    wp (do
      let _ ← (commits c env).abort reason
      forget memoryStateStore tps
      modify fun w => w.unassign tps)
      (fun _ t => ∀ p, Owned t p →
        t.memory.folds p = w.memory.folds p ∧ t.memory.handled p = w.memory.handled p)
      (fun _ _ => True) w := by
  simp only [wp_bind]
  refine wp_mono Untouched.of_abort (fun _ t ht => ?_) fun _ _ _ => trivial
  simp only [forget, memoryStateStore, MemoryStateStore.forget, wp_modify]
  rintro p ⟨tp, htp, rfl⟩
  simp only [World.unassign, ht.assignment_eq, List.mem_filter, decide_eq_true_eq] at htp
  have hp : tp.partition ∉ tps.map (·.partition) := by
    intro hp
    obtain ⟨tp', htp', heq⟩ := List.mem_map.1 hp
    exact hclosed tp htp.1 htp.2 tp' htp' heq
  simp only [World.unassign, hp, if_false, ht.memory_eq, and_self]

theorem keepsOwned_of_closed (l : Env × Label) (hclosed : Closed w l) : KeepsOwned c w l := by
  obtain ⟨env, l⟩ := l
  have hrelease : ∀ tps reason, NumberClosed w tps → wp (do
      let _ ← (commits c env).abort reason
      forget memoryStateStore tps
      modify fun w => w.unassign tps)
      (fun _ t => ∀ p, Owned t p →
        t.memory.folds p = w.memory.folds p ∧ t.memory.handled p = w.memory.handled p)
      (fun _ _ => True) { w with crashIn := env.crashIn } := fun tps reason h =>
    wp_memoryRelease (w := { w with crashIn := env.crashIn }) h
  intro t hexec
  cases l with
  | assign tps =>
    cases congrArg Prod.snd hexec
    exact fun p _ => ⟨rfl, rfl⟩
  | revoke tps =>
    have := hrelease tps "partitions revoked" hclosed
    simp only [wp_bind] at this
    have hstep : wp (memoryStep c (env, .revoke tps)) (fun _ t => ∀ p, Owned t p →
        t.memory.folds p = w.memory.folds p ∧ t.memory.handled p = w.memory.handled p)
        (fun _ _ => True) w := by
      simp only [memoryStep, step, onRevoke, wp_bind, wp_modify]
      exact this
    exact exec_of_wp hstep hexec
  | lost tps =>
    have := hrelease tps "partitions lost" hclosed
    simp only [wp_bind] at this
    have hstep : wp (memoryStep c (env, .lost tps)) (fun _ t => ∀ p, Owned t p →
        t.memory.folds p = w.memory.folds p ∧ t.memory.handled p = w.memory.handled p)
        (fun _ _ => True) w := by
      simp only [memoryStep, step, onLost, wp_bind, wp_modify]
      exact this
    exact exec_of_wp hstep hexec
  | _ => trivial

/-! ## Runs -/

/-- **Ownership.** In every run from no assignment, messages in between or not, `held()` is exactly
the owned numbers after each step if and only if each revocation takes both topics' partitions of a
number or none; and then no callback forgets a fold of a partition still owned. -/
theorem held_iff_numberClosed (c : Service) (ls : List (Env × Label)) (t : World)
    (hvalid : Along (localStep c) Valid ls {}) (hrun : (ls.forM (localStep c)).exec {} = (.ok ⟨⟩, t)) :
    (Throughout (localStep c) HeldExact ls {} ↔ Along (localStep c) Closed ls {}) ∧
      ∀ ls', Along (memoryStep c) Closed ls' {} → Along (memoryStep c) (KeepsOwned c) ls' {} := by
  have hinit : HeldExact {} := heldExact_iff.2 fun p => by simp [Owned]
  refine ⟨throughout_iff_along (fun w l t hw hv hexec => ?_) hinit hvalid hrun, fun ls' hls' => ?_⟩
  · exact exec_of_wp (wp_localStep_held hw hv) hexec
  · exact hls'.mono fun w l => keepsOwned_of_closed l

/-! Partition 0 of both topics is assigned, and then taken back: both at once, or the snapshot's. -/

def observer : Service where
  toDeployment := .onePartition {} fun _ => .invalid ""
  name := "packing"
  handlers := []

def bothTopics : List TopicPartition := [⟨"order-lifecycle", 0⟩, ⟨"order-snapshot", 0⟩]

def takenBack (tps : List TopicPartition) : List (Env × Label) :=
  [({}, .assign bothTopics), ({}, .revoke tps)]

def oneFold : World where
  assignment := bothTopics
  memory := {
    partitions := [0]
    folds := fun _ _ => some { orderId := "a", lastSequence := 1, state := some .created } }

theorem held_iff_numberClosed_both :
    Throughout (localStep observer) HeldExact (takenBack bothTopics) {} := by
  have hvalid : Along (localStep observer) Valid (takenBack bothTopics) {} :=
    .cons trivial (.cons (show ∀ tp ∈ bothTopics, tp ∈ _ by decide +kernel) trivial)
  refine (held_iff_numberClosed observer _ _ hvalid (exec_eq_of_ok (by decide +kernel))).1.2 ?_
  exact .cons trivial (.cons (show ∀ tp ∈ _, tp ∉ bothTopics → ∀ tp' ∈ bothTopics, _ by
    decide +kernel) trivial)

/-- With the snapshot's partition alone the store of the lifecycle partition goes too, and so do the
folds of the in-process store. -/
theorem split_revocation_releases_owned :
    let ls := takenBack [⟨"order-snapshot", 0⟩]
    let t := ((ls.forM (localStep observer)).exec {}).2
    Along (localStep observer) Valid ls {} ∧ ((ls.forM (localStep observer)).exec {}).1 = .ok ⟨⟩ ∧
      Owned t 0 ∧ t.store.stores = [] ∧ ¬ HeldExact t ∧
      let u := ((memoryStep observer ({}, .revoke [⟨"order-snapshot", 0⟩])).exec oneFold).2
      Owned u 0 ∧ u.memory.folds 0 "a" = none := by
  have howned : Owned (((takenBack [⟨"order-snapshot", 0⟩]).forM (localStep observer)).exec {}).2 0 :=
    ⟨⟨"order-lifecycle", 0⟩, by decide +kernel, rfl⟩
  refine ⟨.cons trivial (.cons (show ∀ tp ∈ [_], tp ∈ _ by decide +kernel) trivial),
    by decide +kernel, howned, by decide +kernel, fun h => ?_,
    ⟨⟨"order-lifecycle", 0⟩, by decide +kernel, rfl⟩, by decide +kernel⟩
  have := (heldExact_iff.1 h 0).2 howned
  revert this
  decide +kernel

end OrderService
