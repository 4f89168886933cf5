import OrderService.Consumer.Group
import OrderService.Proof.AheadOfOffset
import OrderService.Proof.MemberStep
import OrderService.Proof.Publications

/-!
# One writer per partition

The client grants topic-partitions, the stores are kept by partition number, and two topics have a
partition of each number. If the partitions of one number always go to the same member, a number has one
member with a store or a publication, and a tombstone leaves its order in no store (`single_writer`). If
they go to two members, both hold the store, and a tombstone one of them reads leaves the other's fold
(`two_writers`).
-/

namespace OrderService

open Eff KeyedLog ServiceConsumer

namespace Group

variable {ι : Type} {c : Service} {g : Group ι} {i j : ι} {t : World} {l : Label} {m : Message}
  {k : String} {n : Nat}

/-! ## The guards -/

/-- What the client promises: a topic-partition has at most one member, and what is delivered is
assigned. -/
def Granted (g : Group ι) : ι × Env × Label → Prop
  | (i, _, .assign tps) => ∀ tp ∈ tps, ∀ j, j ≠ i → tp ∉ (g.members j).assignment
  | (i, _, .message m) => m.tp ∈ (g.members i).assignment
  | _ => True

/-- The partitions of one number go to one member, and a message is on its order's partition. -/
def Aligned (c : Service) (g : Group ι) : ι × Env × Label → Prop
  | (i, _, .assign tps) => ∀ tp ∈ tps, ∀ j, j ≠ i → ¬ Owned (g.members j) tp.partition
  | (_, _, .message m) => OnItsPartition c m
  | _ => True

/-- No later event of the order is read, and a rebuild of its partition finds it deleted. -/
def Quiet (c : Service) (k : String) (g : Group ι) : ι × Env × Label → Prop
  | (i, _, .assign tps) => ∀ tp ∈ tps, tp.partition = c.partitionOf k →
      rebuiltTable c.toDeployment (g.member i) tp.partition k = none
  | (_, _, .message m) => ∀ value event, m.value = some value → c.decode value = .event event →
      event.orderId ≠ k
  | _ => True

/-! ## What is promised -/

/-- A partition's store is open in one member at most. -/
def SingleHolder (g : Group ι) : Prop :=
  ∀ n i j, n ∈ (g.members i).store.stores → n ∈ (g.members j).store.stores → i = j

/-- The changelog partitions a step publishes to. -/
def published (c : Service) (g : Group ι) (l : ι × Env × Label) : List Nat :=
  publishedTo ((g.moved c l.1 l.2).trace.drop (g.members l.1).trace.length)

/-- Whoever publishes to a partition has a topic-partition of its number, and nobody else has one or
holds its store. -/
def PublishesAlone (c : Service) (g : Group ι) (l : ι × Env × Label) : Prop :=
  ∀ n ∈ published c g l, Owned (g.members l.1) n ∧
    ∀ j, j ≠ l.1 → ¬ Owned (g.members j) n ∧ n ∉ (g.members j).store.stores

/-- No open store has a fold of the order. -/
def Forgotten (k : String) (g : Group ι) : Prop :=
  ∀ i, ∀ n ∈ (g.members i).store.stores, (g.members i).store.fold n k = none

/-! ## The invariant -/

/-- A number has one owner, every store has one, and rows are where they belong. -/
structure Exclusive (c : Service) (g : Group ι) : Prop where
  within : ∀ i, Within (g.members i)
  owner : ∀ n i j, Owned (g.members i) n → Owned (g.members j) n → i = j
  sited : ∀ i, Sited c.toDeployment (g.member i)

/-- The owner of the order's partition has no row of it. -/
def Gone (c : Service) (k : String) (g : Group ι) : Prop :=
  ∀ i, Owned (g.members i) (c.partitionOf k) → (g.members i).store.table (c.partitionOf k) k = none

theorem Exclusive.singleHolder (h : Exclusive c g) : SingleHolder g :=
  fun n i j hi hj => h.owner n i j (h.within i n hi) (h.within j n hj)

theorem Exclusive.forgotten (h : Exclusive c g) (hk : Gone c k g) : Forgotten k g := by
  intro i n hn
  have hrow : (g.members i).store.table n k = none := by
    by_contra hne
    obtain rfl := (h.sited i).table n k hne
    exact hne (hk i (h.within i _ hn))
  unfold LocalStore.fold
  rw [hrow]
  rfl

theorem sited_moved {l : Env × Label} (hl : DeliversOnPartition c l) (h : Sited c.toDeployment (g.member i)) :
    Sited c.toDeployment (g.moved c i l) :=
  lifeStep_left (wp_mono (wp_localStep_sited hl h) (fun _ _ ht => ht) fun _ _ ht => ht.restart)

theorem publishesTo_moved {l : Env × Label} (hl : DeliversOnPartition c l) :
    PublishesTo (messagePartitions l.2) (g.member i) (g.moved c i l) :=
  lifeStep_left (wp_mono (wp_localStep_publishes hl) (fun _ _ ht => ht) fun _ _ ht => ht)

variable {env : Env}

theorem Aligned.onPartition (h : Aligned c g (i, env, l)) : DeliversOnPartition c (env, l) := by
  cases l with
  | message m => exact h
  | _ => trivial

theorem Granted.assigned (h : Granted g (i, env, l)) :
    ∀ m, l = .message m → m.tp ∈ (g.members i).assignment := by
  rintro m rfl
  exact h

theorem Exclusive.publishesAlone (h : Exclusive c g) (hgranted : Granted g (i, env, l))
    (haligned : Aligned c g (i, env, l)) : PublishesAlone c g (i, env, l) := by
  intro n hn
  obtain ⟨calls, htrace, hcalls⟩ := publishesTo_moved (g := g) (i := i) haligned.onPartition
  have hn : n ∈ publishedTo ((g.moved c i (env, l)).trace.drop (g.members i).trace.length) := hn
  have htrace : (g.moved c i (env, l)).trace = (g.members i).trace ++ calls := htrace
  rw [htrace, List.drop_left] at hn
  have hn := hcalls hn
  cases l with
  | message m =>
    obtain rfl := List.mem_singleton.1 hn
    have howned : Owned (g.members i) m.partition := ⟨m.tp, hgranted, rfl⟩
    refine ⟨howned, fun j hj => ?_⟩
    have hother : ¬ Owned (g.members j) m.partition := fun h' => hj (h.owner _ j i h' howned)
    exact ⟨hother, fun hopen => hother (h.within j _ hopen)⟩
  | _ => cases hn

theorem exclusive_empty (c : Service) : Exclusive c ({} : Group ι) where
  within _ _ hn := by cases hn
  owner _ _ _ hn := by
    obtain ⟨tp, htp, -⟩ := hn
    cases htp
  sited _ := ⟨fun _ _ he => (by cases he), fun _ _ hrow => absurd rfl hrow⟩

variable [DecidableEq ι]

theorem members_after_self (l : Env × Label) : (g.after c (i, l)).members i = g.moved c i l :=
  Function.update_self ..

theorem members_after_ne (l : Env × Label) (hj : j ≠ i) : (g.after c (i, l)).members j = g.members j :=
  Function.update_of_ne hj ..

/-- Whoever has a number after a step had it before, or was just granted it. -/
theorem owned_after {l : Env × Label} (h : Owned ((g.after c (i, l)).members j) n) :
    Owned (g.members j) n ∨ j = i ∧ ∃ tps, l.2 = .assign tps ∧ ∃ tp ∈ tps, tp.partition = n := by
  obtain rfl | hj := eq_or_ne j i
  · rw [members_after_self] at h
    obtain h | h := (movesStores_lifeStep l).owned h
    · exact .inl h
    · exact .inr ⟨rfl, h⟩
  · rw [members_after_ne l hj] at h
    exact .inl h

/-- **One step** of a member, if it is aligned. -/
theorem Exclusive.after (h : Exclusive c g) (hgranted : Granted g (i, env, l))
    (haligned : Aligned c g (i, env, l)) : Exclusive c (g.after c (i, env, l)) where
  within j := by
    obtain rfl | hj := eq_or_ne j i
    · rw [members_after_self]
      exact (movesStores_lifeStep (env, l)).within (h.within j) hgranted.assigned
    · rw [members_after_ne _ hj]
      exact h.within j
  owner n j j' hn hn' := by
    -- two owners of a number were two before, unless one was just granted what the other has
    have hnew : ∀ {j j'}, (j = i ∧ ∃ tps, l = .assign tps ∧ ∃ tp ∈ tps, tp.partition = n) →
        Owned (g.members j') n → j = j' := by
      intro j j' hj hother
      obtain ⟨rfl, tps, rfl, tp, htp, rfl⟩ := hj
      by_contra hne
      exact haligned tp htp j' (Ne.symm hne) hother
    obtain hn | hn := owned_after hn
    · obtain hn' | hn' := owned_after hn'
      · exact h.owner n j j' hn hn'
      · exact (hnew hn' hn).symm
    · obtain hn' | hn' := owned_after hn'
      · exact hnew hn hn'
      · exact hn.1.trans hn'.1.symm
  sited j := by
    have hmoved := sited_moved haligned.onPartition (h.sited i)
    obtain rfl | hj := eq_or_ne j i
    · unfold member
      rw [members_after_self]
      exact hmoved
    · unfold member
      rw [members_after_ne _ hj]
      exact (h.sited j).of_broker hmoved

/-- What is gone stays away. -/
theorem Gone.after (h : Gone c k g) (hquiet : Quiet c k g (i, env, l)) : Gone c k (g.after c (i, env, l)) := by
  intro j hj
  obtain rfl | hne := eq_or_ne j i
  · rw [members_after_self] at hj ⊢
    refine (movesStores_lifeStep (env, l)).gone (h j) ?_ ?_ hj
    · rintro tps rfl hmem
      obtain ⟨tp, htp, hpart⟩ := List.mem_map.1 hmem
      rw [← hpart]
      exact hquiet tp htp hpart
    · rintro m rfl
      exact hquiet
  · rw [members_after_ne _ hne] at hj ⊢
    exact h j hj

/-- **A tombstone that was read leaves no row of its order.** -/
theorem Exclusive.gone_after (h : Exclusive c g) (hgranted : Granted g (i, env, .message m))
    (haligned : Aligned c g (i, env, .message m)) (hnone : m.value = none) :
    Gone c (keyOf m) (g.after c (i, env, .message m)) := by
  have hpart : c.partitionOf (keyOf m) = m.partition := haligned.1 hnone
  intro j hj
  rw [hpart] at hj ⊢
  obtain rfl | hne := eq_or_ne j i
  · rw [members_after_self] at hj ⊢
    have hmoves := movesStores_lifeStep (c := c) (w := g.member j) (env, .message m)
    cases hmoves with
    | died hnil =>
      obtain ⟨tp, htp, -⟩ := hj
      have hnil : (g.moved c j (env, .message m)).assignment = [] := hnil
      rw [hnil] at htp
      cases htp
    | released hl => obtain hl | hl := hl <;> cases hl
    | read hread => exact hread.erased hnone
  · rw [members_after_ne _ hne] at hj
    exact absurd (h.owner m.partition j i hj ⟨m.tp, hgranted, rfl⟩) hne

/-! ## Runs -/

theorem wp_step_exclusive (h : Exclusive c g) {l : ι × Env × Label} (hl : Granted g l ∧ Aligned c g l) :
    wp (step c l) (fun _ => Exclusive c) (fun _ _ => False) g := h.after hl.1 hl.2

/-- A grant of a number whose store another member has open gives it two, if it returns. -/
theorem not_singleHolder_of_grant {tps : List TopicPartition} {tp : TopicPartition} (htp : tp ∈ tps)
    (hj : j ≠ i) (hopen : tp.partition ∈ (g.members j).store.stores)
    (hrun : (localStep c (env, .assign tps)).exec (g.member i) = (.ok ⟨⟩, t)) :
    ¬ SingleHolder (g.after c (i, env, .assign tps)) := by
  have hmoved : g.moved c i (env, .assign tps) = t := by
    refine lifeStep_left (R := fun u => u = t) (wp_iff_forall.2 ⟨fun _ u hu => ?_, fun _ u hu => ?_⟩)
    · rw [hrun] at hu
      exact (congrArg Prod.snd hu).symm
    · rw [hrun] at hu
      cases congrArg Prod.fst hu
  intro hsingle
  refine hj (hsingle tp.partition j i ?_ ?_)
  · rwa [members_after_ne _ hj]
  · rw [members_after_self, hmoved]
    exact exec_of_wp (wp_assign_opens env tps) hrun tp htp

/-- **Single writer**: in every interleaving of the members, if what is granted keeps the partitions of a
number together, a store is open in one member at most, whoever publishes to a partition is alone in having
it, and a tombstone that was read leaves its order in no open store, until an event of the order is read or
a rebuild finds one. A grant of a number whose store another member has open ends that. -/
theorem single_writer (c : Service) (ls : List (ι × Env × Label))
    (hls : Along (step c) (fun g l => Granted g l ∧ Aligned c g l) ls {}) :
    Throughout (step c) SingleHolder ls {} ∧ Along (step c) (PublishesAlone c) ls {} ∧
    (∀ pre i env m post g, ls = pre ++ (i, env, .message m) :: post → m.value = none →
      ((pre ++ [(i, env, .message m)]).forM (step c)).exec {} = (.ok ⟨⟩, g) →
      Forgotten (keyOf m) g ∧
        (Along (step c) (Quiet c (keyOf m)) post g → Throughout (step c) (Forgotten (keyOf m)) post g)) ∧
    ∀ (g : Group ι) i j env tps tp t, tp ∈ tps → j ≠ i → tp.partition ∈ (g.members j).store.stores →
      (localStep c (env, .assign tps)).exec (g.member i) = (.ok ⟨⟩, t) →
      ¬ SingleHolder (g.after c (i, env, .assign tps)) := by
  have hstep : ∀ (g : Group ι) l, Exclusive c g → Granted g l ∧ Aligned c g l →
      wp (step c l) (fun _ => Exclusive c) (fun _ _ => True) g :=
    fun g l hg hl => wp_mono (wp_step_exclusive hg hl) (fun _ _ h => h) fun _ _ _ => trivial
  refine ⟨throughout_of_invariant hstep (fun _ h => h.singleHolder) (exclusive_empty c) hls, ?_, ?_,
    fun _ _ _ _ _ _ _ htp hj hopen hrun => not_singleHolder_of_grant htp hj hopen hrun⟩
  · have hboth : Along (step c) (fun g l => (Granted g l ∧ Aligned c g l) ∧ PublishesAlone c g l) ls {} := by
      refine (along_iff hstep (fun g l hg => ?_) (exclusive_empty c)).1 hls
      exact ⟨fun hl => ⟨hl, hg.publishesAlone hl.1 hl.2⟩, And.left⟩
    exact hboth.mono fun _ _ h => h.2
  · rintro pre i env m post g rfl hnone hrun
    obtain ⟨g₀, hpre, hlast⟩ := exec_forM_split hrun
    have hg₀ : Exclusive c g₀ := run_invariant hstep (exclusive_empty c) hls.take hpre
    obtain ⟨hl, hpost⟩ := hls.drop hpre
    obtain rfl : g₀.after c (i, env, .message m) = g := congrArg Prod.snd hlast
    have hg : Exclusive c (g₀.after c (i, env, .message m)) := hg₀.after hl.1 hl.2
    have hgone := hg₀.gone_after hl.1 hl.2 hnone
    refine ⟨hg.forgotten hgone, fun hquiet => ?_⟩
    refine throughout_of_invariant (I := fun g => Exclusive c g ∧ Gone c (keyOf m) g) (E := fun _ _ => True)
      (fun g l hg hl => ?_) (fun g hg => hg.1.forgotten hg.2) ⟨hg, hgone⟩ ((hpost _ rfl).and hquiet)
    exact ⟨hg.1.after hl.1.1 hl.1.2, hg.2.after hl.2⟩

/-! ## Two members -/

def deletion : Message := ⟨"order-snapshot", 0, 0, some "o".toUTF8, none, [], -1⟩

/-- The two partitions of number 0 go to two members, and the event of an order is folded. -/
def apart : List (Bool × Env × Label) :=
  [(false, {}, .assign [⟨"order-lifecycle", 0⟩]), (true, {}, .assign [⟨"order-snapshot", 0⟩]),
    (false, { servedByFlush := [lane] }, .message eventMessage)]

/-- The other member reads the tombstone. -/
def deleted : Bool × Env × Label := (true, { servedByPoll := [lane] }, .message deletion)

theorem onItsPartition_directPacker {m : Message} (h : m.partition = 0) : OnItsPartition directPacker m :=
  ⟨fun _ => h.symm, fun _ _ _ _ => h.symm⟩

/-- Both members hold the store of partition 0 and publish to it, and the first keeps the fold that the
second was told to delete. -/
theorem two_writers :
    Along (step directPacker) Granted (apart ++ [deleted]) {} ∧ OnItsPartition directPacker eventMessage ∧
    OnItsPartition directPacker deletion ∧ keyOf deletion = "o" ∧ deletion.value = none ∧
    ∃ g g', (apart.forM (step directPacker)).exec {} = (.ok ⟨⟩, g) ∧
      (step directPacker deleted).exec g = (.ok ⟨⟩, g') ∧
      ¬ SingleHolder g ∧ ¬ PublishesAlone directPacker g deleted ∧ ¬ Forgotten "o" g' := by
  refine ⟨?_, onItsPartition_directPacker rfl, onItsPartition_directPacker rfl, by decide +kernel, rfl,
    _, _, rfl, rfl, fun h => ?_, fun h => ?_, fun h => ?_⟩
  · refine .cons (fun _ _ _ _ hmem => by cases hmem) (.cons (fun tp htp j hj => ?_) (.cons ?_ (.cons ?_ trivial)))
    · cases j with
      | true => exact absurd rfl hj
      | false =>
        rw [List.mem_singleton.1 htp]
        decide +kernel
    · change eventMessage.tp ∈ _
      decide +kernel
    · change deletion.tp ∈ _
      decide +kernel
  · cases h 0 false true (by decide +kernel) (by decide +kernel)
  · exact (h 0 (by decide +kernel)).2 false (by decide) |>.2 (by decide +kernel)
  · have hkept := h false 0 (by decide +kernel)
    revert hkept
    decide +kernel

/-- Both partitions of number 0 move together from one member to the other. -/
def together : List (Bool × Env × Label) :=
  [(false, {}, .assign bothTopics), (false, { servedByFlush := [lane] }, .message eventMessage),
    (false, { servedByPoll := [lane] }, .message deletion), (false, {}, .revoke bothTopics),
    (true, {}, .assign bothTopics)]

theorem single_writer_together : Throughout (step directPacker) SingleHolder together {} := by
  refine (single_writer directPacker together ?_).1
  have hfree : ∀ {g : Group Bool}, (g.members false).assignment = [] → ∀ tps : List TopicPartition,
      Granted g (true, {}, .assign tps) ∧ Aligned directPacker g (true, {}, .assign tps) := by
    intro g hnil tps
    have hnot : ∀ j, j ≠ true → (g.members j).assignment = [] := by
      intro j hj
      cases j with
      | true => exact absurd rfl hj
      | false => exact hnil
    refine ⟨fun tp _ j hj hmem => ?_, fun tp _ j hj howned => ?_⟩
    · rw [hnot j hj] at hmem
      cases hmem
    · obtain ⟨tp', hmem, -⟩ := howned
      rw [hnot j hj] at hmem
      cases hmem
  refine .cons ⟨fun _ _ _ _ hmem => (by cases hmem), fun _ _ _ _ howned => ?_⟩
    (.cons ⟨?_, onItsPartition_directPacker rfl⟩ (.cons ⟨?_, onItsPartition_directPacker rfl⟩
      (.cons ⟨trivial, trivial⟩ (.cons (hfree ?_ _) trivial))))
  · obtain ⟨tp, hmem, -⟩ := howned
    cases hmem
  · change eventMessage.tp ∈ _
    decide +kernel
  · change deletion.tp ∈ _
    decide +kernel
  · decide +kernel

end Group

end OrderService
