import OrderService.Proof.RetryLoss

/-!
# What the retry worker has paused

A partition is paused and its due time noted, or resumed and the note dropped, in two calls each, and
the first may succeed where the second fails: paused without a note, it is never resumed
(`pauses_booked`, `pause_leaked`). What is paused in time is another matter: nothing is
produced for a message before its time (`wp_step_punctual`).
-/

namespace OrderService

open Eff

namespace RetryWorker

variable {c : Worker} {env : Env} {w t : World} {m : Message} {l : Env × Label}

/-! ## What it is to keep the books -/

/-- The partitions of the member that are paused are those with a due time noted. -/
def Booked (w : World) : Prop := ∀ tp ∈ w.assignment, (w.paused tp = true ↔ w.deferred tp ≠ none)

/-- No other partition is paused or noted. -/
def Unbooked (w : World) : Prop := ∀ tp ∉ w.assignment, w.paused tp = false ∧ w.deferred tp = none

/-- What the client delivers: messages of assigned partitions, and of a paused one only once it was
resumed. -/
def Delivers (w : World) (l : Env × Label) : Prop := ∀ m, l.2 = .message m → m.tp ∈ w.assignment ∧
  (w.paused m.tp = true → Due l.1 w m.tp ∧ l.1.resume m.tp = none)

/-- What falls due can be resumed. -/
def Resumes (env : Env) (w : World) : Prop := ∀ tp ∈ w.assignment, Due env w tp → env.resume tp = none

/-- The turn of `m` pauses its partition. -/
def Pauses (c : Worker) (env : Env) (m : Message) : Prop := plan c env m = .wait ∧ env.pause = none

/-- **The condition**: what falls due can be resumed, and what is paused can be sought back to. -/
def Booking (c : Worker) (w : World) : Env × Label → Prop
  | (env, .idle) | (env, .error ..) => Resumes env w
  | (env, .message m) => Resumes env w ∧ (Pauses c env m → env.seek m.tp = none)
  | _ => True

/-! ## The parts of a turn -/

/-- What `_resume_due` leaves. -/
structure Freed (env : Env) (w t : World) : Prop where
  assignment_eq : t.assignment = w.assignment
  trace_eq : t.trace = w.trace
  due : ∀ tp, Due env w tp → t.deferred tp = none ∧
    (t.paused tp = true ↔ w.paused tp = true ∧ env.resume tp ≠ none)
  waiting : ∀ tp, ¬ Due env w tp → t.deferred tp = w.deferred tp ∧ t.paused tp = w.paused tp

theorem wp_resumeDue_freed {E : Exn → World → Prop} (hcrash : E .crash w) :
    wp (resumeDue env) (fun _ t => Freed env w t) E w := by
  simp only [resumeDue, wp_bind]
  refine wp_tick hcrash fun n => ?_
  rw [wp_modify]
  refine ⟨rfl, rfl, fun tp hdue => ?_, fun tp hnot => ?_⟩
  · obtain ⟨due, hd, hle⟩ := hdue
    cases hresume : env.resume tp <;> simp [hd, hle, hresume]
  · rcases hd : w.deferred tp with _ | due
    · simp [hd]
    · have hlt : ¬ due ≤ env.now := fun hle => hnot ⟨due, hd, hle⟩
      simp [hd, hlt]

/-- Nothing was paused, resumed, noted or dropped. -/
structure Undisturbed (w t : World) : Prop where
  assignment_eq : t.assignment = w.assignment
  paused_eq : t.paused = w.paused
  deferred_eq : t.deferred = w.deferred

theorem Undisturbed.refl (w : World) : Undisturbed w w := ⟨rfl, rfl, rfl⟩

theorem Undisturbed.trans {u : World} (h : Undisturbed w t) (h' : Undisturbed t u) : Undisturbed w u :=
  ⟨h'.assignment_eq.trans h.assignment_eq, h'.paused_eq.trans h.paused_eq,
    h'.deferred_eq.trans h.deferred_eq⟩

theorem wp_publish_undisturbed {d : Deployment} {topic : String} {headers : List (String × String)} :
    wp (FailureRouter.publish d env topic m headers) (fun _ t => Undisturbed w t)
      (fun _ t => Undisturbed w t) w :=
  wp_routerPublish rfl (.refl w) (fun _ _ _ _ => ⟨rfl, rfl, rfl⟩) (fun _ _ _ _ _ _ _ _ => ⟨rfl, rfl, rfl⟩)
    fun _ _ _ _ _ _ => ⟨rfl, rfl, rfl⟩

theorem wp_commit_undisturbed :
    wp (commit env m) (fun _ t => Undisturbed w t) (fun _ t => Undisturbed w t) w := by
  simp only [commit, wp_tryCatch]
  exact wp_commitOffset (.refl w) (fun _ _ _ => ⟨rfl, rfl, rfl⟩) fun _ _ => ⟨rfl, rfl, rfl⟩

theorem wp_rewind_undisturbed :
    wp (rewind env m) (fun _ t => Undisturbed w t) (fun _ t => Undisturbed w t) w := by
  simp only [rewind, wp_tryCatch]
  exact wp_seek (.refl w) (fun _ _ _ => ⟨rfl, rfl, rfl⟩) fun _ _ => ⟨rfl, rfl, rfl⟩

theorem wp_published_undisturbed {α : Type} {publication : M α}
    (h : wp publication (fun _ t => Undisturbed w t) (fun _ t => Undisturbed w t) w) :
    wp (published publication) (fun _ t => Undisturbed w t) (fun _ t => Undisturbed w t) w := by
  simp only [published, wp_tryCatch, wp_bind, wp_pure]
  refine wp_mono h (fun _ _ ht => ht) fun e t ht => ?_
  cases e <;> exact ht

theorem wp_release_undisturbed {service : String} {origin : Origin} {attempt : Int} :
    wp (release c env m service origin attempt) (fun _ t => Undisturbed w t)
      (fun _ t => Undisturbed w t) w := by
  simp only [release, wp_bind]
  refine wp_mono (wp_published_undisturbed ?_) (fun acked t ht => ?_) fun _ _ he => he
  · simp only [FailureRouter.toSource, wp_bind, wp_pure]
    exact wp_publish_undisturbed
  · cases acked with
    | true => exact wp_mono wp_commit_undisturbed (fun _ _ hu => ht.trans hu) fun _ _ hu => ht.trans hu
    | false => exact ht

theorem wp_giveUp_undisturbed {service : String} {origin : Origin} {attempt : Int} {exc : Exn} :
    wp (giveUp c env m origin service attempt exc) (fun _ t => Undisturbed w t)
      (fun _ t => Undisturbed w t) w := by
  simp only [giveUp, wp_bind]
  refine wp_mono (wp_published_undisturbed wp_publish_undisturbed) (fun acked t ht => ?_) fun _ _ he => he
  cases acked with
  | true => exact wp_mono wp_commit_undisturbed (fun _ _ hu => ht.trans hu) fun _ _ hu => ht.trans hu
  | false => exact wp_mono wp_rewind_undisturbed (fun _ _ hu => ht.trans hu) fun _ _ hu => ht.trans hu

theorem wp_handleDue_undisturbed {headers : Headers} {origin : Origin} :
    wp (handleDue c env m headers origin) (fun _ t => Undisturbed w t)
      (fun _ t => Undisturbed w t) w := by
  unfold handleDue
  simp only []
  split
  · exact wp_giveUp_undisturbed
  · split
    · exact wp_giveUp_undisturbed
    · exact .refl w
    · exact wp_release_undisturbed

/-- What a turn of `m` leaves: other partitions as they were, and its own paused and noted, or only
paused, or as it was. -/
structure Turned (c : Worker) (env : Env) (m : Message) (w t : World) : Prop where
  assignment_eq : t.assignment = w.assignment
  others : ∀ tp, tp ≠ m.tp → t.paused tp = w.paused tp ∧ t.deferred tp = w.deferred tp
  left : ¬ Pauses c env m → t.paused m.tp = w.paused m.tp ∧ t.deferred m.tp = w.deferred m.tp
  leaked : Pauses c env m → env.seek m.tp ≠ none → t.paused m.tp = true ∧ t.deferred m.tp = w.deferred m.tp
  waits : Pauses c env m → env.seek m.tp = none → t.paused m.tp = true ∧ t.deferred m.tp ≠ none

theorem Undisturbed.turned (h : Undisturbed w t) (hnot : ¬ Pauses c env m) : Turned c env m w t where
  assignment_eq := h.assignment_eq
  others _ _ := ⟨congrFun h.paused_eq _, congrFun h.deferred_eq _⟩
  left _ := ⟨congrFun h.paused_eq _, congrFun h.deferred_eq _⟩
  leaked hpauses := absurd hpauses hnot
  waits hpauses := absurd hpauses hnot

theorem wp_defer_turned {due : Int} (hplan : plan c env m = .wait) :
    wp (defer env m (.aware due)) (fun _ t => Turned c env m w t) (fun _ _ => True) w := by
  simp only [defer, wp_bind, wp_tryCatch]
  refine wp_pause trivial (fun k n hne => ?_) fun n hpause => ?_
  · have hnot : ¬ Pauses c env m := fun h => hne h.2
    rw [wp_pure]
    exact Undisturbed.turned ⟨rfl, rfl, rfl⟩ hnot
  have hpauses : Pauses c env m := ⟨hplan, hpause⟩
  refine wp_seek trivial (fun k n' hne => ?_) fun n' hseek => ?_
  · rw [wp_pure]
    refine ⟨rfl, fun tp htp => ⟨Function.update_of_ne htp .., rfl⟩, fun hnot => absurd hpauses hnot,
      fun _ _ => ⟨Function.update_self .., rfl⟩, fun _ h => absurd h hne⟩
  · rw [wp_pure]
    refine ⟨rfl, fun tp htp => ⟨Function.update_of_ne htp .., Function.update_of_ne htp ..⟩,
      fun hnot => absurd hpauses hnot, fun _ hne => absurd hseek hne,
      fun _ _ => ⟨Function.update_self .., ?_⟩⟩
    change Function.update w.deferred m.tp (some due) m.tp ≠ none
    rw [Function.update_self]
    exact Option.some_ne_none due

theorem wp_handleMessage_turned :
    wp (handleMessage c env m) (fun _ t => Turned c env m w t) (fun _ _ => True) w := by
  have hdue : ∀ {origin : Origin}, plan c env m ≠ .wait →
      wp (handleDue c env m (decodeHeaders m) origin) (fun _ t => Turned c env m w t)
        (fun _ _ => True) w := by
    intro origin hplan
    have hnot : ¬ Pauses c env m := fun h => hplan h.1
    exact wp_mono wp_handleDue_undisturbed (fun _ _ ht => ht.turned hnot) fun _ _ _ => trivial
  have hnever : ∀ origin, planDue c m origin ≠ .wait := by
    intro origin
    unfold planDue
    split
    · exact nofun
    · split <;> exact nofun
  simp only [handleMessage, wp_bind]
  rcases horigin : Origin.fromHeaders c.std (decodeHeaders m) m with e | origin
  · trivial
  rw [wp_ofExcept_ok]
  rcases htime : timeHeader c.std (decodeHeaders m) hdrRetryAt with _ | due | due
  · refine hdue ?_
    simp only [plan, horigin, htime]
    exact hnever origin
  · simp only [isAfterNow, wp_bind, wp_ofExcept_ok]
    by_cases hnow : env.now < due
    · rw [if_pos (by simpa using hnow)]
      refine wp_defer_turned ?_
      simp only [plan, horigin, htime, if_pos hnow]
    · rw [if_neg (by simpa using hnow)]
      refine hdue ?_
      simp only [plan, horigin, htime, if_neg hnow]
      exact hnever origin
  · trivial

/-! ## One step -/

/-- After `_resume_due` the books are kept exactly if everything due was resumed. -/
theorem Freed.booked_iff (h : Freed env w t) (hbooked : Booked w) : Booked t ↔ Resumes env w := by
  constructor
  · intro ht tp htp hdue
    by_contra hne
    obtain ⟨hdropped, hpaused⟩ := h.due tp hdue
    obtain ⟨due, hd, -⟩ := hdue
    have hwas : w.paused tp = true := (hbooked tp htp).2 (by simp [hd])
    exact (ht tp (h.assignment_eq ▸ htp)).1 (hpaused.2 ⟨hwas, hne⟩) hdropped
  · intro hresumes tp htp
    rw [h.assignment_eq] at htp
    by_cases hdue : Due env w tp
    · obtain ⟨hdropped, hpaused⟩ := h.due tp hdue
      rw [hpaused, hdropped]
      exact iff_of_false (fun hno => hno.2 (hresumes tp htp hdue)) fun hno => hno rfl
    · obtain ⟨hd, hp⟩ := h.waiting tp hdue
      rw [hd, hp]
      exact hbooked tp htp

theorem Freed.unbooked (h : Freed env w t) (hun : Unbooked w) : Unbooked t := by
  intro tp htp
  obtain ⟨hp, hd⟩ := hun tp (h.assignment_eq ▸ htp)
  have hnot : ¬ Due env w tp := fun ⟨due, hdue, _⟩ => by
    rw [hd] at hdue
    cases hdue
  obtain ⟨hd', hp'⟩ := h.waiting tp hnot
  exact ⟨hp'.trans hp, hd'.trans hd⟩

/-- The partition a message is delivered of is neither paused nor noted by then. -/
theorem Freed.fresh (h : Freed env w t) (hbooked : Booked w) (hm : Delivers w (env, .message m)) :
    t.paused m.tp = false ∧ t.deferred m.tp = none := by
  obtain ⟨hassigned, hactive⟩ := hm m rfl
  by_cases hdue : Due env w m.tp
  · obtain ⟨hdropped, hpaused⟩ := h.due m.tp hdue
    refine ⟨?_, hdropped⟩
    by_contra hp
    obtain ⟨hwas, hne⟩ := hpaused.1 (by simpa using hp)
    exact hne (hactive hwas).2
  · obtain ⟨hd, hp⟩ := h.waiting m.tp hdue
    have hwas : ¬ w.paused m.tp = true := fun hwas => hdue (hactive hwas).1
    refine ⟨hp.trans (by simpa using hwas), hd.trans ?_⟩
    by_contra hne
    exact hwas ((hbooked m.tp hassigned).2 hne)

/-- After the turn of a message the books are kept exactly if they were before it and a pause was
followed by the seek. -/
theorem Turned.booked_iff (h : Turned c env m w t) (hassigned : m.tp ∈ w.assignment)
    (hfresh : w.paused m.tp = false ∧ w.deferred m.tp = none) :
    Booked t ↔ Booked w ∧ (Pauses c env m → env.seek m.tp = none) := by
  obtain ⟨hp, hd⟩ := hfresh
  constructor
  · intro ht
    refine ⟨fun tp htp => ?_, fun hpauses => ?_⟩
    · obtain rfl | hne := eq_or_ne tp m.tp
      · simp [hp, hd]
      · obtain ⟨hp', hd'⟩ := h.others tp hne
        rw [← hp', ← hd']
        exact ht tp (h.assignment_eq ▸ htp)
    · by_contra hne
      obtain ⟨hp', hd'⟩ := h.leaked hpauses hne
      exact (ht m.tp (h.assignment_eq ▸ hassigned)).1 hp' (hd'.trans hd)
  · rintro ⟨hw, hseek⟩ tp htp
    rw [h.assignment_eq] at htp
    obtain rfl | hne := eq_or_ne tp m.tp
    · by_cases hpauses : Pauses c env m
      · obtain ⟨hp', hd'⟩ := h.waits hpauses (hseek hpauses)
        exact iff_of_true hp' hd'
      · obtain ⟨hp', hd'⟩ := h.left hpauses
        rw [hp', hd']
        exact hw m.tp htp
    · obtain ⟨hp', hd'⟩ := h.others tp hne
      rw [hp', hd']
      exact hw tp htp

theorem Turned.unbooked (h : Turned c env m w t) (hassigned : m.tp ∈ w.assignment) (hun : Unbooked w) :
    Unbooked t := by
  intro tp htp
  rw [h.assignment_eq] at htp
  have hne : tp ≠ m.tp := fun heq => htp (heq ▸ hassigned)
  obtain ⟨hp, hd⟩ := h.others tp hne
  rw [hp, hd]
  exact hun tp htp

/-- **One step of the loop** that returns keeps the books exactly if it meets the condition. -/
theorem wp_loopStep_booked (hbooked : Booked w) (hun : Unbooked w) (hl : Delivers w l) :
    wp (loopStep c l.1 l.2) (fun _ t => Unbooked t ∧ (Booked t ↔ Booking c w l)) (fun _ _ => True) w := by
  obtain ⟨env, l⟩ := l
  have hb : Booked { w with crashIn := env.crashIn } := hbooked
  have hu : Unbooked { w with crashIn := env.crashIn } := hun
  have hresume : ∀ {R : World → Prop},
      (∀ t, Freed env { w with crashIn := env.crashIn } t → R t) →
      wp (resumeDue env) (fun _ => R) (fun _ _ => True) { w with crashIn := env.crashIn } :=
    fun hR => wp_mono (wp_resumeDue_freed trivial) (fun _ t ht => hR t ht) fun _ _ he => he
  simp only [loopStep, wp_bind, wp_modify]
  cases l with
  | assign tps =>
    refine ⟨fun tp htp => hun tp fun hmem => htp (List.mem_append_left _ hmem), iff_of_true ?_ trivial⟩
    intro tp htp
    by_cases hmem : tp ∈ w.assignment
    · exact hbooked tp hmem
    · obtain ⟨hp, hd⟩ := hun tp hmem
      simp [World.assign, hp, hd]
  | revoke tps =>
    have hmem : ∀ {tp}, tp ∈ w.assignment.filter (· ∉ tps) ↔ tp ∈ w.assignment ∧ tp ∉ tps := by simp
    refine ⟨fun tp htp => ?_, iff_of_true (fun tp htp => ?_) trivial⟩
    · by_cases hrevoked : tp ∈ tps
      · simp [World.unassign, hrevoked]
      · simpa [World.unassign, hrevoked] using hun tp fun h => htp (hmem.2 ⟨h, hrevoked⟩)
    · obtain ⟨hassigned, hkept⟩ := hmem.1 htp
      simpa [World.unassign, hkept] using hbooked tp hassigned
  | idle => exact hresume fun t ht => ⟨ht.unbooked hu, ht.booked_iff hb⟩
  | error e fatal =>
    simp only [wp_bind]
    refine hresume fun t ht => ?_
    unfold ServiceConsumer.handleError
    split
    · exact ⟨ht.unbooked hu, ht.booked_iff hb⟩
    · split
      · trivial
      · exact ⟨ht.unbooked hu, ht.booked_iff hb⟩
  | message m =>
    have hassigned := (hl m rfl).1
    simp only [wp_bind]
    refine hresume fun t ht => ?_
    have hfresh := ht.fresh hb hl
    simp only [receive, wp_bind, wp_modify, wp_record]
    refine wp_mono wp_handleMessage_turned (fun _ u hu' => ?_) fun _ _ _ => trivial
    have hmem : m.tp ∈ t.assignment := ht.assignment_eq ▸ hassigned
    refine ⟨hu'.unbooked hmem (ht.unbooked hu), ?_⟩
    rw [hu'.booked_iff hmem hfresh]
    exact and_congr_left' (ht.booked_iff hb)

/-! ## Nothing is produced before its time -/

/-- The time of the message, if it has one, has come. -/
def OnTime (c : Worker) (env : Env) (m : Message) : Prop :=
  ∀ due, timeHeader c.std (decodeHeaders m) hdrRetryAt = some due → ∃ t, due = .aware t ∧ t ≤ env.now

/-- The step that led from `w` to `t` handed the producer a record in the turn of a message whose time
had not come. -/
def Early (c : Worker) (w : World) (l : Env × Label) (t : World) : Prop :=
  ∃ m, l.2 = .message m ∧ ¬ OnTime c l.1 m ∧ ∃ q ok, .produce q ok ∈ t.trace.drop w.trace.length

/-- No record was handed to the producer. -/
def Mute (w t : World) : Prop := ∃ calls, t.trace = w.trace ++ calls ∧ ∀ q ok, .produce q ok ∉ calls

theorem Mute.of_trace_eq (h : t.trace = w.trace) : Mute w t := ⟨[], by simpa using h, fun _ _ => nofun⟩

theorem Mute.concat {u : World} {call : Call} (h : Mute w t) (hu : u.trace = t.trace ++ [call])
    (hcall : ∀ q ok, call ≠ .produce q ok) : Mute w u := by
  obtain ⟨calls, ht, hno⟩ := h
  refine ⟨calls ++ [call], by rw [hu, ht, List.append_assoc], fun q ok hmem => ?_⟩
  obtain hmem | hmem := List.mem_append.1 hmem
  · exact hno q ok hmem
  · exact hcall q ok (List.mem_singleton.1 hmem).symm

theorem Mute.not_early (h : Mute w t) : ¬ Early c w l t := by
  rintro ⟨m, -, -, q, ok, hmem⟩
  obtain ⟨calls, ht, hno⟩ := h
  rw [ht, List.drop_left] at hmem
  exact hno q ok hmem

theorem Mute.handleMessage {w₀ : World} (h : Mute w₀ w) (hearly : ¬ OnTime c env m) :
    wp (handleMessage c env m) (fun _ t => Mute w₀ t) (fun _ t => Mute w₀ t) w := by
  simp only [RetryWorker.handleMessage, wp_bind]
  rcases horigin : Origin.fromHeaders c.std (decodeHeaders m) m with e | origin
  · exact h
  rw [wp_ofExcept_ok]
  rcases htime : timeHeader c.std (decodeHeaders m) hdrRetryAt with _ | due | due
  · exact absurd (fun due hdue => by rw [htime] at hdue; cases hdue) hearly
  · have hnow : env.now < due := by
      by_contra hle
      refine hearly fun due' hdue' => ?_
      rw [htime] at hdue'
      cases hdue'
      exact ⟨due, rfl, by omega⟩
    simp only [isAfterNow, wp_bind, wp_ofExcept_ok]
    rw [if_pos (by simpa using hnow)]
    simp only [defer, wp_bind, wp_tryCatch]
    refine wp_pause h (fun _ _ _ => h) fun _ _ => ?_
    have hseek : ∀ ok q ok', Call.seek m.tp m.offset ok ≠ .produce q ok' := fun _ _ _ h => by cases h
    exact wp_seek h (fun _ _ _ => h.concat rfl (hseek false)) fun _ _ => h.concat rfl (hseek true)
  · exact h

/-- **No step is early**, whatever it raises. -/
theorem wp_step_punctual (c : Worker) (w : World) (l : Env × Label) :
    wp (step c l) (fun _ t => ¬ Early c w l t) (fun _ _ => False) w := by
  obtain ⟨env, l⟩ := l
  simp only [step, wp_tryCatch, wp_modify]
  by_cases hearly : ∃ m, l = .message m ∧ ¬ OnTime c env m
  · obtain ⟨m, rfl, hearly⟩ := hearly
    have hmute : wp (loopStep c env (.message m)) (fun _ t => Mute w t) (fun _ t => Mute w t) w := by
      have hset : Mute w { w with crashIn := env.crashIn } := .of_trace_eq rfl
      simp only [loopStep, wp_bind, wp_modify]
      refine wp_mono (wp_resumeDue_freed (E := fun _ t => Mute w t) hset) (fun _ t ht => ?_) fun _ _ he => he
      simp only [receive, wp_bind, wp_modify, wp_record]
      have hpoll : ∀ q ok, Call.poll m.id ≠ .produce q ok := fun _ _ h => by cases h
      exact Mute.handleMessage (Mute.concat (t := t) (.of_trace_eq ht.trace_eq) rfl hpoll) hearly
    exact wp_mono hmute (fun _ _ ht => ht.not_early) fun _ _ ht => Mute.not_early (t := restart _) ht
  · have hnot : ∀ t, ¬ Early c w (env, l) t := by
      rintro t ⟨m, hm, hne, -⟩
      exact hearly ⟨m, hm, hne⟩
    exact wp_of_forall (fun _ t => hnot t) fun _ t => hnot (restart t)

/-! ## Runs -/

theorem booked_restart (w : World) : Booked (restart w) ∧ Unbooked (restart w) :=
  ⟨fun _ h => (nomatch h), fun _ _ => ⟨rfl, rfl⟩⟩

theorem wp_step_booked (hbooked : Booked w) (hun : Unbooked w) (hl : Delivers w l)
    (hbooking : Booking c w l) :
    wp (step c l) (fun _ t => Booked t ∧ Unbooked t) (fun _ _ => False) w := by
  simp only [step, wp_tryCatch, wp_modify]
  refine wp_mono (wp_loopStep_booked hbooked hun hl) (fun _ t ht => ?_) fun _ t _ => booked_restart t
  exact ⟨ht.2.2 hbooking, ht.1⟩

/-- In the life of one process the condition is exact. -/
theorem booked_iff_booking {ls : List (Env × Label)} (hbooked : Booked w) (hun : Unbooked w)
    (hl : Along (fun l => loopStep c l.1 l.2) Delivers ls w)
    (hrun : (ls.forM fun l => loopStep c l.1 l.2).exec w = (.ok ⟨⟩, t)) :
    Throughout (fun l => loopStep c l.1 l.2) Booked ls w ↔
      Along (fun l => loopStep c l.1 l.2) (Booking c) ls w := by
  refine throughout_iff_along_of_invariant (I := Unbooked) (E := fun _ _ => True)
    (fun w l hun hb hl => ?_) (fun w l u hun hb hl hu => ?_) hun hbooked hl hrun
  · exact wp_mono (wp_loopStep_booked hb hun hl) (fun _ _ ht => ht.1) fun _ _ he => he
  · exact (exec_of_wp (wp_loopStep_booked hb hun hl) hu).2

/-- **The books are kept** in every state of a worker started on any broker, over any run whose steps
meet the condition, deaths and restarts included; and in every run, nothing is produced for a message
before its time. -/
theorem pauses_booked (c : Worker) (b : Broker) (ls : List (Env × Label)) :
    (Along (step c) (fun w l => Delivers w l ∧ Booking c w l) ls (restart { broker := b }) →
      Throughout (step c) Booked ls (restart { broker := b })) ∧
    ¬ Sometime (step c) (Early c) ls (restart { broker := b }) := by
  constructor
  · exact throughout_of_invariant (I := fun w => Booked w ∧ Unbooked w)
      (fun w l h hG => wp_step_booked h.1 h.2 hG.1 hG.2) (fun _ h => h.1) (booked_restart _)
  · rintro ⟨pre, l, post, t, u, -, -, hstep, hearly⟩
    exact exec_of_wp (wp_step_punctual c t l) hstep hearly

/-! ## A partition that stays paused -/

/-- A retry that is due after thirty seconds. -/
def waitingMessage : Message where
  topic := "order-lifecycle.retry"
  partition := 0
  offset := 0
  key := some "o".toUTF8
  value := some "v".toUTF8
  headers := [(hdrRetryAt, some "1970-01-01T00:00:30+00:00".toUTF8)]

/-- It is polled at once, and the worker looks again when it is due; `seek` and `resume` may fail. -/
def waited (seek resume : Option KafkaException) : List (Env × Label) :=
  [assigned, ({ seek := fun _ => seek }, .message waitingMessage),
    ({ now := 30000000, resume := fun _ => resume }, .idle)]

theorem pauses_booked_waited :
    Throughout (step inventoryWorker) Booked (waited none none) (restart { broker := {} }) := by
  refine (pauses_booked inventoryWorker {} (waited none none)).1
    (.cons ⟨nofun, trivial⟩ (.cons ⟨?_, fun _ _ _ => rfl, fun _ => rfl⟩ (.cons ⟨nofun, fun _ _ _ => rfl⟩ trivial)))
  rintro m ⟨⟩
  exact ⟨by decide, nofun⟩

def timedOut : KafkaException := ⟨some (.other (-185)), "_TIMED_OUT"⟩

/-- The pause succeeds and the seek fails: the partition is paused and nothing will resume it. So it is
when the resume fails, whose note is gone by then. -/
theorem pause_leaked :
    (Along (step inventoryWorker) Delivers (waited (some timedOut) none) (restart { broker := {} }) ∧
      ¬ Throughout (step inventoryWorker) Booked (waited (some timedOut) none) (restart { broker := {} })) ∧
    Along (step inventoryWorker) Delivers (waited none (some timedOut)) (restart { broker := {} }) ∧
      ¬ Throughout (step inventoryWorker) Booked (waited none (some timedOut)) (restart { broker := {} }) := by
  have hcontract : ∀ seek resume, Along (step inventoryWorker) Delivers (waited seek resume)
      (restart { broker := {} }) := by
    intro seek resume
    refine .cons nofun (.cons ?_ (.cons nofun trivial))
    rintro m ⟨⟩
    exact ⟨by decide, nofun⟩
  have hlast : ∀ {ls : List (Env × Label)} {t : World},
      (ls.forM (step inventoryWorker)).exec (restart { broker := {} }) = (.ok ⟨⟩, t) →
      waitingMessage.tp ∈ t.assignment → t.paused waitingMessage.tp = true →
      t.deferred waitingMessage.tp = none →
      ¬ Throughout (step inventoryWorker) Booked ls (restart { broker := {} }) :=
    fun hrun hassigned hpaused hnone h => (h.last hrun _ hassigned).1 hpaused hnone
  refine ⟨⟨hcontract _ _, ?_⟩, hcontract _ _, ?_⟩
  · exact hlast (exec_eq_of_ok (by decide +kernel)) (by decide +kernel) (by decide +kernel)
      (by decide +kernel)
  · exact hlast (exec_eq_of_ok (by decide +kernel)) (by decide +kernel) (by decide +kernel)
      (by decide +kernel)

end RetryWorker

end OrderService
