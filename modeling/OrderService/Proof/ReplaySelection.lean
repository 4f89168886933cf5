import OrderService.Proof.Replay

/-!
# What a dead-letter replay selects

A dry run examines the messages in scope up to the one that matches last under the limit (`window`).
So does a publishing run, except that it does not look at the limit after a message without an
origin, and ends where `produce` raises: `publishing_reached` says when the two agree, and
`dryRun_predicts` what that means for the two runs. The last section is about the exit code.
-/

namespace OrderService.DlqReplay

variable {args : Args} {a : Arrival} {k : Nat} {as : List Arrival}

/-! ## The window of a dry run -/

def Args.dryRun (args : Args) : Args := { args with publish := false }

def Args.publishing (args : Args) : Args := { args with publish := true }

@[simp] theorem publish_dryRun : args.dryRun.publish = false := rfl

@[simp] theorem publish_publishing : args.publishing.publish = true := rfl

@[simp] theorem matches_dryRun : args.dryRun.matches = args.matches := rfl

@[simp] theorem matches_publishing : args.publishing.matches = args.matches := rfl

@[simp] theorem excludes_dryRun : args.dryRun.excludes = args.excludes := rfl

@[simp] theorem excludes_publishing : args.publishing.excludes = args.excludes := rfl

@[simp] theorem limitHit_dryRun : args.dryRun.limitHit = args.limitHit := rfl

@[simp] theorem limitHit_publishing : args.publishing.limitHit = args.limitHit := rfl

variable (args) in
/-- How many matches the limit allows: all of them, or so many, but one at least. -/
def Args.cap : Option Nat := if args.limit = 0 then none else some (max 1 args.limit.toNat)

theorem limitHit_succ (k : Nat) : args.limitHit (k + 1) = args.cap.any (· ≤ k + 1) := by
  unfold Args.limitHit Args.cap
  by_cases h : args.limit = 0
  · simp [h]
  · rw [if_neg h, Option.any_some]
    refine decide_eq_decide.2 ?_
    omega

variable (args) in
/-- The messages in scope up to the last one the limit allows to match. -/
def window : Nat → List Arrival → List Arrival
  | _, [] => []
  | k, a :: as =>
    a :: if args.matches a && args.limitHit (k + 1) then []
      else window (k + if args.matches a then 1 else 0) as

/-- The first `n` of a list, or all of it. -/
def takeUpTo {α : Type} (n : Option Nat) (l : List α) : List α :=
  match n with
  | none => l
  | some n => l.take n

variable (args) in
/-- The matching messages the limit allows. -/
def firstMatching (as : List Arrival) : List Arrival := takeUpTo args.cap (as.filter args.matches)

/-- The limit has not been reached with `k` matches. -/
def Below (args : Args) (k : Nat) : Prop := ∀ n ∈ args.cap, k < n

theorem below_zero (args : Args) : Below args 0 := by
  intro n hn
  unfold Args.cap at hn
  split at hn
  · cases hn
  · cases hn
    exact Nat.lt_of_lt_of_le Nat.one_pos (Nat.le_max_left _ _)

theorem below_succ (h : args.limitHit (k + 1) = false) : Below args (k + 1) := by
  intro n hn
  rw [limitHit_succ, Option.mem_def.1 hn] at h
  simpa using h

theorem cap_of_limitHit (hk : Below args k) (h : args.limitHit (k + 1) = true) :
    args.cap = some (k + 1) := by
  rw [limitHit_succ] at h
  cases hcap : args.cap with
  | none =>
    rw [hcap] at h
    cases h
  | some n =>
    rw [hcap] at h
    have hlt := hk n hcap
    have hle : n ≤ k + 1 := by simpa using h
    exact congrArg some (Nat.le_antisymm hle hlt)

theorem window_filter (as : List Arrival) : ∀ {k : Nat}, Below args k →
    (window args k as).filter args.matches =
      takeUpTo (args.cap.map (· - k)) (as.filter args.matches) := by
  induction as with
  | nil =>
    intro k _
    cases args.cap <;> simp [window, takeUpTo]
  | cons a as ih =>
    intro k hk
    rw [window]
    cases hmatch : args.matches a with
    | false =>
      rw [List.filter_cons, List.filter_cons]
      simp [hmatch, ih hk]
    | true =>
      cases hhit : args.limitHit (k + 1) with
      | true =>
        rw [cap_of_limitHit hk hhit]
        simp [hmatch, takeUpTo]
      | false =>
        have hbelow := below_succ hhit
        rw [List.filter_cons, List.filter_cons, if_pos hmatch, if_pos hmatch]
        simp only [Bool.and_false, Bool.false_eq_true, if_false, if_true, ih hbelow]
        cases hcap : args.cap with
        | none => rfl
        | some n =>
          have hlt := hbelow n hcap
          obtain ⟨m, rfl⟩ : ∃ m, n = k + m + 1 := ⟨n - k - 1, by omega⟩
          have hleft : k + m + 1 - k = m + 1 := by omega
          have hleft' : k + m + 1 - (k + 1) = m := by omega
          simp [takeUpTo, hleft, hleft']

variable (args) in
theorem dryRun_reached (as : List Arrival) : ∀ k : Nat,
    reached args.dryRun k as = window args k as ∧ raisedIn args.dryRun k as = none := by
  induction as with
  | nil => exact fun _ => ⟨rfl, rfl⟩
  | cons a as ih =>
    intro k
    have hcontrol : controlOf args.dryRun k a =
        if args.matches a && args.limitHit (k + 1) then .stop else .next := by
      cases hmatch : args.matches a with
      | false => simp [controlOf, hmatch]
      | true =>
        simp only [controlOf, matches_dryRun, hmatch, publish_dryRun]
        rfl
    rw [reached, raisedIn, window, hcontrol]
    split
    · exact ⟨rfl, rfl⟩
    · rw [if_pos rfl, (ih _).1]
      exact ⟨rfl, (ih _).2⟩

/-! ## A publishing run -/

/-- The message is skipped: it is to be republished, and does not say where to. -/
def Skipped (args : Args) (a : Arrival) : Prop := args.excludes a = false ∧ a.target = none

/-- The message is to be republished, and `produce` raises. -/
def Refused (args : Args) (a : Arrival) : Prop :=
  args.excludes a = false ∧ a.target ≠ none ∧ a.refusal ≠ none

theorem Skipped.not_refused (h : Skipped args a) : ¬ Refused args a := fun hrefused => hrefused.2.1 h.2

/-- The last message the limit allows to match is skipped, and another message in scope follows. -/
def Overshoots (args : Args) (k : Nat) (as : List Arrival) : Prop :=
  ∃ pre a rest, as = pre ++ a :: rest ∧ rest ≠ [] ∧ args.matches a = true ∧ Skipped args a ∧
    args.cap = some (k + (pre.filter args.matches).length + 1)

theorem overshoots_hit (hk : Below args k) (hmatch : args.matches a = true)
    (hhit : args.limitHit (k + 1) = true) :
    Overshoots args k (a :: as) ↔ Skipped args a ∧ as ≠ [] := by
  have hcap := cap_of_limitHit hk hhit
  constructor
  · rintro ⟨pre, b, rest, heq, hrest, -, hskipped, hcount⟩
    rcases pre with _ | ⟨x, pre⟩
    · rw [List.nil_append] at heq
      cases heq
      exact ⟨hskipped, hrest⟩
    · rw [List.cons_append] at heq
      cases heq
      rw [hcap, List.filter_cons, if_pos hmatch, List.length_cons] at hcount
      have := Option.some.inj hcount
      omega
  · rintro ⟨hskipped, hne⟩
    exact ⟨[], a, as, rfl, hne, hmatch, hskipped, hcap⟩

theorem overshoots_next (hnot : (args.matches a && args.limitHit (k + 1)) = false) :
    Overshoots args k (a :: as) ↔
      Overshoots args (k + if args.matches a then 1 else 0) as := by
  have hcount : ∀ pre : List Arrival, k + ((a :: pre).filter args.matches).length =
      (k + if args.matches a then 1 else 0) + (pre.filter args.matches).length := by
    intro pre
    rw [List.filter_cons]
    split
    · rw [List.length_cons]
      omega
    · rfl
  constructor
  · rintro ⟨pre, b, rest, heq, hrest, hmatch, hskipped, hcap⟩
    rcases pre with _ | ⟨x, pre⟩
    · rw [List.nil_append] at heq
      cases heq
      rw [hmatch, Bool.true_and, limitHit_succ, hcap] at hnot
      simp at hnot
    · rw [List.cons_append] at heq
      cases heq
      rw [hcount] at hcap
      exact ⟨pre, b, rest, rfl, hrest, hmatch, hskipped, hcap⟩
  · rintro ⟨pre, b, rest, rfl, hrest, hmatch, hskipped, hcap⟩
    rw [← hcount] at hcap
    exact ⟨a :: pre, b, rest, rfl, hrest, hmatch, hskipped, hcap⟩

variable (args) in
/-- How the iteration ends in a publishing run. -/
theorem controlOf_publishing (k : Nat) (a : Arrival) :
    args.matches a = false ∧ controlOf args.publishing k a = .next ∨
    args.matches a = true ∧ Skipped args a ∧ controlOf args.publishing k a = .next ∨
    args.matches a = true ∧ Refused args a ∧ (∃ e, controlOf args.publishing k a = .raised e) ∨
    args.matches a = true ∧ ¬ Skipped args a ∧ ¬ Refused args a ∧
      controlOf args.publishing k a = if args.limitHit (k + 1) then .stop else .next := by
  cases hmatch : args.matches a with
  | false => exact .inl ⟨rfl, by simp [controlOf, hmatch]⟩
  | true =>
    cases hexcluded : args.excludes a with
    | true =>
      refine .inr (.inr (.inr ⟨rfl, fun h => ?_, fun h => ?_, ?_⟩))
      · rw [h.1] at hexcluded
        cases hexcluded
      · rw [h.1] at hexcluded
        cases hexcluded
      · simp only [controlOf, matches_publishing, hmatch, excludes_publishing, hexcluded]
        rfl
    | false =>
      cases htarget : a.target with
      | none =>
        refine .inr (.inl ⟨rfl, ⟨hexcluded, htarget⟩, ?_⟩)
        simp [controlOf, hmatch, hexcluded, htarget]
      | some target =>
        cases hrefusal : a.refusal with
        | some e =>
          refine .inr (.inr (.inl ⟨rfl, ⟨hexcluded, by simp [htarget], by simp [hrefusal]⟩, e, ?_⟩))
          simp [controlOf, hmatch, hexcluded, htarget, hrefusal]
        | none =>
          refine .inr (.inr (.inr ⟨rfl, fun h => ?_, fun h => h.2.2 hrefusal, ?_⟩))
          · cases htarget.symm.trans h.2
          · simp only [controlOf, matches_publishing, hmatch, publish_publishing,
              excludes_publishing, hexcluded, htarget, hrefusal]
            rfl

/-- **When a publishing run examines the window of a dry run.** -/
theorem publishing_reached (as : List Arrival) : ∀ {k : Nat}, Below args k →
    (reached args.publishing k as = window args k as ∧ raisedIn args.publishing k as = none ↔
      ¬ Overshoots args k as ∧
        ∀ a ∈ (window args k as).filter args.matches, ¬ Refused args a) := by
  induction as with
  | nil =>
    intro k _
    refine iff_of_true ⟨rfl, rfl⟩ ⟨?_, fun a ha => by cases ha⟩
    rintro ⟨pre, a, rest, heq, -⟩
    simp at heq
  | cons a as ih =>
    intro k hk
    have hcases := controlOf_publishing args k a
    rw [reached, raisedIn, window]
    cases hhit : args.matches a && args.limitHit (k + 1) with
    | true =>
      obtain ⟨hmatch, hlimit⟩ := Bool.and_eq_true_iff.1 hhit
      rw [overshoots_hit hk hmatch hlimit, if_pos rfl, List.filter_cons_of_pos hmatch]
      obtain ⟨hno, -⟩ | ⟨-, hskipped, hcontrol⟩ | ⟨-, hrefused, e, hcontrol⟩ |
        ⟨-, hnskipped, hnrefused, hcontrol⟩ := hcases
      · rw [hmatch] at hno
        cases hno
      · rw [hcontrol, if_pos rfl]
        rcases as with _ | ⟨b, bs⟩
        · exact iff_of_true ⟨rfl, rfl⟩ ⟨fun h => h.2 rfl, by simpa using hskipped.not_refused⟩
        · refine iff_of_false (fun h => ?_) fun h => h.1 ⟨hskipped, by simp⟩
          simp [reached] at h
      · rw [hcontrol]
        refine iff_of_false (fun h => ?_) fun h => h.2 a (.head _) hrefused
        cases h.2
      · rw [hcontrol, if_pos hlimit]
        exact iff_of_true ⟨rfl, rfl⟩ ⟨fun h => hnskipped h.1, by simpa using hnrefused⟩
    | false =>
      rw [overshoots_next hhit, if_neg Bool.false_ne_true]
      obtain ⟨hmatch, hcontrol⟩ | ⟨hmatch, hskipped, hcontrol⟩ | ⟨hmatch, hrefused, e, hcontrol⟩ |
        ⟨hmatch, -, hnrefused, hcontrol⟩ := hcases
      · rw [hcontrol, if_pos rfl, List.filter_cons_of_neg (by simp [hmatch])]
        simp only [List.cons.injEq, true_and, matches_publishing, hmatch, Bool.false_eq_true, if_false]
        exact ih hk
      · rw [hmatch, Bool.true_and] at hhit
        rw [hcontrol, if_pos rfl, List.filter_cons_of_pos hmatch, List.forall_mem_cons]
        simp only [List.cons.injEq, true_and, matches_publishing, hmatch, if_true]
        rw [ih (below_succ hhit)]
        exact and_congr_right fun _ => (and_iff_right hskipped.not_refused).symm
      · rw [hcontrol, List.filter_cons_of_pos hmatch]
        refine iff_of_false (fun h => ?_) fun h => h.2 a (.head _) hrefused
        cases h.2
      · rw [hmatch, Bool.true_and] at hhit
        rw [hcontrol, hhit, if_neg Bool.false_ne_true, if_pos rfl, List.filter_cons_of_pos hmatch,
          List.forall_mem_cons]
        simp only [List.cons.injEq, true_and, matches_publishing, hmatch, if_true]
        rw [ih (below_succ hhit)]
        exact and_congr_right fun _ => (and_iff_right hnrefused).symm

/-! ## The two runs -/

/-- The dry run predicted the publishing run: both report, on the same messages, with the same
counts, within the limit; and what is republished are the matching messages that the limit allows,
are not excluded and say where they came from, as they are and without headers. -/
structure Predicts (args : Args) (as : List Arrival) (dry published : Except Exn Verdict × Run) :
    Prop where
  reports : dry.1 = .ok .inspected ∧ ∃ verdict, published.1 = .ok verdict
  examined : dry.2.examined = published.2.examined
  seen : dry.2.seen = published.2.seen
  matched : dry.2.matched = published.2.matched
  excluded : dry.2.excluded = published.2.excluded
  limited : 0 < args.limit → (dry.2.matched : Int) ≤ args.limit ∧ (published.2.matched : Int) ≤ args.limit
  republished : published.2.produced = (firstMatching args as).filterMap fun a =>
    if args.excludes a then none else a.target.map a.copyTo

theorem prefix_of_window (as : List Arrival) : ∀ k : Nat, window args k as <+: as := by
  induction as with
  | nil => exact fun _ => List.prefix_refl _
  | cons a as ih =>
    intro k
    rw [window, List.cons_prefix_cons]
    refine ⟨rfl, ?_⟩
    split
    · exact List.nil_prefix
    · exact ih _

theorem prefix_of_reached (as : List Arrival) : ∀ k : Nat, reached args k as <+: as := by
  induction as with
  | nil => exact fun _ => List.prefix_refl _
  | cons a as ih =>
    intro k
    rw [reached, List.cons_prefix_cons]
    refine ⟨rfl, ?_⟩
    split
    · exact ih _
    · exact List.nil_prefix

theorem firstMatching_eq (as : List Arrival) :
    (window args 0 as).filter args.matches = firstMatching args as := by
  rw [window_filter as (below_zero args), firstMatching]
  cases args.cap <;> rfl

theorem firstMatching_length (as : List Arrival) (h : 0 < args.limit) :
    ((firstMatching args as).length : Int) ≤ args.limit := by
  have hcap : args.cap = some args.limit.toNat := by
    unfold Args.cap
    rw [if_neg (by omega)]
    congr 1
    omega
  rw [firstMatching, hcap, takeUpTo]
  have := List.length_take_le args.limit.toNat (as.filter args.matches)
  omega

theorem copies_of_window {u : List Arrival}
    (h : ∀ a ∈ u.filter args.matches, ¬ Refused args a) :
    u.filterMap args.publishing.copy = (u.filter args.matches).filterMap fun a =>
      if args.excludes a then none else a.target.map a.copyTo := by
  rw [List.filterMap_filter]
  refine List.filterMap_congr fun a ha => ?_
  unfold Args.copy
  cases hmatch : args.matches a with
  | false => simp [hmatch]
  | true =>
    have hnot := h a (List.mem_filter.2 ⟨ha, hmatch⟩)
    cases hexcluded : args.excludes a with
    | true => simp [hexcluded]
    | false =>
      cases htarget : a.target with
      | none => simp [hmatch]
      | some target =>
        cases hrefusal : a.refusal with
        | some e => exact absurd ⟨hexcluded, by simp [htarget], by simp [hrefusal]⟩ hnot
        | none => simp [hmatch, hexcluded]

/-- **When a dry run predicts the publishing run.** The two read the same snapshot and are delivered
the same messages in scope, each partition in its order. The prediction holds exactly if the last
message the limit allows to match is not skipped with another message in scope to follow, and
`produce` raises for none of the messages to be republished. -/
theorem dryRun_predicts (args : Args) (settings : Settings) (cluster : Cluster) (polls : List Poll)
    (snapshot : Snapshot) (hsnapshot : snapshotTopic cluster settings.dlqTopic = .ok snapshot)
    (horder : InOrder ((delivered cluster.polls).map Arrival.message))
    (horder' : InOrder ((delivered polls).map Arrival.message))
    (hsame : candidates snapshot.endOffsets polls = candidates snapshot.endOffsets cluster.polls) :
    Predicts args (candidates snapshot.endOffsets cluster.polls)
        (replay args.dryRun settings cluster)
        (replay args.publishing settings { cluster with polls := polls }) ↔
      ¬ Overshoots args 0 (candidates snapshot.endOffsets cluster.polls) ∧
        ∀ a ∈ firstMatching args (candidates snapshot.endOffsets cluster.polls), ¬ Refused args a := by
  have hsnapshot' : snapshotTopic { cluster with polls := polls } settings.dlqTopic = .ok snapshot :=
    hsnapshot
  obtain ⟨_, _, s, -, -, -, -, hs, hdry⟩ := replay_eq args.dryRun hsnapshot horder
  obtain ⟨_, _, t, -, -, -, -, ht, hpublished⟩ := replay_eq args.publishing hsnapshot' horder'
  simp only [hsame] at ht hpublished
  generalize candidates snapshot.endOffsets cluster.polls = as at *
  obtain ⟨hwindow, hraised⟩ := dryRun_reached args as 0
  rw [hwindow] at hs
  rw [hraised] at hdry
  have hiff := publishing_reached as (below_zero args)
  rw [firstMatching_eq] at hiff
  rw [← hiff, hdry, hpublished]
  constructor
  · intro h
    obtain ⟨-, verdict, hverdict⟩ := h.reports
    have hnone : raisedIn args.publishing 0 as = none := by
      cases hraise : raisedIn args.publishing 0 as with
      | none => rfl
      | some e =>
        rw [hraise] at hverdict
        cases hverdict
    refine ⟨?_, hnone⟩
    have hexamined := congrArg List.length h.examined
    simp only [hs, ht, tally, List.nil_append, List.length_map] at hexamined
    exact (List.prefix_of_prefix_length_le (prefix_of_reached as 0) (prefix_of_window as 0)
      (Nat.le_of_eq hexamined.symm)).eq_of_length hexamined.symm
  · rintro ⟨hreached, hnone⟩
    obtain ⟨-, hrefused⟩ := hiff.1 ⟨hreached, hnone⟩
    rw [← firstMatching_eq] at hrefused
    rw [hreached] at ht
    rw [hnone]
    refine ⟨⟨rfl, _, rfl⟩, ?_, ?_, ?_, ?_, fun hlimit => ?_, ?_⟩
    · simp only [hs, ht, tally]
    · simp only [hs, ht, tally]
    · simp only [hs, ht, tally, matches_dryRun, matches_publishing]
    · simp only [hs, ht, tally, matches_dryRun, matches_publishing, excludes_dryRun,
        excludes_publishing]
    · have hlength : ((firstMatching args as).length : Int) ≤ args.limit :=
        firstMatching_length as hlimit
      rw [← firstMatching_eq] at hlength
      simp only [hs, ht, tally, matches_dryRun, matches_publishing, Nat.zero_add]
      exact ⟨hlength, hlength⟩
    · rw [← firstMatching_eq, ← copies_of_window hrefused]
      simp only [ht, tally, List.nil_append]

/-! A limit of one, and a first dead letter that does not say where it came from. -/

def unlabelled : Cluster where
  describe := .ok (some (.ok [0]))
  watermarks := fun _ => .ok (0, 2)
  polls := [.message { message := { deadLetter 0 with headers := [] } },
    .message { message := deadLetter 1 }]

theorem limit_overshot :
    (replay (Args.dryRun { limit := 1 }) {} unlabelled).2.seen = 1 ∧
      (replay (Args.publishing { limit := 1 }) {} unlabelled).2.seen = 2 ∧
      (replay (Args.publishing { limit := 1 }) {} unlabelled).2.matched = 2 ∧
      ¬ Predicts { limit := 1 } (candidates [(0, 2)] unlabelled.polls)
        (replay (Args.dryRun { limit := 1 }) {} unlabelled)
        (replay (Args.publishing { limit := 1 }) {} unlabelled) := by
  refine ⟨by decide +kernel, by decide +kernel, by decide +kernel, fun h => ?_⟩
  exact absurd h.matched (by decide +kernel)

theorem dryRun_predicts_refilled :
    Predicts { limit := 1 } (candidates [(0, 2)] refilled.polls)
      (replay (Args.dryRun { limit := 1 }) {} refilled)
      (replay (Args.publishing { limit := 1 }) {} refilled) := by
  have horder : InOrder ((delivered refilled.polls).map Arrival.message) := by
    simp [InOrder, refilled, delivered, deadLetter]
  have hcandidates : candidates [(0, 2)] refilled.polls =
      [{ message := deadLetter 0 }, { message := deadLetter 1 }] := rfl
  have hlabelled : ∀ a ∈ candidates [(0, 2)] refilled.polls, a.target ≠ none ∧ a.refusal = none := by
    rw [hcandidates]
    intro a ha
    simp only [List.mem_cons, List.not_mem_nil, or_false] at ha
    rcases ha with rfl | rfl
    · exact ⟨by decide +kernel, rfl⟩
    · exact ⟨by decide +kernel, rfl⟩
  refine (dryRun_predicts { limit := 1 } {} refilled refilled.polls
    ⟨[(⟨"order-lifecycle.dlq", 0⟩, 0)], [(0, 2)]⟩ rfl horder horder rfl).2 ⟨?_, fun a ha h => ?_⟩
  · rintro ⟨pre, a, rest, heq, -, -, hskipped, -⟩
    refine (hlabelled a ?_).1 hskipped.2
    rw [heq]
    simp
  · refine h.2.2 (hlabelled a ?_).2
    rw [← firstMatching_eq] at ha
    exact (prefix_of_window _ 0).subset (List.mem_filter.1 ha).1

/-! ## The exit code -/

variable (args) in
/-- The messages a run hands to the producer, of those in scope. -/
def handedOver (as : List Arrival) : List Arrival := (reached args 0 as).filter fun a => (args.copy a).isSome

/-- The run ends with exit code 0 only if it reports as republished what it counted, and each of
these was acknowledged. -/
def Honest (r : Except Exn Verdict × Run) : Prop :=
  exitStatus r.1 = 0 →
    r.1 = .ok (.republished r.2.produced.length) ∧ r.2.published = r.2.produced.length ∧
      ∀ q ∈ r.2.produced, q.fate = .acked

theorem fates_of_handedOver {u : List Arrival} {P : Fate → Prop} :
    (∀ q ∈ u.filterMap args.copy, P q.fate) ↔
      ∀ a ∈ u.filter fun a => (args.copy a).isSome, P a.fate := by
  have hfate : ∀ a q, args.copy a = some q → q.fate = a.fate := by
    intro a q h
    unfold Args.copy at h
    split at h
    · obtain ⟨target, -, rfl⟩ := Option.map_eq_some_iff.1 h
      rfl
    · cases h
  constructor
  · intro h a ha
    obtain ⟨ha, hsome⟩ := List.mem_filter.1 ha
    obtain ⟨q, hq⟩ := Option.isSome_iff_exists.1 hsome
    rw [← hfate a q hq]
    exact h q (List.mem_filterMap.2 ⟨a, ha, hq⟩)
  · intro h q hq
    obtain ⟨a, ha, hcopy⟩ := List.mem_filterMap.1 hq
    rw [hfate a q hcopy]
    exact h a (List.mem_filter.2 ⟨ha, by simp [hcopy]⟩)

/-- **When the exit code tells the truth.** A publishing run ends with 0 only if all it counts was
acknowledged, exactly if `produce` raises, or one of the messages handed over is still queued when
the final flush returns, or none of them failed for good. -/
theorem exit_honest (args : Args) (settings : Settings) (cluster : Cluster) (snapshot : Snapshot)
    (hpublish : args.publish = true)
    (hsnapshot : snapshotTopic cluster settings.dlqTopic = .ok snapshot)
    (horder : InOrder ((delivered cluster.polls).map Arrival.message)) :
    Honest (replay args settings cluster) ↔
      raisedIn args 0 (candidates snapshot.endOffsets cluster.polls) ≠ none ∨
      (∃ a ∈ handedOver args (candidates snapshot.endOffsets cluster.polls), a.fate = .queued) ∨
      ∀ a ∈ handedOver args (candidates snapshot.endOffsets cluster.polls), a.fate ≠ .failed := by
  obtain ⟨_, _, s, -, -, -, -, hs, hreplay⟩ := replay_eq args hsnapshot horder
  generalize candidates snapshot.endOffsets cluster.polls = as at *
  have hproduced : s.produced = (reached args 0 as).filterMap args.copy := by
    rw [hs]
    exact List.nil_append _
  have hpublished : s.published = s.produced.length := by
    rw [hproduced, hs]
    exact Nat.zero_add _
  rw [hreplay]
  cases hraised : raisedIn args 0 as with
  | some e => exact iff_of_true (fun h => by cases h) (.inl (by simp))
  | none =>
    have hleft : remaining s = 0 ↔ ∀ a ∈ handedOver args as, a.fate ≠ .queued := by
      rw [handedOver, ← fates_of_handedOver (P := (· ≠ .queued)), ← hproduced, remaining,
        List.length_eq_zero_iff, List.filter_eq_nil_iff]
      simp
    have hacked : (∀ q ∈ s.produced, q.fate = .acked) ↔ ∀ a ∈ handedOver args as, a.fate = .acked := by
      rw [hproduced, handedOver, ← fates_of_handedOver (P := (· = .acked))]
    by_cases hqueued : ∃ a ∈ handedOver args as, a.fate = .queued
    · refine iff_of_true (fun hexit => ?_) (.inr (.inl hqueued))
      obtain ⟨a, ha, hfate⟩ := hqueued
      have hne : remaining s ≠ 0 := fun h => hleft.1 h a ha hfate
      simp [exitStatus, verdictOf, hpublish, hne, Verdict.exitCode] at hexit
    · push Not at hqueued
      have hverdict : verdictOf args s = .republished s.published := by
        unfold verdictOf
        rw [if_pos hpublish, if_neg (not_not.2 (hleft.2 hqueued))]
      unfold Honest
      rw [hverdict]
      constructor
      · intro h
        obtain ⟨-, -, hall⟩ := h rfl
        refine .inr (.inr fun a ha hfailed => ?_)
        rw [hacked.1 hall a ha] at hfailed
        cases hfailed
      · rintro (h | ⟨a, ha, hfate⟩ | hnone)
        · exact absurd rfl h
        · exact absurd hfate (hqueued a ha)
        · refine fun _ => ⟨by rw [hpublished], hpublished, hacked.2 fun a ha => ?_⟩
          cases hfate : a.fate with
          | acked => rfl
          | failed => exact absurd hfate (hnone a ha)
          | queued => exact absurd hfate (hqueued a ha)

/-! A dead letter whose republication fails for good. -/

def failing : Cluster where
  describe := .ok (some (.ok [0]))
  watermarks := fun _ => .ok (0, 1)
  polls := [.message { message := deadLetter 0, fate := .failed }]

theorem failed_reported :
    (replay { publish := true } {} failing).1 = .ok (.republished 1) ∧
      exitStatus (replay { publish := true } {} failing).1 = 0 ∧
      ¬ Honest (replay { publish := true } {} failing) := by
  have hreported : (replay { publish := true } {} failing).1 = .ok (.republished 1) := by
    decide +kernel
  refine ⟨hreported, ?_, fun h => ?_⟩
  · rw [hreported]
    rfl
  · obtain ⟨-, -, hall⟩ := h (by rw [hreported]; rfl)
    revert hall
    decide +kernel

theorem exit_honest_refilled : Honest (replay { publish := true } {} refilled) := by
  have horder : InOrder ((delivered refilled.polls).map Arrival.message) := by
    simp [InOrder, refilled, delivered, deadLetter]
  refine (exit_honest { publish := true } {} refilled ⟨[(⟨"order-lifecycle.dlq", 0⟩, 0)], [(0, 2)]⟩ rfl
    rfl horder).2 (.inr (.inr fun a ha => ?_))
  have hcandidates : candidates [(0, 2)] refilled.polls =
      [{ message := deadLetter 0 }, { message := deadLetter 1 }] := rfl
  have hmem := (prefix_of_reached _ 0).subset (List.mem_filter.1 ha).1
  rw [hcandidates] at hmem
  simp only [List.mem_cons, List.not_mem_nil, or_false] at hmem
  rcases hmem with rfl | rfl <;> simp

end OrderService.DlqReplay
