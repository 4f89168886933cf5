import Mathlib.Algebra.GroupWithZero.Nat
import OrderService.Tools.DlqReplay

/-!
# Runs of the dead-letter tool

An iteration counts one message and decides how the loop goes on (`inspect_eq`). While `poll` keeps
the order of each partition, a message is in scope of the run exactly if its offset is below the
watermark recorded for its partition, however far the others are; a run is then determined by its
messages in scope (`loop_eq`), and is bounded by its snapshot (`replay_bounded`).
-/

namespace OrderService.DlqReplay

variable {args : Args} {s : Run} {a : Arrival} {k : Nat}

/-! ## One message -/

variable (args) in
/-- The message is of the service asked for. -/
def Args.matches (a : Arrival) : Bool := args.admits (decodeHeaders a.message)

variable (args) in
/-- It is excluded as non-retryable. -/
def Args.excludes (a : Arrival) : Bool :=
  (decodeHeaders a.message hdrErrorClass).any (· ∈ nonRetryableErrorClasses) && !args.includePoison

/-- Where it came from, if its header says so. -/
def Arrival.target (a : Arrival) : Option String :=
  (decodeHeaders a.message hdrOriginalTopic).filter (· ≠ "")

/-- Its republication. -/
def Arrival.copyTo (a : Arrival) (target : String) : Republished :=
  ⟨target, a.message.key, a.message.value, [], a.message.id, a.fate⟩

variable (args) in
/-- What the run hands to the producer for it. -/
def Args.copy (a : Arrival) : Option Republished :=
  if args.publish && args.matches a && !args.excludes a && a.refusal.isNone then
    a.target.map a.copyTo
  else none

variable (args) in
/-- The limit is reached with `k` matches. -/
def Args.limitHit (k : Nat) : Bool := args.limit ≠ 0 ∧ args.limit ≤ k

variable (args) in
/-- How the iteration for a message in scope ends, `k` having matched before. -/
def controlOf (k : Nat) (a : Arrival) : Control :=
  if !args.matches a then .next
  else if args.publish && !args.excludes a then
    match a.target with
    | none => .next
    | some _ =>
      match a.refusal with
      | some e => .raised e
      | none => if args.limitHit (k + 1) then .stop else .next
  else if args.limitHit (k + 1) then .stop else .next

variable (args) in
/-- The run with messages `u` counted in. -/
def tally (u : List Arrival) (s : Run) : Run :=
  { s with
    seen := s.seen + u.length
    matched := s.matched + (u.filter args.matches).length
    excluded := s.excluded + ((u.filter args.matches).filter args.excludes).length
    published := s.published + (u.filterMap args.copy).length
    produced := s.produced ++ u.filterMap args.copy
    examined := s.examined ++ u.map Arrival.message }

theorem tally_nil (s : Run) : tally args [] s = s := by
  simp [tally]

theorem tally_append (u v : List Arrival) (s : Run) :
    tally args (u ++ v) s = tally args v (tally args u s) := by
  simp only [tally, List.filter_append, List.filterMap_append, List.map_append, List.length_append,
    Nat.add_assoc, List.append_assoc]

@[simp] theorem pending_tally (u : List Arrival) (s : Run) : (tally args u s).pending = s.pending := rfl

@[simp] theorem polled_tally (u : List Arrival) (s : Run) : (tally args u s).polled = s.polled := rfl

theorem checkLimit_eq (s : Run) :
    checkLimit args s = (s, if args.limitHit s.matched then .stop else .next) := by
  unfold checkLimit Args.limitHit
  split <;> simp [*]

/-- The target, read back from the header as the code tests it. -/
theorem target_cases (a : Arrival) :
    (a.target = none ∧ (decodeHeaders a.message hdrOriginalTopic = none ∨
      decodeHeaders a.message hdrOriginalTopic = some "")) ∨
    ∃ target, target ≠ "" ∧ a.target = some target ∧
      decodeHeaders a.message hdrOriginalTopic = some target := by
  unfold Arrival.target
  cases h : decodeHeaders a.message hdrOriginalTopic with
  | none => exact .inl ⟨rfl, .inl rfl⟩
  | some target =>
    by_cases hempty : target = ""
    · exact .inl ⟨by simp [hempty], .inr (by rw [hempty])⟩
    · exact .inr ⟨target, hempty, by simp [hempty], rfl⟩

/-- **The iteration**: a message in scope is counted, and decides how the loop goes on. -/
theorem inspect_eq (a : Arrival) (s : Run) :
    inspect args a s = (tally args [a] s, controlOf args s.matched a) := by
  cases hmatches : args.matches a with
  | false =>
    have hadmits : args.admits (decodeHeaders a.message) = false := hmatches
    simp [inspect, controlOf, tally, Args.copy, hmatches, hadmits]
  | true =>
    have hadmits : args.admits (decodeHeaders a.message) = true := hmatches
    cases hexcludes : args.excludes a with
    | true =>
      have hexcluded := hexcludes
      unfold Args.excludes at hexcluded
      simp only [inspect, hadmits, hexcluded, checkLimit_eq]
      simp [controlOf, tally, Args.copy, hmatches, hexcludes]
    | false =>
      have hincluded := hexcludes
      unfold Args.excludes at hincluded
      cases hpublish : args.publish with
      | false =>
        simp only [inspect, hadmits, hincluded, hpublish, checkLimit_eq]
        simp [controlOf, tally, Args.copy, hmatches, hexcludes, hpublish]
      | true =>
        obtain ⟨htarget, hnone | hempty⟩ | ⟨target, hne, htarget, hsome⟩ := target_cases a
        · simp [inspect, hadmits, hincluded, hpublish, hnone, controlOf, tally, Args.copy, hmatches,
            hexcludes, htarget]
        · simp [inspect, hadmits, hincluded, hpublish, hempty, controlOf, tally, Args.copy, hmatches,
            hexcludes, htarget]
        · cases hrefusal : a.refusal with
          | some e =>
            simp [inspect, hadmits, hincluded, hpublish, hsome, controlOf, tally, Args.copy, hmatches,
              hexcludes, htarget, hrefusal]
          | none =>
            simp [inspect, hadmits, hincluded, hpublish, hsome, controlOf, tally, Args.copy, hmatches,
              hexcludes, htarget, hrefusal, checkLimit_eq, Arrival.copyTo]

/-! ## The messages in scope -/

variable (args) in
/-- The messages a run examines of those in scope, `k` having matched before. -/
def reached : Nat → List Arrival → List Arrival
  | _, [] => []
  | k, a :: as =>
    a :: if controlOf args k a = .next then reached (k + if args.matches a then 1 else 0) as else []

variable (args) in
/-- What the run raises on the way. -/
def raisedIn : Nat → List Arrival → Option Exn
  | _, [] => none
  | k, a :: as =>
    match controlOf args k a with
    | .next => raisedIn (k + if args.matches a then 1 else 0) as
    | .stop => none
    | .raised e => some e

/-- What `poll` delivers before the first time-out or error. -/
def delivered : List Poll → List Arrival
  | [] => []
  | .timeout :: _ => []
  | .error code :: polls => if code = .partitionEof then delivered polls else []
  | .message a :: polls => a :: delivered polls

/-- The offset is below the watermark recorded for the partition. -/
def inScope (ends : List (Nat × Nat)) (m : Message) : Bool :=
  (ends.lookup m.partition).any (m.offset < ·)

/-- The messages of each partition come in the order of their offsets. -/
def InOrder (l : List Message) : Prop :=
  l.Pairwise fun m m' => m.partition = m'.partition → m.offset < m'.offset

/-- The partitions of which no message at or past the last offset was polled. -/
def pendingAfter (ends : List (Nat × Nat)) (polled : List Message) : List (Nat × Nat) :=
  ends.filter fun e => polled.all fun m => m.partition ≠ e.1 || m.offset + 1 < e.2

/-! ### Dictionaries -/

theorem lookup_of_mem {l : List (Nat × Nat)} (hl : (l.map Prod.fst).Nodup) {p n : Nat}
    (h : (p, n) ∈ l) : l.lookup p = some n := by
  induction l with
  | nil => cases h
  | cons e l ih =>
    obtain ⟨q, m⟩ := e
    rw [List.map_cons, List.nodup_cons] at hl
    rw [List.lookup_cons]
    rcases List.mem_cons.1 h with heq | htail
    · cases heq
      simp
    · have hne : p ≠ q := fun heq => hl.1 (List.mem_map.2 ⟨(p, n), htail, heq⟩)
      rw [beq_eq_false_iff_ne.2 hne]
      exact ih hl.2 htail

theorem mem_of_lookup {l : List (Nat × Nat)} {p n : Nat} (h : l.lookup p = some n) : (p, n) ∈ l := by
  obtain ⟨l₁, l₂, rfl, -⟩ := List.lookup_eq_some_iff.1 h
  simp

theorem notMem_of_lookup {l : List (Nat × Nat)} {p : Nat} (h : l.lookup p = none) (n : Nat) :
    (p, n) ∉ l := by
  intro hmem
  have hne := List.lookup_eq_none_iff.1 h (p, n) hmem
  simp at hne

/-- An entry is dropped by key, or kept, as the message says. -/
theorem pendingAfter_concat {ends : List (Nat × Nat)} (hends : (ends.map Prod.fst).Nodup)
    (polled : List Message) (m : Message) :
    pendingAfter ends (polled ++ [m]) = match (pendingAfter ends polled).lookup m.partition with
      | none => pendingAfter ends polled
      | some last =>
        if last ≤ m.offset + 1 then (pendingAfter ends polled).filter (·.1 ≠ m.partition)
        else pendingAfter ends polled := by
  have hconcat : pendingAfter ends (polled ++ [m]) = (pendingAfter ends polled).filter
      fun e => m.partition ≠ e.1 || m.offset + 1 < e.2 := by
    unfold pendingAfter
    rw [List.filter_filter]
    refine List.filter_congr fun e _ => ?_
    rw [List.all_append, Bool.and_comm]
    simp
  have hnodup : ((pendingAfter ends polled).map Prod.fst).Nodup :=
    hends.sublist (List.filter_sublist.map _)
  rw [hconcat]
  generalize pendingAfter ends polled = l at hnodup ⊢
  cases hlookup : l.lookup m.partition with
  | none =>
    rw [List.filter_eq_self]
    rintro ⟨p, n⟩ hmem
    have hne : m.partition ≠ p := by
      rintro rfl
      exact notMem_of_lookup hlookup n hmem
    simp [hne]
  | some last =>
    have hlast : ∀ n, (m.partition, n) ∈ l → n = last := by
      intro n hmem
      exact Option.some.inj ((lookup_of_mem hnodup hmem).symm.trans hlookup)
    simp only []
    split
    · refine List.filter_congr ?_
      rintro ⟨p, n⟩ hmem
      by_cases hp : p = m.partition
      · subst hp
        have := hlast n hmem
        simp
        omega
      · simp [hp, Ne.symm hp]
    · rw [List.filter_eq_self]
      rintro ⟨p, n⟩ hmem
      by_cases hp : p = m.partition
      · subst hp
        have := hlast n hmem
        simp
        omega
      · simp [Ne.symm hp]

/-! ### The loop -/

variable {ends : List (Nat × Nat)}

theorem mem_pendingAfter {polled : List Message} {p last : Nat} :
    (p, last) ∈ pendingAfter ends polled ↔
      (p, last) ∈ ends ∧ ∀ m ∈ polled, m.partition = p → m.offset + 1 < last := by
  unfold pendingAfter
  rw [List.mem_filter, List.all_eq_true]
  refine and_congr_right fun _ => forall₂_congr fun m _ => ?_
  by_cases hp : m.partition = p <;> simp [hp]

/-- A message that comes after all polled ones is in scope exactly if its partition is pending and
the recorded watermark is above it. -/
theorem inScope_next (hends : (ends.map Prod.fst).Nodup) {polled : List Message} {m : Message}
    (horder : InOrder (polled ++ [m])) : inScope ends m =
      ((pendingAfter ends polled).lookup m.partition).any (m.offset < ·) := by
  have hnodup : ((pendingAfter ends polled).map Prod.fst).Nodup :=
    hends.sublist (List.filter_sublist.map _)
  unfold inScope
  cases hlookup : (pendingAfter ends polled).lookup m.partition with
  | some last =>
    have hmem := (mem_pendingAfter.1 (mem_of_lookup hlookup)).1
    rw [lookup_of_mem hends hmem]
  | none =>
    cases hlast : ends.lookup m.partition with
    | none => rfl
    | some last =>
      have hnotin := notMem_of_lookup hlookup last
      rw [mem_pendingAfter] at hnotin
      push Not at hnotin
      obtain ⟨m', hm', hp, hle⟩ := hnotin (mem_of_lookup hlast)
      have hlt := (List.pairwise_append.1 horder).2.2 m' hm' m (List.mem_singleton_self _) hp
      simp
      omega

/-- The iteration for a polled message, in scope or not. -/
theorem examine_eq (hends : (ends.map Prod.fst).Nodup) (hs : s.pending = pendingAfter ends s.polled)
    (horder : InOrder (s.polled ++ [a.message])) : examine args a s =
      if inScope ends a.message then
        ({ tally args [a] s with
          pending := pendingAfter ends (s.polled ++ [a.message])
          polled := s.polled ++ [a.message] }, controlOf args s.matched a)
      else
        ({ s with
          pending := pendingAfter ends (s.polled ++ [a.message])
          polled := s.polled ++ [a.message] }, .next) := by
  rw [inScope_next hends horder, pendingAfter_concat hends]
  unfold examine
  simp only [← hs]
  cases hlookup : s.pending.lookup a.message.partition with
  | none => simp
  | some last =>
    simp only [Option.any_some, decide_eq_true_eq]
    by_cases hin : a.message.offset < last
    · rw [if_pos hin, if_pos hin, inspect_eq]
      split <;> rfl
    · rw [if_neg hin, if_neg hin]
      split <;> rfl

variable (ends) in
/-- The messages in scope that `poll` delivers. -/
def candidates (polls : List Poll) : List Arrival :=
  (delivered polls).filter fun a => inScope ends a.message

theorem controlOf_of_next (as : List Arrival) (h : controlOf args k a = .next) :
    reached args k (a :: as) = a :: reached args (k + if args.matches a then 1 else 0) as ∧
      raisedIn args k (a :: as) = raisedIn args (k + if args.matches a then 1 else 0) as := by
  constructor
  · rw [reached, if_pos h]
  · rw [raisedIn, h]

theorem matched_tally_singleton (a : Arrival) (s : Run) :
    (tally args [a] s).matched = s.matched + if args.matches a then 1 else 0 := by
  unfold tally
  by_cases h : args.matches a <;> simp [h]

variable (args ends) in
/-- What a loop is known to do: the messages polled go on as `poll` delivers them, those in scope
of them were examined, and these are what the run did. -/
def Loops (polls : List Poll) (s : Run) : Prop :=
  ∃ polled, polled <+: (delivered polls).map Arrival.message ∧
    polled.filter (inScope ends) =
      (reached args s.matched (candidates ends polls)).map Arrival.message ∧
    loop args polls s = ({ tally args (reached args s.matched (candidates ends polls)) s with
      pending := pendingAfter ends (s.polled ++ polled), polled := s.polled ++ polled },
      raisedIn args s.matched (candidates ends polls))

theorem loops_of_halt {polls : List Poll} (hs : s.pending = pendingAfter ends s.polled)
    (hcandidates : candidates ends polls = []) (hloop : loop args polls s = (s, none)) :
    Loops args ends polls s := by
  refine ⟨[], List.nil_prefix, ?_, ?_⟩
  · rw [hcandidates]
    rfl
  · rw [hcandidates, hloop, reached, raisedIn, tally_nil, List.append_nil, ← hs]

/-- When no partition is pending, no message in scope is to come. -/
theorem candidates_of_done (hends : (ends.map Prod.fst).Nodup)
    (hs : s.pending = pendingAfter ends s.polled) (hdone : s.pending = []) {polls : List Poll}
    (horder : InOrder (s.polled ++ (delivered polls).map Arrival.message)) :
    candidates ends polls = [] := by
  unfold candidates
  rw [List.filter_eq_nil_iff]
  intro a ha
  have hsub : List.Sublist [a.message] ((delivered polls).map Arrival.message) :=
    List.singleton_sublist.2 (List.mem_map_of_mem ha)
  rw [inScope_next hends (horder.sublist (hsub.append_left _)), ← hs, hdone]
  simp

/-- The message first in line is polled, `u` of it is examined, and the loop goes on. -/
theorem Loops.cons {polls : List Poll} {pending : List (Nat × Nat)} {u : List Arrival}
    (h : Loops args ends polls { tally args u s with
      pending := pending, polled := s.polled ++ [a.message] }) (hne : s.pending ≠ [])
    (hu : u.map Arrival.message = [a.message].filter (inScope ends))
    (hexamine : examine args a s = ({ tally args u s with
      pending := pending, polled := s.polled ++ [a.message] }, .next))
    (hreached : reached args s.matched (candidates ends (.message a :: polls)) =
      u ++ reached args (tally args u s).matched (candidates ends polls))
    (hraised : raisedIn args s.matched (candidates ends (.message a :: polls)) =
      raisedIn args (tally args u s).matched (candidates ends polls)) :
    Loops args ends (.message a :: polls) s := by
  obtain ⟨polled, hprefix, hfilter, hloop⟩ := h
  refine ⟨a.message :: polled, ?_, ?_, ?_⟩
  · rw [delivered, List.map_cons, List.cons_prefix_cons]
    exact ⟨rfl, hprefix⟩
  · rw [hreached, List.map_append, hu, ← hfilter, ← List.filter_append, List.singleton_append]
  · rw [loop, if_neg hne]
    simp only [hexamine]
    rw [hloop, hreached, hraised, tally_append]
    simp only [List.append_assoc, List.singleton_append]
    rfl

/-- The message first in line is polled and examined, and the loop ends. -/
theorem loops_of_end {polls : List Poll} {ending : Option Exn}
    (hin : inScope ends a.message = true)
    (hloop : loop args (.message a :: polls) s = ({ tally args [a] s with
      pending := pendingAfter ends (s.polled ++ [a.message])
      polled := s.polled ++ [a.message] }, ending))
    (hcontrol : controlOf args s.matched a ≠ .next)
    (hending : raisedIn args s.matched (a :: candidates ends polls) = ending) :
    Loops args ends (.message a :: polls) s := by
  have hcandidates : candidates ends (.message a :: polls) = a :: candidates ends polls := by
    rw [candidates, delivered, List.filter_cons, if_pos hin]
    rfl
  have hreached : reached args s.matched (a :: candidates ends polls) = [a] := by
    rw [reached, if_neg hcontrol]
  refine ⟨[a.message], ?_, ?_, ?_⟩
  · rw [delivered, List.map_cons, List.cons_prefix_cons]
    exact ⟨rfl, List.nil_prefix⟩
  · rw [hcandidates, hreached]
    simp [hin]
  · rw [hcandidates, hreached, hloop, hending]

/-- **A run is determined by its messages in scope.** -/
theorem loop_eq (hends : (ends.map Prod.fst).Nodup) {polls : List Poll} {s : Run}
    (hs : s.pending = pendingAfter ends s.polled)
    (horder : InOrder (s.polled ++ (delivered polls).map Arrival.message)) :
    Loops args ends polls s := by
  induction polls generalizing s with
  | nil => exact loops_of_halt hs rfl rfl
  | cons poll polls ih =>
    by_cases hdone : s.pending = []
    · refine loops_of_halt hs (candidates_of_done hends hs hdone horder) ?_
      unfold loop
      rw [if_pos hdone]
    cases poll with
    | timeout => exact loops_of_halt hs rfl (by rw [loop, if_neg hdone])
    | error code =>
      by_cases heof : code = .partitionEof
      · have hdelivered : delivered (.error code :: polls) = delivered polls := if_pos heof
        have hloop : loop args (.error code :: polls) s = loop args polls s := by
          rw [loop, if_neg hdone]
          exact if_pos heof
        rw [hdelivered] at horder
        have hrest := ih hs horder
        unfold Loops candidates at hrest ⊢
        rwa [hdelivered, hloop]
      · refine loops_of_halt hs ?_ ?_
        · rw [candidates, delivered, if_neg heof]
          rfl
        · rw [loop, if_neg hdone]
          exact if_neg heof
    | message a =>
      have hcons : s.polled ++ (delivered (.message a :: polls)).map Arrival.message =
          s.polled ++ [a.message] ++ (delivered polls).map Arrival.message := by
        rw [delivered, List.map_cons, List.append_assoc, List.singleton_append]
      rw [hcons] at horder
      have hexamine : examine args a s = _ :=
        examine_eq hends hs (horder.sublist (List.sublist_append_left _ _))
      by_cases hin : inScope ends a.message = true
      · have hcandidates : candidates ends (.message a :: polls) = a :: candidates ends polls := by
          rw [candidates, delivered, List.filter_cons, if_pos hin]
          rfl
        rw [if_pos hin] at hexamine
        cases hcontrol : controlOf args s.matched a with
        | next =>
          obtain ⟨hreached, hraised⟩ := controlOf_of_next (candidates ends polls) hcontrol
          rw [hcontrol] at hexamine
          refine (ih rfl horder).cons hdone ?_ hexamine ?_ ?_
          · simp [hin]
          · rw [hcandidates, hreached, matched_tally_singleton]
            rfl
          · rw [hcandidates, hraised, matched_tally_singleton]
        | stop =>
          refine loops_of_end hin ?_ (by simp [hcontrol]) (by rw [raisedIn, hcontrol])
          rw [loop, if_neg hdone]
          simp only [hexamine, hcontrol]
        | raised e =>
          refine loops_of_end hin ?_ (by simp [hcontrol]) (by rw [raisedIn, hcontrol])
          rw [loop, if_neg hdone]
          simp only [hexamine, hcontrol]
      · have hcandidates : candidates ends (.message a :: polls) = candidates ends polls := by
          rw [candidates, delivered, List.filter_cons, if_neg hin]
          rfl
        rw [if_neg hin] at hexamine
        have hrest : Loops args ends polls { tally args [] s with
            pending := pendingAfter ends (s.polled ++ [a.message])
            polled := s.polled ++ [a.message] } := ih rfl horder
        refine hrest.cons hdone ?_ ?_ ?_ ?_
        · simp [hin]
        · rw [hexamine, tally_nil]
        · rw [hcandidates]
          rfl
        · rw [hcandidates]
          rfl

/-! ## The snapshot -/

/-- The snapshot of partitions, each with its low and its high watermark. -/
def Snapshot.ofRanges (topic : String) (ranges : List (Nat × Nat × Nat)) : Snapshot where
  assignments := ranges.map fun r => (⟨topic, r.1⟩, r.2.1)
  endOffsets := ranges.map fun r => (r.1, r.2.2)

/-- What the snapshot records: partitions that hold something, each once, at their watermarks. -/
structure Recorded (cluster : Cluster) (ranges : List (Nat × Nat × Nat)) : Prop where
  nodup : (ranges.map Prod.fst).Nodup
  watermarks : ∀ r ∈ ranges, cluster.watermarks r.1 = .ok r.2 ∧ r.2.1 < r.2.2

theorem addPartitions_ranges {cluster : Cluster} {topic : String} {snapshot : Snapshot}
    {partitions : List Nat} : ∀ ranges : List (Nat × Nat × Nat),
      (ranges.map Prod.fst ++ partitions).Nodup →
      (∀ r ∈ ranges, cluster.watermarks r.1 = .ok r.2 ∧ r.2.1 < r.2.2) →
      partitions.foldlM (addPartition cluster topic) (.ofRanges topic ranges) = .ok snapshot →
      ∃ ranges, snapshot = .ofRanges topic ranges ∧ Recorded cluster ranges := by
  induction partitions with
  | nil =>
    intro ranges hnodup hranges h
    cases h
    rw [List.append_nil] at hnodup
    exact ⟨ranges, rfl, hnodup, hranges⟩
  | cons partition partitions ih =>
    intro ranges hnodup hranges h
    rw [List.foldlM_cons] at h
    rcases hw : cluster.watermarks partition with e | ⟨low, high⟩
    · simp only [addPartition, hw] at h
      cases h
    · by_cases hempty : high ≤ low
      · have hadd : addPartition cluster topic (.ofRanges topic ranges) partition =
            .ok (.ofRanges topic ranges) := by
          simp only [addPartition, hw, if_pos hempty]
        rw [hadd] at h
        refine ih ranges (hnodup.sublist ?_) hranges h
        exact (List.sublist_cons_self _ _).append_left _
      · have hadd : addPartition cluster topic (.ofRanges topic ranges) partition =
            .ok (.ofRanges topic (ranges ++ [(partition, low, high)])) := by
          simp only [addPartition, hw, if_neg hempty, Snapshot.ofRanges, List.map_append,
            List.map_cons, List.map_nil]
        rw [hadd] at h
        refine ih (ranges ++ [(partition, low, high)]) ?_ (fun r hr => ?_) h
        · simpa using hnodup
        · rcases List.mem_append.1 hr with hr | hr
          · exact hranges r hr
          · rw [List.mem_singleton.1 hr]
            exact ⟨hw, Nat.lt_of_not_le hempty⟩

theorem snapshotTopic_ranges {cluster : Cluster} {topic : String} {snapshot : Snapshot}
    (h : snapshotTopic cluster topic = .ok snapshot) :
    ∃ ranges, snapshot = .ofRanges topic ranges ∧ Recorded cluster ranges := by
  unfold snapshotTopic at h
  split at h
  · cases h
  · cases h
  · cases h
  · rename_i partitions _
    refine addPartitions_ranges [] ?_ (by simp) h
    exact nodup_sortedSet partitions

theorem lookup_ofRanges {cluster : Cluster} (topic : String) {ranges : List (Nat × Nat × Nat)}
    (h : Recorded cluster ranges) {r : Nat × Nat × Nat} (hr : r ∈ ranges) :
    (Snapshot.ofRanges topic ranges).endOffsets.lookup r.1 = some r.2.2 := by
  refine lookup_of_mem ?_ (List.mem_map_of_mem hr)
  rw [Snapshot.ofRanges, List.map_map]
  exact h.nodup

theorem messageCount_ofRanges {cluster : Cluster} {topic : String} {ranges : List (Nat × Nat × Nat)}
    (h : Recorded cluster ranges) : (Snapshot.ofRanges topic ranges).messageCount =
      .ok (ranges.map fun r => r.2.2 - r.2.1).sum := by
  have hfold : ∀ (rest : List (Nat × Nat × Nat)) (count : Nat), (∀ r ∈ rest, r ∈ ranges) →
      (rest.map fun r => ((⟨topic, r.1⟩ : TopicPartition), r.2.1)).foldlM
        (Snapshot.ofRanges topic ranges).addCount count =
      .ok (count + (rest.map fun r => r.2.2 - r.2.1).sum) := by
    intro rest
    induction rest with
    | nil => exact fun _ _ => rfl
    | cons r rest ih =>
      intro count hrest
      have hr := hrest r (.head _)
      have hadd : (Snapshot.ofRanges topic ranges).addCount count (⟨topic, r.1⟩, r.2.1) =
          .ok (count + (r.2.2 - r.2.1)) := by
        simp only [Snapshot.addCount, lookup_ofRanges topic h hr, if_pos (h.watermarks r hr).2]
      rw [List.map_cons, List.foldlM_cons, hadd]
      change List.foldlM _ (count + (r.2.2 - r.2.1)) _ = _
      rw [ih _ fun r hr => hrest r (.tail _ hr), List.map_cons, List.sum_cons, Nat.add_assoc]
  have hall := hfold ranges 0 fun _ hr => hr
  rwa [Nat.zero_add] at hall

/-! ## A run is bounded by its snapshot -/

/-- `poll` delivers the records of each partition, those appended meanwhile included, in the order of
their offsets, which may have gaps, from the snapshot's low watermark on. -/
structure Reads (cluster : Cluster) (snapshot : Snapshot) (logs : Nat → List Message) : Prop where
  located : ∀ p, ∀ m ∈ logs p, m.partition = p
  increasing : ∀ p, (logs p).Pairwise (·.offset < ·.offset)
  from_low : ∀ tp low, (tp, low) ∈ snapshot.assignments → ∀ m ∈ logs tp.partition, low ≤ m.offset
  follows : ∀ p,
    ((delivered cluster.polls).map Arrival.message).filter (·.partition = p) <+: logs p

/-- What a run may do of partitions recorded with their watermarks. -/
structure Bounded (ranges : List (Nat × Nat × Nat)) (logs : Nat → List Message) (s : Run) : Prop where
  /-- Only messages below the recorded high watermark are republished. -/
  below : ∀ q ∈ s.produced, ∃ m ∈ s.examined, q.source = m.id ∧
    ∃ r ∈ ranges, m.partition = r.1 ∧ m.offset < r.2.2
  once : (s.produced.map Republished.source).Nodup
  /-- A partition is dropped exactly when a message at or past its last offset comes. -/
  dropped : s.pending = pendingAfter (ranges.map fun r => (r.1, r.2.2)) s.polled
  seen_eq : s.seen = s.examined.length
  seen_le : s.seen ≤ (ranges.map fun r => r.2.2 - r.2.1).sum
  /-- When no partition is pending, each record of the snapshot was examined once. -/
  complete : s.pending = [] → (∀ m ∈ s.examined, ∃ r ∈ ranges, m.partition = r.1) ∧
    ∀ r ∈ ranges, s.examined.filter (·.partition = r.1) = (logs r.1).filter (·.offset < r.2.2)

theorem inOrder_of_filter {l : List Message}
    (h : ∀ p, (l.filter (·.partition = p)).Pairwise (·.offset < ·.offset)) : InOrder l := by
  induction l with
  | nil => exact .nil
  | cons m l ih =>
    refine .cons (fun m' hm' hp => ?_) (ih fun p => (h p).sublist ?_)
    · have hfirst := h m.partition
      rw [List.filter_cons, if_pos (by simp), List.pairwise_cons] at hfirst
      exact hfirst.1 m' (List.mem_filter.2 ⟨hm', by simp [hp]⟩)
    · exact (List.sublist_cons_self _ _).filter _

theorem Reads.inOrder {cluster : Cluster} {snapshot : Snapshot} {logs : Nat → List Message}
    (h : Reads cluster snapshot logs) : InOrder ((delivered cluster.polls).map Arrival.message) :=
  inOrder_of_filter fun p => (h.increasing p).sublist (h.follows p).sublist

theorem length_le_of_increasing {l : List Message} : ∀ {low high : Nat},
    l.Pairwise (·.offset < ·.offset) → (∀ m ∈ l, low ≤ m.offset ∧ m.offset < high) →
      l.length ≤ high - low := by
  induction l with
  | nil => simp
  | cons m l ih =>
    intro low high hincreasing hbounds
    obtain ⟨hfirst, hrest⟩ := List.pairwise_cons.1 hincreasing
    have hm := hbounds m (.head _)
    have hlength : l.length ≤ high - (m.offset + 1) :=
      ih hrest fun m' hm' => ⟨hfirst m' hm', (hbounds m' (.tail _ hm')).2⟩
    rw [List.length_cons]
    omega

theorem length_le_sum {ranges : List (Nat × Nat × Nat)} : ∀ {l : List Message},
    (∀ m ∈ l, ∃ r ∈ ranges, m.partition = r.1) →
    (∀ r ∈ ranges, (l.filter (·.partition = r.1)).length ≤ r.2.2 - r.2.1) →
      l.length ≤ (ranges.map fun r => r.2.2 - r.2.1).sum := by
  induction ranges with
  | nil =>
    intro l hl _
    cases l with
    | nil => exact Nat.le_refl _
    | cons m l =>
      obtain ⟨r, hr, -⟩ := hl m (.head _)
      cases hr
  | cons r ranges ih =>
    intro l hl hbounds
    have hsplit := (List.length_eq_length_filter_add (l := l) (fun m => m.partition = r.1))
    have hothers : (l.filter fun m => !decide (m.partition = r.1)).length ≤
        (ranges.map fun r => r.2.2 - r.2.1).sum := by
      refine ih (fun m hm => ?_) fun r' hr' => ?_
      · obtain ⟨hm, hne⟩ := List.mem_filter.1 hm
        obtain ⟨r', hr', hp⟩ := hl m hm
        rcases List.mem_cons.1 hr' with rfl | hr'
        · simp [hp] at hne
        · exact ⟨r', hr', hp⟩
      · refine Nat.le_trans ?_ (hbounds r' (.tail _ hr'))
        exact (List.filter_sublist.filter _).length_le
    have hown := hbounds r (.head _)
    rw [List.map_cons, List.sum_cons]
    omega

section

variable {ranges : List (Nat × Nat × Nat)} {cluster : Cluster} {topic : String}
variable {logs : Nat → List Message} {polled : List Message} {u : List Arrival}

/-- The watermarks recorded for the partition of a message in scope. -/
theorem inScope_ranges (h : Recorded cluster ranges) {m : Message} :
    inScope (ranges.map fun r => (r.1, r.2.2)) m = true ↔
      ∃ r ∈ ranges, m.partition = r.1 ∧ m.offset < r.2.2 := by
  unfold inScope
  constructor
  · intro hin
    cases hlookup : (ranges.map fun r => (r.1, r.2.2)).lookup m.partition with
    | none =>
      rw [hlookup] at hin
      cases hin
    | some last =>
      rw [hlookup] at hin
      obtain ⟨r, hr, heq⟩ := List.mem_map.1 (mem_of_lookup hlookup)
      obtain ⟨hp, rfl⟩ := Prod.mk.inj heq
      exact ⟨r, hr, hp.symm, by simpa using hin⟩
  · rintro ⟨r, hr, hp, hlt⟩
    have hlookup := lookup_ofRanges "" h hr
    rw [← hp] at hlookup
    change (ranges.map fun r => (r.1, r.2.2)).lookup m.partition = some r.2.2 at hlookup
    rw [hlookup]
    simpa using hlt

/-- Once no partition is pending, what was polled of it has all its records below the watermark. -/
theorem polled_complete (hreads : Reads cluster (.ofRanges topic ranges) logs)
    (hpolled : polled <+: (delivered cluster.polls).map Arrival.message)
    (hdone : pendingAfter (ranges.map fun r => (r.1, r.2.2)) polled = []) {r : Nat × Nat × Nat}
    (hr : r ∈ ranges) : (polled.filter (·.partition = r.1)).filter (·.offset < r.2.2) =
      (logs r.1).filter (·.offset < r.2.2) := by
  obtain ⟨rest, hrest⟩ := (hpolled.filter (·.partition = r.1)).trans (hreads.follows r.1)
  have hlast : ∃ m ∈ polled, m.partition = r.1 ∧ r.2.2 ≤ m.offset + 1 := by
    have hnotin : (r.1, r.2.2) ∉ pendingAfter (ranges.map fun r => (r.1, r.2.2)) polled := by
      rw [hdone]
      exact List.not_mem_nil
    rw [mem_pendingAfter] at hnotin
    push Not at hnotin
    exact hnotin (List.mem_map_of_mem hr)
  obtain ⟨m, hm, hp, hle⟩ := hlast
  have hincreasing := hreads.increasing r.1
  rw [← hrest] at hincreasing ⊢
  have hpast : rest.filter (·.offset < r.2.2) = [] := by
    rw [List.filter_eq_nil_iff]
    intro m' hm'
    have hlt := (List.pairwise_append.1 hincreasing).2.2 m (List.mem_filter.2 ⟨hm, by simp [hp]⟩)
      m' hm'
    simp
    omega
  rw [List.filter_append, hpast, List.append_nil]

theorem source_of_copy {a : Arrival} {q : Republished} (h : args.copy a = some q) :
    q.source = a.message.id := by
  unfold Args.copy at h
  split at h
  · obtain ⟨target, -, rfl⟩ := Option.map_eq_some_iff.1 h
    rfl
  · cases h

theorem bounded_of_polled (hrecorded : Recorded cluster ranges)
    (hreads : Reads cluster (.ofRanges topic ranges) logs)
    (hpolled : polled <+: (delivered cluster.polls).map Arrival.message)
    (hexamined : polled.filter (inScope (ranges.map fun r => (r.1, r.2.2))) = u.map Arrival.message) :
    Bounded ranges logs { tally args u {} with
      pending := pendingAfter (ranges.map fun r => (r.1, r.2.2)) polled, polled := polled } := by
  have hscope : ∀ a ∈ u, ∃ r ∈ ranges, a.message.partition = r.1 ∧ a.message.offset < r.2.2 := by
    intro a ha
    have hmem : a.message ∈ polled.filter (inScope (ranges.map fun r => (r.1, r.2.2))) := by
      rw [hexamined]
      exact List.mem_map_of_mem ha
    exact (inScope_ranges hrecorded).1 (List.mem_filter.1 hmem).2
  have horder : InOrder (u.map Arrival.message) := by
    rw [← hexamined]
    exact hreads.inOrder.sublist (List.filter_sublist.trans hpolled.sublist)
  have hown : ∀ r ∈ ranges, (u.map Arrival.message).filter (·.partition = r.1) =
      (polled.filter (·.partition = r.1)).filter (·.offset < r.2.2) := by
    intro r hr
    rw [← hexamined, List.filter_filter, List.filter_filter]
    refine List.filter_congr fun m _ => ?_
    by_cases hp : m.partition = r.1
    · have hiff : inScope (ranges.map fun r => (r.1, r.2.2)) m = true ↔ m.offset < r.2.2 := by
        rw [inScope_ranges hrecorded]
        constructor
        · rintro ⟨r', hr', hp', hlt⟩
          have hsame : r' = r := List.inj_on_of_nodup_map hrecorded.nodup hr' hr (hp'.symm.trans hp)
          rwa [hsame] at hlt
        · exact fun hlt => ⟨r, hr, hp, hlt⟩
      have hdecide : inScope (ranges.map fun r => (r.1, r.2.2)) m = decide (m.offset < r.2.2) := by
        rw [Bool.eq_iff_iff, hiff, decide_eq_true_eq]
      simp [hp, hdecide]
    · simp [hp]
  refine ⟨fun q hq => ?_, ?_, rfl, ?_, ?_, fun hdone => ⟨fun m hm => ?_, fun r hr => ?_⟩⟩
  · obtain ⟨a, ha, hcopy⟩ := List.mem_filterMap.1 hq
    exact ⟨a.message, List.mem_map_of_mem ha, source_of_copy hcopy, hscope a ha⟩
  · change ((u.filterMap args.copy).map Republished.source).Pairwise (· ≠ ·)
    rw [List.pairwise_map, List.pairwise_filterMap]
    refine (List.pairwise_map.1 horder).imp fun hlt q hq q' hq' heq => ?_
    rw [source_of_copy hq, source_of_copy hq'] at heq
    have hp := congrArg (·.tp.partition) heq
    have hoffset := congrArg MessageId.offset heq
    have := hlt hp
    exact Nat.ne_of_lt this hoffset
  · simp [tally]
  · have hseen : (tally args u {}).seen = (u.map Arrival.message).length := by simp [tally]
    change (tally args u {}).seen ≤ _
    rw [hseen]
    refine length_le_sum (fun m hm => ?_) fun r hr => ?_
    · obtain ⟨a, ha, rfl⟩ := List.mem_map.1 hm
      obtain ⟨r, hr, hp, -⟩ := hscope a ha
      exact ⟨r, hr, hp⟩
    · have hlogs := (hpolled.filter (·.partition = r.1)).trans (hreads.follows r.1)
      rw [hown r hr]
      refine length_le_of_increasing ?_ fun m hm => ?_
      · exact (hreads.increasing r.1).sublist (List.filter_sublist.trans hlogs.sublist)
      · obtain ⟨hm, hlt⟩ := List.mem_filter.1 hm
        refine ⟨hreads.from_low ⟨topic, r.1⟩ r.2.1 (List.mem_map_of_mem hr) m (hlogs.subset hm), ?_⟩
        simpa using hlt
  · obtain ⟨a, ha, rfl⟩ := List.mem_map.1 hm
    obtain ⟨r, hr, hp, -⟩ := hscope a ha
    exact ⟨r, hr, hp⟩
  · exact (hown r hr).trans (polled_complete hreads hpolled hdone hr)

end

variable (args) in
/-- What a run that raised nothing reports. -/
def verdictOf (s : Run) : Verdict :=
  if args.publish then
    if remaining s ≠ 0 then .undelivered (remaining s) else .republished s.published
  else .inspected

theorem report_eq (s : Run) :
    (if args.publish then
        if remaining s ≠ 0 then (.ok (.undelivered (remaining s)), s)
        else (.ok (.republished s.published), s)
      else (.ok .inspected, s) : Except Exn Verdict × Run) = (.ok (verdictOf args s), s) := by
  unfold verdictOf
  by_cases hpublish : args.publish = true
  · by_cases hleft : remaining s = 0 <;> simp [hpublish, hleft]
  · simp [hpublish]

variable (args) in
/-- **A replay, by its messages in scope.** -/
theorem replay_eq {settings : Settings} {cluster : Cluster} {snapshot : Snapshot}
    (hsnapshot : snapshotTopic cluster settings.dlqTopic = .ok snapshot)
    (horder : InOrder ((delivered cluster.polls).map Arrival.message)) :
    ∃ ranges polled s, snapshot = .ofRanges settings.dlqTopic ranges ∧ Recorded cluster ranges ∧
      polled <+: (delivered cluster.polls).map Arrival.message ∧
      polled.filter (inScope snapshot.endOffsets) =
        (reached args 0 (candidates snapshot.endOffsets cluster.polls)).map Arrival.message ∧
      s = { tally args (reached args 0 (candidates snapshot.endOffsets cluster.polls)) {} with
        pending := pendingAfter snapshot.endOffsets polled, polled := polled } ∧
      replay args settings cluster =
        (match raisedIn args 0 (candidates snapshot.endOffsets cluster.polls) with
          | some e => .error e
          | none => .ok (verdictOf args s), s) := by
  obtain ⟨ranges, rfl, hrecorded⟩ := snapshotTopic_ranges hsnapshot
  have hends : ((Snapshot.ofRanges settings.dlqTopic ranges).endOffsets.map Prod.fst).Nodup := by
    rw [Snapshot.ofRanges, List.map_map]
    exact hrecorded.nodup
  have hloops : Loops args (Snapshot.ofRanges settings.dlqTopic ranges).endOffsets cluster.polls
      { pending := (Snapshot.ofRanges settings.dlqTopic ranges).endOffsets } := by
    refine loop_eq hends ?_ (by simpa using horder)
    simp [pendingAfter]
  obtain ⟨polled, hpolled, hexamined, hloop⟩ := hloops
  refine ⟨ranges, polled, _, rfl, hrecorded, hpolled, hexamined, rfl, ?_⟩
  unfold replay
  rw [hsnapshot]
  simp only [messageCount_ofRanges hrecorded, hloop, List.nil_append]
  cases raisedIn args 0 (candidates (Snapshot.ofRanges settings.dlqTopic ranges).endOffsets
    cluster.polls) with
  | some e => rfl
  | none => exact report_eq _

/-- **A replay is bounded by its snapshot**, whatever is appended while it runs. -/
theorem replay_bounded (args : Args) (settings : Settings) (cluster : Cluster) (snapshot : Snapshot)
    (logs : Nat → List Message) (hsnapshot : snapshotTopic cluster settings.dlqTopic = .ok snapshot)
    (hreads : Reads cluster snapshot logs) :
    ∃ ranges, snapshot = .ofRanges settings.dlqTopic ranges ∧ Recorded cluster ranges ∧
      (replay args settings cluster).2.polled <+: (delivered cluster.polls).map Arrival.message ∧
      Bounded ranges logs (replay args settings cluster).2 := by
  obtain ⟨ranges, polled, s, rfl, hrecorded, hpolled, hexamined, rfl, hreplay⟩ :=
    replay_eq args hsnapshot hreads.inOrder
  refine ⟨ranges, rfl, hrecorded, ?_⟩
  rw [hreplay]
  exact ⟨hpolled, bounded_of_polled hrecorded hreads hpolled hexamined⟩

/-! A topic that the run refills: its third record is the dead letter of the first one, again. -/

def deadLetter (offset : Nat) : Message where
  topic := "order-lifecycle.dlq"
  partition := 0
  offset := offset
  key := none
  value := some ⟨#[1]⟩
  headers := [(hdrOriginalTopic, some "order-lifecycle".toUTF8)]

def refilled : Cluster where
  describe := .ok (some (.ok [0]))
  watermarks := fun _ => .ok (0, 2)
  polls := [.message { message := deadLetter 0 }, .error .partitionEof,
    .message { message := deadLetter 1 }, .message { message := deadLetter 2 }]

def refilledLogs (p : Nat) : List Message :=
  if p = 0 then [deadLetter 0, deadLetter 1, deadLetter 2] else []

theorem replay_bounded_refilled :
    ∃ ranges, ({ assignments := [(⟨"order-lifecycle.dlq", 0⟩, 0)], endOffsets := [(0, 2)] } : Snapshot) =
        .ofRanges "order-lifecycle.dlq" ranges ∧ Recorded refilled ranges ∧
      (replay { publish := true } {} refilled).2.polled <+:
        (delivered refilled.polls).map Arrival.message ∧
      Bounded ranges refilledLogs (replay { publish := true } {} refilled).2 := by
  refine replay_bounded { publish := true } {} refilled _ refilledLogs rfl ⟨?_, ?_, ?_, ?_⟩
  · intro p m hm
    unfold refilledLogs at hm
    split at hm
    · simp only [List.mem_cons, List.not_mem_nil, or_false] at hm
      rcases hm with rfl | rfl | rfl <;> exact Eq.symm ‹_›
    · cases hm
  · intro p
    unfold refilledLogs
    split
    · simp [deadLetter]
    · exact .nil
  · intro tp low hlow m _
    rw [List.mem_singleton] at hlow
    rw [(Prod.mk.inj hlow).2]
    exact Nat.zero_le _
  · intro p
    by_cases hp : p = 0
    · subst hp
      exact List.prefix_refl _
    · have hnone : ((delivered refilled.polls).map Arrival.message).filter (·.partition = p) = [] := by
        simp [refilled, delivered, deadLetter, Ne.symm hp]
      rw [hnone]
      exact List.nil_prefix

end OrderService.DlqReplay
