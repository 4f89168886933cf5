import Mathlib.Logic.Function.Basic
import Mathlib.Logic.Relation
import Mathlib.Data.List.Induction
import Mathlib.Tactic.Common

/-!
# Keyed logs

A keyed log is an append-only list of records `key ↦ value` in which `none` deletes the key; read
from the beginning it is a table (`replay`). A log may be *compacted* in place (`Cleans`): a record
superseded by a later one of its key goes, and so does a deletion once no older record of its key
is left. Compaction leaves gaps in the offsets and the table as it was (`Cleans.replay_eq`).

`Rising μ t`: from the table `t` on, no entry overwrites a value by one of a smaller measure, so a value
once written is still there, or a greater one, unless its key was deleted since (`Rising.survives`). `CatchesUp`: a table becomes the log's once the records from an offset
on are applied to it; compaction may take that away (`Compacted.catchesUp_iff`).
-/

namespace KeyedLog

variable {κ ν : Type} [DecidableEq κ]

/-- A key and its new value, `none` for a deletion. -/
abbrev Entry (κ ν : Type) := κ × Option ν

/-- The table a list of entries leaves when applied to a table. -/
def replay (t : κ → Option ν) (es : List (Entry κ ν)) : κ → Option ν :=
  es.foldl (fun t e => Function.update t e.1 e.2) t

@[simp] theorem replay_nil (t : κ → Option ν) : replay t [] = t := rfl

@[simp] theorem replay_cons (t : κ → Option ν) (e : Entry κ ν) (es : List (Entry κ ν)) :
    replay t (e :: es) = replay (Function.update t e.1 e.2) es := rfl

@[simp] theorem replay_append (t : κ → Option ν) (es fs : List (Entry κ ν)) :
    replay t (es ++ fs) = replay (replay t es) fs := List.foldl_append

theorem replay_concat (t : κ → Option ν) (es : List (Entry κ ν)) (k : κ) (v : Option ν) :
    replay t (es ++ [(k, v)]) = Function.update (replay t es) k v := by
  rw [replay_append]; rfl

/-- The table before matters to a key only through that key. -/
theorem replay_congr_at {t u : κ → Option ν} {k : κ} (h : t k = u k) (es : List (Entry κ ν)) :
    replay t es k = replay u es k := by
  induction es generalizing t u with
  | nil => exact h
  | cons e es ih =>
    refine ih ?_
    by_cases he : k = e.1
    · subst he; simp
    · simp [he, h]

theorem replay_of_not_mem {t : κ → Option ν} {k : κ} {es : List (Entry κ ν)}
    (h : ∀ e ∈ es, e.1 ≠ k) : replay t es k = t k := by
  induction es generalizing t with
  | nil => rfl
  | cons e es ih =>
    rw [replay_cons, ih fun e he => h e (.tail _ he)]
    exact Function.update_of_ne (h e (.head _)).symm ..

/-- A key that a list of entries mentions is determined by the list alone. -/
theorem replay_of_mem {t u : κ → Option ν} {k : κ} {es : List (Entry κ ν)}
    (h : ∃ e ∈ es, e.1 = k) : replay t es k = replay u es k := by
  obtain ⟨e, he, rfl⟩ := h
  obtain ⟨pre, post, rfl⟩ := List.append_of_mem he
  rw [replay_append, replay_append, replay_cons, replay_cons]
  exact replay_congr_at (by simp) post

/-- A deleted key is absent until an entry writes it again. -/
theorem replay_deleted {t : κ → Option ν} {k : κ} (pre post : List (Entry κ ν)) :
    (∃ v, (k, some v) ∈ post) ∨ replay t (pre ++ (k, none) :: post) k = none := by
  rw [replay_append, replay_cons]
  generalize hu : Function.update (replay t pre) k none = u
  replace hu : u k = none := by rw [← hu]; simp
  clear pre
  induction post generalizing u with
  | nil => exact .inr hu
  | cons e post ih =>
    obtain ⟨k', v⟩ := e
    by_cases hk : k' = k
    · subst hk
      cases v with
      | some v => exact .inl ⟨v, .head _⟩
      | none =>
        exact (ih (Function.update u k' none) (by simp)).imp_left
          fun ⟨v, hv⟩ => ⟨v, .tail _ hv⟩
    · refine (ih (Function.update u k' v) ?_).imp_left fun ⟨v, hv⟩ => ⟨v, .tail _ hv⟩
      rw [Function.update_of_ne (Ne.symm hk), hu]

/-- What a list of entries leaves was one of them. -/
theorem mem_of_replay {k : κ} {v : ν} {es : List (Entry κ ν)} (h : replay (fun _ => none) es k = some v) :
    (k, some v) ∈ es := by
  induction es using List.reverseRecOn with
  | nil => cases h
  | append_singleton es e ih =>
    obtain ⟨j, w⟩ := e
    rw [replay_concat] at h
    by_cases hj : j = k
    · subst hj
      rw [Function.update_self] at h
      simp [h]
    · rw [Function.update_of_ne (Ne.symm hj)] at h
      exact List.mem_append_left _ (ih h)

/-! ## Rising values -/

/-- From the table `t` on, each value written over a present one measures at least as much. -/
def Rising (μ : ν → Nat) (t : κ → Option ν) (es : List (Entry κ ν)) : Prop :=
  ∀ pre k v post v₀, es = pre ++ (k, some v) :: post → replay t pre k = some v₀ → μ v₀ ≤ μ v

theorem Rising.nil {μ : ν → Nat} {t : κ → Option ν} : Rising μ t [] := by
  intro pre k v post v₀ h
  simp at h

theorem Rising.of_append {μ : ν → Nat} {t : κ → Option ν} {es fs : List (Entry κ ν)}
    (h : Rising μ t (es ++ fs)) : Rising μ t es := by
  rintro pre k v post v₀ rfl
  exact h pre k v (post ++ fs) v₀ (by simp)

theorem Rising.concat {μ : ν → Nat} {t : κ → Option ν} {es : List (Entry κ ν)} {k : κ} {v : Option ν}
    (h : Rising μ t es)
    (hv : ∀ v₁, v = some v₁ → ∀ v₀, replay t es k = some v₀ → μ v₀ ≤ μ v₁) :
    Rising μ t (es ++ [(k, v)]) := by
  intro pre j w post v₀ hes hpre
  rcases List.eq_nil_or_concat post with rfl | ⟨post, e, rfl⟩
  · obtain ⟨rfl, he⟩ := List.append_inj' hes rfl
    simp only [List.cons.injEq, Prod.mk.injEq, and_true] at he
    obtain ⟨rfl, rfl⟩ := he
    exact hv w rfl v₀ hpre
  · rw [List.concat_eq_append, ← List.cons_append, ← List.append_assoc] at hes
    obtain ⟨rfl, -⟩ := List.append_inj' hes rfl
    exact h pre j w post v₀ rfl hpre

/-- In a rising log a value once written is still there, or a greater one, unless its key was
deleted since. -/
theorem Rising.survives {μ : ν → Nat} {t : κ → Option ν} {k : κ} {v : ν} {pre post : List (Entry κ ν)}
    (h : Rising μ t (pre ++ (k, some v) :: post)) :
    (k, none) ∈ post ∨
      ∃ v', replay t (pre ++ (k, some v) :: post) k = some v' ∧ μ v ≤ μ v' := by
  induction post using List.reverseRecOn with
  | nil => exact .inr ⟨v, by simp, Nat.le_refl _⟩
  | append_singleton post e ih =>
    rw [← List.cons_append, ← List.append_assoc] at h ⊢
    obtain ⟨j, w⟩ := e
    rcases ih h.of_append with hdel | ⟨v', hv', hle⟩
    · exact .inl (by simp [hdel])
    · by_cases hj : j = k
      · subst hj
        cases w with
        | none => exact .inl (by simp)
        | some w => exact .inr ⟨w, by simp, Nat.le_trans hle (h _ _ w [] v' rfl hv')⟩
      · exact .inr ⟨v', by rw [replay_concat, Function.update_of_ne (Ne.symm hj)]; exact hv', hle⟩

/-- A value of a rising log is still there after more entries, or a greater one, unless they delete its
key. -/
theorem Rising.grows {μ : ν → Nat} {t : κ → Option ν} {k : κ} {v : ν} {es fs : List (Entry κ ν)}
    (h : Rising μ t (es ++ fs)) (hv : replay t es k = some v) :
    (k, none) ∈ fs ∨ ∃ v', replay t (es ++ fs) k = some v' ∧ μ v ≤ μ v' := by
  induction fs using List.reverseRecOn with
  | nil => exact .inr ⟨v, by rwa [List.append_nil], Nat.le_refl _⟩
  | append_singleton fs e ih =>
    rw [← List.append_assoc] at h ⊢
    obtain ⟨j, w⟩ := e
    rcases ih h.of_append with hdel | ⟨v', hv', hle⟩
    · exact .inl (List.mem_append_left _ hdel)
    · by_cases hj : j = k
      · subst hj
        cases w with
        | none => exact .inl (by simp)
        | some w => exact .inr ⟨w, by simp, Nat.le_trans hle (h _ _ w [] v' rfl hv')⟩
      · exact .inr ⟨v', by rw [replay_concat, Function.update_of_ne (Ne.symm hj)]; exact hv', hle⟩

/-! ## One key -/

/-- The entries of one key. -/
def ofKey (k : κ) (es : List (Entry κ ν)) : List (Entry κ ν) := es.filter (·.1 = k)

@[simp] theorem ofKey_append (k : κ) (es fs : List (Entry κ ν)) :
    ofKey k (es ++ fs) = ofKey k es ++ ofKey k fs := List.filter_append ..

theorem mem_ofKey {k j : κ} {v : Option ν} {es : List (Entry κ ν)} :
    (j, v) ∈ ofKey k es ↔ (j, v) ∈ es ∧ j = k := by
  simp [ofKey]

theorem ofKey_eq_nil {k : κ} {es : List (Entry κ ν)} (h : ∀ v, (k, v) ∉ es) : ofKey k es = [] := by
  refine List.filter_eq_nil_iff.2 fun e he hk => ?_
  simp only [decide_eq_true_eq] at hk
  subst hk
  exact h e.2 he

/-- The entries of a key are all that matters to it. -/
theorem replay_ofKey (k : κ) (t : κ → Option ν) (es : List (Entry κ ν)) :
    replay t (ofKey k es) k = replay t es k := by
  induction es using List.reverseRecOn with
  | nil => rfl
  | append_singleton es e ih =>
    obtain ⟨j, v⟩ := e
    rw [ofKey_append, replay_concat]
    by_cases hj : j = k
    · subst hj
      have hsingle : ofKey j [(j, v)] = [(j, v)] := by simp [ofKey]
      rw [hsingle, replay_concat, Function.update_self, Function.update_self]
    · have hnone : ofKey k [(j, v)] = [] := by simp [ofKey, hj]
      rw [hnone, List.append_nil, ih, Function.update_of_ne (Ne.symm hj)]

/-! ## Logs with offsets -/

/-- One record of a log. -/
structure LogRecord (κ ν : Type) where
  offset : Nat
  key : κ
  value : Option ν

def LogRecord.entry (r : LogRecord κ ν) : Entry κ ν := (r.key, r.value)

/-- One removal by the cleaner: a record superseded by a later one of its key, or a deletion whose
key has no older record left. -/
inductive CleanStep : List (LogRecord κ ν) → List (LogRecord κ ν) → Prop
  | superseded (pre : List (LogRecord κ ν)) (r : LogRecord κ ν) (post : List (LogRecord κ ν)) :
      (∃ r' ∈ post, r'.key = r.key) → CleanStep (pre ++ r :: post) (pre ++ post)
  | deletion (pre : List (LogRecord κ ν)) (r : LogRecord κ ν) (post : List (LogRecord κ ν)) :
      r.value = none → (∀ r' ∈ pre, r'.key ≠ r.key) → CleanStep (pre ++ r :: post) (pre ++ post)

/-- What the cleaner may make of a list of records, in any number of removals. -/
abbrev Cleans : List (LogRecord κ ν) → List (LogRecord κ ν) → Prop :=
  Relation.ReflTransGen CleanStep

omit [DecidableEq κ] in
theorem CleanStep.sublist {l l' : List (LogRecord κ ν)} (h : CleanStep l l') : l'.Sublist l := by
  cases h <;> exact (List.Sublist.refl _).append (List.sublist_cons_self _ _)

omit [DecidableEq κ] in
theorem Cleans.sublist {l l' : List (LogRecord κ ν)} (h : Cleans l l') : l'.Sublist l := by
  induction h with
  | refl => exact .refl _
  | tail _ hs ih => exact hs.sublist.trans ih

theorem CleanStep.replay_eq {l l' : List (LogRecord κ ν)} (h : CleanStep l l') :
    replay (fun _ => none) (l'.map LogRecord.entry) =
      replay (fun _ => none) (l.map LogRecord.entry) := by
  funext k
  cases h with
  | superseded pre r post hr =>
    simp only [List.map_append, List.map_cons, replay_append, replay_cons]
    by_cases hk : k = r.key
    · subst hk
      obtain ⟨r', hr', hk'⟩ := hr
      exact replay_of_mem ⟨r'.entry, List.mem_map_of_mem hr', hk'⟩
    · exact replay_congr_at (by simp [LogRecord.entry, hk]) _
  | deletion pre r post hr hpre =>
    simp only [List.map_append, List.map_cons, replay_append, replay_cons]
    refine replay_congr_at ?_ _
    by_cases hk : k = r.key
    · subst hk
      rw [replay_of_not_mem (by simpa [LogRecord.entry] using hpre)]
      simp [LogRecord.entry, hr]
    · simp [LogRecord.entry, hk]

/-- **Compaction keeps the table**: a compacted log, read into an empty table, gives what the whole
log gives. -/
theorem Cleans.replay_eq {l l' : List (LogRecord κ ν)} (h : Cleans l l') :
    replay (fun _ => none) (l'.map LogRecord.entry) =
      replay (fun _ => none) (l.map LogRecord.entry) := by
  induction h with
  | refl => rfl
  | tail _ hs ih => rw [hs.replay_eq, ih]

end KeyedLog

/-- A keyed log: records at increasing offsets between the low and the high watermark. Offsets may
be missing. -/
structure KeyedLog (κ ν : Type) where
  low : Nat
  high : Nat
  records : List (KeyedLog.LogRecord κ ν)
  low_le : low ≤ high
  sorted : records.Pairwise (·.offset < ·.offset)
  bounded : ∀ r ∈ records, low ≤ r.offset ∧ r.offset < high

namespace KeyedLog

variable {κ ν : Type}

def empty : KeyedLog κ ν := ⟨0, 0, [], Nat.le_refl _, .nil, by simp⟩

instance : Inhabited (KeyedLog κ ν) := ⟨empty⟩

/-- The keys and values, oldest first. -/
def entries (l : KeyedLog κ ν) : List (Entry κ ν) := l.records.map LogRecord.entry

/-- The table the log leaves in an empty store. -/
def table [DecidableEq κ] (l : KeyedLog κ ν) : κ → Option ν := replay (fun _ => none) l.entries

/-- Append one record at the high watermark. -/
def append (l : KeyedLog κ ν) (e : Entry κ ν) : KeyedLog κ ν where
  low := l.low
  high := l.high + 1
  records := l.records ++ [⟨l.high, e.1, e.2⟩]
  low_le := Nat.le_succ_of_le l.low_le
  sorted := by
    rw [List.pairwise_append]
    refine ⟨l.sorted, by simp, fun r hr r' hr' => ?_⟩
    rw [List.mem_singleton.1 hr']
    exact (l.bounded r hr).2
  bounded := by
    intro r hr
    rcases List.mem_append.1 hr with hr | hr
    · have := l.bounded r hr
      omega
    · rw [List.mem_singleton.1 hr]
      exact ⟨l.low_le, Nat.lt_succ_self _⟩

/-- Leave `n` offsets out, as control markers and withdrawn records do. -/
def skip (l : KeyedLog κ ν) (n : Nat) : KeyedLog κ ν where
  low := l.low
  high := l.high + n
  records := l.records
  low_le := Nat.le_add_right_of_le l.low_le
  sorted := l.sorted
  bounded := fun r hr => ⟨(l.bounded r hr).1, Nat.lt_add_right n (l.bounded r hr).2⟩

@[simp] theorem entries_empty : (empty : KeyedLog κ ν).entries = [] := rfl

@[simp] theorem entries_append (l : KeyedLog κ ν) (e : Entry κ ν) :
    (l.append e).entries = l.entries ++ [e] := by
  simp [entries, append, LogRecord.entry]

@[simp] theorem entries_skip (l : KeyedLog κ ν) (n : Nat) : (l.skip n).entries = l.entries := rfl

/-- `l'` is what compaction may leave of `l`. -/
structure Compacted (l l' : KeyedLog κ ν) : Prop where
  cleans : Cleans l.records l'.records
  high_eq : l'.high = l.high
  low_le : l.low ≤ l'.low

theorem Compacted.table_eq [DecidableEq κ] {l l' : KeyedLog κ ν} (h : Compacted l l') :
    l'.table = l.table := h.cleans.replay_eq

/-- The record just below the high watermark is there, if any offset is. -/
def LastKept (l : KeyedLog κ ν) : Prop := l.low = l.high ∨ ∃ r ∈ l.records, r.offset + 1 = l.high

theorem lastKept_append (l : KeyedLog κ ν) (e : Entry κ ν) : (l.append e).LastKept :=
  .inr ⟨_, List.mem_append_right _ (.head _), rfl⟩

theorem lastKept_appends {l : KeyedLog κ ν} {es : List (Entry κ ν)} (h : es ≠ []) :
    (es.foldl append l).LastKept := by
  obtain ⟨es, e, rfl⟩ := (List.eq_nil_or_concat es).resolve_left h
  rw [List.concat_eq_append, List.foldl_append]
  exact lastKept_append _ e

theorem LastKept.appends {l : KeyedLog κ ν} (h : l.LastKept) (es : List (Entry κ ν)) :
    (es.foldl append l).LastKept := by
  obtain rfl | hne := eq_or_ne es []
  · exact h
  · exact lastKept_appends hne

theorem high_le_appends (l : KeyedLog κ ν) (es : List (Entry κ ν)) :
    l.high ≤ (es.foldl append l).high := by
  induction es generalizing l with
  | nil => exact Nat.le_refl _
  | cons e es ih => exact Nat.le_trans (Nat.le_succ _) (ih (l.append e))

/-- Appending adds nothing below the old end. -/
theorem mem_of_mem_appends {l : KeyedLog κ ν} {es : List (Entry κ ν)} {r : LogRecord κ ν}
    (hr : r ∈ (es.foldl append l).records) (hlt : r.offset < l.high) : r ∈ l.records := by
  induction es generalizing l with
  | nil => exact hr
  | cons e es ih =>
    obtain hr | hr := List.mem_append.1 (ih hr (Nat.lt_succ_of_lt hlt))
    · exact hr
    · rw [List.mem_singleton.1 hr] at hlt
      exact absurd hlt (Nat.lt_irrefl _)

/-! ## Catching up -/

/-- The records at the offset `c` or above it. -/
def since (l : KeyedLog κ ν) (c : Nat) : List (LogRecord κ ν) := l.records.filter (c ≤ ·.offset)

theorem mem_since {l : KeyedLog κ ν} {c : Nat} {r : LogRecord κ ν} :
    r ∈ l.since c ↔ r ∈ l.records ∧ c ≤ r.offset := by
  simp [since]

theorem records_eq_since (l : KeyedLog κ ν) (c : Nat) :
    l.records = l.records.filter (·.offset < c) ++ l.since c := by
  unfold since
  have hsorted := l.sorted
  generalize l.records = rs at hsorted ⊢
  induction rs with
  | nil => rfl
  | cons r rs ih =>
    by_cases hc : r.offset < c
    · rw [List.filter_cons_of_pos (by simpa using hc), List.filter_cons_of_neg (by simpa using hc),
        List.cons_append, ← ih hsorted.tail]
    · -- all later offsets are above `c` too
      have hbelow : rs.filter (·.offset < c) = [] := by
        rw [List.filter_eq_nil_iff]
        intro r' hr'
        have := List.rel_of_pairwise_cons hsorted hr'
        simp only [decide_eq_true_eq]
        omega
      have hrest := ih hsorted.tail
      rw [hbelow] at hrest
      rw [List.filter_cons_of_neg (by simpa using hc), List.filter_cons_of_pos (by simpa using hc),
        hbelow, List.nil_append, ← List.nil_append (rs.filter _), ← hrest]

variable [DecidableEq κ]

/-- The table `t` has caught up with the log once the records since `c` are applied to it. -/
def CatchesUp (l : KeyedLog κ ν) (t : κ → Option ν) (c : Nat) : Prop :=
  replay t ((l.since c).map LogRecord.entry) = l.table

/-- A key with a record since `c` is brought up to date by it. -/
theorem replay_since {l : KeyedLog κ ν} {t : κ → Option ν} {c : Nat} {k : κ}
    (h : ∃ r ∈ l.records, c ≤ r.offset ∧ r.key = k) :
    replay t ((l.since c).map LogRecord.entry) k = l.table k := by
  obtain ⟨r, hr, hc, rfl⟩ := h
  unfold table entries
  rw [l.records_eq_since c, List.map_append, replay_append]
  exact replay_of_mem ⟨r.entry, List.mem_map_of_mem (mem_since.2 ⟨hr, hc⟩), rfl⟩

theorem catchesUp_iff {l : KeyedLog κ ν} {t : κ → Option ν} {c : Nat} : l.CatchesUp t c ↔
    ∀ k, (∃ r ∈ l.records, c ≤ r.offset ∧ r.key = k) ∨ t k = l.table k := by
  have hkey : ∀ k, (∃ r ∈ l.records, c ≤ r.offset ∧ r.key = k) ∨
      replay t ((l.since c).map LogRecord.entry) k = t k := by
    intro k
    by_cases h : ∃ r ∈ l.records, c ≤ r.offset ∧ r.key = k
    · exact .inl h
    · refine .inr (replay_of_not_mem fun e he hk => h ?_)
      obtain ⟨r, hr, rfl⟩ := List.mem_map.1 he
      obtain ⟨hr, hc⟩ := mem_since.1 hr
      exact ⟨r, hr, hc, hk⟩
  constructor
  · intro h k
    refine (hkey k).imp_right fun heq => ?_
    rw [← heq, h]
  · intro h
    funext k
    obtain hrecord | heq := h k
    · exact replay_since hrecord
    · obtain hrecord | hk := hkey k
      · exact replay_since hrecord
      · rw [hk, heq]

theorem catchesUp_table (l : KeyedLog κ ν) (c : Nat) : l.CatchesUp l.table c :=
  catchesUp_iff.2 fun _ => .inr rfl

@[simp] theorem table_append (l : KeyedLog κ ν) (e : Entry κ ν) :
    (l.append e).table = Function.update l.table e.1 e.2 := by
  unfold table
  rw [entries_append]
  exact replay_concat _ _ _ _

theorem CatchesUp.append {l : KeyedLog κ ν} {t : κ → Option ν} {c : Nat} (h : l.CatchesUp t c)
    (hc : c ≤ l.high) (e : Entry κ ν) : (l.append e).CatchesUp t c := by
  refine catchesUp_iff.2 fun k => ?_
  by_cases hk : e.1 = k
  · exact .inl ⟨_, List.mem_append_right _ (.head _), hc, hk⟩
  · obtain ⟨r, hr, hrecord⟩ | heq := catchesUp_iff.1 h k
    · exact .inl ⟨r, List.mem_append_left _ hr, hrecord⟩
    · refine .inr ?_
      rw [heq, table_append, Function.update_of_ne (Ne.symm hk)]

theorem CatchesUp.appends {t : κ → Option ν} {c : Nat} (es : List (Entry κ ν)) :
    ∀ {l : KeyedLog κ ν}, l.CatchesUp t c → c ≤ l.high → (es.foldl KeyedLog.append l).CatchesUp t c := by
  induction es with
  | nil => exact fun h _ => h
  | cons e es ih => exact fun h hc => ih (h.append hc e) (Nat.le_succ_of_le hc)

/-- The last record of a key decides it. -/
theorem exists_last {rs : List (LogRecord κ ν)} (hsorted : rs.Pairwise (·.offset < ·.offset)) {k : κ}
    (h : ∃ r ∈ rs, r.key = k) : ∃ r ∈ rs, r.key = k ∧
      (∀ t, replay t (rs.map LogRecord.entry) k = r.value) ∧
      ∀ r' ∈ rs, r'.key = k → r'.offset ≤ r.offset := by
  induction rs using List.reverseRecOn with
  | nil =>
    obtain ⟨r, hr, -⟩ := h
    cases hr
  | append_singleton rs last ih =>
    have hbefore : ∀ r ∈ rs, r.offset < last.offset := fun r hr =>
      (List.pairwise_append.1 hsorted).2.2 r hr last (.head _)
    have hreplay : ∀ t, replay t ((rs ++ [last]).map LogRecord.entry) k =
        Function.update (replay t (rs.map LogRecord.entry)) last.key last.value k := by
      intro t
      rw [List.map_append, ← replay_concat]
      rfl
    by_cases hk : last.key = k
    · refine ⟨last, by simp, hk, fun t => ?_, fun r hr _ => ?_⟩
      · rw [hreplay, hk, Function.update_self]
      · obtain hr | hr := List.mem_append.1 hr
        · exact Nat.le_of_lt (hbefore r hr)
        · exact Nat.le_of_eq (congrArg LogRecord.offset (List.mem_singleton.1 hr))
    · have hmem : ∀ r ∈ rs ++ [last], r.key = k → r ∈ rs := by
        intro r hr hkey
        obtain hr | hr := List.mem_append.1 hr
        · exact hr
        · exact absurd (List.mem_singleton.1 hr ▸ hkey) hk
      obtain ⟨r, hr, hkey⟩ := h
      obtain ⟨r₀, hr₀, hkey₀, hvalue, hlast⟩ :=
        ih (List.pairwise_append.1 hsorted).1 ⟨r, hmem r hr hkey, hkey⟩
      refine ⟨r₀, List.mem_append_left _ hr₀, hkey₀, fun t => ?_, fun r' hr' hk' =>
        hlast r' (hmem r' hr' hk') hk'⟩
      rw [hreplay, Function.update_of_ne (Ne.symm hk), hvalue]

/-- The last record of a key that is there. -/
theorem exists_last_of_table {l : KeyedLog κ ν} {k : κ} {v : ν} (h : l.table k = some v) :
    ∃ r ∈ l.records, r.key = k ∧ r.value = some v ∧
      ∀ r' ∈ l.records, r'.key = k → r'.offset ≤ r.offset := by
  have hmem : ∃ r ∈ l.records, r.key = k := by
    by_contra hnone
    have habsent : l.table k = none := by
      refine replay_of_not_mem fun e he hk => hnone ?_
      obtain ⟨r, hr, rfl⟩ := List.mem_map.1 he
      exact ⟨r, hr, hk⟩
    cases habsent.symm.trans h
  obtain ⟨r, hr, hk, hvalue, hlast⟩ := exists_last l.sorted hmem
  exact ⟨r, hr, hk, (hvalue _).symm.trans h, hlast⟩

omit [DecidableEq κ] in
/-- The cleaner keeps the last record of a key, unless it is a deletion. -/
theorem Cleans.mem_of_last {l l' : List (LogRecord κ ν)} {r : LogRecord κ ν} (h : Cleans l l')
    (hsorted : l.Pairwise (·.offset < ·.offset)) (hr : r ∈ l) (hvalue : r.value ≠ none)
    (hlast : ∀ r' ∈ l, r'.key = r.key → r'.offset ≤ r.offset) : r ∈ l' := by
  induction h with
  | refl => exact hr
  | @tail m m' hm hstep ih =>
    have hsub : m.Sublist l := Cleans.sublist hm
    cases hstep with
    | superseded pre gone post hlater =>
      rw [List.mem_append, List.mem_cons] at ih
      obtain hpre | rfl | hpost := ih
      · exact List.mem_append_left _ hpre
      · -- a later record of its key would be above the last one
        obtain ⟨r', hr', hkey⟩ := hlater
        have hlt := List.rel_of_pairwise_cons (List.pairwise_append.1 (hsorted.sublist hsub)).2.1 hr'
        have hle := hlast r' (hsub.subset (List.mem_append_right _ (.tail _ hr'))) hkey
        omega
      · exact List.mem_append_right _ hpost
    | deletion pre gone post hnone _ =>
      rw [List.mem_append, List.mem_cons] at ih
      obtain hpre | rfl | hpost := ih
      · exact List.mem_append_left _ hpre
      · exact absurd hnone hvalue
      · exact List.mem_append_right _ hpost

/-- **Compaction and catching up**: a table that could catch up with a log can catch up with what
compaction left of it exactly if each deleted key the table still has kept a record since `c`. -/
theorem Compacted.catchesUp_iff {l l' : KeyedLog κ ν} {t : κ → Option ν} {c : Nat}
    (h : Compacted l l') (hl : l.CatchesUp t c) : l'.CatchesUp t c ↔
      ∀ k, t k ≠ none → l.table k = none → ∃ r ∈ l'.records, c ≤ r.offset ∧ r.key = k := by
  rw [KeyedLog.catchesUp_iff, h.table_eq]
  constructor
  · intro hl' k hk hgone
    refine (hl' k).resolve_right fun heq => hk ?_
    rw [heq, hgone]
  · intro hkept k
    rcases htable : l.table k with _ | v
    · by_cases hk : t k = none
      · exact .inr hk
      · exact .inl (hkept k hk htable)
    · obtain ⟨r, hr, hc, hkey⟩ | heq := KeyedLog.catchesUp_iff.1 hl k
      · obtain ⟨last, hlast, rfl, hvalue, hmax⟩ := exists_last_of_table htable
        have hin := h.cleans.mem_of_last l.sorted hlast (by rw [hvalue]; exact nofun) hmax
        exact .inl ⟨last, hin, Nat.le_trans hc (hmax r hr hkey), rfl⟩
      · rw [heq]
        exact .inr htable

end KeyedLog
