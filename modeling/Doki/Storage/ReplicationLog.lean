import Doki.Lib.Counters
import Doki.Storage.Basic

/-!
# The replication log

A bounded in-memory log of the last entries applied by a replica
(`internal/replicationlog`). A full log drops its oldest entry for the newest.
`Log.since` answers which entries a follower at a given version misses: all of
them, or nothing when some are no longer in the log.
-/

namespace Doki

/-- The replication log: its entries, oldest first, and its capacity. -/
structure Log where
  entries : List Entry
  maxSize : ℕ

namespace Log

/-- An empty log of at most `maxSize` entries, by default 1000. -/
def new (maxSize : ℤ) : Log :=
  { entries := [], maxSize := if maxSize ≤ 0 then 1000 else maxSize.toNat }

/-- The log with `e` at its end, and without its oldest entry if it was full. -/
def append (l : Log) (e : Entry) : Log :=
  if l.entries.length ≥ l.maxSize then { l with entries := l.entries.tail ++ [e] }
  else { l with entries := l.entries ++ [e] }

/-- The entries after the version `sinceVersion`, and whether the log covers all
    of them; an empty log leaves the question to the caller. -/
def since (l : Log) (sinceVersion : ℕ) : List Entry × Bool :=
  match l.entries with
  | [] => ([], true)
  | oldest :: _ =>
    -- Some of the entries that are asked for have been dropped.
    if oldest.version > Counter.next sinceVersion then ([], false)
    else (l.entries.filter fun e => decide (e.version > sinceVersion), true)

/-- The log without its entries. -/
def reset (l : Log) : Log := { l with entries := [] }

@[simp] theorem entries_reset (l : Log) : l.reset.entries = [] := rfl

/-- The entries after a version are some of those of the log. -/
theorem mem_of_mem_since {l : Log} {v : ℕ} {e : Entry} (h : e ∈ (l.since v).1) :
    e ∈ l.entries := by
  rw [since] at h
  split at h
  · cases h
  · rename_i oldest es hes
    split_ifs at h
    · cases h
    · exact (List.mem_filter.1 h).1

/-- Of consecutive entries, those after the version `base + d` are all but the first
    `d`. -/
theorem filter_version_eq_drop {base : ℕ} {es : List Entry} (h : Consecutive base es) (d : ℕ) :
    es.filter (fun e => decide (e.version > base + d)) = es.drop d := by
  induction es generalizing base d with
  | nil => simp
  | cons e es ih =>
    obtain ⟨he, hes⟩ := h
    cases d with
    | zero =>
      rw [List.filter_cons_of_pos (by simp [he]), List.drop_zero, List.filter_eq_self.2]
      intro x hx
      have := (hes.lt_version x hx).1
      simp only [decide_eq_true_eq]
      omega
    | succ d =>
      rw [List.filter_cons_of_neg (by simp [he]), List.drop_succ_cons, ← ih hes d]
      simp only [Nat.add_assoc, Nat.add_comm 1 d]

/-- Appending keeps the end of the log. -/
theorem entries_append (l : Log) (e : Entry) :
    ∃ d, (l.append e).entries = l.entries.drop d ++ [e] := by
  rw [append]
  split_ifs with h
  · exact ⟨1, by simp⟩
  · exact ⟨0, rfl⟩

/-- A log has room for an entry. -/
theorem maxSize_new_pos (maxSize : ℤ) : 0 < (new maxSize).maxSize := by
  rw [new]
  dsimp only
  split_ifs with h
  · decide
  · omega

theorem maxSize_append (l : Log) (e : Entry) : (l.append e).maxSize = l.maxSize := by
  rw [append]
  split_ifs <;> rfl

/-- A log with room for an entry does not outgrow its capacity. -/
theorem length_append_le {l : Log} (e : Entry) (hpos : 0 < l.maxSize)
    (hlen : l.entries.length ≤ l.maxSize) : (l.append e).entries.length ≤ l.maxSize := by
  rw [append]
  split_ifs with hfull
  · simp only [List.length_append, List.length_tail, List.length_singleton]
    omega
  · simp only [List.length_append, List.length_singleton]
    omega

/-- The next entry goes to the end of consecutive ones, from which old entries may go. -/
theorem consecutive_append {l : Log} {base : ℕ} {e : Entry} (h : Consecutive base l.entries)
    (he : e.version = base + l.entries.length + 1) :
    ∃ base', Consecutive base' (l.append e).entries ∧
      base' + (l.append e).entries.length = e.version := by
  obtain ⟨d, hd⟩ := l.entries_append e
  rw [hd, he]
  rcases le_total d l.entries.length with hle | hle
  · refine ⟨base + d, Doki.consecutive_append.2 ⟨(h.take_drop d hle).2, ?_, trivial⟩, ?_⟩
    · rw [he, List.length_drop]
      omega
    · simp only [List.length_append, List.length_drop, List.length_singleton]
      omega
  · rw [List.drop_eq_nil_of_le hle]
    exact ⟨base + l.entries.length, ⟨he, trivial⟩, rfl⟩

/-- The entries after a version, of a log of consecutive entries: those that follow
    this version, up to the last one. -/
theorem since_consecutive {l : Log} {base v : ℕ} {es : List Entry}
    (h : Consecutive base l.entries) (hes : l.since v = (es, true)) (hne : es ≠ []) :
    Consecutive v es ∧ v + es.length = base + l.entries.length ∧ ∀ e ∈ es, e ∈ l.entries := by
  have hmem : ∀ e ∈ es, e ∈ l.entries := fun e he => mem_of_mem_since (v := v) (by rwa [hes])
  obtain ⟨entries, maxSize⟩ := l
  cases entries with
  | nil =>
    simp only [since, Prod.mk.injEq] at hes
    exact absurd hes.1.symm hne
  | cons oldest rest =>
    simp only [since] at hes
    split_ifs at hes with hgap
    · simp at hes
    · obtain ⟨hes, -⟩ := Prod.mk.inj hes
      have hbase : base ≤ v := by
        have := h.1
        have := Counter.next_le v
        omega
      -- What is left is the end of the log.
      obtain ⟨d, rfl⟩ := Nat.exists_eq_add_of_le hbase
      have hdrop : es = (oldest :: rest).drop d := by
        rw [← hes]
        exact filter_version_eq_drop h d
      have hlen : d < (oldest :: rest).length := by
        by_contra hle
        exact hne (hdrop.trans (List.drop_eq_nil_of_le (not_lt.1 hle)))
      rw [hdrop]
      refine ⟨(h.take_drop d hlen.le).2, ?_, fun e he => List.mem_of_mem_drop he⟩
      simp only [List.length_drop]
      omega

/-- A log of consecutive entries does not cover what follows a version before its end
    exactly when the next entry is missing from it. -/
theorem since_snd_eq_false_iff {l : Log} {base v : ℕ} (h : Consecutive base l.entries)
    (hv : v < base + l.entries.length) (hmax : v ≠ Counter.max) :
    (l.since v).2 = false ↔ l.entries ≠ [] ∧ ∀ e ∈ l.entries, e.version ≠ v + 1 := by
  obtain ⟨entries, maxSize⟩ := l
  cases entries with
  | nil => simp [since]
  | cons oldest rest =>
    have holdest := h.1
    simp only [since]
    rw [Counter.next_of_ne hmax]
    split_ifs with hgap
    · refine iff_of_true rfl ⟨by simp, fun e he => ?_⟩
      have := (h.lt_version e he).1
      omega
    · refine iff_of_false (by simp) fun hmissing => ?_
      obtain ⟨e, he, hversion⟩ := h.exists_version (n := v + 1) (by omega) hv
      exact hmissing.2 e he hversion

end Log

end Doki
