import Doki.Node.Stream

/-!
# What the replication log has

The state machine of a replica (`shardStateMachine`) appends every entry that it applies to
the replication log. A full log drops its oldest entry; a snapshot and `ResetLog` empty it. So
the log always has the last entries that have been applied, up to the current version, and a
follower that asks for the entries after some version gets all of them, or is told that
the log does not go back so far.

Versions have 64 bits, and start again from 0 after the last one. The runs stay below it.

* `Journaled`: a replica with a journal of all entries that have been applied, which no step
  reads; its steps are those of the state machine (`Journaled.map_replica_step`);
* `Journaled.Backed`: the log is the end of the journal, and the versions in it are
  consecutive. Every operation keeps this (`Journaled.backed_step`);
* `Journaled.log_exact`: what the log has and answers at every moment of every run.
-/

namespace Doki

open Faulty Runs

/-- The entries of the log of a replica after a version. -/
def ReplicaState.entriesSince (r : ReplicaState) (version : ℕ) : List Entry × Bool :=
  r.repLog.since version

/-! ## The journal -/

/-- A replica, and the entries that it has applied, the oldest first. -/
structure Journaled where
  replica : ReplicaState
  journal : List Entry

namespace Journaled

/-- The operations of the state machine. An entry that is applied goes to the journal. -/
def step (s : Journaled) : MachineOp → Option Journaled
  | .apply e mode walOk =>
    some
      { replica := (s.replica.apply e mode walOk).1
        journal := if (s.replica.apply e mode walOk).2.isSome then s.journal
          else s.journal ++ [e] }
  | .applySnapshot snap mode fates =>
    some { s with replica := (s.replica.applySnapshot snap mode fates).2 }
  | .resetLog => some { s with replica := s.replica.resetLog }

/-- A new replica that has applied nothing. -/
def start (shardID nodeID : String) (peers : List String) (logSize : ℤ)
    (ds : Option DiskState) : Journaled where
  replica := { newReplicaState shardID nodeID peers logSize with ds := ds }
  journal := []

/-- The entry that has last been applied at a version. -/
def appliedAt (s : Journaled) (version : ℕ) : Option Entry :=
  s.journal.reverse.find? fun e => decide (e.version = version)

/-- The journal changes nothing. -/
theorem map_replica_step (s : Journaled) (op : MachineOp) :
    (s.step op).map replica = op.step s.replica := by
  cases op <;> rfl

/-- What the log has at a moment: at most `maxSize` entries, with consecutive versions up to
    that of the replica. A version before this is answered with the entries that have been
    applied since, or not at all if the next one of them is missing. -/
structure Exact (maxSize : ℕ) (s : Journaled) : Prop where
  length_le : s.replica.repLog.entries.length ≤ maxSize
  consecutive : ∃ base, Consecutive base s.replica.repLog.entries
  last : ∀ e, s.replica.repLog.entries.getLast? = some e → e.version = s.replica.version
  entriesSince_ok : ∀ since < s.replica.version, ∀ es,
    s.replica.entriesSince since = (es, true) → es ≠ [] →
      es.map some = (List.range' (since + 1) (s.replica.version - since)).map s.appliedAt
  entriesSince_not_ok : ∀ since < s.replica.version,
    (s.replica.entriesSince since).2 = false ↔
      s.replica.repLog.entries ≠ [] ∧
        ∀ e ∈ s.replica.repLog.entries, e.version ≠ since + 1

/-- The log has the capacity `maxSize`, and is the end of the journal, up to the version of
    the replica. -/
structure Backed (maxSize : ℕ) (s : Journaled) : Prop where
  maxSize_eq : s.replica.repLog.maxSize = maxSize
  length_le : s.replica.repLog.entries.length ≤ maxSize
  log : ∃ base, Consecutive base s.replica.repLog.entries ∧
    base + s.replica.repLog.entries.length = s.replica.version
  suffix : s.replica.repLog.entries <:+ s.journal

variable {maxSize : ℕ} {s t : Journaled}

/-- An empty log is the end of any journal. -/
theorem Backed.of_nil (hsize : s.replica.repLog.maxSize = maxSize)
    (hlog : s.replica.repLog.entries = []) : s.Backed maxSize where
  maxSize_eq := hsize
  length_le := by simp [hlog]
  log := ⟨s.replica.version, by rw [hlog]; trivial, by rw [hlog]; rfl⟩
  suffix := by simp [hlog]

/-- The next entry goes to the end of both. -/
theorem Backed.of_applies {e : Entry} (h : s.Backed maxSize) (hpos : 0 < maxSize)
    (happlies : Applies s.replica e t.replica) (hjournal : t.journal = s.journal ++ [e]) :
    t.Backed maxSize := by
  obtain ⟨base, hcons, hlen⟩ := h.log
  have hsize := h.maxSize_eq
  constructor
  · rw [happlies.repLog, Log.maxSize_append, hsize]
  · rw [happlies.repLog, ← hsize]
    exact Log.length_append_le e (hsize.symm ▸ hpos) (hsize.symm ▸ h.length_le)
  · rw [happlies.version, happlies.repLog]
    exact Log.consecutive_append hcons (by rw [hlen, happlies.next])
  · obtain ⟨d, hd⟩ := s.replica.repLog.entries_append e
    rw [happlies.repLog, hd, hjournal]
    obtain ⟨before, hbefore⟩ := (List.drop_suffix d _).trans h.suffix
    exact ⟨before, by rw [← List.append_assoc, hbefore]⟩

/-- The step lemma: an operation applies the next entry, or leaves the log or empties it. -/
theorem backed_step (hpos : 0 < maxSize) (s : Journaled) (op : MachineOp) (t : Journaled)
    (h : s.Backed maxSize) (hversion : s.replica.version < UInt64.size - 1)
    (hstep : s.step op = some t) : t.Backed maxSize := by
  cases op with
  | apply e mode walOk =>
    obtain rfl := Option.some.inj hstep
    rcases s.replica.apply_effect (e := e) (.inr hversion.ne) mode walOk with
      ⟨herr, ds, hds⟩ | ⟨hok, happlies⟩
    · rw [if_pos herr, hds]
      exact ⟨h.maxSize_eq, h.length_le, h.log, h.suffix⟩
    · exact h.of_applies hpos happlies (by rw [hok]; rfl)
  | applySnapshot snap mode fates =>
    obtain rfl := Option.some.inj hstep
    obtain ⟨ds, hds⟩ := s.replica.applySnapshot_snd snap mode fates
    rw [hds]
    exact .of_nil h.maxSize_eq rfl
  | resetLog =>
    obtain rfl := Option.some.inj hstep
    exact .of_nil h.maxSize_eq rfl

theorem backed_start (shardID nodeID : String) (peers : List String) (logSize : ℤ)
    (ds : Option DiskState) :
    (start shardID nodeID peers logSize ds).Backed (Log.new logSize).maxSize :=
  .of_nil rfl rfl

/-- The entries of the log are the last ones that have been applied at their versions. -/
theorem Backed.appliedAt_eq (h : s.Backed maxSize) {e : Entry}
    (he : e ∈ s.replica.repLog.entries) : s.appliedAt e.version = some e := by
  obtain ⟨base, hcons, -⟩ := h.log
  obtain ⟨before, hbefore⟩ := h.suffix
  rw [appliedAt, ← hbefore, List.reverse_append, List.find?_append]
  -- The search comes to the log first, and one entry of it has this version.
  cases hfind : s.replica.repLog.entries.reverse.find? fun x => decide (x.version = e.version) with
  | none =>
    have hnone := List.find?_eq_none.1 hfind e (List.mem_reverse.2 he)
    exact absurd (decide_eq_true rfl) hnone
  | some x =>
    have hx := List.mem_reverse.1 (List.mem_of_find?_eq_some hfind)
    have hversion : x.version = e.version := by simpa using List.find?_some hfind
    rw [hcons.eq_of_version hx he hversion]
    rfl

/-- What the end of the journal tells about the answers of the log. -/
theorem Backed.exact (h : s.Backed maxSize) (hversion : s.replica.version < UInt64.size - 1) :
    s.Exact maxSize := by
  obtain ⟨base, hcons, hlen⟩ := h.log
  refine ⟨h.length_le, ⟨base, hcons⟩, fun e he => ?_, fun since hlt es hes hne => ?_,
    fun since hlt => ?_⟩
  · rw [hcons.version_getLast? he, hlen]
  · obtain ⟨hescons, hcount, hmem⟩ := Log.since_consecutive hcons hes hne
    have hlength : es.length = s.replica.version - since := by omega
    rw [← hlength]
    exact hescons.map_some_eq fun e he => h.appliedAt_eq (hmem e he)
  · exact Log.since_snd_eq_false_iff hcons (hlen.symm ▸ hlt) (hlt.trans hversion).ne

/-- In every run of a new state machine that stays below the last version, the log has the
    last entries that have been applied, and answers with them. -/
theorem log_exact (shardID nodeID : String) (peers : List String) (logSize : ℤ)
    (ds : Option DiskState) (ops : List MachineOp)
    (h : Throughout step (fun s => s.replica.version < UInt64.size - 1)
      (start shardID nodeID peers logSize ds) ops) :
    Throughout step (Exact (Log.new logSize).maxSize) (start shardID nodeID peers logSize ds)
      ops := by
  have hbacked := throughout (backed_step (Log.maxSize_new_pos logSize))
    (backed_start shardID nodeID peers logSize ds) h.along
  exact (hbacked.and h).mono fun s hs => hs.1.exact hs.2

/-- Three entries go to a log of two, and one of them twice; then a snapshot goes back to the
    version 1, and another entry is applied at the version 2. -/
def exampleOps : List MachineOp :=
  [.apply (entryAt exampleHistory 1 1) .withoutWAL true,
    .apply (entryAt exampleHistory 1 2) .withoutWAL true,
    .apply (entryAt exampleHistory 1 2) .withoutWAL true,
    .apply (entryAt exampleHistory 1 3) .withoutWAL true,
    .applySnapshot ⟨2, 1, stateAt exampleHistory 1⟩ .noPersist [],
    .apply { entryAt exampleHistory 2 2 with value := "other" } .withoutWAL true]

/-- The answers for the versions 0 and 1, as the versions of the entries, after the first
    `n` operations. -/
def exampleAnswers (n : ℕ) : Option (List (List ℕ × Bool)) :=
  (exec step (start "s" "a" ["b"] 2 none) (exampleOps.take n)).map fun s =>
    [0, 1].map fun since =>
      ((s.replica.entriesSince since).1.map (·.version), (s.replica.entriesSince since).2)

/-- The first entry is dropped for the third one, and then by the snapshot. -/
theorem log_exact_exampleOps :
    Throughout step (Exact 2) (start "s" "a" ["b"] 2 none) exampleOps ∧
      exampleAnswers 2 = some [([1, 2], true), ([2], true)] ∧
      exampleAnswers 4 = some [([], false), ([2, 3], true)] ∧
      exampleAnswers 6 = some [([], false), ([2], true)] :=
  ⟨log_exact "s" "a" ["b"] 2 none exampleOps (by decide +kernel), by decide +kernel,
    by decide +kernel, by decide +kernel⟩

end Journaled

end Doki
