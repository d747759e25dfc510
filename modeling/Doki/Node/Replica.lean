import Doki.Disk.State
import Doki.Storage.ReplicationLog

/-!
# Replicas

The runtime state of one shard replica (`node/replica.go`), and its state
machine (`node/statemachine.go`): the only place where entries are applied and
snapshots installed. In the source the state machine shares the term and the
version with the replica through pointers, and here it is a part of it.

* `ReplicaState.apply`: applying one entry. It must be the next one, and not of an
  older term than the replica's (`apply_ok`, `apply_error`);
* `ReplicaState.applySnapshot`: replacing the whole state. Nothing is checked, in
  particular not the term.
-/

namespace Doki

open Faulty

/-- A moment, or a duration. -/
abbrev Time := ℤ

/-- The role a node plays for a shard. -/
inductive Role
  | leader
  | follower
  | unknown
  deriving DecidableEq, Repr

/-- The recovery posture of a replica. -/
inductive RecoveryState
  | healthy
  | lagging
  | recovering
  | unavailable
  deriving DecidableEq, Repr

/-- The runtime state of one shard replica. Its locks and counters are left out,
    and so is its randomised election timeout: an election may start at any time. -/
structure ReplicaState where
  shardID : String
  nodeID : String
  role : Role
  leaderID : String
  term : ℕ
  version : ℕ
  isReady : Bool
  recoveryState : RecoveryState
  recoverySource : String
  /-- The other nodes that host the shard. -/
  peers : List String
  /-- The version of the shard map that configured this replica. -/
  shardMapVersion : ℕ
  kv : KV
  repLog : Log
  /-- The disk state, if a data directory is configured. -/
  ds : Option DiskState
  lastLeaderContact : Time
  votedFor : String
  votedForTerm : ℕ
  peerLastContact : Finmap fun _ : String => Time
  bootstrapShardID : String
  bootstrapLeaderAddr : String

/-- A new replica: a follower, not ready. -/
def newReplicaState (shardID nodeID : String) (peers : List String) (logSize : ℤ) :
    ReplicaState where
  shardID := shardID
  nodeID := nodeID
  role := .follower
  leaderID := ""
  term := 0
  version := 0
  isReady := false
  recoveryState := .lagging
  recoverySource := ""
  peers := peers
  shardMapVersion := 0
  kv := ∅
  repLog := Log.new logSize
  ds := none
  lastLeaderContact := 0
  votedFor := ""
  votedForTerm := 0
  peerLastContact := ∅
  bootstrapShardID := ""
  bootstrapLeaderAddr := ""

/-- The recovery source that names the leader. -/
def recoverySourceLeader (leaderID : String) : String :=
  if leaderID = "" then "" else "leader:" ++ leaderID

/-- The recovery source that names the shard that a split starts from. -/
def recoverySourceBootstrap (shardID : String) : String :=
  if shardID = "" then "" else "bootstrap:" ++ shardID

/-- The errors of `apply`. -/
inductive ApplyError
  | nonMonotonic (current entry : ℕ)
  | staleTerm (current entry : ℕ)
  | walAppend
  | unknownOp
  deriving DecidableEq, Repr

/-- The error's text, without the details that the operating system adds. -/
def ApplyError.message : ApplyError → String
  | .nonMonotonic current entry => s!"non-monotonic apply: current={current} entry={entry}"
  | .staleTerm current entry => s!"stale term apply: current={current} entry={entry}"
  | .walAppend => "wal append"
  | .unknownOp => "unknown op \"\""

/-- Whether `apply` writes to the write-ahead log. -/
inductive ApplyMode
  | withWAL
  | withoutWAL
  deriving DecidableEq, Repr

/-- Whether `applySnapshot` writes to the disk. -/
inductive SnapshotMode
  | persist
  | noPersist
  deriving DecidableEq, Repr

namespace ReplicaState

variable (r : ReplicaState)

/-- The replica is up to date. -/
def setReady : ReplicaState :=
  { r with isReady := true, recoveryState := .healthy, recoverySource := "" }

/-- The replica has to recover from the leader. -/
def setLagging (now : Time) : ReplicaState :=
  { r with
    isReady := false
    recoveryState := .lagging
    recoverySource := recoverySourceLeader r.leaderID
    lastLeaderContact := now
    repLog := r.repLog.reset }

/-- The replica has seen a message of the term `term`: if it is newer, the replica
    takes it over and follows. -/
def observe (term : ℕ) : ReplicaState :=
  if term > r.term then { r with term := term, role := .follower } else r

/-! ## The state machine -/

/-- The state of the shard, for a transfer or a recovery. -/
def snapshot : Snapshot := { term := r.term, version := r.version, kv := r.kv }

/-- Writing an entry to the write-ahead log, if the mode asks for it and there is
    a disk state. -/
def logged (e : Entry) : ApplyMode → ReplicaState
  | .withWAL => { r with ds := r.ds.map (·.appendWAL e) }
  | .withoutWAL => r

/-- The replica with the entry `e` applied. -/
def applied (e : Entry) : ReplicaState :=
  { r with
    kv := applyOp r.kv e
    version := e.version
    term := e.term
    repLog := r.repLog.append e }

/-- Applying an entry; `walOk` tells whether a write to the write-ahead log
    succeeds. An unknown operation is refused only after it has been logged. -/
def apply (e : Entry) (mode : ApplyMode) (walOk : Bool) : ReplicaState × Option ApplyError :=
  if e.version ≠ Counter.next r.version then (r, some (.nonMonotonic r.version e.version))
  -- The leader of an older term is refused here, too.
  else if e.term < r.term then (r, some (.staleTerm r.term e.term))
  else if mode = .withWAL ∧ r.ds.isSome ∧ walOk = false then (r, some .walAppend)
  else if e.op = .unknown then (r.logged e mode, some .unknownOp)
  else ((r.logged e mode).applied e, none)

/-- The replica with its state replaced by a snapshot. -/
def installed (s : Snapshot) : ReplicaState :=
  { r with kv := s.kv, version := s.version, term := s.term, repLog := r.repLog.reset }

/-- Replacing the state by a snapshot, and the files if it is to be kept. -/
def applySnapshot (s : Snapshot) (mode : SnapshotMode) (fates : List Fate) :
    Outcome DiskError Unit × ReplicaState :=
  match mode, r.ds with
  | .persist, some ds =>
    let (o, ds') := ds.resetSnapshot s fates
    (o, { r.installed s with ds := some ds' })
  | _, _ => (.done (), r.installed s)

variable {r}

/-- Logging an entry changes the files only. -/
theorem logged_eq (e : Entry) (mode : ApplyMode) : ∃ ds, r.logged e mode = { r with ds := ds } := by
  cases mode with
  | withWAL => exact ⟨_, rfl⟩
  | withoutWAL => exact ⟨r.ds, rfl⟩

/-- A successful application: the entry was the next one, and of the current term
    or a newer one. -/
theorem apply_ok {e : Entry} {mode : ApplyMode} {walOk : Bool} {r' : ReplicaState}
    (h : r.apply e mode walOk = (r', none)) :
    e.version = Counter.next r.version ∧ r.term ≤ e.term ∧ e.op ≠ .unknown ∧
      ∃ ds, r' = { r.applied e with ds := ds } := by
  rw [apply] at h
  split_ifs at h with hversion hterm hwal hop
  · cases h
  · cases h
  · cases h
  · cases h
  · obtain ⟨ds, hds⟩ := r.logged_eq e mode
    cases h
    exact ⟨not_not.1 hversion, not_lt.1 hterm, hop, ds, by rw [hds]; rfl⟩

/-- A failed application changes at most the files. -/
theorem apply_error {e : Entry} {mode : ApplyMode} {walOk : Bool} {r' : ReplicaState}
    {err : ApplyError} (h : r.apply e mode walOk = (r', some err)) :
    ∃ ds, r' = { r with ds := ds } := by
  rw [apply] at h
  split_ifs at h
  · cases h
    exact ⟨r.ds, rfl⟩
  · cases h
    exact ⟨r.ds, rfl⟩
  · cases h
    exact ⟨r.ds, rfl⟩
  · cases h
    exact r.logged_eq e mode
  · cases h

/-- The next entry of a known operation, of the current term or a newer one, is
    applied when the write to the write-ahead log succeeds. -/
theorem apply_next {e : Entry} (hversion : e.version = Counter.next r.version)
    (hterm : r.term ≤ e.term) (hop : e.op ≠ .unknown) (mode : ApplyMode) :
    r.apply e mode true = ((r.logged e mode).applied e, none) := by
  rw [apply, if_neg (not_not.2 hversion), if_neg (not_lt.2 hterm), if_neg (by simp), if_neg hop]

/-- Installing a snapshot succeeds in memory, whatever happens on disk. -/
theorem applySnapshot_snd (s : Snapshot) (mode : SnapshotMode) (fates : List Fate) :
    ∃ ds, (r.applySnapshot s mode fates).2 = { r.installed s with ds := ds } := by
  unfold applySnapshot
  split
  · exact ⟨_, rfl⟩
  · exact ⟨r.ds, rfl⟩

/-- Observing a term changes the term and the role only. -/
theorem observe_eq (term : ℕ) :
    ∃ role, r.observe term = { r with term := max r.term term, role := role } := by
  rw [observe]
  split_ifs with h
  · exact ⟨.follower, by rw [max_eq_right h.le]⟩
  · exact ⟨r.role, by rw [max_eq_left (not_lt.1 h)]⟩

end ReplicaState

/-! ## Moving forward -/

/-- The replica `r'` is a later state of `r`: it is the same replica, and its term has
    not decreased. -/
structure Evolves (r r' : ReplicaState) : Prop where
  shardID : r'.shardID = r.shardID
  nodeID : r'.nodeID = r.nodeID
  peers : r'.peers = r.peers
  term_le : r.term ≤ r'.term

/-- A later state with the same vote. -/
structure KeepsVote (r r' : ReplicaState) : Prop extends Evolves r r' where
  votedFor : r'.votedFor = r.votedFor
  votedForTerm : r'.votedForTerm = r.votedForTerm

variable {r r' r'' : ReplicaState}

theorem Evolves.refl (r : ReplicaState) : Evolves r r := ⟨rfl, rfl, rfl, le_rfl⟩

theorem Evolves.trans (h : Evolves r r') (h' : Evolves r' r'') : Evolves r r'' where
  shardID := h'.shardID.trans h.shardID
  nodeID := h'.nodeID.trans h.nodeID
  peers := h'.peers.trans h.peers
  term_le := h.term_le.trans h'.term_le

theorem KeepsVote.refl (r : ReplicaState) : KeepsVote r r := ⟨.refl r, rfl, rfl⟩

theorem KeepsVote.trans (h : KeepsVote r r') (h' : KeepsVote r' r'') : KeepsVote r r'' where
  toEvolves := h.toEvolves.trans h'.toEvolves
  votedFor := h'.votedFor.trans h.votedFor
  votedForTerm := h'.votedForTerm.trans h.votedForTerm

namespace ReplicaState

theorem keepsVote_observe (r : ReplicaState) (term : ℕ) : KeepsVote r (r.observe term) := by
  obtain ⟨role, h⟩ := r.observe_eq term
  rw [h]
  exact ⟨⟨rfl, rfl, rfl, le_max_left _ _⟩, rfl, rfl⟩

theorem keepsVote_setLagging (r : ReplicaState) (now : Time) : KeepsVote r (r.setLagging now) :=
  ⟨⟨rfl, rfl, rfl, le_rfl⟩, rfl, rfl⟩

/-- Applying an entry, successfully or not, moves the replica forward. -/
theorem keepsVote_apply (r : ReplicaState) (e : Entry) (mode : ApplyMode) (walOk : Bool) :
    KeepsVote r (r.apply e mode walOk).1 := by
  cases h : r.apply e mode walOk with
  | mk r' err =>
    cases err with
    | some err =>
      obtain ⟨ds, rfl⟩ := apply_error h
      exact ⟨⟨rfl, rfl, rfl, le_rfl⟩, rfl, rfl⟩
    | none =>
      obtain ⟨-, hterm, -, ds, rfl⟩ := apply_ok h
      exact ⟨⟨rfl, rfl, rfl, hterm⟩, rfl, rfl⟩

end ReplicaState

/-- The replica `r'` has the contents of `r`, but may have dropped its log. -/
structure SameContents (r r' : ReplicaState) : Prop where
  version : r'.version = r.version
  kv : r'.kv = r.kv
  repLog : r'.repLog.entries ⊆ r.repLog.entries

theorem SameContents.refl (r : ReplicaState) : SameContents r r :=
  ⟨rfl, rfl, List.Subset.refl _⟩

theorem SameContents.version_le (h : SameContents r r') : r.version ≤ r'.version := h.version.ge

/-- The replica `r'` is `r` with the entry `e` applied, which was the next one and not
    of an older term. The version has not wrapped around. -/
structure Applies (r : ReplicaState) (e : Entry) (r' : ReplicaState) : Prop where
  next : e.version = r.version + 1
  term_le : r.term ≤ e.term
  version : r'.version = e.version
  term : r'.term = e.term
  kv : r'.kv = applyOp r.kv e
  repLog : r'.repLog = r.repLog.append e

theorem Applies.version_le {e : Entry} (h : Applies r e r') : r.version ≤ r'.version := by
  rw [h.version, h.next]
  exact Nat.le_succ _

namespace ReplicaState

/-- What an application does to a replica whose version does not wrap around: it fails
    and changes at most the files, or it applies the entry. -/
theorem apply_effect (r : ReplicaState) {e : Entry}
    (hwrap : 0 < e.version ∨ r.version ≠ Counter.max) (mode : ApplyMode) (walOk : Bool) :
    (r.apply e mode walOk).2.isSome ∧ (∃ ds, (r.apply e mode walOk).1 = { r with ds := ds }) ∨
      (r.apply e mode walOk).2 = none ∧ Applies r e (r.apply e mode walOk).1 := by
  cases happly : r.apply e mode walOk with
  | mk r' err =>
    cases err with
    | some err => exact .inl ⟨rfl, apply_error happly⟩
    | none =>
      obtain ⟨hnext, hterm, -, ds, rfl⟩ := apply_ok happly
      have hsucc : Counter.next r.version = r.version + 1 :=
        hwrap.elim (fun hpos => Counter.next_of_pos (hnext ▸ hpos)) Counter.next_of_ne
      exact .inr ⟨rfl, hnext.trans hsucc, hterm, rfl, rfl, rfl, rfl⟩

theorem sameContents_observe (r : ReplicaState) (term : ℕ) : SameContents r (r.observe term) := by
  obtain ⟨role, h⟩ := r.observe_eq term
  rw [h]
  exact ⟨rfl, rfl, List.Subset.refl _⟩

theorem sameContents_setLagging (r : ReplicaState) (now : Time) :
    SameContents r (r.setLagging now) :=
  ⟨rfl, rfl, List.nil_subset _⟩

end ReplicaState

end Doki
