import Doki.Disk.Files

/-!
# The disk state of a shard

The write-ahead log and the rotated snapshots of a shard (`node/diskstate.go`).
Every write is appended to the log (`appendWAL`). From time to time a snapshot
of the whole state is taken (`takeSnapshot`): the older snapshots are rotated,
`snapshot.json` to `snapshot.json.1` and so on, the new one is saved, and the
log is emptied. After a network recovery, `resetSnapshot` does the same with the
recovered state.

On start, `load` picks, among the first `snapshotRetention` snapshot files, the
one with the highest version (`loadLatestSnapshot`), and replays on it the
entries that it reads from the log (`Files.readLog`) and that are after it.

* `loadLatestSnapshot_some`, `loadLatestSnapshot_none`: which snapshot is picked;
* `DiskState.load_eq`: what is loaded from a log of consecutive entries.
-/

namespace Doki

open Faulty

/-- The disk state of a shard, as opened by `openDiskState`, which refuses an
    interval or a retention that is not positive. -/
structure DiskState where
  files : Files
  /-- The number of appended entries since the last snapshot. -/
  writesSinceSnapshot : ℕ
  snapshotInterval : ℕ
  snapshotRetention : ℕ
  interval_pos : 0 < snapshotInterval
  retention_pos : 0 < snapshotRetention

/-- The state recovered from disk; not `valid` when there is none. -/
structure DiskLoadResult where
  term : ℕ
  version : ℕ
  kv : KV
  valid : Bool
  deriving DecidableEq

/-! ## Rotation -/

/-- Before the file at the last index `retention - 1` moves, the one in its way
    is removed; an error of the removal is ignored. -/
def makeRoom (retention i : ℕ) : Fs Unit :=
  if i = retention - 1 then (removeSnap (i + 1)).ignore else pure ()

/-- The snapshot file at the index `i` moves to the next one, if it exists. -/
def moveUp (i : ℕ) : Fs Unit := do
  if ← statSnap i then renameSnap i (i + 1)

/-- The loop of `rotateSnapshots`, from the index `i` down to `1`. -/
def rotateLoop (retention : ℕ) : ℕ → Fs Unit
  | 0 => pure ()
  | i + 1 => do
    makeRoom retention (i + 1)
    moveUp (i + 1)
    rotateLoop retention i

/-- Every snapshot file moves to the next index; the last one that `load` looks
    at moves out of its sight. -/
def rotateSnapshots (retention : ℕ) : Fs Unit :=
  if retention ≤ 1 then pure ()
  else do
    rotateLoop retention (retention - 1)
    moveUp 0

/-- What `takeSnapshot` and `resetSnapshot` do to the files. -/
def replaceSnapshot (retention : ℕ) (what : String) (s : Snapshot) : Fs Unit := do
  rotateSnapshots retention
  (save s).mapError .saveSnapshot
  truncateWAL (.truncateAfter what)

/-! ## Writing -/

namespace DiskState

variable (ds : DiskState)

/-- Opening the disk state in a directory with the files `f`. -/
def openDiskState (f : Files) (snapshotInterval snapshotRetention : ℤ) :
    Except String DiskState :=
  if hi : snapshotInterval ≤ 0 then .error "snapshot interval must be > 0"
  else if hr : snapshotRetention ≤ 0 then .error "snapshot retention must be > 0"
  else .ok
    { files := f
      writesSinceSnapshot := 0
      snapshotInterval := snapshotInterval.toNat
      snapshotRetention := snapshotRetention.toNat
      interval_pos := by omega
      retention_pos := by omega }

/-- A disk state opened in an empty directory. -/
def new (snapshotInterval snapshotRetention : ℕ) (hi : 0 < snapshotInterval)
    (hr : 0 < snapshotRetention) : DiskState where
  files := Files.empty
  writesSinceSnapshot := 0
  snapshotInterval := snapshotInterval
  snapshotRetention := snapshotRetention
  interval_pos := hi
  retention_pos := hr

/-- The disk state opened again on the files it has left. -/
def reopen : DiskState := { ds with writesSinceSnapshot := 0 }

theorem openDiskState_reopen :
    openDiskState ds.files ds.snapshotInterval ds.snapshotRetention = .ok ds.reopen := by
  have hi := ds.interval_pos
  have hr := ds.retention_pos
  rw [openDiskState, dif_neg (by omega), dif_neg (by omega)]
  rfl

/-- The disk state after a successful `appendWAL`. -/
def appendWAL (e : Entry) : DiskState :=
  { ds with
    files := { ds.files with wal := ds.files.wal ++ [e] }
    writesSinceSnapshot := ds.writesSinceSnapshot + 1 }

@[simp] theorem snaps_appendWAL (e : Entry) :
    (ds.appendWAL e).files.snaps = ds.files.snaps := rfl

@[simp] theorem wal_appendWAL (e : Entry) :
    (ds.appendWAL e).files.wal = ds.files.wal ++ [e] := rfl

@[simp] theorem snapshotRetention_appendWAL (e : Entry) :
    (ds.appendWAL e).snapshotRetention = ds.snapshotRetention := rfl

/-- Replacing the base snapshot; only a success resets the write counter. -/
def replaceWith (what : String) (s : Snapshot) (fates : List Fate) :
    Outcome DiskError Unit × DiskState :=
  match replaceSnapshot ds.snapshotRetention what s ds.files fates with
  | (.done (), f, _) => (.done (), { ds with files := f, writesSinceSnapshot := 0 })
  | (o, f, _) => (o, { ds with files := f })

/-- Saving a full snapshot, and emptying the log. -/
def takeSnapshot := ds.replaceWith "snapshot"

/-- Overwriting the base snapshot with a recovered state, and emptying the log. -/
def resetSnapshot := ds.replaceWith "reset"

/-- Taking a snapshot if the interval has been reached. -/
def maybeSnapshot (s : Snapshot) (fates : List Fate) : Outcome DiskError Unit × DiskState :=
  if ds.writesSinceSnapshot ≥ ds.snapshotInterval then ds.takeSnapshot s fates
  else (.done (), ds)

end DiskState

/-! ## Loading -/

/-- One round of the loop of `loadLatestSnapshot`: the file at `i` replaces the
    best one so far if its version is higher. -/
def betterSnapshot (snaps : ℕ → SnapFile) (best : Option (Snapshot × ℕ)) (i : ℕ) :
    Option (Snapshot × ℕ) :=
  match snaps i with
  | .snap s =>
    match best with
    | none => some (s, i)
    | some (b, _) => if s.version > b.version then some (s, i) else best
  | _ => best

/-- The snapshot with the highest version among the files of index below
    `retention`, the first of them if there are several, with its index. -/
def loadLatestSnapshot (snaps : ℕ → SnapFile) (retention : ℕ) : Option (Snapshot × ℕ) :=
  (List.range retention).foldl (betterSnapshot snaps) none

/-- The versions of the log must not decrease. -/
def ensureMonotonicWAL : List Entry → ℕ → Except DiskError Unit
  | e :: e' :: es, i =>
    if e'.version < e.version then .error (.walMonotonicity (i + 1) e.version e'.version)
    else ensureMonotonicWAL (e' :: es) (i + 1)
  | _, _ => .ok ()

/-- One round of the replay of the log: an entry that is not after the version
    reached is skipped. -/
def replayStep (s : Snapshot) (e : Entry) : Snapshot :=
  if e.version ≤ s.version then s
  else { term := max s.term e.term, version := e.version, kv := applyOp s.kv e }

/-- The state on disk: the latest snapshot, and what is read of the log replayed on it. -/
def DiskState.load (ds : DiskState) : Except DiskError DiskLoadResult :=
  let best := loadLatestSnapshot ds.files.snaps ds.snapshotRetention
  -- Nothing has been written yet, or nothing of it can be read.
  if best.isNone ∧ ds.files.readLog = [] then
    .ok { term := 0, version := 0, kv := ∅, valid := false }
  else
    match ensureMonotonicWAL ds.files.readLog 0 with
    | .error e => .error e
    | .ok () =>
      let base := (best.map Prod.fst).getD .empty
      let s := ds.files.readLog.foldl replayStep base
      .ok { term := s.term, version := s.version, kv := s.kv, valid := true }

/-! ## What is loaded -/

/-- What the loop of `loadLatestSnapshot` has found after `n` rounds. -/
def Latest (snaps : ℕ → SnapFile) (n : ℕ) : Option (Snapshot × ℕ) → Prop
  | none => ∀ j < n, ∀ t, snaps j ≠ .snap t
  | some (s, i) => i < n ∧ snaps i = .snap s ∧
      ∀ j < n, ∀ t, snaps j = .snap t → t.version ≤ s.version ∧ (j < i → t.version < s.version)

theorem latest_betterSnapshot {snaps : ℕ → SnapFile} {n : ℕ} {best : Option (Snapshot × ℕ)}
    (h : Latest snaps n best) : Latest snaps (n + 1) (betterSnapshot snaps best n) := by
  rw [betterSnapshot]
  split
  · rename_i s hs
    rcases best with _ | ⟨b, i⟩
    · -- The first snapshot that is found.
      refine ⟨Nat.lt_succ_self n, hs, fun j hj t ht => ?_⟩
      rcases Nat.lt_succ_iff_lt_or_eq.1 hj with hj | rfl
      · exact absurd ht (h j hj t)
      · rw [hs, SnapFile.snap.injEq] at ht
        exact ⟨ht ▸ le_rfl, fun hj => absurd hj (lt_irrefl j)⟩
    · obtain ⟨hi, hb, h⟩ := h
      simp only
      split_ifs with hlt
      · -- A higher version than all before.
        refine ⟨Nat.lt_succ_self n, hs, fun j hj t ht => ?_⟩
        rcases Nat.lt_succ_iff_lt_or_eq.1 hj with hj | rfl
        · have := (h j hj t ht).1
          exact ⟨by omega, fun _ => by omega⟩
        · rw [hs, SnapFile.snap.injEq] at ht
          exact ⟨ht ▸ le_rfl, fun hj => absurd hj (lt_irrefl j)⟩
      · -- The best one stays, also with the same version at `n`.
        refine ⟨by omega, hb, fun j hj t ht => ?_⟩
        rcases Nat.lt_succ_iff_lt_or_eq.1 hj with hj | rfl
        · exact h j hj t ht
        · rw [hs, SnapFile.snap.injEq] at ht
          exact ⟨by rw [← ht]; omega, fun hji => by omega⟩
  · -- There is no snapshot at `n`, or none that can be read.
    rename_i hs
    rcases best with _ | ⟨b, i⟩
    · intro j hj t
      rcases Nat.lt_succ_iff_lt_or_eq.1 hj with hj | rfl
      · exact h j hj t
      · exact hs t
    · refine ⟨by have := h.1; omega, h.2.1, fun j hj t ht => ?_⟩
      rcases Nat.lt_succ_iff_lt_or_eq.1 hj with hj | rfl
      · exact h.2.2 j hj t ht
      · exact absurd ht (hs t)

theorem latest_loadLatestSnapshot (snaps : ℕ → SnapFile) (n : ℕ) :
    Latest snaps n (loadLatestSnapshot snaps n) := by
  induction n with
  | zero => exact fun j hj => absurd hj (Nat.not_lt_zero j)
  | succ n ih =>
    rw [loadLatestSnapshot, List.range_succ, List.foldl_append]
    exact latest_betterSnapshot ih

/-- The snapshot picked has the highest version; among the snapshots with this
    version, it is the first one. -/
theorem loadLatestSnapshot_some {snaps : ℕ → SnapFile} {n i : ℕ} {s : Snapshot}
    (h : loadLatestSnapshot snaps n = some (s, i)) :
    i < n ∧ snaps i = .snap s ∧
      ∀ j < n, ∀ t, snaps j = .snap t →
        t.version ≤ s.version ∧ (j < i → t.version < s.version) := by
  have := latest_loadLatestSnapshot snaps n
  rwa [h] at this

/-- No snapshot is picked only if none can be read. -/
theorem loadLatestSnapshot_none {snaps : ℕ → SnapFile} {n : ℕ}
    (h : loadLatestSnapshot snaps n = none) : ∀ j < n, ∀ t, snaps j ≠ .snap t := by
  have := latest_loadLatestSnapshot snaps n
  rwa [h] at this

/-- Consecutive entries pass the check on the log. -/
theorem ensureMonotonicWAL_of_consecutive {v : ℕ} {es : List Entry} (h : Consecutive v es)
    (i : ℕ) : ensureMonotonicWAL es i = .ok () := by
  induction es generalizing v i with
  | nil => rfl
  | cons e es ih =>
    cases es with
    | nil => rfl
    | cons e' es =>
      obtain ⟨he, he', hes⟩ := h
      rw [ensureMonotonicWAL, if_neg (by omega)]
      exact ih ⟨he', hes⟩ (i + 1)

/-- The replay of consecutive entries on `s` skips those that are not after it. -/
theorem foldl_replayStep {v : ℕ} {es : List Entry} (h : Consecutive v es) {s : Snapshot}
    (hs : es = [] → v ≤ s.version) :
    (es.foldl replayStep s).version = max s.version (v + es.length) ∧
      (es.foldl replayStep s).kv = replay s.kv (es.drop (s.version - v)) := by
  induction es generalizing v s with
  | nil =>
    have := hs rfl
    exact ⟨by simpa using this, by rw [List.drop_nil]; rfl⟩
  | cons e es ih =>
    obtain ⟨he, hes⟩ := h
    rw [List.foldl_cons, replayStep, List.length_cons]
    split_ifs with hle
    · -- The snapshot includes the entry.
      obtain ⟨hv, hkv⟩ := ih hes (s := s) fun _ => by omega
      refine ⟨by rw [hv]; omega, ?_⟩
      rw [hkv, show s.version - v = (s.version - (v + 1)) + 1 by omega, List.drop_succ_cons]
    · -- The entry is the first one after the snapshot: from here on, all are replayed.
      obtain ⟨hv, hkv⟩ :=
        ih hes (s := { term := max s.term e.term, version := e.version, kv := applyOp s.kv e })
          fun _ => by simp only; omega
      refine ⟨by rw [hv]; simp only; omega, ?_⟩
      rw [hkv, show s.version - v = 0 by omega]
      simp only [he, Nat.sub_self, List.drop_zero, replay_cons]

/-- The state that the replay of the log starts from. -/
def DiskState.base (ds : DiskState) : Snapshot :=
  ((loadLatestSnapshot ds.files.snaps ds.snapshotRetention).map Prod.fst).getD .empty

/-- What is loaded when the log has consecutive entries: the entries after the
    latest snapshot are replayed on it. -/
theorem DiskState.load_eq {ds : DiskState} {v : ℕ} (h : Consecutive v ds.files.readLog)
    (hv : ds.files.readLog = [] →
      ∃ s i, loadLatestSnapshot ds.files.snaps ds.snapshotRetention = some (s, i) ∧
        v ≤ s.version) :
    ∃ t, ds.load = .ok
      { term := t
        version := max ds.base.version (v + ds.files.readLog.length)
        kv := replay ds.base.kv (ds.files.readLog.drop (ds.base.version - v))
        valid := true } := by
  have hbase : ds.files.readLog = [] → v ≤ ds.base.version := fun hw => by
    obtain ⟨s, i, hs, hvs⟩ := hv hw
    simpa only [base, hs, Option.map_some, Option.getD_some] using hvs
  obtain ⟨hversion, hkv⟩ := foldl_replayStep h hbase
  refine ⟨(ds.files.readLog.foldl replayStep ds.base).term, ?_⟩
  rw [load, if_neg, ensureMonotonicWAL_of_consecutive h]
  · rw [← hversion, ← hkv]
    rfl
  · rintro ⟨hnone, hw⟩
    obtain ⟨s, i, hs, -⟩ := hv hw
    rw [hs] at hnone
    exact absurd hnone (by simp)

end Doki
