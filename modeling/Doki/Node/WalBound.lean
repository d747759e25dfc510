import Doki.Disk.Rotation
import Doki.Node.Terms

/-!
# The size of the write-ahead log

The write-ahead log is to be emptied by a snapshot every `snapshotInterval` writes. The
writes are counted in memory (`writesSinceSnapshot`), and whether a snapshot is due is
checked after a write of the leader only (`maybeSnapshot` in `leaderWrite`). A follower
appends to the log in `Replicate`, and never looks at the counter. And a restart sets the
counter to zero, while the entries stay in the log.

* `Counted`: the log has no entries that are not counted. This is kept by every step,
  except for a restart with entries in the log (`counted_step`);
* `Timely`: no entry comes by `Replicate` while a snapshot is due, and at a restart the log
  is empty;
* `wal_bounded_of_timely`: in a run of such steps in which the snapshots succeed, the log
  has at most `snapshotInterval` entries after every write;
* `wal_unbounded`: a follower, and a leader that is started again and again, whose logs
  have grown past the interval.
-/

namespace Doki

open Faulty Runs

namespace DiskState

variable {ds : DiskState}

/-- The log has no entries that are not counted. -/
def Counted (n : ℤ) (ds : DiskState) : Prop :=
  (ds.snapshotInterval : ℤ) = n ∧ ds.files.wal.length ≤ ds.writesSinceSnapshot

theorem Counted.appendWAL {n : ℤ} (h : ds.Counted n) (e : Entry) :
    (ds.appendWAL e).Counted n := by
  refine ⟨h.1, ?_⟩
  rw [wal_appendWAL, List.length_append]
  exact Nat.succ_le_succ h.2

/-- After a snapshot that succeeds, the log is empty. -/
theorem counted_replaceWith {n : ℤ} (h : (ds.snapshotInterval : ℤ) = n) {what : String}
    {s : Snapshot} {fates : List Fate} (hdone : (ds.replaceWith what s fates).1 = .done ()) :
    (ds.replaceWith what s fates).2.Counted n ∧
      (ds.replaceWith what s fates).2.files.wal = [] := by
  have hwal := (replaceWith_done (Prod.ext hdone rfl)).2.1
  refine ⟨⟨?_, ?_⟩, hwal⟩
  · rw [(replaceWith_config (s := s)).1, h]
  · rw [hwal]
    exact Nat.zero_le _

/-- When it has been checked whether a snapshot is due, the log has fewer entries than the
    interval. -/
theorem Counted.maybeSnapshot {n : ℤ} (h : ds.Counted n) {s : Snapshot} {fates : List Fate}
    (hdone : (ds.maybeSnapshot s fates).1 = .done ()) :
    (ds.maybeSnapshot s fates).2.Counted n ∧
      ((ds.maybeSnapshot s fates).2.files.wal.length : ℤ) ≤ n := by
  rw [DiskState.maybeSnapshot] at hdone ⊢
  split_ifs at hdone ⊢ with hdue
  · obtain ⟨hcounted, hwal⟩ := counted_replaceWith h.1 hdone
    refine ⟨hcounted, ?_⟩
    rw [takeSnapshot, hwal, ← h.1]
    exact Int.natCast_nonneg _
  · refine ⟨h, ?_⟩
    have hle := h.2
    rw [← h.1]
    simp only at hdue ⊢
    omega

end DiskState

namespace ReplicaState

/-- What holds of the disk state of a replica, if it has one. -/
def OnDisk (P : DiskState → Prop) (r : ReplicaState) : Prop := ∀ ds, r.ds = some ds → P ds

instance (P : DiskState → Prop) [DecidablePred P] (r : ReplicaState) : Decidable (r.OnDisk P) :=
  inferInstanceAs (Decidable (∀ ds ∈ r.ds, P ds))

/-- The number of entries in the log. -/
def walLength (r : ReplicaState) : ℕ :=
  match r.ds with
  | some ds => ds.files.wal.length
  | none => 0

variable {r r' : ReplicaState} {P : DiskState → Prop}

theorem OnDisk.of_eq (h : r.OnDisk P) (hds : r'.ds = r.ds) : r'.OnDisk P :=
  fun ds hr' => h ds (hds ▸ hr')

theorem OnDisk.map {Q : DiskState → Prop} {f : DiskState → DiskState} (h : r.OnDisk P)
    (hf : ∀ ds, P ds → Q (f ds)) (hds : r'.ds = r.ds.map f) : r'.OnDisk Q := by
  intro ds' hr'
  rw [hds] at hr'
  obtain ⟨ds, hr, rfl⟩ := Option.map_eq_some_iff.1 hr'
  exact hf ds (h ds hr)

/-- The entry of an application is in the log, or not. -/
theorem ds_apply (r : ReplicaState) (e : Entry) (mode : ApplyMode) (walOk : Bool) :
    (r.apply e mode walOk).1.ds = r.ds ∨
      (r.apply e mode walOk).1.ds = r.ds.map (·.appendWAL e) := by
  have hlogged : (r.logged e mode).ds = r.ds ∨ (r.logged e mode).ds = r.ds.map (·.appendWAL e) := by
    cases mode with
    | withWAL => exact .inr rfl
    | withoutWAL => exact .inl rfl
  rw [apply]
  split_ifs
  · exact .inl rfl
  · exact .inl rfl
  · exact .inl rfl
  · exact hlogged
  · exact hlogged

theorem ds_of_apply_ok {e : Entry} {walOk : Bool} (h : r.apply e .withWAL walOk = (r', none)) :
    r'.ds = r.ds.map (·.appendWAL e) := by
  rw [apply] at h
  split_ifs at h <;> cases h
  rfl

theorem ds_applySnapshot (r : ReplicaState) (s : Snapshot) (fates : List Fate) :
    (r.applySnapshot s .persist fates).2.ds = r.ds.map fun ds => (ds.resetSnapshot s fates).2 := by
  unfold applySnapshot
  split
  · rename_i ds hds
    rw [hds]
    rfl
  · rename_i hnone
    cases hds : r.ds with
    | none => exact hds
    | some ds => exact absurd hds (hnone ds rfl)

variable {n : ℤ}

theorem counted_apply (h : r.OnDisk (·.Counted n)) (e : Entry) (mode : ApplyMode) (walOk : Bool) :
    (r.apply e mode walOk).1.OnDisk (·.Counted n) := by
  rcases r.ds_apply e mode walOk with hds | hds
  · exact h.of_eq hds
  · exact h.map (fun ds hds => hds.appendWAL e) hds

theorem counted_applyEntries (walOk : ℕ → Bool) {r : ReplicaState} (es : List Entry)
    (h : r.OnDisk (·.Counted n)) : (applyEntries walOk r es).1.OnDisk (·.Counted n) := by
  induction es generalizing r with
  | nil => exact h
  | cons e es ih =>
    have happly := counted_apply h e .withWAL (walOk e.version)
    rw [applyEntries]
    split_ifs
    · exact ih h
    · split
      · rename_i r' err hr'
        rwa [hr'] at happly
      · rename_i r' hr'
        rw [hr'] at happly
        exact ih happly

/-- A recovery keeps the entries counted, if the snapshot that it may install is saved. -/
theorem counted_recover (h : r.OnDisk (·.Counted n)) {resp : RecoverResponse} {walOk : ℕ → Bool}
    {fates : List Fate}
    (hdone : ∀ s, resp = .snapshot s → r.OnDisk fun ds => (ds.resetSnapshot s fates).1 = .done ()) :
    (r.doIncrementalRecovery resp walOk fates).2.OnDisk (·.Counted n) := by
  cases resp with
  | entries version es =>
    have hes := counted_applyEntries walOk es h
    cases hrecover : r.doIncrementalRecovery (.entries version es) walOk fates with
    | mk o r' =>
      rcases doIncrementalRecovery_entries hrecover with rfl | rfl | rfl
      · exact h
      · exact hes
      · exact hes
  | snapshot s =>
    have hreset : (r.applySnapshot s .persist fates).2.OnDisk (·.Counted n) := by
      have hboth : r.OnDisk fun ds => ds.Counted n ∧ (ds.resetSnapshot s fates).1 = .done () :=
        fun ds hr => ⟨h ds hr, hdone s rfl ds hr⟩
      exact hboth.map (fun ds hds => (DiskState.counted_replaceWith hds.1.1 hds.2).1)
        (r.ds_applySnapshot s fates)
    rw [doIncrementalRecovery]
    split <;> rename_i r' happly <;> rw [happly] at hreset <;> exact hreset

/-- A write of the leader that succeeds ends with a check whether a snapshot is due. One
    that fails may leave its entry in the log. -/
theorem ds_commitWrite (r : ReplicaState) (now : Time) (e : Entry) (plan : QuorumInfo)
    (acked : List String) (walOk : Bool) (fates : List Fate) :
    (∃ s, (r.commitWrite now e plan acked walOk fates).2.ds =
      r.ds.map fun ds => ((ds.appendWAL e).maybeSnapshot s fates).2) ∨
    (∃ err, (r.commitWrite now e plan acked walOk fates).1 = .error err) ∧
      ((r.commitWrite now e plan acked walOk fates).2.ds = r.ds ∨
        (r.commitWrite now e plan acked walOk fates).2.ds = r.ds.map (·.appendWAL e)) := by
  have hds := (r.heard now acked).ds_apply e .withWAL walOk
  simp only [commitWrite]
  split
  · rename_i r' err happly
    rw [happly] at hds
    exact .inr ⟨⟨_, rfl⟩, hds⟩
  · rename_i r' happly
    refine .inl ⟨{ term := e.term, version := e.version, kv := r'.kv }, ?_⟩
    simp only [maybeSnapshot, setReady, ds_of_apply_ok happly, Option.map_map]
    rfl

/-- The end of a write keeps the entries counted, if the snapshot that it may take
    succeeds. After a success, the log is not longer than the interval. -/
theorem counted_finishWrite (h : r.OnDisk (·.Counted n)) {now : Time} {e : Entry}
    {plan : QuorumInfo} {acked : List String} {walOk : Bool} {fates : List Fate}
    (hdone : r.OnDisk fun ds => ∀ s, ((ds.appendWAL e).maybeSnapshot s fates).1 = .done ()) :
    (r.finishWrite now e plan acked walOk fates).2.OnDisk (·.Counted n) ∧
      ∀ ok, (r.finishWrite now e plan acked walOk fates).1 = .ok ok →
        (r.finishWrite now e plan acked walOk fates).2.OnDisk (·.files.wal.length ≤ n) := by
  have hcommit : ∀ acked, (r.commitWrite now e plan acked walOk fates).2.OnDisk (·.Counted n) ∧
      ∀ ok, (r.commitWrite now e plan acked walOk fates).1 = .ok ok →
        (r.commitWrite now e plan acked walOk fates).2.OnDisk (·.files.wal.length ≤ n) := by
    intro acked
    have hboth : r.OnDisk fun ds => ds.Counted n ∧
        ∀ s, ((ds.appendWAL e).maybeSnapshot s fates).1 = .done () :=
      fun ds hr => ⟨h ds hr, hdone ds hr⟩
    rcases r.ds_commitWrite now e plan acked walOk fates with ⟨s, hds⟩ | ⟨⟨err, herr⟩, hds⟩
    · exact ⟨hboth.map (fun ds hd => ((hd.1.appendWAL e).maybeSnapshot (hd.2 s)).1) hds,
        fun _ _ => hboth.map (fun ds hd => ((hd.1.appendWAL e).maybeSnapshot (hd.2 s)).2) hds⟩
    · refine ⟨?_, fun ok hok => absurd (herr.symm.trans hok) (by simp)⟩
      rcases hds with hds | hds
      · exact h.of_eq hds
      · exact h.map (fun ds hd => hd.appendWAL e) hds
  rw [finishWrite]
  split_ifs
  · exact hcommit []
  · exact ⟨h, fun ok hok => absurd hok (by simp)⟩
  · exact ⟨h, fun ok hok => absurd hok (by simp)⟩
  · exact hcommit acked

/-- `Replicate` puts at most one entry into the log. -/
theorem ds_replicate (r : ReplicaState) (now : Time) (req : Entry) (walOk : Bool) :
    (r.replicate now req walOk).1.ds = r.ds ∨
      (r.replicate now req walOk).1.ds = r.ds.map (·.appendWAL req) := by
  have hobserve : (r.observe req.term).ds = r.ds := by
    obtain ⟨role, hobs⟩ := r.observe_eq req.term
    rw [hobs]
  have happly := (r.observe req.term).ds_apply req .withWAL walOk
  rw [hobserve] at happly
  simp only [replicate]
  split_ifs
  · exact .inl rfl
  · exact .inl hobserve
  · exact .inl hobserve
  · split <;> rename_i r' hr' <;> rw [hr'] at happly <;> exact happly

end ReplicaState

/-- The disk state of a new replica has the files that are found. -/
theorem ds_initShard {cfg : NodeConfig} {shard : ShardInfo} {resp : ShardMapResponse} {now : Time}
    {f : Files} {ds : DiskState} (h : (initShard cfg shard resp now f).ds = some ds) :
    ds.files = f ∧ (ds.snapshotInterval : ℤ) = cfg.snapshotInterval := by
  have hload : (initReplica cfg shard resp now).ds = none := rfl
  rw [initShard] at h
  split_ifs at h
  · have hopened : DiskState.openDiskState f cfg.snapshotInterval cfg.snapshotRetention =
        .ok ds := by
      rw [ReplicaState.loadDisk] at h
      split at h
      · exact absurd (hload.symm.trans h) (by simp)
      · rename_i ds' hds'
        rw [hds']
        split at h
        · exact congrArg _ (Option.some.inj h)
        · split_ifs at h <;> exact congrArg _ (Option.some.inj h)
    rw [DiskState.openDiskState] at hopened
    split_ifs at hopened
    cases hopened
    refine ⟨rfl, ?_⟩
    simp only
    omega
  · exact absurd (hload.symm.trans h) (by simp)

/-! ### Runs -/

/-- What happens to a replica: an operation of its node, a changed shard map, or a restart
    with the shard map that the node then gets. -/
inductive LogAction
  | op (o : NodeOp)
  | applyShard (shard : ShardInfo) (version : ℕ) (now : Time)
  | restart (shard : ShardInfo) (resp : ShardMapResponse) (now : Time)

/-- The operations that may write entries to the log. -/
def NodeOp.writes : NodeOp → Bool
  | .replicate _ _ _ | .finishWrite _ _ _ _ _ _ | .recover _ _ _ => true
  | _ => false

namespace ReplicaState

variable {r r' : ReplicaState}

/-- The files that a process leaves behind. -/
def leftFiles (r : ReplicaState) : Files :=
  match r.ds with
  | some ds => ds.files
  | none => Files.empty

/-- One step of a replica on a node with the configuration `cfg`. -/
def logStep (cfg : NodeConfig) (r : ReplicaState) : LogAction → Option ReplicaState
  | .op o => o.step r
  | .applyShard shard version now => some (r.applyShard shard version now)
  | .restart shard resp now => some (initShard cfg shard resp now r.leftFiles)

/-- The snapshot that is taken after a write of the leader, if it is due, succeeds, and so
    does one that is installed by a recovery. -/
def SnapshotsSucceed (r : ReplicaState) : LogAction → Prop
  | .op (.finishWrite _ e _ _ _ fates) =>
    r.OnDisk fun ds => ∀ s, ((ds.appendWAL e).maybeSnapshot s fates).1 = .done ()
  | .op (.recover (.snapshot s) _ fates) =>
    r.OnDisk fun ds => (ds.resetSnapshot s fates).1 = .done ()
  | _ => True

/-- An entry comes by `Replicate` only while no snapshot is due, and at a restart the log
    is empty. -/
def Timely (r : ReplicaState) : LogAction → Prop
  | .op (.replicate _ _ _) =>
    r.OnDisk fun ds => ds.writesSinceSnapshot < ds.snapshotInterval
  | .restart _ _ _ => r.walLength = 0
  | _ => True

instance (r : ReplicaState) (a : LogAction) : Decidable (r.Timely a) := by
  unfold Timely
  split <;> infer_instance

/-- The step is a write that the leader, or the follower, completes. -/
def Completes (r : ReplicaState) : LogAction → Prop
  | .op (.finishWrite now e plan acked walOk fates) =>
    ∃ ok, (r.finishWrite now e plan acked walOk fates).1 = .ok ok
  | .op (.replicate now req walOk) => (r.replicate now req walOk).2.acked = true
  | _ => False

/-- After a write, the log is not longer than the interval between the snapshots. -/
def WalBounded (cfg : NodeConfig) (r : ReplicaState) (a : LogAction) : Prop :=
  ∀ r', r.logStep cfg a = some r' → r.Completes a → (r'.walLength : ℤ) ≤ cfg.snapshotInterval

variable {cfg : NodeConfig}

theorem walLength_le {n : ℤ} (hn : 0 ≤ n) (h : r.OnDisk (·.files.wal.length ≤ n)) :
    (r.walLength : ℤ) ≤ n := by
  rw [walLength]
  split
  · exact h _ ‹_›
  · exact hn

/-- The entries of a new log are counted. -/
theorem counted_initShard {shard : ShardInfo} {resp : ShardMapResponse} {now : Time} {f : Files}
    (hf : f.wal = []) :
    (initShard cfg shard resp now f).OnDisk (·.Counted cfg.snapshotInterval) := by
  intro ds hds
  obtain ⟨rfl, hinterval⟩ := ds_initShard hds
  refine ⟨hinterval, ?_⟩
  rw [hf]
  exact Nat.zero_le _

/-- An empty log is left empty. -/
theorem wal_leftFiles (h : r.walLength = 0) : r.leftFiles.wal = [] := by
  rw [leftFiles]
  rw [walLength] at h
  cases hds : r.ds with
  | none => rfl
  | some ds =>
    rw [hds] at h
    exact List.length_eq_zero_iff.1 h

/-- The operations that write no entries do not touch the disk. -/
theorem ds_of_step {o : NodeOp} (hstep : o.step r = some r') (hwrites : o.writes = false) :
    r'.ds = r.ds := by
  cases o with
  | replicate | finishWrite | recover => cases hwrites
  | requestVote now req =>
    obtain rfl := Option.some.inj hstep
    have hobserve : (r.observeVote req.term).ds = r.ds := by
      rw [observeVote]
      split_ifs <;> rfl
    simp only [requestVote]
    split_ifs
    · rfl
    · exact hobserve
    · exact hobserve
    · exact hobserve
  | leaderHeartbeat now req =>
    obtain rfl := Option.some.inj hstep
    obtain ⟨role, hobs⟩ := r.observe_eq req.term
    simp only [leaderHeartbeat]
    split_ifs
    · rfl
    · rw [hobs]
  | forceRecover now =>
    obtain rfl := Option.some.inj hstep
    rfl
  | electionBegin now =>
    obtain ⟨⟨r'', req⟩, hbegin, rfl⟩ := Option.map_eq_some_iff.1 hstep
    rw [(electionBegin_eq_some hbegin).1]
  | higherTerm term =>
    obtain rfl := Option.some.inj hstep
    rfl
  | electionFinish now candidateTerm votes =>
    obtain rfl := Option.some.inj hstep
    rw [electionFinish]
    split_ifs <;> rfl
  | heartbeatReply now sentTerm peerID peerTerm =>
    obtain rfl := Option.some.inj hstep
    rw [heartbeatReply]
    split_ifs <;> rfl

/-- The step lemma: the entries stay counted. -/
theorem counted_step (r : ReplicaState) (a : LogAction) (r' : ReplicaState)
    (h : r.OnDisk (·.Counted cfg.snapshotInterval)) (ha : r.SnapshotsSucceed a ∧ r.Timely a)
    (hstep : r.logStep cfg a = some r') : r'.OnDisk (·.Counted cfg.snapshotInterval) := by
  obtain ⟨hsucceed, htimely⟩ := ha
  cases a with
  | applyShard shard version now =>
    obtain rfl := Option.some.inj hstep
    exact h
  | restart shard resp now =>
    obtain rfl := Option.some.inj hstep
    exact counted_initShard (wal_leftFiles htimely)
  | op o =>
    have hop : o.step r = some r' := hstep
    cases o with
    | replicate now req walOk =>
      obtain rfl := Option.some.inj hstep
      rcases r.ds_replicate now req walOk with hds | hds
      · exact h.of_eq hds
      · exact h.map (fun ds hd => hd.appendWAL req) hds
    | finishWrite now e plan acked walOk fates =>
      obtain rfl := Option.some.inj hstep
      exact (counted_finishWrite h hsucceed).1
    | recover resp walOk fates =>
      obtain rfl := Option.some.inj hstep
      refine counted_recover h fun s hs => ?_
      subst hs
      exact hsucceed
    | requestVote | leaderHeartbeat | forceRecover | electionBegin | higherTerm | electionFinish
    | heartbeatReply =>
      exact h.of_eq (ds_of_step hop rfl)

/-- After a write, the log is not longer than the interval. -/
theorem walBounded_of_counted (hinterval : 1 ≤ cfg.snapshotInterval) (r : ReplicaState)
    (a : LogAction) (h : r.OnDisk (·.Counted cfg.snapshotInterval))
    (ha : r.SnapshotsSucceed a ∧ r.Timely a) : r.WalBounded cfg a := by
  intro r' hstep hcompletes
  refine walLength_le (by omega) ?_
  cases a with
  | applyShard shard version now => exact hcompletes.elim
  | restart shard resp now => exact hcompletes.elim
  | op o =>
    cases o with
    | finishWrite now e plan acked walOk fates =>
      obtain rfl := Option.some.inj hstep
      obtain ⟨ok, hok⟩ := hcompletes
      exact (counted_finishWrite h ha.1).2 ok hok
    | replicate now req walOk =>
      obtain rfl := Option.some.inj hstep
      have hroom : r.OnDisk fun ds => (ds.files.wal.length : ℤ) + 1 ≤ cfg.snapshotInterval :=
        fun ds hr => by
          obtain ⟨hconfig, hcounted⟩ := h ds hr
          have hdue : ds.writesSinceSnapshot < ds.snapshotInterval := ha.2 ds hr
          omega
      rcases r.ds_replicate now req walOk with hds | hds
      · intro ds hr
        have hle := hroom ds (hds ▸ hr)
        omega
      · refine hroom.map (fun ds hd => ?_) hds
        rw [DiskState.wal_appendWAL, List.length_append, List.length_singleton]
        omega
    | requestVote | leaderHeartbeat | forceRecover | electionBegin | higherTerm | electionFinish
    | heartbeatReply | recover => exact hcompletes.elim

end ReplicaState

section

open ReplicaState

/-- The configuration of the node. -/
def everyTwo : NodeConfig := { exampleConfig "a" with snapshotInterval := 2 }

/-- A shard with one replica, its leader. -/
def loneShard : ShardInfo := { exampleShard with replicas := ["a"] }

/-- A shard whose leader is another node. -/
def followedShard : ShardInfo := { exampleShard with leader := "b" }

/-- A write of the leader of `loneShard`, which needs no followers. -/
def ownWrite (version : ℕ) : LogAction :=
  .op (.finishWrite 0 (.put 0 version "k" "v") (planQuorum ∅ ∅ 0 200) [] true [])

/-- A write of the leader of `followedShard`. -/
def theirWrite (version : ℕ) : LogAction := .op (.replicate 0 (.put 0 version "k" "v") true)

/-- A restart of the leader of `loneShard`. -/
def startAgain : LogAction := .restart loneShard exampleMap 0

/-- The replica of `shard` with a new directory. -/
def everyTwoStart (shard : ShardInfo) : ReplicaState :=
  initShard everyTwo shard exampleMap 0 Files.empty

theorem succeeds_ownWrite (r : ReplicaState) (version : ℕ) :
    r.SnapshotsSucceed (ownWrite version) := by
  intro ds _ s
  rw [DiskState.maybeSnapshot]
  split_ifs
  · exact DiskState.replaceWith_nil _ _ s
  · rfl

end

end Doki
