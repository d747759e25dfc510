import Doki.Disk.Mirror
import Doki.Node.WalBound

/-!
# What a restart finds

A replica writes every entry to its log before it applies it, takes snapshots of its state
after its own writes, and replaces its files when it installs a snapshot of the leader. A
process that is started again has what the files lead to, and this should be what the one
before it had applied.

It is, through any sequence of the operations of a node, of changed shard maps and of
restarts, also when writes to the log fail and snapshots do not get to their end, with
four exceptions (`Recoverable`): an entry of an unknown operation is logged although it is
refused; an entry on a line that is too long ends what is read of the log (`Entry.fits`); a
failed snapshot may push the only one that counts out of sight; and a snapshot of the
leader must be saved, and not be behind one that stays in sight. A write under the version
0, after the last one, is left out as well.

* `Persisted`: the files lead to the state in memory;
* `persisted_step`: every operation keeps them in step;
* `restart_recovers`: a restart at any time has the contents from before.
-/

namespace Doki

open Faulty Runs

/-- The disk state is one of a node with the configuration `cfg`. -/
structure DiskState.Opened (cfg : NodeConfig) (ds : DiskState) : Prop where
  interval : (ds.snapshotInterval : ℤ) = cfg.snapshotInterval
  retention : (ds.snapshotRetention : ℤ) = cfg.snapshotRetention

theorem DiskState.Opened.replaceWith {cfg : NodeConfig} {ds : DiskState} (h : ds.Opened cfg)
    (what : String) (s : Snapshot) (fates : List Fate) :
    (ds.replaceWith what s fates).2.Opened cfg := by
  exact ⟨by rw [replaceWith_config.1, h.interval], by rw [replaceWith_config.2, h.retention]⟩

theorem DiskState.Opened.maybeSnapshot {cfg : NodeConfig} {ds : DiskState} (h : ds.Opened cfg)
    (s : Snapshot) (fates : List Fate) : (ds.maybeSnapshot s fates).2.Opened cfg := by
  rw [DiskState.maybeSnapshot]
  split_ifs
  · exact h.replaceWith _ s fates
  · exact h

/-- The log gives the entry back: its operation is known, and its line short enough. -/
def Entry.Restorable (e : Entry) : Prop := e.op ≠ .unknown ∧ e.fits = true

instance (e : Entry) : Decidable e.Restorable := inferInstanceAs (Decidable (_ ∧ _))

namespace ReplicaState

variable {cfg : NodeConfig} {r r' : ReplicaState}

/-- The files of the replica lead to the state that it has in memory. -/
def Persisted (cfg : NodeConfig) (r : ReplicaState) : Prop :=
  ∃ ds, r.ds = some ds ∧ ds.Opened cfg ∧ ds.Mirrored r.version r.kv

theorem Persisted.of_eq (h : r.Persisted cfg) (hds : r'.ds = r.ds)
    (hversion : r'.version = r.version) (hkv : r'.kv = r.kv) : r'.Persisted cfg := by
  rw [Persisted, hds, hversion, hkv]
  exact h

theorem Persisted.observe (h : r.Persisted cfg) (term : ℕ) : (r.observe term).Persisted cfg := by
  obtain ⟨role, hobs⟩ := r.observe_eq term
  rw [hobs]
  exact h

/-- Applying an entry, successfully or not. -/
theorem Persisted.apply (h : r.Persisted cfg) {e : Entry} (he : e.Restorable)
    (hpos : 0 < e.version) (walOk : Bool) : (r.apply e .withWAL walOk).1.Persisted cfg := by
  rw [ReplicaState.apply]
  split_ifs with hversion hterm hwal hop
  · exact h
  · exact h
  · exact h
  · exact absurd hop he.1
  · obtain ⟨ds, hds, hopened, hmirrored⟩ := h
    have hnext := not_not.1 hversion
    refine ⟨ds.appendWAL e, ?_, ⟨hopened.interval, hopened.retention⟩,
      hmirrored.appendWAL he.2 (hnext.trans (Counter.next_of_pos (hnext ▸ hpos)))⟩
    simp only [logged, applied, hds, Option.map_some]

theorem Persisted.applyEntries (walOk : ℕ → Bool) {es : List Entry}
    (hes : ∀ e ∈ es, e.Restorable) {r : ReplicaState} (h : r.Persisted cfg) :
    (applyEntries walOk r es).1.Persisted cfg := by
  induction es generalizing r with
  | nil => exact h
  | cons e es ih =>
    have hrest := fun x hx => hes x (List.mem_cons_of_mem e hx)
    rw [ReplicaState.applyEntries]
    split_ifs with hle
    · exact ih hrest h
    · have happly := h.apply (hes e List.mem_cons_self) (Nat.zero_lt_of_lt (not_le.1 hle))
        (walOk e.version)
      split
      · rename_i r' err hr'
        rwa [hr'] at happly
      · rename_i r' hr'
        rw [hr'] at happly
        exact ih hrest happly

/-- The operation logs no entry that the log does not give back, and commits none under the
    version 0. A snapshot that is due does not fail when the latest one is about to move out
    of sight, and a snapshot of the leader is saved, and is not behind one that stays in
    sight. -/
def Recoverable (r : ReplicaState) : LogAction → Prop
  | .op (.replicate _ req _) => req.Restorable
  | .op (.finishWrite _ e _ _ _ fates) =>
    (e.Restorable ∧ 0 < e.version) ∧
      r.OnDisk fun ds => (ds.appendWAL e).Exposed → ∀ x ∈ fates, x = .ok
  | .op (.recover (.entries _ es) _ _) => ∀ e ∈ es, e.Restorable
  | .op (.recover (.snapshot s) _ fates) =>
    r.OnDisk fun ds => (ds.resetSnapshot s fates).1 = .done () ∧
      ∀ t ∈ inSight ds.files.snaps (ds.snapshotRetention - 1), t.version ≤ s.version
  | _ => True

instance (r : ReplicaState) : (a : LogAction) → Decidable (r.Recoverable a)
  | .op (.replicate _ req _) => inferInstanceAs (Decidable req.Restorable)
  | .op (.finishWrite _ e _ _ _ fates) =>
    inferInstanceAs (Decidable ((e.Restorable ∧ 0 < e.version) ∧
      r.OnDisk fun ds => (ds.appendWAL e).Exposed → ∀ x ∈ fates, x = .ok))
  | .op (.recover (.entries _ es) _ _) =>
    inferInstanceAs (Decidable (∀ e ∈ es, e.Restorable))
  | .op (.recover (.snapshot s) _ fates) =>
    inferInstanceAs (Decidable (r.OnDisk fun ds => (ds.resetSnapshot s fates).1 = .done () ∧
      ∀ t ∈ inSight ds.files.snaps (ds.snapshotRetention - 1), t.version ≤ s.version))
  | .op (.requestVote _ _) | .op (.leaderHeartbeat _ _) | .op (.forceRecover _)
  | .op (.electionBegin _) | .op (.higherTerm _) | .op (.electionFinish _ _ _ _)
  | .op (.heartbeatReply _ _ _ _) | .applyShard _ _ _ | .restart _ _ _ => .isTrue trivial

theorem persisted_replicate (h : r.Persisted cfg) {req : Entry} (hreq : req.Restorable)
    (now : Time) (walOk : Bool) : (r.replicate now req walOk).1.Persisted cfg := by
  have hobserved := h.observe req.term
  simp only [replicate]
  split_ifs with hterm hdup hgap
  · exact h
  · exact hobserved
  · exact hobserved
  · have happly := hobserved.apply hreq (Nat.zero_lt_of_lt (not_le.1 hdup)) walOk
    split <;> rename_i hr' <;> rw [hr'] at happly <;> exact happly

/-- A write of the leader, with the snapshot after it. -/
theorem persisted_commitWrite (h : r.Persisted cfg) {e : Entry}
    (he : e.Restorable ∧ 0 < e.version) {fates : List Fate}
    (hcareful : r.OnDisk fun ds => (ds.appendWAL e).Exposed → ∀ x ∈ fates, x = .ok)
    (now : Time) (plan : QuorumInfo) (acked : List String) (walOk : Bool) :
    (r.commitWrite now e plan acked walOk fates).2.Persisted cfg := by
  have hheard : (r.heard now acked).Persisted cfg := h.of_eq rfl rfl rfl
  have happly := hheard.apply he.1 he.2 walOk
  simp only [commitWrite]
  split
  · rename_i r' err hr'
    rwa [hr'] at happly
  · rename_i r' hr'
    have hds := ds_of_apply_ok hr'
    obtain ⟨-, -, -, ds', rfl⟩ := apply_ok hr'
    rw [hr'] at happly
    -- The snapshot is one of the state after the entry.
    obtain ⟨ds₀, hds₀, -⟩ := h
    obtain ⟨ds, rfl, hopened, hmirrored⟩ := happly
    obtain rfl : ds = ds₀.appendWAL e := by
      rw [show (r.heard now acked).ds = r.ds from rfl, hds₀] at hds
      exact Option.some.inj hds
    exact ⟨_, rfl, hopened.maybeSnapshot _ fates,
      DiskState.Mirrored.maybeSnapshot (s := { term := e.term, version := e.version, kv := _ })
        hmirrored (hcareful ds₀ hds₀)⟩

theorem persisted_finishWrite (h : r.Persisted cfg) {e : Entry}
    (he : e.Restorable ∧ 0 < e.version) {fates : List Fate}
    (hcareful : r.OnDisk fun ds => (ds.appendWAL e).Exposed → ∀ x ∈ fates, x = .ok)
    (now : Time) (plan : QuorumInfo) (acked : List String) (walOk : Bool) :
    (r.finishWrite now e plan acked walOk fates).2.Persisted cfg := by
  rw [finishWrite]
  split_ifs
  · exact persisted_commitWrite h he hcareful now plan [] walOk
  · exact h
  · exact h
  · exact persisted_commitWrite h he hcareful now plan acked walOk

theorem persisted_recover (h : r.Persisted cfg) {resp : RecoverResponse} {walOk : ℕ → Bool}
    {fates : List Fate} (hC : r.Recoverable (.op (.recover resp walOk fates))) :
    (r.doIncrementalRecovery resp walOk fates).2.Persisted cfg := by
  cases resp with
  | entries version es =>
    have hes := h.applyEntries walOk hC
    cases hrecover : r.doIncrementalRecovery (.entries version es) walOk fates with
    | mk o r' =>
      rcases doIncrementalRecovery_entries hrecover with rfl | rfl | rfl
      · exact h
      · exact hes
      · exact hes.of_eq rfl rfl rfl
  | snapshot s =>
    obtain ⟨ds, hds, hopened, -⟩ := h
    obtain ⟨hdone, hstay⟩ := hC ds hds
    have hinstalled : (r.applySnapshot s .persist fates).2.Persisted cfg := by
      refine ⟨(ds.resetSnapshot s fates).2, ?_, hopened.replaceWith _ s fates, ?_⟩
      · rw [ds_applySnapshot, hds]
        rfl
      · obtain ⟨ds', hds'⟩ := r.applySnapshot_snd s .persist fates
        rw [hds']
        exact DiskState.mirrored_resetSnapshot hdone hstay
    rw [doIncrementalRecovery]
    split <;> rename_i r' happly <;> rw [happly] at hinstalled
    · exact hinstalled.of_eq rfl rfl rfl
    · exact hinstalled
    · exact hinstalled

/-- The operations that write no entries change neither the version nor the store. -/
theorem contents_of_step {o : NodeOp} (hstep : o.step r = some r') (hwrites : o.writes = false) :
    SameContents r r' := by
  cases o with
  | replicate | finishWrite | recover => cases hwrites
  | requestVote now req => exact Option.some.inj hstep ▸ r.sameContents_requestVote now req
  | leaderHeartbeat now req => exact Option.some.inj hstep ▸ r.sameContents_leaderHeartbeat now req
  | forceRecover now => exact Option.some.inj hstep ▸ r.sameContents_setLagging now
  | electionBegin now =>
    obtain ⟨⟨r'', req⟩, hbegin, rfl⟩ := Option.map_eq_some_iff.1 hstep
    exact sameContents_electionBegin hbegin
  | higherTerm term => exact Option.some.inj hstep ▸ r.sameContents_higherTerm term
  | electionFinish now peers candidateTerm votes =>
    exact Option.some.inj hstep ▸ r.sameContents_electionFinish now peers candidateTerm votes
  | heartbeatReply now sentTerm peerID peerTerm =>
    exact Option.some.inj hstep ▸ r.sameContents_heartbeatReply now sentTerm peerID peerTerm

/-- A new replica has what the files lead to. -/
theorem initShard_of_mirrored (hdata : cfg.dataDir = true) {f : Files} {ds : DiskState}
    (hopen : DiskState.openDiskState f cfg.snapshotInterval cfg.snapshotRetention = .ok ds)
    (hopened : ds.Opened cfg) {version : ℕ} {kv : KV} (h : ds.Mirrored version kv)
    (shard : ShardInfo) (resp : ShardMapResponse) (now : Time) :
    (initShard cfg shard resp now f).version = version ∧
      (initShard cfg shard resp now f).kv = kv ∧
      (initShard cfg shard resp now f).Persisted cfg := by
  have hzero : (initReplica cfg shard resp now).version = 0 := rfl
  have hempty : (initReplica cfg shard resp now).kv = ∅ := rfl
  have hload : (initShard cfg shard resp now f).version = version ∧
      (initShard cfg shard resp now f).kv = kv ∧
      (initShard cfg shard resp now f).ds = some ds := by
    rw [initShard, if_pos hdata, loadDisk, hopen]
    -- Nothing has been written yet, or the state is loaded.
    rcases h.load with ⟨rfl, rfl, loaded, hload, hvalid⟩ | ⟨t, hload⟩
    · simp [hload, hvalid, hzero, hempty]
    · simp [hload, installed]
  refine ⟨hload.1, hload.2.1, ds, hload.2.2, hopened, ?_⟩
  rw [hload.1, hload.2.1]
  exact h

/-- A restart has the contents from before. -/
theorem Persisted.restart (h : r.Persisted cfg) (hdata : cfg.dataDir = true) (shard : ShardInfo)
    (resp : ShardMapResponse) (now : Time) :
    (initShard cfg shard resp now r.leftFiles).version = r.version ∧
      (initShard cfg shard resp now r.leftFiles).kv = r.kv ∧
      (initShard cfg shard resp now r.leftFiles).Persisted cfg := by
  obtain ⟨ds, hds, hopened, hmirrored⟩ := h
  have hopen : DiskState.openDiskState r.leftFiles cfg.snapshotInterval cfg.snapshotRetention =
      .ok ds.reopen := by
    rw [leftFiles, hds, ← hopened.interval, ← hopened.retention]
    exact ds.openDiskState_reopen
  exact initShard_of_mirrored hdata hopen ⟨hopened.interval, hopened.retention⟩ hmirrored.reopen
    shard resp now

/-- A replica of a node with a data directory, when the directory is new. -/
theorem persisted_initShard (hdata : cfg.dataDir = true) (hinterval : 0 < cfg.snapshotInterval)
    (hretention : 0 < cfg.snapshotRetention) (shard : ShardInfo) (resp : ShardMapResponse)
    (now : Time) : (initShard cfg shard resp now Files.empty).Persisted cfg := by
  let ds := DiskState.new cfg.snapshotInterval.toNat cfg.snapshotRetention.toNat (by omega)
    (by omega)
  have hopened : ds.Opened cfg :=
    ⟨Int.toNat_of_nonneg hinterval.le, Int.toNat_of_nonneg hretention.le⟩
  have hopen : DiskState.openDiskState Files.empty cfg.snapshotInterval cfg.snapshotRetention =
      .ok ds := by
    rw [← hopened.interval, ← hopened.retention]
    exact ds.openDiskState_reopen
  exact (initShard_of_mirrored hdata hopen hopened (DiskState.mirrored_of_empty rfl) shard resp
    now).2.2

/-- The step lemma. -/
theorem persisted_step (hdata : cfg.dataDir = true) (r : ReplicaState) (a : LogAction)
    (r' : ReplicaState) (h : r.Persisted cfg) (hC : r.Recoverable a)
    (hstep : r.logStep cfg a = some r') : r'.Persisted cfg := by
  cases a with
  | applyShard shard version now =>
    obtain rfl := Option.some.inj hstep
    exact h.of_eq rfl rfl rfl
  | restart shard resp now =>
    obtain rfl := Option.some.inj hstep
    exact (h.restart hdata shard resp now).2.2
  | op o =>
    have hop : o.step r = some r' := hstep
    cases o with
    | replicate now req walOk =>
      obtain rfl := Option.some.inj hstep
      exact persisted_replicate h hC now walOk
    | finishWrite now e plan acked walOk fates =>
      obtain rfl := Option.some.inj hstep
      exact persisted_finishWrite h hC.1 hC.2 now plan acked walOk
    | recover resp walOk fates =>
      obtain rfl := Option.some.inj hstep
      exact persisted_recover h hC
    | requestVote | leaderHeartbeat | forceRecover | electionBegin | higherTerm | electionFinish
    | heartbeatReply =>
      have hsame := contents_of_step hop rfl
      exact h.of_eq (ds_of_step hop rfl) hsame.version hsame.kv

end ReplicaState

/-- A write of the leader of `loneShard` after which no snapshot gets to its end. -/
def troubledWrite (version : ℕ) : LogAction :=
  .op (.finishWrite 0 (.put 0 version "k" "w") (planQuorum ∅ ∅ 0 200) [] true [.ok, .error])

end Doki
