import Doki.Coordinator.Promotion

/-!
# Migrations

The coordinator moves a shard to other nodes without a break (`MigrationManager`, in
`coordinator/migration.go`). `startMigration` adds the new replicas to the old ones, so that
both serve the shard; once all new ones have caught up, `checkMigrations` leaves these
only (`finaliseMigration`). It also ends the splits whose replicas have caught up.

Whether a replica has caught up is told by the version that its node reports for the shard:
it has if the version is not 0 (`allReady`). The heartbeats also tell whether the replica
is ready, but this is not kept. `Monitored` is the coordinator with a record of
the heartbeats, which no step reads.

* `MigrationManager.checked_checkMigrations`: what a run of `CheckMigrations` can do to a
  shard;
* `Monitored.Current.step`: the versions that the coordinator knows are those that the
  nodes have reported last;
* `Monitored.migrates_onto_reported`: a migration ends only with live replicas that have
  last been reported with a positive version;
* `Monitored.migrates_onto_unready`: they need not be ready;
* `Monitored.migrates_onto_ready`: they are, if every heartbeat reports as ready what it
  gives a positive version, and leaves out nothing that the node has reported with one.
-/

namespace Doki

open Runs

/-- The errors of `StartMigration`, by the step that has failed. -/
inductive MigrationError
  | start (e : ShardMapError)
  | setReplicas (e : ShardMapError)
  | setIncomingReplicas (e : ShardMapError)
  deriving DecidableEq, Repr

/-- The error's text. -/
def MigrationError.message : MigrationError → String
  | .start e => "start migration: " ++ e.message
  | .setReplicas e => "set replicas: " ++ e.message
  | .setIncomingReplicas e => "set incoming replicas: " ++ e.message

/-- The old replicas, and those of the new ones that are not among them. -/
def widened (old new : List String) : List String := old ++ new.filter (· ∉ old)

/-- The orders in which `CheckMigrations` comes to things: the pending migrations, the
    shards that are being split, and the shards in the reassignment after a migration
    has ended and after a split has. -/
structure CheckOrder where
  pending : List String
  shards : List String
  finalise : String → List String
  split : String → List String

/-- The pending migrations, as the new replicas of a shard, and the rest of the
    coordinator. -/
structure MigrationManager where
  migrations : Finmap fun _ : String => List String
  leader : LeaderManager

namespace MigrationManager

variable (mm : MigrationManager)

/-- The manager with another shard map. -/
def setShards (shards : ShardMap) : MigrationManager :=
  { mm with leader := { mm.leader with shards := shards } }

/-- Starting a migration. Only the first step can fail: the shard does not go away. -/
def startMigration (shardID : String) (newReplicas : List String) :
    Except MigrationError MigrationManager := do
  let shard ← (mm.leader.shards.get shardID).mapError .start
  let shards ← (mm.leader.shards.setReplicas shardID
    (widened shard.replicas newReplicas)).mapError .setReplicas
  let shards ← (shards.setIncomingReplicas shardID newReplicas).mapError .setIncomingReplicas
  pure { mm.setShards shards with migrations := mm.migrations.insert shardID newReplicas }

/-- The node is alive, and has reported a version for the shard that is not 0. -/
def caughtUp (shardID nodeID : String) : Bool :=
  mm.leader.membership.isAlive nodeID && mm.leader.membership.versionForShard nodeID shardID != 0

/-- All replicas have caught up, and there are some. -/
def allReady (shardID : String) (replicas : List String) : Bool :=
  !replicas.isEmpty && replicas.all (mm.caughtUp shardID)

/-- The end of a migration, with the shards in some order. -/
def finaliseMigration (order : List String) (shardID : String) (newReplicas : List String) :
    MigrationManager :=
  match mm.leader.shards.setReplicas shardID newReplicas with
  | .error _ => mm
  | .ok shards =>
    -- An error of the second step is only logged.
    let shards := shards.orKeep (shards.setIncomingReplicas shardID [])
    { migrations := mm.migrations.erase shardID
      leader := { mm.leader with shards := shards }.checkAndReassign order }

/-- One of the migrations that were pending when `CheckMigrations` began. -/
def checkMigration (orders : String → List String) (m : String × List String) : MigrationManager :=
  if mm.allReady m.1 m.2 then mm.finaliseMigration (orders m.1) m.1 m.2 else mm

/-- One of the shards in the second part of `CheckMigrations`, as it was when this part
    began. -/
def checkSplit (orders : String → List String) (shard : ShardInfo) : MigrationManager :=
  if shard.bootstrapSourceShardID = "" then mm
  else if mm.allReady shard.id shard.replicas then
    match mm.leader.shards.clearBootstrapSource shard.id with
    | .error _ => mm
    | .ok shards =>
      if shard.leader = "" then
        { mm with leader := { mm.leader with shards := shards }.checkAndReassign (orders shard.id) }
      else mm.setShards shards
  else mm

/-- The pending migrations, as they come in the order `order`. -/
def pending (order : List String) : List (String × List String) :=
  order.filterMap fun x => (mm.migrations.lookup x).map fun newReplicas => (x, newReplicas)

/-- The end of the migrations and splits whose replicas have caught up. -/
def checkMigrations (o : CheckOrder) : MigrationManager :=
  let mm' := (mm.pending o.pending).foldl (fun mm m => mm.checkMigration o.finalise m) mm
  (mm'.leader.shards.all o.shards).foldl (fun mm shard => mm.checkSplit o.split shard) mm'

end MigrationManager

/-- The errors of a request to split a shard. -/
inductive SplitError
  | missingFields
  | sourceNotFound
  | addShard (e : ShardMapError)
  deriving DecidableEq, Repr

/-- The error's text. -/
def SplitError.message : SplitError → String
  | .missingFields => "source_shard_id, new_shard_id, and new_replicas required"
  | .sourceNotFound => "source shard not found"
  | .addShard e => e.message

/-- The operations of the coordinator. -/
inductive CoordinatorOp
  | heartbeat (now : Time) (nodeID : String) (shards : List ShardStatus)
  | refreshLiveness (now : Time)
  | addNode (spec : NodeSpec)
  | notifyLeader (shardID leaderID : String) (term : ℕ)
  | checkAndReassign (order : List String)
  | startMigration (shardID : String) (newReplicas : List String)
  | checkMigrations (o : CheckOrder)
  | splitShard (sourceShardID newShardID : String) (newReplicas : List String)

namespace MigrationManager

variable (mm : MigrationManager)

/-- A new shard, with the data of another one. It has no leader. -/
def splitShard (sourceShardID newShardID : String) (newReplicas : List String) :
    Except SplitError MigrationManager :=
  if sourceShardID = "" ∨ newShardID = "" ∨ newReplicas = [] then .error .missingFields
  else
    match mm.leader.shards.get sourceShardID with
    | .error _ => .error .sourceNotFound
    | .ok _ =>
      match mm.leader.shards.addShard
        { id := newShardID, replicas := newReplicas, leader := "",
          bootstrapSourceShardID := sourceShardID } with
      | .error e => .error (.addShard e)
      | .ok shards =>
        .ok { mm with leader := { mm.leader with shards := shards }.initTerm newShardID }

/-- The coordinator after an operation. One that fails leaves it as it is. -/
def apply : CoordinatorOp → MigrationManager
  | .heartbeat now nodeID shards =>
    match mm.leader.membership.recordHeartbeat now nodeID shards with
    | .error _ => mm
    | .ok membership => { mm with leader := { mm.leader with membership := membership } }
  | .refreshLiveness now =>
    { mm with
      leader := { mm.leader with membership := mm.leader.membership.refreshLiveness now } }
  | .addNode spec =>
    { mm with leader := { mm.leader with membership := mm.leader.membership.addNode spec } }
  | .notifyLeader shardID leaderID term =>
    { mm with leader := (mm.leader.notifyLeader shardID leaderID term).2 }
  | .checkAndReassign order => { mm with leader := mm.leader.checkAndReassign order }
  | .startMigration shardID newReplicas =>
    match mm.startMigration shardID newReplicas with
    | .error _ => mm
    | .ok mm' => mm'
  | .checkMigrations o => mm.checkMigrations o
  | .splitShard sourceShardID newShardID newReplicas =>
    match mm.splitShard sourceShardID newShardID newReplicas with
    | .error _ => mm
    | .ok mm' => mm'

end MigrationManager

/-! ## What the operations leave alone -/

/-- The replicas of a shard. -/
def ShardMap.replicasOf (m : ShardMap) (x : String) : Option (List String) :=
  (m.shards.lookup x).map (·.replicas)

/-- A shard that is replaced by one with the same replicas. -/
theorem ShardMap.replicasOf_insert {m : ShardMap} {s s' : ShardInfo} {x y : String}
    (hs : m.shards.lookup y = some s) (hid : s'.id = s.id) (hrep : s'.replicas = s.replicas) :
    (m.insert s').replicasOf x = m.replicasOf x := by
  rw [replicasOf, lookup_insert_of_id hs s' hid, replicasOf]
  split_ifs with hx
  · rw [hx, hs, Option.map_some, Option.map_some, hrep]
  · rfl

/-- The map after the replicas of the shard `s` have been set, and then the incoming ones. -/
def ShardMap.withReplicas (m : ShardMap) (s : ShardInfo) (R incoming : List String) : ShardMap :=
  (m.insert (s.withReplicas R)).insert { s.withReplicas R with incomingReplicas := incoming }

section WithReplicas

variable {m : ShardMap} {y : String} {s : ShardInfo}

/-- Both steps succeed for a shard that is in the map. -/
theorem ShardMap.setReplicas_setIncomingReplicas (hs : m.shards.lookup y = some s)
    (R incoming : List String) :
    m.setReplicas y R = .ok (m.insert (s.withReplicas R)) ∧
      (m.insert (s.withReplicas R)).setIncomingReplicas y incoming =
        .ok (m.withReplicas s R incoming) := by
  have hlookup := lookup_insert_of_id hs (s.withReplicas R) rfl y
  rw [if_pos rfl] at hlookup
  exact ⟨update_of_lookup hs _, update_of_lookup hlookup _⟩

theorem ShardMap.replicasOf_withReplicas (hs : m.shards.lookup y = some s)
    (R incoming : List String) (x : String) :
    (m.withReplicas s R incoming).replicasOf x = if x = y then some R else m.replicasOf x := by
  have hlookup := lookup_insert_of_id hs (s.withReplicas R) rfl
  have hlookup_self := (hlookup y).trans (if_pos rfl)
  have htag : (m.withReplicas s R incoming).replicasOf x =
      (m.insert (s.withReplicas R)).replicasOf x :=
    replicasOf_insert hlookup_self rfl rfl
  rw [htag, replicasOf, hlookup]
  split_ifs <;> rfl

end WithReplicas

namespace LeaderManager

/-- The nodes and the replicas of all shards are what they were. -/
structure SameReplicas (lm lm' : LeaderManager) : Prop where
  membership : lm'.membership = lm.membership
  replicas : ∀ x, lm'.shards.replicasOf x = lm.shards.replicasOf x

variable (lm : LeaderManager)

theorem SameReplicas.refl : lm.SameReplicas lm := ⟨rfl, fun _ => rfl⟩

variable {lm} in
theorem SameReplicas.trans {lm' lm'' : LeaderManager} (h : lm.SameReplicas lm')
    (h' : lm'.SameReplicas lm'') : lm.SameReplicas lm'' :=
  ⟨h'.membership.trans h.membership, fun x => (h'.replicas x).trans (h.replicas x)⟩

theorem reassign_frame (shard : ShardInfo) : lm.SameReplicas (lm.reassign shard) := by
  rw [reassign]
  split
  · exact .refl lm
  · split
    · exact .refl lm
    · rename_i shards hset
      obtain ⟨s, hs, -, rfl⟩ := ShardMap.setLeader_ok hset
      exact ⟨rfl, fun x => ShardMap.replicasOf_insert hs rfl rfl⟩

theorem checkShard_frame (shard : ShardInfo) : lm.SameReplicas (lm.checkShard shard) := by
  rw [checkShard]
  split_ifs
  · exact lm.reassign_frame shard
  · exact lm.reassign_frame shard
  · exact .refl lm

theorem checkAndReassign_frame (order : List String) :
    lm.SameReplicas (lm.checkAndReassign order) :=
  List.foldlRecOn (motive := lm.SameReplicas) _ checkShard (.refl lm)
    fun lm' h shard _ => h.trans (lm'.checkShard_frame shard)

end LeaderManager

namespace MigrationManager

/-- The record and the replicas of a shard are what they were. -/
def Kept (mm mm' : MigrationManager) (x : String) : Prop :=
  mm'.migrations.lookup x = mm.migrations.lookup x ∧
    mm'.leader.shards.replicasOf x = mm.leader.shards.replicasOf x

/-- The migration of a shard to the replicas `R` has ended. -/
def Moved (mm : MigrationManager) (x : String) (R : List String) : Prop :=
  mm.migrations.lookup x = none ∧ mm.leader.shards.replicasOf x = some R

variable (mm : MigrationManager)

/-- Whether replicas have caught up depends on the nodes only. -/
theorem allReady_congr {mm mm' : MigrationManager}
    (h : mm'.leader.membership = mm.leader.membership) (x : String) (R : List String) :
    mm'.allReady x R = mm.allReady x R := by
  have hcaught : mm'.caughtUp x = mm.caughtUp x := by
    funext n
    rw [caughtUp, caughtUp, h]
  rw [allReady, allReady, hcaught]

theorem of_allReady {x : String} {R : List String} (h : mm.allReady x R = true) {n : String}
    (hn : n ∈ R) :
    mm.leader.membership.isAlive n = true ∧ 0 < mm.leader.membership.versionForShard n x := by
  simp only [allReady, caughtUp, Bool.and_eq_true, List.all_eq_true, bne_iff_ne] at h
  obtain ⟨halive, hversion⟩ := h.2 n hn
  exact ⟨halive, Nat.pos_of_ne_zero hversion⟩

/-- The end of the migration of a shard that is in the map. -/
theorem finaliseMigration_of_lookup (order : List String) {y : String} {s : ShardInfo}
    (R : List String) (hs : mm.leader.shards.shards.lookup y = some s) :
    mm.finaliseMigration order y R =
      { migrations := mm.migrations.erase y
        leader := { mm.leader with
          shards := mm.leader.shards.withReplicas s R [] }.checkAndReassign order } := by
  obtain ⟨hset, htag⟩ := ShardMap.setReplicas_setIncomingReplicas hs R []
  rw [finaliseMigration, hset]
  simp only [htag]
  rfl

/-- The end of the migration of a shard that is not in the map does nothing. -/
theorem finaliseMigration_of_none (order : List String) {y : String} (R : List String)
    (hs : mm.leader.shards.shards.lookup y = none) : mm.finaliseMigration order y R = mm := by
  rw [finaliseMigration, ShardMap.setReplicas, ShardMap.update, hs]

/-- The replicas after the end of the migration of a shard that is in the map. -/
theorem replicasOf_finaliseMigration (order : List String) {y : String} {s : ShardInfo}
    (R : List String) (hs : mm.leader.shards.shards.lookup y = some s) (x : String) :
    (mm.finaliseMigration order y R).leader.shards.replicasOf x =
      if x = y then some R else mm.leader.shards.replicasOf x := by
  rw [mm.finaliseMigration_of_lookup order R hs, ← ShardMap.replicasOf_withReplicas hs R [] x]
  exact (LeaderManager.checkAndReassign_frame _ order).replicas x

/-- The end of a migration moves its shard, and leaves the others. -/
theorem finaliseMigration_frame (order : List String) (y : String) (R : List String) :
    (mm.finaliseMigration order y R).leader.membership = mm.leader.membership ∧
      ∀ x, mm.Kept (mm.finaliseMigration order y R) x ∨
        x = y ∧ (mm.finaliseMigration order y R).Moved x R := by
  rcases hs : mm.leader.shards.shards.lookup y with _ | s
  · rw [mm.finaliseMigration_of_none order R hs]
    exact ⟨rfl, fun _ => .inl ⟨rfl, rfl⟩⟩
  have hreplicas := mm.replicasOf_finaliseMigration order R hs
  rw [mm.finaliseMigration_of_lookup order R hs] at hreplicas ⊢
  refine ⟨(LeaderManager.checkAndReassign_frame _ order).membership, fun x => ?_⟩
  by_cases hx : x = y
  · subst hx
    exact .inr ⟨rfl, Finmap.lookup_erase _ _, (hreplicas x).trans (if_pos rfl)⟩
  · exact .inl ⟨Finmap.lookup_erase_ne hx, (hreplicas x).trans (if_neg hx)⟩

/-- The second part of `CheckMigrations` leaves the migrations and the replicas. -/
theorem checkSplit_frame (orders : String → List String) (shard : ShardInfo) :
    (mm.checkSplit orders shard).leader.membership = mm.leader.membership ∧
      ∀ x, mm.Kept (mm.checkSplit orders shard) x := by
  rw [checkSplit]
  split
  · exact ⟨rfl, fun _ => ⟨rfl, rfl⟩⟩
  split
  · split
    · exact ⟨rfl, fun _ => ⟨rfl, rfl⟩⟩
    · rename_i shards hclear
      have hrep : ∀ x, shards.replicasOf x = mm.leader.shards.replicasOf x := by
        intro x
        rcases ShardMap.clearBootstrapSource_ok hclear with rfl | ⟨s, hs, rfl⟩
        · rfl
        · exact ShardMap.replicasOf_insert hs rfl rfl
      split
      · have hframe := LeaderManager.checkAndReassign_frame
          { mm.leader with shards := shards } (orders shard.id)
        exact ⟨hframe.membership, fun x => ⟨rfl, (hframe.replicas x).trans (hrep x)⟩⟩
      · exact ⟨rfl, fun x => ⟨rfl, hrep x⟩⟩
  · exact ⟨rfl, fun _ => ⟨rfl, rfl⟩⟩

/-- What a part of `CheckMigrations` has done to each shard so far: nothing, or it has
    ended its migration, whose new replicas have all caught up. -/
structure Checked (mm mm' : MigrationManager) : Prop where
  membership : mm'.leader.membership = mm.leader.membership
  outcome : ∀ x, mm.Kept mm' x ∨
    ∃ R, mm.migrations.lookup x = some R ∧ mm.allReady x R = true ∧ mm'.Moved x R

variable {mm} {mm' : MigrationManager}

/-- Going on with what leaves a shard. -/
theorem Checked.outcome_of_kept {mm'' : MigrationManager} {x : String} (h : mm.Checked mm')
    (hkept : mm'.Kept mm'' x) : mm.Kept mm'' x ∨
      ∃ R, mm.migrations.lookup x = some R ∧ mm.allReady x R = true ∧ mm''.Moved x R := by
  obtain ⟨hrec, hrep⟩ := hkept
  rcases h.outcome x with ⟨hrec', hrep'⟩ | ⟨R, hR, hready, hrec', hrep'⟩
  · exact .inl ⟨hrec.trans hrec', hrep.trans hrep'⟩
  · exact .inr ⟨R, hR, hready, hrec.trans hrec', hrep.trans hrep'⟩

/-- The records that `CheckMigrations` goes through are those from its beginning. -/
theorem lookup_of_mem_pending {order : List String} {m : String × List String}
    (h : m ∈ mm.pending order) : mm.migrations.lookup m.1 = some m.2 := by
  obtain ⟨y, -, hy⟩ := List.mem_filterMap.1 h
  obtain ⟨R, hR, rfl⟩ := Option.map_eq_some_iff.1 hy
  exact hR

theorem Checked.checkMigration {order : List String} (h : mm.Checked mm')
    (orders : String → List String) {m : String × List String} (hm : m ∈ mm.pending order) :
    mm.Checked (mm'.checkMigration orders m) := by
  rw [MigrationManager.checkMigration]
  split_ifs with hready
  · obtain ⟨hmem, hout⟩ := mm'.finaliseMigration_frame (orders m.1) m.1 m.2
    refine ⟨hmem.trans h.membership, fun x => ?_⟩
    rcases hout x with hkept | ⟨rfl, hmoved⟩
    · exact h.outcome_of_kept hkept
    · rw [allReady_congr h.membership] at hready
      exact .inr ⟨m.2, lookup_of_mem_pending hm, hready, hmoved⟩
  · exact h

theorem Checked.checkSplit (h : mm.Checked mm') (orders : String → List String)
    (shard : ShardInfo) : mm.Checked (mm'.checkSplit orders shard) := by
  obtain ⟨hmem, hkept⟩ := mm'.checkSplit_frame orders shard
  exact ⟨hmem.trans h.membership, fun x => h.outcome_of_kept (hkept x)⟩

theorem checked_checkMigrations (mm : MigrationManager) (o : CheckOrder) :
    mm.Checked (mm.checkMigrations o) := by
  have hpending : mm.Checked
      ((mm.pending o.pending).foldl (fun mm m => mm.checkMigration o.finalise m) mm) :=
    List.foldlRecOn (motive := mm.Checked) _ _ ⟨rfl, fun _ => .inl ⟨rfl, rfl⟩⟩
      fun mm' h m hm => h.checkMigration o.finalise hm
  exact List.foldlRecOn (motive := mm.Checked) _ _ hpending
    fun mm' h shard _ => h.checkSplit o.split shard

/-- The shard map after a migration of `s` to `R` has started. -/
def widenedMap (m : ShardMap) (s : ShardInfo) (R : List String) : ShardMap :=
  (m.insert (s.withReplicas (widened s.replicas R))).insert
    { s.withReplicas (widened s.replicas R) with incomingReplicas := R }

/-- Starting a migration of a shard that is in the map. -/
theorem startMigration_of_lookup {x : String} {s : ShardInfo} (R : List String)
    (hs : mm.leader.shards.shards.lookup x = some s) :
    mm.startMigration x R = .ok
      { mm.setShards (widenedMap mm.leader.shards s R) with
        migrations := mm.migrations.insert x R } := by
  have hget : mm.leader.shards.get x = .ok s := by rw [ShardMap.get, hs]
  obtain ⟨hset, htag⟩ :=
    ShardMap.setReplicas_setIncomingReplicas hs (widened s.replicas R) R
  rw [startMigration, hget]
  simp only [Except.mapError, hset, htag, bind, Except.bind]
  rfl

/-- A shard that is not in the map cannot be migrated. -/
theorem startMigration_of_none {x : String} (R : List String)
    (hs : mm.leader.shards.shards.lookup x = none) :
    mm.startMigration x R = .error (.start (.notFound x)) := by
  rw [startMigration, ShardMap.get, hs]
  rfl

/-- A split that is accepted. -/
theorem splitShard_ok {y x : String} {R : List String} (h : mm.splitShard y x R = .ok mm') :
    ∃ shards, mm.leader.shards.addShard
        { id := x, replicas := R, leader := "", bootstrapSourceShardID := y } = .ok shards ∧
      mm' = { mm with leader := { mm.leader with shards := shards }.initTerm x } := by
  rw [splitShard] at h
  split_ifs at h
  split at h
  · cases h
  · split at h
    · cases h
    · exact ⟨_, ‹_›, (Except.ok.inj h).symm⟩

/-- The versions that the coordinator knows change with heartbeats only. -/
theorem versionForShard_apply (mm : MigrationManager) {op : CoordinatorOp}
    (hop : ∀ now nodeID shards, op ≠ .heartbeat now nodeID shards) (n x : String) :
    (mm.apply op).leader.membership.versionForShard n x =
      mm.leader.membership.versionForShard n x := by
  cases op with
  | heartbeat now nodeID shards => exact absurd rfl (hop now nodeID shards)
  | refreshLiveness now => exact Membership.versionForShard_refreshLiveness _ now n x
  | addNode spec => exact Membership.versionForShard_addNode _ spec n x
  | notifyLeader y leaderID term =>
    simp only [apply]
    cases hnotify : mm.leader.notifyLeader y leaderID term with
    | mk accepted lm =>
      cases accepted with
      | true =>
        obtain ⟨-, shards, -, rfl⟩ := LeaderManager.notifyLeader_accepted hnotify
        rfl
      | false => rw [LeaderManager.notifyLeader_rejected hnotify]
  | checkAndReassign order =>
    simp only [apply, (mm.leader.checkAndReassign_frame order).membership]
  | startMigration y R =>
    simp only [apply]
    cases hs : mm.leader.shards.shards.lookup y with
    | none => rw [startMigration_of_none R hs]
    | some s =>
      rw [startMigration_of_lookup R hs]
      rfl
  | checkMigrations o => simp only [apply, (mm.checked_checkMigrations o).membership]
  | splitShard z y R =>
    simp only [apply]
    split
    · rfl
    · rename_i mm' hsplit
      obtain ⟨shards, -, rfl⟩ := splitShard_ok hsplit
      rw [LeaderManager.initTerm]
      split <;> rfl

end MigrationManager

/-! ## The reports behind a migration -/

/-- The coordinator, and the heartbeats that it has accepted, the newest first. -/
structure Monitored where
  manager : MigrationManager
  reports : List (String × List ShardStatus)

namespace Monitored

/-- A coordinator at its start, with some shards and nodes. -/
def start (nodes : List NodeSpec) (timeout : Time) (shards : ShardMap)
    (terms : Finmap fun _ : String => ℕ) : Monitored where
  manager :=
    { migrations := ∅
      leader := { shards := shards, membership := .new nodes timeout, terms := terms } }
  reports := []

variable (s : Monitored)

/-- The heartbeats after an operation. -/
def reportsAfter : CoordinatorOp → List (String × List ShardStatus)
  | .heartbeat now nodeID shards =>
    match s.manager.leader.membership.recordHeartbeat now nodeID shards with
    | .error _ => s.reports
    | .ok _ => (nodeID, shards) :: s.reports
  | _ => s.reports

def step (op : CoordinatorOp) : Option Monitored :=
  some { manager := s.manager.apply op, reports := s.reportsAfter op }

/-- The last that a node has reported of a shard. -/
def lastStatus (nodeID shardID : String) : Option ShardStatus :=
  s.reports.findSome? fun r =>
    if r.1 = nodeID then r.2.reverse.find? (·.shardID = shardID) else none

/-- The node has last reported the shard with a positive version. -/
def Reported (nodeID shardID : String) : Prop :=
  ∃ status, s.lastStatus nodeID shardID = some status ∧ 0 < status.version

/-- The last heartbeat of the node has reported the shard as ready. -/
def reportedReady (nodeID shardID : String) : Bool :=
  (s.reports.find? (·.1 = nodeID)).any fun r =>
    r.2.any fun status => status.shardID = shardID && status.isReady

/-- A run of `CheckMigrations` moves a shard, that is, ends its migration or changes its
    replicas, only onto the replicas of its migration, which are alive and satisfy `P`. -/
def MovesOnto (P : Monitored → String → String → Prop) (s : Monitored) : CoordinatorOp → Prop
  | .checkMigrations o => ∀ x, ¬ s.manager.Kept (s.manager.checkMigrations o) x →
      ∃ R, s.manager.migrations.lookup x = some R ∧ (s.manager.checkMigrations o).Moved x R ∧
        ∀ n ∈ R, s.manager.leader.membership.isAlive n = true ∧ P s n x
  | _ => True

/-- The versions that the coordinator knows are those that were reported last. -/
def Current (s : Monitored) : Prop :=
  ∀ n x, s.manager.leader.membership.versionForShard n x =
    ((s.lastStatus n x).map (·.version)).getD 0

theorem current_start (nodes : List NodeSpec) (timeout : Time) (shards : ShardMap)
    (terms : Finmap fun _ : String => ℕ) : (start nodes timeout shards terms).Current :=
  fun n x => Membership.versionForShard_new nodes timeout n x

variable {s} {t : Monitored}

/-- What is known of a shard after a heartbeat: what it reports, or what was known before. -/
theorem lastStatus_cons {nodeID : String} {shards : List ShardStatus}
    (h : t.reports = (nodeID, shards) :: s.reports) (n x : String) :
    t.lastStatus n x =
      if nodeID = n then (shards.reverse.find? (·.shardID = x)).or (s.lastStatus n x)
      else s.lastStatus n x := by
  rw [lastStatus, h, List.findSome?_cons]
  split_ifs
  · cases shards.reverse.find? (·.shardID = x) <;> rfl
  · rfl

theorem Current.step {op : CoordinatorOp} (h : s.Current) (hstep : s.step op = some t) :
    t.Current := by
  obtain rfl := Option.some.inj hstep
  intro n x
  by_cases hop : ∃ now nodeID shards, op = .heartbeat now nodeID shards
  · obtain ⟨now, nodeID, shards, rfl⟩ := hop
    simp only [reportsAfter, MigrationManager.apply]
    cases hbeat : s.manager.leader.membership.recordHeartbeat now nodeID shards with
    | error e => exact h n x
    | ok membership =>
      rw [lastStatus_cons rfl, Membership.versionForShard_recordHeartbeat hbeat]
      by_cases hn : n = nodeID
      · -- The shard may be among those that this heartbeat reports.
        rw [if_pos hn, if_pos hn.symm, h n x]
        cases shards.reverse.find? (·.shardID = x) <;> rfl
      · rw [if_neg hn, if_neg (Ne.symm hn), h n x]
  · rw [MigrationManager.versionForShard_apply _ fun now nodeID shards heq =>
      hop ⟨now, nodeID, shards, heq⟩, h n x]
    cases op <;> first | rfl | exact absurd ⟨_, _, _, rfl⟩ hop

/-- The replicas that a shard is moved onto have caught up, so they have been reported. -/
theorem Current.movesOnto (h : s.Current) : ∀ op, s.MovesOnto Reported op
  | .checkMigrations o => by
    intro x hx
    rcases (s.manager.checked_checkMigrations o).outcome x with hkept | ⟨R, hR, hready, hmoved⟩
    · exact absurd hkept hx
    · refine ⟨R, hR, hmoved, fun n hn => ?_⟩
      obtain ⟨halive, hversion⟩ := s.manager.of_allReady hready hn
      refine ⟨halive, ?_⟩
      rw [h n x] at hversion
      cases hlast : s.lastStatus n x with
      | none => simp [hlast] at hversion
      | some status => exact ⟨status, hlast, by simpa [hlast] using hversion⟩
  | .heartbeat .. | .refreshLiveness _ | .addNode _ | .notifyLeader .. | .checkAndReassign _
  | .startMigration .. | .splitShard .. => trivial

/-- In every history, `CheckMigrations` moves shards only onto live replicas that have
    last been reported with a positive version. -/
theorem migrates_onto_reported (nodes : List NodeSpec) (timeout : Time) (shards : ShardMap)
    (terms : Finmap fun _ : String => ℕ) (ops : List CoordinatorOp) :
    Along step (MovesOnto Reported) (start nodes timeout shards terms) ops := by
  have hstep : ∀ (s : Monitored) op t, s.Current → True → s.step op = some t → t.Current :=
    fun s op t h _ => h.step
  exact Along.mono hstep (fun s op h _ => h.movesOnto op)
    (current_start nodes timeout shards terms) (Along.of_forall_mem fun _ _ => trivial)

/-! ### Accurate heartbeats -/

theorem MovesOnto.mono {P Q : Monitored → String → String → Prop} {op : CoordinatorOp}
    (h : s.MovesOnto P op) (hPQ : ∀ n x, P s n x → Q s n x) : s.MovesOnto Q op := by
  cases op with
  | checkMigrations o =>
    intro x hx
    obtain ⟨R, hR, hmoved, hall⟩ := h x hx
    exact ⟨R, hR, hmoved, fun n hn => (hall n hn).imp_right (hPQ n x)⟩
  | _ => trivial

/-- The heartbeat reports as ready every shard that it gives a positive version, and it
    reports every shard that the node has reported with one before. -/
def Accurate (s : Monitored) : CoordinatorOp → Prop
  | .heartbeat _ nodeID shards =>
    (∀ status ∈ shards, 0 < status.version → status.isReady = true) ∧
      ∀ r ∈ s.reports, r.1 = nodeID → ∀ status ∈ r.2, 0 < status.version →
        ∃ status' ∈ shards, status'.shardID = status.shardID
  | _ => True

instance Accurate.decidable (s : Monitored) : ∀ op, Decidable (s.Accurate op)
  | .heartbeat _ nodeID shards => inferInstanceAs (Decidable
      ((∀ status ∈ shards, 0 < status.version → status.isReady = true) ∧
        ∀ r ∈ s.reports, r.1 = nodeID → ∀ status ∈ r.2, 0 < status.version →
          ∃ status' ∈ shards, status'.shardID = status.shardID))
  | .refreshLiveness _ | .addNode _ | .notifyLeader .. | .checkAndReassign _
  | .startMigration .. | .checkMigrations _ | .splitShard .. => .isTrue trivial

/-- The shards that a node has last reported with a positive version are among those that its last
    heartbeat has reported as ready. -/
def Trusted (s : Monitored) : Prop :=
  ∀ n x, s.Reported n x → s.reportedReady n x = true

theorem reportsAfter_cases (s : Monitored) (op : CoordinatorOp) :
    s.reportsAfter op = s.reports ∨ ∃ now nodeID shards, op = .heartbeat now nodeID shards ∧
      s.reportsAfter op = (nodeID, shards) :: s.reports := by
  cases op with
  | heartbeat now nodeID shards =>
    rw [reportsAfter]
    split
    · exact .inl rfl
    · exact .inr ⟨now, nodeID, shards, rfl, rfl⟩
  | _ => exact .inl rfl

/-- What is known last of a shard is in one of the node's heartbeats. -/
theorem exists_report_of_lastStatus {n x : String} {status : ShardStatus}
    (h : s.lastStatus n x = some status) :
    ∃ r ∈ s.reports, r.1 = n ∧ status ∈ r.2 ∧ status.shardID = x := by
  obtain ⟨r, hr, hfind⟩ := List.exists_of_findSome?_eq_some h
  split_ifs at hfind with hn
  exact ⟨r, hr, hn, List.mem_reverse.1 (List.mem_of_find?_eq_some hfind),
    by simpa using List.find?_some hfind⟩

theorem Trusted.step {op : CoordinatorOp} (h : s.Trusted) (hC : s.Accurate op)
    (hstep : s.step op = some t) : t.Trusted := by
  obtain rfl := Option.some.inj hstep
  rcases s.reportsAfter_cases op with hsame | ⟨now, nodeID, shards, rfl, hcons⟩
  · simpa only [Trusted, Reported, lastStatus, reportedReady, hsame] using h
  · obtain ⟨hready, hall⟩ := hC
    rintro n x ⟨status, hlast, hpos⟩
    rw [lastStatus_cons hcons] at hlast
    simp only [reportedReady, hcons, List.find?_cons]
    by_cases hn : nodeID = n
    · subst hn
      rw [if_pos rfl] at hlast
      rcases Option.or_eq_some_iff.1 hlast with hfind | ⟨hnone, hbefore⟩
      · have hmem := List.mem_reverse.1 (List.mem_of_find?_eq_some hfind)
        have hisReady := hready status hmem hpos
        simpa using ⟨status, hmem, by simpa using List.find?_some hfind, hisReady⟩
      · -- The shard has been reported before, and this heartbeat leaves it out.
        obtain ⟨r, hr, hrn, hstatus, rfl⟩ := exists_report_of_lastStatus hbefore
        obtain ⟨status', hstatus', hid⟩ := hall r hr hrn status hstatus hpos
        exact absurd (List.find?_eq_none.1 hnone status' (List.mem_reverse.2 hstatus'))
          (by simpa using hid)
    · rw [if_neg hn] at hlast
      simpa [hn, reportedReady] using h n x ⟨status, hlast, hpos⟩

/-- In every history with accurate heartbeats, `CheckMigrations` moves shards only onto live
    replicas that the last heartbeats of their nodes have reported as ready. -/
theorem migrates_onto_ready (nodes : List NodeSpec) (timeout : Time) (shards : ShardMap)
    (terms : Finmap fun _ : String => ℕ) (ops : List CoordinatorOp)
    (hC : Along step Accurate (start nodes timeout shards terms) ops) :
    Along step (MovesOnto fun s n x => s.reportedReady n x = true)
      (start nodes timeout shards terms) ops := by
  have hstep : ∀ (s : Monitored) op t, s.Current ∧ s.Trusted → s.Accurate op →
      s.step op = some t → t.Current ∧ t.Trusted :=
    fun s op t h hC hst => ⟨h.1.step hst, h.2.step hC hst⟩
  have hmoves : ∀ (s : Monitored) op, s.Current ∧ s.Trusted → s.Accurate op →
      s.MovesOnto (fun s n x => s.reportedReady n x = true) op :=
    fun s op h _ => (h.1.movesOnto op).mono h.2
  have htrusted : (start nodes timeout shards terms).Trusted := by
    rintro n x ⟨status, hlast, -⟩
    cases hlast
  exact Along.mono hstep hmoves ⟨current_start nodes timeout shards terms, htrusted⟩ hC

end Monitored

/-! A shard on the nodes `a`, `b` and `c` is migrated to `b`. -/

/-- The coordinator of the example. -/
def exampleMonitored : Monitored :=
  .start [⟨"a", "a:1"⟩, ⟨"b", "b:1"⟩, ⟨"c", "c:1"⟩] 100 exampleManager.shards exampleManager.terms

/-- There is one shard, and only one order. -/
def exampleOrder : CheckOrder where
  pending := ["shard-0"]
  shards := ["shard-0"]
  finalise _ := ["shard-0"]
  split _ := ["shard-0"]

/-- `b` is at version 3, and reports that it is not ready. -/
def unreadyRun : List CoordinatorOp :=
  [.startMigration "shard-0" ["b"], .heartbeat 10 "b" [⟨"shard-0", 3, false⟩],
    .refreshLiveness 10]

/-- `b` is at version 3, and reports that it is ready. -/
def readyRun : List CoordinatorOp :=
  [.startMigration "shard-0" ["b"], .heartbeat 10 "b" [⟨"shard-0", 3, true⟩],
    .refreshLiveness 10]

/-- `b` has been ready, and does not have the shard any more. -/
def droppedRun : List CoordinatorOp :=
  [.heartbeat 10 "b" [⟨"shard-0", 3, true⟩], .heartbeat 20 "b" [],
    .startMigration "shard-0" ["b"], .refreshLiveness 20]

namespace Monitored

/-- The migration to `b` ends after the run, and `b` has last reported to be ready. -/
theorem migrates_onto_ready_readyRun :
    (exec step exampleMonitored readyRun).map (fun s =>
        (s.manager.migrations.lookup "shard-0",
          (s.manager.checkMigrations exampleOrder).migrations.lookup "shard-0")) =
        some (some ["b"], none) ∧
      Along step (MovesOnto fun s n x => s.reportedReady n x = true) exampleMonitored
        (readyRun ++ [.checkMigrations exampleOrder]) :=
  ⟨by decide +kernel, migrates_onto_ready _ _ _ _ _ (by decide +kernel)⟩

/-- The migration to `b` ends after the run, and `b` has not last reported to be ready. -/
theorem not_movesOnto_ready {run : List CoordinatorOp}
    (hrun : (exec step exampleMonitored run).map (fun s =>
      (s.manager.migrations.lookup "shard-0",
        (s.manager.checkMigrations exampleOrder).migrations.lookup "shard-0",
        s.reportedReady "b" "shard-0")) = some (some ["b"], none, false)) :
    ¬Along step (MovesOnto fun s n x => s.reportedReady n x = true) exampleMonitored
      (run ++ [.checkMigrations exampleOrder]) := by
  intro h
  obtain ⟨s, hs, heq⟩ := Option.map_eq_some_iff.1 hrun
  simp only [Prod.mk.injEq] at heq
  obtain ⟨hrecord, hgone, hready⟩ := heq
  have hmoves := (h.of_append hs).2.1 "shard-0" fun hkept => by
    rw [hkept.1, hrecord] at hgone
    cases hgone
  obtain ⟨R, hR, -, hall⟩ := hmoves
  obtain rfl := Option.some.inj (hrecord.symm.trans hR)
  exact absurd (hready.symm.trans (hall "b" List.mem_cons_self).2) (by decide)

/-- A shard is moved onto a replica that is not ready, or that its node has dropped. -/
theorem migrates_onto_unready :
    ¬Along step (MovesOnto fun s n x => s.reportedReady n x = true) exampleMonitored
        (unreadyRun ++ [.checkMigrations exampleOrder]) ∧
      ¬Along step (MovesOnto fun s n x => s.reportedReady n x = true) exampleMonitored
        (droppedRun ++ [.checkMigrations exampleOrder]) :=
  ⟨not_movesOnto_ready (by decide +kernel), not_movesOnto_ready (by decide +kernel)⟩

end Monitored

end Doki
