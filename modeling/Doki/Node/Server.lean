import Doki.Node.Recovery
import Doki.Node.Write
import Doki.ShardMap

/-!
# Servers

A node hosts some replicas, as the shard map tells it (`node/server.go`). On start,
`initShards` creates the replicas of its shards, from disk if there is a data
directory. When the map has changed, `refetchShardMap` promotes and demotes the
replicas by the leader that the map names, creates the new ones and drops those
that have gone. The term of a replica is not changed by the map.

The two responses of the coordinator differ: the map fetched again comes without
the source of a split.

* `initShard_vote`: a new replica has not voted, whatever is on disk.
-/

namespace Doki

open Faulty

/-- The configuration of a node. -/
structure NodeConfig where
  nodeID : String
  /-- A data directory is configured. -/
  dataDir : Bool
  replicationLogSize : ℤ
  snapshotInterval : ℤ
  snapshotRetention : ℤ
  leaderHeartbeat : Time

/-- The other replicas of a shard. -/
def ShardInfo.peersOf (shard : ShardInfo) (nodeID : String) : List String :=
  shard.replicas.filter (· ≠ nodeID)

/-- The address of the leader of the shard that a split starts from, `""` if there
    is none. -/
def ShardMapResponse.bootstrapAddr (resp : ShardMapResponse) (source : String) : String :=
  match resp.shards.find? fun sh => sh.id == source && sh.leader != "" with
  | some sh => (resp.nodeAddresses.lookup sh.leader).getD ""
  | none => ""

namespace ReplicaState

/-- Loading the state on disk into a new replica. If the files cannot be opened
    or read, the replica goes on without them. -/
def loadDisk (r : ReplicaState) (cfg : NodeConfig) (f : Files) : ReplicaState :=
  match DiskState.openDiskState f cfg.snapshotInterval cfg.snapshotRetention with
  | .error _ => r
  | .ok ds =>
    match ds.load with
    | .error _ => { r with ds := some ds }
    | .ok loaded =>
      if loaded.valid then
        -- Also a follower is ready then, whatever it has missed.
        { r.installed { term := loaded.term, version := loaded.version, kv := loaded.kv } with
          ds := some ds
          isReady := true
          recoveryState := .healthy
          bootstrapShardID := ""
          bootstrapLeaderAddr := "" }
      else { r with ds := some ds }

/-- Applying a shard map that has changed to an existing replica. -/
def applyShard (r : ReplicaState) (shard : ShardInfo) (version : ℕ) (now : Time) : ReplicaState :=
  let peers := shard.peersOf r.nodeID
  let promoted := shard.leader = r.nodeID ∧ r.role ≠ .leader
  let demoted := shard.leader ≠ r.nodeID ∧ r.role = .leader
  let ready := promoted ∧ r.bootstrapShardID = ""
  { r with
    leaderID := shard.leader
    peers := peers
    peerLastContact := peers.foldl
      (fun m p => m.insert p ((r.peerLastContact.lookup p).getD now)) ∅
    role := if promoted then .leader else if demoted then .follower else r.role
    -- A new leader is ready at once, unless it is still taking over a split.
    isReady := if ready then true else r.isReady
    recoveryState := if ready then .healthy else r.recoveryState
    lastLeaderContact := if shard.leader ≠ r.leaderID then now else r.lastLeaderContact
    shardMapVersion := version }

end ReplicaState

/-- A new replica of `shard`, before its state is loaded. -/
def initReplica (cfg : NodeConfig) (shard : ShardInfo) (resp : ShardMapResponse) (now : Time) :
    ReplicaState :=
  let peers := shard.peersOf cfg.nodeID
  let isLeader := shard.leader = cfg.nodeID
  let ready := isLeader ∧ shard.bootstrapSourceShardID = ""
  let r := newReplicaState shard.id cfg.nodeID peers cfg.replicationLogSize
  { r with
    peerLastContact := peers.foldl (fun m p => m.insert p now) ∅
    role := if isLeader then .leader else r.role
    isReady := if ready then true else r.isReady
    recoveryState := if ready then .healthy else r.recoveryState
    leaderID := shard.leader
    shardMapVersion := resp.version
    bootstrapShardID := shard.bootstrapSourceShardID
    bootstrapLeaderAddr :=
      if shard.bootstrapSourceShardID ≠ "" then resp.bootstrapAddr shard.bootstrapSourceShardID
      else "" }

/-- `initShardLocked`, for a shard that the node does not host yet: `f` are the
    files in its data directory. -/
def initShard (cfg : NodeConfig) (shard : ShardInfo) (resp : ShardMapResponse) (now : Time)
    (f : Files) : ReplicaState :=
  let r := initReplica cfg shard resp now
  if cfg.dataDir then r.loadDisk cfg f else r

/-- What is on disk does not tell whom the replica has voted for, nor whether it leads. -/
theorem loadDisk_eq (r : ReplicaState) (cfg : NodeConfig) (f : Files) :
    (r.loadDisk cfg f).nodeID = r.nodeID ∧ (r.loadDisk cfg f).role = r.role ∧
      (r.loadDisk cfg f).votedFor = r.votedFor ∧
      (r.loadDisk cfg f).votedForTerm = r.votedForTerm := by
  rw [ReplicaState.loadDisk]
  split
  · exact ⟨rfl, rfl, rfl, rfl⟩
  · split
    · exact ⟨rfl, rfl, rfl, rfl⟩
    · split_ifs <;> exact ⟨rfl, rfl, rfl, rfl⟩

/-- A new replica has not voted, whatever is on disk. -/
theorem initShard_vote (cfg : NodeConfig) (shard : ShardInfo) (resp : ShardMapResponse) (now : Time)
    (f : Files) :
    (initShard cfg shard resp now f).nodeID = cfg.nodeID ∧
      (initShard cfg shard resp now f).votedFor = "" ∧
      (initShard cfg shard resp now f).votedForTerm = 0 := by
  simp only [initShard]
  split_ifs
  · obtain ⟨hnode, -, hvote⟩ := loadDisk_eq (initReplica cfg shard resp now) cfg f
    exact ⟨hnode, hvote⟩
  · exact ⟨rfl, rfl, rfl⟩

/-- A node: its configuration, what it knows of the shard map, and its replicas.
    `diskFiles` are the files of the shards that it does not host. -/
structure Server where
  cfg : NodeConfig
  nodeAddresses : Finmap fun _ : String => String
  shardMapVersion : ℕ
  replicas : Finmap fun _ : String => ReplicaState
  diskFiles : String → Files
  /-- The replicas have the ID of their node. -/
  nodeID_eq : ∀ x r, replicas.lookup x = some r → r.nodeID = cfg.nodeID

namespace Server

/-- A node that has been started, with the files it has on disk. -/
def new (cfg : NodeConfig) (diskFiles : String → Files) : Server where
  cfg := cfg
  nodeAddresses := ∅
  shardMapVersion := 0
  replicas := ∅
  diskFiles := diskFiles
  nodeID_eq x r h := by simp at h

variable (s : Server)

/-- The replica of a shard, created if the node does not host the shard yet. -/
def initShardLocked (resp : ShardMapResponse) (now : Time) (shard : ShardInfo) : Server :=
  match s.replicas.lookup shard.id with
  | some _ => s
  | none =>
    { s with
      replicas := s.replicas.insert shard.id
        (initShard s.cfg shard resp now (s.diskFiles shard.id))
      nodeID_eq := fun x r h => by
        by_cases hx : x = shard.id
        · rw [hx, Finmap.lookup_insert] at h
          exact Option.some.inj h ▸ (initShard_vote _ _ _ _ _).1
        · rw [Finmap.lookup_insert_of_ne _ hx] at h
          exact s.nodeID_eq x r h }

/-- Creating the replicas of the shards that the map gives to this node. -/
def initShards (resp : ShardMapResponse) (now : Time) : Server :=
  (resp.shards.filter (·.hasReplica s.cfg.nodeID)).foldl
    (fun s shard => s.initShardLocked resp now shard)
    { s with nodeAddresses := resp.nodeAddresses, shardMapVersion := resp.version }

/-- The shards that the map gives to this node, by their ID. -/
def shouldHost (resp : ShardMapResponse) : Finmap fun _ : String => ShardInfo :=
  (resp.shards.filter (·.hasReplica s.cfg.nodeID)).foldl (fun m shard => m.insert shard.id shard) ∅

/-- The map as it is fetched again: it comes without the sources of splits. -/
def refetched (resp : ShardMapResponse) : ShardMapResponse :=
  { resp with shards := resp.shards.map fun sh => { sh with bootstrapSourceShardID := "" } }

/-- The replica of a shard under a map fetched again: changed, or new. -/
def refetchReplica (resp : ShardMapResponse) (now : Time) (id : String) (shard : ShardInfo) :
    ReplicaState :=
  match s.replicas.lookup id with
  | some r => r.applyShard shard resp.version now
  | none => initShard s.cfg shard resp now (s.diskFiles id)

/-- Applying a shard map that has been fetched again. -/
def refetchShardMap (resp : ShardMapResponse) (now : Time) : Server :=
  { s with
    nodeAddresses := resp.nodeAddresses
    shardMapVersion := resp.version
    replicas := (s.shouldHost (refetched resp)).mapValues (s.refetchReplica (refetched resp) now)
    -- A replica that is dropped leaves its files.
    diskFiles := fun id =>
      match (s.replicas.lookup id).bind (·.ds) with
      | some ds => ds.files
      | none => s.diskFiles id
    nodeID_eq := fun x r h => by
      rw [Finmap.lookup_mapValues] at h
      obtain ⟨shard, -, rfl⟩ := Option.map_eq_some_iff.1 h
      rw [refetchReplica]
      split
      · rename_i r₀ hr₀
        exact s.nodeID_eq x r₀ hr₀
      · exact (initShard_vote _ _ _ _ _).1 }

end Server

/-! ## Leaders -/

/-- The term of a replica that is created with the files `f`. -/
def diskTerm (cfg : NodeConfig) (f : Files) : ℕ :=
  if cfg.dataDir then
    match DiskState.openDiskState f cfg.snapshotInterval cfg.snapshotRetention with
    | .error _ => 0
    | .ok ds =>
      match ds.load with
      | .error _ => 0
      | .ok loaded => if loaded.valid then loaded.term else 0
  else 0

/-- The term of a new replica is the one on disk. -/
theorem term_initShard (cfg : NodeConfig) (shard : ShardInfo) (resp : ShardMapResponse)
    (now : Time) (f : Files) : (initShard cfg shard resp now f).term = diskTerm cfg f := by
  simp only [initShard, diskTerm]
  split_ifs
  · rw [ReplicaState.loadDisk]
    cases DiskState.openDiskState f cfg.snapshotInterval cfg.snapshotRetention with
    | error e => rfl
    | ok ds =>
      simp only
      split
      · rfl
      · split_ifs <;> rfl
  · rfl

namespace ReplicaState

variable {r : ReplicaState} {shard : ShardInfo} {version : ℕ} {now : Time}

/-- A replica leads under a map that names it. -/
theorem leader_of_applyShard (h : (r.applyShard shard version now).role = .leader) :
    shard.leader = r.nodeID := by
  simp only [applyShard] at h
  by_contra hne
  rw [if_neg fun h => hne h.1] at h
  split_ifs at h with hdemoted
  exact hdemoted ⟨hne, h⟩

end ReplicaState

/-- A shard that the node should host is one of the map. -/
theorem Server.lookup_shouldHost {s : Server} {resp : ShardMapResponse} {x : String}
    {shard : ShardInfo} (h : (s.shouldHost resp).lookup x = some shard) :
    shard ∈ resp.shards ∧ shard.hasReplica s.cfg.nodeID = true ∧ shard.id = x := by
  -- A shard with the same ID later in the list takes the place of an earlier one.
  rw [Server.shouldHost, Finmap.lookup_foldl_insert ShardInfo.id fun shard => shard,
    Finmap.lookup_empty, Option.or_none] at h
  obtain ⟨found, hfind, rfl⟩ := Option.map_eq_some_iff.1 h
  obtain ⟨hmem, hreplica⟩ :=
    List.mem_filter.1 (List.mem_reverse.1 (List.mem_of_find?_eq_some hfind))
  exact ⟨hmem, hreplica, by simpa using List.find?_some hfind⟩

/-! ## An example

Three nodes and a shard, for the runs on fixed inputs. -/

/-- The configuration of a node. -/
def exampleConfig (nodeID : String) : NodeConfig where
  nodeID := nodeID
  dataDir := true
  replicationLogSize := 1000
  snapshotInterval := 100
  snapshotRetention := 2
  leaderHeartbeat := 100

/-- A shard of three nodes, led by `a`. -/
def exampleShard : ShardInfo where
  id := "shard-0"
  replicas := ["a", "b", "c"]
  leader := "a"
  bootstrapSourceShardID := ""

/-- The shard map with this shard. -/
def exampleMap : ShardMapResponse where
  version := 1
  shards := [exampleShard]
  nodeAddresses := ((Finmap.singleton "a" "a:1").insert "b" "b:1").insert "c" "c:1"

end Doki
