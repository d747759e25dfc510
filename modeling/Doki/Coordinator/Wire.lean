import Doki.Node.Server

/-!
# The shard map on the wire

The nodes fetch the shard map over gRPC. The coordinator converts its shards to messages
(`shardInfoToProto`, in `coordinator/grpc.go`), and the node converts these back
(`shardInfoFromProto`, in `node/grpc_client.go`). A message has the ID, the leader and the
replicas of a shard; the source of a split and the replicas of a migration have no
place in it.

* `shardInfoFromProto_toProto`: what comes back;
* `refetchReplica_fromProto`: what a node makes of it is what `Server.refetchShardMap`
  makes of the map without its sources (`Server.refetched`);
* `bootstrapShardID_refetchShardMap`: no replica that a node creates from it
  knows where to start from;
* `survivesWire_iff`: the shards come back as they are exactly when there is neither a split
  nor a migration under way.
-/

namespace Doki

/-- The message `ShardInfo` of `common.proto`. -/
structure ProtoShardInfo where
  shardID : String
  replicas : List String
  leader : String
  deriving DecidableEq, Repr

def shardInfoToProto (shards : List ShardInfo) : List ProtoShardInfo :=
  shards.map fun sh => { shardID := sh.id, leader := sh.leader, replicas := sh.replicas }

def shardInfoFromProto (shards : List ProtoShardInfo) : List ShardInfo :=
  shards.map fun sh =>
    { id := sh.shardID
      leader := sh.leader
      replicas := sh.replicas
      bootstrapSourceShardID := ""
      incomingReplicas := [] }

/-- The message `GetShardMapResponse`. -/
structure ProtoShardMapResponse where
  version : ℕ
  shards : List ProtoShardInfo
  nodeAddresses : Finmap fun _ : String => String

/-- The response of the coordinator, as a message. -/
def shardMapResponseToProto (resp : ShardMapResponse) : ProtoShardMapResponse where
  version := resp.version
  shards := shardInfoToProto resp.shards
  nodeAddresses := resp.nodeAddresses

def shardMapResponseFromProto (resp : ProtoShardMapResponse) : ShardMapResponse where
  version := resp.version
  shards := shardInfoFromProto resp.shards
  nodeAddresses := resp.nodeAddresses

/-- What is left of a shard on the wire. -/
def ShardInfo.bare (sh : ShardInfo) : ShardInfo :=
  { sh with bootstrapSourceShardID := "", incomingReplicas := [] }

theorem ShardInfo.bare_eq_self_iff {sh : ShardInfo} :
    sh.bare = sh ↔ sh.bootstrapSourceShardID = "" ∧ sh.incomingReplicas = [] := by
  cases sh
  simp [bare, eq_comm]

theorem shardInfoFromProto_toProto (shards : List ShardInfo) :
    shardInfoFromProto (shardInfoToProto shards) = shards.map ShardInfo.bare := by
  rw [shardInfoFromProto, shardInfoToProto, List.map_map]
  rfl

/-! ## What a node makes of it -/

/-- The node does not look at the replicas of a migration: the map without its sources
    is as good as the one from the wire. -/
theorem refetchReplica_fromProto (s : Server) (resp : ShardMapResponse) (now : Time) (id : String)
    (sh : ShardInfo) :
    s.refetchReplica (shardMapResponseFromProto (shardMapResponseToProto resp)) now id sh.bare =
      s.refetchReplica (Server.refetched resp) now id { sh with bootstrapSourceShardID := "" } := by
  rw [Server.refetchReplica, Server.refetchReplica]
  cases s.replicas.lookup id <;> rfl

/-- What is on disk may end a bootstrap, but does not begin one. -/
theorem bootstrapShardID_loadDisk {r : ReplicaState} (h : r.bootstrapShardID = "")
    (cfg : NodeConfig) (f : Files) : (r.loadDisk cfg f).bootstrapShardID = "" := by
  rw [ReplicaState.loadDisk]
  split
  · exact h
  · split
    · exact h
    · split_ifs
      · rfl
      · exact h

/-- A replica that is created from a map fetched again does not know what it is split
    from, whatever the map of the coordinator says. -/
theorem bootstrapShardID_refetchShardMap {s : Server} {resp : ShardMapResponse} {now : Time}
    {id : String} {r : ReplicaState} (hnew : s.replicas.lookup id = none)
    (hr : (s.refetchShardMap resp now).replicas.lookup id = some r) : r.bootstrapShardID = "" := by
  rw [Server.refetchShardMap, Finmap.lookup_mapValues] at hr
  obtain ⟨sh, hsh, rfl⟩ := Option.map_eq_some_iff.1 hr
  obtain ⟨hmem, -, -⟩ := Server.lookup_shouldHost hsh
  obtain ⟨sh', -, rfl⟩ := List.mem_map.1 hmem
  rw [Server.refetchReplica, hnew]
  simp only [initShard]
  split_ifs
  · exact bootstrapShardID_loadDisk rfl s.cfg _
  · rfl

/-! ## Splits and migrations -/

/-- The shards of the coordinator come back from the wire as they are, and every
    replica that a node creates for a split has the source of the split. -/
structure SurvivesWire (shards : List ShardInfo) : Prop where
  roundTrip : shardInfoFromProto (shardInfoToProto shards) = shards
  bootstrap : ∀ (s : Server) (resp : ShardMapResponse) (now : Time), resp.shards = shards →
    ∀ sh ∈ shards, sh.bootstrapSourceShardID ≠ "" → s.replicas.lookup sh.id = none →
    ∀ r, (s.refetchShardMap resp now).replicas.lookup sh.id = some r →
      r.bootstrapShardID = sh.bootstrapSourceShardID

/-- The shards survive the wire exactly when none of them is being split or
    migrated. -/
theorem survivesWire_iff (shards : List ShardInfo) :
    SurvivesWire shards ↔
      ∀ sh ∈ shards, sh.bootstrapSourceShardID = "" ∧ sh.incomingReplicas = [] := by
  have htrip : shardInfoFromProto (shardInfoToProto shards) = shards ↔
      ∀ sh ∈ shards, sh.bootstrapSourceShardID = "" ∧ sh.incomingReplicas = [] := by
    simp only [← ShardInfo.bare_eq_self_iff]
    conv_lhs => rw [shardInfoFromProto_toProto, ← List.map_id shards, List.map_map]
    exact List.map_inj_left
  refine ⟨fun h => htrip.1 h.roundTrip, fun h => ⟨htrip.2 h, ?_⟩⟩
  intro s resp now _ sh hsh hsplit
  exact absurd (h sh hsh).1 hsplit

/-- A shard that is split from `shard-0`, to the node `d`. -/
def splitShardInfo : ShardInfo where
  id := "shard-1"
  replicas := ["d"]
  leader := ""
  bootstrapSourceShardID := "shard-0"

/-- The map of the coordinator with this shard. -/
def splitMap : ShardMapResponse where
  version := 2
  shards := [exampleShard, splitShardInfo]
  nodeAddresses := exampleMap.nodeAddresses.insert "d" "d:1"

/-- The node `d`, which has just been started. -/
def newNode : Server := .new (exampleConfig "d") fun _ => Files.empty

/-- The split is lost on the wire: the node `d` creates a replica that does not start from
    `shard-0`. -/
theorem split_lost_on_wire :
    shardInfoFromProto (shardInfoToProto splitMap.shards) ≠ splitMap.shards ∧
      ((newNode.refetchShardMap splitMap 0).replicas.lookup "shard-1").map
        ReplicaState.bootstrapShardID = some "" ∧
      ¬SurvivesWire splitMap.shards := by
  have htrip : shardInfoFromProto (shardInfoToProto splitMap.shards) ≠ splitMap.shards := by decide
  exact ⟨htrip, by decide +kernel, fun h => htrip h.roundTrip⟩

end Doki
