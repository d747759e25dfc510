import Doki.Node.Server

/-!
# Reconciliation with the shard map

A node that fetches a changed shard map adds, drops, promotes and demotes replicas in
one pass (`refetchShardMap`). If the shards of the map have distinct IDs, the result
depends on the map alone as far as it is about the assignment, and on the node alone as
far as it is about the data.

* `Configured`: a replica is what the map says of its shard. So are the replicas that
  are changed (`configured_applyShard`) and those that are new (`configured_initShard`);
* `Retains`: what a replica keeps under a new map (`retains_applyShard`);
* `Server.refetchShardMap_reconciles`: after the pass, the node hosts the shards that the
  map gives to it, each as the map says, and with what it had before.
-/

namespace Doki

namespace ReplicaState

/-- The replica is what the map of version `version` says of `shard`. -/
structure Configured (r : ReplicaState) (shard : ShardInfo) (version : ℕ) : Prop where
  peers : r.peers = shard.replicas.filter (· ≠ r.nodeID)
  leaderID : r.leaderID = shard.leader
  shardMapVersion : r.shardMapVersion = version
  role : r.role = .leader ↔ shard.leader = r.nodeID

/-- The replica `r'` has the data, the vote and the log of `r`, and the times of the last
    contact to the peers that both of them have. -/
structure Retains (r r' : ReplicaState) : Prop where
  term : r'.term = r.term
  version : r'.version = r.version
  kv : r'.kv = r.kv
  votedFor : r'.votedFor = r.votedFor
  votedForTerm : r'.votedForTerm = r.votedForTerm
  repLog : r'.repLog = r.repLog
  peerLastContact : ∀ p ∈ r'.peers, ∀ last, r.peerLastContact.lookup p = some last →
    r'.peerLastContact.lookup p = some last

/-- A map makes a replica what it says. -/
theorem configured_applyShard (r : ReplicaState) (shard : ShardInfo) (version : ℕ) (now : Time) :
    (r.applyShard shard version now).Configured shard version where
  peers := rfl
  leaderID := rfl
  shardMapVersion := rfl
  role := by
    refine ⟨leader_of_applyShard, fun hleader => ?_⟩
    change shard.leader = r.nodeID at hleader
    by_cases hrole : r.role = .leader <;> simp [applyShard, hleader, hrole]

/-- A map does not touch the data of a replica. -/
theorem retains_applyShard (r : ReplicaState) (shard : ShardInfo) (version : ℕ) (now : Time) :
    r.Retains (r.applyShard shard version now) where
  term := rfl
  version := rfl
  kv := rfl
  votedFor := rfl
  votedForTerm := rfl
  repLog := rfl
  peerLastContact p hp last hlast := by
    simp only [applyShard] at hp ⊢
    rw [Finmap.lookup_foldl_insert_self, if_pos hp, hlast, Option.getD_some]

/-- What is on disk does not change the assignment of a replica. -/
theorem Configured.loadDisk {r : ReplicaState} {shard : ShardInfo} {version : ℕ}
    (h : r.Configured shard version) (cfg : NodeConfig) (f : Files) :
    (r.loadDisk cfg f).Configured shard version := by
  have hframe : ∀ r' : ReplicaState, r'.nodeID = r.nodeID → r'.peers = r.peers →
      r'.leaderID = r.leaderID → r'.shardMapVersion = r.shardMapVersion → r'.role = r.role →
      r'.Configured shard version := fun r' hnode hpeers hleader hversion hrole =>
    ⟨by rw [hpeers, hnode, h.peers], hleader.trans h.leaderID, hversion.trans h.shardMapVersion,
      by rw [hrole, hnode, h.role]⟩
  rw [ReplicaState.loadDisk]
  split
  · exact h
  · split
    · exact hframe _ rfl rfl rfl rfl rfl
    · split_ifs <;> exact hframe _ rfl rfl rfl rfl rfl

end ReplicaState

/-- A new replica is what the map says. -/
theorem configured_initShard (cfg : NodeConfig) (shard : ShardInfo) (resp : ShardMapResponse)
    (now : Time) (f : Files) : (initShard cfg shard resp now f).Configured shard resp.version := by
  have hnew : (initReplica cfg shard resp now).Configured shard resp.version := by
    refine ⟨rfl, rfl, rfl, ?_⟩
    change (if shard.leader = cfg.nodeID then Role.leader else .follower) = .leader ↔
      shard.leader = cfg.nodeID
    split_ifs with hleader <;> simp [hleader]
  rw [initShard]
  split_ifs
  · exact hnew.loadDisk cfg f
  · exact hnew

namespace Server

variable {s : Server} {resp : ShardMapResponse}

/-- The shards that a node should host, if no two have the same ID. -/
theorem lookup_shouldHost_iff (hdistinct : (resp.shards.map (·.id)).Nodup) {x : String}
    {shard : ShardInfo} :
    (s.shouldHost resp).lookup x = some shard ↔
      shard ∈ resp.shards ∧ s.cfg.nodeID ∈ shard.replicas ∧ shard.id = x := by
  have hfiltered : ((resp.shards.filter (·.hasReplica s.cfg.nodeID)).map (·.id)).Nodup :=
    hdistinct.sublist (List.filter_sublist.map _)
  rw [shouldHost, Finmap.lookup_foldl_insert_of_nodup (fun shard => shard) hfiltered]
  simp [ShardInfo.hasReplica, and_assoc]

/-- The replicas after a pass: those of the shards that the node should host. -/
theorem lookup_refetchShardMap (hdistinct : (resp.shards.map (·.id)).Nodup) (now : Time)
    {x : String} {r' : ReplicaState} :
    (s.refetchShardMap resp now).replicas.lookup x = some r' ↔
      ∃ shard ∈ resp.shards, s.cfg.nodeID ∈ shard.replicas ∧ shard.id = x ∧
        s.refetchReplica (refetched resp) now x { shard with bootstrapSourceShardID := "" } =
          r' := by
  have hrefetched : ((refetched resp).shards.map (·.id)).Nodup := by
    rw [refetched, List.map_map]
    exact hdistinct
  simp only [refetchShardMap, Finmap.lookup_mapValues, Option.map_eq_some_iff,
    lookup_shouldHost_iff hrefetched]
  constructor
  · rintro ⟨_, ⟨hmem, hreplica, hid⟩, hr'⟩
    obtain ⟨shard, hshard, rfl⟩ := List.mem_map.1 hmem
    exact ⟨shard, hshard, hreplica, hid, hr'⟩
  · rintro ⟨shard, hshard, hreplica, hid, hr'⟩
    exact ⟨_, ⟨List.mem_map_of_mem hshard, hreplica, hid⟩, hr'⟩

/-- A replica under a map fetched again is what the map says. -/
theorem configured_refetchReplica (s : Server) (resp : ShardMapResponse) (now : Time) (x : String)
    (shard : ShardInfo) : (s.refetchReplica resp now x shard).Configured shard resp.version := by
  rw [refetchReplica]
  split
  · exact ReplicaState.configured_applyShard _ shard resp.version now
  · exact configured_initShard s.cfg shard resp now _

/-- After a pass over a map with distinct shards, the node hosts the shards that have it
    as a replica. Each of its replicas has the peers, the leader and the version of the
    map, and leads if the map says so. One that it hosted before has kept its data. -/
theorem refetchShardMap_reconciles (s : Server) (resp : ShardMapResponse) (now : Time)
    (hdistinct : (resp.shards.map (·.id)).Nodup) :
    (∀ x, x ∈ (s.refetchShardMap resp now).replicas ↔
      ∃ shard ∈ resp.shards, shard.id = x ∧ s.cfg.nodeID ∈ shard.replicas) ∧
    (∀ shard ∈ resp.shards, ∀ r',
      (s.refetchShardMap resp now).replicas.lookup shard.id = some r' →
      r'.nodeID = s.cfg.nodeID ∧ r'.Configured shard resp.version) ∧
    ∀ x r r', s.replicas.lookup x = some r →
      (s.refetchShardMap resp now).replicas.lookup x = some r' → r.Retains r' := by
  refine ⟨fun x => ?_, fun shard hshard r' hr' => ?_, fun x r r' hr hr' => ?_⟩
  · rw [← Finmap.lookup_isSome, Option.isSome_iff_exists]
    simp only [lookup_refetchShardMap hdistinct now]
    constructor
    · rintro ⟨_, shard, hshard, hreplica, hid, -⟩
      exact ⟨shard, hshard, hid, hreplica⟩
    · rintro ⟨shard, hshard, hid, hreplica⟩
      exact ⟨_, shard, hshard, hreplica, hid, rfl⟩
  · refine ⟨(s.refetchShardMap resp now).nodeID_eq _ r' hr', ?_⟩
    obtain ⟨shard', hshard', -, hid, rfl⟩ := (lookup_refetchShardMap hdistinct now).1 hr'
    obtain rfl := List.inj_on_of_nodup_map hdistinct hshard' hshard hid
    -- The source of a split is not among what the replica takes from the map.
    obtain ⟨hpeers, hleader, hversion, hrole⟩ := configured_refetchReplica s (refetched resp) now
      shard'.id { shard' with bootstrapSourceShardID := "" }
    exact ⟨hpeers, hleader, hversion, hrole⟩
  · obtain ⟨shard, -, -, -, rfl⟩ := (lookup_refetchShardMap hdistinct now).1 hr'
    rw [refetchReplica, hr]
    exact r.retains_applyShard _ _ now

/-- The node `b` hosts a shard that it comes to lead, and a new one, which it does not. -/
theorem refetchShardMap_reconciles_promoted :
    let s := (new (exampleConfig "b") fun _ => Files.empty).initShards exampleMap 0
    let led := { exampleShard with leader := "b" }
    let added := { exampleShard with id := "shard-1", replicas := ["b", "d"], leader := "d" }
    let resp := { exampleMap with version := 2, shards := [led, added] }
    (resp.shards.map (·.id)).Nodup ∧
      ∃ r', (s.refetchShardMap resp 5).replicas.lookup "shard-0" = some r' ∧
        r'.Configured led 2 := by
  intro s led added resp
  have hdistinct : (resp.shards.map (·.id)).Nodup := by decide
  obtain ⟨hhosts, hconfigured, -⟩ := refetchShardMap_reconciles s resp 5 hdistinct
  have hhosted := (hhosts "shard-0").2 ⟨led, List.mem_cons_self, rfl, by decide⟩
  obtain ⟨r', hr'⟩ := Option.isSome_iff_exists.1 (Finmap.lookup_isSome.2 hhosted)
  exact ⟨hdistinct, r', hr', (hconfigured led List.mem_cons_self r' hr').2⟩

end Server

end Doki
