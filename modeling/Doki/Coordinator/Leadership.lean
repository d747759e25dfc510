import Doki.Coordinator.Migration
import Doki.Lib.Excepts

/-!
# Leaders and replicas

A shard is led by one of its replicas, or by nobody. Most operations of the coordinator
see to it: `SetLeader` accepts only a replica, `SetReplicas` clears a leader that is not
one any more, and a split begins without a leader. The first leaders come from the
static configuration (`internal/config`), which is checked when it is read. The check wants
the initial leader to be a known node, not a replica of the shard.

* `ClusterConfig.validate_ok_iff`: what the check accepts;
* `MigrationManager.allLed_apply`: no operation gives a shard a leader that is not a replica;
* `MigrationManager.leaders_are_replicas_iff`: the leaders are replicas all the time if, and
  only if, the initial ones are;
* `MigrationManager.leader_not_replica`: an accepted configuration where one is not.
-/

namespace Doki

open Runs

/-! ## The configuration of the cluster -/

/-- The parameters of the coordinator. The intervals come from those in milliseconds
    (`ClusterConfig.applyDefaults`). -/
structure CoordinatorConfig where
  address : String
  heartbeatInterval : Time := 0
  heartbeatIntervalMs : ℤ := 0
  failureTimeout : Time := 0
  failureTimeoutMs : ℤ := 0

/-- The parameters of the replication. -/
structure ReplicationConfig where
  quorumTimeoutMs : ℤ := 0
  maxLagVersions : ℤ := 0
  maxBufferedVersions : ℤ := 0

/-- The configuration of the coordinator. -/
structure ClusterConfig where
  coordinator : CoordinatorConfig
  nodes : List NodeSpec
  shards : List ShardSpec
  replication : ReplicationConfig := {}

/-- What is wrong with a configuration. -/
inductive ConfigError
  | addressRequired
  | noNodes
  | noShards
  | nodeIDRequired
  | nodeAddressRequired (nodeID : String)
  | shardIDRequired
  | noReplicas (shardID : String)
  | unknownReplica (shardID replica : String)
  | unknownInitialLeader (shardID leader : String)
  deriving DecidableEq, Repr

/-- The error's text. -/
def ConfigError.message : ConfigError → String
  | .addressRequired => "coordinator.address is required"
  | .noNodes => "at least one node must be defined"
  | .noShards => "at least one shard must be defined"
  | .nodeIDRequired => "node id is required"
  | .nodeAddressRequired nodeID => s!"node \"{nodeID}\": address is required"
  | .shardIDRequired => "shard id is required"
  | .noReplicas shardID => s!"shard \"{shardID}\": at least one replica required"
  | .unknownReplica shardID replica =>
    s!"shard \"{shardID}\": replica \"{replica}\" is not a known node"
  | .unknownInitialLeader shardID leader =>
    s!"shard \"{shardID}\": initial_leader \"{leader}\" is not a known node"

/-- Why a coordinator does not start. A shard that cannot be added is one that is in the
    configuration twice. -/
inductive StartError
  | config (e : ConfigError)
  | init (e : ShardMapError)
  deriving DecidableEq, Repr

/-- The error's text. -/
def StartError.message : StartError → String
  | .config e => "invalid cluster config: " ++ e.message
  | .init e => s!"coordinator init: init shard \"{e.shardID}\": " ++ e.message

namespace ClusterConfig

/-- An error, unless the condition holds. -/
def require (p : Prop) [Decidable p] (e : ConfigError) : Except ConfigError Unit :=
  if p then .ok () else .error e

/-- The check of a node. -/
def validateNode (n : NodeSpec) : Except ConfigError Unit := do
  require (n.id ≠ "") .nodeIDRequired
  require (n.address ≠ "") (.nodeAddressRequired n.id)

/-- The check of a shard, with the IDs of the nodes. -/
def validateShard (nodeIDs : List String) (s : ShardSpec) : Except ConfigError Unit := do
  require (s.id ≠ "") .shardIDRequired
  require (s.replicas ≠ []) (.noReplicas s.id)
  s.replicas.forM fun r => require (r ∈ nodeIDs) (.unknownReplica s.id r)
  require (s.initialLeader = "" ∨ s.initialLeader ∈ nodeIDs)
    (.unknownInitialLeader s.id s.initialLeader)

variable (c : ClusterConfig)

/-- The check of a configuration. -/
def validate : Except ConfigError Unit := do
  require (c.coordinator.address ≠ "") .addressRequired
  require (c.nodes ≠ []) .noNodes
  require (c.shards ≠ []) .noShards
  c.nodes.forM validateNode
  c.shards.forM (validateShard (c.nodes.map (·.id)))

/-- A value, or the default if it is 0. -/
def orDefault (v default : ℤ) : ℤ := if v = 0 then default else v

/-- The configuration with the defaults in place, and the intervals in nanoseconds. -/
def applyDefaults : ClusterConfig :=
  let heartbeatIntervalMs := orDefault c.coordinator.heartbeatIntervalMs 500
  let failureTimeoutMs := orDefault c.coordinator.failureTimeoutMs 1500
  { c with
    coordinator := { c.coordinator with
      heartbeatInterval := heartbeatIntervalMs * 1000000
      heartbeatIntervalMs := heartbeatIntervalMs
      failureTimeout := failureTimeoutMs * 1000000
      failureTimeoutMs := failureTimeoutMs }
    replication :=
      { quorumTimeoutMs := orDefault c.replication.quorumTimeoutMs 1000
        maxLagVersions := orDefault c.replication.maxLagVersions 1000
        maxBufferedVersions := orDefault c.replication.maxBufferedVersions 100 } }

/-- A coordinator that has not read the shards of its configuration yet. -/
def newServer : MigrationManager where
  migrations := ∅
  leader :=
    { shards := .new
      membership := .new c.nodes c.coordinator.failureTimeout
      terms := ∅ }

/-- Reading a configuration, and starting the coordinator with its shards. -/
def start : Except StartError MigrationManager :=
  match c.validate with
  | .error e => .error (.config e)
  | .ok () =>
    match c.applyDefaults.newServer.leader.initFromConfig c.applyDefaults.shards with
    | .error e => .error (.init e)
    | .ok leader => .ok { c.applyDefaults.newServer with leader := leader }

/-- The node has an ID and an address. -/
def NodeOk (n : NodeSpec) : Prop := n.id ≠ "" ∧ n.address ≠ ""

/-- The shard has an ID and replicas, and these are nodes. So is the initial leader, if
    there is one. -/
def ShardOk (nodeIDs : List String) (s : ShardSpec) : Prop :=
  s.id ≠ "" ∧ s.replicas ≠ [] ∧ (∀ r ∈ s.replicas, r ∈ nodeIDs) ∧
    (s.initialLeader = "" ∨ s.initialLeader ∈ nodeIDs)

@[simp] theorem require_ok_iff {p : Prop} [Decidable p] {e : ConfigError} :
    require p e = .ok () ↔ p := by
  by_cases hp : p <;> simp [require, hp]

/-- The check accepts a configuration with an address, nodes and shards that are all
    right. -/
theorem validate_ok_iff : c.validate = .ok () ↔
    c.coordinator.address ≠ "" ∧ c.nodes ≠ [] ∧ c.shards ≠ [] ∧ (∀ n ∈ c.nodes, NodeOk n) ∧
      ∀ s ∈ c.shards, ShardOk (c.nodes.map (·.id)) s := by
  simp only [validate, validateNode, validateShard, Except.seq_eq_ok_iff, require_ok_iff,
    Except.forM_eq_ok_iff, NodeOk, ShardOk]

variable {c} in
/-- A coordinator that has started has added all shards. -/
theorem start_ok {mm : MigrationManager} (h : c.start = .ok mm) :
    ∃ lm, c.applyDefaults.newServer.leader.initFromConfig c.shards = .ok lm ∧
      mm = { c.applyDefaults.newServer with leader := lm } := by
  rw [start] at h
  split at h
  · cases h
  · split at h
    · cases h
    · exact ⟨_, ‹_›, (Except.ok.inj h).symm⟩

end ClusterConfig

/-! ## Leaders -/

/-- The shard has no leader, or one of its replicas is. -/
def ShardInfo.Led (s : ShardInfo) : Prop := s.leader = "" ∨ s.leader ∈ s.replicas

/-- Other replicas leave no leader that is not one of them. -/
theorem ShardInfo.led_withReplicas (s : ShardInfo) (replicas : List String) :
    (s.withReplicas replicas).Led := by
  simp only [Led, withReplicas]
  split_ifs with h
  · exact .inl rfl
  · by_cases hleader : s.leader = ""
    · exact .inl hleader
    · exact .inr (not_not.1 fun hrep => h ⟨hleader, hrep⟩)

namespace ShardMap

/-- Every shard of the map has no leader, or one of its replicas is. -/
def AllLed (m : ShardMap) : Prop := ∀ x s, m.shards.lookup x = some s → s.Led

variable {m m' : ShardMap}

theorem AllLed.insert (h : m.AllLed) {s : ShardInfo} (hs : s.Led) : (m.insert s).AllLed := by
  intro x t ht
  rw [lookup_insert] at ht
  split_ifs at ht
  · exact Option.some.inj ht ▸ hs
  · exact h x t ht

/-- A new shard. -/
theorem allLed_insert_iff {s : ShardInfo} (hnew : m.shards.lookup s.id = none) :
    (m.insert s).AllLed ↔ m.AllLed ∧ s.Led := by
  refine ⟨fun h => ⟨fun x t ht => ?_, ?_⟩, fun h => h.1.insert h.2⟩
  · refine h x t ?_
    rw [lookup_insert, if_neg, ht]
    rintro rfl
    rw [hnew] at ht
    cases ht
  · refine h s.id s ?_
    rw [lookup_insert, if_pos rfl]

theorem AllLed.setLeader (h : m.AllLed) {x n : String} (hset : m.setLeader x n = .ok m') :
    m'.AllLed := by
  obtain ⟨s, -, hn, rfl⟩ := setLeader_ok hset
  exact h.insert (.inr hn)

theorem AllLed.setReplicas (h : m.AllLed) {x : String} {R : List String}
    (hset : m.setReplicas x R = .ok m') : m'.AllLed := by
  obtain ⟨s, -, rfl⟩ := update_ok hset
  exact h.insert (s.led_withReplicas R)

theorem AllLed.setIncomingReplicas (h : m.AllLed) {x : String} {R : List String}
    (hset : m.setIncomingReplicas x R = .ok m') : m'.AllLed := by
  obtain ⟨s, hs, rfl⟩ := update_ok hset
  exact h.insert (h x s hs)

theorem AllLed.clearBootstrapSource (h : m.AllLed) {x : String}
    (hclear : m.clearBootstrapSource x = .ok m') : m'.AllLed := by
  rcases clearBootstrapSource_ok hclear with rfl | ⟨s, hs, rfl⟩
  · exact h
  · exact h.insert (h x s hs)

end ShardMap

namespace LeaderManager

variable {lm lm' : LeaderManager}

theorem allLed_checkShard (h : lm.shards.AllLed) (shard : ShardInfo) :
    (lm.checkShard shard).shards.AllLed := by
  have hreassign : (lm.reassign shard).shards.AllLed := by
    rw [reassign]
    split
    · exact h
    · split
      · exact h
      · rename_i shards hset
        exact h.setLeader hset
  rw [checkShard]
  split_ifs
  · exact hreassign
  · exact hreassign
  · exact h

theorem allLed_checkAndReassign (h : lm.shards.AllLed) (order : List String) :
    (lm.checkAndReassign order).shards.AllLed :=
  List.foldlRecOn (motive := fun lm => lm.shards.AllLed) _ checkShard h
    fun _ h shard _ => allLed_checkShard h shard

/-- The shards of a configuration are led by replicas if their initial leaders are
    replicas. -/
theorem allLed_initFromConfig_iff {specs : List ShardSpec}
    (hinit : lm.initFromConfig specs = .ok lm') :
    lm'.shards.AllLed ↔ lm.shards.AllLed ∧
      ∀ spec ∈ specs, spec.initialLeader = "" ∨ spec.initialLeader ∈ spec.replicas := by
  induction specs generalizing lm with
  | nil =>
    obtain rfl := Except.ok.inj hinit
    simp
  | cons spec specs ih =>
    rw [initFromConfig, List.foldlM_cons] at hinit
    cases hadd : lm.shards.addShard
      { id := spec.id, replicas := spec.replicas, leader := spec.initialLeader,
        bootstrapSourceShardID := "" } with
    | error e =>
      rw [hadd] at hinit
      cases hinit
    | ok shards =>
      rw [hadd] at hinit
      obtain ⟨hnew, rfl⟩ := ShardMap.addShard_ok hadd
      rw [ih hinit, ShardMap.allLed_insert_iff hnew, List.forall_mem_cons, and_assoc]
      rfl

end LeaderManager

namespace MigrationManager

/-- Every shard of the coordinator has no leader, or one of its replicas is. -/
def AllLed (mm : MigrationManager) : Prop := mm.leader.shards.AllLed

variable {mm mm' : MigrationManager}

theorem allLed_finaliseMigration (h : mm.AllLed) (order : List String) (x : String)
    (R : List String) : (mm.finaliseMigration order x R).AllLed := by
  rw [finaliseMigration]
  split
  · exact h
  · rename_i shards hset
    refine LeaderManager.allLed_checkAndReassign ?_ order
    have hled := h.setReplicas hset
    cases htag : shards.setIncomingReplicas x [] with
    | error e => exact hled
    | ok shards' => exact hled.setIncomingReplicas htag

theorem allLed_checkMigration (h : mm.AllLed) (orders : String → List String)
    (m : String × List String) : (mm.checkMigration orders m).AllLed := by
  rw [checkMigration]
  split_ifs
  · exact allLed_finaliseMigration h _ _ _
  · exact h

theorem allLed_checkSplit (h : mm.AllLed) (orders : String → List String)
    (shard : ShardInfo) : (mm.checkSplit orders shard).AllLed := by
  rw [checkSplit]
  split
  · exact h
  split
  · split
    · exact h
    · rename_i shards hclear
      have hled := h.clearBootstrapSource hclear
      split
      · exact LeaderManager.allLed_checkAndReassign hled _
      · exact hled
  · exact h

theorem allLed_checkMigrations (h : mm.AllLed) (o : CheckOrder) :
    (mm.checkMigrations o).AllLed := by
  have hpending :
      ((mm.pending o.pending).foldl (fun mm m => mm.checkMigration o.finalise m) mm).AllLed :=
    List.foldlRecOn (motive := AllLed) _ _ h fun _ h m _ => allLed_checkMigration h o.finalise m
  exact List.foldlRecOn (motive := AllLed) _ _ hpending
    fun _ h shard _ => allLed_checkSplit h o.split shard

/-- No operation of the coordinator gives a shard a leader that is not a replica. -/
theorem allLed_apply (h : mm.AllLed) (op : CoordinatorOp) :
    (mm.apply op).AllLed := by
  cases op with
  | heartbeat now nodeID shards =>
    simp only [apply]
    split <;> exact h
  | refreshLiveness now => exact h
  | addNode spec => exact h
  | notifyLeader x leaderID term =>
    simp only [apply]
    cases hnotify : mm.leader.notifyLeader x leaderID term with
    | mk accepted lm =>
      cases accepted with
      | true =>
        obtain ⟨-, shards, hset, rfl⟩ := LeaderManager.notifyLeader_accepted hnotify
        exact h.setLeader hset
      | false =>
        rw [LeaderManager.notifyLeader_rejected hnotify]
        exact h
  | checkAndReassign order => exact LeaderManager.allLed_checkAndReassign h order
  | startMigration x R =>
    simp only [apply]
    cases hs : mm.leader.shards.shards.lookup x with
    | none =>
      rw [startMigration_of_none R hs]
      exact h
    | some s =>
      rw [startMigration_of_lookup R hs]
      have hled := s.led_withReplicas (widened s.replicas R)
      exact (h.insert hled).insert hled
  | checkMigrations o => exact allLed_checkMigrations h o
  | splitShard y x R =>
    simp only [apply]
    split
    · exact h
    · rename_i mm' hsplit
      obtain ⟨shards, hadd, rfl⟩ := splitShard_ok hsplit
      obtain ⟨-, rfl⟩ := ShardMap.addShard_ok hadd
      rw [LeaderManager.initTerm]
      split <;> exact h.insert (.inl rfl)

/-- The coordinator as a transition system. -/
def step (mm : MigrationManager) (op : CoordinatorOp) : Option MigrationManager :=
  some (mm.apply op)

/-- Whatever operations follow, the leaders are replicas all the time if, and only if, the
    initial ones of the configuration are. -/
theorem leaders_are_replicas_iff {cfg : ClusterConfig} (hstart : cfg.start = .ok mm)
    (ops : List CoordinatorOp) :
    Throughout step AllLed mm ops ↔
      ∀ spec ∈ cfg.shards, spec.initialLeader = "" ∨ spec.initialLeader ∈ spec.replicas := by
  have hinit : mm.AllLed ↔
      ∀ spec ∈ cfg.shards, spec.initialLeader = "" ∨ spec.initialLeader ∈ spec.replicas := by
    obtain ⟨lm, hlm, rfl⟩ := ClusterConfig.start_ok hstart
    refine (LeaderManager.allLed_initFromConfig_iff hlm).trans (and_iff_right ?_)
    intro x s hs
    simp [ClusterConfig.newServer, ShardMap.new] at hs
  have hstep : ∀ (mm : MigrationManager) op mm', mm.AllLed → True → mm.step op = some mm' →
      mm'.AllLed :=
    fun mm op mm' h _ hop => Option.some.inj hop ▸ allLed_apply h op
  rw [← hinit]
  refine ⟨fun h => ?_, fun h => throughout hstep h (Along.of_forall_mem fun _ _ => trivial)⟩
  cases ops with
  | nil => exact h
  | cons op ops => exact h.1

end MigrationManager

/-- A configuration with one shard on `a` and `b`. -/
def configWithLeader (leader : String) : ClusterConfig where
  coordinator := { address := "0.0.0.0:7000" }
  nodes := [⟨"a", "a:1"⟩, ⟨"b", "b:1"⟩, ⟨"c", "c:1"⟩]
  shards := [⟨"shard-0", ["a", "b"], leader⟩]

namespace MigrationManager

/-- `a` leads first. The shard is migrated to `c`, and split. -/
theorem leaders_are_replicas_configWithLeader :
    ∃ mm, (configWithLeader "a").start = .ok mm ∧
      Throughout step AllLed mm
        [.startMigration "shard-0" ["c"], .heartbeat 10 "c" [⟨"shard-0", 3, true⟩],
          .refreshLiveness 10, .checkMigrations exampleOrder,
          .splitShard "shard-0" "shard-1" ["c"], .checkAndReassign ["shard-0", "shard-1"]] :=
  ⟨_, rfl, (leaders_are_replicas_iff (rfl : (configWithLeader "a").start = _) _).2 (by decide)⟩

/-- The configuration makes `c` the leader, which is a node, but not a replica. -/
theorem leader_not_replica :
    ∃ mm, (configWithLeader "c").start = .ok mm ∧ ¬Throughout step AllLed mm [] :=
  ⟨_, rfl, fun h => by
    rcases h "shard-0" _ rfl with hleader | hleader <;> revert hleader <;> decide⟩

end MigrationManager

end Doki
