import Doki.Lib.Finmaps
import Doki.Node.Replica
import Doki.ShardMap

/-!
# The coordinator

The coordinator follows which nodes are alive by their heartbeats (`Membership`, in
`coordinator/membership.go`), and assigns a new leader to a shard whose leader is
not (`LeaderManager`, in `coordinator/leader.go`). For every shard it counts a term of 64
bits, which goes up with every new leader. The nodes do not get to know it: the shard map
that they fetch has no terms.

* `Membership.versionForShard_recordHeartbeat` and so on: what the operations do to the
  versions that the coordinator knows. Only a heartbeat changes them;
* `LeaderManager.notifyLeader_accepted`, `LeaderManager.notifyLeader_rejected`: the two
  outcomes of a report.
-/

namespace Doki

/-- A node of the static configuration. -/
structure NodeSpec where
  id : String
  address : String

/-- A shard of the static configuration. -/
structure ShardSpec where
  id : String
  replicas : List String
  initialLeader : String

/-- What the coordinator knows of a node. -/
structure NodeStatus where
  id : String
  address : String
  isAlive : Bool
  /-- The last heartbeat, if there was one. -/
  lastHeartbeatAt : Option Time
  /-- The last version that the node has reported for each of its shards. -/
  shardVersions : Finmap fun _ : String => ℕ

/-- What a heartbeat reports of a shard. -/
structure ShardStatus where
  shardID : String
  version : ℕ
  isReady : Bool

/-- The nodes, and how long one without a heartbeat counts as alive. -/
structure Membership where
  nodes : Finmap fun _ : String => NodeStatus
  timeout : Time

namespace Membership

/-- The nodes of the configuration, none of them alive. -/
def new (nodes : List NodeSpec) (failureTimeout : Time) : Membership where
  nodes := nodes.foldl (fun m n => m.insert n.id
    { id := n.id, address := n.address, isAlive := false, lastHeartbeatAt := none,
      shardVersions := ∅ }) ∅
  timeout := failureTimeout

variable (m : Membership)

/-- A heartbeat of a node; one of an unknown node is an error. -/
def recordHeartbeat (now : Time) (nodeID : String) (shards : List ShardStatus) :
    Except String Membership :=
  match m.nodes.lookup nodeID with
  | none => .error s!"unknown node \"{nodeID}\""
  | some ns => .ok { m with
      nodes := m.nodes.insert nodeID { ns with
        lastHeartbeatAt := some now
        shardVersions := shards.foldl (fun vs s => vs.insert s.shardID s.version)
          ns.shardVersions } }

/-- Finding out which nodes are alive at `now`. -/
def refreshLiveness (now : Time) : Membership :=
  { m with
    nodes := m.nodes.mapValues fun _ ns => { ns with
      isAlive := match ns.lastHeartbeatAt with
        | none => false
        | some last => decide (now - last < m.timeout) } }

/-- Registering a node. One that is known gets the new address, and stays as it is. -/
def addNode (spec : NodeSpec) : Membership :=
  { m with
    nodes := m.nodes.insert spec.id (match m.nodes.lookup spec.id with
      | some ns => { ns with address := spec.address }
      | none =>
        { id := spec.id, address := spec.address, isAlive := false, lastHeartbeatAt := none,
          shardVersions := ∅ }) }

/-- The node is known, and alive. -/
def isAlive (nodeID : String) : Bool :=
  match m.nodes.lookup nodeID with
  | none => false
  | some ns => ns.isAlive

/-- The last version that a node has reported for a shard, `0` if it has not. -/
def versionForShard (nodeID shardID : String) : ℕ :=
  match m.nodes.lookup nodeID with
  | none => 0
  | some ns => (ns.shardVersions.lookup shardID).getD 0

/-- The addresses of the nodes. -/
def addresses : Finmap fun _ : String => String := m.nodes.mapValues fun _ ns => ns.address

/-! ### The reported versions -/

/-- A heartbeat sets the versions that it reports, and leaves the others. -/
theorem versionForShard_recordHeartbeat {m m' : Membership} {now : Time} {nodeID : String}
    {shards : List ShardStatus} (h : m.recordHeartbeat now nodeID shards = .ok m')
    (n x : String) :
    m'.versionForShard n x =
      if n = nodeID then
        ((shards.reverse.find? (·.shardID = x)).map (·.version)).getD (m.versionForShard n x)
      else m.versionForShard n x := by
  rw [recordHeartbeat] at h
  split at h
  · cases h
  · rename_i ns hns
    obtain rfl := Except.ok.inj h
    split_ifs with hn
    · subst hn
      simp only [versionForShard, Finmap.lookup_insert, hns, Finmap.lookup_foldl_insert]
      cases shards.reverse.find? (·.shardID = x) <;> rfl
    · simp only [versionForShard, Finmap.lookup_insert_of_ne _ hn]

@[simp] theorem versionForShard_refreshLiveness (now : Time) (n x : String) :
    (m.refreshLiveness now).versionForShard n x = m.versionForShard n x := by
  simp only [versionForShard, refreshLiveness, Finmap.lookup_mapValues]
  cases m.nodes.lookup n <;> rfl

@[simp] theorem versionForShard_addNode (spec : NodeSpec) (n x : String) :
    (m.addNode spec).versionForShard n x = m.versionForShard n x := by
  by_cases hn : n = spec.id
  · subst hn
    simp only [versionForShard, addNode, Finmap.lookup_insert]
    cases m.nodes.lookup spec.id <;> simp
  · simp only [versionForShard, addNode, Finmap.lookup_insert_of_ne _ hn]

/-- Of the nodes of the configuration, no version is known. -/
@[simp] theorem versionForShard_new (nodes : List NodeSpec) (timeout : Time) (n x : String) :
    (new nodes timeout).versionForShard n x = 0 := by
  simp only [versionForShard, new, Finmap.lookup_foldl_insert, Finmap.lookup_empty,
    Option.or_none]
  cases nodes.reverse.find? (·.id = n) <;> simp

end Membership

/-- The shard map and the nodes, with the current term of every shard. -/
structure LeaderManager where
  shards : ShardMap
  membership : Membership
  terms : Finmap fun _ : String => ℕ

namespace LeaderManager

variable (lm : LeaderManager)

/-- The term of a shard, `0` if it has none. -/
def termForShard (shardID : String) : ℕ := (lm.terms.lookup shardID).getD 0

/-- The shards of the configuration, in the term 1. -/
def initFromConfig (specs : List ShardSpec) : Except ShardMapError LeaderManager :=
  specs.foldlM
    (fun lm spec => do
      let shards ← lm.shards.addShard
        { id := spec.id, replicas := spec.replicas, leader := spec.initialLeader,
          bootstrapSourceShardID := "" }
      pure { lm with shards := shards, terms := lm.terms.insert spec.id 1 })
    lm

/-- One replica in the search for the best one: the one with the highest version of
    those seen so far, and that version. -/
def pickStep (shard : ShardInfo) (best : String × ℕ) (replicaID : String) : String × ℕ :=
  let v := lm.membership.versionForShard replicaID shard.id
  if replicaID = shard.leader then best
  else if lm.membership.isAlive replicaID = false then best
  -- Of several with the same version, the first one is taken.
  else if best.1 = "" ∨ v > best.2 then (replicaID, v)
  else best

/-- The best live replica that is not the leader, and the next term. -/
def pickCandidate (shard : ShardInfo) : Option (String × ℕ) :=
  let best := shard.replicas.foldl (lm.pickStep shard) ("", 0)
  if best.1 = "" then none else some (best.1, Counter.next (lm.termForShard shard.id))

/-- A new leader for a shard, if there is a candidate. -/
def reassign (shard : ShardInfo) : LeaderManager :=
  match lm.pickCandidate shard with
  | none => lm
  | some (candidate, term) =>
    match lm.shards.setLeader shard.id candidate with
    | .error _ => lm
    | .ok shards => { lm with shards := shards, terms := lm.terms.insert shard.id term }

/-- One shard in a run of `CheckAndReassign`, as it was when the run began. -/
def checkShard (shard : ShardInfo) : LeaderManager :=
  if shard.leader = "" then lm.reassign shard
  else if lm.membership.isAlive shard.leader = false then lm.reassign shard
  else lm

/-- A run of `CheckAndReassign`, with the shards in some order. -/
def checkAndReassign (order : List String) : LeaderManager :=
  (lm.shards.all order).foldl checkShard lm

/-- The term of a new shard. -/
def initTerm (shardID : String) : LeaderManager :=
  match lm.terms.lookup shardID with
  | some _ => lm
  | none => { lm with terms := lm.terms.insert shardID 1 }

/-- A node has won an election. It is accepted as the leader if the term is a newer
    one. -/
def notifyLeader (shardID leaderID : String) (term : ℕ) : Bool × LeaderManager :=
  match lm.terms.lookup shardID with
  | none => (false, lm)
  | some currentTerm =>
    if term ≤ currentTerm then (false, lm)
    else
      match lm.shards.setLeader shardID leaderID with
      | .error _ => (false, lm)
      | .ok shards => (true, { lm with shards := shards, terms := lm.terms.insert shardID term })

/-- The response to `GetShardMap`, with the shards in some order. -/
def getShardMap (order : List String) : ShardMapResponse where
  version := lm.shards.version
  shards := lm.shards.all order
  nodeAddresses := lm.membership.addresses

/-! ### Terms and reports -/

variable {lm}

/-- The terms when that of one shard is set. -/
theorem termForShard_insert {lm' : LeaderManager} {x : String} {term : ℕ}
    (h : lm'.terms = lm.terms.insert x term) (y : String) :
    lm'.termForShard y = if y = x then term else lm.termForShard y := by
  simp only [termForShard, h]
  split_ifs with hy
  · rw [hy, Finmap.lookup_insert]
    rfl
  · rw [Finmap.lookup_insert_of_ne _ hy]

/-- The term of a new shard is at most 1, and no other one changes. -/
theorem termForShard_initTerm (x y : String) :
    (lm.initTerm x).termForShard y = lm.termForShard y ∨
      (lm.termForShard y = 0 ∧ (lm.initTerm x).termForShard y = 1) := by
  rw [initTerm]
  split
  · exact .inl rfl
  · rename_i hnone
    rw [termForShard_insert rfl]
    split_ifs with hy
    · exact .inr ⟨by rw [termForShard, hy, hnone]; rfl, rfl⟩
    · exact .inl rfl

theorem le_termForShard_initTerm (x y : String) :
    lm.termForShard y ≤ (lm.initTerm x).termForShard y := by
  rcases lm.termForShard_initTerm x y with heq | ⟨hzero, -⟩
  · exact heq.ge
  · exact hzero ▸ Nat.zero_le _

/-- No term decreases when that of one shard is set to one that is not lower. -/
theorem le_termForShard_insert {lm' : LeaderManager} {x : String} {term : ℕ}
    (h : lm'.terms = lm.terms.insert x term) (hle : lm.termForShard x ≤ term) (y : String) :
    lm.termForShard y ≤ lm'.termForShard y := by
  rw [termForShard_insert h]
  split_ifs with hy
  · exact hy ▸ hle
  · exact le_rfl

/-- An accepted report is of a newer term, and takes effect. -/
theorem notifyLeader_accepted {x leader : String} {term : ℕ} {lm' : LeaderManager}
    (h : lm.notifyLeader x leader term = (true, lm')) :
    lm.termForShard x < term ∧ ∃ shards, lm.shards.setLeader x leader = .ok shards ∧
      lm' = { lm with shards := shards, terms := lm.terms.insert x term } := by
  rw [notifyLeader] at h
  split at h
  · cases h
  · rename_i currentTerm hcurrent
    split_ifs at h with hle
    · cases h
    · split at h
      · cases h
      · rename_i shards hshards
        cases h
        refine ⟨?_, shards, hshards, rfl⟩
        rw [termForShard, hcurrent]
        exact not_le.1 hle

/-- A report that is not accepted changes nothing. -/
theorem notifyLeader_rejected {x leader : String} {term : ℕ} {lm' : LeaderManager}
    (h : lm.notifyLeader x leader term = (false, lm')) : lm' = lm := by
  rw [notifyLeader] at h
  split at h
  · cases h
    rfl
  · split_ifs at h
    · cases h
      rfl
    · split at h <;> cases h
      rfl

end LeaderManager

end Doki
