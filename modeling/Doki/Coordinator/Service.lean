import Doki.Coordinator.Leadership

/-!
# The coordinator as a service

The requests that the coordinator serves (`coordinator/grpc.go` and the admin handlers of
`coordinator/server.go`), with what they check and answer, and the health monitor that
works beside them. A round of the monitor finds out which nodes are alive, looks for new
leaders if that has changed for some node, and then ends migrations. Requests are served
at any time between these stages (`Monitor`).

* `Every.apply`: a property of every shard is kept by the operations if it is kept by
  the changes that they are made of (`Kept`);
* `whereIsLeader_answers`: as long as migrations and splits are onto registered nodes, all
  replicas have an address, and a client that asks for the leader of a shard gets an
  address, or is told that there is no such shard or leader.
-/

namespace Doki

open Runs

/-! ### Requests -/

/-- The statuses that requests are refused with, of HTTP and of gRPC. -/
inductive RefusalStatus
  | badRequest
  | conflict
  | invalidArgument
  | notFound
  | internal
  deriving DecidableEq, Repr

/-- The answer to a request that is refused. -/
structure Refusal where
  status : RefusalStatus
  text : String
  deriving DecidableEq, Repr

/-- The answer to `WhereIsLeader`. -/
structure WhereIsLeaderResponse where
  leaderNodeID : String
  address : String
  term : ℕ
  deriving DecidableEq, Repr

/-- The leader of a shard, or the text of an error. -/
def ShardMap.leaderFor (m : ShardMap) (shardID : String) : Except String String :=
  match m.get shardID with
  | .error e => .error e.message
  | .ok s => if s.leader = "" then .error s!"shard \"{shardID}\" has no leader" else .ok s.leader

/-- The status of a split that is refused. -/
def SplitError.status : SplitError → RefusalStatus
  | .missingFields => .badRequest
  | .sourceNotFound => .badRequest
  | .addShard _ => .conflict

namespace MigrationManager

variable (mm : MigrationManager)

/-- A heartbeat is answered with the version of the shard map. -/
def heartbeat (now : Time) (nodeID : String) (shards : List ShardStatus) :
    Except Refusal (ℕ × MigrationManager) :=
  match mm.leader.membership.recordHeartbeat now nodeID shards with
  | .error e => .error ⟨.invalidArgument, e⟩
  | .ok membership => .ok (mm.leader.shards.version,
      { mm with leader := { mm.leader with membership := membership } })

def whereIsLeader (shardID : String) : Except Refusal WhereIsLeaderResponse :=
  match mm.leader.shards.leaderFor shardID with
  | .error e => .error ⟨.notFound, e⟩
  | .ok leader =>
    match mm.leader.membership.nodes.lookup leader with
    | none => .error ⟨.internal, "leader node not found"⟩
    | some ns => .ok ⟨leader, ns.address, mm.leader.termForShard shardID⟩

/-- The report of an election is answered with whether it is accepted, and with the
    current term. -/
def notifyLeader (shardID leaderID : String) (term : ℕ) : (Bool × ℕ) × MigrationManager :=
  let r := mm.leader.notifyLeader shardID leaderID term
  ((r.1, r.2.termForShard shardID), { mm with leader := r.2 })

def handleAdminAddNode (nodeID address : String) : Except Refusal MigrationManager :=
  if nodeID = "" ∨ address = "" then .error ⟨.badRequest, "node_id and address required"⟩
  else .ok { mm with leader := { mm.leader with
    membership := mm.leader.membership.addNode ⟨nodeID, address⟩ } }

def handleAdminMigrateShard (shardID : String) (newReplicas : List String) :
    Except Refusal MigrationManager :=
  if shardID = "" ∨ newReplicas = [] then
    .error ⟨.badRequest, "shard_id and new_replicas required"⟩
  else (mm.startMigration shardID newReplicas).mapError fun e => ⟨.badRequest, e.message⟩

def handleAdminSplitShard (sourceShardID newShardID : String) (newReplicas : List String) :
    Except Refusal MigrationManager :=
  (mm.splitShard sourceShardID newShardID newReplicas).mapError fun e => ⟨e.status, e.message⟩

end MigrationManager

/-- The requests that change something. -/
inductive ServiceRequest
  | heartbeat (now : Time) (nodeID : String) (shards : List ShardStatus)
  | notifyLeader (shardID leaderID : String) (term : ℕ)
  | addNode (nodeID address : String)
  | migrateShard (shardID : String) (newReplicas : List String)
  | splitShard (sourceShardID newShardID : String) (newReplicas : List String)

/-- The coordinator after a request. A refused one leaves it as it is. -/
def MigrationManager.serve (mm : MigrationManager) : ServiceRequest → MigrationManager
  | .heartbeat now nodeID shards =>
    ((mm.heartbeat now nodeID shards).map Prod.snd).toOption.getD mm
  | .notifyLeader shardID leaderID term => (mm.notifyLeader shardID leaderID term).2
  | .addNode nodeID address => (mm.handleAdminAddNode nodeID address).toOption.getD mm
  | .migrateShard shardID newReplicas =>
    (mm.handleAdminMigrateShard shardID newReplicas).toOption.getD mm
  | .splitShard sourceShardID newShardID newReplicas =>
    (mm.handleAdminSplitShard sourceShardID newShardID newReplicas).toOption.getD mm

/-- What a request does once it has passed the checks of its handler. -/
def ServiceRequest.op : ServiceRequest → CoordinatorOp
  | .heartbeat now nodeID shards => .heartbeat now nodeID shards
  | .notifyLeader shardID leaderID term => .notifyLeader shardID leaderID term
  | .addNode nodeID address => .addNode ⟨nodeID, address⟩
  | .migrateShard shardID newReplicas => .startMigration shardID newReplicas
  | .splitShard sourceShardID newShardID newReplicas =>
    .splitShard sourceShardID newShardID newReplicas

/-- A registered node has an ID and an address. -/
def CoordinatorOp.Named : CoordinatorOp → Prop
  | .addNode spec => spec.id ≠ "" ∧ spec.address ≠ ""
  | _ => True

theorem MigrationManager.serve_cases (mm : MigrationManager) (r : ServiceRequest) :
    mm.serve r = mm ∨ mm.serve r = mm.apply r.op ∧ r.op.Named := by
  cases r with
  | heartbeat now nodeID shards =>
    right
    refine ⟨?_, trivial⟩
    simp only [serve, heartbeat, ServiceRequest.op, apply]
    cases mm.leader.membership.recordHeartbeat now nodeID shards <;> rfl
  | notifyLeader shardID leaderID term => exact .inr ⟨rfl, trivial⟩
  | addNode nodeID address =>
    rw [serve, handleAdminAddNode]
    split_ifs with hmissing
    · exact .inl rfl
    · exact .inr ⟨rfl, not_or.1 hmissing⟩
  | migrateShard shardID newReplicas =>
    rw [serve, handleAdminMigrateShard]
    split_ifs
    · exact .inl rfl
    · refine .inr ⟨?_, trivial⟩
      rw [ServiceRequest.op, apply]
      cases mm.startMigration shardID newReplicas <;> rfl
  | splitShard sourceShardID newShardID newReplicas =>
    refine .inr ⟨?_, trivial⟩
    rw [serve, handleAdminSplitShard, ServiceRequest.op, apply]
    cases mm.splitShard sourceShardID newShardID newReplicas <;> rfl

/-! ### The health monitor -/

namespace Membership

/-- The last heartbeat is recent enough at `now`. -/
def aliveAt (m : Membership) (now : Time) (ns : NodeStatus) : Bool :=
  ns.lastHeartbeatAt.any fun last => decide (now - last < m.timeout)

/-- The list that `RefreshLiveness` returns: the nodes that have come alive or are no
    longer, in the order in which the nodes come. -/
def changed (m : Membership) (now : Time) (order : List String) : List NodeStatus :=
  (order.filterMap m.nodes.lookup).filterMap fun ns =>
    if ns.isAlive = m.aliveAt now ns then none else some { ns with isAlive := m.aliveAt now ns }

theorem lookup_refreshLiveness (m : Membership) (now : Time) (n : String) :
    (m.refreshLiveness now).nodes.lookup n =
      (m.nodes.lookup n).map fun ns => { ns with isAlive := m.aliveAt now ns } := by
  rw [refreshLiveness, Finmap.lookup_mapValues]
  refine congrArg (Option.map · _) (funext fun ns => ?_)
  cases ns with
  | mk id address isAlive lastHeartbeatAt shardVersions => cases lastHeartbeatAt <;> rfl

end Membership

/-- Where a round of the monitor is. -/
inductive MonitorStage
  | waiting
  | refreshed (changed : List NodeStatus)
  | checked

/-- The coordinator with its health monitor. -/
structure Monitor where
  coordinator : MigrationManager
  stage : MonitorStage

/-- A request, or the next stage of a round. The nodes and shards come in some order. -/
inductive MonitorAction
  | serve (r : ServiceRequest)
  | refreshLiveness (now : Time) (order : List String)
  | checkAndReassign (order : List String)
  | checkMigrations (o : CheckOrder)

/-- The operation on the coordinator that an action is. -/
def MonitorAction.op : MonitorAction → CoordinatorOp
  | .serve r => r.op
  | .refreshLiveness now _ => .refreshLiveness now
  | .checkAndReassign order => .checkAndReassign order
  | .checkMigrations o => .checkMigrations o

namespace Monitor

def step (s : Monitor) : MonitorAction → Option Monitor
  | .serve r => some { s with coordinator := s.coordinator.serve r }
  | .refreshLiveness now order =>
    match s.stage with
    | .waiting => some
      { coordinator := s.coordinator.apply (.refreshLiveness now)
        stage := .refreshed (s.coordinator.leader.membership.changed now order) }
    | _ => none
  | .checkAndReassign order =>
    match s.stage with
    -- Leaders are looked for only if a node has come alive or is no longer.
    | .refreshed [] => some { s with stage := .checked }
    | .refreshed (_ :: _) => some
      { coordinator := s.coordinator.apply (.checkAndReassign order), stage := .checked }
    | _ => none
  | .checkMigrations o =>
    match s.stage with
    | .checked => some { coordinator := s.coordinator.checkMigrations o, stage := .waiting }
    | _ => none

variable {s t : Monitor}

theorem step_refreshLiveness {now : Time} {order : List String}
    (h : s.step (.refreshLiveness now order) = some t) :
    s.stage = .waiting ∧ t.coordinator = s.coordinator.apply (.refreshLiveness now) ∧
      t.stage = .refreshed (s.coordinator.leader.membership.changed now order) := by
  rw [step] at h
  split at h
  · cases h
    exact ⟨‹_›, rfl, rfl⟩
  · cases h

theorem step_checkAndReassign {order : List String}
    (h : s.step (.checkAndReassign order) = some t) :
    t.stage = .checked ∧ ∃ changed, s.stage = .refreshed changed ∧
      (changed = [] ∧ t.coordinator = s.coordinator ∨
        changed ≠ [] ∧ t.coordinator = s.coordinator.apply (.checkAndReassign order)) := by
  rw [step] at h
  split at h
  · cases h
    exact ⟨rfl, [], ‹_›, .inl ⟨rfl, rfl⟩⟩
  · cases h
    exact ⟨rfl, _, ‹_›, .inr ⟨List.cons_ne_nil _ _, rfl⟩⟩
  · cases h

theorem step_checkMigrations {o : CheckOrder} (h : s.step (.checkMigrations o) = some t) :
    s.stage = .checked ∧ t.coordinator = s.coordinator.apply (.checkMigrations o) ∧
      t.stage = .waiting := by
  rw [step] at h
  split at h
  · cases h
    exact ⟨‹_›, rfl, rfl⟩
  · cases h

/-- Every action is an operation of the coordinator, or leaves it as it is. -/
theorem step_apply {a : MonitorAction} (h : s.step a = some t) :
    t.coordinator = s.coordinator ∨
      t.coordinator = s.coordinator.apply a.op ∧ a.op.Named := by
  cases a with
  | serve r =>
    cases h
    exact s.coordinator.serve_cases r
  | refreshLiveness now order => exact .inr ⟨(step_refreshLiveness h).2.1, trivial⟩
  | checkAndReassign order =>
    obtain ⟨-, changed, -, ⟨-, hsame⟩ | ⟨-, happly⟩⟩ := step_checkAndReassign h
    · exact .inl hsame
    · exact .inr ⟨happly, trivial⟩
  | checkMigrations o => exact .inr ⟨(step_checkMigrations h).2.1, trivial⟩

end Monitor

/-! ### Properties of every shard -/

/-- A property of shards is kept by the changes that the operations are made of. The nodes
    that a migration or a split is to are `fresh`. -/
structure ShardInfo.Kept (Q : ShardInfo → Prop) (fresh : List String → Prop) : Prop where
  leader : ∀ s n, Q s → n ∈ s.replicas → Q { s with leader := n }
  replicas : ∀ s R, Q s → fresh R → Q (s.withReplicas R)
  widened : ∀ s R, Q s → fresh R → Q (s.withReplicas (widened s.replicas R))
  incoming : ∀ s R, Q s → Q { s with incomingReplicas := R }
  bootstrap : ∀ s, Q s → Q { s with bootstrapSourceShardID := "" }
  split : ∀ x y R, fresh R →
    Q { id := x, replicas := R, leader := "", bootstrapSourceShardID := y }

/-- The nodes that the operation brings in are `fresh`. -/
def CoordinatorOp.Brings (fresh : List String → Prop) : CoordinatorOp → Prop
  | .startMigration _ newReplicas => fresh newReplicas
  | .splitShard _ _ newReplicas => fresh newReplicas
  | _ => True

instance (fresh : List String → Prop) [DecidablePred fresh] :
    (op : CoordinatorOp) → Decidable (op.Brings fresh)
  | .startMigration _ newReplicas => inferInstanceAs (Decidable (fresh newReplicas))
  | .splitShard _ _ newReplicas => inferInstanceAs (Decidable (fresh newReplicas))
  | .heartbeat _ _ _ | .refreshLiveness _ | .addNode _ | .notifyLeader _ _ _
  | .checkAndReassign _ | .checkMigrations _ => .isTrue trivial

def ShardMap.Every (Q : ShardInfo → Prop) (m : ShardMap) : Prop :=
  ∀ x s, m.shards.lookup x = some s → Q s

/-- Every shard has the property, and the pending migrations are to `fresh` nodes. -/
structure MigrationManager.Every (Q : ShardInfo → Prop) (fresh : List String → Prop)
    (mm : MigrationManager) : Prop where
  shards : mm.leader.shards.Every Q
  pending : ∀ x R, mm.migrations.lookup x = some R → fresh R

section

variable {Q : ShardInfo → Prop} {fresh : List String → Prop}

theorem ShardMap.Every.insert {m : ShardMap} (h : m.Every Q) {s : ShardInfo} (hs : Q s) :
    (m.insert s).Every Q := by
  intro x t ht
  rw [ShardMap.lookup_insert] at ht
  split_ifs at ht
  · exact Option.some.inj ht ▸ hs
  · exact h x t ht

variable (hQ : ShardInfo.Kept Q fresh)

include hQ

theorem ShardMap.Every.setLeader {m m' : ShardMap} (h : m.Every Q) {x n : String}
    (hset : m.setLeader x n = .ok m') : m'.Every Q := by
  obtain ⟨s, hs, hn, rfl⟩ := setLeader_ok hset
  exact h.insert (hQ.leader s n (h x s hs) hn)

theorem LeaderManager.every_checkAndReassign {lm : LeaderManager} (h : lm.shards.Every Q)
    (order : List String) : (lm.checkAndReassign order).shards.Every Q := by
  have hreassign : ∀ (lm : LeaderManager) (shard : ShardInfo), lm.shards.Every Q →
      (lm.reassign shard).shards.Every Q := by
    intro lm shard h
    rw [reassign]
    split
    · exact h
    · split
      · exact h
      · rename_i shards hset
        exact h.setLeader hQ hset
  refine List.foldlRecOn (motive := fun lm => lm.shards.Every Q) _ checkShard h
    fun lm h shard _ => ?_
  rw [checkShard]
  split_ifs
  · exact hreassign lm shard h
  · exact hreassign lm shard h
  · exact h

namespace MigrationManager

variable {mm : MigrationManager}

theorem Every.checkMigration (h : mm.Every Q fresh) (orders : String → List String)
    {m : String × List String} (hm : fresh m.2) : (mm.checkMigration orders m).Every Q fresh := by
  rw [MigrationManager.checkMigration]
  split_ifs
  · rcases hs : mm.leader.shards.shards.lookup m.1 with _ | s
    · rw [mm.finaliseMigration_of_none _ _ hs]
      exact h
    · rw [mm.finaliseMigration_of_lookup _ _ hs]
      have hmoved := hQ.replicas s m.2 (h.shards m.1 s hs) hm
      refine ⟨LeaderManager.every_checkAndReassign hQ ?_ _, fun x R hR => ?_⟩
      · exact (h.shards.insert hmoved).insert (hQ.incoming _ [] hmoved)
      · dsimp only at hR
        by_cases hx : x = m.1
        · rw [hx, Finmap.lookup_erase] at hR
          cases hR
        · rw [Finmap.lookup_erase_ne hx] at hR
          exact h.pending x R hR
  · exact h

theorem Every.checkSplit (h : mm.Every Q fresh) (orders : String → List String)
    (shard : ShardInfo) : (mm.checkSplit orders shard).Every Q fresh := by
  rw [MigrationManager.checkSplit]
  split
  · exact h
  split
  · split
    · exact h
    · rename_i shards hclear
      have hshards : shards.Every Q := by
        rcases ShardMap.clearBootstrapSource_ok hclear with rfl | ⟨s, hs, rfl⟩
        · exact h.shards
        · exact h.shards.insert (hQ.bootstrap s (h.shards _ s hs))
      split
      · exact ⟨LeaderManager.every_checkAndReassign hQ hshards _, h.pending⟩
      · exact ⟨hshards, h.pending⟩
  · exact h

theorem Every.checkMigrations (h : mm.Every Q fresh) (o : CheckOrder) :
    (mm.checkMigrations o).Every Q fresh := by
  have hpending : ((mm.pending o.pending).foldl
      (fun mm m => mm.checkMigration o.finalise m) mm).Every Q fresh :=
    List.foldlRecOn (motive := MigrationManager.Every Q fresh) _ _ h fun _ h' m hm =>
      h'.checkMigration hQ o.finalise (h.pending m.1 m.2 (lookup_of_mem_pending hm))
  exact List.foldlRecOn (motive := MigrationManager.Every Q fresh) _ _ hpending
    fun _ h shard _ => h.checkSplit hQ o.split shard

/-- The operations keep a property of every shard. -/
theorem Every.apply (h : mm.Every Q fresh) {op : CoordinatorOp} (hop : op.Brings fresh) :
    (mm.apply op).Every Q fresh := by
  cases op with
  | heartbeat now nodeID shards =>
    simp only [MigrationManager.apply]
    split <;> exact ⟨h.shards, h.pending⟩
  | refreshLiveness now => exact ⟨h.shards, h.pending⟩
  | addNode spec => exact ⟨h.shards, h.pending⟩
  | notifyLeader x leaderID term =>
    simp only [MigrationManager.apply]
    cases hnotify : mm.leader.notifyLeader x leaderID term with
    | mk accepted lm =>
      cases accepted with
      | true =>
        obtain ⟨-, shards, hset, rfl⟩ := LeaderManager.notifyLeader_accepted hnotify
        exact ⟨h.shards.setLeader hQ hset, h.pending⟩
      | false =>
        rw [LeaderManager.notifyLeader_rejected hnotify]
        exact h
  | checkAndReassign order =>
    exact ⟨LeaderManager.every_checkAndReassign hQ h.shards order, h.pending⟩
  | startMigration x R =>
    simp only [MigrationManager.apply]
    cases hs : mm.leader.shards.shards.lookup x with
    | none =>
      rw [startMigration_of_none R hs]
      exact h
    | some s =>
      rw [startMigration_of_lookup R hs]
      have hwide := hQ.widened s R (h.shards x s hs) hop
      refine ⟨(h.shards.insert hwide).insert (hQ.incoming _ R hwide), fun y R' hR' => ?_⟩
      dsimp only at hR'
      by_cases hy : y = x
      · rw [hy, Finmap.lookup_insert] at hR'
        exact Option.some.inj hR' ▸ hop
      · rw [Finmap.lookup_insert_of_ne _ hy] at hR'
        exact h.pending y R' hR'
  | checkMigrations o => exact h.checkMigrations hQ o
  | splitShard y x R =>
    simp only [MigrationManager.apply]
    split
    · exact h
    · rename_i mm' hsplit
      obtain ⟨shards, hadd, rfl⟩ := splitShard_ok hsplit
      obtain ⟨-, rfl⟩ := ShardMap.addShard_ok hadd
      refine ⟨?_, h.pending⟩
      rw [LeaderManager.initTerm]
      split <;> exact h.shards.insert (hQ.split x y R hop)

end MigrationManager

end

/-! ### What the operations do to the nodes -/

/-- The nodes after an operation. -/
def CoordinatorOp.membership (m : Membership) : CoordinatorOp → Membership
  | .heartbeat now nodeID shards => (m.recordHeartbeat now nodeID shards).toOption.getD m
  | .refreshLiveness now => m.refreshLiveness now
  | .addNode spec => m.addNode spec
  | _ => m

theorem MigrationManager.membership_apply (mm : MigrationManager) (op : CoordinatorOp) :
    (mm.apply op).leader.membership = op.membership mm.leader.membership := by
  cases op with
  | heartbeat now nodeID shards =>
    rw [apply, CoordinatorOp.membership]
    cases mm.leader.membership.recordHeartbeat now nodeID shards <;> rfl
  | refreshLiveness now => rfl
  | addNode spec => rfl
  | notifyLeader x leaderID term =>
    simp only [apply, CoordinatorOp.membership]
    cases hnotify : mm.leader.notifyLeader x leaderID term with
    | mk accepted lm =>
      cases accepted with
      | true =>
        obtain ⟨-, shards, -, rfl⟩ := LeaderManager.notifyLeader_accepted hnotify
        rfl
      | false => rw [LeaderManager.notifyLeader_rejected hnotify]
  | checkAndReassign order => exact (LeaderManager.checkAndReassign_frame _ order).membership
  | startMigration x R =>
    simp only [apply, CoordinatorOp.membership]
    cases hs : mm.leader.shards.shards.lookup x with
    | none => rw [startMigration_of_none R hs]
    | some s =>
      rw [startMigration_of_lookup R hs]
      rfl
  | checkMigrations o => exact (mm.checked_checkMigrations o).membership
  | splitShard y x R =>
    simp only [apply, CoordinatorOp.membership]
    split
    · rfl
    · rename_i mm' hsplit
      obtain ⟨shards, -, rfl⟩ := splitShard_ok hsplit
      rw [LeaderManager.initTerm]
      split <;> rfl

/-! ### Registered nodes -/

/-- No node has the ID `""`, and all nodes have an address. -/
structure Membership.WellNamed (m : Membership) : Prop where
  named : "" ∉ m.nodes
  addressed : ∀ n ns, m.nodes.lookup n = some ns → ns.address ≠ ""

namespace Membership

variable {m : Membership}

theorem WellNamed.insert (h : m.WellNamed) {n : String} {ns : NodeStatus} (hn : n ≠ "")
    (hns : ns.address ≠ "") : ({ m with nodes := m.nodes.insert n ns } : Membership).WellNamed := by
  refine ⟨fun hmem => ?_, fun n' ns' hlookup => ?_⟩
  · rw [Finmap.mem_insert] at hmem
    exact hmem.elim (fun h => hn h.symm) h.named
  · dsimp only at hlookup
    by_cases hn' : n' = n
    · rw [hn', Finmap.lookup_insert] at hlookup
      exact Option.some.inj hlookup ▸ hns
    · rw [Finmap.lookup_insert_of_ne _ hn'] at hlookup
      exact h.addressed n' ns' hlookup

theorem WellNamed.op (h : m.WellNamed) {op : CoordinatorOp} (hop : op.Named) :
    (op.membership m).WellNamed := by
  cases op with
  | heartbeat now nodeID shards =>
    rw [CoordinatorOp.membership, recordHeartbeat]
    cases hns : m.nodes.lookup nodeID with
    | none => exact h
    | some ns =>
      refine h.insert ?_ (h.addressed nodeID ns hns)
      rintro rfl
      exact h.named (Finmap.mem_of_lookup_eq_some hns)
  | refreshLiveness now =>
    refine ⟨fun hmem => h.named ?_, fun n ns hlookup => ?_⟩
    · rw [← Finmap.lookup_isSome, CoordinatorOp.membership, lookup_refreshLiveness,
        Option.isSome_map, Finmap.lookup_isSome] at hmem
      exact hmem
    · rw [CoordinatorOp.membership, lookup_refreshLiveness] at hlookup
      obtain ⟨ns', hns', rfl⟩ := Option.map_eq_some_iff.1 hlookup
      exact h.addressed n ns' hns'
  | addNode spec =>
    refine h.insert hop.1 ?_
    cases m.nodes.lookup spec.id <;> exact hop.2
  | notifyLeader | checkAndReassign | startMigration | checkMigrations | splitShard => exact h

/-- Nodes stay registered. -/
theorem mem_op {n : String} (h : n ∈ m.nodes) (op : CoordinatorOp) :
    n ∈ (op.membership m).nodes := by
  cases op with
  | heartbeat now nodeID shards =>
    rw [CoordinatorOp.membership, recordHeartbeat]
    cases m.nodes.lookup nodeID with
    | none => exact h
    | some ns => exact Finmap.mem_insert.2 (.inr h)
  | refreshLiveness now =>
    rw [← Finmap.lookup_isSome, CoordinatorOp.membership, lookup_refreshLiveness,
      Option.isSome_map]
    exact Finmap.lookup_isSome.2 h
  | addNode spec => exact Finmap.mem_insert.2 (.inr h)
  | notifyLeader | checkAndReassign | startMigration | checkMigrations | splitShard => exact h

theorem lookup_new (nodes : List NodeSpec) (timeout : Time) (n : String) :
    (new nodes timeout).nodes.lookup n = (nodes.reverse.find? (·.id = n)).map fun spec =>
      { id := spec.id, address := spec.address, isAlive := false, lastHeartbeatAt := none,
        shardVersions := ∅ } := by
  simp only [new, Finmap.lookup_foldl_insert, Finmap.lookup_empty, Option.or_none]

theorem mem_new {nodes : List NodeSpec} {timeout : Time} {n : String} :
    n ∈ (new nodes timeout).nodes ↔ ∃ spec ∈ nodes, spec.id = n := by
  rw [← Finmap.lookup_isSome, lookup_new, Option.isSome_map, List.find?_isSome]
  simp only [List.mem_reverse, decide_eq_true_eq]

theorem wellNamed_new {nodes : List NodeSpec} (timeout : Time)
    (h : ∀ spec ∈ nodes, ClusterConfig.NodeOk spec) : (new nodes timeout).WellNamed := by
  refine ⟨fun hmem => ?_, fun n ns hlookup => ?_⟩
  · obtain ⟨spec, hspec, hid⟩ := mem_new.1 hmem
    exact (h spec hspec).1 hid
  · rw [lookup_new] at hlookup
    obtain ⟨spec, hfind, rfl⟩ := Option.map_eq_some_iff.1 hlookup
    exact (h spec (List.mem_reverse.1 (List.mem_of_find?_eq_some hfind))).2

end Membership

/-- The replicas and the leader, if there is one, satisfy `P`. -/
def ShardInfo.Names (P : String → Prop) (s : ShardInfo) : Prop :=
  (∀ r ∈ s.replicas, P r) ∧ (s.leader = "" ∨ P s.leader)

theorem ShardInfo.kept_names (P : String → Prop) :
    ShardInfo.Kept (ShardInfo.Names P) fun R => ∀ r ∈ R, P r := by
  have hwith : ∀ (s : ShardInfo) (R : List String), s.Names P → (∀ r ∈ R, P r) →
      (s.withReplicas R).Names P := by
    intro s R hs hR
    refine ⟨hR, ?_⟩
    rw [withReplicas]
    dsimp only
    split_ifs
    · exact .inl rfl
    · exact hs.2
  refine ⟨fun s n hs hn => ⟨hs.1, .inr (hs.1 n hn)⟩, hwith, fun s R hs hR => ?_, fun s R hs => hs,
    fun s hs => hs, fun x y R hR => ⟨hR, .inl rfl⟩⟩
  refine hwith s _ hs fun r hr => ?_
  rcases List.mem_append.1 hr with hold | hnew
  · exact hs.1 r hold
  · exact hR r (List.mem_filter.1 hnew).1

namespace MigrationManager

/-- All nodes that shards and pending migrations name are registered, and registered
    nodes have an ID and an address. -/
structure Registered (mm : MigrationManager) : Prop where
  nodes : mm.leader.membership.WellNamed
  every : mm.Every (ShardInfo.Names (· ∈ mm.leader.membership.nodes))
    fun R => ∀ r ∈ R, r ∈ mm.leader.membership.nodes

theorem Registered.apply {mm : MigrationManager} (h : mm.Registered) {op : CoordinatorOp}
    (hnamed : op.Named)
    (hop : op.Brings fun R => ∀ r ∈ R, r ∈ mm.leader.membership.nodes) :
    (mm.apply op).Registered := by
  have hevery := h.every.apply (ShardInfo.kept_names _) hop
  have hmem : ∀ n, n ∈ mm.leader.membership.nodes →
      n ∈ (mm.apply op).leader.membership.nodes := fun n hn => by
    rw [membership_apply]
    exact Membership.mem_op hn op
  refine ⟨?_, fun x s hs => ?_, fun x R hR r hr => hmem r (hevery.pending x R hR r hr)⟩
  · rw [membership_apply]
    exact h.nodes.op hnamed
  · obtain ⟨hreplicas, hleader⟩ := hevery.shards x s hs
    exact ⟨fun r hr => hmem r (hreplicas r hr), hleader.imp_right (hmem _)⟩

end MigrationManager

/-- A shard of the configuration in the shard map. -/
def ShardSpec.info (spec : ShardSpec) : ShardInfo :=
  { id := spec.id, replicas := spec.replicas, leader := spec.initialLeader,
    bootstrapSourceShardID := "" }

/-- The shards of a configuration have a property that all shards added have. -/
theorem LeaderManager.every_initFromConfig {Q : ShardInfo → Prop} {specs : List ShardSpec}
    {lm lm' : LeaderManager} (h : lm.shards.Every Q)
    (hspecs : ∀ spec ∈ specs, Q spec.info)
    (hinit : lm.initFromConfig specs = .ok lm') :
    lm'.shards.Every Q ∧ lm'.membership = lm.membership := by
  induction specs generalizing lm with
  | nil =>
    obtain rfl := Except.ok.inj hinit
    exact ⟨h, rfl⟩
  | cons spec specs ih =>
    obtain ⟨hspec, hspecs⟩ := List.forall_mem_cons.1 hspecs
    rw [initFromConfig, List.foldlM_cons] at hinit
    change (lm.shards.addShard spec.info >>= _) >>= _ = _ at hinit
    cases hadd : lm.shards.addShard spec.info with
    | error e =>
      rw [hadd] at hinit
      cases hinit
    | ok shards =>
      rw [hadd] at hinit
      obtain ⟨-, rfl⟩ := ShardMap.addShard_ok hadd
      obtain ⟨hevery, hmembership⟩ := ih (h.insert hspec) hspecs hinit
      exact ⟨hevery, hmembership⟩

namespace ClusterConfig

variable {cfg : ClusterConfig} {mm : MigrationManager}

theorem validate_of_start (hstart : cfg.start = .ok mm) : cfg.validate = .ok () := by
  cases hvalidate : cfg.validate with
  | error e =>
    rw [start, hvalidate] at hstart
    cases hstart
  | ok u => rfl

theorem registered_start (hstart : cfg.start = .ok mm) : mm.Registered := by
  obtain ⟨-, -, -, hnodes, hshards⟩ := cfg.validate_ok_iff.1 (validate_of_start hstart)
  obtain ⟨lm, hlm, rfl⟩ := start_ok hstart
  have hmem : ∀ n ∈ cfg.nodes.map (·.id),
      n ∈ cfg.applyDefaults.newServer.leader.membership.nodes := fun n hn => by
    obtain ⟨spec, hspec, hid⟩ := List.mem_map.1 hn
    exact Membership.mem_new.2 ⟨spec, hspec, hid⟩
  have hspecs : ∀ spec ∈ cfg.shards, spec.info.Names
      (· ∈ cfg.applyDefaults.newServer.leader.membership.nodes) := fun spec hspec => by
    obtain ⟨-, -, hreplicas, hleader⟩ := hshards spec hspec
    exact ⟨fun r hr => hmem r (hreplicas r hr), hleader.imp_right (hmem _)⟩
  have hempty : cfg.applyDefaults.newServer.leader.shards.Every
      (ShardInfo.Names (· ∈ cfg.applyDefaults.newServer.leader.membership.nodes)) :=
    fun x s hs => absurd hs (by simp [newServer, ShardMap.new])
  obtain ⟨hevery, hmembership⟩ := LeaderManager.every_initFromConfig hempty hspecs hlm
  rw [← hmembership] at hevery
  refine ⟨?_, hevery, fun x R hR => absurd hR (by simp [newServer])⟩
  change lm.membership.WellNamed
  rw [hmembership]
  exact Membership.wellNamed_new _ hnodes

end ClusterConfig

/-! ### Asking for leaders -/

namespace MigrationManager

variable {mm : MigrationManager} {x : String} {s : ShardInfo}

theorem whereIsLeader_of_none (hs : mm.leader.shards.shards.lookup x = none) :
    mm.whereIsLeader x = .error ⟨.notFound, (ShardMapError.notFound x).message⟩ := by
  simp only [whereIsLeader, ShardMap.leaderFor, ShardMap.get, hs]

theorem whereIsLeader_of_unled (hs : mm.leader.shards.shards.lookup x = some s)
    (hleader : s.leader = "") :
    mm.whereIsLeader x = .error ⟨.notFound, s!"shard \"{x}\" has no leader"⟩ := by
  simp only [whereIsLeader, ShardMap.leaderFor, ShardMap.get, hs, hleader, if_true]

theorem whereIsLeader_of_leader (hs : mm.leader.shards.shards.lookup x = some s)
    (hleader : s.leader ≠ "") {ns : NodeStatus}
    (hns : mm.leader.membership.nodes.lookup s.leader = some ns) :
    mm.whereIsLeader x = .ok ⟨s.leader, ns.address, mm.leader.termForShard x⟩ := by
  simp only [whereIsLeader, ShardMap.leaderFor, ShardMap.get, hs, hleader, if_false, hns]

end MigrationManager

namespace Monitor

/-- Migrations and splits are onto registered nodes. -/
def Informed (s : Monitor) (a : MonitorAction) : Prop :=
  a.op.Brings fun R => ∀ r ∈ R, r ∈ s.coordinator.leader.membership.nodes

instance (s : Monitor) (a : MonitorAction) : Decidable (s.Informed a) :=
  inferInstanceAs (Decidable (a.op.Brings _))

variable {s t : Monitor}

theorem registered_step {a : MonitorAction} (h : s.coordinator.Registered) (ha : s.Informed a)
    (hstep : s.step a = some t) : t.coordinator.Registered := by
  rcases step_apply hstep with hsame | ⟨happly, hnamed⟩
  · rwa [hsame]
  · rw [happly]
    exact h.apply hnamed ha

/-- The coordinator when its monitor begins. -/
def initial (mm : MigrationManager) : Monitor := ⟨mm, .waiting⟩

/-- In every run in which migrations and splits are onto registered nodes, the replicas of
    a shard have addresses. Who asks for the leader of a shard gets the address of the
    leader, unless there is no such shard, or it has no leader. -/
theorem whereIsLeader_answers {cfg : ClusterConfig} {mm : MigrationManager}
    (hstart : cfg.start = .ok mm) {as : List MonitorAction}
    (has : Along step Informed (initial mm) as) (hend : exec step (initial mm) as = some t)
    (x : String) :
    (∀ s r, t.coordinator.leader.shards.shards.lookup x = some s → r ∈ s.replicas →
      ∃ address, address ≠ "" ∧
        t.coordinator.leader.membership.addresses.lookup r = some address) ∧
    (∀ resp, t.coordinator.whereIsLeader x = .ok resp →
      ∃ s, t.coordinator.leader.shards.shards.lookup x = some s ∧
        resp.leaderNodeID = s.leader ∧ resp.address ≠ "" ∧
        t.coordinator.leader.membership.addresses.lookup s.leader = some resp.address) ∧
    ∀ e, t.coordinator.whereIsLeader x = .error e → e.status = .notFound ∧
      ∀ s, t.coordinator.leader.shards.shards.lookup x = some s → s.leader = "" := by
  have hreg : t.coordinator.Registered :=
    invariant (fun s a t h ha hstep => registered_step h ha hstep)
      (ClusterConfig.registered_start hstart) has hend
  have haddress : ∀ n ∈ t.coordinator.leader.membership.nodes, ∃ ns,
      t.coordinator.leader.membership.nodes.lookup n = some ns ∧ ns.address ≠ "" ∧
        t.coordinator.leader.membership.addresses.lookup n = some ns.address := by
    intro n hn
    obtain ⟨ns, hns⟩ := Finmap.mem_iff.1 hn
    refine ⟨ns, hns, hreg.nodes.addressed n ns hns, ?_⟩
    rw [Membership.addresses, Finmap.lookup_mapValues, hns, Option.map_some]
  refine ⟨fun s r hs hr => ?_, ?_⟩
  · obtain ⟨ns, -, hne, hns⟩ := haddress r ((hreg.every.shards x s hs).1 r hr)
    exact ⟨ns.address, hne, hns⟩
  rcases hs : t.coordinator.leader.shards.shards.lookup x with _ | s
  · rw [MigrationManager.whereIsLeader_of_none hs]
    refine ⟨fun resp h => (by cases h), fun e h => ?_⟩
    cases h
    exact ⟨rfl, fun s hs => by cases hs⟩
  by_cases hleader : s.leader = ""
  · rw [MigrationManager.whereIsLeader_of_unled hs hleader]
    refine ⟨fun resp h => (by cases h), fun e h => ?_⟩
    cases h
    exact ⟨rfl, fun s' hs' => Option.some.inj hs' ▸ hleader⟩
  · obtain ⟨ns, hlookup, hne, hns⟩ :=
      haddress s.leader ((hreg.every.shards x s hs).2.resolve_left hleader)
    rw [MigrationManager.whereIsLeader_of_leader hs hleader hlookup]
    refine ⟨fun resp h => ?_, fun e h => by cases h⟩
    cases h
    exact ⟨s, rfl, rfl, hne, hns⟩

/-- A node is registered, and the shard is migrated onto it. Then a second shard is split
    off. -/
def migrated : List MonitorAction :=
  [.serve (.addNode "d" "d:1"), .serve (.migrateShard "shard-0" ["b", "d"]),
    .serve (.heartbeat 10 "b" [⟨"shard-0", 3, true⟩]),
    .serve (.heartbeat 11 "d" [⟨"shard-0", 3, true⟩]),
    .refreshLiveness 12 ["a", "b", "c", "d"], .checkAndReassign ["shard-0"],
    .checkMigrations exampleOrder, .serve (.splitShard "shard-0" "shard-1" ["a", "b"])]

/-- `b` leads the shard on its new replicas, and the new shard has no leader yet. -/
theorem whereIsLeader_answers_migrated :
    ∃ mm t, (configWithLeader "a").start = .ok mm ∧ Along step Informed (initial mm) migrated ∧
      exec step (initial mm) migrated = some t ∧
      t.coordinator.whereIsLeader "shard-0" = .ok ⟨"b", "b:1", 2⟩ ∧
      (∀ e, t.coordinator.whereIsLeader "shard-1" = .error e → e.status = .notFound) := by
  obtain ⟨mm, t, hstart, has, hend, hleader⟩ : ∃ mm t, (configWithLeader "a").start = .ok mm ∧
      Along step Informed (initial mm) migrated ∧ exec step (initial mm) migrated = some t ∧
      t.coordinator.whereIsLeader "shard-0" = .ok ⟨"b", "b:1", 2⟩ :=
    ⟨_, _, rfl, by decide, rfl, by decide⟩
  exact ⟨mm, t, hstart, has, hend, hleader, fun e he =>
    ((whereIsLeader_answers hstart has hend "shard-1").2.2 e he).1⟩

end Monitor

end Doki
