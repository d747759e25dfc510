import Doki.Coordinator.Health
import Doki.Coordinator.Versions
import Doki.Node.Reconciliation
import Doki.Node.Terms

/-!
# Nodes follow the shard map

The coordinator with the nodes that send it heartbeats (`sendHeartbeat` and
`refetchShardMap`, in `node/server.go`). A heartbeat is answered with the version of the
shard map; a node whose own version is lower fetches the map and reconciles its replicas
with it. Every message may be lost, and while an answer is on its way the map may change
any number of times.

The version tells a node all that it needs to know:

* `Later`: the coordinator never has two different maps with one version
  (`later_apply`);
* `Server.Places`: the node hosts the shards that a map gives to it, with the other
  replicas of each as its peers. Nothing but a new map changes that
  (`NodeOp.samePlace`);
* `Fleet.placement_agrees`: the version of a node never decreases and is never ahead of that of
  the coordinator, and a node that has caught up with it is placed as the coordinator's
  map says.
-/

namespace Doki

open Faulty Runs

/-! ### Versions of the map -/

/-- Every step on the stores that changes the map gives it a new version. -/
theorem MapService.later_step {st st' : MapService} {op : StoreOp} (h : st.step op = some st') :
    Later st.shards st'.shards := by
  cases op with
  | addShard info =>
    cases h
    refine st.shards.later_orKeep fun m' hm' => ?_
    obtain ⟨-, rfl⟩ := ShardMap.addShard_ok hm'
    exact st.shards.later_insert info
  | setLeader shardID nodeID =>
    cases h
    refine st.shards.later_orKeep fun m' hm' => ?_
    obtain ⟨s, -, -, rfl⟩ := ShardMap.setLeader_ok hm'
    exact st.shards.later_insert _
  | setReplicas shardID replicas =>
    cases h
    exact st.shards.later_update shardID _
  | setIncomingReplicas shardID incoming =>
    cases h
    exact st.shards.later_update shardID _
  | clearBootstrapSource shardID =>
    cases h
    refine st.shards.later_orKeep fun m' hm' => ?_
    rcases ShardMap.clearBootstrapSource_ok hm' with rfl | ⟨s, -, rfl⟩
    · exact .inl rfl
    · exact st.shards.later_insert _
  | recordHeartbeat now nodeID shards =>
    simp only [step] at h
    split at h <;> cases h <;> exact .inl rfl
  | refreshLiveness now =>
    cases h
    exact .inl rfl
  | addNode spec =>
    cases h
    exact .inl rfl
  | snapshot order =>
    simp only [step] at h
    split_ifs at h
    cases h
    exact .inl rfl
  | respond i =>
    obtain ⟨p, -, rfl⟩ := Option.map_eq_some_iff.1 h
    exact .inl rfl

/-- The operations of the coordinator are made of such steps. -/
theorem MigrationManager.later_apply (mm : MigrationManager) (op : CoordinatorOp) :
    Later mm.leader.shards (mm.apply op).leader.shards := by
  obtain ⟨ops, hops⟩ := mm.served_apply op ⟨mm.leader.shards, mm.leader.membership, [], []⟩ rfl rfl
  have hkeep : ∀ (st : MapService) op st', Later mm.leader.shards st.shards → True →
      st.step op = some st' → Later mm.leader.shards st'.shards :=
    fun st op st' h _ hstep => h.trans (MapService.later_step hstep)
  exact invariant hkeep (.inl rfl) (Along.of_forall_mem fun _ _ => trivial) hops

/-! ### The place of a replica -/

/-- Two states of a replica with the same place in the map. -/
structure SamePlace (r r' : ReplicaState) : Prop where
  nodeID : r'.nodeID = r.nodeID
  peers : r'.peers = r.peers
  shardMapVersion : r'.shardMapVersion = r.shardMapVersion

section SamePlace

variable {r r' r'' : ReplicaState}

theorem SamePlace.refl (r : ReplicaState) : SamePlace r r := ⟨rfl, rfl, rfl⟩

theorem SamePlace.trans (h : SamePlace r r') (h' : SamePlace r' r'') : SamePlace r r'' where
  nodeID := h'.nodeID.trans h.nodeID
  peers := h'.peers.trans h.peers
  shardMapVersion := h'.shardMapVersion.trans h.shardMapVersion

end SamePlace

namespace ReplicaState

theorem samePlace_observe (r : ReplicaState) (term : ℕ) : SamePlace r (r.observe term) := by
  obtain ⟨role, h⟩ := r.observe_eq term
  rw [h]
  exact ⟨rfl, rfl, rfl⟩

theorem samePlace_apply (r : ReplicaState) (e : Entry) (mode : ApplyMode) (walOk : Bool) :
    SamePlace r (r.apply e mode walOk).1 := by
  cases h : r.apply e mode walOk with
  | mk r' err =>
    cases err with
    | some err =>
      obtain ⟨ds, rfl⟩ := apply_error h
      exact ⟨rfl, rfl, rfl⟩
    | none =>
      obtain ⟨-, -, -, ds, rfl⟩ := apply_ok h
      exact ⟨rfl, rfl, rfl⟩

theorem samePlace_replicate (r : ReplicaState) (now : Time) (req : Entry) (walOk : Bool) :
    SamePlace r (r.replicate now req walOk).1 := by
  have hobs := r.samePlace_observe req.term
  simp only [replicate]
  split_ifs
  · exact .refl r
  · exact hobs
  · exact hobs.trans ⟨rfl, rfl, rfl⟩
  · have happly := hobs.trans (samePlace_apply _ req .withWAL walOk)
    split
    · rename_i r'' e h
      rwa [h] at happly
    · rename_i r'' h
      rw [h] at happly
      exact happly.trans ⟨rfl, rfl, rfl⟩

theorem samePlace_requestVote (r : ReplicaState) (now : Time) (req : VoteRequest) :
    SamePlace r (r.requestVote now req).1 := by
  have hobs : SamePlace r (r.observeVote req.term) := by
    rcases r.observeVote_eq req.term with ⟨-, h⟩ | ⟨-, h⟩ <;> rw [h] <;> exact ⟨rfl, rfl, rfl⟩
  cases h : r.requestVote now req with
  | mk r' resp =>
    rcases requestVote_cases h with ⟨-, rfl, -⟩ | ⟨-, rfl, -⟩ | ⟨-, -, -, rfl, -⟩
    · exact .refl r'
    · exact hobs
    · exact hobs.trans ⟨rfl, rfl, rfl⟩

theorem samePlace_leaderHeartbeat (r : ReplicaState) (now : Time) (req : LeaderHeartbeatRequest) :
    SamePlace r (r.leaderHeartbeat now req).1 := by
  have hobs := r.samePlace_observe req.term
  simp only [leaderHeartbeat]
  split_ifs
  · exact .refl r
  · exact hobs.trans ⟨rfl, rfl, rfl⟩

theorem samePlace_applyEntries (walOk : ℕ → Bool) (r : ReplicaState) (es : List Entry) :
    SamePlace r (applyEntries walOk r es).1 :=
  applyEntries_keeps .refl (fun _ _ _ => .trans) (fun r e => r.samePlace_apply e .withWAL)
    walOk r es

theorem samePlace_doIncrementalRecovery (r : ReplicaState) (resp : RecoverResponse)
    (walOk : ℕ → Bool) (fates : List Fate) :
    SamePlace r (r.doIncrementalRecovery resp walOk fates).2 := by
  cases h : r.doIncrementalRecovery resp walOk fates with
  | mk o r' =>
    cases resp with
    | entries version es =>
      have hes := samePlace_applyEntries walOk r es
      rcases doIncrementalRecovery_entries h with rfl | rfl | rfl
      · exact .refl r'
      · exact hes
      · exact hes.trans ⟨rfl, rfl, rfl⟩
    | snapshot s =>
      obtain ⟨ds, rfl | rfl⟩ := doIncrementalRecovery_snapshot h <;> exact ⟨rfl, rfl, rfl⟩

end ReplicaState

/-- No operation on a replica moves it: only a shard map does. -/
theorem NodeOp.samePlace {r r' : ReplicaState} {op : NodeOp} (h : op.step r = some r') :
    SamePlace r r' := by
  cases op with
  | replicate now req walOk => exact Option.some.inj h ▸ r.samePlace_replicate now req walOk
  | requestVote now req => exact Option.some.inj h ▸ r.samePlace_requestVote now req
  | leaderHeartbeat now req => exact Option.some.inj h ▸ r.samePlace_leaderHeartbeat now req
  | forceRecover now => exact Option.some.inj h ▸ ⟨rfl, rfl, rfl⟩
  | electionBegin now =>
    obtain ⟨⟨r'', req⟩, hbegin, rfl⟩ := Option.map_eq_some_iff.1 h
    obtain ⟨rfl, -⟩ := ReplicaState.electionBegin_eq_some hbegin
    exact ⟨rfl, rfl, rfl⟩
  | higherTerm term => exact Option.some.inj h ▸ ⟨rfl, rfl, rfl⟩
  | electionFinish now candidateTerm votes =>
    obtain rfl := Option.some.inj h
    rw [ReplicaState.electionFinish]
    split_ifs <;> exact ⟨rfl, rfl, rfl⟩
  | heartbeatReply now sentTerm peerID peerTerm =>
    obtain rfl := Option.some.inj h
    rw [ReplicaState.heartbeatReply]
    split_ifs <;> exact ⟨rfl, rfl, rfl⟩
  | finishWrite now e plan acked walOk fates =>
    obtain rfl := Option.some.inj h
    cases hfinish : r.finishWrite now e plan acked walOk fates with
    | mk res r' =>
      rcases ReplicaState.finishWrite_cases hfinish with
        ⟨err, ds, last, -, rfl⟩ | ⟨ok, ds, last, -, -, -, -, -, rfl⟩ <;> exact ⟨rfl, rfl, rfl⟩
  | recover resp walOk fates =>
    exact Option.some.inj h ▸ r.samePlace_doIncrementalRecovery resp walOk fates

/-! ### Heartbeats -/

namespace Server

theorem nodeID_eq_insert (s : Server) {x : String} {r r' : ReplicaState} {op : NodeOp}
    (hr : s.replicas.lookup x = some r) (hr' : op.step r = some r') (y : String)
    (r'' : ReplicaState) (h : (s.replicas.insert x r').lookup y = some r'') :
    r''.nodeID = s.cfg.nodeID := by
  by_cases hy : y = x
  · rw [hy, Finmap.lookup_insert] at h
    rw [← Option.some.inj h, (NodeOp.samePlace hr').nodeID, s.nodeID_eq x r hr]
  · rw [Finmap.lookup_insert_of_ne _ hy] at h
    exact s.nodeID_eq y r'' h

/-- An operation on the replica of a shard. -/
def act (s : Server) (x : String) (op : NodeOp) : Option Server :=
  match hr : s.replicas.lookup x with
  | none => none
  | some r =>
    match hr' : op.step r with
    | none => none
    | some r' => some { s with
        replicas := s.replicas.insert x r'
        nodeID_eq := s.nodeID_eq_insert hr hr' }

theorem act_eq_some {s s' : Server} {x : String} {op : NodeOp} (h : s.act x op = some s') :
    ∃ r r', s.replicas.lookup x = some r ∧ op.step r = some r' ∧
      s'.replicas = s.replicas.insert x r' ∧ s'.cfg = s.cfg ∧
      s'.shardMapVersion = s.shardMapVersion := by
  rw [act] at h
  split at h
  · cases h
  · rename_i r hr
    split at h
    · cases h
    · rename_i r' hr'
      cases h
      exact ⟨r, r', hr, hr', rfl, rfl, rfl⟩

/-- What a heartbeat reports, of the replicas in some order. -/
def shardStatuses (s : Server) (order : List String) : List ShardStatus :=
  order.filterMap fun x => (s.replicas.lookup x).map fun r => ⟨r.shardID, r.version, r.isReady⟩

end Server

/-- How far a node is with a heartbeat: it has sent one, it has the version of the answer,
    it has asked for the map, of which the shards have been copied, and it has the map. -/
inductive HeartbeatStage
  | idle
  | sent (shards : List ShardStatus)
  | answered (version : ℕ)
  | fetching
  | copied (p : MapSnapshot)
  | fetched (resp : ShardMapResponse)

/-- A node, which sends one heartbeat after the other. -/
structure NodeProcess where
  server : Server
  stage : HeartbeatStage

/-- The coordinator, and the nodes by their IDs. -/
structure Fleet where
  coordinator : MigrationManager
  nodes : Finmap fun _ : String => NodeProcess

/-- What a node does. Between the two, the coordinator records a heartbeat, copies the
    shards, and adds the addresses to them. `fail` ends a heartbeat at any stage. -/
inductive ProcessAction
  | replica (shardID : String) (op : NodeOp)
  | sendHeartbeat (order : List String)
  | recordHeartbeat (now : Time)
  | compare
  | copyShards (order : List String)
  | addAddresses
  | refetchShardMap (now : Time)
  | fail

/-- The actions of the coordinator alone, and of the nodes. -/
inductive FleetAction
  | coordinator (op : CoordinatorOp)
  | node (nodeID : String) (a : ProcessAction)

/-- One action of a node, with the coordinator `mm`. -/
def NodeProcess.step (p : NodeProcess) (mm : MigrationManager) :
    ProcessAction → Option (MigrationManager × NodeProcess)
  | .replica x op => (p.server.act x op).map fun s => (mm, { p with server := s })
  | .sendHeartbeat order =>
    match p.stage with
    | .idle => some (mm, { p with stage := .sent (p.server.shardStatuses order) })
    | _ => none
  | .recordHeartbeat now =>
    match p.stage with
    | .sent shards =>
      match mm.heartbeat now p.server.cfg.nodeID shards with
      | .error _ => some (mm, { p with stage := .idle })
      | .ok (version, mm') => some (mm', { p with stage := .answered version })
    | _ => none
  | .compare =>
    match p.stage with
    | .answered version => some (mm, { p with
        stage := if version > p.server.shardMapVersion then .fetching else .idle })
    | _ => none
  | .copyShards order =>
    match p.stage with
    | .fetching =>
      if mm.leader.Orders order then some (mm, { p with
        stage := .copied ⟨mm.leader.shards.version, mm.leader.shards.all order⟩ })
      else none
    | _ => none
  | .addAddresses =>
    match p.stage with
    | .copied m => some (mm, { p with
        stage := .fetched ⟨m.version, m.shards, mm.leader.membership.addresses⟩ })
    | _ => none
  | .refetchShardMap now =>
    match p.stage with
    | .fetched resp => some (mm, ⟨p.server.refetchShardMap resp now, .idle⟩)
    | _ => none
  | .fail => some (mm, { p with stage := .idle })

/-- One action in the fleet. -/
def Fleet.step (f : Fleet) : FleetAction → Option Fleet
  | .coordinator op => some { f with coordinator := f.coordinator.apply op }
  | .node i a => do
    let p ← f.nodes.lookup i
    let (mm, p') ← p.step f.coordinator a
    some ⟨mm, f.nodes.insert i p'⟩

/-! ### Placement -/

/-- The node hosts the shards that the map `m` gives to it, each with the other replicas
    as its peers. -/
structure Server.Places (s : Server) (m : ShardMap) : Prop where
  version : s.shardMapVersion = m.version
  hosts : ∀ x, x ∈ s.replicas ↔
    ∃ shard, m.shards.lookup x = some shard ∧ s.cfg.nodeID ∈ shard.replicas
  peers : ∀ x r shard, s.replicas.lookup x = some r → m.shards.lookup x = some shard →
    r.peers = shard.peersOf s.cfg.nodeID ∧ r.shardMapVersion = m.version

/-- The list has the shards of the map `m`, in some order. -/
def ShardMap.Lists (m : ShardMap) (shards : List ShardInfo) : Prop :=
  ∃ order : List String, order.Nodup ∧ order.toFinset = m.shards.keys ∧ shards = m.all order

namespace Server

variable {s s' : Server} {m : ShardMap}

/-- A node is placed by the map from which it has each of its replicas. -/
theorem places_of_lookup {shards : List ShardInfo} (hlists : m.Lists shards)
    (hversion : s.shardMapVersion = m.version) (replica : ShardInfo → ReplicaState)
    (hreplica : ∀ shard, (replica shard).Configured shard m.version)
    (hlookup : ∀ x r, s.replicas.lookup x = some r ↔
      ∃ shard ∈ shards, s.cfg.nodeID ∈ shard.replicas ∧ shard.id = x ∧ replica shard = r) :
    s.Places m := by
  obtain ⟨order, -, horder, rfl⟩ := hlists
  refine ⟨hversion, fun x => ?_, fun x r shard hr hshard => ?_⟩
  · rw [← Finmap.lookup_isSome, Option.isSome_iff_exists]
    simp only [hlookup]
    constructor
    · rintro ⟨_, shard, hmem, hrep, rfl, -⟩
      exact ⟨shard, (m.mem_all_iff horder shard).1 hmem, hrep⟩
    · rintro ⟨shard, hshard, hrep⟩
      have hid := m.id_eq x shard hshard
      exact ⟨_, shard, (m.mem_all_iff horder shard).2 (hid ▸ hshard), hrep, hid, rfl⟩
  · have hnode := s.nodeID_eq x r hr
    obtain ⟨shard', hmem, -, rfl, rfl⟩ := (hlookup x r).1 hr
    have hshard' := (m.mem_all_iff horder shard').1 hmem
    obtain rfl := Option.some.inj (hshard'.symm.trans hshard)
    refine ⟨?_, (hreplica shard').shardMapVersion⟩
    rw [(hreplica shard').peers, hnode, ShardInfo.peersOf]

/-- A map that is fetched again places the node. -/
theorem places_refetchShardMap (s : Server) {resp : ShardMapResponse} (now : Time)
    (hversion : resp.version = m.version) (hlists : m.Lists resp.shards) :
    (s.refetchShardMap resp now).Places m := by
  have hdistinct : (resp.shards.map (·.id)).Nodup := by
    obtain ⟨order, hnodup, -, heq⟩ := hlists
    rw [heq]
    exact m.nodup_all hnodup
  refine places_of_lookup hlists hversion
    (fun shard => s.refetchReplica (refetched resp) now shard.id
      { shard with bootstrapSourceShardID := "" }) (fun shard => ?_) fun x r => ?_
  · -- The source of a split is not among what the replica takes from the map.
    obtain ⟨hpeers, hleader, hmap, hrole⟩ := configured_refetchReplica s (refetched resp) now
      shard.id { shard with bootstrapSourceShardID := "" }
    exact ⟨hpeers, hleader, hmap.trans hversion, hrole⟩
  · rw [lookup_refetchShardMap hdistinct now]
    constructor
    · rintro ⟨shard, hmem, hrep, rfl, hr⟩
      exact ⟨shard, hmem, hrep, rfl, hr⟩
    · rintro ⟨shard, hmem, hrep, rfl, hr⟩
      exact ⟨shard, hmem, hrep, rfl, hr⟩

/-- Creating the replicas of distinct shards that the node does not host yet. -/
theorem replicas_foldl_initShardLocked (resp : ShardMapResponse) (now : Time) {l : List ShardInfo}
    (hl : (l.map (·.id)).Nodup) {t : Server} (ht : ∀ shard ∈ l, t.replicas.lookup shard.id = none) :
    let t' := l.foldl (fun t shard => t.initShardLocked resp now shard) t
    t'.cfg = t.cfg ∧ t'.shardMapVersion = t.shardMapVersion ∧
      t'.replicas = l.foldl (fun replicas shard => replicas.insert shard.id
        (initShard t.cfg shard resp now (t.diskFiles shard.id))) t.replicas := by
  induction l generalizing t with
  | nil => exact ⟨rfl, rfl, rfl⟩
  | cons shard l ih =>
    rw [List.map_cons, List.nodup_cons] at hl
    have hnew := ht shard List.mem_cons_self
    -- The shards of the rest are still new then.
    have hrest : ∀ shard' ∈ l,
        (t.initShardLocked resp now shard).replicas.lookup shard'.id = none := by
      intro shard' hmem
      have hne : shard'.id ≠ shard.id := fun h => hl.1 (h ▸ List.mem_map_of_mem hmem)
      rw [initShardLocked]
      split
      · exact ht shard' (List.mem_cons_of_mem _ hmem)
      · rw [Finmap.lookup_insert_of_ne _ hne]
        exact ht shard' (List.mem_cons_of_mem _ hmem)
    have hstep : (t.initShardLocked resp now shard).cfg = t.cfg ∧
        (t.initShardLocked resp now shard).shardMapVersion = t.shardMapVersion ∧
        (t.initShardLocked resp now shard).diskFiles = t.diskFiles ∧
        (t.initShardLocked resp now shard).replicas = t.replicas.insert shard.id
          (initShard t.cfg shard resp now (t.diskFiles shard.id)) := by
      rw [initShardLocked]
      split
      · rename_i r hr
        rw [hnew] at hr
        cases hr
      · exact ⟨rfl, rfl, rfl, rfl⟩
    obtain ⟨hcfg, hversion, hfiles, hreplicas⟩ := hstep
    obtain ⟨hcfg', hversion', hreplicas'⟩ := ih hl.2 hrest
    refine ⟨hcfg'.trans hcfg, hversion'.trans hversion, ?_⟩
    rw [List.foldl_cons, List.foldl_cons, hreplicas', hcfg, hfiles, hreplicas]

/-- So does the first map place a node that starts. -/
theorem places_initShards (cfg : NodeConfig) (files : String → Files) {resp : ShardMapResponse}
    (now : Time) (hversion : resp.version = m.version) (hlists : m.Lists resp.shards) :
    ((new cfg files).initShards resp now).Places m := by
  have hdistinct : ((resp.shards.filter (·.hasReplica cfg.nodeID)).map (·.id)).Nodup := by
    obtain ⟨order, hnodup, -, heq⟩ := hlists
    rw [heq]
    exact (m.nodup_all hnodup).sublist (List.filter_sublist.map _)
  obtain ⟨hcfg, hmap, hreplicas⟩ := replicas_foldl_initShardLocked resp now hdistinct
    (t := { new cfg files with
      nodeAddresses := resp.nodeAddresses, shardMapVersion := resp.version })
    (fun shard _ => Finmap.lookup_empty _)
  refine places_of_lookup hlists (hmap.trans hversion)
    (fun shard => initShard cfg shard resp now (files shard.id)) (fun shard => ?_) fun x r => ?_
  · exact hversion ▸ configured_initShard cfg shard resp now _
  · have hnode : ((new cfg files).initShards resp now).cfg = cfg := hcfg
    have hfold : ((new cfg files).initShards resp now).replicas =
        (resp.shards.filter (·.hasReplica cfg.nodeID)).foldl (fun replicas shard =>
          replicas.insert shard.id (initShard cfg shard resp now (files shard.id))) ∅ := hreplicas
    rw [hnode, hfold, Finmap.lookup_foldl_insert_of_nodup
      (fun shard => initShard cfg shard resp now (files shard.id)) hdistinct]
    simp [ShardInfo.hasReplica, and_assoc]

/-- An operation on a replica leaves the node where it is. -/
theorem Places.act (h : s.Places m) {x : String} {op : NodeOp} (hact : s.act x op = some s') :
    s'.Places m := by
  obtain ⟨r, r', hr, hr', hreplicas, hcfg, hversion⟩ := act_eq_some hact
  have hplace := NodeOp.samePlace hr'
  refine ⟨hversion.trans h.version, fun y => ?_, fun y r'' shard hy hshard => ?_⟩
  · rw [hreplicas, hcfg, Finmap.mem_insert, ← h.hosts y]
    constructor
    · rintro (rfl | hy)
      · exact Finmap.mem_of_lookup_eq_some hr
      · exact hy
    · exact .inr
  · rw [hcfg]
    rw [hreplicas] at hy
    by_cases hyx : y = x
    · subst hyx
      rw [Finmap.lookup_insert] at hy
      obtain rfl := Option.some.inj hy
      obtain ⟨hpeers, hmap⟩ := h.peers y r shard hr hshard
      exact ⟨hplace.peers.trans hpeers, hplace.shardMapVersion.trans hmap⟩
    · rw [Finmap.lookup_insert_of_ne _ hyx] at hy
      exact h.peers y r'' shard hy hshard

end Server

/-! ### Whole runs -/

/-- What a node with the map version `version` knows at a stage, when the coordinator has
    the map `current`. What is on its way is from a map that the coordinator has had, and
    that the node has not. -/
def HeartbeatStage.Fits (version : ℕ) (current : ShardMap) : HeartbeatStage → Prop
  | .idle => True
  | .sent _ => True
  | .answered v => v ≤ current.version
  | .fetching => version < current.version
  | .copied p => ∃ m, Later m current ∧ version < m.version ∧ p.version = m.version ∧
      m.Lists p.shards
  | .fetched resp => ∃ m, Later m current ∧ version < m.version ∧ resp.version = m.version ∧
      m.Lists resp.shards

/-- The node is placed by a map that the coordinator has had. -/
structure NodeProcess.Follows (p : NodeProcess) (current : ShardMap) : Prop where
  placed : ∃ m, Later m current ∧ p.server.Places m
  stage : p.stage.Fits p.server.shardMapVersion current

/-- So are all nodes. -/
def Fleet.Follows (f : Fleet) : Prop :=
  ∀ i p, f.nodes.lookup i = some p → p.Follows f.coordinator.leader.shards

/-- Every node has just started, with the map that the coordinator has. -/
def Fleet.Started (f : Fleet) : Prop :=
  ∀ i p, f.nodes.lookup i = some p → ∃ cfg files order now,
    f.coordinator.leader.Orders order ∧
      p = ⟨(Server.new cfg files).initShards (f.coordinator.leader.getShardMap order) now, .idle⟩

section Runs

variable {version : ℕ} {current current' : ShardMap} {mm mm' : MigrationManager}
  {p p' : NodeProcess} {f f' : Fleet}

theorem HeartbeatStage.Fits.later {stage : HeartbeatStage} (h : stage.Fits version current)
    (hlater : Later current current') : stage.Fits version current' := by
  have hle := hlater.version_le
  cases stage with
  | idle => trivial
  | sent shards => trivial
  | answered v => exact le_trans h hle
  | fetching => exact lt_of_lt_of_le h hle
  | copied p =>
    obtain ⟨m, hm, hrest⟩ := h
    exact ⟨m, hm.trans hlater, hrest⟩
  | fetched resp =>
    obtain ⟨m, hm, hrest⟩ := h
    exact ⟨m, hm.trans hlater, hrest⟩

/-- A node that follows the coordinator does so whatever becomes of the map. -/
theorem NodeProcess.Follows.later (h : p.Follows current) (hlater : Later current current') :
    p.Follows current' := by
  obtain ⟨⟨m, hm, hplaces⟩, hstage⟩ := h
  exact ⟨⟨m, hm.trans hlater, hplaces⟩, hstage.later hlater⟩

/-- A node at another stage. -/
theorem NodeProcess.Follows.stageTo (h : p.Follows current) {stage : HeartbeatStage}
    (hstage : stage.Fits p.server.shardMapVersion current) :
    NodeProcess.Follows { p with stage := stage } current :=
  ⟨h.placed, hstage⟩

/-- A heartbeat is answered with the version of the map, which it leaves as it is. -/
theorem MigrationManager.heartbeat_ok {now : Time} {nodeID : String} {shards : List ShardStatus}
    {v : ℕ} (h : mm.heartbeat now nodeID shards = .ok (v, mm')) :
    v = mm.leader.shards.version ∧ mm'.leader.shards = mm.leader.shards := by
  rw [heartbeat] at h
  split at h
  · cases h
  · cases h
    exact ⟨rfl, rfl⟩

/-- The step lemma of a node: the map of the coordinator stays, the node follows it, and its
    version does not decrease. -/
theorem NodeProcess.Follows.step (h : p.Follows mm.leader.shards) {a : ProcessAction}
    (hstep : p.step mm a = some (mm', p')) :
    mm'.leader.shards = mm.leader.shards ∧ p'.Follows mm.leader.shards ∧
      p.server.shardMapVersion ≤ p'.server.shardMapVersion := by
  cases a with
  | replica x op =>
    obtain ⟨s', hact, heq⟩ := Option.map_eq_some_iff.1 hstep
    cases heq
    obtain ⟨-, -, -, -, -, -, hversion⟩ := Server.act_eq_some hact
    obtain ⟨⟨m, hm, hplaces⟩, hstage⟩ := h
    refine ⟨rfl, ⟨⟨m, hm, hplaces.act hact⟩, ?_⟩, hversion.ge⟩
    rw [hversion]
    exact hstage
  | sendHeartbeat order =>
    simp only [NodeProcess.step] at hstep
    split at hstep
    · cases hstep
      exact ⟨rfl, h.stageTo trivial, le_rfl⟩
    · cases hstep
  | recordHeartbeat now =>
    simp only [NodeProcess.step] at hstep
    split at hstep
    · split at hstep
      · cases hstep
        exact ⟨rfl, h.stageTo trivial, le_rfl⟩
      · rename_i v mm'' hheartbeat
        cases hstep
        obtain ⟨rfl, hshards⟩ := MigrationManager.heartbeat_ok hheartbeat
        exact ⟨hshards, h.stageTo le_rfl, le_rfl⟩
    · cases hstep
  | compare =>
    simp only [NodeProcess.step] at hstep
    split at hstep
    · rename_i v hv
      cases hstep
      refine ⟨rfl, h.stageTo ?_, le_rfl⟩
      have hle : p.stage.Fits p.server.shardMapVersion mm.leader.shards := h.stage
      rw [hv] at hle
      split_ifs with hnewer
      · exact lt_of_lt_of_le hnewer hle
      · trivial
    · cases hstep
  | copyShards order =>
    simp only [NodeProcess.step] at hstep
    split at hstep
    · rename_i hfetching
      split_ifs at hstep with horder
      cases hstep
      have hlt := h.stage
      rw [hfetching] at hlt
      exact ⟨rfl, h.stageTo ⟨_, .inl rfl, hlt, rfl, order, horder.1, horder.2, rfl⟩, le_rfl⟩
    · cases hstep
  | addAddresses =>
    simp only [NodeProcess.step] at hstep
    split at hstep
    · rename_i snapshot hcopied
      cases hstep
      have hcopy := h.stage
      rw [hcopied] at hcopy
      exact ⟨rfl, h.stageTo hcopy, le_rfl⟩
    · cases hstep
  | refetchShardMap now =>
    simp only [NodeProcess.step] at hstep
    split at hstep
    · rename_i resp hfetched
      cases hstep
      have hresp := h.stage
      rw [hfetched] at hresp
      obtain ⟨m, hm, hlt, hversion, hlists⟩ := hresp
      refine ⟨rfl, ⟨⟨m, hm, p.server.places_refetchShardMap now hversion hlists⟩, trivial⟩, ?_⟩
      exact hlt.le.trans hversion.ge
    · cases hstep
  | fail =>
    cases hstep
    exact ⟨rfl, h.stageTo trivial, le_rfl⟩

/-- One action in the fleet: the coordinator's alone, or a node's. -/
theorem Fleet.step_cases {a : FleetAction} (h : f.step a = some f') :
    (∃ op, f' = { f with coordinator := f.coordinator.apply op }) ∨
      ∃ i p b mm p', f.nodes.lookup i = some p ∧ p.step f.coordinator b = some (mm, p') ∧
        f' = ⟨mm, f.nodes.insert i p'⟩ := by
  cases a with
  | coordinator op => exact .inl ⟨op, (Option.some.inj h).symm⟩
  | node i b =>
    obtain ⟨p, hp, h⟩ := Option.bind_eq_some_iff.1 h
    obtain ⟨⟨mm, p'⟩, hb, h⟩ := Option.bind_eq_some_iff.1 h
    exact .inr ⟨i, p, b, mm, p', hp, hb, (Option.some.inj h).symm⟩

/-- The nodes of `f` are nodes of `f'`, with maps that are no older. -/
def Fleet.Advances (f f' : Fleet) : Prop :=
  ∀ i p, f.nodes.lookup i = some p →
    ∃ p', f'.nodes.lookup i = some p' ∧ p.server.shardMapVersion ≤ p'.server.shardMapVersion

/-- The step lemma of the fleet. -/
theorem Fleet.Follows.step (h : f.Follows) {a : FleetAction} (hstep : f.step a = some f') :
    f'.Follows ∧ f.Advances f' := by
  rcases Fleet.step_cases hstep with ⟨op, rfl⟩ | ⟨i, p, b, mm, p', hp, hb, rfl⟩
  · exact ⟨fun i p hp => (h i p hp).later (f.coordinator.later_apply op),
      fun i p hp => ⟨p, hp, le_rfl⟩⟩
  · obtain ⟨hshards, hfollows, hle⟩ := (h i p hp).step hb
    refine ⟨fun j q hj => ?_, fun j q hj => ?_⟩
    · change q.Follows mm.leader.shards
      rw [hshards]
      by_cases hji : j = i
      · subst hji
        rw [Finmap.lookup_insert] at hj
        exact Option.some.inj hj ▸ hfollows
      · rw [Finmap.lookup_insert_of_ne _ hji] at hj
        exact h j q hj
    · by_cases hji : j = i
      · subst hji
        obtain rfl := Option.some.inj (hp.symm.trans hj)
        exact ⟨p', Finmap.lookup_insert _, hle⟩
      · exact ⟨q, (Finmap.lookup_insert_of_ne _ hji).trans hj, le_rfl⟩

/-- The run lemma. -/
theorem Fleet.Follows.run (h : f.Follows) {as : List FleetAction}
    (hrun : exec Fleet.step f as = some f') : f'.Follows ∧ f.Advances f' := by
  have hkeep : ∀ (g : Fleet) a g', g.Follows ∧ f.Advances g → True → g.step a = some g' →
      g'.Follows ∧ f.Advances g' := by
    rintro g a g' ⟨hg, hadv⟩ - hstep
    obtain ⟨hg', hadv'⟩ := hg.step hstep
    refine ⟨hg', fun i p hp => ?_⟩
    obtain ⟨q, hq, hle⟩ := hadv i p hp
    obtain ⟨q', hq', hle'⟩ := hadv' i q hq
    exact ⟨q', hq', hle.trans hle'⟩
  exact invariant hkeep ⟨h, fun i p hp => ⟨p, hp, le_rfl⟩⟩
    (Along.of_forall_mem fun _ _ => trivial) hrun

/-- Nodes that have just started follow the coordinator. -/
theorem Fleet.Started.follows (h : f.Started) : f.Follows := by
  intro i p hp
  obtain ⟨cfg, files, order, now, horder, rfl⟩ := h i p hp
  exact ⟨⟨_, .inl rfl, Server.places_initShards cfg files now rfl ⟨order, horder.1, horder.2, rfl⟩⟩,
    trivial⟩

end Runs

/-- From a start on, whatever the coordinator and the nodes do and whichever messages are
    lost, the version of a node's map never decreases and never exceeds that of the
    coordinator. A node that has the coordinator's version hosts the shards that the
    coordinator's map gives to it, with the peers of that map. -/
theorem Fleet.placement_agrees {f g h : Fleet} {as bs : List FleetAction} (hstart : f.Started)
    (has : exec Fleet.step f as = some g) (hbs : exec Fleet.step g bs = some h) {i : String}
    {p : NodeProcess} (hp : g.nodes.lookup i = some p) :
    ∃ q, h.nodes.lookup i = some q ∧
      p.server.shardMapVersion ≤ q.server.shardMapVersion ∧
      q.server.shardMapVersion ≤ h.coordinator.leader.shards.version ∧
      (q.server.shardMapVersion = h.coordinator.leader.shards.version →
        q.server.Places h.coordinator.leader.shards) := by
  obtain ⟨hg, -⟩ := hstart.follows.run has
  obtain ⟨hh, hadv⟩ := hg.run hbs
  obtain ⟨q, hq, hle⟩ := hadv i p hp
  obtain ⟨m, hm, hplaces⟩ := (hh i q hq).placed
  refine ⟨q, hq, hle, hplaces.version.trans_le hm.version_le, fun heq => ?_⟩
  rcases hm with heq' | hlt
  · rwa [heq']
  · -- An older map has a lower version.
    have := hplaces.version
    omega

/-- The coordinator `mm` with the node `c`, which hosts nothing yet. -/
def exampleFleet (mm : MigrationManager) : Fleet where
  coordinator := mm
  nodes := Finmap.singleton "c" ⟨(Server.new (exampleConfig "c") fun _ => Files.empty).initShards
    (mm.leader.getShardMap ["shard-0"]) 0, .idle⟩

/-- `c` is told of a split. There is another one before it has the map. -/
def toldOfSplit : List FleetAction :=
  [.coordinator (.splitShard "shard-0" "shard-1" ["b", "c"]), .node "c" (.sendHeartbeat []),
    .node "c" (.recordHeartbeat 5), .coordinator (.splitShard "shard-0" "shard-2" ["c"]),
    .node "c" .compare]

/-- It fetches the map. -/
def fetchesMap : List FleetAction :=
  [.node "c" (.copyShards ["shard-2", "shard-0", "shard-1"]), .node "c" .addAddresses,
    .node "c" (.refetchShardMap 6)]

/-- `c` ends up with the map after both splits. -/
theorem Fleet.placement_agrees_toldOfSplit :
    ∃ mm g h p q, (configWithLeader "a").start = .ok mm ∧
      exec Fleet.step (exampleFleet mm) toldOfSplit = some g ∧
      exec Fleet.step g fetchesMap = some h ∧ g.nodes.lookup "c" = some p ∧
      h.nodes.lookup "c" = some q ∧ p.server.shardMapVersion < q.server.shardMapVersion ∧
      q.server.Places h.coordinator.leader.shards := by
  obtain ⟨mm, g, h, p, q, hmm, horder, hg, hh, hp, hq, hlt, heq⟩ :
      ∃ mm g h p q, (configWithLeader "a").start = .ok mm ∧ mm.leader.Orders ["shard-0"] ∧
        exec Fleet.step (exampleFleet mm) toldOfSplit = some g ∧
        exec Fleet.step g fetchesMap = some h ∧ g.nodes.lookup "c" = some p ∧
        h.nodes.lookup "c" = some q ∧ p.server.shardMapVersion < q.server.shardMapVersion ∧
        q.server.shardMapVersion = h.coordinator.leader.shards.version :=
    ⟨_, _, _, _, _, rfl, by decide, rfl, rfl, rfl, rfl, by decide, by decide⟩
  have hstart : (exampleFleet mm).Started := by
    intro i p hp
    by_cases hi : i = "c"
    · subst hi
      rw [exampleFleet, Finmap.lookup_singleton_eq] at hp
      exact ⟨_, _, _, _, horder, (Option.some.inj hp).symm⟩
    · have hnone : i ∉ (exampleFleet mm).nodes := fun h => hi ((Finmap.mem_singleton _ _ _).1 h)
      rw [Finmap.lookup_eq_none.2 hnone] at hp
      cases hp
  obtain ⟨q', hq', -, -, hplaces⟩ := Fleet.placement_agrees hstart hg hh hp
  obtain rfl := Option.some.inj (hq.symm.trans hq')
  exact ⟨mm, g, h, p, q, hmm, hg, hh, hp, hq, hlt, hplaces heq⟩

end Doki
