import Doki.Coordinator.Leadership
import Doki.Lib.Lists

/-!
# The version of the shard map

The nodes refetch the shard map when a heartbeat tells them of a newer version. The
response to `GetShardMap` joins two stores with a lock each: the shards with their version,
which every change increments, and the addresses of the nodes, which have none. First
the shards are copied, then the addresses. All that the coordinator does to the stores is
made of single operations on one of them, in any order, and with the two halves of
any number of calls between them (`MapService`).

* `served_apply`: the operations of the coordinator are made of such steps;
* `MapService.Recorded.step`: what the responses have in common with the stores;
* `identifies_of_unseen`: a version stands for one shard map and one set of addresses as long
  as addresses change only while no response has the current version, nor that of a
  call under way;
* `version_reused`: two responses of one version that differ.
-/

namespace Doki

open Runs

/-! ## The two stores -/

/-- The shards as a call of `GetShardMap` has copied them. -/
structure MapSnapshot where
  version : ℕ
  shards : List ShardInfo

/-- The stores of the coordinator and the calls of `GetShardMap`: those that have copied the
    shards only, and the responses so far. -/
structure MapService where
  shards : ShardMap
  membership : Membership
  pending : List MapSnapshot
  responses : List ShardMapResponse

/-- The steps: the operations on the shards and on the nodes, and the two halves of
    `GetShardMap`, the second one of any call under way. -/
inductive StoreOp
  | addShard (info : ShardInfo)
  | setLeader (shardID nodeID : String)
  | setReplicas (shardID : String) (replicas : List String)
  | setIncomingReplicas (shardID : String) (incoming : List String)
  | clearBootstrapSource (shardID : String)
  | recordHeartbeat (now : Time) (nodeID : String) (shards : List ShardStatus)
  | refreshLiveness (now : Time)
  | addNode (spec : NodeSpec)
  | snapshot (order : List String)
  | respond (i : ℕ)

namespace MapService

/-- The stores of a coordinator that has not read the shards of its configuration yet. -/
def start (nodes : List NodeSpec) (failureTimeout : Time) : MapService where
  shards := .new
  membership := .new nodes failureTimeout
  pending := []
  responses := []

variable (st : MapService)

/-- The shards after an operation on them. -/
def setShards (r : Except ShardMapError ShardMap) : MapService :=
  { st with shards := st.shards.orKeep r }

/-- One step. The shards are copied in some order of their IDs. -/
def step (st : MapService) : StoreOp → Option MapService
  | .addShard info => some (st.setShards (st.shards.addShard info))
  | .setLeader shardID nodeID => some (st.setShards (st.shards.setLeader shardID nodeID))
  | .setReplicas shardID replicas => some (st.setShards (st.shards.setReplicas shardID replicas))
  | .setIncomingReplicas shardID incoming =>
    some (st.setShards (st.shards.setIncomingReplicas shardID incoming))
  | .clearBootstrapSource shardID => some (st.setShards (st.shards.clearBootstrapSource shardID))
  | .recordHeartbeat now nodeID shards =>
    match st.membership.recordHeartbeat now nodeID shards with
    | .error _ => some st
    | .ok membership => some { st with membership := membership }
  | .refreshLiveness now => some { st with membership := st.membership.refreshLiveness now }
  | .addNode spec => some { st with membership := st.membership.addNode spec }
  | .snapshot order =>
    if order.toFinset = st.shards.shards.keys then
      some { st with pending := st.pending ++ [⟨st.shards.version, st.shards.all order⟩] }
    else none
  | .respond i => (st.pending[i]?).map fun p =>
    { st with
      pending := st.pending.eraseIdx i
      responses := st.responses ++ [⟨p.version, p.shards, st.membership.addresses⟩] }

end MapService

/-! ## The operations of the coordinator -/

/-- The stores get from those of `lm` to those of `lm'` by some steps. -/
def Served (lm lm' : LeaderManager) : Prop :=
  ∀ st : MapService, st.shards = lm.shards → st.membership = lm.membership →
    ∃ ops, exec MapService.step st ops =
      some { st with shards := lm'.shards, membership := lm'.membership }

section Served

variable {lm lm' lm'' : LeaderManager}

/-- Nothing has happened to the stores. -/
theorem Served.of_eq (hshards : lm'.shards = lm.shards)
    (hmembership : lm'.membership = lm.membership) : Served lm lm' := by
  intro st hs hm
  refine ⟨[], ?_⟩
  rw [hshards, hmembership, ← hs, ← hm]
  rfl

theorem Served.refl (lm : LeaderManager) : Served lm lm := .of_eq rfl rfl

theorem Served.trans (h : Served lm lm') (h' : Served lm' lm'') : Served lm lm'' := by
  intro st hs hm
  obtain ⟨ops, hops⟩ := h st hs hm
  obtain ⟨ops', hops'⟩ := h' { st with shards := lm'.shards, membership := lm'.membership } rfl rfl
  exact ⟨ops ++ ops', exec_trans hops hops'⟩

/-- One step on the nodes. -/
theorem Served.of_membership (op : StoreOp) (hshards : lm'.shards = lm.shards)
    (h : ∀ st : MapService, st.membership = lm.membership →
      st.step op = some { st with membership := lm'.membership }) : Served lm lm' := by
  intro st hs hm
  refine ⟨[op], ?_⟩
  rw [exec, h st hm, hshards, ← hs]
  rfl

/-- One step on the shards. -/
theorem Served.of_shards (op : StoreOp) (f : ShardMap → Except ShardMapError ShardMap)
    (hop : ∀ st : MapService, st.step op = some (st.setShards (f st.shards)))
    (h : f lm.shards = .ok lm'.shards) (hmembership : lm'.membership = lm.membership) :
    Served lm lm' := by
  intro st hs hm
  refine ⟨[op], ?_⟩
  rw [exec, hop, MapService.setShards, hs, h, hmembership, ← hm]
  rfl

theorem Served.setLeader {x n : String} (h : lm.shards.setLeader x n = .ok lm'.shards)
    (hmembership : lm'.membership = lm.membership) : Served lm lm' :=
  .of_shards (.setLeader x n) (·.setLeader x n) (fun _ => rfl) h hmembership

theorem Served.setReplicas {x : String} {R : List String}
    (h : lm.shards.setReplicas x R = .ok lm'.shards)
    (hmembership : lm'.membership = lm.membership) : Served lm lm' :=
  .of_shards (.setReplicas x R) (·.setReplicas x R) (fun _ => rfl) h hmembership

theorem Served.setIncomingReplicas {x : String} {R : List String}
    (h : lm.shards.setIncomingReplicas x R = .ok lm'.shards)
    (hmembership : lm'.membership = lm.membership) : Served lm lm' :=
  .of_shards (.setIncomingReplicas x R) (·.setIncomingReplicas x R) (fun _ => rfl) h hmembership

theorem served_reassign (lm : LeaderManager) (shard : ShardInfo) :
    Served lm (lm.reassign shard) := by
  rw [LeaderManager.reassign]
  split
  · exact .refl lm
  · split
    · exact .refl lm
    · rename_i hset
      exact .setLeader hset rfl

theorem served_checkAndReassign (lm : LeaderManager) (order : List String) :
    Served lm (lm.checkAndReassign order) := by
  refine List.foldlRecOn (motive := Served lm) _ _ (.refl lm) fun lm' h shard _ => h.trans ?_
  rw [LeaderManager.checkShard]
  split_ifs
  · exact served_reassign lm' shard
  · exact served_reassign lm' shard
  · exact .refl lm'

theorem served_notifyLeader (lm : LeaderManager) (x n : String) (term : ℕ) :
    Served lm (lm.notifyLeader x n term).2 := by
  cases h : lm.notifyLeader x n term with
  | mk accepted lm' =>
    cases accepted with
    | true =>
      obtain ⟨-, shards, hset, rfl⟩ := LeaderManager.notifyLeader_accepted h
      exact .setLeader hset rfl
    | false => exact LeaderManager.notifyLeader_rejected h ▸ .refl _

theorem initTerm_stores (lm : LeaderManager) (x : String) :
    (lm.initTerm x).shards = lm.shards ∧ (lm.initTerm x).membership = lm.membership := by
  rw [LeaderManager.initTerm]
  split <;> exact ⟨rfl, rfl⟩

/-- The shards of the configuration are added one after the other. -/
theorem served_initFromConfig {specs : List ShardSpec} (h : lm.initFromConfig specs = .ok lm') :
    Served lm lm' := by
  induction specs generalizing lm with
  | nil =>
    obtain rfl := Except.ok.inj h
    exact .refl lm
  | cons spec specs ih =>
    rw [LeaderManager.initFromConfig, List.foldlM_cons] at h
    cases hadd : lm.shards.addShard
        { id := spec.id, replicas := spec.replicas, leader := spec.initialLeader,
          bootstrapSourceShardID := "" } with
    | error e =>
      rw [hadd] at h
      cases h
    | ok shards =>
      rw [hadd] at h
      have hserved : Served lm
          { lm with shards := shards, terms := lm.terms.insert spec.id 1 } :=
        .of_shards (.addShard _) (·.addShard _) (fun _ => rfl) hadd rfl
      exact hserved.trans (ih h)

end Served

namespace MigrationManager

variable (mm : MigrationManager)

theorem served_startMigration {mm' : MigrationManager} {x : String} {R : List String}
    (h : mm.startMigration x R = .ok mm') : Served mm.leader mm'.leader := by
  cases hs : mm.leader.shards.shards.lookup x with
  | none =>
    rw [startMigration_of_none R hs] at h
    cases h
  | some s =>
    rw [startMigration_of_lookup R hs] at h
    obtain rfl := Except.ok.inj h
    -- The replicas are set first, and the incoming ones in a second step.
    obtain ⟨hset, htag⟩ :=
      ShardMap.setReplicas_setIncomingReplicas hs (widened s.replicas R) R
    have hreplicas : Served mm.leader { mm.leader with
        shards := mm.leader.shards.insert (s.withReplicas (widened s.replicas R)) } :=
      .setReplicas hset rfl
    exact hreplicas.trans (.setIncomingReplicas htag rfl)

theorem served_finaliseMigration (order : List String) (x : String) (R : List String) :
    Served mm.leader (mm.finaliseMigration order x R).leader := by
  rw [finaliseMigration]
  split
  · exact .refl _
  · rename_i shards hset
    have hreplicas : Served mm.leader { mm.leader with shards := shards } :=
      .setReplicas hset rfl
    refine hreplicas.trans (Served.trans ?_ (served_checkAndReassign _ order))
    cases hinc : shards.setIncomingReplicas x [] with
    | error e => exact .refl _
    | ok shards' => exact .setIncomingReplicas hinc rfl

theorem served_checkSplit (orders : String → List String) (shard : ShardInfo) :
    Served mm.leader (mm.checkSplit orders shard).leader := by
  rw [checkSplit]
  split
  · exact .refl _
  split
  · split
    · exact .refl _
    · rename_i shards hclear
      have hserved : Served mm.leader { mm.leader with shards := shards } :=
        .of_shards (.clearBootstrapSource shard.id) (·.clearBootstrapSource shard.id)
          (fun _ => rfl) hclear rfl
      split
      · exact hserved.trans (served_checkAndReassign _ _)
      · exact hserved
  · exact .refl _

theorem served_checkMigrations (o : CheckOrder) :
    Served mm.leader (mm.checkMigrations o).leader := by
  have hpending : Served mm.leader
      ((mm.pending o.pending).foldl (fun mm m => mm.checkMigration o.finalise m) mm).leader := by
    refine List.foldlRecOn (motive := fun mm' : MigrationManager => Served mm.leader mm'.leader)
      _ _ (.refl _) fun mm' h m _ => h.trans ?_
    rw [checkMigration]
    split_ifs
    · exact mm'.served_finaliseMigration _ m.1 m.2
    · exact .refl _
  exact List.foldlRecOn (motive := fun mm' : MigrationManager => Served mm.leader mm'.leader)
    _ _ hpending fun mm' h shard _ => h.trans (mm'.served_checkSplit o.split shard)

/-- What an operation of the coordinator does to the stores is made of steps. -/
theorem served_apply (op : CoordinatorOp) : Served mm.leader (mm.apply op).leader := by
  cases op with
  | heartbeat now nodeID shards =>
    rw [apply]
    split
    · exact .refl _
    · rename_i membership hbeat
      exact .of_membership (.recordHeartbeat now nodeID shards) rfl fun st hm => by
        simp only [MapService.step, hm, hbeat]
  | refreshLiveness now =>
    exact .of_membership (.refreshLiveness now) rfl fun st hm => by
      simp only [MapService.step, hm, apply]
  | addNode spec =>
    exact .of_membership (.addNode spec) rfl fun st hm => by simp only [MapService.step, hm, apply]
  | notifyLeader x n term => exact served_notifyLeader mm.leader x n term
  | checkAndReassign order => exact served_checkAndReassign mm.leader order
  | startMigration x R =>
    rw [apply]
    split
    · exact .refl _
    · rename_i mm' h
      exact mm.served_startMigration h
  | checkMigrations o => exact mm.served_checkMigrations o
  | splitShard y x R =>
    rw [apply]
    split
    · exact .refl _
    · rename_i mm' h
      obtain ⟨shards, hadd, rfl⟩ := splitShard_ok h
      obtain ⟨hs, hm⟩ := initTerm_stores { mm.leader with shards := shards } x
      exact .of_shards (.addShard _) (·.addShard _) (fun _ => rfl) (by rw [hs]; exact hadd) hm

end MigrationManager

/-! ## Versions -/

namespace ShardMap

variable (m : ShardMap)

/-- The shards, as a set. -/
def contents : Set ShardInfo := {sh | ∃ x, m.shards.lookup x = some sh}

/-- In an order that has all their IDs, the shards come completely. -/
theorem mem_all {order : List String} (horder : order.toFinset = m.shards.keys) (sh : ShardInfo) :
    sh ∈ m.all order ↔ sh ∈ m.contents := by
  rw [mem_all_iff horder]
  constructor
  · exact fun h => ⟨sh.id, h⟩
  · rintro ⟨x, hx⟩
    rwa [m.id_eq x sh hx]

end ShardMap

namespace Membership

variable {m m' : Membership}

theorem addresses_recordHeartbeat {now : Time} {nodeID : String} {shards : List ShardStatus}
    (h : m.recordHeartbeat now nodeID shards = .ok m') : m'.addresses = m.addresses := by
  rw [recordHeartbeat] at h
  split at h
  · cases h
  · rename_i ns hns
    obtain rfl := Except.ok.inj h
    refine Finmap.ext_lookup fun x => ?_
    by_cases hx : x = nodeID
    · subst hx
      simp [addresses, Finmap.lookup_mapValues, hns]
    · simp [addresses, Finmap.lookup_mapValues, Finmap.lookup_insert_of_ne _ hx]

theorem addresses_refreshLiveness (m : Membership) (now : Time) :
    (m.refreshLiveness now).addresses = m.addresses := by
  refine Finmap.ext_lookup fun x => ?_
  simp only [addresses, refreshLiveness, Finmap.lookup_mapValues]
  cases m.nodes.lookup x <;> rfl

/-- Registering a node anew with the address that it has. -/
theorem addresses_addNode {spec : NodeSpec} (h : m.addresses.lookup spec.id = some spec.address) :
    (m.addNode spec).addresses = m.addresses := by
  refine Finmap.ext_lookup fun x => ?_
  by_cases hx : x = spec.id
  · subst hx
    rw [h]
    simp only [addresses, addNode, Finmap.lookup_mapValues, Finmap.lookup_insert, Option.map_some]
    cases m.nodes.lookup spec.id <;> rfl
  · simp only [addresses, addNode, Finmap.lookup_mapValues, Finmap.lookup_insert_of_ne _ hx]

end Membership

namespace MapService

/-- Two responses with the same shards and the same addresses. -/
def SameMap (r r' : ShardMapResponse) : Prop :=
  (∀ sh, sh ∈ r.shards ↔ sh ∈ r'.shards) ∧ r.nodeAddresses = r'.nodeAddresses

/-- The version of a response identifies what it carries; in particular a node whose
    version is not below the current one has what is current. -/
structure Identifies (st : MapService) : Prop where
  responses : ∀ r ∈ st.responses, ∀ r' ∈ st.responses, r.version = r'.version → SameMap r r'
  current : ∀ r ∈ st.responses, st.shards.version ≤ r.version →
    (∀ sh, sh ∈ r.shards ↔ sh ∈ st.shards.contents) ∧ r.nodeAddresses = st.membership.addresses

/-- A step that registers a node, and changes an address, is taken only while no response
    has the current version, and none has that of a call under way. -/
def Unseen (st : MapService) : StoreOp → Prop
  | .addNode spec => st.membership.addresses.lookup spec.id ≠ some spec.address →
    ∀ r ∈ st.responses, r.version ≠ st.shards.version ∧ ∀ p ∈ st.pending, p.version ≠ r.version
  | _ => True

instance (st : MapService) : ∀ op, Decidable (st.Unseen op)
  | .addNode spec => inferInstanceAs (Decidable
      (st.membership.addresses.lookup spec.id ≠ some spec.address → ∀ r ∈ st.responses, _ ∧ _))
  | .addShard _ => .isTrue trivial
  | .setLeader _ _ => .isTrue trivial
  | .setReplicas _ _ => .isTrue trivial
  | .setIncomingReplicas _ _ => .isTrue trivial
  | .clearBootstrapSource _ => .isTrue trivial
  | .recordHeartbeat _ _ _ => .isTrue trivial
  | .refreshLiveness _ => .isTrue trivial
  | .snapshot _ => .isTrue trivial
  | .respond _ => .isTrue trivial

/-- The invariant: what the calls have seen at each version. `C` are the shards of the
    versions so far. -/
structure Recorded (C : ℕ → Set ShardInfo) (st : MapService) : Prop where
  current : C st.shards.version = st.shards.contents
  pending : ∀ p ∈ st.pending, p.version ≤ st.shards.version ∧
    ∀ sh, sh ∈ p.shards ↔ sh ∈ C p.version
  responses : ∀ r ∈ st.responses, r.version ≤ st.shards.version ∧
    ∀ sh, sh ∈ r.shards ↔ sh ∈ C r.version
  /-- A response to which one of the same version may be added has the current addresses. -/
  addresses : ∀ r ∈ st.responses,
    r.version = st.shards.version ∨ (∃ p ∈ st.pending, p.version = r.version) →
      r.nodeAddresses = st.membership.addresses
  agree : ∀ r ∈ st.responses, ∀ r' ∈ st.responses, r.version = r'.version →
    r.nodeAddresses = r'.nodeAddresses

namespace Recorded

variable {C : ℕ → Set ShardInfo} {st st' : MapService}

theorem start (nodes : List NodeSpec) (failureTimeout : Time) :
    Recorded (fun _ => ∅) (MapService.start nodes failureTimeout) where
  current := by
    ext sh
    simp [MapService.start, ShardMap.contents, ShardMap.new]
  pending := by simp [MapService.start]
  responses := by simp [MapService.start]
  addresses := by simp [MapService.start]
  agree := by simp [MapService.start]

theorem identifies (h : Recorded C st) : st.Identifies where
  responses r hr r' hr' hv :=
    ⟨fun sh => by rw [(h.responses r hr).2, (h.responses r' hr').2, hv], h.agree r hr r' hr' hv⟩
  current r hr hle := by
    have hv := le_antisymm (h.responses r hr).1 hle
    exact ⟨fun sh => by rw [(h.responses r hr).2, hv, h.current], h.addresses r hr (.inl hv)⟩

/-- A change of the shards gets to a version that no call has seen. -/
theorem setShards {m : ShardMap} (h : Recorded C st) (hlater : Later st.shards m) :
    ∃ C', Recorded C' { st with shards := m } := by
  rcases hlater with rfl | hlt
  · exact ⟨C, h⟩
  · refine ⟨Function.update C m.version m.contents, ?_, fun p hp => ?_, fun r hr => ?_,
      fun r hr hv => ?_, h.agree⟩
    · exact Function.update_self _ _ _
    · obtain ⟨hle, hshards⟩ := h.pending p hp
      exact ⟨hle.trans hlt.le, fun sh => by
        rw [hshards, Function.update_of_ne (hle.trans_lt hlt).ne]⟩
    · obtain ⟨hle, hshards⟩ := h.responses r hr
      exact ⟨hle.trans hlt.le, fun sh => by
        rw [hshards, Function.update_of_ne (hle.trans_lt hlt).ne]⟩
    · refine h.addresses r hr (hv.imp_left fun heq => ?_)
      exact absurd heq ((h.responses r hr).1.trans_lt hlt).ne

/-- What is known of the nodes, apart from their addresses, plays no part. -/
theorem setMembership {m : Membership} (h : Recorded C st)
    (haddr : m.addresses = st.membership.addresses) :
    Recorded C { st with membership := m } :=
  ⟨h.current, h.pending, h.responses, fun r hr hv => (h.addresses r hr hv).trans haddr.symm,
    h.agree⟩

/-- New addresses, while there is no response to which one of the same version may be
    added. -/
theorem newAddresses {m : Membership} (h : Recorded C st)
    (hunseen : ∀ r ∈ st.responses,
      r.version ≠ st.shards.version ∧ ∀ p ∈ st.pending, p.version ≠ r.version) :
    Recorded C { st with membership := m } := by
  refine ⟨h.current, h.pending, h.responses, fun r hr hv => ?_, h.agree⟩
  obtain ⟨hcurrent, hpending⟩ := hunseen r hr
  rcases hv with hv | ⟨p, hp, hv⟩
  · exact absurd hv hcurrent
  · exact absurd hv (hpending p hp)

theorem snapshot {order : List String} (h : Recorded C st)
    (horder : order.toFinset = st.shards.shards.keys) :
    Recorded C
      { st with pending := st.pending ++ [⟨st.shards.version, st.shards.all order⟩] } where
  current := h.current
  pending := List.forall_mem_concat h.pending ⟨le_rfl, fun sh => by
    rw [h.current]
    exact st.shards.mem_all horder sh⟩
  responses := h.responses
  addresses r hr hv := by
    refine h.addresses r hr ?_
    rcases hv with hv | ⟨p, hp, hv⟩
    · exact .inl hv
    · rcases List.mem_append.1 hp with hp | hp
      · exact .inr ⟨p, hp, hv⟩
      · exact .inl (by rw [← hv, List.mem_singleton.1 hp])
  agree := h.agree

theorem respond {i : ℕ} {p : MapSnapshot} (h : Recorded C st) (hp : st.pending[i]? = some p) :
    Recorded C
      { st with
        pending := st.pending.eraseIdx i
        responses := st.responses ++ [⟨p.version, p.shards, st.membership.addresses⟩] } := by
  have hmem := List.mem_of_getElem? hp
  -- A response of this version has the current addresses, as the call was under way.
  have hsame : ∀ r ∈ st.responses, r.version = p.version →
      r.nodeAddresses = st.membership.addresses :=
    fun r hr hv => h.addresses r hr (.inr ⟨p, hmem, hv.symm⟩)
  refine ⟨h.current, fun q hq => h.pending q (List.mem_of_mem_eraseIdx hq),
    List.forall_mem_concat h.responses (h.pending p hmem),
    List.forall_mem_concat (fun r hr hv => ?_) fun _ => rfl,
    List.forall_mem_concat
      (fun r hr => List.forall_mem_concat (h.agree r hr) (hsame r hr))
      (List.forall_mem_concat (fun r hr hv => ?_) fun _ => rfl)⟩
  · refine h.addresses r hr (hv.imp_right ?_)
    rintro ⟨q, hq, hv⟩
    exact ⟨q, List.mem_of_mem_eraseIdx hq, hv⟩
  · exact (hsame r hr hv.symm).symm

/-- The step lemma. -/
theorem step (h : Recorded C st) {op : StoreOp} (hop : st.Unseen op)
    (hstep : st.step op = some st') : ∃ C', Recorded C' st' := by
  cases op with
  | addShard info =>
    obtain rfl := Option.some.inj hstep
    exact h.setShards (st.shards.later_orKeep fun m' hm' => by
      obtain ⟨-, rfl⟩ := ShardMap.addShard_ok hm'
      exact st.shards.later_insert _)
  | setLeader x n =>
    obtain rfl := Option.some.inj hstep
    exact h.setShards (st.shards.later_orKeep fun m' hm' => by
      obtain ⟨s, -, -, rfl⟩ := ShardMap.setLeader_ok hm'
      exact st.shards.later_insert _)
  | setReplicas x R =>
    obtain rfl := Option.some.inj hstep
    exact h.setShards (st.shards.later_update x _)
  | setIncomingReplicas x R =>
    obtain rfl := Option.some.inj hstep
    exact h.setShards (st.shards.later_update x _)
  | clearBootstrapSource x =>
    obtain rfl := Option.some.inj hstep
    exact h.setShards (st.shards.later_orKeep fun m' hm' => by
      rcases ShardMap.clearBootstrapSource_ok hm' with rfl | ⟨s, -, rfl⟩
      · exact .inl rfl
      · exact st.shards.later_insert _)
  | recordHeartbeat now nodeID shards =>
    rw [MapService.step] at hstep
    split at hstep <;> obtain rfl := Option.some.inj hstep
    · exact ⟨C, h⟩
    · exact ⟨C, h.setMembership (Membership.addresses_recordHeartbeat ‹_›)⟩
  | refreshLiveness now =>
    obtain rfl := Option.some.inj hstep
    exact ⟨C, h.setMembership (st.membership.addresses_refreshLiveness now)⟩
  | addNode spec =>
    obtain rfl := Option.some.inj hstep
    by_cases hsame : st.membership.addresses.lookup spec.id = some spec.address
    · exact ⟨C, h.setMembership (Membership.addresses_addNode hsame)⟩
    · exact ⟨C, h.newAddresses (hop hsame)⟩
  | snapshot order =>
    rw [MapService.step] at hstep
    split_ifs at hstep with horder
    obtain rfl := Option.some.inj hstep
    exact ⟨C, h.snapshot horder⟩
  | respond i =>
    obtain ⟨p, hp, rfl⟩ := Option.map_eq_some_iff.1 hstep
    exact ⟨C, h.respond hp⟩

end Recorded

end MapService

/-- In every run of the stores of a coordinator in which an address changes only while no
    response has the current version, nor that of a call under way, the version of a
    response identifies its shards and its addresses at every moment. -/
theorem identifies_of_unseen (nodes : List NodeSpec) (failureTimeout : Time) (ops : List StoreOp)
    (hops : Along MapService.step MapService.Unseen (.start nodes failureTimeout) ops) :
    Throughout MapService.step MapService.Identifies (.start nodes failureTimeout) ops := by
  have hstep : ∀ (st : MapService) op st', (∃ C, MapService.Recorded C st) → st.Unseen op →
      st.step op = some st' → ∃ C, MapService.Recorded C st' := by
    rintro st op st' ⟨C, h⟩ hop hstep
    exact h.step hop hstep
  refine Throughout.mono ?_ (throughout hstep ⟨_, .start nodes failureTimeout⟩ hops)
  rintro st ⟨C, h⟩
  exact h.identifies

/-- A shard and its first response, with an address that changes before it. -/
def addressFirst : List StoreOp :=
  [.addShard exampleShard, .addNode ⟨"b", "b:2"⟩, .snapshot ["shard-0"], .respond 0]

/-- The same with an address that changes after it, and another response. -/
def addressLater : List StoreOp :=
  [.addShard exampleShard, .snapshot ["shard-0"], .respond 0, .addNode ⟨"d", "d:1"⟩,
    .snapshot ["shard-0"], .respond 0]

/-- The first run is as it should be. -/
theorem identifies_addressFirst :
    (exec MapService.step (.start [⟨"a", "a:1"⟩, ⟨"b", "b:1"⟩] 100) addressFirst).isSome ∧
      Throughout MapService.step MapService.Identifies (.start [⟨"a", "a:1"⟩, ⟨"b", "b:1"⟩] 100)
        addressFirst :=
  ⟨by decide +kernel, identifies_of_unseen _ 100 addressFirst (by decide +kernel)⟩

/-- The second run has two responses of version 1, of which only the second one has the
    address of `d`. A node with the first one does not fetch the map again. -/
theorem version_reused :
    ∃ st, exec MapService.step (.start [⟨"a", "a:1"⟩, ⟨"b", "b:1"⟩] 100) addressLater = some st ∧
      st.responses.map (·.version) = [1, 1] ∧
      st.responses.map (·.nodeAddresses.lookup "d") = [none, some "d:1"] ∧
      st.shards.version = 1 ∧ ¬st.Identifies := by
  have hrun : (exec MapService.step (.start [⟨"a", "a:1"⟩, ⟨"b", "b:1"⟩] 100) addressLater).map
      (fun st => (st.responses.map (·.version), st.responses.map (·.nodeAddresses.lookup "d"),
        st.shards.version)) = some ([1, 1], [none, some "d:1"], 1) := by
    decide +kernel
  obtain ⟨st, hst, heq⟩ := Option.map_eq_some_iff.1 hrun
  simp only [Prod.mk.injEq] at heq
  obtain ⟨hversions, haddresses, hcurrent⟩ := heq
  refine ⟨st, hst, hversions, haddresses, hcurrent, fun h => ?_⟩
  obtain ⟨r, rs, hrs, hr, hrest⟩ := List.map_eq_cons_iff.1 hversions
  obtain ⟨r', rs', rfl, hr', -⟩ := List.map_eq_cons_iff.1 hrest
  have hsame := (h.responses r (by simp [hrs]) r' (by simp [hrs]) (hr.trans hr'.symm)).2
  rw [hrs, List.map_cons, List.map_cons, hsame] at haddresses
  simp only [List.cons.injEq] at haddresses
  exact absurd (haddresses.1.symm.trans haddresses.2.1) (by simp)

end Doki
