import Doki.Coordinator.Leader
import Doki.Lib.Lists
import Doki.Lib.Runs
import Doki.Node.Reconciliation

/-!
# Promotion by the coordinator

A coordinator and the nodes that fetch its shard map. The coordinator gives a shard
a new leader when it takes the old one for dead, and a node leads a shard as soon
as it applies a map that names it. Nothing tells the old leader before: until it
has applied a newer map itself, there are two. The term would tell them apart if
the new leader had a newer one, but the map does not carry the coordinator's term,
and the term of a replica stays what it was (`Server.LeadsBy`).

What a node could go by are the versions of the maps. A replica leads because the map of
its version names the node, and there is one map of every version (`ServedMaps`).

* `Deployment.InOrder`: a node is promoted by a map only when those that other maps make
  the leader are past the older ones of these maps, and not yet at the newer ones;
* `Deployment.oneLeaderPerTerm_of_inOrder`: then leaders have different terms in every run;
* `Deployment.two_leaders`: two leaders of a shard in the same term.
-/

namespace Doki

open Runs

/-- The map names the node as the leader of the shard. -/
def ShardMapResponse.Names (m : ShardMapResponse) (shardID nodeID : String) : Prop :=
  ∃ shard ∈ m.shards, shard.id = shardID ∧ shard.leader = nodeID

instance (m : ShardMapResponse) (shardID nodeID : String) : Decidable (m.Names shardID nodeID) :=
  inferInstanceAs (Decidable (∃ shard ∈ m.shards, _ ∧ _))

namespace Server

/-- The node has a replica that leads the shard. -/
def leads (s : Server) (shardID : String) : Bool :=
  (s.replicas.lookup shardID).any fun r => decide (r.role = .leader)

/-- The term of the replica of a shard: the current one, or the one on disk. -/
def termFor (s : Server) (shardID : String) : ℕ :=
  match s.replicas.lookup shardID with
  | some r => r.term
  | none => diskTerm s.cfg (s.diskFiles shardID)

/-- The map gives the shard to the node, which does not lead it yet, and names it as the
    leader. -/
def Promotes (s : Server) (shard : ShardInfo) : Prop :=
  shard.hasReplica s.cfg.nodeID = true ∧ shard.leader = s.cfg.nodeID ∧ s.leads shard.id = false

instance (s : Server) (shard : ShardInfo) : Decidable (s.Promotes shard) :=
  inferInstanceAs (Decidable (_ ∧ _ ∧ _))

/-- How the replica `r` of `x` comes to lead under a map: it has been left alone, it has led
    before and is named again, or it is promoted. In any case its term is what it was. -/
inductive LeadsBy (s : Server) (resp : ShardMapResponse) (x : String) (r : ReplicaState) : Prop
  | kept (h : s.replicas.lookup x = some r)
  | again (r₀ : ReplicaState) (h : s.replicas.lookup x = some r₀) (hrole : r₀.role = .leader)
      (hterm : r.term = r₀.term) (hnames : resp.Names x s.cfg.nodeID)
      (hversion : r.shardMapVersion = resp.version)
  | promoted (shard : ShardInfo) (hmem : shard ∈ resp.shards) (hid : shard.id = x)
      (h : s.Promotes shard) (hterm : r.term = s.termFor x)
      (hversion : r.shardMapVersion = resp.version)

variable {s : Server} {resp : ShardMapResponse} {now : Time} {x : String} {r : ReplicaState}

/-- A new replica that leads is named by the map. -/
theorem LeadsBy.of_new {shard : ShardInfo} {resp' : ShardMapResponse}
    (hnone : s.replicas.lookup x = none) (hmem : shard ∈ resp.shards) (hid : shard.id = x)
    (hrep : shard.hasReplica s.cfg.nodeID = true) (sh : ShardInfo) (hsh : sh.leader = shard.leader)
    (hresp : resp'.version = resp.version)
    (hrole : (initShard s.cfg sh resp' now (s.diskFiles x)).role = .leader) :
    s.LeadsBy resp x (initShard s.cfg sh resp' now (s.diskFiles x)) := by
  subst hid
  have hconf := configured_initShard s.cfg sh resp' now (s.diskFiles shard.id)
  have hnode := (initShard_vote s.cfg sh resp' now (s.diskFiles shard.id)).1
  refine .promoted shard hmem rfl ⟨hrep, ?_, by simp [leads, hnone]⟩ ?_
    (hconf.shardMapVersion.trans hresp)
  · rw [← hsh, hconf.role.1 hrole, hnode]
  · rw [term_initShard, termFor, hnone]

/-- What a map fetched again makes of the leaders. -/
theorem leadsBy_refetchShardMap
    (h : (s.refetchShardMap resp now).replicas.lookup x = some r) (hrole : r.role = .leader) :
    s.LeadsBy resp x r := by
  rw [refetchShardMap, Finmap.lookup_mapValues] at h
  obtain ⟨sh, hsh, rfl⟩ := Option.map_eq_some_iff.1 h
  obtain ⟨hmem, hrep, hid⟩ := lookup_shouldHost hsh
  obtain ⟨shard, hshard, rfl⟩ := List.mem_map.1 hmem
  rw [refetchReplica] at hrole ⊢
  split at hrole
  · rename_i r₀ hr₀
    have hleader := ReplicaState.leader_of_applyShard hrole
    rw [s.nodeID_eq x r₀ hr₀] at hleader
    by_cases hlead : r₀.role = .leader
    · exact .again r₀ hr₀ hlead rfl ⟨shard, hshard, hid, hleader⟩ rfl
    · -- It has not led before: the map has promoted it.
      refine .promoted shard hshard hid ⟨hrep, hleader, ?_⟩ (by rw [termFor, hr₀]; rfl) rfl
      rw [leads, show shard.id = x from hid, hr₀]
      simpa using hlead
  · rename_i hnone
    exact .of_new hnone hshard hid hrep _ rfl rfl hrole

/-- The server `t` is `s` with some replicas created by the map. -/
structure CreatedFrom (s : Server) (resp : ShardMapResponse) (t : Server) : Prop where
  cfg : t.cfg = s.cfg
  diskFiles : t.diskFiles = s.diskFiles
  lookup_none : ∀ y, t.replicas.lookup y = none → s.replicas.lookup y = none
  leadsBy : ∀ y r, t.replicas.lookup y = some r → r.role = .leader → s.LeadsBy resp y r

/-- One more replica is created. -/
theorem CreatedFrom.initShardLocked {t : Server} (h : s.CreatedFrom resp t) {shard : ShardInfo}
    (hmem : shard ∈ resp.shards) (hrep : shard.hasReplica s.cfg.nodeID = true) (now : Time) :
    s.CreatedFrom resp (t.initShardLocked resp now shard) := by
  rw [Server.initShardLocked]
  split
  · exact h
  · rename_i hnew
    refine ⟨h.cfg, h.diskFiles, fun y hy => h.lookup_none y ?_, fun y r hy hrole => ?_⟩
    · by_cases hys : y = shard.id
      · rwa [hys]
      · rwa [Finmap.lookup_insert_of_ne _ hys] at hy
    · by_cases hys : y = shard.id
      · subst hys
        rw [Finmap.lookup_insert, h.cfg, h.diskFiles] at hy
        obtain rfl := Option.some.inj hy
        exact .of_new (h.lookup_none _ hnew) hmem rfl hrep shard rfl rfl hrole
      · rw [Finmap.lookup_insert_of_ne _ hys] at hy
        exact h.leadsBy y r hy hrole

/-- What the first map makes of the leaders. -/
theorem createdFrom_initShards (s : Server) (resp : ShardMapResponse) (now : Time) :
    s.CreatedFrom resp (s.initShards resp now) := by
  -- Over the shards one after the other, with the replicas created so far.
  have hfold : ∀ (l : List ShardInfo),
      (∀ sh ∈ l, sh ∈ resp.shards ∧ sh.hasReplica s.cfg.nodeID = true) →
      ∀ t : Server, s.CreatedFrom resp t →
      s.CreatedFrom resp (l.foldl (fun s sh => s.initShardLocked resp now sh) t) := by
    intro l
    induction l with
    | nil => exact fun _ t ht => ht
    | cons sh l ih =>
      intro hl t ht
      obtain ⟨hmem, hrep⟩ := hl sh List.mem_cons_self
      exact ih (fun sh' hsh' => hl sh' (List.mem_cons_of_mem _ hsh')) _
        (ht.initShardLocked hmem hrep now)
  exact hfold _ (fun sh hsh => List.mem_filter.1 hsh) _
    ⟨rfl, rfl, fun _ hy => hy, fun y r hy _ => .kept hy⟩

end Server

/-! ## The maps that are served -/

/-- A check of a shard leaves the map, or gives it a new version. -/
theorem LeaderManager.later_checkShard (lm : LeaderManager) (shard : ShardInfo) :
    Later lm.shards (lm.checkShard shard).shards := by
  have hreassign : Later lm.shards (lm.reassign shard).shards := by
    rw [reassign]
    split
    · exact .inl rfl
    · split
      · exact .inl rfl
      · rename_i shards hset
        obtain ⟨s, -, -, rfl⟩ := ShardMap.setLeader_ok hset
        exact lm.shards.later_insert _
  rw [checkShard]
  split_ifs
  · exact hreassign
  · exact hreassign
  · exact .inl rfl

/-- The maps that have been served: none is ahead of the coordinator's, those of its version
    have its shards, and two of one version have the same. -/
structure ServedMaps (shards : ShardMap) (responses : List ShardMapResponse) : Prop where
  version_le : ∀ m ∈ responses, m.version ≤ shards.version
  current : ∀ m ∈ responses, m.version = shards.version →
    ∀ sh ∈ m.shards, shards.shards.lookup sh.id = some sh
  unique : ∀ m ∈ responses, ∀ m' ∈ responses, m.version = m'.version →
    ∀ sh ∈ m.shards, ∀ sh' ∈ m'.shards, sh.id = sh'.id → sh = sh'

namespace ServedMaps

variable {shards shards' : ShardMap} {responses : List ShardMapResponse}

theorem nil (shards : ShardMap) : ServedMaps shards [] where
  version_le := List.forall_mem_nil _
  current := List.forall_mem_nil _
  unique := List.forall_mem_nil _

theorem later (h : ServedMaps shards responses) (hl : Later shards shards') :
    ServedMaps shards' responses where
  version_le m hm := (h.version_le m hm).trans hl.version_le
  current m hm hversion := by
    rcases hl with rfl | hlt
    · exact h.current m hm hversion
    · exact absurd (h.version_le m hm) (by omega)
  unique := h.unique

/-- The map is served as it is. -/
theorem serve {lm : LeaderManager} (h : ServedMaps lm.shards responses) {order : List String}
    (horder : order.toFinset = lm.shards.shards.keys) :
    ServedMaps lm.shards (responses ++ [lm.getShardMap order]) := by
  have hnew : ∀ sh ∈ (lm.getShardMap order).shards, lm.shards.shards.lookup sh.id = some sh :=
    fun sh hsh => (lm.shards.mem_all_iff horder sh).1 hsh
  have hcurrent : ∀ m ∈ responses ++ [lm.getShardMap order], m.version = lm.shards.version →
      ∀ sh ∈ m.shards, lm.shards.shards.lookup sh.id = some sh :=
    List.forall_mem_concat h.current fun _ => hnew
  refine ⟨List.forall_mem_concat h.version_le le_rfl, hcurrent, fun m hm m' hm' hversion => ?_⟩
  -- Two maps of the present version are both the coordinator's.
  have hsame : m.version = lm.shards.version →
      ∀ sh ∈ m.shards, ∀ sh' ∈ m'.shards, sh.id = sh'.id → sh = sh' :=
    fun hnow sh hsh sh' hsh' hid => by
      have hlookup := hcurrent m hm hnow sh hsh
      rw [hid, hcurrent m' hm' (hversion.symm.trans hnow) sh' hsh'] at hlookup
      exact (Option.some.inj hlookup).symm
  rcases List.mem_append.1 hm with hold | hm
  · rcases List.mem_append.1 hm' with hold' | hm'
    · exact h.unique m hold m' hold' hversion
    · exact hsame (hversion.trans (by rw [List.mem_singleton.1 hm']; rfl))
  · exact hsame (by rw [List.mem_singleton.1 hm]; rfl)

/-- Two maps of one version name the same leader. -/
theorem eq_of_names (h : ServedMaps shards responses) {m m' : ShardMapResponse} (hm : m ∈ responses)
    (hm' : m' ∈ responses) (hversion : m.version = m'.version) {x i j : String}
    (hi : m.Names x i) (hj : m'.Names x j) : i = j := by
  obtain ⟨sh, hsh, hid, rfl⟩ := hi
  obtain ⟨sh', hsh', hid', rfl⟩ := hj
  rw [h.unique m hm m' hm' hversion sh hsh sh' hsh' (hid.trans hid'.symm)]

end ServedMaps

/-! ## Deployments -/

/-- The coordinator, and the nodes. -/
structure Deployment where
  ids : List String
  lm : LeaderManager
  /-- The runs of `CheckAndReassign` under way: the shards that are still to be checked,
      as they were when the run began. -/
  checks : List (List ShardInfo)
  /-- The shard maps that have been served, and may be applied at any later time. -/
  responses : List ShardMapResponse
  servers : String → Server

/-- What can happen in a deployment. A run and a response are named by their index. -/
inductive DeploymentAction
  | heartbeat (nodeID : String) (shards : List ShardStatus) (now : Time)
  | refreshLiveness (now : Time)
  | checkStart (order : List String)
  | checkNext (k : ℕ)
  | getShardMap (order : List String)
  | initShards (i : String) (k : ℕ) (now : Time)
  | refetchShardMap (i : String) (k : ℕ) (now : Time)

namespace Deployment

variable (d : Deployment)

/-- The shards of the map may come in this order. -/
def IsOrder (order : List String) : Prop :=
  order.Nodup ∧ order.toFinset = d.lm.shards.shards.keys

instance (order : List String) : Decidable (d.IsOrder order) :=
  inferInstanceAs (Decidable (_ ∧ _))

/-- The node `i` has changed. -/
def setServer (i : String) (s : Server) : Deployment :=
  { d with servers := Function.update d.servers i s }

/-- One step of the deployment. A node fetches the map again when the version it has
    is not the newest one. -/
def step (d : Deployment) : DeploymentAction → Option Deployment
  | .heartbeat nodeID shards now =>
    match d.lm.membership.recordHeartbeat now nodeID shards with
    | .error _ => none
    | .ok m => some { d with lm := { d.lm with membership := m } }
  | .refreshLiveness now =>
    some { d with lm := { d.lm with membership := d.lm.membership.refreshLiveness now } }
  | .checkStart order =>
    if d.IsOrder order then some { d with checks := d.checks ++ [d.lm.shards.all order] }
    else none
  | .checkNext k =>
    match d.checks[k]? with
    | some (shard :: rest) =>
      some { d with lm := d.lm.checkShard shard, checks := d.checks.set k rest }
    | _ => none
  | .getShardMap order =>
    if d.IsOrder order then some { d with responses := d.responses ++ [d.lm.getShardMap order] }
    else none
  | .initShards i k now =>
    (d.responses[k]?).bind fun resp =>
      if i ∈ d.ids then some (d.setServer i ((d.servers i).initShards resp now)) else none
  | .refetchShardMap i k now =>
    (d.responses[k]?).bind fun resp =>
      if i ∈ d.ids ∧ (d.servers i).shardMapVersion < resp.version then
        some (d.setServer i ((d.servers i).refetchShardMap resp now))
      else none

/-- A step that applies a map, by node and map. -/
def applies : DeploymentAction → Option (String × ShardMapResponse)
  | .initShards i k _ | .refetchShardMap i k _ => (d.responses[k]?).map fun resp => (i, resp)
  | _ => none

/-- No two nodes lead a shard in the same term. -/
def OneLeaderPerTerm : Prop :=
  ∀ i ∈ d.ids, ∀ j ∈ d.ids, i ≠ j → ∀ x r r', (d.servers i).replicas.lookup x = some r →
    (d.servers j).replicas.lookup x = some r' → r.role = .leader → r'.role = .leader →
    r.term ≠ r'.term

/-- A step in which no promotion comes out of order. When a node applies a map that promotes
    it, another node whose replica of the shard has the same term may be named as the leader
    by an older map only if it has not come to that map, or has come to this one; and by a
    newer map only if it has not come to that. -/
def InOrder (a : DeploymentAction) : Prop :=
  ∀ x ∈ d.applies a, ∀ shard ∈ x.2.shards, (d.servers x.1).Promotes shard →
    ∀ j ∈ d.ids, j ≠ x.1 → ∀ r ∈ (d.servers j).replicas.lookup shard.id,
      r.term = (d.servers x.1).termFor shard.id → ∀ m ∈ d.responses, m.Names shard.id j →
        (m.version < x.2.version →
          r.shardMapVersion < m.version ∨ x.2.version ≤ r.shardMapVersion) ∧
        (x.2.version < m.version → r.shardMapVersion < m.version)

instance (a : DeploymentAction) : Decidable (d.InOrder a) :=
  inferInstanceAs (Decidable (∀ x ∈ d.applies a, ∀ shard ∈ x.2.shards,
    (d.servers x.1).Promotes shard → ∀ j ∈ d.ids, j ≠ x.1 →
      ∀ r ∈ (d.servers j).replicas.lookup shard.id,
        r.term = (d.servers x.1).termFor shard.id → ∀ m ∈ d.responses, m.Names shard.id j →
          (m.version < x.2.version →
            r.shardMapVersion < m.version ∨ x.2.version ≤ r.shardMapVersion) ∧
          (x.2.version < m.version → r.shardMapVersion < m.version)))

/-- Where the runs start: the nodes have their names and no replicas, and no map has been
    served. -/
structure Start : Prop where
  nodeID : ∀ i ∈ d.ids, (d.servers i).cfg.nodeID = i
  replicas : ∀ i ∈ d.ids, (d.servers i).replicas = ∅
  responses : d.responses = []

/-- The invariant: every leader is named by a map of its version. -/
structure Traced : Prop where
  nodeID : ∀ i ∈ d.ids, (d.servers i).cfg.nodeID = i
  served : ServedMaps d.lm.shards d.responses
  named : ∀ i ∈ d.ids, ∀ x r, (d.servers i).replicas.lookup x = some r → r.role = .leader →
    ∃ m ∈ d.responses, m.version = r.shardMapVersion ∧ m.Names x i
  apart : d.OneLeaderPerTerm

/-- What a step does: the coordinator changes, or serves its map, or a node applies one. -/
inductive Moves (d : Deployment) (a : DeploymentAction) : Deployment → Prop
  | coordinator (lm : LeaderManager) (checks : List (List ShardInfo))
      (hlater : Later d.lm.shards lm.shards) : Moves d a { d with lm := lm, checks := checks }
  | served (order : List String) (horder : d.IsOrder order) :
      Moves d a { d with responses := d.responses ++ [d.lm.getShardMap order] }
  | applied (i : String) (resp : ShardMapResponse) (s : Server)
      (happlies : d.applies a = some (i, resp)) (hi : i ∈ d.ids) (hresp : resp ∈ d.responses)
      (hcfg : s.cfg = (d.servers i).cfg)
      (hleads : ∀ x r, s.replicas.lookup x = some r → r.role = .leader →
        (d.servers i).LeadsBy resp x r) : Moves d a (d.setServer i s)

variable {d} {d' : Deployment}

theorem moves_of_step {a : DeploymentAction} (h : d.step a = some d') : d.Moves a d' := by
  cases a with
  | heartbeat nodeID shards now =>
    rw [step] at h
    split at h <;> cases h
    exact .coordinator _ d.checks (.inl rfl)
  | refreshLiveness now =>
    cases h
    exact .coordinator _ d.checks (.inl rfl)
  | checkStart order =>
    rw [step] at h
    split_ifs at h
    cases h
    exact .coordinator d.lm _ (.inl rfl)
  | getShardMap order =>
    rw [step] at h
    split_ifs at h with horder
    cases h
    exact .served order horder
  | checkNext k =>
    rw [step] at h
    split at h <;> cases h
    exact .coordinator _ _ (d.lm.later_checkShard _)
  | initShards i k now =>
    obtain ⟨resp, hresp, h⟩ := Option.bind_eq_some_iff.1 h
    split_ifs at h with hi
    cases h
    have hcreated := Server.createdFrom_initShards (d.servers i) resp now
    exact .applied i resp _ (by simp [applies, hresp]) hi (List.mem_of_getElem? hresp)
      hcreated.cfg hcreated.leadsBy
  | refetchShardMap i k now =>
    obtain ⟨resp, hresp, h⟩ := Option.bind_eq_some_iff.1 h
    split_ifs at h with hi
    cases h
    exact .applied i resp _ (by simp [applies, hresp]) hi.1 (List.mem_of_getElem? hresp) rfl
      fun x r hr hrole => Server.leadsBy_refetchShardMap hr hrole

section Applied

variable {a : DeploymentAction} {i j x : String} {resp : ShardMapResponse} {r r' : ReplicaState}

/-- A leader under a map is named by it, or by the one before. -/
theorem Traced.named_of_leadsBy (h : d.Traced) (hi : i ∈ d.ids) (hresp : resp ∈ d.responses)
    (hleads : (d.servers i).LeadsBy resp x r) (hrole : r.role = .leader) :
    ∃ m ∈ d.responses, m.version = r.shardMapVersion ∧ m.Names x i := by
  have hnode := h.nodeID i hi
  cases hleads with
  | kept hr => exact h.named i hi x r hr hrole
  | again r₀ hr₀ hrole₀ hterm hnames hversion =>
    exact ⟨resp, hresp, hversion.symm, hnode ▸ hnames⟩
  | promoted shard hmem hid hpromotes hterm hversion =>
    exact ⟨resp, hresp, hversion.symm, shard, hmem, hid, hpromotes.2.1.trans hnode⟩

/-- A leader that has just applied a map has another term than those before it. -/
theorem Traced.ne_of_leadsBy (h : d.Traced) (hC : d.InOrder a)
    (happlies : d.applies a = some (i, resp)) (hi : i ∈ d.ids) (hresp : resp ∈ d.responses)
    (hj : j ∈ d.ids) (hij : j ≠ i) (hleads : (d.servers i).LeadsBy resp x r)
    (hrole : r.role = .leader) (hr' : (d.servers j).replicas.lookup x = some r')
    (hrole' : r'.role = .leader) : r'.term ≠ r.term := by
  cases hleads with
  | kept hr => exact h.apart j hj i hi hij x r' r hr' hr hrole' hrole
  | again r₀ hr₀ hrole₀ hterm hnames hversion =>
    rw [hterm]
    exact h.apart j hj i hi hij x r' r₀ hr' hr₀ hrole' hrole₀
  | promoted shard hmem hid hpromotes hterm hversion =>
    subst hid
    rw [hterm]
    intro heq
    obtain ⟨m, hm, hat, hnames⟩ := h.named j hj shard.id r' hr' hrole'
    obtain ⟨holder, hnewer⟩ :
        (m.version < resp.version →
          r'.shardMapVersion < m.version ∨ resp.version ≤ r'.shardMapVersion) ∧
        (resp.version < m.version → r'.shardMapVersion < m.version) :=
      hC (i, resp) happlies shard hmem hpromotes j hj hij r' hr' heq m hm hnames
    -- The other leader is at the map that names it, which is this one then.
    have hversion : m.version = resp.version := by
      rcases lt_trichotomy m.version resp.version with hlt | heq | hlt
      · exact absurd (holder hlt) (by omega)
      · exact heq
      · exact absurd (hnewer hlt) (by omega)
    refine hij (h.served.eq_of_names hm hresp hversion hnames ⟨shard, hmem, rfl, ?_⟩)
    exact hpromotes.2.1.trans (h.nodeID i hi)

end Applied

theorem servers_setServer_self (d : Deployment) (i : String) (s : Server) :
    (d.setServer i s).servers i = s :=
  Function.update_self ..

theorem servers_setServer_of_ne (d : Deployment) {i j : String} (hij : j ≠ i) (s : Server) :
    (d.setServer i s).servers j = d.servers j :=
  Function.update_of_ne hij ..

/-- The step lemma. -/
theorem traced_step (d : Deployment) (a : DeploymentAction) (d' : Deployment) (h : d.Traced)
    (hC : d.InOrder a) (hstep : d.step a = some d') : d'.Traced := by
  cases moves_of_step hstep with
  | coordinator lm checks hlater => exact ⟨h.nodeID, h.served.later hlater, h.named, h.apart⟩
  | served order horder =>
    refine ⟨h.nodeID, h.served.serve horder.2, fun i hi x r hr hrole => ?_, h.apart⟩
    obtain ⟨m, hm, hnamed⟩ := h.named i hi x r hr hrole
    exact ⟨m, List.mem_append_left _ hm, hnamed⟩
  | applied p resp s happlies hp hresp hcfg hleads =>
    refine ⟨fun i hi => ?_, h.served, fun i hi x r hr hrole => ?_,
      fun i hi j hj hij x r r' hr hr' hrole hrole' => ?_⟩
    · by_cases hip : i = p
      · subst hip
        rw [servers_setServer_self, hcfg]
        exact h.nodeID i hi
      · rw [servers_setServer_of_ne d hip]
        exact h.nodeID i hi
    · by_cases hip : i = p
      · subst hip
        rw [servers_setServer_self] at hr
        exact h.named_of_leadsBy hi hresp (hleads x r hr hrole) hrole
      · rw [servers_setServer_of_ne d hip] at hr
        exact h.named i hi x r hr hrole
    · -- At most one of the two leaders has just applied a map.
      by_cases hip : i = p
      · subst hip
        rw [servers_setServer_self] at hr
        rw [servers_setServer_of_ne d hij.symm] at hr'
        exact (h.ne_of_leadsBy hC happlies hi hresp hj hij.symm (hleads x r hr hrole) hrole hr'
          hrole').symm
      · rw [servers_setServer_of_ne d hip] at hr
        by_cases hjp : j = p
        · subst hjp
          rw [servers_setServer_self] at hr'
          exact h.ne_of_leadsBy hC happlies hj hresp hi hij (hleads x r' hr' hrole') hrole' hr
            hrole
        · rw [servers_setServer_of_ne d hjp] at hr'
          exact h.apart i hi j hj hij x r r' hr hr' hrole hrole'

theorem Start.traced (h : d.Start) : d.Traced where
  nodeID := h.nodeID
  served := h.responses ▸ .nil _
  named i hi x r hr := by simp [h.replicas i hi] at hr
  apart i hi j hj hij x r r' hr := by simp [h.replicas i hi] at hr

/-- In every run from nodes without replicas in which no promotion comes out of the order of
    the maps' versions, no two nodes lead a shard in the same term. -/
theorem oneLeaderPerTerm_of_inOrder (d₀ : Deployment) (hstart : d₀.Start)
    (as : List DeploymentAction) (hC : Along step InOrder d₀ as) (h : exec step d₀ as = some d) :
    d.OneLeaderPerTerm :=
  (invariant traced_step hstart.traced hC h).apart

end Deployment

/-- The coordinator of the example, as it starts. -/
def exampleManager : LeaderManager where
  shards := ShardMap.new.insert exampleShard
  membership := .new [⟨"a", "a:1"⟩, ⟨"b", "b:1"⟩, ⟨"c", "c:1"⟩] 100
  terms := Finmap.singleton "shard-0" 1

example : LeaderManager.initFromConfig
    { exampleManager with shards := .new, terms := ∅ } [⟨"shard-0", ["a", "b", "c"], "a"⟩] =
      .ok exampleManager := rfl

/-- The coordinator and the nodes of the example, before they fetch the map. -/
def exampleDeployment : Deployment where
  ids := exampleShard.replicas
  lm := exampleManager
  checks := []
  responses := []
  servers id := .new (exampleConfig id) fun _ => Files.empty

/-- The nodes `a` and `b` start; as only `b` sends a heartbeat, the coordinator makes it
    the leader. -/
def reassignRun : List DeploymentAction :=
  [.getShardMap ["shard-0"], .initShards "a" 0 0, .initShards "b" 0 0, .heartbeat "b" [] 10,
    .refreshLiveness 10, .checkStart ["shard-0"], .checkNext 0, .getShardMap ["shard-0"]]

/-- When `a` is the first one to learn of it, there is always one leader: `a` has come to the
    new map when `b` is promoted by it. -/
theorem Deployment.oneLeaderPerTerm_reassignRun :
    ∃ d, exec step exampleDeployment
        (reassignRun ++ [.refetchShardMap "a" 1 0, .refetchShardMap "b" 1 0]) = some d ∧
      (d.servers "b").leads "shard-0" = true ∧ d.OneLeaderPerTerm :=
  ⟨_, rfl, rfl, Deployment.oneLeaderPerTerm_of_inOrder exampleDeployment
    ⟨fun _ _ => rfl, fun _ _ => rfl, rfl⟩
    (reassignRun ++ [.refetchShardMap "a" 1 0, .refetchShardMap "b" 1 0])
    (by decide) rfl⟩

/-- When `b` is the first one, both lead the shard, in the term 0. -/
theorem Deployment.two_leaders :
    ∃ d r r', exec step exampleDeployment (reassignRun ++ [.refetchShardMap "b" 1 0]) = some d ∧
      (d.servers "a").replicas.lookup "shard-0" = some r ∧
      (d.servers "b").replicas.lookup "shard-0" = some r' ∧ r.role = .leader ∧
      r'.role = .leader ∧ r.term = 0 ∧ r'.term = 0 ∧ d.lm.termForShard "shard-0" = 2 :=
  ⟨_, _, _, rfl, rfl, rfl, rfl, rfl, rfl, rfl, rfl⟩

end Doki
