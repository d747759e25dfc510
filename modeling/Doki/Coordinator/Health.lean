import Doki.Coordinator.LeaderChanges
import Doki.Coordinator.Service

/-!
# Dead leaders are replaced

The health monitor looks for new leaders only when a node has come alive or is no longer.
This is enough: between two rounds, a shard whose leader is not alive has no other live
replica that could lead it (`leaders_attended`). It needs that the coordinator is not
given a leader that it takes for dead: by an election that a node has won that has not
been heard of lately, or by a migration of a shard without a live leader onto nodes that
are alive. Nothing else that is served between the stages of a round gets in the way.

A shard that is being split waits for its replicas to catch up before it gets a leader.
-/

namespace Doki

open Runs

/-- The shard is being split, and has no leader yet. -/
def ShardInfo.Waiting (s : ShardInfo) : Prop := s.leader = "" ∧ s.bootstrapSourceShardID ≠ ""

instance (s : ShardInfo) : Decidable s.Waiting := inferInstanceAs (Decidable (_ ∧ _))

/-- The shard waits for its replicas, or a search for leaders would leave it as it is. -/
def Membership.Attends (m : Membership) (s : ShardInfo) : Prop :=
  s.Waiting ∨ m.newLeader s = none

/-- Every shard waits for its replicas, or needs no new leader. -/
def LeaderManager.Attended (lm : LeaderManager) : Prop :=
  lm.shards.Every lm.membership.Attends

namespace Membership

variable {m m' : Membership}

theorem newLeader_eq_none_iff {s : ShardInfo} : m.newLeader s = none ↔
    (m.Unled s → ∀ c ∈ s.replicas, c ≠ s.leader → m.isAlive c = false) := by
  rw [← Option.not_isSome_iff_eq_none, newLeader_isSome_iff]
  simp only [not_and, not_exists, Bool.not_eq_true]

/-- A shard with a live leader is attended to. -/
theorem attends_of_alive {s : ShardInfo} (hleader : s.leader ≠ "")
    (halive : m.isAlive s.leader = true) : m.Attends s := by
  refine .inr (newLeader_eq_none_iff.2 fun hunled => ?_)
  rcases hunled with hempty | hdead
  · exact absurd hempty hleader
  · rw [halive] at hdead
    cases hdead

/-- Only the liveness of the nodes counts. -/
theorem newLeader_eq_none_congr (h : ∀ n, m'.isAlive n = m.isAlive n) {s : ShardInfo} :
    m'.newLeader s = none ↔ m.newLeader s = none := by
  simp only [newLeader_eq_none_iff, Unled, h]

/-! ### Which nodes are alive -/

theorem WellNamed.isAlive_empty (h : m.WellNamed) : m.isAlive "" = false := by
  rw [isAlive, Finmap.lookup_eq_none.2 h.named]

/-- Finding out which nodes are alive is the only operation that changes it. -/
theorem isAlive_op (m : Membership) {op : CoordinatorOp} (hop : ∀ now, op ≠ .refreshLiveness now)
    (n : String) : (op.membership m).isAlive n = m.isAlive n := by
  cases op with
  | heartbeat now nodeID shards =>
    rw [CoordinatorOp.membership, recordHeartbeat]
    cases hns : m.nodes.lookup nodeID with
    | none => rfl
    | some ns =>
      change ({ m with nodes := m.nodes.insert nodeID _ } : Membership).isAlive n = _
      by_cases hn : n = nodeID
      · subst hn
        simp only [isAlive, Finmap.lookup_insert, hns]
      · simp only [isAlive, Finmap.lookup_insert_of_ne _ hn]
  | refreshLiveness now => exact absurd rfl (hop now)
  | addNode spec =>
    rw [CoordinatorOp.membership, addNode]
    by_cases hn : n = spec.id
    · subst hn
      simp only [isAlive, Finmap.lookup_insert]
      cases m.nodes.lookup spec.id <;> rfl
    · simp only [isAlive, Finmap.lookup_insert_of_ne _ hn]
  | notifyLeader | checkAndReassign | startMigration | checkMigrations | splitShard => rfl

/-- If the list of changes is empty, nothing has changed. -/
theorem isAlive_refreshLiveness {now : Time} {order : List String}
    (horder : order.toFinset = m.nodes.keys) (h : m.changed now order = []) (n : String) :
    (m.refreshLiveness now).isAlive n = m.isAlive n := by
  rw [isAlive, isAlive, lookup_refreshLiveness]
  cases hns : m.nodes.lookup n with
  | none => rfl
  | some ns =>
    have hn : n ∈ order := by
      rw [← List.mem_toFinset, horder, Finmap.mem_keys]
      exact Finmap.mem_of_lookup_eq_some hns
    have hkeep := List.filterMap_eq_nil_iff.1 h ns (List.mem_filterMap.2 ⟨n, hn, hns⟩)
    by_cases hsame : ns.isAlive = m.aliveAt now ns
    · exact hsame.symm
    · rw [if_neg hsame] at hkeep
      cases hkeep

end Membership

/-! ### A search for leaders -/

namespace LeaderManager

variable {lm lm' : LeaderManager}

/-- The shards come completely, and each of them once. -/
def Orders (lm : LeaderManager) (order : List String) : Prop :=
  order.Nodup ∧ order.toFinset = lm.shards.shards.keys

instance (lm : LeaderManager) (order : List String) : Decidable (lm.Orders order) :=
  inferInstanceAs (Decidable (_ ∧ _))

/-- What a search does to a shard: it gets a live leader, or it stays as it is and needs
    none. -/
theorem checkAndReassign_outcome {order : List String} (horder : lm.Orders order)
    (hnamed : lm.membership.isAlive "" = false) {x : String} {s : ShardInfo}
    (hs : lm.shards.shards.lookup x = some s) :
    ∃ s', (lm.checkAndReassign order).shards.shards.lookup x = some s' ∧
      (s' = s ∧ lm.membership.newLeader s = none ∨
        s'.leader ≠ "" ∧ lm.membership.isAlive s'.leader = true) := by
  have hmem := lm.shards.mem_all_iff horder.2
  obtain ⟨hchecked, -⟩ := @checked_foldl (lm, []) (lm.shards.all order) hnamed
    (ShardMap.nodup_all horder.1) fun shard h => (hmem shard).1 h
  rw [← checkAndReassignChanged_fst]
  obtain rfl := lm.shards.id_eq x s hs
  cases hnew : lm.membership.newLeader s with
  | none =>
    refine ⟨s, ?_, .inl ⟨rfl, rfl⟩⟩
    refine (hchecked.kept s.id fun shard hshard hid => ?_).1.trans hs
    obtain rfl := Option.some.inj (hs.symm.trans (hid ▸ (hmem shard).1 hshard))
    exact hnew
  | some c =>
    have hc := (List.mem_filter.1 (List.argmax_mem (Membership.newLeader_eq_some.1 hnew).2)).2
    exact ⟨_, (hchecked.changed s ((hmem s).2 hs) c hnew).1,
      .inr ⟨Membership.ne_empty_of_eligible hnamed hc, (Membership.eligible_iff.1 hc).2⟩⟩

theorem mem_checkAndReassign {order : List String} {x : String} :
    x ∈ (lm.checkAndReassign order).shards.shards ↔ x ∈ lm.shards.shards := by
  have h := (lm.checkAndReassign_frame order).replicas x
  rw [ShardMap.replicasOf, ShardMap.replicasOf] at h
  rw [← Finmap.lookup_isSome, ← Finmap.lookup_isSome, ← Option.isSome_map, h, Option.isSome_map]

/-- After a search, no shard needs a new leader. -/
theorem attended_checkAndReassign {order : List String} (horder : lm.Orders order)
    (hnamed : lm.membership.isAlive "" = false) : (lm.checkAndReassign order).Attended := by
  intro x s' hs'
  obtain ⟨s, hs⟩ := Finmap.mem_iff.1
    (mem_checkAndReassign.1 (Finmap.mem_of_lookup_eq_some hs'))
  obtain ⟨t, ht, houtcome⟩ := checkAndReassign_outcome horder hnamed hs
  obtain rfl := Option.some.inj (ht.symm.trans hs')
  rw [(lm.checkAndReassign_frame order).membership]
  rcases houtcome with ⟨rfl, hnone⟩ | ⟨hleader, halive⟩
  · exact .inr hnone
  · exact Membership.attends_of_alive hleader halive

/-- The shards when one of them has been replaced, and the nodes when those that are
    alive are the same. -/
theorem Attended.mono (h : lm.Attended)
    (halive : ∀ n, lm'.membership.isAlive n = lm.membership.isAlive n)
    (hshards : ∀ x s', lm'.shards.shards.lookup x = some s' →
      lm.shards.shards.lookup x = some s' ∨ lm.membership.Attends s') : lm'.Attended := by
  intro x s' hs'
  have hattends : lm.membership.Attends s' := (hshards x s' hs').elim (h x s') id
  exact hattends.imp_right (Membership.newLeader_eq_none_congr halive).2

end LeaderManager

/-! ### The end of migrations and splits -/

/-- Replacing a shard keeps the IDs. -/
theorem ShardMap.keys_insert_of_lookup {m : ShardMap} {x : String} {s : ShardInfo}
    (hs : m.shards.lookup x = some s) (s' : ShardInfo) (hid : s'.id = s.id) :
    (m.insert s').shards.keys = m.shards.keys := by
  ext y
  rw [Finmap.mem_keys, Finmap.mem_keys, ← Finmap.lookup_isSome, ← Finmap.lookup_isSome,
    ShardMap.lookup_insert_of_id hs s' hid]
  split_ifs with hy
  · rw [hy, hs]
    rfl
  · rfl

/-- A split shard is marked as complete; nothing else changes. -/
theorem ShardMap.lookup_clearBootstrapSource {m m' : ShardMap} {x : String}
    (h : m.clearBootstrapSource x = .ok m') (y : String) :
    m'.shards.lookup y = (m.shards.lookup y).map fun s =>
      if y = x then { s with bootstrapSourceShardID := "" } else s := by
  rw [ShardMap.clearBootstrapSource] at h
  cases hs : m.shards.lookup x with
  | none =>
    rw [hs] at h
    cases h
  | some s =>
    simp only [hs] at h
    split_ifs at h with hclear
    · cases h
      cases hy : m.shards.lookup y with
      | none => rfl
      | some t =>
        rw [Option.map_some]
        split_ifs with hyx
        · rw [hyx, hs] at hy
          cases hy
          rw [← hclear]
        · rfl
    · cases h
      rw [ShardMap.lookup_insert_of_id hs { s with bootstrapSourceShardID := "" } rfl]
      split_ifs with hyx
      · rw [hyx, hs, Option.map_some]
      · rw [Option.map_id']

namespace MigrationManager

variable {mm mm' : MigrationManager}

/-- What `CheckMigrations` keeps: the nodes, the IDs of the shards, and that no shard needs
    a new leader. -/
structure Settles (mm mm' : MigrationManager) : Prop where
  membership : mm'.leader.membership = mm.leader.membership
  keys : mm'.leader.shards.shards.keys = mm.leader.shards.shards.keys
  attended : mm'.leader.Attended

theorem Settles.orders (h : mm.Settles mm') {order : List String} (ho : mm.leader.Orders order) :
    mm'.leader.Orders order :=
  ⟨ho.1, ho.2.trans h.keys.symm⟩

/-- A search in a map with the same shards. -/
theorem Settles.checkAndReassign (h : mm.Settles mm') (lm : LeaderManager)
    (hmem : lm.membership = mm'.leader.membership)
    (hkeys : lm.shards.shards.keys = mm'.leader.shards.shards.keys) {order : List String}
    (ho : mm.leader.Orders order) (hnamed : mm.leader.membership.isAlive "" = false)
    (migrations : Finmap fun _ : String => List String) :
    mm.Settles ⟨migrations, lm.checkAndReassign order⟩ where
  membership := (lm.checkAndReassign_frame order).membership.trans (hmem.trans h.membership)
  keys := by
    rw [← h.keys, ← hkeys]
    ext x
    rw [Finmap.mem_keys, Finmap.mem_keys, LeaderManager.mem_checkAndReassign]
  attended := by
    refine LeaderManager.attended_checkAndReassign ⟨ho.1, ?_⟩ ?_
    · rw [hkeys, h.keys, ho.2]
    · rw [hmem, h.membership, hnamed]

theorem Settles.checkMigration (h : mm.Settles mm') {orders : String → List String}
    {m : String × List String} (ho : mm.leader.Orders (orders m.1))
    (hnamed : mm.leader.membership.isAlive "" = false) :
    mm.Settles (mm'.checkMigration orders m) := by
  rw [MigrationManager.checkMigration]
  split_ifs
  · rcases hs : mm'.leader.shards.shards.lookup m.1 with _ | s
    · rw [mm'.finaliseMigration_of_none _ _ hs]
      exact h
    · rw [mm'.finaliseMigration_of_lookup _ _ hs]
      refine h.checkAndReassign
        { mm'.leader with shards := mm'.leader.shards.withReplicas s m.2 [] } rfl ?_ ho hnamed _
      have hmoved : (mm'.leader.shards.insert (s.withReplicas m.2)).shards.lookup m.1 =
          some (s.withReplicas m.2) := by
        rw [ShardMap.lookup_insert_of_id hs (s.withReplicas m.2) rfl, if_pos rfl]
      exact (ShardMap.keys_insert_of_lookup hmoved
        { s.withReplicas m.2 with incomingReplicas := [] } rfl).trans
        (ShardMap.keys_insert_of_lookup hs (s.withReplicas m.2) rfl)
  · exact h

/-- Shards with a leader have one later. -/
def KeepsLeaders (mm mm' : MigrationManager) : Prop :=
  ∀ x s, mm.leader.shards.shards.lookup x = some s → s.leader ≠ "" →
    ∃ s', mm'.leader.shards.shards.lookup x = some s' ∧ s'.leader ≠ ""

theorem Settles.checkSplit (h : mm.Settles mm') (hleaders : mm.KeepsLeaders mm')
    {orders : String → List String} {shard : ShardInfo}
    (hshard : mm.leader.shards.shards.lookup shard.id = some shard)
    (ho : mm.leader.Orders (orders shard.id))
    (hnamed : mm.leader.membership.isAlive "" = false) :
    mm.Settles (mm'.checkSplit orders shard) ∧
      mm.KeepsLeaders (mm'.checkSplit orders shard) := by
  rw [MigrationManager.checkSplit]
  split
  · exact ⟨h, hleaders⟩
  split
  · cases hclear : mm'.leader.shards.clearBootstrapSource shard.id with
    | error e => exact ⟨h, hleaders⟩
    | ok shards =>
      have hlookup := ShardMap.lookup_clearBootstrapSource hclear
      have hkeys : shards.shards.keys = mm'.leader.shards.shards.keys := by
        ext x
        rw [Finmap.mem_keys, Finmap.mem_keys, ← Finmap.lookup_isSome, ← Finmap.lookup_isSome,
          hlookup, Option.isSome_map]
      have hkept : ∀ x s, mm.leader.shards.shards.lookup x = some s → s.leader ≠ "" →
          ∃ s', shards.shards.lookup x = some s' ∧ s'.leader ≠ "" := by
        intro x s hs hleader
        obtain ⟨s', hs', hleader'⟩ := hleaders x s hs hleader
        refine ⟨_, by rw [hlookup, hs', Option.map_some], ?_⟩
        split_ifs <;> exact hleader'
      dsimp only
      split_ifs with hleader
      · have hsettles := h.checkAndReassign { mm'.leader with shards := shards } rfl hkeys ho
          hnamed mm'.migrations
        refine ⟨hsettles, fun x s hs hne => ?_⟩
        obtain ⟨s', hs', hne'⟩ := hkept x s hs hne
        have ho' : LeaderManager.Orders { mm'.leader with shards := shards } (orders shard.id) :=
          ⟨ho.1, ho.2.trans (h.keys.symm.trans hkeys.symm)⟩
        obtain ⟨t, ht, ⟨rfl, -⟩ | ⟨htne, -⟩⟩ :=
          LeaderManager.checkAndReassign_outcome ho' (by rw [h.membership, hnamed]) hs'
        · exact ⟨t, ht, hne'⟩
        · exact ⟨t, ht, htne⟩
      · refine ⟨⟨h.membership, hkeys.trans h.keys, ?_⟩, hkept⟩
        intro x s hs
        change shards.shards.lookup x = some s at hs
        rw [hlookup] at hs
        obtain ⟨s', hs', rfl⟩ := Option.map_eq_some_iff.1 hs
        have hattends := h.attended x s' hs'
        split_ifs with hx
        · -- The shard had a leader when the splits were looked at, and has not waited since.
          obtain ⟨t, ht, hne⟩ := hleaders shard.id shard hshard hleader
          obtain rfl := Option.some.inj (ht.symm.trans (hx ▸ hs'))
          exact .inr (hattends.resolve_left fun hwaiting => hne hwaiting.1)
        · exact hattends
  · exact ⟨h, hleaders⟩

/-- In `CheckMigrations`, the searches come to all shards. -/
def OrdersAll (mm : MigrationManager) (o : CheckOrder) : Prop :=
  (∀ x ∈ o.pending, mm.leader.Orders (o.finalise x)) ∧ ∀ x ∈ o.shards, mm.leader.Orders (o.split x)

instance (mm : MigrationManager) (o : CheckOrder) : Decidable (mm.OrdersAll o) :=
  inferInstanceAs (Decidable (_ ∧ _))

theorem attended_checkMigrations (h : mm.leader.Attended) {o : CheckOrder} (ho : mm.OrdersAll o)
    (hnamed : mm.leader.membership.isAlive "" = false) :
    (mm.checkMigrations o).leader.Attended := by
  have hpending : mm.Settles
      ((mm.pending o.pending).foldl (fun mm m => mm.checkMigration o.finalise m) mm) := by
    refine List.foldlRecOn (motive := mm.Settles) _ _ ⟨rfl, rfl, h⟩ fun mm' h' m hm => ?_
    refine h'.checkMigration (ho.1 m.1 ?_) hnamed
    obtain ⟨x, hx, hm⟩ := List.mem_filterMap.1 hm
    obtain ⟨R, -, rfl⟩ := Option.map_eq_some_iff.1 hm
    exact hx
  rw [checkMigrations]
  generalize (mm.pending o.pending).foldl (fun mm m => mm.checkMigration o.finalise m) mm = mm₁
    at hpending ⊢
  -- The second part begins with the shards as the first has left them.
  refine (List.foldlRecOn (motive := fun mm' => mm₁.Settles mm' ∧ mm₁.KeepsLeaders mm') _ _
    ⟨⟨rfl, rfl, hpending.attended⟩, fun x s hs hne => ⟨s, hs, hne⟩⟩
    fun mm' h' shard hshard => ?_).1.attended
  obtain ⟨x, hx, hs⟩ := List.mem_filterMap.1 hshard
  obtain rfl := mm₁.leader.shards.id_eq x shard hs
  exact h'.1.checkSplit h'.2 hs (hpending.orders (ho.2 _ hx)) (by rw [hpending.membership, hnamed])

end MigrationManager

/-! ### Requests -/

theorem LeaderManager.shards_initTerm (lm : LeaderManager) (x : String) :
    (lm.initTerm x).shards = lm.shards := by
  rw [initTerm]
  split <;> rfl

namespace MigrationManager

variable {mm : MigrationManager}

/-- The leader of an election is a node that counts as alive. A shard whose leader does
    not, and that is not waiting for its first one, is not migrated onto nodes that do. -/
def Careful (mm : MigrationManager) : ServiceRequest → Prop
  | .notifyLeader _ leaderID _ => mm.leader.membership.isAlive leaderID = true
  | .migrateShard shardID newReplicas => ∀ s, mm.leader.shards.shards.lookup shardID = some s →
      s.Waiting ∨ mm.leader.membership.isAlive s.leader = true ∨
        ∀ r ∈ newReplicas, mm.leader.membership.isAlive r = false
  | _ => True

instance (mm : MigrationManager) : (r : ServiceRequest) → Decidable (mm.Careful r)
  | .notifyLeader _ leaderID _ =>
    inferInstanceAs (Decidable (mm.leader.membership.isAlive leaderID = true))
  | .migrateShard shardID newReplicas => inferInstanceAs (Decidable
      (∀ s ∈ mm.leader.shards.shards.lookup shardID, s.Waiting ∨
        mm.leader.membership.isAlive s.leader = true ∨
        ∀ r ∈ newReplicas, mm.leader.membership.isAlive r = false))
  | .heartbeat _ _ _ | .addNode _ _ | .splitShard _ _ _ => .isTrue trivial

/-- A migration keeps the leader. -/
theorem leader_withReplicas_widened {s : ShardInfo} (hled : s.Led) (R : List String) :
    (s.withReplicas (widened s.replicas R)).leader = s.leader := by
  rw [ShardInfo.withReplicas]
  dsimp only
  rw [if_neg]
  rintro ⟨hne, hnot⟩
  exact hnot (List.mem_append_left _ (hled.resolve_left hne))

theorem attends_widened {s : ShardInfo} {R : List String}
    (h : mm.leader.membership.Attends s) (hled : s.Led)
    (hnamed : mm.leader.membership.isAlive "" = false)
    (hcareful : s.Waiting ∨ mm.leader.membership.isAlive s.leader = true ∨
      ∀ r ∈ R, mm.leader.membership.isAlive r = false) :
    mm.leader.membership.Attends (s.withReplicas (widened s.replicas R)) := by
  have hleader := leader_withReplicas_widened hled R
  rcases h with hwaiting | hnone
  · exact .inl ⟨hleader.trans hwaiting.1, hwaiting.2⟩
  rcases hcareful with hwaiting | halive | hdead
  · exact .inl ⟨hleader.trans hwaiting.1, hwaiting.2⟩
  · refine Membership.attends_of_alive ?_ (by rw [hleader, halive])
    rw [hleader]
    intro hempty
    rw [hempty, hnamed] at halive
    cases halive
  · refine .inr (Membership.newLeader_eq_none_iff.2 fun hunled c hc hne => ?_)
    rw [Membership.Unled, hleader] at hunled
    rw [hleader] at hne
    rcases List.mem_append.1 hc with hold | hnew
    · exact Membership.newLeader_eq_none_iff.1 hnone hunled c hold hne
    · exact hdead c (List.mem_filter.1 hnew).1

theorem lookup_widenedMap {m : ShardMap} {x : String} {s : ShardInfo}
    (hs : m.shards.lookup x = some s) (R : List String) (y : String) :
    (widenedMap m s R).shards.lookup y =
      if y = x then some { s.withReplicas (widened s.replicas R) with incomingReplicas := R }
      else m.shards.lookup y := by
  rw [widenedMap, ShardMap.lookup_insert, ShardMap.lookup_insert]
  obtain rfl := m.id_eq x s hs
  change (if y = s.id then _ else if y = s.id then _ else _) = _
  split_ifs <;> rfl

theorem source_ne_of_splitShard {mm' : MigrationManager} {y x : String} {R : List String}
    (h : mm.splitShard y x R = .ok mm') : y ≠ "" := by
  rintro rfl
  rw [splitShard, if_pos (.inl rfl)] at h
  cases h

theorem attended_serve (h : mm.leader.Attended) (hled : mm.AllLed)
    (hnamed : mm.leader.membership.isAlive "" = false) {r : ServiceRequest}
    (hr : mm.Careful r) : (mm.serve r).leader.Attended := by
  rcases mm.serve_cases r with hsame | ⟨happly, -⟩
  · rwa [hsame]
  rw [happly]
  have halive : ∀ n, (mm.apply r.op).leader.membership.isAlive n =
      mm.leader.membership.isAlive n := fun n => by
    rw [membership_apply]
    exact Membership.isAlive_op _ (fun now hop => by cases r <;> cases hop) n
  refine h.mono halive fun x s' hs' => ?_
  cases r with
  | heartbeat now nodeID shards =>
    simp only [ServiceRequest.op, apply] at hs'
    split at hs' <;> exact .inl hs'
  | addNode nodeID address => exact .inl hs'
  | notifyLeader x' leaderID term =>
    simp only [ServiceRequest.op, apply] at hs'
    cases hnotify : mm.leader.notifyLeader x' leaderID term with
    | mk accepted lm =>
      rw [hnotify] at hs'
      cases accepted with
      | true =>
        obtain ⟨-, shards, hset, rfl⟩ := LeaderManager.notifyLeader_accepted hnotify
        obtain ⟨s, hs, -, rfl⟩ := ShardMap.setLeader_ok hset
        change (mm.leader.shards.insert { s with leader := leaderID }).shards.lookup x = _ at hs'
        rw [ShardMap.lookup_insert_of_id hs { s with leader := leaderID } rfl] at hs'
        split_ifs at hs'
        · cases hs'
          refine .inr (Membership.attends_of_alive ?_ hr)
          rintro (rfl : leaderID = "")
          rw [Careful, hnamed] at hr
          cases hr
        · exact .inl hs'
      | false =>
        rw [LeaderManager.notifyLeader_rejected hnotify] at hs'
        exact .inl hs'
  | migrateShard x' R =>
    simp only [ServiceRequest.op, apply] at hs'
    cases hs : mm.leader.shards.shards.lookup x' with
    | none =>
      rw [startMigration_of_none R hs] at hs'
      exact .inl hs'
    | some s =>
      rw [startMigration_of_lookup R hs] at hs'
      change (widenedMap mm.leader.shards s R).shards.lookup x = some s' at hs'
      rw [lookup_widenedMap hs] at hs'
      split_ifs at hs'
      · cases hs'
        exact .inr (attends_widened (h x' s hs) (hled x' s hs) hnamed (hr s hs))
      · exact .inl hs'
  | splitShard y x' R =>
    simp only [ServiceRequest.op, apply] at hs'
    cases hsplit : mm.splitShard y x' R with
    | error e =>
      rw [hsplit] at hs'
      exact .inl hs'
    | ok mm' =>
      rw [hsplit] at hs'
      obtain ⟨shards, hadd, rfl⟩ := splitShard_ok hsplit
      obtain ⟨-, rfl⟩ := ShardMap.addShard_ok hadd
      simp only [LeaderManager.shards_initTerm] at hs'
      rw [ShardMap.lookup_insert] at hs'
      split_ifs at hs'
      · cases hs'
        exact .inr (.inl ⟨rfl, source_ne_of_splitShard hsplit⟩)
      · exact .inl hs'

end MigrationManager

/-! ### Runs -/

namespace MonitorStage

/-- No search for leaders is due. -/
def Settled : MonitorStage → Prop
  | .refreshed changed => changed = []
  | _ => True

end MonitorStage

namespace Monitor

variable {s t : Monitor}

/-- Requests are careful, and the nodes and shards come completely. -/
def Careful (s : Monitor) : MonitorAction → Prop
  | .serve r => s.coordinator.Careful r
  | .refreshLiveness _ order => order.toFinset = s.coordinator.leader.membership.nodes.keys
  | .checkAndReassign order => s.coordinator.leader.Orders order
  | .checkMigrations o => s.coordinator.OrdersAll o

instance (s : Monitor) : (a : MonitorAction) → Decidable (s.Careful a)
  | .serve r => inferInstanceAs (Decidable (s.coordinator.Careful r))
  | .refreshLiveness _ order =>
    inferInstanceAs (Decidable (order.toFinset = s.coordinator.leader.membership.nodes.keys))
  | .checkAndReassign order => inferInstanceAs (Decidable (s.coordinator.leader.Orders order))
  | .checkMigrations o => inferInstanceAs (Decidable (s.coordinator.OrdersAll o))

/-- Unless a search for leaders is due, no shard needs a new leader. -/
structure Attentive (s : Monitor) : Prop where
  nodes : s.coordinator.leader.membership.WellNamed
  led : s.coordinator.AllLed
  attended : s.stage.Settled → s.coordinator.leader.Attended

theorem attentive_step {a : MonitorAction} (h : s.Attentive) (ha : s.Careful a)
    (hstep : s.step a = some t) : t.Attentive := by
  have hnamed := h.nodes.isAlive_empty
  refine ⟨?_, ?_, fun hsettled => ?_⟩
  · rcases step_apply hstep with hsame | ⟨happly, hop⟩
    · rw [hsame]
      exact h.nodes
    · rw [happly, MigrationManager.membership_apply]
      exact h.nodes.op hop
  · rcases step_apply hstep with hsame | ⟨happly, -⟩
    · rw [hsame]
      exact h.led
    · rw [happly]
      exact MigrationManager.allLed_apply h.led _
  cases a with
  | serve r =>
    cases hstep
    exact MigrationManager.attended_serve (h.attended hsettled) h.led hnamed ha
  | refreshLiveness now order =>
    obtain ⟨hwaiting, hcoordinator, hstage⟩ := step_refreshLiveness hstep
    rw [hstage] at hsettled
    rw [hcoordinator]
    have hattended := h.attended (by rw [hwaiting]; trivial)
    exact hattended.mono (fun n => Membership.isAlive_refreshLiveness ha hsettled n)
      fun x s hs => .inl hs
  | checkAndReassign order =>
    obtain ⟨-, changed, hstage, ⟨hnil, hsame⟩ | ⟨-, happly⟩⟩ := step_checkAndReassign hstep
    · rw [hsame]
      exact h.attended (by rw [hstage]; exact hnil)
    · rw [happly]
      exact LeaderManager.attended_checkAndReassign ha hnamed
  | checkMigrations o =>
    obtain ⟨hchecked, hcoordinator, -⟩ := step_checkMigrations hstep
    rw [hcoordinator]
    exact MigrationManager.attended_checkMigrations (h.attended (by rw [hchecked]; trivial)) ha
      hnamed

/-- At the start, no node is alive. -/
theorem attentive_initial {cfg : ClusterConfig} {mm : MigrationManager}
    (hstart : cfg.start = .ok mm)
    (hled : ∀ spec ∈ cfg.shards, spec.initialLeader = "" ∨ spec.initialLeader ∈ spec.replicas) :
    (initial mm).Attentive := by
  have hnodes := (ClusterConfig.registered_start hstart).nodes
  obtain ⟨lm, hlm, rfl⟩ := ClusterConfig.start_ok hstart
  have hempty : ∀ x s, cfg.applyDefaults.newServer.leader.shards.shards.lookup x ≠ some s := by
    simp [ClusterConfig.newServer, ShardMap.new]
  refine ⟨hnodes, ?_, fun _ x s _ => .inr (Membership.newLeader_eq_none_iff.2 fun _ c _ _ => ?_)⟩
  · exact (LeaderManager.allLed_initFromConfig_iff hlm).2
      ⟨fun x s hs => absurd hs (hempty x s), hled⟩
  · have hmembership : lm.membership =
        .new cfg.nodes cfg.applyDefaults.coordinator.failureTimeout :=
      (LeaderManager.every_initFromConfig (Q := fun _ => True) (fun _ _ _ => trivial)
        (fun _ _ => trivial) hlm).2
    change lm.membership.isAlive c = false
    rw [hmembership, Membership.isAlive, Membership.lookup_new]
    cases cfg.nodes.reverse.find? (·.id = c) <;> rfl

/-- In every run of careful requests, whatever is served between the stages of a round:
    between two rounds, every shard has a live leader, or no other live replica. The only
    exception is a split shard that waits for its first leader. -/
theorem leaders_attended {cfg : ClusterConfig} {mm : MigrationManager}
    (hstart : cfg.start = .ok mm)
    (hled : ∀ spec ∈ cfg.shards, spec.initialLeader = "" ∨ spec.initialLeader ∈ spec.replicas)
    {as : List MonitorAction} (has : Along step Careful (initial mm) as)
    (hend : exec step (initial mm) as = some t) (hwaiting : t.stage = .waiting) {x : String}
    {s : ShardInfo} (hs : t.coordinator.leader.shards.shards.lookup x = some s) :
    s.Waiting ∨ s.leader ≠ "" ∧ t.coordinator.leader.membership.isAlive s.leader = true ∨
      ∀ r ∈ s.replicas, r ≠ s.leader → t.coordinator.leader.membership.isAlive r = false := by
  have hattentive : t.Attentive :=
    invariant (fun s a t h ha hstep => attentive_step h ha hstep)
      (attentive_initial hstart hled) has hend
  refine (hattentive.attended (by rw [hwaiting]; trivial) x s hs).imp_right fun hnone => ?_
  rw [Membership.newLeader_eq_none_iff] at hnone
  by_cases hunled : t.coordinator.leader.membership.Unled s
  · exact .inr (hnone hunled)
  · obtain ⟨hne, hdead⟩ := not_or.1 hunled
    exact .inl ⟨hne, by simpa using hdead⟩

/-- `a` and `b` are heard of, then only `b`: it takes over from `a`. -/
def failover : List MonitorAction :=
  [.serve (.heartbeat 1 "a" []), .serve (.heartbeat 2 "b" []),
    .refreshLiveness 3 ["a", "b", "c"], .checkAndReassign ["shard-0"],
    .checkMigrations exampleOrder, .serve (.heartbeat 3000000000 "b" []),
    .refreshLiveness 4000000000 ["a", "b", "c"], .serve (.notifyLeader "shard-0" "b" 1),
    .checkAndReassign ["shard-0"], .checkMigrations exampleOrder]

theorem leaders_attended_failover :
    ∃ mm t s, (configWithLeader "a").start = .ok mm ∧
      Along step Careful (initial mm) failover ∧
      exec step (initial mm) failover = some t ∧ t.stage = .waiting ∧
      t.coordinator.leader.shards.shards.lookup "shard-0" = some s ∧ s.leader = "b" ∧
      (s.Waiting ∨ s.leader ≠ "" ∧ t.coordinator.leader.membership.isAlive s.leader = true ∨
        ∀ r ∈ s.replicas, r ≠ s.leader → t.coordinator.leader.membership.isAlive r = false) := by
  obtain ⟨mm, t, s, hstart, has, hend, hwaiting, hs, hb⟩ : ∃ mm t s,
      (configWithLeader "a").start = .ok mm ∧ Along step Careful (initial mm) failover ∧
      exec step (initial mm) failover = some t ∧ t.stage = .waiting ∧
      t.coordinator.leader.shards.shards.lookup "shard-0" = some s ∧ s.leader = "b" :=
    ⟨_, _, _, rfl, by decide, rfl, rfl, rfl, by decide⟩
  exact ⟨mm, t, s, hstart, has, hend, hwaiting, hs, hb,
    leaders_attended hstart (by decide) has hend hwaiting hs⟩

end Monitor

end Doki
