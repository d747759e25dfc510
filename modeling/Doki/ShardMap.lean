import Mathlib.Data.Finmap

/-!
# The shard map

The coordinator's view of the cluster (`internal/shardmap`): the shards, the
nodes that host them and their leaders. Every change of the map increments its
version. The nodes get it as a `ShardMapResponse`, together with the addresses
of the nodes.

The map of shards has no order of its own. Where the source goes through it, the
order in which the shards come is an argument here.

* `ShardMap.setLeader_ok`, `ShardMap.update_ok` and so on: what the operations do. Each
  of them replaces at most one shard (`ShardMap.lookup_insert`);
* `Later`: the map has not changed, or has a higher version.
-/

namespace Doki

/-- The runtime state of a shard. -/
structure ShardInfo where
  id : String
  replicas : List String
  /-- The current leader, `""` if there is none. -/
  leader : String
  /-- The shard that this one is split from, `""` if it is not being split. -/
  bootstrapSourceShardID : String
  /-- The replicas that a migration is to end with, none if there is no migration. -/
  incomingReplicas : List String := []
  deriving DecidableEq

/-- How many replicas are a majority. -/
def ShardInfo.quorum (s : ShardInfo) : ℕ := s.replicas.length / 2 + 1

/-- The node is a replica of the shard. -/
def ShardInfo.hasReplica (s : ShardInfo) (nodeID : String) : Bool :=
  s.replicas.any (· == nodeID)

/-- The shard with other replicas. It loses a leader that is not one of them. -/
def ShardInfo.withReplicas (s : ShardInfo) (replicas : List String) : ShardInfo :=
  { s with
    replicas := replicas
    leader := if s.leader ≠ "" ∧ s.leader ∉ replicas then "" else s.leader }

/-- The shard map as the coordinator serves it. -/
structure ShardMapResponse where
  version : ℕ
  shards : List ShardInfo
  nodeAddresses : Finmap fun _ : String => String

/-- The errors of the operations on a shard map. -/
inductive ShardMapError
  | alreadyExists (shardID : String)
  | notFound (shardID : String)
  | notReplica (nodeID shardID : String)
  deriving DecidableEq, Repr

/-- The error's text. -/
def ShardMapError.message : ShardMapError → String
  | .alreadyExists shardID => s!"shard \"{shardID}\" already exists"
  | .notFound shardID => s!"shard \"{shardID}\" not found"
  | .notReplica nodeID shardID => s!"node \"{nodeID}\" is not a replica of shard \"{shardID}\""

/-- The shard that the operation was for. -/
def ShardMapError.shardID : ShardMapError → String
  | .alreadyExists shardID => shardID
  | .notFound shardID => shardID
  | .notReplica _ shardID => shardID

/-- The shard map: the shards by their ID. -/
structure ShardMap where
  version : ℕ
  shards : Finmap fun _ : String => ShardInfo
  id_eq : ∀ k s, shards.lookup k = some s → s.id = k

namespace ShardMap

/-- The empty map. -/
def new : ShardMap where
  version := 0
  shards := ∅
  id_eq k s h := by simp at h

variable (m : ShardMap)

/-- The shards, as they come in the order `order` of their IDs. -/
def all (order : List String) : List ShardInfo := order.filterMap m.shards.lookup

/-- The map with a shard inserted or replaced. -/
def insert (s : ShardInfo) : ShardMap where
  version := m.version + 1
  shards := m.shards.insert s.id s
  id_eq k t h := by
    by_cases hk : k = s.id
    · subst hk
      rw [Finmap.lookup_insert] at h
      exact (Option.some.inj h) ▸ rfl
    · rw [Finmap.lookup_insert_of_ne _ hk] at h
      exact m.id_eq k t h

def addShard (info : ShardInfo) : Except ShardMapError ShardMap :=
  match m.shards.lookup info.id with
  | some _ => .error (.alreadyExists info.id)
  | none => .ok (m.insert info)

def setLeader (shardID nodeID : String) : Except ShardMapError ShardMap :=
  match m.shards.lookup shardID with
  | none => .error (.notFound shardID)
  | some s =>
    if s.hasReplica nodeID then .ok (m.insert { s with leader := nodeID })
    else .error (.notReplica nodeID shardID)

/-- A shard of the map. -/
def get (shardID : String) : Except ShardMapError ShardInfo :=
  match m.shards.lookup shardID with
  | none => .error (.notFound shardID)
  | some s => .ok s

/-- The map with one shard changed by `f`. -/
def update (shardID : String) (f : ShardInfo → ShardInfo) : Except ShardMapError ShardMap :=
  match m.shards.lookup shardID with
  | none => .error (.notFound shardID)
  | some s => .ok (m.insert (f s))

def setReplicas (shardID : String) (replicas : List String) : Except ShardMapError ShardMap :=
  m.update shardID (·.withReplicas replicas)

def setIncomingReplicas (shardID : String) (incoming : List String) :
    Except ShardMapError ShardMap :=
  m.update shardID fun s => { s with incomingReplicas := incoming }

/-- Clearing the source of a split. Where there is none, the map stays as it is. -/
def clearBootstrapSource (shardID : String) : Except ShardMapError ShardMap :=
  match m.shards.lookup shardID with
  | none => .error (.notFound shardID)
  | some s =>
    if s.bootstrapSourceShardID = "" then .ok m
    else .ok (m.insert { s with bootstrapSourceShardID := "" })

/-- The map after an operation, which stays as it is if this fails. -/
def orKeep (r : Except ShardMapError ShardMap) : ShardMap :=
  match r with
  | .error _ => m
  | .ok m' => m'

/-! ## What the operations do -/

variable {m} {m' : ShardMap}

theorem lookup_insert (s : ShardInfo) (x : String) :
    (m.insert s).shards.lookup x = if x = s.id then some s else m.shards.lookup x := by
  simp only [insert]
  split_ifs with hx
  · rw [hx, Finmap.lookup_insert]
  · rw [Finmap.lookup_insert_of_ne _ hx]

theorem addShard_ok {info : ShardInfo} (h : m.addShard info = .ok m') :
    m.shards.lookup info.id = none ∧ m' = m.insert info := by
  rw [addShard] at h
  split at h
  · cases h
  · exact ⟨‹_›, (Except.ok.inj h).symm⟩

theorem setLeader_ok {shardID nodeID : String} (h : m.setLeader shardID nodeID = .ok m') :
    ∃ s, m.shards.lookup shardID = some s ∧ nodeID ∈ s.replicas ∧
      m' = m.insert { s with leader := nodeID } := by
  rw [setLeader] at h
  split at h
  · cases h
  · rename_i s hs
    split_ifs at h with hrep
    refine ⟨s, hs, ?_, (Except.ok.inj h).symm⟩
    simpa [ShardInfo.hasReplica] using hrep

theorem update_ok {shardID : String} {f : ShardInfo → ShardInfo}
    (h : m.update shardID f = .ok m') :
    ∃ s, m.shards.lookup shardID = some s ∧ m' = m.insert (f s) := by
  rw [update] at h
  split at h
  · cases h
  · exact ⟨_, ‹_›, (Except.ok.inj h).symm⟩

/-- A shard that is in the map can be changed. -/
theorem update_of_lookup {shardID : String} {s : ShardInfo}
    (h : m.shards.lookup shardID = some s) (f : ShardInfo → ShardInfo) :
    m.update shardID f = .ok (m.insert (f s)) := by
  rw [update, h]

/-- Replacing a shard that is in the map. -/
theorem lookup_insert_of_id {s : ShardInfo} {y : String} (hs : m.shards.lookup y = some s)
    (s' : ShardInfo) (hid : s'.id = s.id) (x : String) :
    (m.insert s').shards.lookup x = if x = y then some s' else m.shards.lookup x := by
  rw [lookup_insert, hid, m.id_eq y s hs]

/-- In an order that has all their IDs, the shards come completely. -/
theorem mem_all_iff {order : List String} (horder : order.toFinset = m.shards.keys)
    (s : ShardInfo) : s ∈ m.all order ↔ m.shards.lookup s.id = some s := by
  rw [all, List.mem_filterMap]
  constructor
  · rintro ⟨x, -, hx⟩
    rwa [m.id_eq x s hx]
  · intro hs
    refine ⟨s.id, ?_, hs⟩
    rw [← List.mem_toFinset, horder, Finmap.mem_keys, Finmap.mem_iff]
    exact ⟨s, hs⟩

/-- In an order without repetitions, every shard comes once. -/
theorem nodup_all {order : List String} (hnodup : order.Nodup) :
    ((m.all order).map (·.id)).Nodup := by
  rw [all, List.map_filterMap]
  refine hnodup.filterMap fun x y id hx hy => ?_
  obtain ⟨s, hs, rfl⟩ := Option.map_eq_some_iff.1 hx
  obtain ⟨t, ht, hid⟩ := Option.map_eq_some_iff.1 hy
  rw [← m.id_eq x s hs, ← hid, m.id_eq y t ht]

theorem clearBootstrapSource_ok {shardID : String} (h : m.clearBootstrapSource shardID = .ok m') :
    m' = m ∨ ∃ s, m.shards.lookup shardID = some s ∧
      m' = m.insert { s with bootstrapSourceShardID := "" } := by
  rw [clearBootstrapSource] at h
  split at h
  · cases h
  · rename_i s hs
    split_ifs at h
    · exact .inl (Except.ok.inj h).symm
    · exact .inr ⟨s, hs, (Except.ok.inj h).symm⟩

end ShardMap

/-! ## Versions -/

/-- The shard map `m'` is `m`, or has a higher version. -/
def Later (m m' : ShardMap) : Prop := m' = m ∨ m.version < m'.version

namespace ShardMap

variable (m : ShardMap)

theorem later_insert (s : ShardInfo) : Later m (m.insert s) := .inr (Nat.lt_succ_self _)

/-- An operation that fails leaves the map, and one that succeeds may do so, too. -/
theorem later_orKeep {r : Except ShardMapError ShardMap}
    (h : ∀ m', r = .ok m' → Later m m') : Later m (m.orKeep r) := by
  cases r with
  | error e => exact .inl rfl
  | ok m' => exact h m' rfl

theorem later_update (x : String) (f : ShardInfo → ShardInfo) :
    Later m (m.orKeep (m.update x f)) :=
  m.later_orKeep fun m' h => by
    obtain ⟨s, -, rfl⟩ := update_ok h
    exact m.later_insert _

end ShardMap

theorem Later.trans {m m' m'' : ShardMap} (h : Later m m') (h' : Later m' m'') : Later m m'' := by
  rcases h with rfl | hlt
  · exact h'
  · rcases h' with rfl | hlt'
    · exact .inr hlt
    · exact .inr (hlt.trans hlt')

theorem Later.version_le {m m' : ShardMap} (h : Later m m') : m.version ≤ m'.version := by
  rcases h with rfl | hlt
  · exact le_rfl
  · exact hlt.le

end Doki
