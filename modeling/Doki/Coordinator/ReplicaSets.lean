import Doki.Coordinator.Migration

/-!
# The replicas of a migrated shard as a set

The replicas of a shard are a list, and its quorum is counted from the length of the list
(`ShardInfo.quorum`). The nodes that it names are a set. A list without repetitions is as
long as its set is large, and the quorum is then a majority of the nodes
(`ShardInfo.comprises_iff`).

A migration makes two such lists from the one that the operator has sent. `startMigration`
adds the nodes that are not old replicas: it looks each of them up in a table of the old
replicas, which it does not extend, so a node that has been sent twice is added twice
(`nodup_widened_iff`). `finaliseMigration` takes the list as it is. Neither it nor the
handler of the request looks for repetitions.

* `MigrationManager.comprises_startMigration_iff`: the nodes that are added must be sent once;
* `MigrationManager.comprises_finaliseMigration_iff`: all nodes must be sent once;
* `MigrationManager.migrates_onto_sets_iff`: a migration keeps the replicas a set exactly
  if the list that was sent has no repetitions.
-/

namespace Doki

namespace ShardInfo

variable (s : ShardInfo)

/-- The shard's list has each of the nodes once and no others, and its quorum is reached by
    the strict majorities of the nodes. -/
structure Comprises (nodes : Finset String) : Prop where
  count : ∀ n, s.replicas.count n = if n ∈ nodes then 1 else 0
  quorum : ∀ Q ⊆ nodes, s.quorum ≤ Q.card ↔ nodes.card < 2 * Q.card

variable {s}

/-- Only repetitions keep a list from being its set. -/
theorem comprises_iff {nodes : Finset String} (h : s.replicas.toFinset = nodes) :
    s.Comprises nodes ↔ s.replicas.Nodup := by
  subst h
  constructor
  · intro hs
    refine List.nodup_iff_count_le_one.2 fun n => ?_
    rw [hs.count n]
    split_ifs
    · exact le_rfl
    · exact Nat.zero_le 1
  · intro hnodup
    refine ⟨fun n => ?_, fun Q _ => ?_⟩
    · simp only [hnodup.count, List.mem_toFinset]
    · rw [List.toFinset_card_of_nodup hnodup, ShardInfo.quorum]
      omega

end ShardInfo

theorem toFinset_widened (old new : List String) :
    (widened old new).toFinset = old.toFinset ∪ new.toFinset := by
  ext n
  simp only [widened, List.toFinset_append, Finset.mem_union, List.mem_toFinset, List.mem_filter,
    decide_eq_true_eq]
  tauto

/-- The old replicas are not repeated by the new ones, but these may repeat themselves. -/
theorem nodup_widened_iff {old new : List String} (hold : old.Nodup) :
    (widened old new).Nodup ↔ (new.filter (· ∉ old)).Nodup := by
  rw [widened, List.nodup_append]
  constructor
  · exact fun h => h.2.1
  · intro hnew
    refine ⟨hold, hnew, ?_⟩
    rintro a ha b hb rfl
    exact of_decide_eq_true (List.mem_filter.1 hb).2 ha

namespace MigrationManager

variable {mm : MigrationManager} {x : String} {shard : ShardInfo} {newReplicas : List String}

/-- The shard `x` has each of the nodes once and no others. -/
def Comprises (mm : MigrationManager) (x : String) (nodes : Finset String) : Prop :=
  ∃ s, mm.leader.shards.shards.lookup x = some s ∧ s.Comprises nodes

/-- What a shard comprises is told by its replicas. -/
theorem comprises_iff_nodup {R : List String} (h : mm.leader.shards.replicasOf x = some R) :
    mm.Comprises x R.toFinset ↔ R.Nodup := by
  obtain ⟨s, hs, rfl⟩ := Option.map_eq_some_iff.1 h
  rw [← ShardInfo.comprises_iff rfl]
  constructor
  · rintro ⟨s', hs', hcomprises⟩
    rw [hs] at hs'
    exact Option.some.inj hs' ▸ hcomprises
  · exact fun hcomprises => ⟨s, hs, hcomprises⟩

theorem replicasOf_widenedMap (hs : mm.leader.shards.shards.lookup x = some shard) :
    (widenedMap mm.leader.shards shard newReplicas).replicasOf x =
      some (widened shard.replicas newReplicas) :=
  (ShardMap.replicasOf_withReplicas hs _ newReplicas x).trans (if_pos rfl)

/-- A migration that starts keeps the replicas a set, unless it adds a node twice. -/
theorem comprises_startMigration_iff (hs : mm.leader.shards.shards.lookup x = some shard)
    (hold : shard.replicas.Nodup) :
    (∃ started, mm.startMigration x newReplicas = .ok started ∧
        started.Comprises x (shard.replicas.toFinset ∪ newReplicas.toFinset)) ↔
      (newReplicas.filter (· ∉ shard.replicas)).Nodup := by
  rw [← nodup_widened_iff hold, ← toFinset_widened, startMigration_of_lookup newReplicas hs]
  constructor
  · rintro ⟨started, hstarted, hcomprises⟩
    obtain rfl := Except.ok.inj hstarted
    exact (comprises_iff_nodup (replicasOf_widenedMap hs)).1 hcomprises
  · exact fun hnodup =>
      ⟨_, rfl, (comprises_iff_nodup (replicasOf_widenedMap hs)).2 hnodup⟩

/-- A migration that ends leaves a set, unless a node has been sent twice. -/
theorem comprises_finaliseMigration_iff (order : List String)
    (hs : mm.leader.shards.shards.lookup x = some shard) :
    (mm.finaliseMigration order x newReplicas).Comprises x newReplicas.toFinset ↔
      newReplicas.Nodup :=
  comprises_iff_nodup ((mm.replicasOf_finaliseMigration order newReplicas hs x).trans (if_pos rfl))

/-- A migration of a shard whose replicas are a set. Whatever the coordinator is like when the
    migration ends, the replicas have been a set after its start and are one after its end
    exactly if the new replicas were sent without repetitions. -/
theorem migrates_onto_sets_iff (hs : mm.leader.shards.shards.lookup x = some shard)
    (hold : shard.replicas.Nodup) {later : MigrationManager}
    (hlater : x ∈ later.leader.shards.shards) (order : List String) :
    ((∃ started, mm.startMigration x newReplicas = .ok started ∧
          started.Comprises x (shard.replicas.toFinset ∪ newReplicas.toFinset)) ∧
        (later.finaliseMigration order x newReplicas).Comprises x newReplicas.toFinset) ↔
      newReplicas.Nodup := by
  obtain ⟨s, hlookup⟩ := Finmap.mem_iff.1 hlater
  rw [comprises_startMigration_iff hs hold, comprises_finaliseMigration_iff order hlookup]
  exact ⟨And.right, fun hnodup => ⟨hnodup.filter _, hnodup⟩⟩

/-- The coordinator of the example, without migrations. -/
def exampleMigrations : MigrationManager := ⟨∅, exampleManager⟩

/-- A migration that keeps one of the old replicas. -/
theorem migrates_onto_sets_c_d :
    (∃ started, exampleMigrations.startMigration "shard-0" ["c", "d"] = .ok started ∧
        started.Comprises "shard-0" {"a", "b", "c", "d"}) ∧
      (exampleMigrations.finaliseMigration ["shard-0"] "shard-0" ["c", "d"]).Comprises "shard-0"
        {"c", "d"} :=
  (@migrates_onto_sets_iff exampleMigrations "shard-0" exampleShard ["c", "d"]
    (by decide +kernel) (by decide +kernel) exampleMigrations (by decide +kernel) ["shard-0"]).2
    (by decide)

/-- `d` joins, the shard is migrated to `d`, sent three times, and `d` catches up. -/
def repeatedRun : List CoordinatorOp :=
  [.addNode ⟨"d", "d:1"⟩, .startMigration "shard-0" ["d", "d", "d"],
    .heartbeat 10 "d" [⟨"shard-0", 3, true⟩], .refreshLiveness 10, .checkMigrations exampleOrder]

/-- The replicas of the shard and its quorum after the first `n` operations. -/
def afterRepeated (n : ℕ) : Option (List String × ℕ) :=
  (((repeatedRun.take n).foldl apply exampleMigrations).leader.shards.shards.lookup "shard-0").map
    fun s => (s.replicas, s.quorum)

/-- After the start, the four nodes have a quorum of four, so that the three old ones are
    none; after the end, one node has a quorum of two. -/
theorem migrates_onto_repeated :
    (exampleMigrations.leader.shards.shards.lookup "shard-0" = some exampleShard ∧
        exampleShard.replicas.Nodup) ∧
      (¬∃ started, exampleMigrations.startMigration "shard-0" ["d", "d", "d"] = .ok started ∧
        started.Comprises "shard-0" {"a", "b", "c", "d"}) ∧
      afterRepeated 2 = some (["a", "b", "c", "d", "d", "d"], 4) ∧
      (¬(exampleMigrations.finaliseMigration ["shard-0"] "shard-0" ["d", "d", "d"]).Comprises
        "shard-0" {"d"}) ∧
      afterRepeated 5 = some (["d", "d", "d"], 2) := by
  have hs : exampleMigrations.leader.shards.shards.lookup "shard-0" = some exampleShard := by
    decide +kernel
  have hold : exampleShard.replicas.Nodup := by decide +kernel
  refine ⟨⟨hs, hold⟩, fun h => ?_, by decide +kernel, fun h => ?_, by decide +kernel⟩
  · exact absurd ((comprises_startMigration_iff hs hold).1 h) (by decide +kernel)
  · exact absurd ((comprises_finaliseMigration_iff ["shard-0"] hs).1 h) (by decide +kernel)

end MigrationManager

end Doki
