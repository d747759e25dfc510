import Doki.Coordinator.Migration
import Doki.Lib.Lists

/-!
# Migrations at the granularity of locks

`StartMigration` is called by the handlers of requests, and `CheckMigrations` by the health
monitor. The shard map, the nodes and the table of migrations each have a lock of their
own, and no call holds one from one step to the next (`Migrating`). The monitor copies
the pending migrations first. By the time it ends one of them, another one of the same shard
may have taken its place; and the end of a migration deletes whatever is recorded for the
shard.

A record has the index of the call that it comes from, and `finalised` are the calls whose
migration has ended. No step of the code depends on them.

* `Migrating.exec_startMigration`, `Migrating.reaches_checkMigrations`: without other steps in
  between, the calls do what they do in `MigrationManager`;
* `Migrating.migrations_kept`: no migration is lost in a run where the calls for a shard come
  one after the other, and the monitor ends a migration only while it is the recorded one;
* `Migrating.migration_lost`: a migration that starts before the monitor ends another one
  of the shard is lost.
-/

namespace Doki

open Runs

/-- A record of the table of migrations, with the call that it comes from. -/
structure Migration where
  shardID : String
  newReplicas : List String
  call : ℕ
  deriving DecidableEq

/-- How far a call of `StartMigration` has come. -/
inductive StartPhase
  /-- The replicas have been read. -/
  | widening (union : List String)
  | tagging
  | recording
  | done
  | failed (e : MigrationError)
  deriving DecidableEq

/-- A call of `StartMigration` for a shard in the map. -/
structure StartCall where
  shardID : String
  newReplicas : List String
  phase : StartPhase
  deriving DecidableEq

/-- The call has returned. -/
def StartCall.finished (c : StartCall) : Bool :=
  match c.phase with
  | .done | .failed _ => true
  | .widening _ | .tagging | .recording => false

/-- How far the monitor has come, with the migrations that are left. -/
inductive MonitorPhase
  | next (todo : List Migration)
  /-- The replicas `left` have to be alive. When there are none, the migration can end. -/
  | asking (m : Migration) (left : List String) (todo : List Migration)
  /-- The replica is alive, its version has to be read. -/
  | reading (m : Migration) (nodeID : String) (left : List String) (todo : List Migration)
  | untagging (m : Migration) (todo : List Migration)
  | reassigning (m : Migration) (todo : List Migration)
  | deleting (m : Migration) (todo : List Migration)

/-- The migration whose replicas have all caught up. -/
def MonitorPhase.ready : MonitorPhase → Option Migration
  | .asking m [] _ => some m
  | _ => none

/-- The migration whose end is under way. -/
def MonitorPhase.finalising : MonitorPhase → Option Migration
  | .untagging m _ | .reassigning m _ | .deleting m _ => some m
  | .next _ | .asking _ _ _ | .reading _ _ _ _ => none

/-- The coordinator with its calls under way, in the order in which they began. -/
structure Migrating where
  lm : LeaderManager
  migrations : Finmap fun _ : String => Migration
  calls : List StartCall
  monitor : MonitorPhase
  finalised : List ℕ

/-- The steps: of the calls of `StartMigration`, of the monitor, and what else changes the
    shards, the nodes and the terms. -/
inductive MigratingAction
  | start (shardID : String) (newReplicas : List String)
  | startNext (k : ℕ)
  | checkStart (order : List String)
  | checkNext
  | membership (m : Membership)
  /-- A new leader, of `NotifyLeader` or `CheckAndReassign`. -/
  | setLeader (shardID nodeID : String)
  | setTerm (shardID : String) (term : ℕ)
  | addShard (info : ShardInfo)
  | clearBootstrapSource (shardID : String)

namespace Migrating

/-- A coordinator with no migrations. -/
def new (lm : LeaderManager) : Migrating where
  lm := lm
  migrations := ∅
  calls := []
  monitor := .next []
  finalised := []

variable (s : Migrating)

/-- The shard map changes by an operation, if this does not fail. -/
def setShards (r : Except ShardMapError ShardMap) : Migrating :=
  { s with lm := { s.lm with shards := s.lm.shards.orKeep r } }

/-- One step of the call `c` with the index `k`. -/
def startNext (k : ℕ) (c : StartCall) : Option Migrating :=
  match c.phase with
  | .widening union =>
    match s.lm.shards.setReplicas c.shardID union with
    | .error e => some
      { s with calls := s.calls.set k { c with phase := .failed (.setReplicas e) } }
    | .ok shards => some
      { s with
        lm := { s.lm with shards := shards }
        calls := s.calls.set k { c with phase := .tagging } }
  | .tagging =>
    match s.lm.shards.setIncomingReplicas c.shardID c.newReplicas with
    | .error e => some
      { s with calls := s.calls.set k { c with phase := .failed (.setIncomingReplicas e) } }
    | .ok shards => some
      { s with
        lm := { s.lm with shards := shards }
        calls := s.calls.set k { c with phase := .recording } }
  | .recording => some
    { s with
      migrations := s.migrations.insert c.shardID ⟨c.shardID, c.newReplicas, k⟩
      calls := s.calls.set k { c with phase := .done } }
  | .done | .failed _ => none

/-- One step of the monitor. -/
def checkNext : Option Migrating :=
  match s.monitor with
  | .next [] => none
  | .next (m :: todo) => some
    { s with monitor := if m.newReplicas = [] then .next todo else .asking m m.newReplicas todo }
  | .asking m (n :: left) todo => some
    { s with
      monitor := if s.lm.membership.isAlive n then .reading m n left todo else .next todo }
  | .reading m n left todo => some
    { s with
      monitor := if s.lm.membership.versionForShard n m.shardID = 0 then .next todo
        else .asking m left todo }
  | .asking m [] todo =>
    match s.lm.shards.setReplicas m.shardID m.newReplicas with
    | .error _ => some { s with monitor := .next todo }
    | .ok shards => some
      { s with
        lm := { s.lm with shards := shards }
        monitor := .untagging m todo
        finalised := m.call :: s.finalised }
  | .untagging m todo => some
    { s.setShards (s.lm.shards.setIncomingReplicas m.shardID []) with
      monitor := .reassigning m todo }
  -- The new leaders come as steps of their own.
  | .reassigning m todo => some { s with monitor := .deleting m todo }
  | .deleting m todo => some
    { s with migrations := s.migrations.erase m.shardID, monitor := .next todo }

/-- One step of the coordinator. -/
def step : MigratingAction → Option Migrating
  | .start shardID newReplicas =>
    match s.lm.shards.get shardID with
    | .error _ => some s
    | .ok shard => some
      { s with
        calls := s.calls ++
          [⟨shardID, newReplicas, .widening (widened shard.replicas newReplicas)⟩] }
  | .startNext k => (s.calls[k]?).bind (s.startNext k)
  | .checkStart order =>
    match s.monitor with
    | .next [] => some { s with monitor := .next (order.filterMap s.migrations.lookup) }
    | _ => none
  | .checkNext => s.checkNext
  | .membership m => some { s with lm := { s.lm with membership := m } }
  | .setLeader shardID nodeID => some (s.setShards (s.lm.shards.setLeader shardID nodeID))
  | .setTerm shardID term => some
    { s with lm := { s.lm with terms := s.lm.terms.insert shardID term } }
  | .addShard info => some (s.setShards (s.lm.shards.addShard info))
  | .clearBootstrapSource shardID => some (s.setShards (s.lm.shards.clearBootstrapSource shardID))

/-- No call for the shard has begun after the call `k`. -/
def Latest (k : ℕ) (x : String) : Prop :=
  ∀ j d, s.calls[j]? = some d → k < j → d.shardID ≠ x

/-- The migrations that have been accepted and not been replaced are pending, or have
    ended. -/
def Kept : Prop :=
  ∀ k c, s.calls[k]? = some c → c.phase = .done → s.Latest k c.shardID →
    ((s.migrations.lookup c.shardID).map (·.newReplicas) = some c.newReplicas ∧
      (s.lm.shards.shards.lookup c.shardID).map (·.incomingReplicas) = some c.newReplicas) ∨
    (k ∈ s.finalised ∧ s.lm.shards.replicasOf c.shardID = some c.newReplicas)

/-- The shard for which a call begins in a step. -/
def starting : MigratingAction → Option String
  | .start shardID _ => some shardID
  | _ => none

/-- The migration that ends in a step. -/
def ending : MigratingAction → Option Migration
  | .checkNext => s.monitor.ready
  | _ => none

/-- All calls for the shard have returned. -/
def Quiet (x : String) : Prop := ∀ c ∈ s.calls, c.shardID = x → c.finished = true

instance (x : String) : Decidable (s.Quiet x) :=
  inferInstanceAs (Decidable (∀ c ∈ s.calls, c.shardID = x → c.finished = true))

/-- A call begins when the others for the shard have returned, and the end of a
    migration of the shard is not under way. A migration ends while it is the recorded
    one, and no call for the shard is under way. -/
def Orderly (a : MigratingAction) : Prop :=
  (∀ x ∈ starting a, s.Quiet x ∧ ∀ m ∈ s.monitor.finalising, m.shardID ≠ x) ∧
    ∀ m ∈ s.ending a, s.Quiet m.shardID ∧ s.migrations.lookup m.shardID = some m

instance (a : MigratingAction) : Decidable (s.Orderly a) :=
  inferInstanceAs (Decidable
    ((∀ x ∈ starting a, s.Quiet x ∧ ∀ m ∈ s.monitor.finalising, m.shardID ≠ x) ∧
      ∀ m ∈ s.ending a, s.Quiet m.shardID ∧ s.migrations.lookup m.shardID = some m))

section Uninterrupted

/-! ## Calls without other steps in between -/

/-- The coordinator as one sees it between the calls. -/
def manager : MigrationManager where
  migrations := s.migrations.mapValues fun _ m => m.newReplicas
  leader := s.lm

/-- Four steps start a migration of a shard in the map. -/
theorem exec_startMigration {x : String} {R : List String} {mm : MigrationManager}
    (h : s.manager.startMigration x R = .ok mm) :
    ∃ t, exec step s [.start x R, .startNext s.calls.length, .startNext s.calls.length,
        .startNext s.calls.length] = some t ∧ t.manager = mm ∧
      t.calls[s.calls.length]? = some ⟨x, R, .done⟩ := by
  cases hs : s.lm.shards.shards.lookup x with
  | none =>
    rw [MigrationManager.startMigration_of_none R hs] at h
    cases h
  | some shard =>
    rw [MigrationManager.startMigration_of_lookup R hs] at h
    obtain rfl := Except.ok.inj h
    have hset : s.lm.shards.setReplicas x (widened shard.replicas R) = .ok _ :=
      ShardMap.update_of_lookup hs _
    have hlookup := ShardMap.lookup_insert_of_id hs
      (shard.withReplicas (widened shard.replicas R)) rfl x
    rw [if_pos rfl] at hlookup
    have htag : ShardMap.setIncomingReplicas _ x R = .ok _ := ShardMap.update_of_lookup hlookup _
    refine ⟨{ s with
        lm := { s.lm with shards := MigrationManager.widenedMap s.lm.shards shard R }
        migrations := s.migrations.insert x ⟨x, R, s.calls.length⟩
        calls := s.calls ++ [⟨x, R, .done⟩] }, ?_, ?_, ?_⟩
    · simp [exec, step, ShardMap.get, hs, startNext, hset, htag]
      rfl
    · simp only [manager, Finmap.mapValues_insert]
      rfl
    · exact List.getElem?_concat_length

/-- Some steps lead from one state to the other. -/
def Reaches (s t : Migrating) : Prop := ∃ as, exec step s as = some t

variable {s} {t u : Migrating}

theorem Reaches.refl (s : Migrating) : s.Reaches s := ⟨[], rfl⟩

theorem Reaches.trans (h : s.Reaches t) (h' : t.Reaches u) : s.Reaches u := by
  obtain ⟨as, has⟩ := h
  obtain ⟨bs, hbs⟩ := h'
  exact ⟨as ++ bs, exec_trans has hbs⟩

theorem Reaches.of_step {a : MigratingAction} (h : s.step a = some t) : s.Reaches t :=
  ⟨[a], by rw [exec, h]; rfl⟩

/-- A new leader is set, and then its term. -/
theorem reaches_checkShard (s : Migrating) (shard : ShardInfo) :
    s.Reaches { s with lm := s.lm.checkShard shard } := by
  have hreassign : s.Reaches { s with lm := s.lm.reassign shard } := by
    rw [LeaderManager.reassign]
    split
    · exact .refl s
    · rename_i candidate term _
      split
      · exact .refl s
      · rename_i shards hset
        have hleader : s.step (.setLeader shard.id candidate) =
            some { s with lm := { s.lm with shards := shards } } := by
          simp only [step, setShards, hset, ShardMap.orKeep]
        exact (Reaches.of_step hleader).trans (.of_step (a := .setTerm shard.id term) rfl)
  rw [LeaderManager.checkShard]
  split_ifs
  · exact hreassign
  · exact hreassign
  · exact .refl s

theorem reaches_checkAndReassign (s : Migrating) (order : List String) :
    s.Reaches { s with lm := s.lm.checkAndReassign order } :=
  List.foldlRecOn (motive := fun lm => s.Reaches { s with lm := lm }) _ _ (.refl s)
    fun lm h shard _ => h.trans (reaches_checkShard { s with lm := lm } shard)

/-- The replicas are asked one after the other, up to one that has not caught up. -/
theorem reaches_asking (s : Migrating) (m : Migration) (todo : List Migration)
    (left : List String) :
    Reaches { s with monitor := .asking m left todo }
      { s with monitor :=
          if left.all (s.manager.caughtUp m.shardID) then .asking m [] todo else .next todo } := by
  induction left with
  | nil => exact .refl _
  | cons n left ih =>
    refine (Reaches.of_step (a := .checkNext) rfl).trans ?_
    by_cases halive : s.lm.membership.isAlive n = true
    · rw [if_pos halive]
      refine (Reaches.of_step (a := .checkNext) rfl).trans ?_
      by_cases hversion : s.lm.membership.versionForShard n m.shardID = 0
      · have hcaught : s.manager.caughtUp m.shardID n = false := by
          simp [MigrationManager.caughtUp, manager, hversion]
        rw [List.all_cons, hcaught]
        simp only [if_pos hversion]
        exact .refl _
      · have hcaught : s.manager.caughtUp m.shardID n = true := by
          simp [MigrationManager.caughtUp, manager, hversion, halive]
        rw [List.all_cons, hcaught, Bool.true_and]
        simp only [if_neg hversion]
        exact ih
    · have hcaught : s.manager.caughtUp m.shardID n = false := by
        simp [MigrationManager.caughtUp, manager, halive]
      rw [List.all_cons, hcaught]
      simp only [if_neg halive]
      exact .refl _

/-- The steps of the end of a migration, with those of `CheckAndReassign`. -/
theorem reaches_finaliseMigration (s : Migrating) (order : List String) (m : Migration)
    (todo : List Migration) :
    ∃ t, Reaches { s with monitor := .asking m [] todo } t ∧ t.monitor = .next todo ∧
      t.manager = s.manager.finaliseMigration order m.shardID m.newReplicas := by
  cases hset : s.lm.shards.setReplicas m.shardID m.newReplicas with
  | error e =>
    refine ⟨{ s with monitor := .next todo }, .of_step (a := .checkNext) ?_, rfl, ?_⟩
    · simp only [step, checkNext, hset]
    · simp only [MigrationManager.finaliseMigration, manager, hset]
  | ok shards =>
    have hfirst : step { s with monitor := .asking m [] todo } .checkNext = some
        { s with
          lm := { s.lm with shards := shards }
          monitor := .untagging m todo
          finalised := m.call :: s.finalised } := by
      simp only [step, checkNext, hset]
    refine ⟨_, (Reaches.of_step hfirst).trans ((Reaches.of_step (a := .checkNext) rfl).trans
      ((reaches_checkAndReassign _ order).trans ((Reaches.of_step (a := .checkNext) rfl).trans
        (.of_step (a := .checkNext) rfl)))), rfl, ?_⟩
    simp only [MigrationManager.finaliseMigration, manager, hset, Finmap.mapValues_erase, setShards]

/-- One of the pending migrations. -/
theorem reaches_checkMigration (s : Migrating) (orders : String → List String) (m : Migration)
    (todo : List Migration) :
    ∃ t, Reaches { s with monitor := .next (m :: todo) } t ∧ t.monitor = .next todo ∧
      t.manager = s.manager.checkMigration orders (m.shardID, m.newReplicas) := by
  rw [MigrationManager.checkMigration, MigrationManager.allReady]
  have hstart :=
    Reaches.of_step (s := { s with monitor := .next (m :: todo) }) (a := .checkNext) rfl
  by_cases hnil : m.newReplicas = []
  · refine ⟨_, hstart, ?_, ?_⟩
    · simp only [if_pos hnil]
    · simp only [hnil]
      rfl
  · simp only [if_neg hnil] at hstart
    have hasked := hstart.trans (reaches_asking s m todo m.newReplicas)
    simp only [List.isEmpty_eq_false_iff.2 hnil, Bool.not_false, Bool.true_and]
    split_ifs with hall
    · obtain ⟨t, ht, hmon, hmanager⟩ :=
        reaches_finaliseMigration s (orders m.shardID) m todo
      rw [if_pos hall] at hasked
      exact ⟨t, hasked.trans ht, hmon, hmanager⟩
    · rw [if_neg hall] at hasked
      exact ⟨_, hasked, rfl, rfl⟩

theorem reaches_pending (s : Migrating) (orders : String → List String) (todo : List Migration) :
    ∃ t, Reaches { s with monitor := .next todo } t ∧ t.monitor = .next [] ∧
      t.manager = (todo.map fun m => (m.shardID, m.newReplicas)).foldl
        (fun mm m => mm.checkMigration orders m) s.manager := by
  induction todo generalizing s with
  | nil => exact ⟨_, .refl _, rfl, rfl⟩
  | cons m todo ih =>
    obtain ⟨u, hu, hmon, hmanager⟩ := reaches_checkMigration s orders m todo
    obtain ⟨t, ht, hmon', hmanager'⟩ := ih u
    refine ⟨t, hu.trans ?_, hmon', hmanager'.trans ?_⟩
    · rw [← hmon] at ht
      exact ht
    · rw [List.map_cons, List.foldl_cons, ← hmanager]

/-- One of the splits. -/
theorem reaches_checkSplit (s : Migrating) (orders : String → List String) (shard : ShardInfo) :
    ∃ t, s.Reaches t ∧ t.monitor = s.monitor ∧ t.manager = s.manager.checkSplit orders shard := by
  rw [MigrationManager.checkSplit]
  split
  · exact ⟨s, .refl s, rfl, rfl⟩
  split
  · split
    · exact ⟨s, .refl s, rfl, rfl⟩
    · rename_i shards hclear
      have hstep : s.step (.clearBootstrapSource shard.id) =
          some { s with lm := { s.lm with shards := shards } } := by
        change s.lm.shards.clearBootstrapSource shard.id = .ok shards at hclear
        simp only [step, setShards, hclear, ShardMap.orKeep]
      split
      · exact ⟨_, (Reaches.of_step hstep).trans (reaches_checkAndReassign _ (orders shard.id)),
          rfl, rfl⟩
      · exact ⟨_, .of_step hstep, rfl, rfl⟩
  · exact ⟨s, .refl s, rfl, rfl⟩

theorem reaches_splits (s : Migrating) (orders : String → List String) (l : List ShardInfo) :
    ∃ t, s.Reaches t ∧ t.monitor = s.monitor ∧
      t.manager = l.foldl (fun mm shard => mm.checkSplit orders shard) s.manager := by
  induction l generalizing s with
  | nil => exact ⟨s, .refl s, rfl, rfl⟩
  | cons shard l ih =>
    obtain ⟨u, hu, hmon, hmanager⟩ := reaches_checkSplit s orders shard
    obtain ⟨t, ht, hmon', hmanager'⟩ := ih u
    exact ⟨t, hu.trans ht, hmon'.trans hmon, by rw [hmanager', hmanager, List.foldl_cons]⟩

/-- Some steps do what `CheckMigrations` does. -/
theorem reaches_checkMigrations (hmon : s.monitor = .next [])
    (hid : ∀ x m, s.migrations.lookup x = some m → m.shardID = x) (o : CheckOrder) :
    ∃ t, s.Reaches t ∧ t.monitor = .next [] ∧ t.manager = s.manager.checkMigrations o := by
  have hstart : s.step (.checkStart o.pending) =
      some { s with monitor := .next (o.pending.filterMap s.migrations.lookup) } := by
    simp only [step, hmon]
  obtain ⟨u, hu, humon, humanager⟩ := reaches_pending s o.finalise
    (o.pending.filterMap s.migrations.lookup)
  obtain ⟨t, ht, htmon, htmanager⟩ := reaches_splits u o.split (u.lm.shards.all o.shards)
  refine ⟨t, (Reaches.of_step hstart).trans (hu.trans ht), htmon.trans humon, ?_⟩
  have hpending : s.manager.pending o.pending = (o.pending.filterMap s.migrations.lookup).map
      fun m => (m.shardID, m.newReplicas) := by
    rw [MigrationManager.pending, List.map_filterMap]
    refine List.filterMap_congr fun x _ => ?_
    simp only [manager, Finmap.lookup_mapValues]
    cases hm : s.migrations.lookup x with
    | none => rfl
    | some m => rw [Option.map_some, Option.map_some, Option.map_some, hid x m hm]
  rw [MigrationManager.checkMigrations, hpending, ← humanager, htmanager]
  rfl

end Uninterrupted

/-! ## No migration is lost -/

end Migrating

/-- The replicas that a migration of the shard is to end with. -/
def ShardMap.incomingOf (m : ShardMap) (x : String) : Option (List String) :=
  (m.shards.lookup x).map (·.incomingReplicas)

/-- The replicas of a shard, if it is in the map, and those to end with, are what they
    were. -/
structure ShardMap.KeepsAt (m m' : ShardMap) (x : String) : Prop where
  replicas : ∀ R, m.replicasOf x = some R → m'.replicasOf x = some R
  incoming : ∀ R, m.incomingOf x = some R → m'.incomingOf x = some R

namespace ShardMap

variable {m m' : ShardMap} {x y : String} {s s' : ShardInfo}

/-- The shard is what it was. -/
theorem KeepsAt.of_lookup (h : m'.shards.lookup x = m.shards.lookup x) : m.KeepsAt m' x := by
  constructor
  · rw [replicasOf, replicasOf, h]
    exact fun _ h => h
  · rw [incomingOf, incomingOf, h]
    exact fun _ h => h

/-- Replacing another shard. -/
theorem keepsAt_insert_of_ne (hs : m.shards.lookup y = some s) (hid : s'.id = s.id) (hx : x ≠ y) :
    m.KeepsAt (m.insert s') x :=
  .of_lookup ((lookup_insert_of_id hs s' hid x).trans (if_neg hx))

/-- Replacing the shard by one with the same replicas, and the same ones to end with. -/
theorem keepsAt_insert (hs : m.shards.lookup y = some s) (hid : s'.id = s.id)
    (hrep : s'.replicas = s.replicas) (hin : s'.incomingReplicas = s.incomingReplicas) :
    m.KeepsAt (m.insert s') x := by
  by_cases hx : x = y
  · subst hx
    have hlookup := (lookup_insert_of_id hs s' hid x).trans (if_pos rfl)
    constructor
    · rw [replicasOf, replicasOf, hlookup, hs, Option.map_some, Option.map_some, hrep]
      exact fun _ h => h
    · rw [incomingOf, incomingOf, hlookup, hs, Option.map_some, Option.map_some, hin]
      exact fun _ h => h
  · exact keepsAt_insert_of_ne hs hid hx

theorem keepsAt_setLeader {n : String} (h : m.setLeader y n = .ok m') (x : String) :
    m.KeepsAt m' x := by
  obtain ⟨s, hs, -, rfl⟩ := setLeader_ok h
  exact keepsAt_insert hs rfl rfl rfl

theorem keepsAt_clearBootstrapSource (h : m.clearBootstrapSource y = .ok m') (x : String) :
    m.KeepsAt m' x := by
  rcases clearBootstrapSource_ok h with rfl | ⟨s, hs, rfl⟩
  · exact .of_lookup rfl
  · exact keepsAt_insert hs rfl rfl rfl

/-- A new shard replaces none. -/
theorem keepsAt_addShard {info : ShardInfo} (h : m.addShard info = .ok m') (x : String) :
    m.KeepsAt m' x := by
  obtain ⟨hnew, rfl⟩ := addShard_ok h
  by_cases hx : x = info.id
  · subst hx
    constructor
    · intro R hR
      simp [replicasOf, hnew] at hR
    · intro R hR
      simp [incomingOf, hnew] at hR
  · refine .of_lookup ?_
    rw [lookup_insert, if_neg hx]

/-- Other replicas: they are those of the shard, and nothing else changes. -/
theorem setReplicas_spec {R : List String} (h : m.setReplicas y R = .ok m') :
    m'.replicasOf y = some R ∧ (∀ Q, m.incomingOf y = some Q → m'.incomingOf y = some Q) ∧
      ∀ x, x ≠ y → m.KeepsAt m' x := by
  obtain ⟨s, hs, rfl⟩ := update_ok h
  have hlookup := (lookup_insert_of_id hs (s.withReplicas R) rfl y).trans (if_pos rfl)
  refine ⟨?_, fun Q hQ => ?_, fun x hx => keepsAt_insert_of_ne hs rfl hx⟩
  · rw [replicasOf, hlookup]
    rfl
  · rw [incomingOf, hs] at hQ
    rw [incomingOf, hlookup]
    exact hQ

/-- Other replicas to end with. -/
theorem setIncomingReplicas_spec {R : List String} (h : m.setIncomingReplicas y R = .ok m') :
    m'.incomingOf y = some R ∧ (∀ Q, m.replicasOf y = some Q → m'.replicasOf y = some Q) ∧
      ∀ x, x ≠ y → m.KeepsAt m' x := by
  obtain ⟨s, hs, rfl⟩ := update_ok h
  have hlookup := (lookup_insert_of_id hs { s with incomingReplicas := R } rfl y).trans (if_pos rfl)
  refine ⟨?_, fun Q hQ => ?_, fun x hx => keepsAt_insert_of_ne hs rfl hx⟩
  · rw [incomingOf, hlookup]
    rfl
  · rw [replicasOf, hs] at hQ
    rw [replicasOf, hlookup]
    exact hQ

/-- A shard that has replicas is in the map, and can be changed. -/
theorem update_ne_error {R : List String} (h : m.replicasOf y = some R) {f : ShardInfo → ShardInfo}
    {e : ShardMapError} : m.update y f ≠ .error e := by
  obtain ⟨s, hs, -⟩ := Option.map_eq_some_iff.1 h
  rw [update_of_lookup hs]
  nofun

end ShardMap

namespace Migrating

/-- The call that the migration comes from has returned. -/
def RecordedBy (s : Migrating) (m : Migration) (x : String) : Prop :=
  s.calls[m.call]? = some ⟨x, m.newReplicas, .done⟩

/-- What the calls and the monitor rely on. -/
structure Sound (s : Migrating) : Prop where
  /-- The shards of all calls are in the map. -/
  known : ∀ c ∈ s.calls, ∃ R, s.lm.shards.replicasOf c.shardID = some R
  /-- When a call begins, the earlier ones for the shard have returned. -/
  ordered : ∀ (j k : ℕ) (c d : StartCall), s.calls[j]? = some c → s.calls[k]? = some d → j < k →
    c.shardID = d.shardID → c.finished = true
  /-- What a call is about to record is what the shard is to end with. -/
  tagged : ∀ c ∈ s.calls, c.phase = .recording →
    s.lm.shards.incomingOf c.shardID = some c.newReplicas
  /-- A record comes from the last call for the shard that has returned. -/
  recorded : ∀ x m, s.migrations.lookup x = some m → m.shardID = x ∧ s.RecordedBy m x ∧
    ∀ j d, s.calls[j]? = some d → m.call < j → d.shardID = x → d.finished = false
  /-- The migration that is being ended is that of the last call for the shard. -/
  finalising : ∀ m ∈ s.monitor.finalising, s.RecordedBy m m.shardID ∧ s.Latest m.call m.shardID
  /-- The migrations of the last calls are recorded and not being ended, or have ended. -/
  kept : ∀ k c, s.calls[k]? = some c → c.phase = .done → s.Latest k c.shardID →
    (s.migrations.lookup c.shardID = some ⟨c.shardID, c.newReplicas, k⟩ ∧
      s.lm.shards.incomingOf c.shardID = some c.newReplicas ∧
      ∀ m ∈ s.monitor.finalising, m.shardID ≠ c.shardID) ∨
    (k ∈ s.finalised ∧ s.lm.shards.replicasOf c.shardID = some c.newReplicas)

variable {s t : Migrating}

theorem Sound.toKept (h : s.Sound) : s.Kept := by
  intro k c hc hdone hlatest
  rcases h.kept k c hc hdone hlatest with ⟨hrecord, hincoming, -⟩ | hended
  · exact .inl ⟨by rw [hrecord]; rfl, hincoming⟩
  · exact .inr hended

theorem sound_new (lm : LeaderManager) : (new lm).Sound where
  known c hc := absurd hc List.not_mem_nil
  ordered j k c d hc := by simp [new] at hc
  tagged c hc := absurd hc List.not_mem_nil
  recorded x m hm := by simp [new] at hm
  finalising m hm := by simp [new, MonitorPhase.finalising] at hm
  kept k c hc := by simp [new] at hc

/-- Steps that neither concern the calls nor the end of a migration. -/
theorem Sound.of_keepsAt (h : s.Sound) (hcalls : t.calls = s.calls)
    (hmig : t.migrations = s.migrations) (hmon : t.monitor.finalising = s.monitor.finalising)
    (hfin : t.finalised = s.finalised)
    (hshards : ∀ x, s.lm.shards.KeepsAt t.lm.shards x) : t.Sound where
  known c hc := by
    rw [hcalls] at hc
    obtain ⟨R, hR⟩ := h.known c hc
    exact ⟨R, (hshards _).replicas R hR⟩
  ordered := hcalls ▸ h.ordered
  tagged c hc hphase := by
    rw [hcalls] at hc
    exact (hshards _).incoming _ (h.tagged c hc hphase)
  recorded := by
    rw [hmig]
    unfold RecordedBy
    rw [hcalls]
    exact h.recorded
  finalising := by
    rw [hmon]
    unfold RecordedBy Latest
    rw [hcalls]
    exact h.finalising
  kept k c hc hdone hlatest := by
    unfold Latest at hlatest
    rw [hcalls] at hc hlatest
    rw [hmig, hmon, hfin]
    exact (h.kept k c hc hdone hlatest).imp
      (fun ⟨hrec, hin, hend⟩ => ⟨hrec, (hshards _).incoming _ hin, hend⟩)
      fun ⟨hk, hrep⟩ => ⟨hk, (hshards _).replicas _ hrep⟩

/-- The monitor goes on, and does not begin or complete the end of a migration. -/
theorem Sound.setMonitor (h : s.Sound) {phase : MonitorPhase}
    (hphase : phase.finalising = s.monitor.finalising) : Sound { s with monitor := phase } :=
  h.of_keepsAt rfl rfl hphase rfl fun _ => .of_lookup rfl

theorem Sound.setShards (h : s.Sound) {r : Except ShardMapError ShardMap}
    (hr : ∀ shards, r = .ok shards → ∀ x, s.lm.shards.KeepsAt shards x) :
    (s.setShards r).Sound := by
  cases r with
  | error e => exact h
  | ok shards => exact h.of_keepsAt rfl rfl rfl rfl (hr shards rfl)

/-- A call begins. -/
theorem Sound.start (h : s.Sound) {x : String} {R union : List String} {shard : ShardInfo}
    (hshard : s.lm.shards.shards.lookup x = some shard) (hquiet : s.Quiet x)
    (hend : ∀ m ∈ s.monitor.finalising, m.shardID ≠ x) :
    Sound { s with calls := s.calls ++ [⟨x, R, .widening union⟩] } where
  known := List.forall_mem_concat h.known ⟨shard.replicas, by
    rw [ShardMap.replicasOf, hshard]
    rfl⟩
  ordered j k c d hc hd hjk hx := by
    rcases List.getElem?_concat_cases hd with ⟨rfl, rfl⟩ | hd
    · rcases List.getElem?_concat_cases hc with ⟨rfl, -⟩ | hc
      · exact absurd hjk (lt_irrefl _)
      · exact hquiet c (List.mem_of_getElem? hc) hx
    · rcases List.getElem?_concat_cases hc with ⟨rfl, -⟩ | hc
      · have := (List.getElem?_eq_some_iff.1 hd).1
        omega
      · exact h.ordered j k c d hc hd hjk hx
  tagged := List.forall_mem_concat h.tagged fun hphase => by cases hphase
  recorded y m hm := by
    obtain ⟨hid, hcall, hlater⟩ := h.recorded y m hm
    refine ⟨hid, List.getElem?_concat_of_some hcall, fun j d hd hj hy => ?_⟩
    rcases List.getElem?_concat_cases hd with ⟨-, rfl⟩ | hd
    · rfl
    · exact hlater j d hd hj hy
  finalising m hm := by
    obtain ⟨hcall, hlatest⟩ := h.finalising m hm
    refine ⟨List.getElem?_concat_of_some hcall, fun j d hd hj => ?_⟩
    rcases List.getElem?_concat_cases hd with ⟨-, rfl⟩ | hd
    · exact (hend m hm).symm
    · exact hlatest j d hd hj
  kept k c hc hdone hlatest := by
    rcases List.getElem?_concat_cases hc with ⟨-, rfl⟩ | hc
    · cases hdone
    · exact h.kept k c hc hdone fun j d hd => hlatest j d (List.getElem?_concat_of_some hd)

/-- The call `k` is under way. -/
def Running (s : Migrating) (k : ℕ) (c : StartCall) : Prop :=
  s.calls[k]? = some c ∧ c.finished = false

variable {k : ℕ} {c : StartCall}

/-- A call under way is the last one for its shard. -/
theorem Sound.latest_of_running (h : s.Sound) (hk : s.Running k c) : s.Latest k c.shardID := by
  intro j d hd hj hx
  have hfin := h.ordered k j c d hk.1 hd hj hx.symm
  rw [hk.2] at hfin
  cases hfin

/-- A migration of the last call for a shard is not one of a shard with a call under way. -/
theorem Sound.ne_of_latest (h : s.Sound) (hk : s.Running k c) {j : ℕ} {d : StartCall}
    (hd : s.calls[j]? = some d) (hdone : d.phase = .done) (hlatest : s.Latest j d.shardID) :
    d.shardID ≠ c.shardID := by
  intro hx
  rcases lt_trichotomy j k with hlt | rfl | hlt
  · exact hlatest k c hk.1 hlt hx.symm
  · obtain rfl := Option.some.inj (hd.symm.trans hk.1)
    have hfin := hk.2
    rw [StartCall.finished, hdone] at hfin
    cases hfin
  · exact h.latest_of_running hk j d hd hlt hx

/-- Two calls under way are for different shards. -/
theorem Sound.ne_of_running (h : s.Sound) (hk : s.Running k c) {j : ℕ} {d : StartCall}
    (hd : s.Running j d) (hne : j ≠ k) : d.shardID ≠ c.shardID := by
  rcases lt_or_gt_of_ne hne with hlt | hlt
  · exact (h.latest_of_running hd k c hk.1 hlt).symm
  · exact h.latest_of_running hk j d hd.1 hlt

/-- No migration of a shard is being ended while a call for it is under way. -/
theorem Sound.finalising_ne (h : s.Sound) (hk : s.Running k c) {m : Migration}
    (hm : m ∈ s.monitor.finalising) : m.shardID ≠ c.shardID := by
  obtain ⟨hcall, hlatest⟩ := h.finalising m hm
  exact h.ne_of_latest hk hcall rfl hlatest

/-- The calls after one of them has taken a step. -/
theorem latest_set (hk : s.calls[k]? = some c) {phase : StartPhase} {j : ℕ} {x : String} :
    Latest { s with calls := s.calls.set k { c with phase := phase } } j x ↔ s.Latest j x := by
  constructor
  · intro h i d hd hi
    by_cases hik : i = k
    · subst hik
      obtain rfl := Option.some.inj (hk.symm.trans hd)
      refine h i { c with phase := phase } ?_ hi
      exact List.getElem?_set_self (List.getElem?_eq_some_iff.1 hk).1
    · exact h i d ((List.getElem?_set_ne (Ne.symm hik)).trans hd) hi
  · intro h i d hd hi
    rcases List.getElem?_set_cases hd with ⟨rfl, rfl⟩ | ⟨-, hd⟩
    · exact h i c hk hi
    · exact h i d hd hi

theorem Running.recordedBy_set (hk : s.Running k c) {m : Migration} {x : String}
    (hm : s.RecordedBy m x) (c' : StartCall) : (s.calls.set k c')[m.call]? =
      some ⟨x, m.newReplicas, .done⟩ := by
  have hne : k ≠ m.call := by
    rintro rfl
    obtain rfl := Option.some.inj (hk.1.symm.trans hm)
    cases hk.2
  rw [List.getElem?_set_ne hne]
  exact hm

/-- A step of a call, which concerns its shard only. The call goes on, or it has recorded
    its migration. -/
theorem Sound.callNext (h : s.Sound) (hk : s.Running k c) {phase : StartPhase} {shards : ShardMap}
    {migrations : Finmap fun _ : String => Migration}
    (hshards : ∀ x, x ≠ c.shardID → s.lm.shards.KeepsAt shards x)
    (hmig : ∀ x, x ≠ c.shardID → migrations.lookup x = s.migrations.lookup x)
    (hknown : ∃ R, shards.replicasOf c.shardID = some R)
    (htag : phase = .recording → shards.incomingOf c.shardID = some c.newReplicas)
    (hnext : (StartCall.finished { c with phase := phase } = false ∧
        migrations.lookup c.shardID = s.migrations.lookup c.shardID) ∨
      phase = .done ∧ shards.incomingOf c.shardID = some c.newReplicas ∧
        migrations.lookup c.shardID = some ⟨c.shardID, c.newReplicas, k⟩) :
    Sound { s with
      lm := { s.lm with shards := shards }
      migrations := migrations
      calls := s.calls.set k { c with phase := phase } } where
  known := by
    refine List.forall_mem_set (fun d hd => ?_) hknown
    by_cases hx : d.shardID = c.shardID
    · exact hx ▸ hknown
    · obtain ⟨R, hR⟩ := h.known d hd
      exact ⟨R, (hshards _ hx).replicas R hR⟩
  ordered i j d e hd he hij hx := by
    -- The earlier one of two calls for the shard has returned, so it is not this one.
    rcases List.getElem?_set_cases hd with ⟨rfl, rfl⟩ | ⟨-, hd'⟩
    · rcases List.getElem?_set_cases he with ⟨rfl, -⟩ | ⟨-, he'⟩
      · exact absurd hij (lt_irrefl _)
      · exact absurd hx.symm (h.latest_of_running hk j e he' hij)
    · rcases List.getElem?_set_cases he with ⟨rfl, rfl⟩ | ⟨-, he'⟩
      · exact h.ordered i j d c hd' hk.1 hij hx
      · exact h.ordered i j d e hd' he' hij hx
  tagged d hd hphase := by
    obtain ⟨j, hj⟩ := List.mem_iff_getElem?.1 hd
    rcases List.getElem?_set_cases hj with ⟨-, rfl⟩ | ⟨hne, hj'⟩
    · exact htag hphase
    · have hrun : s.Running j d := ⟨hj', by rw [StartCall.finished, hphase]⟩
      refine (hshards _ (h.ne_of_running hk hrun hne)).incoming _ ?_
      exact h.tagged d (List.mem_of_getElem? hj') hphase
  recorded x m hm := by
    by_cases hx : x = c.shardID
    · subst hx
      rcases hnext with ⟨hrun, hsame⟩ | ⟨rfl, -, hnew⟩
      · obtain ⟨hid, hcall, hlater⟩ := h.recorded _ m (hsame ▸ hm)
        refine ⟨hid, hk.recordedBy_set hcall _, fun j d hd hj hx => ?_⟩
        rcases List.getElem?_set_cases hd with ⟨-, rfl⟩ | ⟨-, hd'⟩
        · exact hrun
        · exact hlater j d hd' hj hx
      · obtain rfl := Option.some.inj (hnew.symm.trans hm)
        refine ⟨rfl, ?_, fun j d hd hj hx => ?_⟩
        · exact List.getElem?_set_self (List.getElem?_eq_some_iff.1 hk.1).1
        · exact absurd hx ((latest_set hk.1).2 (h.latest_of_running hk) j d hd hj)
    · obtain ⟨hid, hcall, hlater⟩ := h.recorded x m (hmig x hx ▸ hm)
      refine ⟨hid, hk.recordedBy_set hcall _, fun j d hd hj hdx => ?_⟩
      rcases List.getElem?_set_cases hd with ⟨-, rfl⟩ | ⟨-, hd'⟩
      · exact absurd hdx.symm hx
      · exact hlater j d hd' hj hdx
  finalising m hm := by
    obtain ⟨hcall, hlatest⟩ := h.finalising m hm
    exact ⟨hk.recordedBy_set hcall _, (latest_set hk.1).2 hlatest⟩
  kept j d hd hdone hlatest := by
    rcases List.getElem?_set_cases hd with ⟨rfl, rfl⟩ | ⟨-, hd'⟩
    · obtain rfl : phase = .done := hdone
      rcases hnext with ⟨hrun, -⟩ | ⟨-, hin, hnew⟩
      · cases hrun
      · exact .inl ⟨hnew, hin, fun m hm => h.finalising_ne hk hm⟩
    · have hlatest := (latest_set hk.1).1 hlatest
      have hx := h.ne_of_latest hk hd' hdone hlatest
      rcases h.kept j d hd' hdone hlatest with ⟨hrec, hin, hend⟩ | ⟨hfin, hrep⟩
      · exact .inl ⟨(hmig _ hx).trans hrec, (hshards _ hx).incoming _ hin, hend⟩
      · exact .inr ⟨hfin, (hshards _ hx).replicas _ hrep⟩

theorem Sound.startNext (h : s.Sound) (hk : s.calls[k]? = some c)
    (hstep : s.startNext k c = some t) : t.Sound := by
  obtain ⟨x, newReplicas, phase⟩ := c
  obtain ⟨R, hR⟩ := h.known _ (List.mem_of_getElem? hk)
  cases phase with
  | widening union =>
    simp only [Migrating.startNext] at hstep
    cases hset : s.lm.shards.setReplicas x union with
    | error e => exact absurd hset (ShardMap.update_ne_error hR)
    | ok shards =>
      obtain ⟨hrep, -, hkeeps⟩ := ShardMap.setReplicas_spec hset
      rw [hset] at hstep
      obtain rfl := Option.some.inj hstep
      exact h.callNext ⟨hk, rfl⟩ hkeeps (fun _ _ => rfl) ⟨_, hrep⟩ nofun (.inl ⟨rfl, rfl⟩)
  | tagging =>
    simp only [Migrating.startNext] at hstep
    cases hset : s.lm.shards.setIncomingReplicas x newReplicas with
    | error e => exact absurd hset (ShardMap.update_ne_error hR)
    | ok shards =>
      obtain ⟨hin, hrep, hkeeps⟩ := ShardMap.setIncomingReplicas_spec hset
      rw [hset] at hstep
      obtain rfl := Option.some.inj hstep
      exact h.callNext ⟨hk, rfl⟩ hkeeps (fun _ _ => rfl) ⟨R, hrep R hR⟩ (fun _ => hin)
        (.inl ⟨rfl, rfl⟩)
  | recording =>
    obtain rfl := Option.some.inj hstep
    have hin := h.tagged _ (List.mem_of_getElem? hk) rfl
    exact h.callNext ⟨hk, rfl⟩ (fun _ _ => .of_lookup rfl)
      (fun _ hx => Finmap.lookup_insert_of_ne _ hx) ⟨R, hR⟩ nofun
      (.inr ⟨rfl, hin, Finmap.lookup_insert _⟩)
  | done => cases hstep
  | failed e => cases hstep

/-- The last calls for a shard are the same one. -/
theorem eq_of_latest {j k : ℕ} {d e : StartCall} (hd : s.calls[j]? = some d)
    (he : s.calls[k]? = some e) (hx : d.shardID = e.shardID) (hj : s.Latest j d.shardID)
    (hk : s.Latest k e.shardID) : j = k := by
  rcases lt_trichotomy j k with hlt | heq | hlt
  · exact absurd hx.symm (hj k e he hlt)
  · exact heq
  · exact absurd hx (hk j d hd hlt)

/-- The end of a migration begins. It is the one of the last call for the shard. -/
theorem Sound.finalise (h : s.Sound) {m : Migration} {todo : List Migration} {shards : ShardMap}
    (hquiet : s.Quiet m.shardID) (hrecord : s.migrations.lookup m.shardID = some m)
    (hset : s.lm.shards.setReplicas m.shardID m.newReplicas = .ok shards) :
    Sound { s with
      lm := { s.lm with shards := shards }
      monitor := .untagging m todo
      finalised := m.call :: s.finalised } := by
  obtain ⟨hrep, hin, hkeeps⟩ := ShardMap.setReplicas_spec hset
  obtain ⟨-, hcall, hlater⟩ := h.recorded _ m hrecord
  have hlatest : s.Latest m.call m.shardID := by
    intro j d hd hj hx
    have hrunning := hlater j d hd hj hx
    rw [hquiet d (List.mem_of_getElem? hd) hx] at hrunning
    cases hrunning
  refine ⟨fun c hc => ?_, h.ordered, fun c hc hphase => ?_, h.recorded, ?_, ?_⟩
  · by_cases hx : c.shardID = m.shardID
    · exact ⟨_, hx ▸ hrep⟩
    · obtain ⟨R, hR⟩ := h.known c hc
      exact ⟨R, (hkeeps _ hx).replicas R hR⟩
  · have htagged := h.tagged c hc hphase
    by_cases hx : c.shardID = m.shardID
    · rw [hx] at htagged ⊢
      exact hin _ htagged
    · exact (hkeeps _ hx).incoming _ htagged
  · rintro m' ⟨⟩
    exact ⟨hcall, hlatest⟩
  · intro k c hc hdone hk
    by_cases hx : c.shardID = m.shardID
    · obtain rfl := eq_of_latest hc hcall hx hk hlatest
      obtain rfl := Option.some.inj (hc.symm.trans hcall)
      exact .inr ⟨List.mem_cons_self, hrep⟩
    · rcases h.kept k c hc hdone hk with ⟨hrec, hinc, -⟩ | ⟨hfin, hrepc⟩
      · refine .inl ⟨hrec, (hkeeps _ hx).incoming _ hinc, ?_⟩
        rintro m' ⟨⟩
        exact Ne.symm hx
      · exact .inr ⟨List.mem_cons_of_mem _ hfin, (hkeeps _ hx).replicas _ hrepc⟩

/-- A migration that is being ended has ended for the shard map. -/
theorem Sound.ended_of_finalising (h : s.Sound) {m : Migration} (hm : m ∈ s.monitor.finalising)
    (hk : s.calls[k]? = some c) (hdone : c.phase = .done) (hlatest : s.Latest k c.shardID)
    (hx : c.shardID = m.shardID) :
    k ∈ s.finalised ∧ s.lm.shards.replicasOf c.shardID = some c.newReplicas :=
  (h.kept k c hk hdone hlatest).resolve_left fun hrec => hrec.2.2 m hm hx.symm

/-- The second step of the end of a migration. No call under way is for its shard. -/
theorem Sound.untag (h : s.Sound) {m : Migration} {todo : List Migration}
    (hm : m ∈ s.monitor.finalising) :
    Sound { s.setShards (s.lm.shards.setIncomingReplicas m.shardID []) with
      monitor := .reassigning m todo } := by
  have hmon : s.monitor.finalising = some m := hm
  cases hset : s.lm.shards.setIncomingReplicas m.shardID [] with
  | error e => exact h.of_keepsAt rfl rfl hmon.symm rfl fun _ => .of_lookup rfl
  | ok shards =>
    obtain ⟨-, hrep, hkeeps⟩ := ShardMap.setIncomingReplicas_spec hset
    have hreplicas (x : String) (R : List String) (hR : s.lm.shards.replicasOf x = some R) :
        shards.replicasOf x = some R := by
      by_cases hx : x = m.shardID
      · subst hx
        exact hrep R hR
      · exact (hkeeps x hx).replicas R hR
    refine ⟨fun c hc => ?_, h.ordered, fun c hc hphase => ?_, h.recorded, ?_, ?_⟩
    · obtain ⟨R, hR⟩ := h.known c hc
      exact ⟨R, hreplicas _ R hR⟩
    · obtain ⟨j, hj⟩ := List.mem_iff_getElem?.1 hc
      have hx := h.finalising_ne ⟨hj, by rw [StartCall.finished, hphase]⟩ hm
      exact (hkeeps _ hx.symm).incoming _ (h.tagged c hc hphase)
    · rintro m' ⟨⟩
      exact h.finalising m hm
    · intro k c hc hdone hk
      by_cases hx : c.shardID = m.shardID
      · obtain ⟨hfin, hrepc⟩ := h.ended_of_finalising hm hc hdone hk hx
        exact .inr ⟨hfin, hreplicas _ _ hrepc⟩
      · rcases h.kept k c hc hdone hk with ⟨hrec, hinc, -⟩ | ⟨hfin, hrepc⟩
        · refine .inl ⟨hrec, (hkeeps _ hx).incoming _ hinc, ?_⟩
          rintro m' ⟨⟩
          exact Ne.symm hx
        · exact .inr ⟨hfin, hreplicas _ _ hrepc⟩

/-- The last step of the end of a migration. -/
theorem Sound.delete (h : s.Sound) {m : Migration} {todo : List Migration}
    (hm : m ∈ s.monitor.finalising) :
    Sound { s with migrations := s.migrations.erase m.shardID, monitor := .next todo } := by
  refine ⟨h.known, h.ordered, h.tagged, fun x m' hm' => ?_, nofun, fun k c hc hdone hk => ?_⟩
  · by_cases hx : x = m.shardID
    · rw [hx, Finmap.lookup_erase] at hm'
      cases hm'
    · rw [Finmap.lookup_erase_ne hx] at hm'
      exact h.recorded x m' hm'
  · by_cases hx : c.shardID = m.shardID
    · exact .inr (h.ended_of_finalising hm hc hdone hk hx)
    · rcases h.kept k c hc hdone hk with ⟨hrec, hinc, -⟩ | hended
      · exact .inl ⟨(Finmap.lookup_erase_ne hx).trans hrec, hinc, nofun⟩
      · exact .inr hended

theorem Sound.checkNext (h : s.Sound) (hC : s.Orderly .checkNext)
    (hstep : s.checkNext = some t) : t.Sound := by
  rw [Migrating.checkNext] at hstep
  split at hstep
  · cases hstep
  · rename_i m todo hmon
    obtain rfl := Option.some.inj hstep
    refine h.setMonitor ?_
    rw [hmon]
    split_ifs <;> rfl
  · rename_i m n left todo hmon
    obtain rfl := Option.some.inj hstep
    refine h.setMonitor ?_
    rw [hmon]
    split_ifs <;> rfl
  · rename_i m n left todo hmon
    obtain rfl := Option.some.inj hstep
    refine h.setMonitor ?_
    rw [hmon]
    split_ifs <;> rfl
  · rename_i m todo hmon
    split at hstep
    · obtain rfl := Option.some.inj hstep
      exact h.setMonitor (by rw [hmon]; rfl)
    · obtain rfl := Option.some.inj hstep
      obtain ⟨hquiet, hrecord⟩ := hC.2 m (by simp [ending, hmon, MonitorPhase.ready])
      exact h.finalise hquiet hrecord ‹_›
  · rename_i m todo hmon
    obtain rfl := Option.some.inj hstep
    exact h.untag (by simp [hmon, MonitorPhase.finalising])
  · rename_i m todo hmon
    obtain rfl := Option.some.inj hstep
    exact h.setMonitor (by rw [hmon]; rfl)
  · rename_i m todo hmon
    obtain rfl := Option.some.inj hstep
    exact h.delete (by simp [hmon, MonitorPhase.finalising])

theorem sound_step (s : Migrating) (a : MigratingAction) (t : Migrating) (h : s.Sound)
    (hC : s.Orderly a) (hstep : s.step a = some t) : t.Sound := by
  cases a with
  | start x R =>
    simp only [step, ShardMap.get] at hstep
    cases hshard : s.lm.shards.shards.lookup x with
    | none =>
      rw [hshard] at hstep
      exact Option.some.inj hstep ▸ h
    | some shard =>
      rw [hshard] at hstep
      obtain rfl := Option.some.inj hstep
      obtain ⟨hquiet, hend⟩ := hC.1 x rfl
      exact h.start hshard hquiet hend
  | startNext k =>
    obtain ⟨c, hc, hstep⟩ := Option.bind_eq_some_iff.1 hstep
    exact h.startNext hc hstep
  | checkStart order =>
    simp only [step] at hstep
    split at hstep
    · rename_i hmon
      obtain rfl := Option.some.inj hstep
      exact h.setMonitor (by rw [hmon]; rfl)
    · cases hstep
  | checkNext => exact h.checkNext hC hstep
  | membership m =>
    obtain rfl := Option.some.inj hstep
    exact h.of_keepsAt rfl rfl rfl rfl fun _ => .of_lookup rfl
  | setLeader x n =>
    obtain rfl := Option.some.inj hstep
    exact h.setShards fun _ => ShardMap.keepsAt_setLeader
  | setTerm x term =>
    obtain rfl := Option.some.inj hstep
    exact h.of_keepsAt rfl rfl rfl rfl fun _ => .of_lookup rfl
  | addShard info =>
    obtain rfl := Option.some.inj hstep
    exact h.setShards fun _ => ShardMap.keepsAt_addShard
  | clearBootstrapSource x =>
    obtain rfl := Option.some.inj hstep
    exact h.setShards fun _ => ShardMap.keepsAt_clearBootstrapSource

/-- In a run whose steps are all orderly, no migration is lost. -/
theorem migrations_kept (lm : LeaderManager) (as : List MigratingAction)
    (h : Along step Orderly (new lm) as) : Throughout step Kept (new lm) as :=
  (throughout sound_step (sound_new lm) h).mono fun _ hs => hs.toKept

end Migrating

/-! A shard on the nodes `a`, `b` and `c` is migrated to `b`, and then to `c`. -/

/-- What the coordinator of the example knows after `b` has caught up. -/
def afterCatchUp : Membership :=
  { exampleManager.membership with
    nodes := (exampleManager.membership.nodes.insert "b"
      { id := "b", address := "b:1", isAlive := true, lastHeartbeatAt := some 10,
        shardVersions := Finmap.singleton "shard-0" 3 }) }

/-- A call of `StartMigration` without interruption, the `k`-th one. -/
def startRun (k : ℕ) (newReplicas : List String) : List MigratingAction :=
  [.start "shard-0" newReplicas, .startNext k, .startNext k, .startNext k]

/-- A migration to `b`, and the monitor up to where it finds that `b` has caught up. -/
def caughtUpRun : List MigratingAction :=
  .membership afterCatchUp :: startRun 0 ["b"] ++
    [.checkStart ["shard-0"], .checkNext, .checkNext, .checkNext]

/-- The end of the migration. -/
def finaliseRun : List MigratingAction := [.checkNext, .checkNext, .checkNext, .checkNext]

namespace Migrating

/-- The migration to `c` starts after that to `b` has ended. -/
theorem migrations_kept_finaliseRun :
    (exec step (new exampleManager) (caughtUpRun ++ finaliseRun ++ startRun 1 ["c"])).map
        (fun s => (s.lm.shards.incomingOf "shard-0", s.finalised)) = some (some ["c"], [0]) ∧
      Throughout step Kept (new exampleManager) (caughtUpRun ++ finaliseRun ++ startRun 1 ["c"]) :=
  ⟨by decide +kernel, migrations_kept exampleManager _ (by decide +kernel)⟩

/-- The migration to `c` is accepted before that to `b` ends. Then its record is deleted,
    and nothing of it is left. -/
theorem migration_lost :
    ¬Throughout step Kept (new exampleManager)
      (caughtUpRun ++ startRun 1 ["c"] ++ finaliseRun) := by
  obtain ⟨s, hs⟩ := Option.isSome_iff_exists.1 (by decide +kernel :
    (exec step (new exampleManager) (caughtUpRun ++ startRun 1 ["c"] ++ finaliseRun)).isSome = true)
  have hend : (exec step (new exampleManager)
      (caughtUpRun ++ startRun 1 ["c"] ++ finaliseRun)).map (fun s =>
        (s.calls, s.migrations.lookup "shard-0", s.finalised)) =
      some ([⟨"shard-0", ["b"], .done⟩, ⟨"shard-0", ["c"], .done⟩], none, [0]) := by
    decide +kernel
  rw [hs] at hend
  simp only [Option.map_some, Option.some.injEq, Prod.mk.injEq] at hend
  obtain ⟨hcalls, hrecord, hfinalised⟩ := hend
  intro h
  have hlatest : s.Latest 1 "shard-0" := by
    intro j d hd hj
    rw [hcalls] at hd
    have := (List.getElem?_eq_some_iff.1 hd).1
    simp only [List.length_cons, List.length_nil] at this
    omega
  rcases h.last hs 1 ⟨"shard-0", ["c"], .done⟩ (by rw [hcalls]; rfl) rfl hlatest with
    ⟨hpending, -⟩ | ⟨hfin, -⟩
  · rw [hrecord] at hpending
    cases hpending
  · rw [hfinalised] at hfin
    exact absurd hfin (by decide)

end Migrating

end Doki
