import Doki.Node.Election

/-!
# Recovery

How a replica that is not ready catches up (`node/recovery.go`). In every round of
the recovery loop it asks its leader for what it misses (`recoveryTick`,
`recoverRequest`), and installs the answer (`doIncrementalRecovery`): entries
are applied one after the other, a snapshot replaces the whole state.

* `applyEntries_spec`: the entries that are applied are consecutive, and some of
  those received;
* `keepsVote_applyEntries`: they move the replica forward. A snapshot need not.
-/

namespace Doki

open Faulty

/-- The errors of a recovery. -/
inductive RecoveryError
  | gap (expected got : ℕ)
  | applyEntry (e : ApplyError)
  | applySnapshot (e : DiskError)
  deriving DecidableEq, Repr

/-- The error's text. -/
def RecoveryError.message : RecoveryError → String
  | .gap expected got => s!"recovery gap: expected version {expected} got {got}"
  | .applyEntry e => "apply entry: " ++ e.message
  | .applySnapshot e => "apply snapshot: disk snapshot reset: " ++ e.message

/-- How a replica has recovered. -/
inductive RecoveryType
  | incremental
  | snapshot
  deriving DecidableEq, Repr

/-- The first gap in the entries after `version`, when `expected` is the next
    version: the expected version, and the one found. -/
def firstGap (version : ℕ) : ℕ → List Entry → Option (ℕ × ℕ)
  | _, [] => none
  | expected, e :: es =>
    if e.version ≤ version then firstGap version expected es
    else if e.version ≠ expected then some (expected, e.version)
    else firstGap version (Counter.next expected) es

namespace ReplicaState

/-- The source that the status of a recovery shows. -/
def recoverySourceOf (r : ReplicaState) : String :=
  if r.bootstrapShardID ≠ "" then recoverySourceBootstrap r.bootstrapShardID
  else recoverySourceLeader r.leaderID

/-- One round of the recovery loop: the replica after it, and the address to
    recover from, if there is something to recover. While a split is being
    bootstrapped, its source comes first. -/
def recoveryTick (r : ReplicaState) (leaderAddr : String) : ReplicaState × Option String :=
  if r.isReady then ({ r with recoveryState := .healthy, recoverySource := "" }, none)
  else
    let addr :=
      if r.bootstrapShardID ≠ "" ∧ r.bootstrapLeaderAddr ≠ "" then r.bootstrapLeaderAddr
      else if leaderAddr = "" then r.bootstrapLeaderAddr
      else leaderAddr
    if addr = "" then ({ r with recoveryState := .unavailable, recoverySource := "" }, none)
    else
      ({ r with recoveryState := .recovering, recoverySource := r.recoverySourceOf }, some addr)

/-- A round that fails, for a recovery with the source `source`. -/
def recoveryFailed (r : ReplicaState) (source : String) : ReplicaState :=
  { r with recoveryState := .lagging, recoverySource := source }

/-- What a recovery asks for: a shard, and the version to start from. -/
def recoverRequest (r : ReplicaState) : String × ℕ :=
  if r.bootstrapShardID ≠ "" then (r.bootstrapShardID, 0) else (r.shardID, r.version)

/-- A recovery has succeeded. -/
def recovered (r : ReplicaState) : ReplicaState :=
  { r.setReady with bootstrapShardID := "", bootstrapLeaderAddr := "" }

/-- Applying the entries that the replica does not have yet; `walOk` tells, by the
    version, whether a write to the write-ahead log succeeds. -/
def applyEntries (walOk : ℕ → Bool) : ReplicaState → List Entry → ReplicaState × Option ApplyError
  | r, [] => (r, none)
  | r, e :: es =>
    if e.version ≤ r.version then applyEntries walOk r es
    else
      match r.apply e .withWAL (walOk e.version) with
      | (r', some err) => (r', some err)
      | (r', none) => applyEntries walOk r' es

/-- The entries that `applyEntries` applies. -/
def taken (walOk : ℕ → Bool) : ReplicaState → List Entry → List Entry
  | _, [] => []
  | r, e :: es =>
    if e.version ≤ r.version then taken walOk r es
    else
      match r.apply e .withWAL (walOk e.version) with
      | (_, some _) => []
      | (r', none) => e :: taken walOk r' es

/-- The entries of a response that a recovery applies: none if there is a gap. -/
def takenEntries (walOk : ℕ → Bool) (r : ReplicaState) (es : List Entry) : List Entry :=
  match firstGap r.version (Counter.next r.version) es with
  | some _ => []
  | none => taken walOk r es

/-- Installing the response of a leader. -/
def doIncrementalRecovery (r : ReplicaState) (resp : RecoverResponse) (walOk : ℕ → Bool)
    (fates : List Fate) : Outcome RecoveryError RecoveryType × ReplicaState :=
  match resp with
  | .entries _ es =>
    -- Gaps are looked for before any entry is applied.
    match firstGap r.version (Counter.next r.version) es with
    | some (expected, got) => (.error (.gap expected got), r)
    | none =>
      match applyEntries walOk r es with
      | (r', some err) => (.error (.applyEntry err), r')
      | (r', none) => (.done .incremental, r'.recovered)
  | .snapshot s =>
    match r.applySnapshot s .persist fates with
    | (.done (), r') => (.done .snapshot, r'.recovered)
    | (.error e, r') => (.error (.applySnapshot e), r')
    | (.crashed, r') => (.crashed, r')

/-- What the entries that are applied make of a replica. -/
theorem applyEntries_spec (walOk : ℕ → Bool) (r : ReplicaState) (es : List Entry) :
    (taken walOk r es).Sublist es ∧ Consecutive r.version (taken walOk r es) ∧
      (applyEntries walOk r es).1.kv = replay r.kv (taken walOk r es) ∧
      (applyEntries walOk r es).1.version = r.version + (taken walOk r es).length := by
  induction es generalizing r with
  | nil => exact ⟨List.Sublist.refl _, trivial, rfl, rfl⟩
  | cons e es ih =>
    rw [applyEntries, taken]
    split_ifs with hle
    · -- The replica has this entry already.
      obtain ⟨hsub, hrest⟩ := ih r
      exact ⟨hsub.cons e, hrest⟩
    · cases happly : r.apply e .withWAL (walOk e.version) with
      | mk s err =>
        cases err with
        | some err =>
          obtain ⟨ds, rfl⟩ := apply_error happly
          exact ⟨List.nil_sublist _, trivial, rfl, rfl⟩
        | none =>
          -- The rest is applied to the replica with this entry.
          obtain ⟨hnext, -, -, ds, rfl⟩ := apply_ok happly
          have hversion : e.version = r.version + 1 :=
            hnext.trans (Counter.next_of_lt (hnext ▸ not_le.1 hle))
          obtain ⟨hsub, hcons, hkv, hv⟩ := ih { r.applied e with ds := ds }
          refine ⟨hsub.cons_cons e, ⟨hversion, hversion ▸ hcons⟩, hkv, hv.trans ?_⟩
          rw [List.length_cons]
          simp only [applied, hversion]
          omega

/-- Applying entries, all of them or not, moves the replica forward. -/
theorem keepsVote_applyEntries (walOk : ℕ → Bool) (r : ReplicaState) (es : List Entry) :
    KeepsVote r (applyEntries walOk r es).1 := by
  induction es generalizing r with
  | nil => exact .refl r
  | cons e es ih =>
    have happly := r.keepsVote_apply e .withWAL (walOk e.version)
    rw [applyEntries]
    split_ifs
    · exact ih r
    · split
      · rename_i r' err h
        rwa [h] at happly
      · rename_i r' h
        rw [h] at happly
        exact happly.trans (ih r')

/-- What every single entry keeps, all of them keep. -/
theorem applyEntries_keeps {R : ReplicaState → ReplicaState → Prop} (hrefl : ∀ r, R r r)
    (htrans : ∀ r s t, R r s → R s t → R r t)
    (happly : ∀ r e walOk, R r (r.apply e .withWAL walOk).1) (walOk : ℕ → Bool) (r : ReplicaState)
    (es : List Entry) : R r (applyEntries walOk r es).1 := by
  induction es generalizing r with
  | nil => exact hrefl r
  | cons e es ih =>
    have hone := happly r e (walOk e.version)
    rw [applyEntries]
    split_ifs
    · exact ih r
    · split
      · rename_i r' err h
        rwa [h] at hone
      · rename_i r' h
        rw [h] at hone
        exact htrans _ _ _ hone (ih r')

theorem keepsVote_recovered (r : ReplicaState) : KeepsVote r r.recovered :=
  ⟨⟨rfl, rfl, rfl, le_rfl⟩, rfl, rfl⟩

/-- The cases of a recovery from entries: nothing is done at a gap, and otherwise
    the replica is what the entries make of it, ready if there was no error. -/
theorem doIncrementalRecovery_entries {r r' : ReplicaState} {version : ℕ} {es : List Entry}
    {walOk : ℕ → Bool} {fates : List Fate} {o : Outcome RecoveryError RecoveryType}
    (h : r.doIncrementalRecovery (.entries version es) walOk fates = (o, r')) :
    r' = r ∨ r' = (applyEntries walOk r es).1 ∨ r' = (applyEntries walOk r es).1.recovered := by
  rw [doIncrementalRecovery] at h
  split at h
  · cases h
    exact .inl rfl
  · split at h <;> rename_i happly <;> rw [happly] <;> cases h
    · exact .inr (.inl rfl)
    · exact .inr (.inr rfl)

/-- What a recovery from entries makes of the contents. -/
theorem doIncrementalRecovery_contents (r : ReplicaState) (version : ℕ) (es : List Entry)
    (walOk : ℕ → Bool) (fates : List Fate) :
    (takenEntries walOk r es).Sublist es ∧ Consecutive r.version (takenEntries walOk r es) ∧
      (r.doIncrementalRecovery (.entries version es) walOk fates).2.kv =
        replay r.kv (takenEntries walOk r es) ∧
      (r.doIncrementalRecovery (.entries version es) walOk fates).2.version =
        r.version + (takenEntries walOk r es).length := by
  have hspec := applyEntries_spec walOk r es
  rw [doIncrementalRecovery, takenEntries]
  cases firstGap r.version (Counter.next r.version) es with
  | some gap => exact ⟨List.nil_sublist _, trivial, rfl, rfl⟩
  | none =>
    simp only
    split <;> rename_i happly <;> rw [happly] at hspec <;> exact hspec

/-- A recovery from a snapshot installs it, whatever happens on disk. -/
theorem doIncrementalRecovery_snapshot {r r' : ReplicaState} {s : Snapshot}
    {walOk : ℕ → Bool} {fates : List Fate} {o : Outcome RecoveryError RecoveryType}
    (h : r.doIncrementalRecovery (.snapshot s) walOk fates = (o, r')) :
    ∃ ds, r' = { r.installed s with ds := ds } ∨
      r' = { (r.installed s).recovered with ds := ds } := by
  obtain ⟨ds, hds⟩ := r.applySnapshot_snd s .persist fates
  rw [doIncrementalRecovery] at h
  refine ⟨ds, ?_⟩
  split at h <;> rename_i happly <;> rw [happly] at hds <;> cases hds <;> cases h
  · exact .inr rfl
  · exact .inl rfl
  · exact .inl rfl

/-- The contents are then those of the snapshot. -/
theorem contents_recover_snapshot (r : ReplicaState) (s : Snapshot) (walOk : ℕ → Bool)
    (fates : List Fate) :
    (r.doIncrementalRecovery (.snapshot s) walOk fates).2.version = s.version ∧
      (r.doIncrementalRecovery (.snapshot s) walOk fates).2.kv = s.kv := by
  cases h : r.doIncrementalRecovery (.snapshot s) walOk fates with
  | mk o r' =>
    obtain ⟨ds, rfl | rfl⟩ := doIncrementalRecovery_snapshot h
    · exact ⟨rfl, rfl⟩
    · exact ⟨rfl, rfl⟩

theorem keepsVote_doIncrementalRecovery_entries (r : ReplicaState) (version : ℕ) (es : List Entry)
    (walOk : ℕ → Bool) (fates : List Fate) :
    KeepsVote r (r.doIncrementalRecovery (.entries version es) walOk fates).2 := by
  have hes := keepsVote_applyEntries walOk r es
  cases h : r.doIncrementalRecovery (.entries version es) walOk fates with
  | mk o r' =>
    rcases doIncrementalRecovery_entries h with rfl | rfl | rfl
    · exact .refl r'
    · exact hes
    · exact hes.trans (keepsVote_recovered _)

theorem sameContents_recoveryTick (r : ReplicaState) (leaderAddr : String) :
    SameContents r (r.recoveryTick leaderAddr).1 := by
  simp only [recoveryTick]
  split_ifs <;> exact ⟨rfl, rfl, List.Subset.refl _⟩

theorem sameContents_recoveryFailed (r : ReplicaState) (source : String) :
    SameContents r (r.recoveryFailed source) :=
  ⟨rfl, rfl, List.Subset.refl _⟩

end ReplicaState

end Doki
