import Doki.Node.Terms

/-!
# The stream of a shard

The writes of a shard form one history, with one operation for every version. A
follower receives them in pieces: as replicated entries, which come late, early,
twice or not at all, and as the answers to its recoveries. In the meantime its
own version is all it knows of where it stands. Whatever arrives, its contents
are those of the history up to this version.

* `stateAt`: the store after the first writes of a history;
* `Follows`: the contents of a replica are those of the history, up to its version;
* `follows_throughout`: a replica that is only sent pieces of the history follows it;
* `OnHistory`: what a leader has to have in its log besides, and the operations of
  its state machine keep;
* `recovery_agrees`: a recovery that succeeds takes a follower to the state of the
  leader, from the entries of its log as well as from its snapshot.
-/

namespace Doki

open Faulty Runs

variable {H : ℕ → KVRequest}

/-- The write of the version `version`, made in the term `term`. -/
def entryAt (H : ℕ → KVRequest) (term version : ℕ) : Entry where
  term := term
  version := version
  op := (H version).op
  key := (H version).key
  value := (H version).value

/-- The store after the writes of the versions 1 to `version`. -/
def stateAt (H : ℕ → KVRequest) : ℕ → KV
  | 0 => ∅
  | version + 1 => applyOp (stateAt H version) (entryAt H 0 (version + 1))

/-- The entry is one of the history, in any term. -/
def Drawn (H : ℕ → KVRequest) (e : Entry) : Prop := e = entryAt H e.term e.version

instance (H : ℕ → KVRequest) (e : Entry) : Decidable (Drawn H e) :=
  inferInstanceAs (Decidable (e = entryAt H e.term e.version))

theorem drawn_entryAt (H : ℕ → KVRequest) (term version : ℕ) : Drawn H (entryAt H term version) :=
  rfl

@[simp] theorem version_entryAt (H : ℕ → KVRequest) (term version : ℕ) :
    (entryAt H term version).version = version := rfl

/-- The next entry leads to the next state; its term does not matter. -/
theorem applyOp_stateAt {e : Entry} {v : ℕ} (he : Drawn H e) (hv : e.version = v + 1) :
    applyOp (stateAt H v) e = stateAt H (v + 1) := by
  rw [he, hv]
  rfl

theorem replay_stateAt {v : ℕ} {es : List Entry} (hcons : Consecutive v es)
    (hes : ∀ e ∈ es, Drawn H e) : replay (stateAt H v) es = stateAt H (v + es.length) := by
  induction es generalizing v with
  | nil => rfl
  | cons e es ih =>
    rw [replay_cons, applyOp_stateAt (hes e List.mem_cons_self) hcons.1,
      ih hcons.2 fun x hx => hes x (List.mem_cons_of_mem e hx), List.length_cons]
    congr 1
    omega

/-! ## A follower -/

/-- The contents of the replica are those of the history, up to its version. -/
def Follows (H : ℕ → KVRequest) (r : ReplicaState) : Prop := r.kv = stateAt H r.version

/-- What the operation brings to the replica are pieces of the history: entries, or
    its state at some version. The first version is 1, so that none is committed under the
    version 0, which comes after the last one. -/
def NodeOp.FromHistory (H : ℕ → KVRequest) : NodeOp → Prop
  | .replicate _ req _ => Drawn H req
  | .finishWrite _ e _ _ _ _ => Drawn H e ∧ 0 < e.version
  | .recover (.entries _ es) _ _ => ∀ e ∈ es, Drawn H e
  | .recover (.snapshot s) _ _ => s.kv = stateAt H s.version
  | _ => True

section Follows

variable {r r' : ReplicaState}

theorem Follows.of_sameContents (h : Follows H r) (hsame : SameContents r r') : Follows H r' := by
  rw [Follows, hsame.kv, hsame.version]
  exact h

theorem Follows.of_applies {e : Entry} (h : Follows H r) (he : Drawn H e)
    (happlies : Applies r e r') : Follows H r' := by
  rw [Follows, happlies.kv, happlies.version, happlies.next, h]
  exact applyOp_stateAt he happlies.next

/-- A recovery follows the history, if the response does. -/
theorem Follows.recover {resp : RecoverResponse} {walOk : ℕ → Bool} {fates : List Fate}
    (h : Follows H r) (hresp : (NodeOp.recover resp walOk fates).FromHistory H) :
    Follows H (r.doIncrementalRecovery resp walOk fates).2 := by
  cases resp with
  | entries version es =>
    obtain ⟨hsub, hcons, hkv, hversion⟩ :=
      r.doIncrementalRecovery_contents version es walOk fates
    rw [Follows, hkv, hversion, h]
    exact replay_stateAt hcons fun e he => hresp e (hsub.subset he)
  | snapshot s =>
    obtain ⟨hversion, hkv⟩ := r.contents_recover_snapshot s walOk fates
    rw [Follows, hversion, hkv]
    exact hresp

/-- The step lemma: only entries that are applied and snapshots change the contents. -/
theorem follows_step (r : ReplicaState) (op : NodeOp) (r' : ReplicaState) (h : Follows H r)
    (hop : op.FromHistory H) (hstep : op.step r = some r') : Follows H r' := by
  cases op with
  | replicate now req walOk =>
    obtain rfl := Option.some.inj hstep
    rcases r.replicate_effect now req walOk with ⟨hsame, -⟩ | ⟨happlies, -⟩
    · exact h.of_sameContents hsame
    · exact h.of_applies hop happlies
  | requestVote now req =>
    exact Option.some.inj hstep ▸ h.of_sameContents (r.sameContents_requestVote now req)
  | leaderHeartbeat now req =>
    exact Option.some.inj hstep ▸ h.of_sameContents (r.sameContents_leaderHeartbeat now req)
  | forceRecover now =>
    exact Option.some.inj hstep ▸ h.of_sameContents (r.sameContents_setLagging now)
  | electionBegin now =>
    obtain ⟨⟨r'', req⟩, hbegin, rfl⟩ := Option.map_eq_some_iff.1 hstep
    exact h.of_sameContents (ReplicaState.sameContents_electionBegin hbegin)
  | higherTerm term =>
    exact Option.some.inj hstep ▸ h.of_sameContents (r.sameContents_higherTerm term)
  | electionFinish now peers candidateTerm votes =>
    exact Option.some.inj hstep ▸
      h.of_sameContents (r.sameContents_electionFinish now peers candidateTerm votes)
  | heartbeatReply now sentTerm peerID peerTerm =>
    exact Option.some.inj hstep ▸
      h.of_sameContents (r.sameContents_heartbeatReply now sentTerm peerID peerTerm)
  | finishWrite now e plan acked walOk fates =>
    obtain rfl := Option.some.inj hstep
    rcases ReplicaState.finishWrite_effect hop.2
        (rfl : r.finishWrite now e plan acked walOk fates = (_, _)) with
      ⟨-, -, hsame⟩ | ⟨-, -, -, happlies⟩
    · exact h.of_sameContents hsame
    · exact h.of_applies hop.1 happlies
  | recover resp walOk fates => exact Option.some.inj hstep ▸ h.recover hop

end Follows

/-- A replica that follows a history and is sent pieces of it only, in any order and any
    number of times, follows it at every moment. -/
theorem follows_throughout (H : ℕ → KVRequest) (r : ReplicaState) (hr : Follows H r)
    (ops : List NodeOp) (hops : ∀ op ∈ ops, op.FromHistory H) :
    Throughout NodeOp.step (Follows H) r ops :=
  throughout (C := fun _ op => NodeOp.FromHistory H op) follows_step hr
    (Along.of_forall_mem hops)

/-- A history that puts the version at one key. -/
def exampleHistory (version : ℕ) : KVRequest where
  op := .put
  key := "k"
  value := toString version
  known := Op.put_ne_unknown

/-- A new replica gets the second write before the first one, then recovers from the
    state after three writes, and gets the first one twice. -/
theorem follows_newReplica :
    Throughout NodeOp.step (Follows exampleHistory) (newReplicaState "s" "b" ["a"] 0)
      [.replicate 0 (entryAt exampleHistory 1 2) true,
        .replicate 0 (entryAt exampleHistory 1 1) true,
        .recover (.snapshot ⟨1, 3, stateAt exampleHistory 3⟩) (fun _ => true) [],
        .replicate 0 (entryAt exampleHistory 1 1) true,
        .recover (.entries 4 [entryAt exampleHistory 1 4]) (fun _ => true) []] := by
  refine follows_throughout exampleHistory (newReplicaState "s" "b" ["a"] 0) rfl _ ?_
  simp [NodeOp.FromHistory, drawn_entryAt]

/-! ## The leader that it recovers from -/

/-- Dropping the log. -/
def ReplicaState.resetLog (r : ReplicaState) : ReplicaState := { r with repLog := r.repLog.reset }

/-- The operations of the state machine of a leader. -/
inductive MachineOp
  | apply (e : Entry) (mode : ApplyMode) (walOk : Bool)
  | applySnapshot (s : Snapshot) (mode : SnapshotMode) (fates : List Fate)
  | resetLog

/-- What an operation of the state machine makes of a replica, with an error or not. -/
def MachineOp.step (r : ReplicaState) : MachineOp → Option ReplicaState
  | .apply e mode walOk => some (r.apply e mode walOk).1
  | .applySnapshot s mode fates => some (r.applySnapshot s mode fates).2
  | .resetLog => some r.resetLog

/-- The entry that is applied, or the snapshot that is installed, is one of the
    history. -/
def MachineOp.FromHistory (H : ℕ → KVRequest) : MachineOp → Prop
  | .apply e _ _ => Drawn H e ∧ 0 < e.version
  | .applySnapshot s _ _ => s.kv = stateAt H s.version
  | .resetLog => True

/-- The replica follows the history, and its log has the last entries of it. -/
structure OnHistory (H : ℕ → KVRequest) (r : ReplicaState) : Prop where
  follows : Follows H r
  log : ∃ base, Consecutive base r.repLog.entries ∧ base + r.repLog.entries.length = r.version
  drawn : ∀ e ∈ r.repLog.entries, Drawn H e

section OnHistory

variable {r r' : ReplicaState}

/-- An empty log has the last entries of any history. -/
theorem OnHistory.of_nil (h : Follows H r) (hlog : r.repLog.entries = []) : OnHistory H r where
  follows := h
  log := ⟨r.version, by rw [hlog]; trivial, by rw [hlog]; rfl⟩
  drawn := by simp [hlog]

/-- The next entry goes to the end of the log, from which old entries may go. -/
theorem OnHistory.of_applies {e : Entry} (h : OnHistory H r) (he : Drawn H e)
    (happlies : Applies r e r') : OnHistory H r' := by
  obtain ⟨base, hcons, hlen⟩ := h.log
  refine ⟨h.follows.of_applies he happlies, ?_, ?_⟩
  · rw [happlies.version, happlies.repLog]
    exact Log.consecutive_append hcons (by rw [hlen, happlies.next])
  · intro x hx
    obtain ⟨d, hd⟩ := r.repLog.entries_append e
    rw [happlies.repLog, hd] at hx
    rcases List.mem_append.1 hx with hx | hx
    · exact h.drawn x (List.mem_of_mem_drop hx)
    · exact List.mem_singleton.1 hx ▸ he

theorem onHistory_step (r : ReplicaState) (op : MachineOp) (r' : ReplicaState)
    (h : OnHistory H r) (hop : op.FromHistory H) (hstep : op.step r = some r') :
    OnHistory H r' := by
  cases op with
  | apply e mode walOk =>
    obtain rfl := Option.some.inj hstep
    rcases r.apply_effect (.inl hop.2) mode walOk with ⟨-, ds, hds⟩ | ⟨-, happlies⟩
    · rw [hds]
      exact ⟨h.follows, h.log, h.drawn⟩
    · exact h.of_applies hop.1 happlies
  | applySnapshot s mode fates =>
    obtain ⟨ds, hds⟩ := r.applySnapshot_snd s mode fates
    obtain rfl := hds.symm.trans (Option.some.inj hstep)
    exact .of_nil hop rfl
  | resetLog =>
    obtain rfl := Option.some.inj hstep
    exact .of_nil h.follows rfl

/-- What a leader answers to a follower: all that the follower misses, or its own
    state. -/
theorem OnHistory.recover (h : OnHistory H r) {since : ℕ} {resp : RecoverResponse}
    (hresp : r.recover since = .ok resp) :
    (∃ es, resp = .entries r.version es ∧ Consecutive since es ∧
      since + es.length = r.version ∧ ∀ e ∈ es, Drawn H e) ∨ resp = .snapshot r.snapshot := by
  obtain ⟨base, hcons, hlen⟩ := h.log
  simp only [ReplicaState.recover] at hresp
  split_ifs at hresp with hrole hahead hsame hlog <;> cases hresp
  · exact .inr rfl
  · exact .inl ⟨[], rfl, trivial, hsame.symm, by simp⟩
  · -- The log covers what the follower misses.
    obtain ⟨hok, hne⟩ := hlog
    have hne : (r.repLog.since since).1 ≠ [] := by
      rcases hne with hne | heq
      · exact List.ne_nil_of_length_pos hne
      · exact absurd heq hsame
    obtain ⟨hes, hcount, hmem⟩ := Log.since_consecutive hcons (Prod.ext rfl hok) hne
    exact .inl ⟨_, rfl, hes, hcount.trans hlen, fun e he => h.drawn e (hmem e he)⟩
  · exact .inr rfl

end OnHistory

/-! ## Both kinds of recovery -/

namespace ReplicaState

variable {r r' : ReplicaState}

theorem version_le_applyEntries (walOk : ℕ → Bool) (r : ReplicaState) (es : List Entry) :
    r.version ≤ (applyEntries walOk r es).1.version := by
  rw [(applyEntries_spec walOk r es).2.2.2]
  exact Nat.le_add_right _ _

/-- Entries that are applied without an error leave no received entry ahead. -/
theorem version_le_of_applyEntries {walOk : ℕ → Bool} {es : List Entry}
    (h : applyEntries walOk r es = (r', none)) : ∀ e ∈ es, e.version ≤ r'.version := by
  induction es generalizing r with
  | nil => simp
  | cons e es ih =>
    rw [applyEntries] at h
    split_ifs at h with hle
    · have hmono := version_le_applyEntries walOk r es
      rw [h] at hmono
      exact List.forall_mem_cons.2 ⟨hle.trans hmono, ih h⟩
    · cases happly : r.apply e .withWAL (walOk e.version) with
      | mk s err =>
        rw [happly] at h
        cases err with
        | some err => exact absurd (congrArg Prod.snd h) (by simp)
        | none =>
          obtain ⟨-, -, -, ds, rfl⟩ := apply_ok happly
          have hmono := version_le_applyEntries walOk { r.applied e with ds := ds } es
          rw [show applyEntries walOk _ es = _ from h] at hmono
          exact List.forall_mem_cons.2 ⟨hmono, ih h⟩

/-- A recovery from consecutive entries that succeeds ends at the version of the last
    one. -/
theorem version_doIncrementalRecovery {since version : ℕ} {es : List Entry} {walOk : ℕ → Bool}
    {fates : List Fate} {ty : RecoveryType} (hes : Consecutive since es)
    (hsince : since ≤ r.version) (hahead : r.version ≤ since + es.length)
    (hdone : (r.doIncrementalRecovery (.entries version es) walOk fates).1 = .done ty) :
    (r.doIncrementalRecovery (.entries version es) walOk fates).2.version =
      since + es.length := by
  obtain ⟨hsub, hcons, -, hversion⟩ := r.doIncrementalRecovery_contents version es walOk fates
  refine le_antisymm ?_ ?_
  · -- The last entry that is applied is one of those received.
    rw [hversion]
    rcases Nat.eq_zero_or_pos (takenEntries walOk r es).length with hzero | hpos
    · omega
    · obtain ⟨e, he, hv⟩ := hcons.exists_version (Nat.lt_add_of_pos_right hpos) le_rfl
      have := (hes.lt_version e (hsub.subset he)).2
      omega
  · rw [doIncrementalRecovery] at hdone ⊢
    split at hdone
    · exact absurd hdone (by simp)
    · rename_i hgap
      split at hdone
      · exact absurd hdone (by simp)
      · rename_i r' happly
        rcases Nat.eq_zero_or_pos es.length with hzero | hpos
        · have hmono := version_le_applyEntries walOk r es
          rw [happly] at hmono
          exact (by omega : since + es.length ≤ r.version).trans hmono
        · obtain ⟨e, he, hv⟩ := hes.exists_version (Nat.lt_add_of_pos_right hpos) le_rfl
          exact hv ▸ version_le_of_applyEntries happly e he

end ReplicaState

/-- A follower asks a leader on its history for what it misses, and may get on with the
    history, but not past the leader, until it has the answer. If the recovery
    succeeds, the follower is where the leader was, whether the answer was that it is up
    to date, the entries of the log, of whatever size, or a snapshot. -/
theorem recovery_agrees (H : ℕ → KVRequest) (logSize : ℤ) (fresh leader : ReplicaState)
    (hfresh : fresh.version = 0 ∧ fresh.kv = ∅ ∧ fresh.repLog = Log.new logSize)
    (ops : List MachineOp) (hops : ∀ op ∈ ops, op.FromHistory H)
    (hleader : exec MachineOp.step fresh ops = some leader)
    (asking follower : ReplicaState) (hbootstrap : asking.bootstrapShardID = "")
    (hfollows : Follows H follower)
    (hadvanced : asking.version ≤ follower.version ∧ follower.version ≤ leader.version)
    (resp : RecoverResponse) (hresp : leader.recover asking.recoverRequest.2 = .ok resp)
    (walOk : ℕ → Bool) (fates : List Fate) (ty : RecoveryType)
    (hdone : (follower.doIncrementalRecovery resp walOk fates).1 = .done ty) :
    (follower.doIncrementalRecovery resp walOk fates).2.version = leader.version ∧
      (follower.doIncrementalRecovery resp walOk fates).2.kv = leader.kv := by
  obtain ⟨hversion, hkv, hlog⟩ := hfresh
  have hstart : OnHistory H fresh :=
    .of_nil (by rw [Follows, hversion, hkv]; rfl) (by rw [hlog]; rfl)
  have hon : OnHistory H leader := invariant
    (C := fun _ op => MachineOp.FromHistory H op) onHistory_step hstart
    (Along.of_forall_mem hops) hleader
  have hsince : asking.recoverRequest.2 = asking.version := by
    rw [ReplicaState.recoverRequest, if_neg (by simp [hbootstrap])]
  rw [hsince] at hresp
  rcases hon.recover hresp with ⟨es, rfl, hes, hlen, hdrawn⟩ | rfl
  · -- Both are on the history, so that it is enough that they are at one version.
    have hend := ReplicaState.version_doIncrementalRecovery hes hadvanced.1
      (hadvanced.2.trans hlen.ge) hdone
    have hend' := hend.trans hlen
    have hfollow : Follows H
        (follower.doIncrementalRecovery (.entries leader.version es) walOk fates).2 :=
      hfollows.recover hdrawn
    exact ⟨hend', by rw [hfollow, hend', ← hon.follows]⟩
  · exact follower.contents_recover_snapshot leader.snapshot walOk fates

/-- A leader with room for two entries in its log. -/
def smallLogLeader : ReplicaState :=
  { newReplicaState "s" "a" ["b"] 2 with role := .leader }

/-- It makes three writes. -/
def threeWrites : List MachineOp :=
  [.apply (entryAt exampleHistory 1 1) .withWAL true,
    .apply (entryAt exampleHistory 1 2) .withWAL true,
    .apply (entryAt exampleHistory 1 3) .withWAL true]

/-- A follower at some version of the example. -/
def followerAt (version : ℕ) : ReplicaState :=
  { newReplicaState "s" "b" ["a"] 0 with
    version := version
    kv := stateAt exampleHistory version }

/-- A follower asks at version 1 and gets to version 2 in the meantime; what it misses is
    in the log. -/
theorem recovery_agrees_smallLog :
    ∃ leader resp, exec MachineOp.step smallLogLeader threeWrites = some leader ∧
      leader.version = 3 ∧ leader.recover 1 = .ok resp ∧
      ((followerAt 2).doIncrementalRecovery resp (fun _ => true) []).2.version =
        leader.version ∧
      ((followerAt 2).doIncrementalRecovery resp (fun _ => true) []).2.kv = leader.kv := by
  refine ⟨_, .entries 3 [entryAt exampleHistory 1 2, entryAt exampleHistory 1 3], rfl, rfl, rfl,
    recovery_agrees exampleHistory 2 smallLogLeader _ ⟨rfl, rfl, rfl⟩ threeWrites
      (by simp [threeWrites, MachineOp.FromHistory, drawn_entryAt]) rfl (followerAt 1)
      (followerAt 2) rfl rfl ⟨by decide, by decide⟩ _ rfl _ _ .incremental rfl⟩

end Doki
