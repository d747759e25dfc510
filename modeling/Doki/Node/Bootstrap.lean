import Doki.Node.Stream

/-!
# Taking over a split

The replicas of a shard that has been split off start with the data of the
source shard. A replica that is created with such a source keeps it as a hint
(`bootstrapShardID`), and until the first recovery, which goes to the leader of
the source shard, it must not be ready: it would serve and replicate without the
data. The places that create and promote a replica look at the hint. Two others
do not: the end of an election that is won, and a replicated entry that is
applied.

`Hosted` is a replica with its recovery loop, its election and the write that its leader
is at, each of which gives up the lock between its steps (`HostedOp`). An election that
ends counts its votes against the peers from its beginning.

* `Hosted.BootstrapFirst`: what must not happen before the recovery from the source;
* `bootstrap_complete`: then the replica is not ready while it has the hint, and the
  recovery gives it the contents of the source;
* `ready_before_bootstrap`: a replica that wins an election before, and one that
  applies an entry before and ends with contents that are not those of the source.
-/

namespace Doki

open Faulty Runs

/-- Where the recovery loop stands: waiting for its next round, about to ask, or
    waiting for the answer. `source` is what its status shows if it fails,
    and `bootstrap` tells whether it has asked the source of a split. -/
inductive RecoveryPhase
  | idle
  | due (source : String)
  | asked (source : String) (bootstrap : Bool) (since : ℕ)

/-- Where the write of a leader stands. There is one at a time. -/
inductive WritePhase
  | idle
  | checked
  | planned (e : Entry) (plan : QuorumInfo)
  deriving DecidableEq

/-- An election under way: the peers and the term it has begun with. There is one at a
    time. -/
structure Candidacy where
  peers : List String
  term : ℕ

/-- A replica with what its node is doing for it. -/
structure Hosted where
  replica : ReplicaState
  recovery : RecoveryPhase
  election : Option Candidacy
  write : WritePhase

/-- The operation is complete in itself: it is no part of an election, and neither the end
    of a write nor the end of a recovery. -/
def NodeOp.isMessage : NodeOp → Bool
  | .electionBegin .. | .higherTerm .. | .electionFinish .. => false
  | .finishWrite .. => false
  | .recover .. => false
  | _ => true

/-- The steps of a node for one of its replicas. `leader` is the replica that answers
    a recovery. -/
inductive HostedOp
  | message (op : NodeOp)
  | refetchShardMap (shard : ShardInfo) (version : ℕ) (now : Time)
  | electionBegin (now : Time)
  | higherTerm (term : ℕ)
  | electionFinish (now : Time) (votes : ℕ)
  | writeCheck (view : View)
  | writePlan (view : View) (now : Time) (req : KVRequest)
  | writeFinish (now : Time) (acked : List String) (walOk : Bool) (fates : List Fate)
  | recoveryTick (leaderAddr : String)
  | recoveryBegin
  | recoveryError
  | recoveryEnd (leader : ReplicaState) (walOk : ℕ → Bool) (fates : List Fate)

/-- The message makes the replica ready, whether it has the hint or not: the next entry,
    which is not of an older term, if it can be logged. -/
def NodeOp.MakesReady (r : ReplicaState) : NodeOp → Prop
  | .replicate _ req _ =>
    r.term ≤ req.term ∧ req.version = r.version + 1 ∧ req.op ≠ .unknown
  | _ => False

/-- The election ends won, which makes the replica ready as well. -/
def Candidacy.Wins (e : Candidacy) (r : ReplicaState) (votes : ℕ) : Prop :=
  r.term = e.term ∧ r.role ≠ .leader ∧ electionQuorum e.peers ≤ votes

namespace Hosted

/-- A replica that has just been created. -/
def new (r : ReplicaState) : Hosted where
  replica := r
  recovery := .idle
  election := none
  write := .idle

/-- The recovery round ends with an error. -/
def failed (s : Hosted) (r : ReplicaState) (source : String) : Hosted :=
  { s with replica := r.recoveryFailed source, recovery := .idle }

def step (s : Hosted) : HostedOp → Option Hosted
  | .message op =>
    if op.isMessage then (op.step s.replica).map fun r => { s with replica := r } else none
  | .refetchShardMap shard version now =>
    some { s with replica := s.replica.applyShard shard version now }
  | .electionBegin now =>
    if s.election.isNone then
      (s.replica.electionBegin now).map fun x =>
        { s with replica := x.1, election := some ⟨s.replica.peers, x.2.term⟩ }
    else none
  | .higherTerm term =>
    s.election.bind fun e =>
      if term > e.term then
        some { s with replica := s.replica.higherTerm term, election := none }
      else none
  | .electionFinish now votes =>
    s.election.map fun e =>
      { s with
        replica := (s.replica.electionFinish now e.peers e.term votes).2
        election := none }
  | .writeCheck view =>
    match s.write, s.replica.leaderWriteCheck view with
    | .idle, .ok () => some { s with write := .checked }
    | _, _ => none
  | .writePlan view now req =>
    match s.write with
    | .checked =>
      some { s with write := .planned (s.replica.nextEntry req) (s.replica.planWrite view now) }
    | _ => none
  | .writeFinish now acked walOk fates =>
    match s.write with
    | .planned e plan =>
      some { s with
        replica := (s.replica.finishWrite now e plan acked walOk fates).2
        write := .idle }
    | _ => none
  | .recoveryTick leaderAddr =>
    match s.recovery with
    | .idle =>
      let (r, addr) := s.replica.recoveryTick leaderAddr
      some { s with
        replica := r
        recovery := if addr.isSome then .due s.replica.recoverySourceOf else .idle }
    | _ => none
  | .recoveryBegin =>
    match s.recovery with
    | .due source =>
      some { s with
        recovery := .asked source (decide (s.replica.bootstrapShardID ≠ ""))
          s.replica.recoverRequest.2 }
    | _ => none
  | .recoveryError =>
    match s.recovery with
    | .asked source _ _ => some (s.failed s.replica source)
    | _ => none
  | .recoveryEnd leader walOk fates =>
    match s.recovery with
    | .asked source _ since =>
      match leader.recover since with
      | .error _ => some (s.failed s.replica source)
      | .ok resp =>
        match s.replica.doIncrementalRecovery resp walOk fates with
        | (.done _, r) => some { s with replica := r, recovery := .idle }
        | (.error _, r) => some (s.failed r source)
        | (.crashed, _) => none
    | _ => none

/-- As long as the replica has the hint, it is not ready. -/
def Waiting (s : Hosted) : Prop := s.replica.bootstrapShardID ≠ "" → s.replica.isReady = false

/-- A recovery from the source of a split that completes leaves the replica with the
    contents of the leader that has answered. -/
def Completes (s : Hosted) : HostedOp → Prop
  | .recoveryEnd leader walOk fates =>
    ∀ source since resp ty, s.recovery = .asked source true since →
      leader.recover since = .ok resp →
      (s.replica.doIncrementalRecovery resp walOk fates).1 = .done ty →
      (s.replica.doIncrementalRecovery resp walOk fates).2.kv = leader.kv ∧
        (s.replica.doIncrementalRecovery resp walOk fates).2.version = leader.version
  | _ => True

/-- As long as the replica has the hint, no message makes it ready and it wins no election;
    the leaders that answer its recovery are on one history of the source shard, and not
    behind what the replica has taken over already. -/
def BootstrapFirst (H : ℕ → KVRequest) (s : Hosted) (op : HostedOp) : Prop :=
  s.replica.bootstrapShardID ≠ "" →
    match op with
    | .message op => ¬op.MakesReady s.replica
    | .electionFinish _ votes => ∀ e ∈ s.election, ¬e.Wins s.replica votes
    | .recoveryEnd leader _ _ => OnHistory H leader ∧ s.replica.version ≤ leader.version
    | _ => True

end Hosted

/-! ## What the operations do to the hint -/

namespace ReplicaState

variable {r r' : ReplicaState}

/-- No message changes the hint, and a message that does not make the replica ready
    does not change its contents either. -/
theorem message_spec {op : NodeOp} (hop : op.isMessage = true) (hstep : op.step r = some r') :
    r'.bootstrapShardID = r.bootstrapShardID ∧
      (¬op.MakesReady r → SameContents r r' ∧ (r.isReady = false → r'.isReady = false)) := by
  cases op with
  | replicate now req walOk =>
    have hreq : r.replicate now req walOk = (r', _) := Prod.ext (Option.some.inj hstep) rfl
    obtain ⟨role, hobs⟩ := r.observe_eq req.term
    rcases replicate_cases hreq with
      ⟨-, rfl, -⟩ | ⟨-, -, rfl, -⟩ | ⟨-, -, -, rfl, -⟩ | ⟨-, -, ⟨ds, rfl⟩, -⟩ |
        ⟨hterm, hnext, hop, ⟨ds, rfl⟩, -⟩
    · exact ⟨rfl, fun _ => ⟨.refl _, id⟩⟩
    · rw [hobs]
      exact ⟨rfl, fun _ => ⟨⟨rfl, rfl, List.Subset.refl _⟩, id⟩⟩
    · rw [hobs]
      exact ⟨rfl, fun _ => ⟨⟨rfl, rfl, List.nil_subset _⟩, fun _ => rfl⟩⟩
    · rw [hobs]
      exact ⟨rfl, fun _ => ⟨⟨rfl, rfl, List.Subset.refl _⟩, id⟩⟩
    · rw [hobs]
      exact ⟨rfl, fun hready => absurd ⟨hterm, hnext, hop⟩ hready⟩
  | requestVote now req =>
    obtain rfl := Option.some.inj hstep
    refine ⟨?_, fun _ => ⟨r.sameContents_requestVote now req, ?_⟩⟩ <;>
      simp only [requestVote, observeVote] <;> split_ifs <;> first | rfl | exact id
  | leaderHeartbeat now req =>
    obtain rfl := Option.some.inj hstep
    refine ⟨?_, fun _ => ⟨r.sameContents_leaderHeartbeat now req, ?_⟩⟩ <;>
      simp only [leaderHeartbeat, observe] <;> split_ifs <;> first | rfl | exact id
  | forceRecover now =>
    obtain rfl := Option.some.inj hstep
    exact ⟨rfl, fun _ => ⟨r.sameContents_setLagging now, fun _ => rfl⟩⟩
  | heartbeatReply now sentTerm peerID peerTerm =>
    obtain rfl := Option.some.inj hstep
    refine ⟨?_, fun _ => ⟨r.sameContents_heartbeatReply now sentTerm peerID peerTerm, ?_⟩⟩ <;>
      simp only [heartbeatReply] <;> split_ifs <;> first | rfl | exact id
  | electionBegin | higherTerm | electionFinish | finishWrite | recover =>
    exact absurd hop (by simp [NodeOp.isMessage])

/-- The end of an election leaves the hint and the contents, and makes the replica ready
    only if it is won. -/
theorem electionFinish_spec (r : ReplicaState) (now : Time) (e : Candidacy) (votes : ℕ) :
    (r.electionFinish now e.peers e.term votes).2.bootstrapShardID = r.bootstrapShardID ∧
      SameContents r (r.electionFinish now e.peers e.term votes).2 ∧
      (¬e.Wins r votes → r.isReady = false →
        (r.electionFinish now e.peers e.term votes).2.isReady = false) := by
  refine ⟨?_, r.sameContents_electionFinish now e.peers e.term votes, fun hwins => ?_⟩
  · simp only [electionFinish]
    split_ifs <;> rfl
  · simp only [electionFinish]
    split_ifs with hterm hvotes
    · exact id
    · exact id
    · push Not at hterm
      exact absurd ⟨hterm.1, hterm.2, not_lt.1 hvotes⟩ hwins

/-- A shard map leaves the contents, and does not make a replica with the hint
    ready. -/
theorem applyShard_spec (shard : ShardInfo) (version : ℕ) (now : Time) :
    (r.applyShard shard version now).bootstrapShardID = r.bootstrapShardID ∧
      SameContents r (r.applyShard shard version now) ∧
      (r.bootstrapShardID ≠ "" → r.isReady = false →
        (r.applyShard shard version now).isReady = false) := by
  refine ⟨rfl, ⟨rfl, rfl, List.Subset.refl _⟩, fun hhint hready => ?_⟩
  simp only [applyShard]
  rw [if_neg fun h => hhint h.2]
  exact hready

/-- Entries that are applied change neither the hint nor whether the replica is ready. -/
theorem applyEntries_hint (walOk : ℕ → Bool) (r : ReplicaState) (es : List Entry) :
    (applyEntries walOk r es).1.bootstrapShardID = r.bootstrapShardID ∧
      (applyEntries walOk r es).1.isReady = r.isReady := by
  induction es generalizing r with
  | nil => exact ⟨rfl, rfl⟩
  | cons e es ih =>
    rw [applyEntries]
    split_ifs
    · exact ih r
    · cases happly : r.apply e .withWAL (walOk e.version) with
      | mk s err =>
        cases err with
        | some err =>
          obtain ⟨ds, rfl⟩ := apply_error happly
          exact ⟨rfl, rfl⟩
        | none =>
          obtain ⟨-, -, -, ds, rfl⟩ := apply_ok happly
          exact ih { r.applied e with ds := ds }

/-- A recovery takes the hint away when it succeeds, and otherwise leaves it. -/
theorem doIncrementalRecovery_hint (r : ReplicaState) (resp : RecoverResponse)
    (walOk : ℕ → Bool) (fates : List Fate) :
    (∃ ty, (r.doIncrementalRecovery resp walOk fates).1 = .done ty ∧
      (r.doIncrementalRecovery resp walOk fates).2.bootstrapShardID = "") ∨
    ((∀ ty, (r.doIncrementalRecovery resp walOk fates).1 ≠ .done ty) ∧
      (r.doIncrementalRecovery resp walOk fates).2.bootstrapShardID = r.bootstrapShardID ∧
      (r.doIncrementalRecovery resp walOk fates).2.isReady = r.isReady) := by
  cases resp with
  | entries version es =>
    have hes := applyEntries_hint walOk r es
    simp only [doIncrementalRecovery]
    cases firstGap r.version (Counter.next r.version) es with
    | some gap => exact .inr ⟨by simp, rfl, rfl⟩
    | none =>
      simp only
      split <;> rename_i happly <;> rw [happly] at hes
      · exact .inr ⟨by simp, hes⟩
      · exact .inl ⟨_, rfl, rfl⟩
  | snapshot s =>
    obtain ⟨ds, hds⟩ := r.applySnapshot_snd s .persist fates
    simp only [doIncrementalRecovery]
    split <;> rename_i happly <;> rw [happly] at hds <;> cases hds
    · exact .inl ⟨_, rfl, rfl⟩
    · exact .inr ⟨by simp, rfl, rfl⟩
    · exact .inr ⟨by simp, rfl, rfl⟩

/-- The round of the recovery loop changes the status only. -/
theorem recoveryTick_hint (r : ReplicaState) (leaderAddr : String) :
    (r.recoveryTick leaderAddr).1.bootstrapShardID = r.bootstrapShardID ∧
      (r.recoveryTick leaderAddr).1.isReady = r.isReady := by
  simp only [recoveryTick]
  split_ifs <;> exact ⟨rfl, rfl⟩

end ReplicaState

/-! ## The invariant -/

/-- A replica with the hint is not ready, follows the history of the source, and makes
    no write. -/
def Waits (H : ℕ → KVRequest) (r : ReplicaState) (w : WritePhase) : Prop :=
  r.bootstrapShardID ≠ "" → r.isReady = false ∧ Follows H r ∧ w = .idle

/-- The recovery loop has asked the source of the split, from the beginning, if the
    replica has the hint. -/
def RecoveryPhase.Matches (hint : String) : RecoveryPhase → Prop
  | .asked _ bootstrap since => (bootstrap = true ↔ hint ≠ "") ∧ (hint ≠ "" → since = 0)
  | _ => True

/-- The replica still waits for its first recovery, or it has had it. -/
structure Hosted.Expects (H : ℕ → KVRequest) (s : Hosted) : Prop where
  waits : Waits H s.replica s.write
  asked : s.recovery.Matches s.replica.bootstrapShardID

section Invariant

variable {H : ℕ → KVRequest}

/-- What keeps the hint and the contents, and does not make the replica ready. -/
theorem Waits.keep {r r' : ReplicaState} {w : WritePhase} (h : Waits H r w)
    (hhint : r'.bootstrapShardID = r.bootstrapShardID)
    (hkeep : r.bootstrapShardID ≠ "" →
      SameContents r r' ∧ (r.isReady = false → r'.isReady = false)) : Waits H r' w := by
  intro hset
  rw [hhint] at hset
  obtain ⟨hready, hfollows, hw⟩ := h hset
  exact ⟨(hkeep hset).2 hready, hfollows.of_sameContents (hkeep hset).1, hw⟩

/-- A replica without the hint waits for nothing. -/
theorem Waits.of_eq {r : ReplicaState} {w : WritePhase} (h : r.bootstrapShardID = "") :
    Waits H r w :=
  fun hset => absurd h hset

/-- A replica that is about to write does not have the hint. -/
theorem Waits.hint_eq {r : ReplicaState} {w : WritePhase} (h : Waits H r w) (hw : w ≠ .idle) :
    r.bootstrapShardID = "" := by
  by_contra hset
  exact hw (h hset).2.2

/-- The end of a write does not change the hint. -/
theorem finishWrite_hint (r : ReplicaState) (now : Time) (e : Entry) (plan : QuorumInfo)
    (acked : List String) (walOk : Bool) (fates : List Fate) :
    (r.finishWrite now e plan acked walOk fates).2.bootstrapShardID = r.bootstrapShardID := by
  cases h : r.finishWrite now e plan acked walOk fates with
  | mk res r' =>
    rcases ReplicaState.finishWrite_cases h with
      ⟨err, ds, last, -, rfl⟩ | ⟨ok, ds, last, -, -, -, -, -, rfl⟩
    · rfl
    · rfl

/-- A recovery from the source that succeeds: the contents are those of the leader. -/
theorem contents_of_done {r leader : ReplicaState} {resp : RecoverResponse} {walOk : ℕ → Bool}
    {fates : List Fate} {ty : RecoveryType} (hr : Follows H r) (hleader : OnHistory H leader)
    (hle : r.version ≤ leader.version) (hresp : leader.recover 0 = .ok resp)
    (hdone : (r.doIncrementalRecovery resp walOk fates).1 = .done ty) :
    (r.doIncrementalRecovery resp walOk fates).2.kv = leader.kv ∧
      (r.doIncrementalRecovery resp walOk fates).2.version = leader.version := by
  rcases hleader.recover hresp with ⟨es, rfl, hes, hlen, hdrawn⟩ | rfl
  · have hversion := (ReplicaState.version_doIncrementalRecovery hes (Nat.zero_le _)
      (hle.trans hlen.ge) hdone).trans hlen
    have hfollows : Follows H
        (r.doIncrementalRecovery (.entries leader.version es) walOk fates).2 := hr.recover hdrawn
    exact ⟨by rw [hfollows, hversion, ← hleader.follows], hversion⟩
  · exact (r.contents_recover_snapshot leader.snapshot walOk fates).symm

/-- A recovery from the source that fails leaves the replica on the history. -/
theorem follows_recovery {r leader : ReplicaState} {since : ℕ} {resp : RecoverResponse}
    (hr : Follows H r) (hleader : OnHistory H leader) (hresp : leader.recover since = .ok resp)
    (walOk : ℕ → Bool) (fates : List Fate) :
    Follows H (r.doIncrementalRecovery resp walOk fates).2 := by
  rcases hleader.recover hresp with ⟨es, rfl, -, -, hdrawn⟩ | rfl
  · exact hr.recover hdrawn
  · exact hr.recover hleader.follows

namespace Hosted

/-- A round that fails, with a replica that still has the hint or never had it. -/
theorem Expects.failed {s : Hosted} {r : ReplicaState} (h : Waits H r s.write)
    (source : String) : (s.failed r source).Expects H :=
  ⟨h, trivial⟩

/-- The answer to a recovery. -/
theorem Expects.recoveryEnd {s t : Hosted} {leader : ReplicaState} {walOk : ℕ → Bool}
    {fates : List Fate} (h : s.Expects H)
    (hop : s.BootstrapFirst H (.recoveryEnd leader walOk fates))
    (hstep : s.step (.recoveryEnd leader walOk fates) = some t) : t.Expects H := by
  simp only [step] at hstep
  split at hstep
  · rename_i source bootstrap since hasked
    split at hstep
    · obtain rfl := Option.some.inj hstep
      exact .failed h.waits source
    · rename_i resp hresp
      -- Whether the recovery has taken the hint away, or left it with the rest.
      have hwaits : Waits H (s.replica.doIncrementalRecovery resp walOk fates).2 s.write := by
        rcases s.replica.doIncrementalRecovery_hint resp walOk fates with
          ⟨ty, -, hhint⟩ | ⟨-, hhint, hready⟩
        · exact .of_eq hhint
        · intro hset
          rw [hhint] at hset
          obtain ⟨hnot, hfollows, hw⟩ := h.waits hset
          exact ⟨hready.trans hnot, follows_recovery hfollows (hop hset).1 hresp walOk fates, hw⟩
      split at hstep <;> rename_i hrec <;> rw [hrec] at hwaits
      · obtain rfl := Option.some.inj hstep
        exact ⟨hwaits, trivial⟩
      · obtain rfl := Option.some.inj hstep
        exact .failed hwaits source
      · exact absurd hstep (by simp)
  · exact absurd hstep (by simp)

/-- The step lemma. -/
theorem expects_step (s : Hosted) (op : HostedOp) (t : Hosted) (h : s.Expects H)
    (hop : s.BootstrapFirst H op) (hstep : s.step op = some t) : t.Expects H := by
  cases op with
  | message op =>
    simp only [step] at hstep
    split_ifs at hstep with hmsg
    obtain ⟨r', hr', rfl⟩ := Option.map_eq_some_iff.1 hstep
    obtain ⟨hhint, hkeep⟩ := ReplicaState.message_spec hmsg hr'
    exact ⟨h.waits.keep hhint fun hset => hkeep (hop hset), hhint ▸ h.asked⟩
  | refetchShardMap shard version now =>
    obtain rfl := Option.some.inj hstep
    obtain ⟨hhint, hsame, hready⟩ := s.replica.applyShard_spec shard version now
    exact ⟨h.waits.keep hhint fun hset => ⟨hsame, hready hset⟩, h.asked⟩
  | electionBegin now =>
    simp only [step] at hstep
    split_ifs at hstep
    obtain ⟨⟨r', req⟩, hbegin, rfl⟩ := Option.map_eq_some_iff.1 hstep
    have hsame := ReplicaState.sameContents_electionBegin hbegin
    obtain ⟨rfl, -⟩ := ReplicaState.electionBegin_eq_some hbegin
    exact ⟨h.waits.keep rfl fun _ => ⟨hsame, id⟩, h.asked⟩
  | higherTerm term =>
    obtain ⟨e, -, hstep⟩ := Option.bind_eq_some_iff.1 hstep
    split_ifs at hstep
    obtain rfl := Option.some.inj hstep
    exact ⟨h.waits.keep rfl fun _ => ⟨s.replica.sameContents_higherTerm term, id⟩, h.asked⟩
  | electionFinish now votes =>
    obtain ⟨e, he, rfl⟩ := Option.map_eq_some_iff.1 hstep
    obtain ⟨hhint, hsame, hready⟩ := s.replica.electionFinish_spec now e votes
    exact ⟨h.waits.keep hhint fun hset => ⟨hsame, hready (hop hset e he)⟩, hhint ▸ h.asked⟩
  | writeCheck view =>
    simp only [step] at hstep
    split at hstep
    · rename_i hidle hcheck
      obtain rfl := Option.some.inj hstep
      -- Only a replica that is ready gets through the check.
      refine ⟨fun hset => ?_, h.asked⟩
      have hready := (h.waits hset).1
      simp only [ReplicaState.leaderWriteCheck] at hcheck
      rw [if_pos hready] at hcheck
      split_ifs at hcheck
    · exact absurd hstep (by simp)
  | writePlan view now req =>
    simp only [step] at hstep
    split at hstep
    · rename_i hchecked
      obtain rfl := Option.some.inj hstep
      exact ⟨.of_eq (h.waits.hint_eq (by simp [hchecked])), h.asked⟩
    · exact absurd hstep (by simp)
  | writeFinish now acked walOk fates =>
    simp only [step] at hstep
    split at hstep
    · rename_i e plan hplanned
      obtain rfl := Option.some.inj hstep
      have hhint := finishWrite_hint s.replica now e plan acked walOk fates
      exact ⟨.of_eq (hhint.trans (h.waits.hint_eq (by simp [hplanned]))), hhint ▸ h.asked⟩
    · exact absurd hstep (by simp)
  | recoveryTick leaderAddr =>
    simp only [step] at hstep
    split at hstep
    · obtain rfl := Option.some.inj hstep
      obtain ⟨hhint, hready⟩ := s.replica.recoveryTick_hint leaderAddr
      refine ⟨h.waits.keep hhint fun _ =>
        ⟨s.replica.sameContents_recoveryTick leaderAddr, fun hnot => hready.trans hnot⟩, ?_⟩
      simp only
      split_ifs <;> trivial
    · exact absurd hstep (by simp)
  | recoveryBegin =>
    simp only [step] at hstep
    split at hstep
    · obtain rfl := Option.some.inj hstep
      refine ⟨h.waits, by simp, fun hset => ?_⟩
      rw [ReplicaState.recoverRequest, if_pos hset]
    · exact absurd hstep (by simp)
  | recoveryError =>
    simp only [step] at hstep
    split at hstep
    · obtain rfl := Option.some.inj hstep
      exact .failed h.waits _
    · exact absurd hstep (by simp)
  | recoveryEnd leader walOk fates => exact h.recoveryEnd hop hstep

/-- With the invariant, a recovery from the source completes as it should. -/
theorem Expects.completes {s : Hosted} {op : HostedOp} (h : s.Expects H)
    (hop : s.BootstrapFirst H op) : s.Completes op := by
  cases op with
  | recoveryEnd leader walOk fates =>
    intro source since resp ty hasked hresp hdone
    have hmatch := h.asked
    rw [hasked] at hmatch
    have hset := hmatch.1.1 rfl
    rw [hmatch.2 hset] at hresp
    obtain ⟨hleader, hle⟩ := hop hset
    exact contents_of_done (h.waits hset).2.1 hleader hle hresp hdone
  | _ => trivial

end Hosted

end Invariant

/-- A new replica that has the hint has found no state on disk. -/
theorem initShard_hint {cfg : NodeConfig} {shard : ShardInfo} {resp : ShardMapResponse}
    {now : Time} {f : Files} (h : (initShard cfg shard resp now f).bootstrapShardID ≠ "") :
    (initShard cfg shard resp now f).isReady = false ∧
      (initShard cfg shard resp now f).version = 0 ∧
      (initShard cfg shard resp now f).kv = ∅ := by
  have hinit : (initReplica cfg shard resp now).bootstrapShardID ≠ "" →
      (initReplica cfg shard resp now).isReady = false := by
    intro hset
    simp only [initReplica] at hset ⊢
    rw [if_neg fun hready => hset hready.2]
    rfl
  simp only [initShard] at h ⊢
  split_ifs at h ⊢
  · simp only [ReplicaState.loadDisk] at h ⊢
    cases hopen : DiskState.openDiskState f cfg.snapshotInterval cfg.snapshotRetention with
    | error e =>
      rw [hopen] at h
      exact ⟨hinit h, rfl, rfl⟩
    | ok ds =>
      simp only [hopen] at h ⊢
      cases hload : ds.load with
      | error e =>
        simp only [hload] at h
        exact ⟨hinit h, rfl, rfl⟩
      | ok loaded =>
        simp only [hload] at h ⊢
        split_ifs at h ⊢
        · exact absurd rfl h
        · exact ⟨hinit h, rfl, rfl⟩
  · exact ⟨hinit h, rfl, rfl⟩

open Hosted in
/-- A replica that is created with the hint is not ready as long as it has it, and the
    recovery that takes it away leaves the replica with the contents of the leader
    of the source shard, provided that no message and no election makes the replica ready
    before. -/
theorem bootstrap_complete (H : ℕ → KVRequest) (cfg : NodeConfig) (shard : ShardInfo)
    (resp : ShardMapResponse) (now : Time) (f : Files)
    (hhint : (initShard cfg shard resp now f).bootstrapShardID ≠ "") (ops : List HostedOp)
    (h : Along Hosted.step (BootstrapFirst H) (.new (initShard cfg shard resp now f)) ops) :
    Throughout Hosted.step Waiting (.new (initShard cfg shard resp now f)) ops ∧
      Along Hosted.step Completes (.new (initShard cfg shard resp now f)) ops := by
  obtain ⟨hready, hversion, hkv⟩ := initShard_hint hhint
  have hfollows : Follows H (initShard cfg shard resp now f) := by
    rw [Follows, hversion, hkv]
    rfl
  have hstart : (Hosted.new (initShard cfg shard resp now f)).Expects H :=
    ⟨fun _ => ⟨hready, hfollows, rfl⟩, trivial⟩
  refine ⟨?_, Along.mono expects_step (fun s op hs hop => hs.completes hop) hstart h⟩
  exact (throughout expects_step hstart h).mono fun s hs hset => (hs.waits hset).1

/-! A shard has been split off the one of the example, and has no leader yet. -/

/-- The new shard. -/
def splitShard : ShardInfo where
  id := "shard-1"
  replicas := ["a", "b", "c"]
  leader := ""
  bootstrapSourceShardID := "shard-0"

/-- Its replica on the node `b`. -/
def splitReplica : ReplicaState :=
  initShard (exampleConfig "b") splitShard { exampleMap with shards := [exampleShard, splitShard] }
    0 Files.empty

/-- The leader of the source shard, with two writes and those in its log that are
    given. -/
def splitSource (log : List Entry) : ReplicaState :=
  { newReplicaState "shard-0" "a" ["b", "c"] 0 with
    role := .leader
    version := 2
    kv := stateAt exampleHistory 2
    repLog := { entries := log, maxSize := 1000 } }

/-- The replica gets the state of the source, since the log does not reach back. -/
theorem bootstrap_complete_split :
    ((exec Hosted.step (.new splitReplica)
      [.recoveryTick "", .recoveryBegin, .recoveryEnd (splitSource []) (fun _ => true) []]).map
        fun s => (s.replica.isReady, s.replica.version)) = some (true, 2) ∧
    Throughout Hosted.step Hosted.Waiting (.new splitReplica)
      [.recoveryTick "", .recoveryBegin, .recoveryEnd (splitSource []) (fun _ => true) []] ∧
    Along Hosted.step Hosted.Completes (.new splitReplica)
      [.recoveryTick "", .recoveryBegin, .recoveryEnd (splitSource []) (fun _ => true) []] := by
  refine ⟨by decide +kernel, bootstrap_complete exampleHistory (exampleConfig "b") splitShard _ 0
    Files.empty (by decide) _ ⟨fun _ => trivial, fun s hs => ⟨fun _ => trivial, fun t ht => ?_⟩⟩⟩
  obtain rfl := Option.some.inj hs
  obtain rfl := Option.some.inj ht
  exact ⟨fun _ => ⟨.of_nil rfl rfl, by decide⟩, fun _ _ => trivial⟩

/-- The replica wins an election before it has any data, and is ready. And an entry that
    is replicated while it waits for the answer takes the place of the first one of
    the source. -/
theorem ready_before_bootstrap :
    ¬Throughout Hosted.step Hosted.Waiting (.new splitReplica)
      [.electionBegin 0, .electionFinish 0 2] ∧
    ¬Along Hosted.step Hosted.Completes (.new splitReplica)
      [.recoveryTick "", .recoveryBegin, .message (.replicate 0 (.put 0 1 "x" "y") true),
        .recoveryEnd (splitSource [entryAt exampleHistory 0 1, entryAt exampleHistory 0 2])
          (fun _ => true) []] := by
  refine ⟨fun h => ?_, fun h => ?_⟩
  · have hwaiting := (h.2 _ rfl).2 _ rfl
    exact absurd (hwaiting (by decide)) (by decide)
  · have hcompletes := (((h.2 _ rfl).2 _ rfl).2 _ rfl).1 _ _ _ _ rfl rfl rfl
    exact absurd hcompletes.1 (by decide)

end Doki
