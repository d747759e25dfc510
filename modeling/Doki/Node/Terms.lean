import Doki.Lib.Runs
import Doki.Node.Server

/-!
# The term of a replica

Every operation of a node on a replica (`NodeOp`), in any order, from the moment
the replica is created. The fencing of old leaders and the votes rest on the
term never going back. It does not, with two exceptions: a replica that installs
a snapshot takes the term of the snapshot, without the check that `apply` makes, and
an election in the last term of the counter, which a single message may bring, begins
the term 0.

* `keepsVote_of_notVoting`: what the operations other than votes and snapshots do;
* `term_kept_iff`: along a run, the term does not decrease and the term of the vote
  does not exceed it, exactly when no snapshot of an older term is installed and no
  election begins in the last term;
* `term_lowered`: a candidate that recovers from the leader of the term before.
-/

namespace Doki

open Faulty Runs

/-- The operations of a node on a replica. The messages and the responses are
    arbitrary, and so are the entry of a write that ends and what an election has
    begun with: the lock is not held since then. -/
inductive NodeOp
  | replicate (now : Time) (req : Entry) (walOk : Bool)
  | requestVote (now : Time) (req : VoteRequest)
  | leaderHeartbeat (now : Time) (req : LeaderHeartbeatRequest)
  | forceRecover (now : Time)
  | electionBegin (now : Time)
  | higherTerm (term : ℕ)
  | electionFinish (now : Time) (peers : List String) (candidateTerm votes : ℕ)
  | heartbeatReply (now : Time) (sentTerm : ℕ) (peerID : String) (peerTerm : ℕ)
  | finishWrite (now : Time) (e : Entry) (plan : QuorumInfo) (acked : List String) (walOk : Bool)
      (fates : List Fate)
  | recover (resp : RecoverResponse) (walOk : ℕ → Bool) (fates : List Fate)

/-- What an operation makes of a replica. -/
def NodeOp.step (r : ReplicaState) : NodeOp → Option ReplicaState
  | .replicate now req walOk => some (r.replicate now req walOk).1
  | .requestVote now req => some (r.requestVote now req).1
  | .leaderHeartbeat now req => some (r.leaderHeartbeat now req).1
  | .forceRecover now => some (r.forceRecover now)
  | .electionBegin now => (r.electionBegin now).map Prod.fst
  | .higherTerm term => some (r.higherTerm term)
  | .electionFinish now peers candidateTerm votes =>
    some (r.electionFinish now peers candidateTerm votes).2
  | .heartbeatReply now sentTerm peerID peerTerm =>
    some (r.heartbeatReply now sentTerm peerID peerTerm)
  | .finishWrite now e plan acked walOk fates =>
    some (r.finishWrite now e plan acked walOk fates).2
  | .recover resp walOk fates => some (r.doIncrementalRecovery resp walOk fates).2

namespace ReplicaState

/-- The operation does not lower the term. -/
def TermKept (r : ReplicaState) (op : NodeOp) : Prop :=
  ∀ r', op.step r = some r' → r.term ≤ r'.term

/-- The last vote is not of a later term. -/
def VoteBounded (r : ReplicaState) : Prop := r.votedForTerm ≤ r.term

/-- The operation installs no snapshot of an older term, and begins no election in the last
    term. -/
def Onward (r : ReplicaState) : NodeOp → Prop
  | .recover (.snapshot s) _ _ => r.term ≤ s.term
  | .electionBegin _ => r.role = .leader ∨ r.term ≠ Counter.max
  | _ => True

variable {r r' : ReplicaState}

/-- The operations that neither vote nor install a snapshot keep the vote and
    move the replica forward. -/
theorem keepsVote_of_notVoting {op : NodeOp} (hstep : op.step r = some r')
    (hvote : ∀ now req, op ≠ .requestVote now req) (hbegin : ∀ now, op ≠ .electionBegin now)
    (hsnap : ∀ s walOk fates, op ≠ .recover (.snapshot s) walOk fates) : KeepsVote r r' := by
  cases op with
  | replicate now req walOk => exact Option.some.inj hstep ▸ r.keepsVote_replicate now req walOk
  | requestVote now req => exact absurd rfl (hvote now req)
  | leaderHeartbeat now req => exact Option.some.inj hstep ▸ r.keepsVote_leaderHeartbeat now req
  | forceRecover now => exact Option.some.inj hstep ▸ r.keepsVote_setLagging now
  | electionBegin now => exact absurd rfl (hbegin now)
  | higherTerm term => exact Option.some.inj hstep ▸ r.keepsVote_higherTerm term
  | electionFinish now peers candidateTerm votes =>
    exact Option.some.inj hstep ▸ r.keepsVote_electionFinish now peers candidateTerm votes
  | heartbeatReply now sentTerm peerID peerTerm =>
    exact Option.some.inj hstep ▸ r.keepsVote_heartbeatReply now sentTerm peerID peerTerm
  | finishWrite now e plan acked walOk fates =>
    exact Option.some.inj hstep ▸ r.keepsVote_finishWrite now e plan acked walOk fates
  | recover resp walOk fates =>
    cases resp with
    | entries version es =>
      exact Option.some.inj hstep ▸
        r.keepsVote_doIncrementalRecovery_entries version es walOk fates
    | snapshot s => exact absurd rfl (hsnap s walOk fates)

theorem VoteBounded.keep (h : r.VoteBounded) (hk : KeepsVote r r') : r'.VoteBounded := by
  have := hk.term_le
  rw [VoteBounded, hk.votedForTerm]
  exact le_trans h this

/-- A vote is of the term that the replica is then in. -/
theorem VoteBounded.requestVote {now : Time} {req : VoteRequest} {resp : VoteResponse}
    (h : r.VoteBounded) (hreq : r.requestVote now req = (r', resp)) : r'.VoteBounded := by
  rw [VoteBounded] at h ⊢
  rcases requestVote_cases hreq with ⟨-, rfl, -⟩ | ⟨-, rfl, -⟩ | ⟨-, -, -, rfl, -⟩
  · exact h
  · rcases r.observeVote_eq req.term with ⟨-, heq⟩ | ⟨-, heq⟩ <;> rw [heq]
    · exact h
    · exact Nat.zero_le _
  · rcases r.observeVote_eq req.term with ⟨hge, heq⟩ | ⟨-, heq⟩ <;> rw [heq]
    exact hge

/-- What a replica takes over from a snapshot. -/
theorem term_recover_snapshot {s : Snapshot} {walOk : ℕ → Bool} {fates : List Fate}
    (hstep : (NodeOp.recover (.snapshot s) walOk fates).step r = some r') :
    r'.term = s.term ∧ r'.votedForTerm = r.votedForTerm := by
  obtain ⟨ds, h⟩ := doIncrementalRecovery_snapshot
    (Prod.ext rfl (Option.some.inj hstep) : r.doIncrementalRecovery _ walOk fates = (_, r'))
  rcases h with rfl | rfl <;> exact ⟨rfl, rfl⟩

/-- An election that begins takes the next term, which is not that of a leader. -/
theorem term_electionBegin {now : Time} (hstep : (NodeOp.electionBegin now).step r = some r') :
    r.role ≠ .leader ∧ r'.term = Counter.next r.term ∧ r'.votedForTerm = r'.term := by
  obtain ⟨⟨r'', req⟩, hbegin, rfl⟩ := Option.map_eq_some_iff.1 hstep
  obtain ⟨rfl, -⟩ := electionBegin_eq_some hbegin
  refine ⟨fun hrole => ?_, rfl, rfl⟩
  rw [electionBegin, if_pos hrole] at hbegin
  cases hbegin

/-- The step lemma: an operation that does not set the term back keeps both. -/
theorem kept_step {op : NodeOp} (h : r.VoteBounded) (hop : r.Onward op)
    (hstep : op.step r = some r') : r.term ≤ r'.term ∧ r'.VoteBounded := by
  by_cases hkeep : (∀ now req, op ≠ .requestVote now req) ∧ (∀ now, op ≠ .electionBegin now) ∧
      ∀ s walOk fates, op ≠ .recover (.snapshot s) walOk fates
  · have hk := keepsVote_of_notVoting hstep hkeep.1 hkeep.2.1 hkeep.2.2
    exact ⟨hk.term_le, h.keep hk⟩
  · cases op with
    | requestVote now req =>
      obtain rfl := Option.some.inj hstep
      exact ⟨(r.evolves_requestVote now req).term_le, h.requestVote rfl⟩
    | electionBegin now =>
      obtain ⟨hrole, hterm, hvoted⟩ := term_electionBegin hstep
      refine ⟨?_, hvoted.le⟩
      rw [hterm]
      exact (Counter.lt_next_iff.2 (hop.resolve_left hrole)).le
    | recover resp walOk fates =>
      cases resp with
      | entries version es => simp at hkeep
      | snapshot s =>
        obtain ⟨hterm, hvoted⟩ := term_recover_snapshot hstep
        have hle : r.term ≤ s.term := hop
        refine ⟨by omega, ?_⟩
        rw [VoteBounded] at h ⊢
        omega
    | replicate | leaderHeartbeat | forceRecover | higherTerm | electionFinish
    | heartbeatReply | finishWrite => simp at hkeep

/-- Conversely, an operation that keeps the term does neither. -/
theorem TermKept.onward {op : NodeOp} (h : r.TermKept op) : r.Onward op := by
  cases op with
  | electionBegin now =>
    refine or_iff_not_imp_left.2 fun hrole => Counter.lt_next_iff.1 ?_
    have hle := h _ (by rw [NodeOp.step, electionBegin, if_neg hrole]; rfl)
    exact lt_of_le_of_ne hle (Counter.next_ne_self _).symm
  | recover resp walOk fates =>
    cases resp with
    | entries version es => trivial
    | snapshot s =>
      have hkept := h _ rfl
      rwa [(term_recover_snapshot rfl).1] at hkept
  | _ => trivial

end ReplicaState

open ReplicaState in
/-- From the creation of a replica on, its term does not decrease and the term of
    its vote does not exceed it, exactly when it installs no snapshot of an older
    term and begins no election in the last one. -/
theorem term_kept_iff (cfg : NodeConfig) (shard : ShardInfo) (resp : ShardMapResponse) (now : Time)
    (f : Files) (ops : List NodeOp) :
    (Along NodeOp.step TermKept (initShard cfg shard resp now f) ops ∧
      Throughout NodeOp.step VoteBounded (initShard cfg shard resp now f) ops) ↔
    Along NodeOp.step Onward (initShard cfg shard resp now f) ops := by
  have hstart : (initShard cfg shard resp now f).VoteBounded := by
    rw [VoteBounded, (initShard_vote cfg shard resp now f).2.2]
    exact Nat.zero_le _
  have hstep : ∀ r op r', VoteBounded r → Onward r op → NodeOp.step r op = some r' →
      VoteBounded r' := fun r op r' h hop hr => (kept_step h hop hr).2
  constructor
  · rintro ⟨hterm, -⟩
    -- No invariant is needed in this direction.
    have htrue : ∀ r op r', True → TermKept r op → NodeOp.step r op = some r' → True :=
      fun _ _ _ _ _ _ => trivial
    exact Along.mono htrue (fun r op _ h => h.onward) trivial hterm
  · intro h
    exact ⟨Along.mono hstep (fun r op hb hop r' hr => (kept_step hb hop hr).1) hstart h,
      throughout hstep hstart h⟩

/-! A leader that has started again has its state from disk and an empty log, so
that it serves a snapshot. Its follower has started an election since. -/

/-- The leader `a`, with one write on disk. -/
def restartedLeader : ReplicaState :=
  initShard (exampleConfig "a") exampleShard exampleMap 0
    { Files.empty with wal := [.put 0 1 "k" "v"] }

/-- The follower `b` starts an election and then recovers from the leader, which is
    still in the term before: its term goes back, below the term of its vote. -/
theorem term_lowered :
    ∃ resp, restartedLeader.recover 0 = .ok resp ∧
      ¬Along NodeOp.step ReplicaState.TermKept
        (initShard (exampleConfig "b") exampleShard exampleMap 0 Files.empty)
        [.electionBegin 0, .recover resp (fun _ => true) []] := by
  refine ⟨_, rfl, fun h => ?_⟩
  have hlowered := (h.2 _ rfl).1 _ rfl
  exact absurd hlowered (by decide)

end Doki
