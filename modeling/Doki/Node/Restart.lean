import Doki.Node.Terms

/-!
# Votes and restarts

A replica, with a data directory or not, votes, writes, and is started again any number
of times, after a crash or not. Its votes are kept in memory only, and the term
reaches the disk with the entries of the log: what a restarted replica remembers
of its votes is the term that `load` recovers.

* `Voter.faithful_step`: the record of the votes stays faithful, as long as the
  candidates have names, no election begins in the last term, and the term on disk at a
  restart is after all those the replica has voted in;
* `oneVotePerTerm_of_remembered`: in such runs, no two votes of a term are for
  different candidates;
* `double_vote`: a run with two votes in a term otherwise.
-/

namespace Doki

open Runs

/-- A replica, with the votes that it has given since it was first created. -/
structure Voter where
  replica : ReplicaState
  votes : List Vote

/-- What happens to a voter: an operation of its node, or a restart with the shard
    map that the node then gets. -/
inductive VoterAction
  | op (o : NodeOp)
  | restart (shard : ShardInfo) (resp : ShardMapResponse) (now : Time)

namespace Voter

/-- The votes that an operation adds: a granted request, or the vote of a candidate
    for itself. -/
def newVotes (r : ReplicaState) : NodeOp → List Vote
  | .requestVote now req => if (r.requestVote now req).2.voteGranted then [req.vote] else []
  | .electionBegin now => ((r.electionBegin now).map fun x => x.2.vote).toList
  | _ => []

/-- The operations that this is about: there are no recoveries. -/
def allowed : NodeOp → Bool
  | .recover _ _ _ => false
  | _ => true

/-- The files that a process leaves behind. -/
def files (s : Voter) : Files :=
  match s.replica.ds with
  | some ds => ds.files
  | none => Files.empty

/-- The replica after a restart. -/
def restarted (cfg : NodeConfig) (s : Voter) (shard : ShardInfo) (resp : ShardMapResponse)
    (now : Time) : ReplicaState :=
  initShard cfg shard resp now s.files

/-- One step of a voter on a node with the configuration `cfg`. -/
def step (cfg : NodeConfig) (s : Voter) : VoterAction → Option Voter
  | .op o =>
    if allowed o then
      (o.step s.replica).map fun r => { replica := r, votes := newVotes s.replica o ++ s.votes }
    else none
  | .restart shard resp now => some { s with replica := s.restarted cfg shard resp now }

/-- No two votes of a term are for different candidates. -/
def OneVotePerTerm (s : Voter) : Prop :=
  ∀ v ∈ s.votes, ∀ w ∈ s.votes, v.term = w.term → v.candidate = w.candidate

/-- A candidate that asks for a vote has a name: the empty name stands for no vote. The
    replica begins no election in the last term, from which it would go back to 0. The
    term on disk at a restart is after all those the replica has voted in. -/
def Remembered (cfg : NodeConfig) (s : Voter) : VoterAction → Prop
  | .op (.requestVote _ req) => req.candidateID ≠ ""
  | .op (.electionBegin _) => s.replica.role = .leader ∨ s.replica.term ≠ Counter.max
  | .restart _ _ _ => ∀ v ∈ s.votes, v.term < diskTerm cfg s.files
  | _ => True

instance (cfg : NodeConfig) (s : Voter) (a : VoterAction) : Decidable (s.Remembered cfg a) := by
  unfold Remembered
  split <;> infer_instance

/-- The invariant: the record is faithful, and the replica is that of its node. -/
def Faithful (cfg : NodeConfig) (s : Voter) : Prop :=
  s.replica.nodeID = cfg.nodeID ∧ Ledger s.replica s.votes

variable {cfg : NodeConfig} {s t : Voter}

/-- The record of the votes after an operation. -/
theorem ledger_op (hid : cfg.nodeID ≠ "") (h : s.Faithful cfg) {o : NodeOp} {r : ReplicaState}
    (hallowed : allowed o = true) (hnamed : s.Remembered cfg (.op o))
    (hstep : o.step s.replica = some r) :
    Faithful cfg { replica := r, votes := newVotes s.replica o ++ s.votes } := by
  obtain ⟨hnode, hledger⟩ := h
  by_cases hkeep : (∀ now req, o ≠ .requestVote now req) ∧ ∀ now, o ≠ .electionBegin now
  · have hk := ReplicaState.keepsVote_of_notVoting hstep hkeep.1 hkeep.2
      fun s walOk fates ho => by simp [ho, allowed] at hallowed
    have hnone : newVotes s.replica o = [] := by
      cases o with
      | requestVote now req => exact absurd rfl (hkeep.1 now req)
      | electionBegin now => exact absurd rfl (hkeep.2 now)
      | _ => rfl
    rw [hnone]
    exact ⟨hk.nodeID.trans hnode, hledger.keep hk⟩
  · cases o with
    | requestVote now req =>
      have hcand : req.candidateID ≠ "" := hnamed
      obtain rfl := Option.some.inj hstep
      refine ⟨(s.replica.evolves_requestVote now req).nodeID.trans hnode, ?_⟩
      cases hreq : s.replica.requestVote now req with
      | mk r' resp =>
        have hvote := hledger.requestVote hcand hreq
        simp only [newVotes, hreq]
        split_ifs at hvote ⊢ <;> exact hvote
    | electionBegin now =>
      have hmax : s.replica.term ≠ Counter.max :=
        hnamed.resolve_left (ReplicaState.term_electionBegin hstep).1
      obtain ⟨⟨r', req⟩, hbegin, rfl⟩ := Option.map_eq_some_iff.1 hstep
      refine ⟨(ReplicaState.evolves_electionBegin hmax hbegin).nodeID.trans hnode, ?_⟩
      simpa [newVotes, hbegin] using hledger.electionBegin (hnode ▸ hid) hmax hbegin
    | recover => simp [allowed] at hallowed
    | replicate | leaderHeartbeat | forceRecover | higherTerm | electionFinish
    | heartbeatReply | finishWrite => simp at hkeep

/-- The step lemma: a restart keeps the record faithful if the term on disk is after
    all votes. -/
theorem faithful_step (hid : cfg.nodeID ≠ "") (s : Voter) (a : VoterAction) (t : Voter)
    (h : s.Faithful cfg) (hremembered : s.Remembered cfg a) (hstep : s.step cfg a = some t) :
    t.Faithful cfg := by
  cases a with
  | op o =>
    rw [step] at hstep
    split_ifs at hstep with hallowed
    obtain ⟨r, hr, rfl⟩ := Option.map_eq_some_iff.1 hstep
    exact ledger_op hid h hallowed hremembered hr
  | restart shard resp now =>
    -- The vote is gone, but no vote is of the term that the replica starts in.
    obtain rfl := Option.some.inj hstep
    have hafter : ∀ v ∈ s.votes, v.term < (s.restarted cfg shard resp now).term := fun v hv => by
      rw [restarted, term_initShard]
      exact hremembered v hv
    refine ⟨(initShard_vote cfg shard resp now s.files).1, ?_, ?_, h.2.named, h.2.unique⟩
    · exact fun v hv => (hafter v hv).le
    · exact fun v hv ht => absurd ht (hafter v hv).ne

end Voter

/-- In a run from the creation of a replica where all candidates have names, no election
    begins in the last term, and the term on disk at every restart is after all those the
    replica has voted in, it never votes for two candidates in a term. -/
theorem oneVotePerTerm_of_remembered (cfg : NodeConfig) (hid : cfg.nodeID ≠ "") (shard : ShardInfo)
    (resp : ShardMapResponse) (now : Time) (f : Files) (as : List VoterAction)
    (hC : Along (Voter.step cfg) (Voter.Remembered cfg) ⟨initShard cfg shard resp now f, []⟩ as)
    {s : Voter}
    (h : exec (Voter.step cfg) ⟨initShard cfg shard resp now f, []⟩ as = some s) :
    s.OneVotePerTerm :=
  (invariant (Voter.faithful_step hid)
    ⟨(initShard_vote cfg shard resp now f).1, Ledger.nil _⟩ hC h).2.unique

/-- The vote of a replica for `candidate` in the term `term`. -/
def askVote (term : ℕ) (candidate : String) (version : ℕ) : VoterAction :=
  .op (.requestVote 0 { term := term, candidateID := candidate, version := version })

/-- A vote, an entry of a later term that reaches the disk, a restart, and a vote. -/
def rememberedRun : List VoterAction :=
  [askVote 1 "b" 0, .op (.replicate 0 (.put 2 1 "k" "v") true),
    .restart exampleShard exampleMap 0, askVote 3 "c" 1]

/-- With an entry of a later term on disk, the restart does no harm. -/
theorem oneVotePerTerm_rememberedRun :
    ∃ s, exec (Voter.step (exampleConfig "a"))
        ⟨initShard (exampleConfig "a") exampleShard exampleMap 0 Files.empty, []⟩
        rememberedRun = some s ∧ s.votes.length = 2 ∧ s.OneVotePerTerm :=
  ⟨_, rfl, rfl, oneVotePerTerm_of_remembered (exampleConfig "a") (by decide) exampleShard
    exampleMap 0 Files.empty rememberedRun (by decide) rfl⟩

/-- The replica votes for `b`, is started again, and votes for `c` in the same term:
    nothing of its vote was on disk. -/
theorem double_vote :
    ∃ s, exec (Voter.step (exampleConfig "a"))
        ⟨initShard (exampleConfig "a") exampleShard exampleMap 0 Files.empty, []⟩
        [askVote 1 "b" 0, .restart exampleShard exampleMap 0, askVote 1 "c" 0] = some s ∧
      ¬s.OneVotePerTerm :=
  ⟨_, rfl, fun h => absurd (h ⟨1, "b", 0⟩ (by decide) ⟨1, "c", 0⟩ (by decide) rfl) (by decide)⟩

end Doki
