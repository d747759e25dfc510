import Doki.Node.Replica

/-!
# The handlers of a replica

What a replica does with the messages of its peers (`node/grpc.go`). A request
for a shard that the node does not host is answered by an error before it gets
here.

* `replicate`: a follower applies the next entry of its leader. An entry it is
  already past is acknowledged without a look at what it holds at this version,
  and a gap sends it to recovery (`replicate_cases`);
* `requestVote`: a vote, at most one in a term, and only for a candidate that is
  not behind (`requestVote_cases`);
* `leaderHeartbeat`, `forceRecover`: what they change;
* `recover`: what a leader answers to a follower that recovers.

Handlers only move a replica forward (`Evolves`): its term does not decrease, and it
remains the same replica. Neither does its version (`version_le_replicate`): an
entry whose version has wrapped around to 0 is taken for a duplicate.
-/

namespace Doki

/-- The response to a replicated entry. -/
structure ReplicateResponse where
  success : Bool
  term : ℕ
  deriving DecidableEq, Repr

/-- A candidate asks for a vote. -/
structure VoteRequest where
  term : ℕ
  candidateID : String
  version : ℕ
  deriving DecidableEq, Repr

/-- The response to a request for a vote. -/
structure VoteResponse where
  term : ℕ
  voteGranted : Bool
  deriving DecidableEq, Repr

/-- The sign of life of a leader. -/
structure LeaderHeartbeatRequest where
  term : ℕ
  version : ℕ
  leaderID : String
  deriving DecidableEq, Repr

/-- The response of a leader to a follower that recovers: the entries it misses,
    or the whole state. -/
inductive RecoverResponse
  | entries (version : ℕ) (es : List Entry)
  | snapshot (s : Snapshot)
  deriving DecidableEq

/-- The errors of the handlers. -/
inductive RpcError
  | notLeader
  | apply (e : ApplyError)
  deriving DecidableEq, Repr

/-- The error's text. -/
def RpcError.message : RpcError → String
  | .notLeader => "not leader"
  | .apply e => "wal append: " ++ e.message

/-- The outcome of a call to `replicate`: a response, or an error. -/
inductive ReplicateReply
  | response (resp : ReplicateResponse)
  | error (e : RpcError)
  deriving DecidableEq, Repr

/-- The leader counts only a response that says so as a success. -/
def ReplicateReply.acked : ReplicateReply → Bool
  | .response resp => resp.success
  | .error _ => false

namespace ReplicaState

variable (r : ReplicaState)

/-- The handler of `Replicate`; the request carries the fields of the entry. -/
def replicate (now : Time) (req : Entry) (walOk : Bool) : ReplicaState × ReplicateReply :=
  if req.term < r.term then (r, .response ⟨false, r.term⟩)
  else
    let r' := r.observe req.term
    -- A duplicate is told by its version: the entry at this version may be another one.
    if req.version ≤ r'.version then (r', .response ⟨true, r'.term⟩)
    -- An entry is missing before this one.
    else if req.version ≠ Counter.next r'.version then
      (r'.setLagging now, .response ⟨false, r'.term⟩)
    else
      match r'.apply req .withWAL walOk with
      | (r'', some e) => (r'', .error (.apply e))
      | (r'', none) =>
        ({ r''.setReady with lastLeaderContact := now }, .response ⟨true, req.term⟩)

/-- The handler of `Recover`. -/
def recover (sinceVersion : ℕ) : Except RpcError RecoverResponse :=
  if r.role ≠ .leader then .error .notLeader
  -- A follower that is ahead has to go back.
  else if sinceVersion > r.version then .ok (.snapshot r.snapshot)
  else if r.version = sinceVersion then .ok (.entries r.version [])
  else
    let (es, ok) := r.repLog.since sinceVersion
    if ok ∧ (es.length > 0 ∨ r.version = sinceVersion) then .ok (.entries r.version es)
    else .ok (.snapshot r.snapshot)

/-- The handler of `ForceRecover`. -/
def forceRecover (now : Time) : ReplicaState := r.setLagging now

/-- What a replica makes of the term of a request for a vote: a newer one takes
    away the vote of the older one. -/
def observeVote (term : ℕ) : ReplicaState :=
  if term > r.term then
    { r with term := term, votedFor := "", votedForTerm := 0, role := .follower }
  else r

/-- The handler of `RequestVote`. -/
def requestVote (now : Time) (req : VoteRequest) : ReplicaState × VoteResponse :=
  if req.term < r.term then (r, ⟨r.term, false⟩)
  else
    let r' := r.observeVote req.term
    if r'.votedForTerm = req.term ∧ r'.votedFor ≠ "" ∧ r'.votedFor ≠ req.candidateID then
      (r', ⟨r'.term, false⟩)
    -- Versions are compared, but not the terms of the last entries.
    else if req.version < r'.version then (r', ⟨r'.term, false⟩)
    else
      ({ r' with
          votedFor := req.candidateID
          votedForTerm := req.term
          lastLeaderContact := now }, ⟨r'.term, true⟩)

/-- The handler of `LeaderHeartbeat`; it answers with the term of the replica. -/
def leaderHeartbeat (now : Time) (req : LeaderHeartbeatRequest) : ReplicaState × ℕ :=
  if req.term < r.term then (r, r.term)
  else
    let r' := r.observe req.term
    ({ r' with leaderID := req.leaderID, lastLeaderContact := now }, r'.term)

/-! ## What the handlers do -/

variable {r} {r' : ReplicaState}

/-- The cases of `replicate`: a stale term, a duplicate, a gap, an error of the
    state machine, and an application. -/
theorem replicate_cases {now : Time} {req : Entry} {walOk : Bool} {reply : ReplicateReply}
    (h : r.replicate now req walOk = (r', reply)) :
    (req.term < r.term ∧ r' = r ∧ reply.acked = false) ∨
    (r.term ≤ req.term ∧ req.version ≤ r.version ∧ r' = r.observe req.term ∧
      reply.acked = true) ∨
    (r.term ≤ req.term ∧ r.version < req.version ∧ req.version ≠ Counter.next r.version ∧
      r' = (r.observe req.term).setLagging now ∧ reply.acked = false) ∨
    (r.term ≤ req.term ∧ req.version = r.version + 1 ∧
      (∃ ds, r' = { r.observe req.term with ds := ds }) ∧ reply.acked = false) ∨
    (r.term ≤ req.term ∧ req.version = r.version + 1 ∧ req.op ≠ .unknown ∧
      (∃ ds, r' = { ((r.observe req.term).applied req).setReady with
        ds := ds, lastLeaderContact := now }) ∧ reply.acked = true) := by
  obtain ⟨role, hobs⟩ := r.observe_eq req.term
  have hversion : (r.observe req.term).version = r.version := by rw [hobs]
  simp only [replicate] at h
  split_ifs at h with hterm hdup hgap
  · cases h
    exact .inl ⟨hterm, rfl, rfl⟩
  · cases h
    exact .inr (.inl ⟨not_lt.1 hterm, hversion ▸ hdup, rfl, rfl⟩)
  · cases h
    rw [hversion] at hdup hgap
    exact .inr (.inr (.inl ⟨not_lt.1 hterm, not_le.1 hdup, hgap, rfl, rfl⟩))
  · have hnext : req.version = r.version + 1 := by
      rw [hversion] at hdup hgap
      have hgap := not_not.1 hgap
      exact hgap.trans (Counter.next_of_lt (hgap ▸ not_le.1 hdup))
    cases happly : (r.observe req.term).apply req .withWAL walOk with
    | mk r'' err =>
      simp only [happly] at h
      cases err with
      | some e =>
        cases h
        exact .inr (.inr (.inr (.inl ⟨not_lt.1 hterm, hnext, apply_error happly, rfl⟩)))
      | none =>
        cases h
        obtain ⟨-, -, hop, ds, rfl⟩ := apply_ok happly
        exact .inr (.inr (.inr (.inr ⟨not_lt.1 hterm, hnext, hop, ⟨ds, rfl⟩, rfl⟩)))

/-- What `replicate` does to the contents: nothing, with a success only for an entry
    the replica is past, or the entry is applied. -/
theorem replicate_effect (r : ReplicaState) (now : Time) (req : Entry) (walOk : Bool) :
    (SameContents r (r.replicate now req walOk).1 ∧
      ((r.replicate now req walOk).2.acked = true →
        r.term ≤ req.term ∧ req.version ≤ r.version)) ∨
    (Applies r req (r.replicate now req walOk).1 ∧
      (r.replicate now req walOk).2.acked = true) := by
  have hobs := r.sameContents_observe req.term
  cases h : r.replicate now req walOk with
  | mk r' reply =>
    rcases replicate_cases h with
      ⟨-, rfl, hack⟩ | ⟨hterm, hdup, rfl, -⟩ | ⟨-, -, -, rfl, hack⟩ | ⟨-, -, ⟨ds, rfl⟩, hack⟩ |
        ⟨hterm, hnext, -, ⟨ds, rfl⟩, hack⟩
    · exact .inl ⟨.refl r', fun h => absurd (hack.symm.trans h) (by simp)⟩
    · exact .inl ⟨hobs, fun _ => ⟨hterm, hdup⟩⟩
    · exact .inl ⟨⟨hobs.version, hobs.kv, List.nil_subset _⟩,
        fun h => absurd (hack.symm.trans h) (by simp)⟩
    · exact .inl ⟨⟨hobs.version, hobs.kv, hobs.repLog⟩,
        fun h => absurd (hack.symm.trans h) (by simp)⟩
    · obtain ⟨role, hobs⟩ := r.observe_eq req.term
      rw [hobs]
      exact .inr ⟨⟨hnext, hterm, rfl, rfl, rfl, rfl⟩, hack⟩

theorem version_le_replicate (r : ReplicaState) (now : Time) (req : Entry) (walOk : Bool) :
    r.version ≤ (r.replicate now req walOk).1.version := by
  rcases r.replicate_effect now req walOk with ⟨hsame, -⟩ | ⟨happlies, -⟩
  · exact hsame.version_le
  · exact happlies.version_le

/-- An acknowledged entry is not of an older term, and leaves no gap. -/
theorem of_acked {r : ReplicaState} {now : Time} {req : Entry} {walOk : Bool}
    (h : (r.replicate now req walOk).2.acked = true) :
    r.term ≤ req.term ∧ req.version ≤ r.version + 1 := by
  rcases r.replicate_effect now req walOk with ⟨-, hpast⟩ | ⟨happlies, -⟩
  · exact ⟨(hpast h).1, (hpast h).2.trans (Nat.le_succ _)⟩
  · exact ⟨happlies.term_le, happlies.next.le⟩

/-- The next entry of the current term or a newer one is applied, and a duplicate is
    acknowledged, when the write to the write-ahead log succeeds. -/
theorem acked_replicate {now : Time} {req : Entry} (hterm : r.term ≤ req.term)
    (hversion : req.version ≤ r.version ∨ req.version = Counter.next r.version)
    (hop : req.op ≠ .unknown) : (r.replicate now req true).2.acked = true := by
  obtain ⟨role, hobs⟩ := r.observe_eq req.term
  simp only [replicate]
  rw [if_neg (not_lt.2 hterm)]
  split_ifs with hdup hgap
  · rfl
  · rw [hobs] at hdup hgap
    exact (hversion.elim hdup hgap).elim
  · rw [apply_next (not_not.1 hgap) (by rw [hobs]; exact max_le hterm le_rfl) hop]
    rfl

/-- A successful response to `Recover`: entries of the log, or the whole state. -/
theorem recover_ok {sinceVersion : ℕ} {resp : RecoverResponse}
    (h : r.recover sinceVersion = .ok resp) :
    (∃ es, resp = .entries r.version es ∧ ∀ e ∈ es, e ∈ r.repLog.entries) ∨
      resp = .snapshot r.snapshot := by
  simp only [recover] at h
  split_ifs at h <;> cases h
  · exact .inr rfl
  · exact .inl ⟨[], rfl, by simp⟩
  · exact .inl ⟨_, rfl, fun e he => Log.mem_of_mem_since he⟩
  · exact .inr rfl

/-- The cases of `requestVote`: a stale term, a refusal, and a vote. Before it
    votes, the replica has not voted for another candidate in this term. -/
theorem requestVote_cases {now : Time} {req : VoteRequest} {resp : VoteResponse}
    (h : r.requestVote now req = (r', resp)) :
    (req.term < r.term ∧ r' = r ∧ resp.voteGranted = false) ∨
    (r.term ≤ req.term ∧ r' = r.observeVote req.term ∧ resp.voteGranted = false) ∨
    (r.term ≤ req.term ∧ r.version ≤ req.version ∧
      (r.term = req.term → r.votedForTerm = req.term → r.votedFor ≠ "" →
        r.votedFor = req.candidateID) ∧
      r' = { r.observeVote req.term with
        votedFor := req.candidateID, votedForTerm := req.term, lastLeaderContact := now } ∧
      resp.voteGranted = true) := by
  simp only [requestVote] at h
  split_ifs at h with hterm hvoted hversion
  · cases h
    exact .inl ⟨hterm, rfl, rfl⟩
  · cases h
    exact .inr (.inl ⟨not_lt.1 hterm, rfl, rfl⟩)
  · cases h
    exact .inr (.inl ⟨not_lt.1 hterm, rfl, rfl⟩)
  · cases h
    have hsame : (r.observeVote req.term).version = r.version := by
      rw [observeVote]
      split_ifs <;> rfl
    refine .inr (.inr ⟨not_lt.1 hterm, by omega, fun heq ht hne => ?_, rfl, rfl⟩)
    -- In the same term, the vote has not been taken away.
    rw [observeVote, if_neg (by omega)] at hvoted
    by_contra hcand
    exact hvoted ⟨ht, hne, hcand⟩

/-- A newer term takes away the vote, together with the older term. -/
theorem observeVote_eq (term : ℕ) :
    (term ≤ r.term ∧ r.observeVote term = r) ∨
    (r.term < term ∧ r.observeVote term =
      { r with term := term, votedFor := "", votedForTerm := 0, role := .follower }) := by
  rw [observeVote]
  split_ifs with h
  · exact .inr ⟨h, rfl⟩
  · exact .inl ⟨not_lt.1 h, rfl⟩

theorem evolves_observeVote (r : ReplicaState) (term : ℕ) : Evolves r (r.observeVote term) := by
  rcases r.observeVote_eq term with ⟨-, h⟩ | ⟨hlt, h⟩ <;> rw [h]
  · exact .refl r
  · exact ⟨rfl, rfl, rfl, hlt.le⟩

theorem keepsVote_replicate (r : ReplicaState) (now : Time) (req : Entry) (walOk : Bool) :
    KeepsVote r (r.replicate now req walOk).1 := by
  have hobs := r.keepsVote_observe req.term
  simp only [replicate]
  split_ifs
  · exact .refl r
  · exact hobs
  · exact hobs.trans (keepsVote_setLagging _ _)
  · have happly := hobs.trans (keepsVote_apply _ req .withWAL walOk)
    split
    · rename_i r'' e h
      rwa [h] at happly
    · rename_i r'' h
      rw [h] at happly
      exact ⟨⟨happly.shardID, happly.nodeID, happly.peers, happly.term_le⟩, happly.votedFor,
        happly.votedForTerm⟩

theorem keepsVote_leaderHeartbeat (r : ReplicaState) (now : Time) (req : LeaderHeartbeatRequest) :
    KeepsVote r (r.leaderHeartbeat now req).1 := by
  have hobs := r.keepsVote_observe req.term
  simp only [leaderHeartbeat]
  split_ifs
  · exact .refl r
  · exact ⟨⟨hobs.shardID, hobs.nodeID, hobs.peers, hobs.term_le⟩, hobs.votedFor,
      hobs.votedForTerm⟩

theorem evolves_requestVote (r : ReplicaState) (now : Time) (req : VoteRequest) :
    Evolves r (r.requestVote now req).1 := by
  have hobs := r.evolves_observeVote req.term
  cases h : r.requestVote now req with
  | mk r' resp =>
    rcases requestVote_cases h with ⟨-, rfl, -⟩ | ⟨-, rfl, -⟩ | ⟨-, -, -, rfl, -⟩
    · exact .refl r'
    · exact hobs
    · exact ⟨hobs.shardID, hobs.nodeID, hobs.peers, hobs.term_le⟩

theorem sameContents_observeVote (r : ReplicaState) (term : ℕ) :
    SameContents r (r.observeVote term) := by
  rcases r.observeVote_eq term with ⟨-, h⟩ | ⟨-, h⟩ <;> rw [h]
  · exact .refl r
  · exact ⟨rfl, rfl, List.Subset.refl _⟩

theorem sameContents_requestVote (r : ReplicaState) (now : Time) (req : VoteRequest) :
    SameContents r (r.requestVote now req).1 := by
  have hobs := r.sameContents_observeVote req.term
  cases h : r.requestVote now req with
  | mk r' resp =>
    rcases requestVote_cases h with ⟨-, rfl, -⟩ | ⟨-, rfl, -⟩ | ⟨-, -, -, rfl, -⟩
    · exact .refl r'
    · exact hobs
    · exact ⟨hobs.version, hobs.kv, hobs.repLog⟩

theorem sameContents_leaderHeartbeat (r : ReplicaState) (now : Time)
    (req : LeaderHeartbeatRequest) : SameContents r (r.leaderHeartbeat now req).1 := by
  have hobs := r.sameContents_observe req.term
  simp only [leaderHeartbeat]
  split_ifs
  · exact .refl r
  · exact ⟨hobs.version, hobs.kv, hobs.repLog⟩

end ReplicaState

end Doki
