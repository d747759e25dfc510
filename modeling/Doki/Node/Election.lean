import Doki.Lib.Finmaps
import Doki.Node.Handlers

/-!
# Elections

How a replica becomes the leader (`node/election.go`). `startElection` is not
atomic: it takes a new term and votes for itself (`electionBegin`), asks the
peers it has at that moment without holding the lock, steps down when a response
shows a newer term (`higherTerm`), and checks at the end that the term is still its
own (`electionFinish`). The term is a counter of 64 bits: the one after the last
is 0. A leader sends heartbeats (`heartbeatRequest`), and steps down
when a response shows a newer term (`heartbeatReply`).

The votes a replica has given are recorded apart, as `Vote`s: the replica itself
remembers only the last one. `Ledger` says that what it remembers is enough.

* `Ledger.keep`, `Ledger.requestVote`, `Ledger.electionBegin`: the record stays
  faithful, in particular no two votes of a term are for different candidates.
-/

namespace Doki

/-- What a node knows besides the state of its replicas. -/
structure View where
  /-- The addresses of the nodes, from the shard map. -/
  nodeAddresses : Finmap fun _ : String => String
  shardMapVersion : ℕ
  /-- The interval of the heartbeats of a leader. -/
  leaderHeartbeat : Time

/-- The addresses of the peers that are known. -/
def View.peerAddrs (view : View) (peers : List String) : Finmap fun _ : String => String :=
  view.nodeAddresses.collect peers

theorem View.mem_of_mem_peerAddrs {view : View} {peers : List String} {p : String}
    (h : p ∈ view.peerAddrs peers) : p ∈ peers :=
  Finmap.mem_of_mem_collect h

/-- How an election ends, when no response has shown a newer term. -/
inductive ElectionResult
  | superseded
  | lost
  | won
  deriving DecidableEq, Repr

/-- The votes needed to win, among the replica and its peers. -/
def electionQuorum (peers : List String) : ℕ := (peers.length + 1) / 2 + 1

namespace ReplicaState

variable (r : ReplicaState)

/-- The beginning of `startElection`: a new term, and a vote for itself. -/
def electionBegin (now : Time) : Option (ReplicaState × VoteRequest) :=
  if r.role = .leader then none
  else some
    ({ r with
        term := Counter.next r.term
        votedFor := r.nodeID
        votedForTerm := Counter.next r.term
        lastLeaderContact := now },
      { term := Counter.next r.term, candidateID := r.nodeID, version := r.version })

/-- A response to a candidate shows the newer term `term`. -/
def higherTerm (term : ℕ) : ReplicaState :=
  { r with term := max r.term term, role := .follower }

/-- The end of `startElection`, with `votes` votes in the term `candidateTerm`. The quorum
    is that of the peers at the beginning: a shard map may have changed them since. -/
def electionFinish (now : Time) (peers : List String) (candidateTerm votes : ℕ) :
    ElectionResult × ReplicaState :=
  -- The lock was released while the votes were collected.
  if r.term ≠ candidateTerm ∨ r.role = .leader then (.superseded, r)
  else if votes < electionQuorum peers then (.lost, r)
  else
    (.won, { r with
      role := .leader
      leaderID := r.nodeID
      isReady := true
      lastLeaderContact := now })

/-- The heartbeat that a leader sends. -/
def heartbeatRequest : Option LeaderHeartbeatRequest :=
  if r.role = .leader then
    some { term := r.term, version := r.version, leaderID := r.nodeID }
  else none

/-- The response of a peer to a heartbeat sent in the term `sentTerm`; a failed call
    gives the term `0`. -/
def heartbeatReply (now : Time) (sentTerm : ℕ) (peerID : String) (peerTerm : ℕ) : ReplicaState :=
  if peerTerm = 0 then r
  else if peerTerm > sentTerm then
    { r with
      term := max r.term peerTerm
      role := if r.role = .leader then .follower else r.role }
  else { r with peerLastContact := r.peerLastContact.insert peerID now }

variable {r} {r' : ReplicaState}

theorem electionBegin_eq_some {now : Time} {req : VoteRequest}
    (h : r.electionBegin now = some (r', req)) :
    r' = { r with
        term := Counter.next r.term
        votedFor := r.nodeID
        votedForTerm := Counter.next r.term
        lastLeaderContact := now } ∧
      req = { term := Counter.next r.term, candidateID := r.nodeID, version := r.version } := by
  rw [electionBegin] at h
  split_ifs at h
  cases h
  exact ⟨rfl, rfl⟩

/-- An election moves the replica forward, unless its term is the last one. -/
theorem evolves_electionBegin {now : Time} {req : VoteRequest} (hmax : r.term ≠ Counter.max)
    (h : r.electionBegin now = some (r', req)) : Evolves r r' := by
  obtain ⟨rfl, -⟩ := electionBegin_eq_some h
  exact ⟨rfl, rfl, rfl, (Counter.lt_next_iff.2 hmax).le⟩

theorem keepsVote_higherTerm (r : ReplicaState) (term : ℕ) : KeepsVote r (r.higherTerm term) :=
  ⟨⟨rfl, rfl, rfl, le_max_left _ _⟩, rfl, rfl⟩

/-- A replica wins only in its own term, with enough votes. -/
theorem electionFinish_won {now : Time} {peers : List String} {candidateTerm votes : ℕ}
    (h : r.electionFinish now peers candidateTerm votes = (.won, r')) :
    r.term = candidateTerm ∧ electionQuorum peers ≤ votes := by
  rw [electionFinish] at h
  split_ifs at h with hterm hvotes
  · cases h
  · cases h
  · exact ⟨by_contra fun hne => hterm (.inl hne), not_lt.1 hvotes⟩

theorem keepsVote_electionFinish (r : ReplicaState) (now : Time) (peers : List String)
    (candidateTerm votes : ℕ) : KeepsVote r (r.electionFinish now peers candidateTerm votes).2 := by
  rw [electionFinish]
  split_ifs
  · exact .refl r
  · exact .refl r
  · exact ⟨⟨rfl, rfl, rfl, le_rfl⟩, rfl, rfl⟩

theorem keepsVote_heartbeatReply (r : ReplicaState) (now : Time) (sentTerm : ℕ) (peerID : String)
    (peerTerm : ℕ) : KeepsVote r (r.heartbeatReply now sentTerm peerID peerTerm) := by
  rw [heartbeatReply]
  split_ifs
  · exact .refl r
  · exact ⟨⟨rfl, rfl, rfl, le_max_left _ _⟩, rfl, rfl⟩
  · exact ⟨⟨rfl, rfl, rfl, le_max_left _ _⟩, rfl, rfl⟩
  · exact ⟨⟨rfl, rfl, rfl, le_rfl⟩, rfl, rfl⟩

theorem sameContents_electionBegin {now : Time} {req : VoteRequest}
    (h : r.electionBegin now = some (r', req)) : SameContents r r' := by
  obtain ⟨rfl, -⟩ := electionBegin_eq_some h
  exact ⟨rfl, rfl, List.Subset.refl _⟩

theorem sameContents_higherTerm (r : ReplicaState) (term : ℕ) :
    SameContents r (r.higherTerm term) :=
  ⟨rfl, rfl, List.Subset.refl _⟩

theorem sameContents_electionFinish (r : ReplicaState) (now : Time) (peers : List String)
    (candidateTerm votes : ℕ) :
    SameContents r (r.electionFinish now peers candidateTerm votes).2 := by
  rw [electionFinish]
  split_ifs <;> exact ⟨rfl, rfl, List.Subset.refl _⟩

theorem sameContents_heartbeatReply (r : ReplicaState) (now : Time) (sentTerm : ℕ)
    (peerID : String) (peerTerm : ℕ) :
    SameContents r (r.heartbeatReply now sentTerm peerID peerTerm) := by
  rw [heartbeatReply]
  split_ifs <;> exact ⟨rfl, rfl, List.Subset.refl _⟩

end ReplicaState

/-! ## The record of the votes -/

/-- A vote that a replica has given: the term, the candidate, and the version
    the candidate had. -/
structure Vote where
  term : ℕ
  candidate : String
  version : ℕ
  deriving DecidableEq, Repr

/-- The vote that a granted request asks for. -/
def VoteRequest.vote (req : VoteRequest) : Vote :=
  { term := req.term, candidate := req.candidateID, version := req.version }

/-- The replica `r` has given the votes `votes`: what it remembers keeps it from
    voting for two candidates in a term. -/
structure Ledger (r : ReplicaState) (votes : List Vote) : Prop where
  term_le : ∀ v ∈ votes, v.term ≤ r.term
  current : ∀ v ∈ votes, v.term = r.term → r.votedForTerm = v.term ∧ r.votedFor = v.candidate
  named : ∀ v ∈ votes, v.candidate ≠ ""
  unique : ∀ v ∈ votes, ∀ w ∈ votes, v.term = w.term → v.candidate = w.candidate

namespace Ledger

variable {r r' : ReplicaState} {votes : List Vote}

/-- A replica that has never voted. -/
theorem nil (r : ReplicaState) : Ledger r [] := ⟨by simp, by simp, by simp, by simp⟩

/-- A later state with the same vote. -/
theorem keep (h : Ledger r votes) (hk : KeepsVote r r') : Ledger r' votes where
  term_le v hv := (h.term_le v hv).trans hk.term_le
  current v hv ht := by
    -- A vote of the current term is one of the term before, which is the same.
    have hle := h.term_le v hv
    have := hk.term_le
    rw [hk.votedForTerm, hk.votedFor]
    exact h.current v hv (by omega)
  named := h.named
  unique := h.unique

/-- A newer term, with no vote in it. -/
theorem newer (h : Ledger r votes) (hlt : r.term < r'.term) : Ledger r' votes where
  term_le v hv := (h.term_le v hv).trans hlt.le
  current v hv ht := by
    have := h.term_le v hv
    omega
  named := h.named
  unique := h.unique

/-- A new vote, in the current term, of a replica that has not voted for another
    candidate in this term. -/
theorem cons {v : Vote} (h : Ledger r votes) (hterm : v.term = r.term) (hnamed : v.candidate ≠ "")
    (hfor : r'.votedForTerm = v.term ∧ r'.votedFor = v.candidate) (hr' : r'.term = r.term)
    (hsame : ∀ w ∈ votes, w.term = r.term → w.candidate = v.candidate) :
    Ledger r' (v :: votes) where
  term_le w hw := by
    rcases List.mem_cons.1 hw with rfl | hw
    · omega
    · exact hr' ▸ h.term_le w hw
  current w hw ht := by
    rcases List.mem_cons.1 hw with rfl | hw
    · exact hfor
    · have hwr : w.term = r.term := ht.trans hr'
      exact ⟨by omega, hfor.2.trans (hsame w hw hwr).symm⟩
  named := List.forall_mem_cons.2 ⟨hnamed, h.named⟩
  unique w hw x hx ht := by
    rcases List.mem_cons.1 hw with rfl | hw' <;> rcases List.mem_cons.1 hx with rfl | hx'
    · rfl
    · exact (hsame x hx' (ht.symm.trans hterm)).symm
    · exact hsame w hw' (ht.trans hterm)
    · exact h.unique w hw' x hx' ht

/-- Handling a request for a vote, granted or not. -/
theorem requestVote {now : Time} {req : VoteRequest} {resp : VoteResponse} (h : Ledger r votes)
    (hcand : req.candidateID ≠ "") (hreq : r.requestVote now req = (r', resp)) :
    Ledger r' (if resp.voteGranted then req.vote :: votes else votes) := by
  have hobserve : r.term ≤ req.term → Ledger (r.observeVote req.term) votes := fun hle => by
    rcases r.observeVote_eq req.term with ⟨-, heq⟩ | ⟨hlt, heq⟩ <;> rw [heq]
    · exact h
    · exact h.newer hlt
  rcases ReplicaState.requestVote_cases hreq with
    ⟨-, rfl, hresp⟩ | ⟨hle, rfl, hresp⟩ | ⟨hle, -, hvoted, rfl, hresp⟩
  · rw [hresp]
    exact h
  · rw [hresp]
    exact hobserve hle
  · rw [if_pos hresp]
    refine (hobserve hle).cons ?_ hcand ⟨rfl, rfl⟩ rfl fun w hw ht => ?_
    · rcases r.observeVote_eq req.term with ⟨hge, heq⟩ | ⟨-, heq⟩ <;> rw [heq]
      · exact le_antisymm hge hle
      · rfl
    · rcases r.observeVote_eq req.term with ⟨hge, heq⟩ | ⟨hlt, heq⟩ <;> rw [heq] at ht
      · -- The term is the one the replica was in: its vote in it is remembered.
        obtain ⟨hterm, hfor⟩ := h.current w hw ht
        rw [← hfor]
        exact hvoted (le_antisymm hle hge) (by omega) (hfor ▸ h.named w hw)
      · have := h.term_le w hw
        have : w.term = req.term := ht
        omega

/-- The vote of a candidate for itself, whose term is not the last one. -/
theorem electionBegin {now : Time} {req : VoteRequest} (h : Ledger r votes) (hid : r.nodeID ≠ "")
    (hmax : r.term ≠ Counter.max) (hbegin : r.electionBegin now = some (r', req)) :
    Ledger r' (req.vote :: votes) := by
  obtain ⟨rfl, rfl⟩ := ReplicaState.electionBegin_eq_some hbegin
  have hlt := Counter.lt_next_iff.2 hmax
  have hnewer : Ledger { r with term := Counter.next r.term } votes := h.newer hlt
  refine hnewer.cons rfl hid ⟨rfl, rfl⟩ rfl fun w hw ht => ?_
  have hle := h.term_le w hw
  have : w.term = Counter.next r.term := ht
  omega

end Ledger

end Doki
