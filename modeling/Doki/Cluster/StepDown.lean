import Doki.Cluster.Basic

/-!
# Stepping down

A leader that is told of a newer term has been replaced, and is to step down. It is told
by the requests of its peers, and by their responses to its own: to a request for a vote,
to a heartbeat, and to the entry of a write. The last of these is not looked at. Of the
response to `Replicate`, the leader takes only whether it is a success
(`sendReplicateRequest`), and goes on as the leader of its old term.

A response is compared with the term of the request that it answers. The replica may be
in an older term than that by now, when it has installed a snapshot.

* `ReplicaState.follows_replicate` and so on: the handlers of the requests take over a
  newer term and follow;
* `Cluster.message`: the message that a step of the cluster processes;
* `Cluster.demoted_iff_noticed`: a leader steps down exactly for a request of a newer
  term, and for a response to a request for a vote or to a heartbeat whose term is newer
  than that of what it answers;
* `Cluster.still_leading`: a deposed leader that has heard of the newer term from both of
  its peers, and goes on.
-/

namespace Doki

open Runs

namespace ReplicaState

/-- The replica does not lead in the term `t` any more, and has come to the term `term`. -/
def Demoted (t term : ℕ) (r : ReplicaState) : Prop :=
  ¬(r.role = .leader ∧ r.term = t) ∧ term ≤ r.term

instance (t term : ℕ) (r : ReplicaState) : Decidable (r.Demoted t term) :=
  inferInstanceAs (Decidable (_ ∧ _))

variable {r r' : ReplicaState} {t term : ℕ}

theorem demoted_of_follower (hrole : r.role = .follower) (hterm : term ≤ r.term) :
    r.Demoted t term :=
  ⟨fun h => Role.noConfusion (hrole.symm.trans h.1), hterm⟩

/-- A leader that a message has not changed is not demoted. -/
theorem not_demoted (hrole : r'.role = .leader) (hterm : r'.term = t) : ¬r'.Demoted t term :=
  fun h => h.1 ⟨hrole, hterm⟩

theorem observe_newer (h : r.term < term) :
    r.observe term = { r with term := term, role := .follower } :=
  if_pos h

/-- An entry of a newer term makes a follower, whatever becomes of the entry. -/
theorem follows_replicate {req : Entry} (h : r.term < req.term) (now : Time) (walOk : Bool) :
    (r.replicate now req walOk).1.role = .follower ∧
      (r.replicate now req walOk).1.term = req.term := by
  cases hreplicate : r.replicate now req walOk with
  | mk r' reply =>
    have hnewer := observe_newer h
    rcases replicate_cases hreplicate with
      ⟨hlt, -, -⟩ | ⟨-, -, rfl, -⟩ | ⟨-, -, -, rfl, -⟩ | ⟨-, -, ⟨ds, rfl⟩, -⟩ |
        ⟨-, -, -, ⟨ds, rfl⟩, -⟩
    · exact absurd hlt h.asymm
    all_goals
      rw [hnewer]
      exact ⟨rfl, rfl⟩

/-- A candidate of a newer term makes a follower, whether it gets the vote or not. -/
theorem follows_requestVote {req : VoteRequest} (h : r.term < req.term) (now : Time) :
    (r.requestVote now req).1.role = .follower ∧ (r.requestVote now req).1.term = req.term := by
  have hnewer : r.observeVote req.term =
      { r with term := req.term, votedFor := "", votedForTerm := 0, role := .follower } :=
    if_pos h
  simp only [requestVote]
  rw [if_neg h.asymm, hnewer]
  split_ifs <;> exact ⟨rfl, rfl⟩

/-- A leader of a newer term makes a follower. -/
theorem follows_leaderHeartbeat {req : LeaderHeartbeatRequest} (h : r.term < req.term)
    (now : Time) :
    (r.leaderHeartbeat now req).1.role = .follower ∧
      (r.leaderHeartbeat now req).1.term = req.term := by
  simp only [leaderHeartbeat]
  rw [if_neg h.asymm, observe_newer h]
  exact ⟨rfl, rfl⟩

/-- A leader steps down for a response to its heartbeat exactly if the term is newer than
    that of the heartbeat. -/
theorem demoted_heartbeatReply_iff (hleader : r.role = .leader) {peerTerm : ℕ}
    (h : r.term < peerTerm) (now : Time) (sentTerm : ℕ) (peerID : String) :
    (r.heartbeatReply now sentTerm peerID peerTerm).Demoted r.term peerTerm ↔
      sentTerm < peerTerm := by
  rw [heartbeatReply, if_neg (by omega)]
  split_ifs with hsent
  · exact iff_of_true (demoted_of_follower rfl (le_max_right _ _)) hsent
  · exact iff_of_false (not_demoted hleader rfl) hsent

end ReplicaState

/-- What a message is. -/
inductive MessageKind
  | request
  /-- A response to a request for a vote or to a heartbeat of the term `sent`. -/
  | response (sent : ℕ)
  /-- A response to the entry of a write. -/
  | writeResponse
  deriving DecidableEq, Repr

/-- A message with a term, to the node `receiver`. -/
structure Message where
  kind : MessageKind
  receiver : String
  term : ℕ
  deriving DecidableEq, Repr

/-- The receiver looks at the term: it does so for every message except a response to the
    entry of a write, and compares that of another response with the term that it had
    asked in. -/
def Message.Noticed (m : Message) : Prop :=
  match m.kind with
  | .request => True
  | .response sent => sent < m.term
  | .writeResponse => False

namespace Cluster

/-- The message that a step processes, if it carries a term. -/
def message (c : Cluster) : Action → Option Message
  | .requestVote k p _ => (c.elections[k]?).map fun e => ⟨.request, p, e.req.term⟩
  | .voteReply k _ resp =>
    (c.elections[k]?).map fun e => ⟨.response e.req.term, e.candidate, resp.term⟩
  | .leaderHeartbeat k p _ => (c.heartbeats[k]?).map fun b => ⟨.request, p, b.req.term⟩
  | .heartbeatReply k _ term _ =>
    (c.heartbeats[k]?).map fun b => ⟨.response b.req.term, b.leader, term⟩
  | .replicate k p _ _ =>
    (c.writes[k]?).bind fun w => w.sent.map fun s => ⟨.request, p, s.entry.term⟩
  | .replicateReply k _ (.response resp) =>
    (c.writes[k]?).map fun w => ⟨.writeResponse, w.leader, resp.term⟩
  | _ => none

variable {c c' : Cluster} {a : Action} {m : Message}

/-- A leader that processes a message of a newer term stops leading in its old term, and
    comes to the newer one, exactly if it looks at the term of the message. -/
theorem demoted_iff_noticed (hmessage : c.message a = some m) (hstep : c.step a = some c')
    (hleader : (c.nodes m.receiver).replica.role = .leader)
    (hterm : (c.nodes m.receiver).replica.term < m.term) :
    (c'.nodes m.receiver).replica.Demoted (c.nodes m.receiver).replica.term m.term ↔
      m.Noticed := by
  cases a with
  | requestVote k p now =>
    obtain ⟨e, r, resp, fan, he, hvote, -, rfl⟩ := step_requestVote hstep
    obtain ⟨e', he', rfl⟩ := Option.map_eq_some_iff.1 hmessage
    obtain rfl := Option.some.inj (he.symm.trans he')
    have hfollows := ReplicaState.follows_requestVote hterm now
    rw [hvote] at hfollows
    simp only [voted, Function.update_self]
    exact iff_of_true (ReplicaState.demoted_of_follower hfollows.1 hfollows.2.ge) trivial
  | voteReply k p resp =>
    obtain ⟨e, fan, he, -, -, hc'⟩ := step_voteReply hstep
    obtain ⟨e', he', rfl⟩ := Option.map_eq_some_iff.1 hmessage
    obtain rfl := Option.some.inj (he.symm.trans he')
    rcases hc' with ⟨hnewer, rfl⟩ | ⟨hle, rfl⟩
    · simp only [setElection, setReplica, Function.update_self]
      exact iff_of_true (ReplicaState.demoted_of_follower rfl (le_max_right _ _)) hnewer
    · exact iff_of_false (ReplicaState.not_demoted hleader rfl) hle.not_gt
  | leaderHeartbeat k p now =>
    obtain ⟨b, bs, hb, rfl⟩ := step_leaderHeartbeat hstep
    obtain ⟨b', hb', rfl⟩ := Option.map_eq_some_iff.1 hmessage
    obtain rfl := Option.some.inj (hb.symm.trans hb')
    have hfollows := ReplicaState.follows_leaderHeartbeat hterm now
    simp only [setReplica, Function.update_self]
    exact iff_of_true (ReplicaState.demoted_of_follower hfollows.1 hfollows.2.ge) trivial
  | heartbeatReply k p term now =>
    obtain ⟨b, bs, hb, rfl⟩ := step_heartbeatReply hstep
    obtain ⟨b', hb', rfl⟩ := Option.map_eq_some_iff.1 hmessage
    obtain rfl := Option.some.inj (hb.symm.trans hb')
    simp only [setReplica, Function.update_self]
    exact ReplicaState.demoted_heartbeatReply_iff hleader hterm now b.req.term p
  | replicate k p now walOk =>
    obtain ⟨w, s, fan, hw, hs, -, rfl⟩ := step_replicate hstep
    obtain ⟨w', hw', hmessage⟩ := Option.bind_eq_some_iff.1 hmessage
    obtain ⟨s', hs', rfl⟩ := Option.map_eq_some_iff.1 hmessage
    obtain rfl := Option.some.inj (hw.symm.trans hw')
    obtain rfl := Option.some.inj (hs.symm.trans hs')
    have hfollows := ReplicaState.follows_replicate hterm now walOk
    rw [nodes_setWrite, nodes_track_self]
    exact iff_of_true (ReplicaState.demoted_of_follower hfollows.1 hfollows.2.ge) trivial
  | replicateReply k p reply =>
    -- The response is recorded with the write, and the replica is not touched.
    obtain ⟨w, s, fan, hw, -, -, -, rfl⟩ := step_replicateReply hstep
    cases reply with
    | error e => cases hmessage
    | response resp =>
      obtain ⟨w', hw', rfl⟩ := Option.map_eq_some_iff.1 hmessage
      exact iff_of_false (ReplicaState.not_demoted hleader rfl) not_false
  | _ => cases hmessage

/-- The leader `a` steps down when the candidate `b` asks it for its vote. -/
theorem demoted_iff_noticed_requestVote :
    ∃ c c', exec step exampleCluster [.electionBegin "b" 0] = some c ∧
      c.step (.requestVote 0 "a" 0) = some c' ∧ (c'.nodes "a").replica.Demoted 0 1 := by
  obtain ⟨c, c', hc, hstep, hmessage, hleader, hterm⟩ :
      ∃ c c', exec step exampleCluster [.electionBegin "b" 0] = some c ∧
        c.step (.requestVote 0 "a" 0) = some c' ∧
        c.message (.requestVote 0 "a" 0) = some ⟨.request, "a", 1⟩ ∧
        (c.nodes "a").replica.role = .leader ∧ (c.nodes "a").replica.term = 0 :=
    ⟨_, _, rfl, rfl, rfl, rfl, rfl⟩
  have hiff := demoted_iff_noticed hmessage hstep hleader (hterm.trans_lt Nat.one_pos)
  rw [hterm] at hiff
  exact ⟨c, c', hc, hstep, hiff.2 trivial⟩

/-- The nodes `b` and `c` are in the term 1, and `a` sends them a write of the term 0. -/
def deposedRun : List Action :=
  [.electionBegin "b" 0, .requestVote 0 "c" 0, .writeStart "a" (examplePut "v") 0, .writePlan 0,
    .replicate 0 "b" 0 true, .replicate 0 "c" 0 true]

/-- The response of `b` does not demote `a`. When the whole write has failed, `a` is still a
    leader of the term 0, and ready. -/
theorem still_leading :
    ∃ c c' c'', exec step exampleCluster deposedRun = some c ∧
      c.message (.replicateReply 0 "b" (.response ⟨false, 1⟩)) = some ⟨.writeResponse, "a", 1⟩ ∧
      (c.nodes "a").replica.role = .leader ∧ (c.nodes "a").replica.term = 0 ∧
      c.step (.replicateReply 0 "b" (.response ⟨false, 1⟩)) = some c' ∧
      ¬(c'.nodes "a").replica.Demoted 0 1 ∧
      exec step c' [.replicateReply 0 "c" (.response ⟨false, 1⟩), .writeFinish 0 true []] =
        some c'' ∧
      (c''.nodes "a").replica.role = .leader ∧ (c''.nodes "a").replica.term = 0 ∧
      (c''.nodes "a").replica.isReady = true :=
  ⟨_, _, _, rfl, rfl, rfl, rfl, rfl, by decide, rfl, rfl, rfl, rfl⟩

end Cluster

end Doki
