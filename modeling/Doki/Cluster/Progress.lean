import Doki.Cluster.Basic
import Doki.Lib.Lists
import Doki.Lib.Majority

/-!
# What a cluster does not take back

As long as no replica recovers, the steps of a cluster only move its nodes
forward (`step_later`): terms and versions do not decrease, no applied entry and
no vote is undone. A node also remains who it is, with the peers that the shard
map gave it (`Configured`), so that majorities of the replica set can be counted
from the side of any of them (`isMajority_insert`).
-/

namespace Doki

open Majority

/-- The steps of the recovery loop. -/
def Action.recovers : Action → Bool
  | .recoverBegin _ _ _ | .recoverServe _ | .recoverApply _ _ _ | .recoverLost _ => true
  | _ => false

/-- The node `n'` is a later state of `n`. -/
structure NodeLater (n n' : Node) : Prop where
  view : n'.view = n.view
  evolves : Evolves n.replica n'.replica
  version_le : n.replica.version ≤ n'.replica.version
  votes : n.votes ⊆ n'.votes
  history : n.history <+: n'.history

namespace NodeLater

variable {n : Node} {r : ReplicaState}

theorem refl (n : Node) : NodeLater n n :=
  ⟨rfl, .refl _, le_rfl, List.Subset.refl _, List.prefix_rfl⟩

theorem setReplica (h : Evolves n.replica r) (hsame : SameContents n.replica r) :
    NodeLater n { n with replica := r } :=
  ⟨rfl, h, hsame.version_le, List.Subset.refl _, List.prefix_rfl⟩

theorem track (h : Evolves n.replica r) (hversion : n.replica.version ≤ r.version) (e : Entry) :
    NodeLater n (n.track e r) := by
  refine ⟨rfl, h, hversion, List.Subset.refl _, ?_⟩
  simp only [Node.track]
  split_ifs
  · exact List.prefix_rfl
  · exact List.prefix_append _ _

/-- One node of several has moved on. -/
theorem update {nodes : String → Node} {p : String} {n : Node} (h : NodeLater (nodes p) n)
    (i : String) : NodeLater (nodes i) (Function.update nodes p n i) :=
  (Function.forall_update_iff nodes fun i n' => NodeLater (nodes i) n').2 ⟨h, fun _ _ => .refl _⟩ i

end NodeLater

namespace Cluster

variable {c c' : Cluster}

/-- Without recoveries, no step takes anything back. -/
theorem step_later {a : Action} (ha : a.recovers = false) (h : c.step a = some c') :
    c'.ids = c.ids ∧ c'.recoveries = c.recoveries ∧
      ∀ i, NodeLater (c.nodes i) (c'.nodes i) := by
  cases a with
  | electionBegin i now =>
    obtain ⟨r, req, -, hmax, hbegin, rfl⟩ := step_electionBegin h
    refine ⟨rfl, rfl, NodeLater.update ⟨rfl, ReplicaState.evolves_electionBegin hmax hbegin,
      (ReplicaState.sameContents_electionBegin hbegin).version_le, ?_, ?_⟩⟩
    · exact List.subset_cons_self _ _
    · exact List.prefix_rfl
  | requestVote k p now =>
    obtain ⟨e, r, resp, fan, -, hreq, -, rfl⟩ := step_requestVote h
    have hevolves := (c.nodes p).replica.evolves_requestVote now e.req
    have hsame := (c.nodes p).replica.sameContents_requestVote now e.req
    rw [hreq] at hevolves hsame
    refine ⟨rfl, rfl, NodeLater.update ⟨rfl, hevolves, hsame.version_le, ?_, List.prefix_rfl⟩⟩
    simp only
    split_ifs
    · exact List.subset_cons_self _ _
    · exact List.Subset.refl _
  | voteReply k p resp =>
    obtain ⟨e, fan, -, -, -, ⟨-, rfl⟩ | ⟨-, rfl⟩⟩ := step_voteReply h
    · exact ⟨rfl, rfl, NodeLater.update
        (.setReplica (ReplicaState.keepsVote_higherTerm _ _).toEvolves
          (ReplicaState.sameContents_higherTerm _ _))⟩
    · exact ⟨rfl, rfl, fun i => .refl _⟩
  | voteLost k p =>
    obtain ⟨e, fan, -, -, -, rfl⟩ := step_voteLost h
    exact ⟨rfl, rfl, fun i => .refl _⟩
  | electionFinish k now =>
    obtain ⟨e, res, r, -, -, hfinish, rfl⟩ := step_electionFinish h
    have hkeeps := (c.nodes e.candidate).replica.keepsVote_electionFinish now e.peers e.req.term
      e.votes
    have hsame := (c.nodes e.candidate).replica.sameContents_electionFinish now e.peers e.req.term
      e.votes
    rw [hfinish] at hkeeps hsame
    exact ⟨rfl, rfl, NodeLater.update (.setReplica hkeeps.toEvolves hsame)⟩
  | heartbeatSend i =>
    obtain ⟨b, rfl⟩ := step_heartbeatSend h
    exact ⟨rfl, rfl, fun i => .refl _⟩
  | leaderHeartbeat k p now =>
    obtain ⟨b, bs, -, rfl⟩ := step_leaderHeartbeat h
    exact ⟨rfl, rfl, NodeLater.update
      (.setReplica (ReplicaState.keepsVote_leaderHeartbeat _ _ _).toEvolves
        (ReplicaState.sameContents_leaderHeartbeat _ _ _))⟩
  | heartbeatReply k p term now =>
    obtain ⟨b, bs, -, rfl⟩ := step_heartbeatReply h
    exact ⟨rfl, rfl, NodeLater.update
      (.setReplica (ReplicaState.keepsVote_heartbeatReply _ _ _ _ _).toEvolves
        (ReplicaState.sameContents_heartbeatReply _ _ _ _ _))⟩
  | writeStart i req now =>
    obtain ⟨-, -, rfl⟩ := step_writeStart h
    exact ⟨rfl, rfl, fun i => .refl _⟩
  | writePlan k =>
    obtain ⟨w, -, -, -, rfl⟩ := step_writePlan h
    exact ⟨rfl, rfl, fun i => .refl _⟩
  | replicate k p now walOk =>
    obtain ⟨w, s, fan, -, -, -, rfl⟩ := step_replicate h
    exact ⟨rfl, rfl, NodeLater.update
      (.track (ReplicaState.keepsVote_replicate _ _ _ _).toEvolves
        (ReplicaState.version_le_replicate _ _ _ _) _)⟩
  | replicateReply k p reply =>
    obtain ⟨w, s, fan, -, -, -, -, rfl⟩ := step_replicateReply h
    exact ⟨rfl, rfl, fun i => .refl _⟩
  | replicateLost k p =>
    obtain ⟨w, s, fan, -, -, -, -, rfl⟩ := step_replicateLost h
    exact ⟨rfl, rfl, fun i => .refl _⟩
  | writeFinish k walOk fates =>
    obtain ⟨w, s, res, r, ps, -, -, -, hfinish, rfl⟩ := step_writeFinish h
    have hkeeps := (c.nodes w.leader).replica.keepsVote_finishWrite w.now s.entry s.plan s.acked
      walOk fates
    rw [hfinish] at hkeeps
    exact ⟨rfl, rfl, NodeLater.update (.track hkeeps.toEvolves
      (ReplicaState.version_le_finishWrite s.version_pos hfinish) _)⟩
  | forceRecover k p now =>
    obtain ⟨w, ps, -, rfl⟩ := step_forceRecover h
    exact ⟨rfl, rfl, NodeLater.update
      (.setReplica (ReplicaState.keepsVote_setLagging _ _).toEvolves
        (ReplicaState.sameContents_setLagging _ _))⟩
  | recoverBegin | recoverServe | recoverApply | recoverLost =>
    exact absurd ha (by simp [Action.recovers])

end Cluster

/-! ## The replica set -/

/-- Every node knows who it is, and that its peers are the others. -/
structure Configured (ids : List String) (nodes : String → Node) : Prop where
  nodeID : ∀ i ∈ ids, (nodes i).replica.nodeID = i
  peers : ∀ i ∈ ids, (nodes i).replica.peers = ids.filter (· ≠ i)

theorem Configured.later {ids : List String} {nodes nodes' : String → Node}
    (h : Configured ids nodes) (hl : ∀ i, NodeLater (nodes i) (nodes' i)) :
    Configured ids nodes' where
  nodeID i hi := (hl i).evolves.nodeID.trans (h.nodeID i hi)
  peers i hi := (hl i).evolves.peers.trans (h.peers i hi)

/-- The peers of a node are the other nodes. -/
theorem Configured.of_mem_peers {ids : List String} {nodes : String → Node}
    (h : Configured ids nodes) {i p : String} (hi : i ∈ ids) (hp : p ∈ (nodes i).replica.peers) :
    p ∈ ids ∧ p ≠ i := by
  rw [h.peers i hi, List.mem_filter] at hp
  simpa using hp

/-- A replica and its peers are all replicas. -/
theorem length_peers {ids : List String} (hnodup : ids.Nodup) {i : String} (hi : i ∈ ids) :
    (ids.filter (· ≠ i)).length + 1 = ids.length := by
  have h := List.length_erase_add_one hi
  rwa [hnodup.erase_eq_filter, show (fun x => x != i) = fun x => decide (x ≠ i) by
    ext x; by_cases hx : x = i <;> simp [hx]] at h

/-- A replica and half of the others are a majority. -/
theorem isMajority_insert {ids : List String} (hnodup : ids.Nodup) {i : String} (hi : i ∈ ids)
    {A : List String} (hA : A.Nodup) (hsub : ∀ p ∈ A, p ∈ ids ∧ p ≠ i)
    (hlen : ids.length / 2 ≤ A.length) :
    IsMajority ids.toFinset (insert i A.toFinset) where
  subset := by
    intro p hp
    rw [List.mem_toFinset]
    rcases Finset.mem_insert.1 hp with rfl | hp
    · exact hi
    · exact (hsub p (List.mem_toFinset.1 hp)).1
  card_le := by
    rw [Finset.card_insert_of_notMem fun h => (hsub i (List.mem_toFinset.1 h)).2 rfl,
      List.toFinset_card_of_nodup hA, List.toFinset_card_of_nodup hnodup]
    omega

/-- Where the runs start: the members have non-empty IDs and the others as their
    peers, and nothing has happened yet. Their terms, and their votes from
    before, may be anything, the term 0 and no vote among them. -/
structure Cluster.Start (c : Cluster) : Prop where
  named : ∀ i ∈ c.ids, i ≠ ""
  configured : Configured c.ids c.nodes
  votes : ∀ i ∈ c.ids, (c.nodes i).votes = []
  elections : c.elections = []
  heartbeats : c.heartbeats = []
  writes : c.writes = []
  recoveries : c.recoveries = []

/-- The example starts as runs do. -/
theorem start_exampleCluster : exampleCluster.Start where
  named := by decide
  configured := ⟨by decide, by decide⟩
  votes := by decide
  elections := rfl
  heartbeats := rfl
  writes := rfl
  recoveries := rfl

end Doki
