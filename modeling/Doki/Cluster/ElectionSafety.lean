import Doki.Cluster.Progress

/-!
# Election safety

At most one replica wins the election of a term. The votes of a replica are
recorded faithfully (`Ledger`), so that no two of a term are for different
candidates. Every vote that a candidate counts is one of them
(`ElectionOk.granted`), by a different replica each, and a win takes a majority
(`ElectionOk.won`). Two majorities share a replica, which has voted once.

* `Cluster.electionStep`: what a step does to the elections and the votes. While a
  candidate counts, the other handlers may move its term and those of the voters,
  but they leave the votes alone;
* `Cluster.electionInv_step`: the invariant is kept by every step;
* `Cluster.unique_winner`: at most one replica wins in a term, in every run.
-/

namespace Doki

open Majority Runs

/-- The node `n'` is a later state of `n`, and has not voted since. -/
structure NodeAbstains (n n' : Node) : Prop where
  replica : KeepsVote n.replica n'.replica
  votes : n'.votes = n.votes

namespace NodeAbstains

theorem refl (n : Node) : NodeAbstains n n := ⟨.refl _, rfl⟩

/-- One node of several has moved on, without voting. -/
theorem update {nodes : String → Node} {p : String} {n : Node} (h : NodeAbstains (nodes p) n)
    (i : String) : NodeAbstains (nodes i) (Function.update nodes p n i) :=
  (Function.forall_update_iff nodes fun i n' => NodeAbstains (nodes i) n').2
    ⟨h, fun _ _ => .refl _⟩ i

end NodeAbstains

namespace Cluster

/-- What a step does to the elections, and to the votes of the nodes. -/
inductive ElectionStep (c : Cluster) : Action → Cluster → Prop
  | other {a : Action} {c' : Cluster} (helections : c'.elections = c.elections)
      (hnodes : ∀ i, NodeAbstains (c.nodes i) (c'.nodes i)) : ElectionStep c a c'
  | begun {i : String} {now : Time} {r : ReplicaState} {req : VoteRequest} (hi : i ∈ c.ids)
      (hmax : (c.nodes i).replica.term ≠ Counter.max)
      (hbegin : (c.nodes i).replica.electionBegin now = some (r, req)) :
      ElectionStep c (.electionBegin i now) (c.electionBegin i r req)
  | voted {k : ℕ} {p : String} {now : Time} {e : Election} {r : ReplicaState}
      {resp : VoteResponse} {fan : FanOut String VoteResponse} (he : c.elections[k]? = some e)
      (hreq : (c.nodes p).replica.requestVote now e.req = (r, resp))
      (hfan : e.fan.handle p resp = some fan) :
      ElectionStep c (.requestVote k p now) (c.voted k e p fan r resp.voteGranted)
  | answered {a : Action} {c' : Cluster} {k : ℕ} {e : Election}
      {fan : FanOut String VoteResponse} {res : Option ElectionResult}
      (he : c.elections[k]? = some e) (htargets : fan.targets = e.fan.targets)
      (hhandled : fan.handled = e.fan.handled) (hres : res ≠ some .won)
      (helections : c'.elections = c.elections.set k { e with fan := fan, result := res })
      (hnodes : ∀ i, NodeAbstains (c.nodes i) (c'.nodes i)) : ElectionStep c a c'
  | finished {k : ℕ} {now : Time} {e : Election} {res : ElectionResult} {r : ReplicaState}
      (he : c.elections[k]? = some e)
      (hfinish : (c.nodes e.candidate).replica.electionFinish now e.peers e.req.term e.votes =
        (res, r)) :
      ElectionStep c (.electionFinish k now)
        ((c.setReplica e.candidate r).setElection k { e with result := some res })

variable {c c' : Cluster}

/-- Every step but those of the recovery loop is one of the cases. -/
theorem electionStep {a : Action} (ha : a.recovers = false) (h : c.step a = some c') :
    ElectionStep c a c' := by
  cases a with
  | electionBegin i now =>
    obtain ⟨r, req, hi, hmax, hbegin, rfl⟩ := step_electionBegin h
    exact .begun hi hmax hbegin
  | requestVote k p now =>
    obtain ⟨e, r, resp, fan, he, hreq, hfan, rfl⟩ := step_requestVote h
    exact .voted he hreq hfan
  | voteReply k p resp =>
    obtain ⟨e, fan, he, hres, hfan, ⟨-, rfl⟩ | ⟨-, rfl⟩⟩ := step_voteReply h
    all_goals obtain ⟨-, htargets, hhandled, -⟩ := FanOut.of_receive hfan
    · exact .answered he htargets hhandled (by simp) rfl
        (NodeAbstains.update ⟨ReplicaState.keepsVote_higherTerm _ _, rfl⟩)
    · exact .answered he htargets hhandled (by simp [hres]) rfl fun i => .refl _
  | voteLost k p =>
    obtain ⟨e, fan, he, hres, hfan, rfl⟩ := step_voteLost h
    obtain ⟨htargets, hhandled, -⟩ := FanOut.of_fail hfan
    exact .answered he htargets hhandled (by simp [hres]) rfl fun i => .refl _
  | electionFinish k now =>
    obtain ⟨e, res, r, he, -, hfinish, rfl⟩ := step_electionFinish h
    exact .finished he hfinish
  | heartbeatSend i =>
    obtain ⟨b, rfl⟩ := step_heartbeatSend h
    exact .other rfl fun i => .refl _
  | leaderHeartbeat k p now =>
    obtain ⟨b, bs, -, rfl⟩ := step_leaderHeartbeat h
    exact .other rfl (NodeAbstains.update ⟨ReplicaState.keepsVote_leaderHeartbeat _ _ _, rfl⟩)
  | heartbeatReply k p term now =>
    obtain ⟨b, bs, -, rfl⟩ := step_heartbeatReply h
    exact .other rfl (NodeAbstains.update ⟨ReplicaState.keepsVote_heartbeatReply _ _ _ _ _, rfl⟩)
  | writeStart i req now =>
    obtain ⟨-, -, rfl⟩ := step_writeStart h
    exact .other rfl fun i => .refl _
  | writePlan k =>
    obtain ⟨w, -, -, -, rfl⟩ := step_writePlan h
    exact .other rfl fun i => .refl _
  | replicate k p now walOk =>
    obtain ⟨w, s, fan, -, -, -, rfl⟩ := step_replicate h
    exact .other rfl (NodeAbstains.update ⟨ReplicaState.keepsVote_replicate _ _ _ _, rfl⟩)
  | replicateReply k p reply =>
    obtain ⟨w, s, fan, -, -, -, -, rfl⟩ := step_replicateReply h
    exact .other rfl fun i => .refl _
  | replicateLost k p =>
    obtain ⟨w, s, fan, -, -, -, -, rfl⟩ := step_replicateLost h
    exact .other rfl fun i => .refl _
  | writeFinish k walOk fates =>
    obtain ⟨w, s, res, r, ps, -, -, -, hfinish, rfl⟩ := step_writeFinish h
    have hkeeps := (c.nodes w.leader).replica.keepsVote_finishWrite w.now s.entry s.plan s.acked
      walOk fates
    rw [hfinish] at hkeeps
    exact .other rfl (NodeAbstains.update ⟨hkeeps, rfl⟩)
  | forceRecover k p now =>
    obtain ⟨w, ps, -, rfl⟩ := step_forceRecover h
    exact .other rfl (NodeAbstains.update ⟨ReplicaState.keepsVote_setLagging _ _, rfl⟩)
  | recoverBegin | recoverServe | recoverApply | recoverLost =>
    exact absurd ha (by simp [Action.recovers])

end Cluster

/-! ## The invariant -/

/-- What holds of an election at any time. -/
structure ElectionOk (ids : List String) (nodes : String → Node) (e : Election) : Prop where
  candidate : e.candidate ∈ ids
  candidateID : e.req.candidateID = e.candidate
  peers : e.peers = ids.filter (· ≠ e.candidate)
  targets : ∀ p ∈ e.fan.targets, p ∈ ids ∧ p ≠ e.candidate
  /-- The candidate has voted for itself. -/
  own : e.req.vote ∈ (nodes e.candidate).votes
  /-- A replica that has answered with a vote has given it. -/
  granted : ∀ p resp, (p, resp) ∈ e.fan.handled → resp.voteGranted = true →
    e.req.vote ∈ (nodes p).votes
  /-- A majority has voted for the winner. -/
  won : e.result = some .won →
    ∃ Q, IsMajority ids.toFinset Q ∧ ∀ p ∈ Q, e.req.vote ∈ (nodes p).votes

/-- The invariant of the elections. -/
structure ElectionInv (ids : List String) (nodes : String → Node) (elections : List Election) :
    Prop where
  named : ∀ i ∈ ids, i ≠ ""
  configured : Configured ids nodes
  ledger : ∀ i ∈ ids, Ledger (nodes i).replica (nodes i).votes
  elections : ∀ e ∈ elections, ElectionOk ids nodes e

section

variable {ids : List String} {nodes nodes' : String → Node} {e : Election}
  {elections : List Election}

/-- No vote is taken back. -/
theorem ElectionOk.later (h : ElectionOk ids nodes e) (hl : ∀ i, NodeLater (nodes i) (nodes' i)) :
    ElectionOk ids nodes' e where
  candidate := h.candidate
  candidateID := h.candidateID
  peers := h.peers
  targets := h.targets
  own := (hl _).votes h.own
  granted p resp hp hg := (hl p).votes (h.granted p resp hp hg)
  won hw := by
    obtain ⟨Q, hQ, hvotes⟩ := h.won hw
    exact ⟨Q, hQ, fun p hp => (hl p).votes (hvotes p hp)⟩

namespace ElectionInv

/-- The nodes have moved on without voting. -/
theorem keep (h : ElectionInv ids nodes elections)
    (hl : ∀ i, NodeLater (nodes i) (nodes' i)) (hk : ∀ i, NodeAbstains (nodes i) (nodes' i)) :
    ElectionInv ids nodes' elections where
  named := h.named
  configured := h.configured.later hl
  ledger i hi := (hk i).votes ▸ (h.ledger i hi).keep (hk i).replica
  elections e he := (h.elections e he).later hl

/-- An election has changed. -/
theorem setElection (h : ElectionInv ids nodes elections) (k : ℕ) (he : ElectionOk ids nodes e) :
    ElectionInv ids nodes (elections.set k e) where
  named := h.named
  configured := h.configured
  ledger := h.ledger
  elections := List.forall_mem_set h.elections he

end ElectionInv

/-- Receiving a response, or failing to, changes nothing that has been handled. -/
theorem ElectionOk.setFan (h : ElectionOk ids nodes e) {fan : FanOut String VoteResponse}
    (htargets : fan.targets = e.fan.targets) (hhandled : fan.handled = e.fan.handled)
    {res : Option ElectionResult} (hres : res ≠ some .won) :
    ElectionOk ids nodes { e with fan := fan, result := res } where
  candidate := h.candidate
  candidateID := h.candidateID
  peers := h.peers
  targets p hp := h.targets p (htargets ▸ hp)
  own := h.own
  granted p resp hp hg := h.granted p resp (hhandled ▸ hp) hg
  won hw := absurd hw hres

/-- The votes of a winner are those of a majority. -/
theorem ElectionOk.majority (h : ElectionOk ids nodes e) (hnodup : ids.Nodup)
    (hvotes : electionQuorum e.peers ≤ e.votes) :
    ∃ Q, IsMajority ids.toFinset Q ∧ ∀ p ∈ Q, e.req.vote ∈ (nodes p).votes := by
  refine ⟨insert e.candidate (e.fan.successes (·.voteGranted)).toFinset, ?_, fun p hp => ?_⟩
  · refine isMajority_insert hnodup h.candidate (e.fan.nodup_successes _)
      (fun p hp => h.targets p (e.fan.successes_subset _ p hp)) ?_
    have hlen := length_peers hnodup h.candidate
    rw [electionQuorum, h.peers, hlen, Election.votes] at hvotes
    omega
  · rcases Finset.mem_insert.1 hp with rfl | hp
    · exact h.own
    · obtain ⟨resp, hresp, hgranted⟩ := FanOut.handled_of_success (List.mem_toFinset.1 hp)
      exact h.granted p resp hresp hgranted

end

namespace Cluster

variable {c c' : Cluster}

/-- The known peers of a node are among the others. -/
theorem targets_subset (hconf : Configured c.ids c.nodes) {i : String} (hi : i ∈ c.ids) :
    ∀ p ∈ c.targets i, p ∈ c.ids ∧ p ≠ i := by
  intro p hp
  exact hconf.of_mem_peers hi (View.mem_of_mem_peerAddrs (Finmap.mem_keys.1 hp))

/-- A new election. -/
theorem electionInv_begin {i : String} {now : Time} {r : ReplicaState} {req : VoteRequest}
    (h : ElectionInv c.ids c.nodes c.elections) (hi : i ∈ c.ids)
    (hmax : (c.nodes i).replica.term ≠ Counter.max)
    (hbegin : (c.nodes i).replica.electionBegin now = some (r, req))
    (hl : ∀ j, NodeLater (c.nodes j) ((c.electionBegin i r req).nodes j)) :
    ElectionInv c.ids (c.electionBegin i r req).nodes (c.electionBegin i r req).elections where
  named := h.named
  configured := h.configured.later hl
  ledger j hj := by
    by_cases hji : j = i
    · subst hji
      simp only [electionBegin, Function.update_self]
      exact (h.ledger j hj).electionBegin ((h.configured.nodeID j hj).symm ▸ h.named j hj)
        hmax hbegin
    · simp only [electionBegin, Function.update_of_ne hji]
      exact h.ledger j hj
  elections e he := by
    rcases List.mem_append.1 he with he | he
    · exact (h.elections e he).later hl
    · obtain rfl := List.mem_singleton.1 he
      obtain ⟨-, rfl⟩ := ReplicaState.electionBegin_eq_some hbegin
      exact
        { candidate := hi
          candidateID := h.configured.nodeID i hi
          peers := h.configured.peers i hi
          targets := targets_subset h.configured hi
          own := by simp [electionBegin]
          granted := fun p resp hp => absurd hp (by simp [FanOut.start])
          won := fun hw => absurd hw (by simp) }

/-- A request for a vote is handled. -/
theorem electionInv_voted {k : ℕ} {p : String} {now : Time} {e : Election} {r : ReplicaState}
    {resp : VoteResponse} {fan : FanOut String VoteResponse}
    (h : ElectionInv c.ids c.nodes c.elections) (he : c.elections[k]? = some e)
    (hreq : (c.nodes p).replica.requestVote now e.req = (r, resp))
    (hfan : e.fan.handle p resp = some fan)
    (hl : ∀ j, NodeLater (c.nodes j) ((c.voted k e p fan r resp.voteGranted).nodes j)) :
    ElectionInv c.ids (c.voted k e p fan r resp.voteGranted).nodes
      (c.voted k e p fan r resp.voteGranted).elections := by
  have hok := h.elections e (List.mem_of_getElem? he)
  have hcand : e.req.candidateID ≠ "" := hok.candidateID ▸ h.named _ hok.candidate
  have hinv : ElectionInv c.ids (c.voted k e p fan r resp.voteGranted).nodes c.elections :=
    { named := h.named
      configured := h.configured.later hl
      ledger := fun j hj => by
        by_cases hjp : j = p
        · subst hjp
          simp only [voted, Function.update_self]
          exact (h.ledger j hj).requestVote hcand hreq
        · simp only [voted, Function.update_of_ne hjp]
          exact h.ledger j hj
      elections := fun e' he' => (h.elections e' he').later hl }
  obtain ⟨-, -, htargets, hhandled, -⟩ := FanOut.of_handle hfan
  have hok' := hok.later hl
  refine hinv.setElection k ⟨hok'.candidate, hok'.candidateID, hok'.peers,
    htargets ▸ hok'.targets, hok'.own, fun q resp' hq hg => ?_, hok'.won⟩
  rw [hhandled] at hq
  rcases List.mem_cons.1 hq with heq | hq
  · -- The response just given, with the vote recorded in the same step.
    obtain ⟨rfl, rfl⟩ := Prod.mk.inj heq
    simp [voted, hg]
  · exact hok'.granted q resp' hq hg

/-- The step lemma: every step keeps the invariant. -/
theorem electionInv_step (c : Cluster) (a : Action) (c' : Cluster)
    (h : ElectionInv c.ids c.nodes c.elections) (ha : a.recovers = false)
    (hstep : c.step a = some c') :
    ElectionInv c'.ids c'.nodes c'.elections := by
  obtain ⟨hids, -, hl⟩ := step_later ha hstep
  cases electionStep ha hstep with
  | other helections hnodes =>
    rw [hids, helections]
    exact h.keep hl hnodes
  | begun hi hmax hbegin => exact electionInv_begin h hi hmax hbegin hl
  | voted he hreq hfan => exact electionInv_voted h he hreq hfan hl
  | answered he htargets hhandled hres helections hnodes =>
    rw [hids, helections]
    have hok := h.elections _ (List.mem_of_getElem? he)
    exact (h.keep hl hnodes).setElection _ ((hok.later hl).setFan htargets hhandled hres)
  | @finished k now e res r he hfinish =>
    have hok := h.elections e (List.mem_of_getElem? he)
    have hkeeps := (c.nodes e.candidate).replica.keepsVote_electionFinish now e.peers e.req.term
      e.votes
    rw [hfinish] at hkeeps
    have hok' := hok.later hl
    refine (h.keep hl (NodeAbstains.update ⟨hkeeps, rfl⟩)).setElection k ⟨hok'.candidate,
      hok'.candidateID, hok'.peers, hok'.targets, hok'.own, hok'.granted, fun hw => ?_⟩
    -- The tally counts distinct replicas, and all of them have voted.
    obtain rfl := Option.some.inj hw
    obtain ⟨-, hvotes⟩ := ReplicaState.electionFinish_won hfinish
    obtain ⟨Q, hQ, hgranted⟩ := hok.majority c.nodup_ids hvotes
    exact ⟨Q, hQ, fun p hp => (hl p).votes (hgranted p hp)⟩

theorem Start.electionInv (h : c.Start) : ElectionInv c.ids c.nodes c.elections where
  named := h.named
  configured := h.configured
  ledger i hi := h.votes i hi ▸ Ledger.nil _
  elections e he := absurd he (by simp [h.elections])

/-- The run lemma: the invariant holds in every state that is reached. -/
theorem electionInv_exec {as : List Action} (hstart : c.Start)
    (hC : ∀ a ∈ as, a.recovers = false) (h : exec step c as = some c') :
    ElectionInv c'.ids c'.nodes c'.elections :=
  invariant electionInv_step hstart.electionInv (.of_forall_mem hC) h

/-- At most one replica wins the election of a term. -/
theorem unique_winner (hstart : c.Start) (as : List Action)
    (hC : ∀ a ∈ as, a.recovers = false) (h : exec step c as = some c') {e e' : Election}
    (he : e ∈ c'.elections)
    (he' : e' ∈ c'.elections) (hw : e.result = some .won) (hw' : e'.result = some .won)
    (hterm : e.req.term = e'.req.term) : e.candidate = e'.candidate := by
  have hinv := electionInv_exec hstart hC h
  have hok := hinv.elections e he
  have hok' := hinv.elections e' he'
  obtain ⟨Q, hQ, hvotes⟩ := hok.won hw
  obtain ⟨Q', hQ', hvotes'⟩ := hok'.won hw'
  -- The two majorities share a replica, which has given one vote in this term.
  obtain ⟨p, hp, hp'⟩ := hQ.exists_common hQ'
  have hpid := List.mem_toFinset.1 (hQ.subset hp)
  have := (hinv.ledger p hpid).unique _ (hvotes p hp) _ (hvotes' p hp') hterm
  rwa [VoteRequest.vote, VoteRequest.vote, hok.candidateID, hok'.candidateID] at this

end Cluster

/-- Two candidates of a term, and a replica that both ask. -/
def contestedRun : List Action :=
  [.electionBegin "b" 0, .electionBegin "c" 0, .requestVote 0 "a" 0, .requestVote 1 "a" 0,
    .voteReply 0 "a" ⟨1, true⟩, .voteLost 0 "c", .voteReply 1 "a" ⟨1, false⟩, .voteLost 1 "b",
    .electionFinish 0 0, .electionFinish 1 0]

/-- The first of the two wins, and nobody else does. -/
theorem Cluster.unique_winner_contestedRun :
    ∃ c e, exec Cluster.step exampleCluster contestedRun = some c ∧ c.elections[0]? = some e ∧
      e.candidate = "b" ∧ e.req.term = 1 ∧ e.result = some .won ∧
      ∀ e' ∈ c.elections, e'.result = some .won → e'.req.term = 1 → e'.candidate = "b" :=
  ⟨_, _, rfl, rfl, rfl, rfl, rfl, fun _ he' hw' hterm =>
    Cluster.unique_winner start_exampleCluster contestedRun (by decide) rfl he'
      List.mem_cons_self hw' rfl hterm⟩

end Doki
