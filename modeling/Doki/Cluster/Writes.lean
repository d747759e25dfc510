import Doki.Cluster.Progress

/-!
# Writes in a cluster

What a step does to the writes under way and to the contents of the nodes
(`WriteStep`): seven cases where the step function has nineteen, as most steps
touch neither. The invariants of writes are shown over these cases.

* `Cluster.writeStep`: every step but those of the recovery loop is one of them;
* `Cluster.writeOk_step`: a write is sent to peers of its leader, and needs the
  acknowledgements of half of those in its plan;
* `SendingOk.majority`: a write that is planned over all peers and has enough
  acknowledgements has those of a majority, its leader's included.
-/

namespace Doki

open Faulty Majority

/-- The node `n'` has applied what `n` has. -/
structure NodeStill (n n' : Node) : Prop where
  replica : SameContents n.replica n'.replica
  history : n'.history = n.history

namespace NodeStill

theorem refl (n : Node) : NodeStill n n := ⟨.refl _, rfl⟩

/-- One node of several has changed, but not what it has applied. -/
theorem update {nodes : String → Node} {p : String} {n : Node} (h : NodeStill (nodes p) n)
    (i : String) : NodeStill (nodes i) (Function.update nodes p n i) :=
  (Function.forall_update_iff nodes fun i n' => NodeStill (nodes i) n').2 ⟨h, fun _ _ => .refl _⟩ i

end NodeStill

namespace Cluster

/-- What a step does to the writes, and to the contents of the nodes. -/
inductive WriteStep (c : Cluster) : Action → Cluster → Prop
  | other {a : Action} {c' : Cluster} (hwrites : c'.writes = c.writes)
      (hnodes : ∀ i, NodeStill (c.nodes i) (c'.nodes i)) : WriteStep c a c'
  | started {i : String} {req : KVRequest} {now : Time} (hi : i ∈ c.ids)
      (hcheck : (c.nodes i).replica.leaderWriteCheck (c.nodes i).view = .ok ()) :
      WriteStep c (.writeStart i req now) { c with
        writes := c.writes ++
          [{ leader := i, req := req, now := now, sent := none, result := none,
             recovering := [] }] }
  | planned {k : ℕ} {w : Write} (hw : c.writes[k]? = some w) (hsent : w.sent = none)
      (hpos : 0 < ((c.nodes w.leader).replica.nextEntry w.req).version) :
      WriteStep c (.writePlan k) (c.setWrite k { w with
        sent := some
          { entry := (c.nodes w.leader).replica.nextEntry w.req
            version_pos := hpos
            plan := (c.nodes w.leader).replica.planWrite (c.nodes w.leader).view w.now
            fan := .start
              ((c.nodes w.leader).replica.planWrite (c.nodes w.leader).view w.now).livePeers.keys }
        })
  | replicated {k : ℕ} {p : String} {now : Time} {walOk : Bool} {w : Write} {s : Sending}
      {fan : FanOut String ReplicateReply} (hw : c.writes[k]? = some w) (hs : w.sent = some s)
      (hfan : s.fan.handle p ((c.nodes p).replica.replicate now s.entry walOk).2 = some fan) :
      WriteStep c (.replicate k p now walOk)
        ((c.track p s.entry ((c.nodes p).replica.replicate now s.entry walOk).1).setWrite k
          { w with sent := some { s with fan := fan } })
  | answered {a : Action} {k : ℕ} {w : Write} {s : Sending} {fan : FanOut String ReplicateReply}
      (hw : c.writes[k]? = some w) (hs : w.sent = some s) (hres : w.result = none)
      (htargets : fan.targets = s.fan.targets) (hhandled : fan.handled = s.fan.handled) :
      WriteStep c a (c.setWrite k { w with sent := some { s with fan := fan } })
  | finished {k : ℕ} {walOk : Bool} {fates : List Fate} {w : Write} {s : Sending}
      {res : Except WriteError WriteResult} {r : ReplicaState} {ps : List String}
      (hw : c.writes[k]? = some w) (hs : w.sent = some s) (hres : w.result = none)
      (hfinish : (c.nodes w.leader).replica.finishWrite w.now s.entry s.plan s.acked walOk fates =
        (res, r)) :
      WriteStep c (.writeFinish k walOk fates) ((c.track w.leader s.entry r).setWrite k
        { w with result := some res, recovering := ps })
  | forced {k : ℕ} {p : String} {now : Time} {w : Write} {ps : List String}
      (hw : c.writes[k]? = some w) :
      WriteStep c (.forceRecover k p now)
        ((c.setReplica p ((c.nodes p).replica.forceRecover now)).setWrite k
          { w with recovering := ps })

variable {c c' : Cluster}

/-- Every step but those of the recovery loop is one of the cases. -/
theorem writeStep {a : Action} (ha : a.recovers = false) (h : c.step a = some c') :
    WriteStep c a c' := by
  cases a with
  | electionBegin i now =>
    obtain ⟨r, req, -, -, hbegin, rfl⟩ := step_electionBegin h
    exact .other rfl (NodeStill.update ⟨ReplicaState.sameContents_electionBegin hbegin, rfl⟩)
  | requestVote k p now =>
    obtain ⟨e, r, resp, fan, -, hreq, -, rfl⟩ := step_requestVote h
    have hsame := (c.nodes p).replica.sameContents_requestVote now e.req
    rw [hreq] at hsame
    exact .other rfl (NodeStill.update ⟨hsame, rfl⟩)
  | voteReply k p resp =>
    obtain ⟨e, fan, -, -, -, ⟨-, rfl⟩ | ⟨-, rfl⟩⟩ := step_voteReply h
    · exact .other rfl (NodeStill.update ⟨ReplicaState.sameContents_higherTerm _ _, rfl⟩)
    · exact .other rfl fun i => .refl _
  | voteLost k p =>
    obtain ⟨e, fan, -, -, -, rfl⟩ := step_voteLost h
    exact .other rfl fun i => .refl _
  | electionFinish k now =>
    obtain ⟨e, res, r, -, -, hfinish, rfl⟩ := step_electionFinish h
    have hsame := (c.nodes e.candidate).replica.sameContents_electionFinish now e.peers e.req.term
      e.votes
    rw [hfinish] at hsame
    exact .other rfl (NodeStill.update ⟨hsame, rfl⟩)
  | heartbeatSend i =>
    obtain ⟨b, rfl⟩ := step_heartbeatSend h
    exact .other rfl fun i => .refl _
  | leaderHeartbeat k p now =>
    obtain ⟨b, bs, -, rfl⟩ := step_leaderHeartbeat h
    exact .other rfl (NodeStill.update ⟨ReplicaState.sameContents_leaderHeartbeat _ _ _, rfl⟩)
  | heartbeatReply k p term now =>
    obtain ⟨b, bs, -, rfl⟩ := step_heartbeatReply h
    exact .other rfl (NodeStill.update ⟨ReplicaState.sameContents_heartbeatReply _ _ _ _ _, rfl⟩)
  | writeStart i req now =>
    obtain ⟨hi, hcheck, rfl⟩ := step_writeStart h
    exact .started hi hcheck
  | writePlan k =>
    obtain ⟨w, hpos, hw, hsent, rfl⟩ := step_writePlan h
    exact .planned hw hsent hpos
  | replicate k p now walOk =>
    obtain ⟨w, s, fan, hw, hs, hfan, rfl⟩ := step_replicate h
    exact .replicated hw hs hfan
  | replicateReply k p reply =>
    obtain ⟨w, s, fan, hw, hs, hres, hfan, rfl⟩ := step_replicateReply h
    obtain ⟨-, htargets, hhandled, -⟩ := FanOut.of_receive hfan
    exact .answered hw hs hres htargets hhandled
  | replicateLost k p =>
    obtain ⟨w, s, fan, hw, hs, hres, hfan, rfl⟩ := step_replicateLost h
    obtain ⟨htargets, hhandled, -⟩ := FanOut.of_fail hfan
    exact .answered hw hs hres htargets hhandled
  | writeFinish k walOk fates =>
    obtain ⟨w, s, res, r, ps, hw, hs, hres, hfinish, rfl⟩ := step_writeFinish h
    exact .finished hw hs hres hfinish
  | forceRecover k p now =>
    obtain ⟨w, ps, hw, rfl⟩ := step_forceRecover h
    exact .forced hw
  | recoverBegin | recoverServe | recoverApply | recoverLost =>
    exact absurd ha (by simp [Action.recovers])

end Cluster

/-! ## The plans of writes -/

/-- What holds of an entry under way: it goes to the live peers of the plan, which
    are among the other nodes, and needs half of them. -/
structure SendingOk (ids : List String) (leader : String) (s : Sending) : Prop where
  targets : s.fan.targets = s.plan.livePeers.keys
  peers : ∀ p ∈ s.fan.targets, p ∈ ids ∧ p ≠ leader
  needed : s.plan.neededFollowers = (s.plan.livePeers.keys.card + 1) / 2

/-- What holds of a write at any time. -/
structure WriteOk (ids : List String) (w : Write) : Prop where
  leader : w.leader ∈ ids
  sent : ∀ s, w.sent = some s → SendingOk ids w.leader s
  unsent : w.sent = none → w.result = none

section

variable {ids : List String} {nodes : String → Node} {w : Write} {s : Sending}

/-- The plan of a leader. -/
theorem sendingOk_plan {leader : String} (hconf : Configured ids nodes) (hi : leader ∈ ids)
    {e : Entry} (hpos : 0 < e.version) (now : Time) :
    SendingOk ids leader
      { entry := e
        version_pos := hpos
        plan := (nodes leader).replica.planWrite (nodes leader).view now
        fan := .start
          ((nodes leader).replica.planWrite (nodes leader).view now).livePeers.keys } where
  targets := rfl
  peers _ hp := hconf.of_mem_peers hi (ReplicaState.mem_peers_of_live (Finmap.mem_keys.1 hp))
  needed := planQuorum_neededFollowers _ _ _ _

/-- The responses that come in change neither the plan nor the peers. -/
theorem SendingOk.setFan {leader : String} (h : SendingOk ids leader s)
    {fan : FanOut String ReplicateReply} (htargets : fan.targets = s.fan.targets) :
    SendingOk ids leader { s with fan := fan } where
  targets := htargets.trans h.targets
  peers p hp := h.peers p (htargets ▸ hp)
  needed := h.needed

theorem WriteOk.setFan (h : WriteOk ids w) (hs : w.sent = some s)
    {fan : FanOut String ReplicateReply} (htargets : fan.targets = s.fan.targets) :
    WriteOk ids { w with sent := some { s with fan := fan } } where
  leader := h.leader
  sent s' hs' := by
    obtain rfl := Option.some.inj hs'
    exact (h.sent s hs).setFan htargets
  unsent hs' := by cases hs'

/-- A write planned over all peers that has enough acknowledgements has those of a
    majority, its leader's included. -/
theorem SendingOk.majority {leader : String} (h : SendingOk ids leader s) (hnodup : ids.Nodup)
    (hi : leader ∈ ids) (hfull : ∀ p ∈ ids, p ≠ leader → p ∈ s.plan.livePeers)
    (hneeded : s.plan.neededFollowers ≤ s.acked.length) :
    IsMajority ids.toFinset (insert leader s.acked.toFinset) := by
  refine isMajority_insert hnodup hi (s.fan.nodup_successes _)
    (fun p hp => h.peers p (s.fan.successes_subset _ p hp)) (le_trans ?_ hneeded)
  -- All peers are live ones, so that half of these is half of the replicas.
  have hsub : (ids.filter (· ≠ leader)).toFinset ⊆ s.plan.livePeers.keys := by
    intro p hp
    rw [List.mem_toFinset, List.mem_filter] at hp
    exact Finmap.mem_keys.2 (hfull p hp.1 (by simpa using hp.2))
  have hcard := Finset.card_le_card hsub
  rw [List.toFinset_card_of_nodup (hnodup.filter _)] at hcard
  have hlen := length_peers hnodup hi
  rw [h.needed]
  omega

end

namespace Cluster

variable {c c' : Cluster}

/-- The step lemma for the plans. -/
theorem writeOk_step {a : Action} (hconf : Configured c.ids c.nodes)
    (h : ∀ w ∈ c.writes, WriteOk c.ids w) (hstep : c.WriteStep a c') :
    ∀ w ∈ c'.writes, WriteOk c.ids w := by
  cases hstep with
  | other hwrites hnodes => exact hwrites ▸ h
  | started hi hcheck =>
    intro w hw
    rcases List.mem_append.1 hw with hw | hw
    · exact h w hw
    · obtain rfl := List.mem_singleton.1 hw
      exact ⟨hi, fun s hs => absurd hs (by simp), fun _ => rfl⟩
  | planned hw hsent hpos =>
    have hok := h _ (List.mem_of_getElem? hw)
    refine List.forall_mem_set h ⟨hok.leader, fun s hs => ?_, fun hs => absurd hs (by simp)⟩
    obtain rfl := Option.some.inj hs
    exact sendingOk_plan hconf hok.leader hpos _
  | replicated hw hs hfan =>
    obtain ⟨-, -, htargets, -⟩ := FanOut.of_handle hfan
    exact List.forall_mem_set h ((h _ (List.mem_of_getElem? hw)).setFan hs htargets)
  | answered hw hs hres htargets hhandled =>
    exact List.forall_mem_set h ((h _ (List.mem_of_getElem? hw)).setFan hs htargets)
  | finished hw hs hres hfinish =>
    have hok := h _ (List.mem_of_getElem? hw)
    exact List.forall_mem_set h
      ⟨hok.leader, hok.sent, fun hs' => absurd (hs.symm.trans hs') (by simp)⟩
  | forced hw =>
    have hok := h _ (List.mem_of_getElem? hw)
    exact List.forall_mem_set h ⟨hok.leader, hok.sent, hok.unsent⟩

/-- The invariant of the plans. -/
structure Planned (c : Cluster) : Prop where
  configured : Configured c.ids c.nodes
  writes : ∀ w ∈ c.writes, WriteOk c.ids w

theorem planned_step (c : Cluster) (a : Action) (c' : Cluster) (h : c.Planned)
    (ha : a.recovers = false) (hstep : c.step a = some c') : c'.Planned := by
  obtain ⟨hids, -, hl⟩ := step_later ha hstep
  exact ⟨hids ▸ h.configured.later hl,
    hids ▸ writeOk_step h.configured h.writes (writeStep ha hstep)⟩

theorem Start.planned (h : c.Start) : c.Planned :=
  ⟨h.configured, fun w hw => absurd hw (by simp [h.writes])⟩

end Cluster

end Doki
