import Doki.Lib.FanOut
import Doki.Lib.Runs
import Doki.Node.Recovery
import Doki.Node.Server
import Doki.Node.Write

/-!
# A cluster

The replicas of one shard on a fixed set of nodes, and everything that is under
way between them: elections, heartbeats, writes and recoveries. The nodes take
steps in any order, and every message may be delayed or lost.

Calls that are not atomic in the source take several steps here: a write checks
(`writeStart`), plans (`writePlan`), is handled by the peers one by one
(`replicate`), collects their responses, and ends (`writeFinish`); an election
likewise. A request may be handled long after its sender has given up: the
calls stay on record when they have ended.

Two things are recorded for the proofs, and read by no step: the entries that a
replica has applied (`Node.history`) and the votes it has given (`Node.votes`).

Terms and versions do not wrap around in these runs: an election begins only before the
last term, and a write is planned only before the last version. A cluster does not get
there on its own, as each takes 2⁶⁴ elections or writes.

* `Cluster.step`: the step function;
* `Cluster.step_electionBegin` and so on: what every step does, the only place where
  the step function is unfolded.
-/

namespace Doki

open Faulty

/-- A node of the cluster: its replica and what it knows of the other nodes. -/
structure Node where
  view : View
  replica : ReplicaState
  /-- The entries that the replica has applied, in order. -/
  history : List Entry
  /-- The votes that the replica has given. -/
  votes : List Vote

/-- The node with another state of its replica, which has applied `e` if its version
    has changed. -/
def Node.track (n : Node) (e : Entry) (r : ReplicaState) : Node :=
  { n with
    replica := r
    history := if r.version = n.replica.version then n.history else n.history ++ [e] }

/-- An election under way, or over. -/
structure Election where
  candidate : String
  req : VoteRequest
  /-- The peers of the candidate when it began. -/
  peers : List String
  fan : FanOut String VoteResponse
  /-- How it has ended, if it has. -/
  result : Option ElectionResult

/-- A round of heartbeats. -/
structure Heartbeat where
  leader : String
  req : LeaderHeartbeatRequest
  fan : FanOut String ℕ

/-- The entry of a write, on its way to the peers of the plan. Its version has not wrapped
    around. -/
structure Sending where
  entry : Entry
  version_pos : 0 < entry.version
  plan : QuorumInfo
  fan : FanOut String ReplicateReply

/-- A write under way, or over. -/
structure Write where
  leader : String
  req : KVRequest
  /-- When the call began. -/
  now : Time
  /-- What is sent, once it is planned. -/
  sent : Option Sending
  /-- How it has ended, if it has. -/
  result : Option (Except WriteError WriteResult)
  /-- The peers that are asked to recover, after a write without a quorum. -/
  recovering : List String

/-- The entry of a write that has been acknowledged to the client as successful. -/
def Write.acknowledged (w : Write) : Option Entry :=
  match w.result with
  | some (.ok _) => w.sent.map (·.entry)
  | _ => none

/-- A recovery of `follower` from the node `source`. -/
structure Recovery where
  follower : String
  source : String
  sinceVersion : ℕ
  /-- The source that the status of the follower shows. -/
  status : String
  /-- The response, with what its sender had applied. -/
  response : Option (RecoverResponse × List Entry)
  finished : Bool

/-- The replicas of a shard, and what is under way between them. -/
structure Cluster where
  /-- The nodes that host the shard. -/
  ids : List String
  nodup_ids : ids.Nodup
  nodes : String → Node
  elections : List Election
  heartbeats : List Heartbeat
  writes : List Write
  recoveries : List Recovery

/-- What can happen in a cluster. A call is named by its index. -/
inductive Action
  | electionBegin (i : String) (now : Time)
  | requestVote (k : ℕ) (p : String) (now : Time)
  | voteReply (k : ℕ) (p : String) (resp : VoteResponse)
  | voteLost (k : ℕ) (p : String)
  | electionFinish (k : ℕ) (now : Time)
  | heartbeatSend (i : String)
  | leaderHeartbeat (k : ℕ) (p : String) (now : Time)
  | heartbeatReply (k : ℕ) (p : String) (term : ℕ) (now : Time)
  | writeStart (i : String) (req : KVRequest) (now : Time)
  | writePlan (k : ℕ)
  | replicate (k : ℕ) (p : String) (now : Time) (walOk : Bool)
  | replicateReply (k : ℕ) (p : String) (reply : ReplicateReply)
  | replicateLost (k : ℕ) (p : String)
  | writeFinish (k : ℕ) (walOk : Bool) (fates : List Fate)
  | forceRecover (k : ℕ) (p : String) (now : Time)
  | recoverBegin (p q : String) (leaderAddr : String)
  | recoverServe (k : ℕ)
  | recoverApply (k : ℕ) (walOk : ℕ → Bool) (fates : List Fate)
  | recoverLost (k : ℕ)

namespace Cluster

variable (c : Cluster)

/-- The cluster with another state of the replica of `i`. -/
def setReplica (i : String) (r : ReplicaState) : Cluster :=
  { c with nodes := Function.update c.nodes i { c.nodes i with replica := r } }

/-- The known peers of `i`. -/
def targets (i : String) : Finset String :=
  ((c.nodes i).view.peerAddrs (c.nodes i).replica.peers).keys

/-- The vote of a candidate for itself, and the requests to its peers. -/
def electionBegin (i : String) (r : ReplicaState) (req : VoteRequest) : Cluster :=
  { c with
    nodes := Function.update c.nodes i
      { c.nodes i with replica := r, votes := req.vote :: (c.nodes i).votes }
    elections := c.elections ++
      [{ candidate := i
         req := req
         peers := (c.nodes i).replica.peers
         fan := .start (c.targets i)
         result := none }] }

/-- The peer `p` has handled the request of the election `e`. -/
def voted (k : ℕ) (e : Election) (p : String) (fan : FanOut String VoteResponse)
    (r : ReplicaState) (granted : Bool) : Cluster :=
  { c with
    nodes := Function.update c.nodes p
      { c.nodes p with
        replica := r
        votes := if granted then e.req.vote :: (c.nodes p).votes else (c.nodes p).votes }
    elections := c.elections.set k { e with fan := fan } }

/-- The election `k` has changed. -/
def setElection (k : ℕ) (e : Election) : Cluster := { c with elections := c.elections.set k e }

/-- The write `k` has changed. -/
def setWrite (k : ℕ) (w : Write) : Cluster := { c with writes := c.writes.set k w }

/-- The replica of `i` has come to `r`, by applying `e` if its version has changed. -/
def track (i : String) (e : Entry) (r : ReplicaState) : Cluster :=
  { c with nodes := Function.update c.nodes i ((c.nodes i).track e r) }

@[simp] theorem nodes_setWrite (k : ℕ) (w : Write) : (c.setWrite k w).nodes = c.nodes := rfl

@[simp] theorem nodes_track_self (i : String) (e : Entry) (r : ReplicaState) :
    (c.track i e r).nodes i = (c.nodes i).track e r :=
  Function.update_self _ _ _

/-- No write of `i` is under way: writes of a leader are made one after the other. -/
def idle (i : String) : Bool := c.writes.all fun w => w.leader != i || w.result.isSome

/-- No recovery of `p` is under way: the recovery loop makes one attempt after the
    other. -/
def settled (p : String) : Bool := c.recoveries.all fun x => x.follower != p || x.finished

/-- The recovery `x` has failed. -/
def recoverFailed (k : ℕ) (x : Recovery) : Cluster :=
  { c.setReplica x.follower ((c.nodes x.follower).replica.recoveryFailed x.status) with
    recoveries := c.recoveries.set k { x with finished := true } }

end Cluster

/-- The votes of an election, with the candidate's own. -/
def Election.votes (e : Election) : ℕ := 1 + (e.fan.successes (·.voteGranted)).length

/-- The peers that have acknowledged a write. -/
def Sending.acked (s : Sending) : List String := s.fan.successes (·.acked)

/-- What a replica has applied after it has installed a response. -/
def Node.recoveredHistory (n : Node) (walOk : ℕ → Bool) :
    RecoverResponse × List Entry → List Entry
  | (.entries _ es, _) => n.history ++ ReplicaState.takenEntries walOk n.replica es
  | (.snapshot _, h) => h

/-- The replica of a node after it has installed a response; a failed attempt leaves
    it lagging. -/
def Node.recover (n : Node) (walOk : ℕ → Bool) (fates : List Fate) (status : String)
    (resp : RecoverResponse × List Entry) : Node :=
  let (o, r) := n.replica.doIncrementalRecovery resp.1 walOk fates
  { n with
    replica := match o with
      | .done _ => r
      | _ => r.recoveryFailed status
    history := n.recoveredHistory walOk resp }

namespace Cluster

/-- One step of the cluster. -/
def step (c : Cluster) : Action → Option Cluster
  | .electionBegin i now =>
    if i ∈ c.ids ∧ (c.nodes i).replica.term ≠ Counter.max then
      ((c.nodes i).replica.electionBegin now).map fun x => c.electionBegin i x.1 x.2
    else none
  | .requestVote k p now =>
    (c.elections[k]?).bind fun e =>
      let x := (c.nodes p).replica.requestVote now e.req
      (e.fan.handle p x.2).map fun fan => c.voted k e p fan x.1 x.2.voteGranted
  | .voteReply k p resp =>
    (c.elections[k]?).bind fun e =>
      if e.result.isSome then none
      else (e.fan.receive p resp).map fun fan =>
        -- The candidate gives up at the first response of a newer term.
        if resp.term > e.req.term then
          (c.setReplica e.candidate
            ((c.nodes e.candidate).replica.higherTerm resp.term)).setElection k
              { e with fan := fan, result := some .superseded }
        else c.setElection k { e with fan := fan }
  | .voteLost k p =>
    (c.elections[k]?).bind fun e =>
      if e.result.isSome then none
      else (e.fan.fail p).map fun fan => c.setElection k { e with fan := fan }
  | .electionFinish k now =>
    (c.elections[k]?).bind fun e =>
      if e.result.isSome ∨ e.fan.complete = false then none
      else
        let x := (c.nodes e.candidate).replica.electionFinish now e.peers e.req.term e.votes
        some ((c.setReplica e.candidate x.2).setElection k { e with result := some x.1 })
  | .heartbeatSend i =>
    if i ∈ c.ids then
      (c.nodes i).replica.heartbeatRequest.map fun req =>
        { c with
          heartbeats := c.heartbeats ++ [{ leader := i, req := req, fan := .start (c.targets i) }] }
    else none
  | .leaderHeartbeat k p now =>
    (c.heartbeats[k]?).bind fun b =>
      let x := (c.nodes p).replica.leaderHeartbeat now b.req
      (b.fan.handle p x.2).map fun fan =>
        { c.setReplica p x.1 with heartbeats := c.heartbeats.set k { b with fan := fan } }
  | .heartbeatReply k p term now =>
    (c.heartbeats[k]?).bind fun b =>
      (b.fan.receive p term).map fun fan =>
        { c.setReplica b.leader
            ((c.nodes b.leader).replica.heartbeatReply now b.req.term p term) with
          heartbeats := c.heartbeats.set k { b with fan := fan } }
  | .writeStart i req now =>
    if i ∈ c.ids ∧ c.idle i = true then
      match (c.nodes i).replica.leaderWriteCheck (c.nodes i).view with
      | .error _ => none
      | .ok () => some { c with
          writes := c.writes ++
            [{ leader := i, req := req, now := now, sent := none, result := none,
               recovering := [] }] }
    else none
  | .writePlan k =>
    (c.writes[k]?).bind fun w =>
      if w.sent.isSome then none
      else
        -- The role is not checked again: the term may be that of another leader by now.
        let n := c.nodes w.leader
        let plan := n.replica.planWrite n.view w.now
        if hpos : 0 < (n.replica.nextEntry w.req).version then
          some (c.setWrite k { w with
            sent := some
              { entry := n.replica.nextEntry w.req
                version_pos := hpos
                plan := plan
                fan := .start plan.livePeers.keys } })
        else none
  | .replicate k p now walOk =>
    (c.writes[k]?).bind fun w =>
      w.sent.bind fun s =>
        let x := (c.nodes p).replica.replicate now s.entry walOk
        (s.fan.handle p x.2).map fun fan =>
          (c.track p s.entry x.1).setWrite k { w with sent := some { s with fan := fan } }
  | .replicateReply k p reply =>
    (c.writes[k]?).bind fun w =>
      w.sent.bind fun s =>
        if w.result.isSome then none
        else (s.fan.receive p reply).map fun fan =>
          c.setWrite k { w with sent := some { s with fan := fan } }
  | .replicateLost k p =>
    (c.writes[k]?).bind fun w =>
      w.sent.bind fun s =>
        if w.result.isSome then none
        else (s.fan.fail p).map fun fan =>
          c.setWrite k { w with sent := some { s with fan := fan } }
  | .writeFinish k walOk fates =>
    (c.writes[k]?).bind fun w =>
      w.sent.bind fun s =>
        if w.result.isSome ∨ s.fan.complete = false then none
        else
          let x := (c.nodes w.leader).replica.finishWrite w.now s.entry s.plan s.acked walOk fates
          some ((c.track w.leader s.entry x.2).setWrite k { w with
            result := some x.1
            -- A peer whose acknowledgement was lost is not told to recover.
            recovering := match x.1 with
              | .error (.noQuorum _ _) => s.acked
              | _ => [] })
  | .forceRecover k p now =>
    (c.writes[k]?).bind fun w =>
      if p ∈ w.recovering then
        some ((c.setReplica p ((c.nodes p).replica.forceRecover now)).setWrite k
          { w with recovering := w.recovering.erase p })
      else none
  | .recoverBegin p q leaderAddr =>
    if p ∈ c.ids ∧ q ∈ c.ids ∧ (c.nodes p).replica.bootstrapShardID = "" ∧ c.settled p = true then
      let x := (c.nodes p).replica.recoveryTick leaderAddr
      match x.2 with
      | none => some (c.setReplica p x.1)
      | some _ => some { c.setReplica p x.1 with
          recoveries := c.recoveries ++
            [{ follower := p
               source := q
               sinceVersion := (c.nodes p).replica.recoverRequest.2
               status := (c.nodes p).replica.recoverySourceOf
               response := none
               finished := false }] }
    else none
  | .recoverServe k =>
    (c.recoveries[k]?).bind fun x =>
      if x.response.isSome ∨ x.finished = true then none
      else
        match (c.nodes x.source).replica.recover x.sinceVersion with
        | .error _ => some (c.recoverFailed k x)
        | .ok resp => some { c with
            recoveries := c.recoveries.set k
              { x with response := some (resp, (c.nodes x.source).history) } }
  | .recoverApply k walOk fates =>
    (c.recoveries[k]?).bind fun x =>
      x.response.bind fun resp =>
        if x.finished = true then none
        else some { c with
          nodes := Function.update c.nodes x.follower
            ((c.nodes x.follower).recover walOk fates x.status resp)
          recoveries := c.recoveries.set k { x with finished := true } }
  | .recoverLost k =>
    (c.recoveries[k]?).bind fun x =>
      if x.finished = true then none else some (c.recoverFailed k x)

/-! ## What the steps do -/

variable {c c' : Cluster}

theorem step_electionBegin {i : String} {now : Time}
    (h : c.step (.electionBegin i now) = some c') :
    ∃ r req, i ∈ c.ids ∧ (c.nodes i).replica.term ≠ Counter.max ∧
      (c.nodes i).replica.electionBegin now = some (r, req) ∧ c' = c.electionBegin i r req := by
  rw [step] at h
  split_ifs at h with hi
  obtain ⟨⟨r, req⟩, hbegin, rfl⟩ := Option.map_eq_some_iff.1 h
  exact ⟨r, req, hi.1, hi.2, hbegin, rfl⟩

theorem step_requestVote {k : ℕ} {p : String} {now : Time}
    (h : c.step (.requestVote k p now) = some c') :
    ∃ e r resp fan, c.elections[k]? = some e ∧
      (c.nodes p).replica.requestVote now e.req = (r, resp) ∧ e.fan.handle p resp = some fan ∧
      c' = c.voted k e p fan r resp.voteGranted := by
  obtain ⟨e, he, h⟩ := Option.bind_eq_some_iff.1 h
  obtain ⟨fan, hfan, rfl⟩ := Option.map_eq_some_iff.1 h
  exact ⟨e, _, _, fan, he, rfl, hfan, rfl⟩

theorem step_voteReply {k : ℕ} {p : String} {resp : VoteResponse}
    (h : c.step (.voteReply k p resp) = some c') :
    ∃ e fan, c.elections[k]? = some e ∧ e.result = none ∧ e.fan.receive p resp = some fan ∧
      (e.req.term < resp.term ∧ c' = (c.setReplica e.candidate
          ((c.nodes e.candidate).replica.higherTerm resp.term)).setElection k
            { e with fan := fan, result := some .superseded } ∨
        resp.term ≤ e.req.term ∧ c' = c.setElection k { e with fan := fan }) := by
  obtain ⟨e, he, h⟩ := Option.bind_eq_some_iff.1 h
  split_ifs at h with hres hterm
  · obtain ⟨fan, hfan, h⟩ := Option.map_eq_some_iff.1 h
    exact ⟨e, fan, he, by simpa using hres, hfan, .inl ⟨hterm, h.symm⟩⟩
  · obtain ⟨fan, hfan, h⟩ := Option.map_eq_some_iff.1 h
    exact ⟨e, fan, he, by simpa using hres, hfan, .inr ⟨not_lt.1 hterm, h.symm⟩⟩

theorem step_voteLost {k : ℕ} {p : String} (h : c.step (.voteLost k p) = some c') :
    ∃ e fan, c.elections[k]? = some e ∧ e.result = none ∧ e.fan.fail p = some fan ∧
      c' = c.setElection k { e with fan := fan } := by
  obtain ⟨e, he, h⟩ := Option.bind_eq_some_iff.1 h
  split_ifs at h with hres
  obtain ⟨fan, hfan, rfl⟩ := Option.map_eq_some_iff.1 h
  exact ⟨e, fan, he, by simpa using hres, hfan, rfl⟩

theorem step_electionFinish {k : ℕ} {now : Time} (h : c.step (.electionFinish k now) = some c') :
    ∃ e res r, c.elections[k]? = some e ∧ e.result = none ∧
      (c.nodes e.candidate).replica.electionFinish now e.peers e.req.term e.votes = (res, r) ∧
      c' = (c.setReplica e.candidate r).setElection k { e with result := some res } := by
  obtain ⟨e, he, h⟩ := Option.bind_eq_some_iff.1 h
  split_ifs at h with hres
  push Not at hres
  obtain rfl := Option.some.inj h
  exact ⟨e, _, _, he, by simpa using hres.1, rfl, rfl⟩

theorem step_heartbeatSend {i : String} (h : c.step (.heartbeatSend i) = some c') :
    ∃ b, c' = { c with heartbeats := c.heartbeats ++ [b] } := by
  rw [step] at h
  split_ifs at h
  obtain ⟨req, -, rfl⟩ := Option.map_eq_some_iff.1 h
  exact ⟨_, rfl⟩

theorem step_leaderHeartbeat {k : ℕ} {p : String} {now : Time}
    (h : c.step (.leaderHeartbeat k p now) = some c') :
    ∃ b bs, c.heartbeats[k]? = some b ∧
      c' = { c.setReplica p ((c.nodes p).replica.leaderHeartbeat now b.req).1 with
        heartbeats := bs } := by
  obtain ⟨b, hb, h⟩ := Option.bind_eq_some_iff.1 h
  obtain ⟨fan, -, rfl⟩ := Option.map_eq_some_iff.1 h
  exact ⟨b, _, hb, rfl⟩

theorem step_heartbeatReply {k : ℕ} {p : String} {term : ℕ} {now : Time}
    (h : c.step (.heartbeatReply k p term now) = some c') :
    ∃ b bs, c.heartbeats[k]? = some b ∧
      c' = { c.setReplica b.leader
          ((c.nodes b.leader).replica.heartbeatReply now b.req.term p term) with
        heartbeats := bs } := by
  obtain ⟨b, hb, h⟩ := Option.bind_eq_some_iff.1 h
  obtain ⟨fan, -, rfl⟩ := Option.map_eq_some_iff.1 h
  exact ⟨b, _, hb, rfl⟩

theorem step_writeStart {i : String} {req : KVRequest} {now : Time}
    (h : c.step (.writeStart i req now) = some c') :
    i ∈ c.ids ∧ (c.nodes i).replica.leaderWriteCheck (c.nodes i).view = .ok () ∧
      c' = { c with
        writes := c.writes ++
          [{ leader := i, req := req, now := now, sent := none, result := none,
             recovering := [] }] } := by
  rw [step] at h
  split_ifs at h with hi
  split at h
  · cases h
  · exact ⟨hi.1, ‹_›, (Option.some.inj h).symm⟩

theorem step_writePlan {k : ℕ} (h : c.step (.writePlan k) = some c') :
    ∃ w hpos, c.writes[k]? = some w ∧ w.sent = none ∧
      c' = c.setWrite k { w with
        sent := some
          { entry := (c.nodes w.leader).replica.nextEntry w.req
            version_pos := hpos
            plan := (c.nodes w.leader).replica.planWrite (c.nodes w.leader).view w.now
            fan := .start
              ((c.nodes w.leader).replica.planWrite (c.nodes w.leader).view w.now).livePeers.keys }
        } := by
  obtain ⟨w, hw, h⟩ := Option.bind_eq_some_iff.1 h
  simp only at h
  split_ifs at h with hsent hpos
  exact ⟨w, hpos, hw, by simpa using hsent, (Option.some.inj h).symm⟩

theorem step_replicate {k : ℕ} {p : String} {now : Time} {walOk : Bool}
    (h : c.step (.replicate k p now walOk) = some c') :
    ∃ w s fan, c.writes[k]? = some w ∧ w.sent = some s ∧
      s.fan.handle p ((c.nodes p).replica.replicate now s.entry walOk).2 = some fan ∧
      c' = (c.track p s.entry ((c.nodes p).replica.replicate now s.entry walOk).1).setWrite k
        { w with sent := some { s with fan := fan } } := by
  obtain ⟨w, hw, h⟩ := Option.bind_eq_some_iff.1 h
  obtain ⟨s, hs, h⟩ := Option.bind_eq_some_iff.1 h
  obtain ⟨fan, hfan, rfl⟩ := Option.map_eq_some_iff.1 h
  exact ⟨w, s, fan, hw, hs, hfan, rfl⟩

theorem step_replicateReply {k : ℕ} {p : String} {reply : ReplicateReply}
    (h : c.step (.replicateReply k p reply) = some c') :
    ∃ w s fan, c.writes[k]? = some w ∧ w.sent = some s ∧ w.result = none ∧
      s.fan.receive p reply = some fan ∧
      c' = c.setWrite k { w with sent := some { s with fan := fan } } := by
  obtain ⟨w, hw, h⟩ := Option.bind_eq_some_iff.1 h
  obtain ⟨s, hs, h⟩ := Option.bind_eq_some_iff.1 h
  split_ifs at h with hres
  obtain ⟨fan, hfan, rfl⟩ := Option.map_eq_some_iff.1 h
  exact ⟨w, s, fan, hw, hs, by simpa using hres, hfan, rfl⟩

theorem step_replicateLost {k : ℕ} {p : String} (h : c.step (.replicateLost k p) = some c') :
    ∃ w s fan, c.writes[k]? = some w ∧ w.sent = some s ∧ w.result = none ∧
      s.fan.fail p = some fan ∧
      c' = c.setWrite k { w with sent := some { s with fan := fan } } := by
  obtain ⟨w, hw, h⟩ := Option.bind_eq_some_iff.1 h
  obtain ⟨s, hs, h⟩ := Option.bind_eq_some_iff.1 h
  split_ifs at h with hres
  obtain ⟨fan, hfan, rfl⟩ := Option.map_eq_some_iff.1 h
  exact ⟨w, s, fan, hw, hs, by simpa using hres, hfan, rfl⟩

theorem step_writeFinish {k : ℕ} {walOk : Bool} {fates : List Fate}
    (h : c.step (.writeFinish k walOk fates) = some c') :
    ∃ w s res r ps, c.writes[k]? = some w ∧ w.sent = some s ∧ w.result = none ∧
      (c.nodes w.leader).replica.finishWrite w.now s.entry s.plan s.acked walOk fates =
        (res, r) ∧
      c' = (c.track w.leader s.entry r).setWrite k
        { w with result := some res, recovering := ps } := by
  obtain ⟨w, hw, h⟩ := Option.bind_eq_some_iff.1 h
  obtain ⟨s, hs, h⟩ := Option.bind_eq_some_iff.1 h
  split_ifs at h with hres
  push Not at hres
  obtain rfl := Option.some.inj h
  exact ⟨w, s, _, _, _, hw, hs, by simpa using hres.1, rfl, rfl⟩

theorem step_forceRecover {k : ℕ} {p : String} {now : Time}
    (h : c.step (.forceRecover k p now) = some c') :
    ∃ w ps, c.writes[k]? = some w ∧
      c' = (c.setReplica p ((c.nodes p).replica.forceRecover now)).setWrite k
        { w with recovering := ps } := by
  obtain ⟨w, hw, h⟩ := Option.bind_eq_some_iff.1 h
  split_ifs at h
  exact ⟨w, _, hw, (Option.some.inj h).symm⟩

theorem step_recoverBegin {p q leaderAddr : String}
    (h : c.step (.recoverBegin p q leaderAddr) = some c') :
    p ∈ c.ids ∧ (c' = c.setReplica p ((c.nodes p).replica.recoveryTick leaderAddr).1 ∨
    ∃ x : Recovery, x.follower = p ∧ x.source = q ∧ x.response = none ∧
      c' = { c.setReplica p ((c.nodes p).replica.recoveryTick leaderAddr).1 with
        recoveries := c.recoveries ++ [x] }) := by
  rw [step] at h
  split_ifs at h with hp
  simp only at h
  refine ⟨hp.1, ?_⟩
  split at h
  · exact .inl (Option.some.inj h).symm
  · exact .inr ⟨_, rfl, rfl, rfl, (Option.some.inj h).symm⟩

theorem step_recoverServe {k : ℕ} (h : c.step (.recoverServe k) = some c') :
    ∃ x, c.recoveries[k]? = some x ∧ (c' = c.recoverFailed k x ∨
      ∃ resp, (c.nodes x.source).replica.recover x.sinceVersion = .ok resp ∧
        c' = { c with
          recoveries := c.recoveries.set k
            { x with response := some (resp, (c.nodes x.source).history) } }) := by
  obtain ⟨x, hx, h⟩ := Option.bind_eq_some_iff.1 h
  split_ifs at h
  refine ⟨x, hx, ?_⟩
  split at h
  · exact .inl (Option.some.inj h).symm
  · exact .inr ⟨_, ‹_›, (Option.some.inj h).symm⟩

theorem step_recoverApply {k : ℕ} {walOk : ℕ → Bool} {fates : List Fate}
    (h : c.step (.recoverApply k walOk fates) = some c') :
    ∃ x resp, c.recoveries[k]? = some x ∧ x.response = some resp ∧
      c' = { c with
        nodes := Function.update c.nodes x.follower
          ((c.nodes x.follower).recover walOk fates x.status resp)
        recoveries := c.recoveries.set k { x with finished := true } } := by
  obtain ⟨x, hx, h⟩ := Option.bind_eq_some_iff.1 h
  obtain ⟨resp, hresp, h⟩ := Option.bind_eq_some_iff.1 h
  split_ifs at h
  exact ⟨x, resp, hx, hresp, (Option.some.inj h).symm⟩

theorem step_recoverLost {k : ℕ} (h : c.step (.recoverLost k) = some c') :
    ∃ x, c.recoveries[k]? = some x ∧ c' = c.recoverFailed k x := by
  obtain ⟨x, hx, h⟩ := Option.bind_eq_some_iff.1 h
  split_ifs at h
  exact ⟨x, hx, (Option.some.inj h).symm⟩

end Cluster

/-! ## An example -/

/-- A node that has just been started with the shard map of the example. -/
def exampleNode (id : String) : Node where
  view :=
    { nodeAddresses := exampleMap.nodeAddresses
      shardMapVersion := exampleMap.version
      leaderHeartbeat := (exampleConfig id).leaderHeartbeat }
  replica := initShard (exampleConfig id) exampleShard exampleMap 0 Files.empty
  history := []
  votes := []

/-- The three nodes, with nothing under way. -/
def exampleCluster : Cluster where
  ids := exampleShard.replicas
  nodup_ids := by decide
  nodes := exampleNode
  elections := []
  heartbeats := []
  writes := []
  recoveries := []

/-- A put of `v` at the key `k`. -/
def examplePut (v : String) : KVRequest where
  op := .put
  key := "k"
  value := v
  known := by decide

end Doki
