import Doki.Node.Election

/-!
# Writes

How a leader makes a write (`leaderWrite` in `node/server.go`, `node/quorum.go`). It
is not atomic either: the leader checks that it may write
(`leaderWriteCheck`), reads its term and version into an entry and plans the
quorum (`planWrite`), sends the entry to its peers without holding the lock, and
applies it if enough of them have acknowledged it (`finishWrite`).

The plan counts the peers that were heard from within the liveness window, and
those only: the quorum is a majority of *these* and the leader.

* `finishWrite_cases`: a write fails and leaves the state as it is, or it succeeds
  with enough acknowledgements, in the term it was planned in.
-/

namespace Doki

open Faulty

/-- A put or a delete of a client. Other operations are refused before they get
    to `leaderWrite`. -/
structure KVRequest where
  op : Op
  key : String
  value : String
  known : op ≠ .unknown

theorem Op.put_ne_unknown : Op.put ≠ .unknown := by decide

/-- The leader's view of the peers that count for a write. -/
structure QuorumInfo where
  livePeers : Finmap fun _ : String => String
  totalEligible : ℕ
  quorum : ℕ
  neededFollowers : ℕ
  deriving DecidableEq

/-- The result of a write. -/
structure WriteResult where
  appliedVersion : ℕ
  quorum : ℕ
  ackedFollowers : ℕ
  totalEligible : ℕ
  deriving DecidableEq, Repr

/-- The errors of a write. -/
inductive WriteError
  | notLeader
  | notReady
  | shardMapStale
  | noLiveQuorum (needed live : ℕ)
  | noQuorum (acked needed : ℕ)
  | apply (e : ApplyError)
  deriving DecidableEq, Repr

/-- The error's text. -/
def WriteError.message : WriteError → String
  | .notLeader => "not leader"
  | .notReady => "not ready"
  | .shardMapStale => "stale shard map"
  | .noLiveQuorum needed live =>
    s!"quorum unavailable: need {needed} live followers, have {live}"
  | .noQuorum acked needed => s!"quorum unavailable: got {acked}/{needed} follower ACKs"
  | .apply e => "apply: " ++ e.message

/-- The peer `id` was heard from within the liveness window. -/
def heardFrom (peerLast : Finmap fun _ : String => Time) (now livenessWindow : Time)
    (id : String) : Bool :=
  match peerLast.lookup id with
  | some last => decide (now - last ≤ livenessWindow)
  | none => false

/-- The peers that count for the quorum, and the size of the quorum. -/
def planQuorum (peerAddrs : Finmap fun _ : String => String)
    (peerLast : Finmap fun _ : String => Time) (now livenessWindow : Time) : QuorumInfo :=
  let livePeers := if livenessWindow ≤ 0 then peerAddrs
    else peerAddrs.filter fun id _ => heardFrom peerLast now livenessWindow id
  -- The peers that do not count for the quorum do not count for its size either.
  let totalEligible := livePeers.keys.card + 1
  let quorum := totalEligible / 2 + 1
  { livePeers := livePeers
    totalEligible := totalEligible
    quorum := quorum
    neededFollowers := quorum - 1 }

namespace QuorumInfo

variable (q : QuorumInfo)

def hasLiveQuorum : Bool := decide (q.neededFollowers ≤ q.livePeers.keys.card)

def result (appliedVersion acked : ℕ) : WriteResult where
  appliedVersion := appliedVersion
  quorum := q.quorum
  ackedFollowers := acked
  totalEligible := q.totalEligible

end QuorumInfo

/-- How many followers a plan needs. -/
theorem planQuorum_neededFollowers (peerAddrs : Finmap fun _ : String => String)
    (peerLast : Finmap fun _ : String => Time) (now window : Time) :
    (planQuorum peerAddrs peerLast now window).neededFollowers =
      ((planQuorum peerAddrs peerLast now window).livePeers.keys.card + 1) / 2 :=
  rfl

/-- A plan is never short of live followers: it asks for a part of them. -/
theorem hasLiveQuorum_planQuorum (peerAddrs : Finmap fun _ : String => String)
    (peerLast : Finmap fun _ : String => Time) (now window : Time) :
    (planQuorum peerAddrs peerLast now window).hasLiveQuorum = true := by
  rw [QuorumInfo.hasLiveQuorum, decide_eq_true_eq, planQuorum_neededFollowers]
  omega

namespace ReplicaState

variable (r : ReplicaState)

/-- The checks before a write: the replica must be a ready leader, configured by
    the current shard map. -/
def leaderWriteCheck (view : View) : Except WriteError Unit :=
  if r.role ≠ .leader then .error .notLeader
  else if r.isReady = false then .error .notReady
  else if r.shardMapVersion ≠ view.shardMapVersion then .error .shardMapStale
  else .ok ()

/-- The entry of a write: the next version, in the current term. -/
def nextEntry (req : KVRequest) : Entry where
  term := r.term
  version := Counter.next r.version
  op := req.op
  key := req.key
  value := req.value

/-- The plan of a write begun at `now`. -/
def planWrite (view : View) (now : Time) : QuorumInfo :=
  planQuorum (view.peerAddrs r.peers) r.peerLastContact now (view.leaderHeartbeat * 2)

/-- The periodic snapshot after a write; its error is only logged. -/
def maybeSnapshot (e : Entry) (fates : List Fate) : ReplicaState :=
  { r with
    ds := r.ds.map fun ds =>
      (ds.maybeSnapshot { term := e.term, version := e.version, kv := r.kv } fates).2 }

/-- The leader has heard from the peers `acked`. -/
def heard (now : Time) (acked : List String) : ReplicaState :=
  { r with peerLastContact := acked.foldl (fun m p => m.insert p now) r.peerLastContact }

/-- Applying a write on the leader, with the acknowledgements of `acked`. -/
def commitWrite (now : Time) (e : Entry) (plan : QuorumInfo) (acked : List String) (walOk : Bool)
    (fates : List Fate) : Except WriteError WriteResult × ReplicaState :=
  match (r.heard now acked).apply e .withWAL walOk with
  | (r'', some err) => (.error (.apply err), r'')
  | (r'', none) => (.ok (plan.result e.version acked.length), r''.setReady.maybeSnapshot e fates)

/-- The end of a write, when the peers `acked` have acknowledged it. A plan that
    needs no follower has asked none. -/
def finishWrite (now : Time) (e : Entry) (plan : QuorumInfo) (acked : List String) (walOk : Bool)
    (fates : List Fate) : Except WriteError WriteResult × ReplicaState :=
  if plan.neededFollowers = 0 then r.commitWrite now e plan [] walOk fates
  else if plan.hasLiveQuorum = false then
    (.error (.noLiveQuorum plan.neededFollowers plan.livePeers.keys.card), r)
  else if acked.length < plan.neededFollowers then
    (.error (.noQuorum acked.length plan.neededFollowers), r)
  else r.commitWrite now e plan acked walOk fates

variable {r} {r' : ReplicaState} {now : Time} {e : Entry} {plan : QuorumInfo}
  {acked : List String} {walOk : Bool} {fates : List Fate}
  {res : Except WriteError WriteResult}

/-- The live peers of a plan are peers. -/
theorem mem_peers_of_live {view : View} {p : String}
    (hp : p ∈ (r.planWrite view now).livePeers) : p ∈ r.peers := by
  rw [planWrite, planQuorum] at hp
  simp only at hp
  split_ifs at hp
  · exact View.mem_of_mem_peerAddrs hp
  · exact View.mem_of_mem_peerAddrs (Finmap.mem_of_mem_filter hp)

/-- The cases of `commitWrite`. -/
theorem commitWrite_cases (h : r.commitWrite now e plan acked walOk fates = (res, r')) :
    (∃ err ds last, res = .error err ∧ r' = { r with ds := ds, peerLastContact := last }) ∨
    (∃ ds last, res = .ok (plan.result e.version acked.length) ∧
      e.version = Counter.next r.version ∧ r.term ≤ e.term ∧ e.op ≠ .unknown ∧
      r' = { (r.applied e).setReady with ds := ds, peerLastContact := last }) := by
  simp only [commitWrite] at h
  split at h
  · rename_i r'' err happly
    cases h
    obtain ⟨ds, rfl⟩ := apply_error happly
    exact .inl ⟨.apply err, ds, _, rfl, rfl⟩
  · rename_i r'' happly
    cases h
    obtain ⟨hversion, hterm, hop, ds, rfl⟩ := apply_ok happly
    exact .inr ⟨_, _, rfl, hversion, hterm, hop, rfl⟩

/-- The cases of `finishWrite`: an error, which changes no more than the files and
    the contact times, or an application with enough acknowledgements. -/
theorem finishWrite_cases (h : r.finishWrite now e plan acked walOk fates = (res, r')) :
    (∃ err ds last, res = .error err ∧ r' = { r with ds := ds, peerLastContact := last }) ∨
    (∃ ok ds last, res = .ok ok ∧ plan.neededFollowers ≤ acked.length ∧
      e.version = Counter.next r.version ∧ r.term ≤ e.term ∧ e.op ≠ .unknown ∧
      r' = { (r.applied e).setReady with ds := ds, peerLastContact := last }) := by
  rw [finishWrite] at h
  split_ifs at h with hneeded hlive hacked
  · rcases commitWrite_cases h with herr | ⟨ds, last, hres, hrest⟩
    · exact .inl herr
    · exact .inr ⟨_, ds, last, hres, hneeded ▸ Nat.zero_le _, hrest⟩
  · cases h
    exact .inl ⟨_, r.ds, r.peerLastContact, rfl, rfl⟩
  · cases h
    exact .inl ⟨_, r.ds, r.peerLastContact, rfl, rfl⟩
  · rcases commitWrite_cases h with herr | ⟨ds, last, hres, hrest⟩
    · exact .inl herr
    · exact .inr ⟨_, ds, last, hres, not_lt.1 hacked, hrest⟩

/-- What the end of a write does to the contents, when the version does not wrap around:
    nothing with an error, and with a success the entry is applied. -/
theorem finishWrite_effect (hpos : 0 < e.version)
    (h : r.finishWrite now e plan acked walOk fates = (res, r')) :
    (∃ err, res = .error err ∧ SameContents r r') ∨
    (∃ ok, res = .ok ok ∧ plan.neededFollowers ≤ acked.length ∧ Applies r e r') := by
  rcases finishWrite_cases h with
    ⟨err, ds, last, hres, rfl⟩ | ⟨ok, ds, last, hres, hneeded, hnext, hterm, -, rfl⟩
  · exact .inl ⟨err, hres, rfl, rfl, List.Subset.refl _⟩
  · have hsucc := hnext.trans (Counter.next_of_pos (hnext ▸ hpos))
    exact .inr ⟨ok, hres, hneeded, hsucc, hterm, rfl, rfl, rfl, rfl⟩

theorem version_le_finishWrite (hpos : 0 < e.version)
    (h : r.finishWrite now e plan acked walOk fates = (res, r')) : r.version ≤ r'.version := by
  rcases finishWrite_effect hpos h with ⟨err, -, hsame⟩ | ⟨ok, -, -, happlies⟩
  · exact hsame.version_le
  · exact happlies.version_le

/-- The next entry is committed with enough acknowledgements, when the write to the
    write-ahead log succeeds. -/
theorem finishWrite_ok (hneeded : plan.neededFollowers ≤ acked.length)
    (hlive : plan.hasLiveQuorum = true) (hversion : e.version = Counter.next r.version)
    (hterm : r.term ≤ e.term) (hop : e.op ≠ .unknown) :
    ∃ ok, (r.finishWrite now e plan acked true fates).1 = .ok ok := by
  have hcommit : ∀ acked, ∃ ok, (r.commitWrite now e plan acked true fates).1 = .ok ok := by
    intro acked
    simp only [commitWrite]
    rw [apply_next (r := r.heard now acked) hversion hterm hop]
    exact ⟨_, rfl⟩
  rw [finishWrite]
  split_ifs with h0 hlive' hacked
  · exact hcommit []
  · exact absurd (hlive.symm.trans hlive') (by simp)
  · omega
  · exact hcommit acked

theorem keepsVote_finishWrite (r : ReplicaState) (now : Time) (e : Entry) (plan : QuorumInfo)
    (acked : List String) (walOk : Bool) (fates : List Fate) :
    KeepsVote r (r.finishWrite now e plan acked walOk fates).2 := by
  cases h : r.finishWrite now e plan acked walOk fates with
  | mk res r' =>
    rcases finishWrite_cases h with
      ⟨err, ds, last, -, rfl⟩ | ⟨ok, ds, last, -, -, -, hterm, -, rfl⟩
    · exact ⟨⟨rfl, rfl, rfl, le_rfl⟩, rfl, rfl⟩
    · exact ⟨⟨rfl, rfl, rfl, hterm⟩, rfl, rfl⟩

end ReplicaState

end Doki
