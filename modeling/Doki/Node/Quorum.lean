import Doki.Node.Server

/-!
# Quorum before success

One write of a leader, with everything that can happen to it: which peers are
known, when they were heard from, which of them get the entry in time, and whose
responses come back. The state of a peer is the one the entry finds it in.

A write that returns a success should have been applied by a majority of the
replicas. Two things keep it from that. The quorum is a majority of the peers
heard from lately, not of all: without any of them, the leader is alone and
commits alone. And a peer that is past the version of the entry acknowledges it,
whatever it holds there.

* `quorumBeforeSuccess_iff`: exactly when a success means a majority;
* `commits_alone`: a leader that has lost its two peers, and commits.
-/

namespace Doki

open Faulty

/-- A replica, with the entries that it has applied. -/
structure Holder where
  replica : ReplicaState
  history : List Entry
  version_le : ∀ e ∈ history, e.version ≤ replica.version

namespace Holder

/-- A later state that has applied `e` if its version has changed. -/
def track (n : Holder) (e : Entry) (r : ReplicaState) (hle : n.replica.version ≤ r.version)
    (he : r.version ≠ n.replica.version → r.version = e.version) : Holder where
  replica := r
  history := if r.version = n.replica.version then n.history else n.history ++ [e]
  version_le x hx := by
    split_ifs at hx with h
    · exact h ▸ n.version_le x hx
    · rcases List.mem_append.1 hx with hx | hx
      · exact (n.version_le x hx).trans hle
      · rw [List.mem_singleton.1 hx, he h]

/-- A peer handles the entry of a write. -/
def replicate (n : Holder) (now : Time) (e : Entry) (walOk : Bool) : Holder :=
  n.track e (n.replica.replicate now e walOk).1
    (n.replica.version_le_replicate now e walOk) fun hne => by
      rcases n.replica.replicate_effect now e walOk with ⟨hsame, -⟩ | ⟨happlies, -⟩
      · exact absurd hsame.version hne
      · exact happlies.version

theorem history_replicate (n : Holder) (now : Time) (e : Entry) (walOk : Bool) :
    (n.replicate now e walOk).history =
      if (n.replica.replicate now e walOk).1.version = n.replica.version then n.history
      else n.history ++ [e] := rfl

/-- A peer holds the entry afterwards if it did before, or if it is the next one for
    it and the response is a success. -/
theorem mem_history_replicate {n : Holder} {now : Time} {e : Entry} {walOk : Bool} :
    e ∈ (n.replicate now e walOk).history ↔
      e ∈ n.history ∨ ((n.replica.replicate now e walOk).2.acked = true ∧
        n.replica.version < e.version) := by
  rw [history_replicate]
  rcases n.replica.replicate_effect now e walOk with ⟨hsame, hack⟩ | ⟨happlies, hack⟩
  · rw [if_pos hsame.version]
    refine ⟨.inl, fun h => h.elim id fun ⟨h, hlt⟩ => ?_⟩
    have := (hack h).2
    omega
  · have hnext := happlies.next
    have := happlies.version
    rw [if_neg (by omega)]
    simp [hack, hnext]

end Holder

/-- What becomes of the entry `e` of a write sent to the peers `live`. -/
structure Replication (e : Entry) (live : Finset String) (peers : String → Holder) where
  now : Time
  walOk : String → Bool
  /-- The peers that handle the entry. -/
  handled : Finset String
  /-- The peers whose successful response comes back in time, in this order. -/
  acked : List String
  handled_subset : handled ⊆ live
  nodup_acked : acked.Nodup
  acked_spec : ∀ p ∈ acked, p ∈ handled ∧
    ((peers p).replica.replicate now e (walOk p)).2.acked = true

/-- A peer after the write. -/
def Replication.after {e : Entry} {live : Finset String} {peers : String → Holder}
    (x : Replication e live peers) (p : String) : Holder :=
  if p ∈ x.handled then (peers p).replicate x.now e (x.walOk p) else peers p

namespace ReplicaState

variable (r : ReplicaState)

/-- A whole write of the leader `r`, when nothing else happens to it meanwhile. -/
def leaderWrite (view : View) (now : Time) (req : KVRequest) (acked : List String) (walOk : Bool)
    (fates : List Fate) : Except WriteError WriteResult × ReplicaState :=
  match r.leaderWriteCheck view with
  | .error err => (.error err, r)
  | .ok () => r.finishWrite now (r.nextEntry req) (r.planWrite view now) acked walOk fates

end ReplicaState

/-! ## When a success means a majority -/

section

variable (r : ReplicaState) (view : View) (now : Time) (req : KVRequest) (peers : String → Holder)

/-- The live peers of the plan. -/
def livePeers : Finset String := (r.planWrite view now).livePeers.keys

/-- The peers that already hold the entry. -/
def holders : Finset String :=
  r.peers.toFinset.filter fun p => r.nextEntry req ∈ (peers p).history

/-- The live peers that can acknowledge the entry: those that are not in a newer term
    and do not miss an entry before it. -/
def accepting : Finset String :=
  (livePeers r view now).filter fun p =>
    (peers p).replica.term ≤ r.term ∧ Counter.next r.version ≤ (peers p).replica.version + 1

/-- The live peers that acknowledge the entry without applying it, since they are at
    its version or past it. -/
def duplicating : Finset String :=
  (livePeers r view now).filter fun p =>
    (peers p).replica.term ≤ r.term ∧ Counter.next r.version ≤ (peers p).replica.version

/-- Whenever the write succeeds, the leader and enough peers have applied its entry
    to be a majority of the leader and its peers. -/
def QuorumBeforeSuccess : Prop :=
  ∀ (x : Replication (r.nextEntry req) (livePeers r view now) peers) (walOk : Bool)
    (fates : List Fate) (res : WriteResult),
    (r.leaderWrite view now req x.acked walOk fates).1 = .ok res →
      (r.peers.length + 1) / 2 + 1 ≤
        1 + (r.peers.toFinset.filter fun p => r.nextEntry req ∈ (x.after p).history).card

end

section

variable {r : ReplicaState} {view : View} {now : Time} {req : KVRequest} {peers : String → Holder}

/-- The live peers are peers. -/
theorem livePeers_subset : livePeers r view now ⊆ r.peers.toFinset :=
  fun _ hp => List.mem_toFinset.2 (ReplicaState.mem_peers_of_live (Finmap.mem_keys.1 hp))

/-- The peers that hold the entry after the write: those that did before, and those
    that handled it as the next one, with success. -/
theorem mem_history_after (x : Replication (r.nextEntry req) (livePeers r view now) peers)
    (p : String) :
    r.nextEntry req ∈ (x.after p).history ↔
      r.nextEntry req ∈ (peers p).history ∨ (p ∈ x.handled ∧
        ((peers p).replica.replicate x.now (r.nextEntry req) (x.walOk p)).2.acked = true ∧
        (peers p).replica.version < Counter.next r.version) := by
  rw [Replication.after]
  split_ifs with hp
  · rw [Holder.mem_history_replicate]
    simp [hp, ReplicaState.nextEntry]
  · simp [hp]

/-- A peer that acknowledges the entry is an accepting one. -/
theorem mem_accepting (x : Replication (r.nextEntry req) (livePeers r view now) peers) {p : String}
    (hp : p ∈ x.acked) : p ∈ accepting r view now peers := by
  obtain ⟨hhandled, hacked⟩ := x.acked_spec p hp
  rw [accepting, Finset.mem_filter]
  obtain ⟨hterm, hversion⟩ := ReplicaState.of_acked hacked
  exact ⟨x.handled_subset hhandled, hterm, hversion⟩

/-- A peer that holds the entry is past it. -/
theorem disjoint_holders {A : Finset String}
    (hA : ∀ p ∈ A, (peers p).replica.version < Counter.next r.version) :
    Disjoint (holders r req peers) A := by
  refine Finset.disjoint_left.2 fun p hp hpA => ?_
  have hle := (peers p).version_le _ (Finset.mem_filter.1 hp).2
  exact absurd (hA p hpA) (not_lt.2 hle)

/-- The accepting peers that are not duplicating are those for which the entry is the
    next one. -/
theorem version_lt_of_not_duplicating {p : String} (hp : p ∈ accepting r view now peers)
    (hdup : p ∉ duplicating r view now peers) :
    (peers p).replica.version < Counter.next r.version := by
  rw [accepting, Finset.mem_filter] at hp
  by_contra hle
  exact hdup (Finset.mem_filter.2 ⟨hp.1, hp.2.1, not_lt.1 hle⟩)

/-- When the write succeeds, enough peers have acknowledged it. -/
theorem leaderWrite_ok {acked : List String} {walOk : Bool} {fates : List Fate} {res : WriteResult}
    (h : (r.leaderWrite view now req acked walOk fates).1 = .ok res) :
    r.leaderWriteCheck view = .ok () ∧ (r.planWrite view now).neededFollowers ≤ acked.length := by
  rw [ReplicaState.leaderWrite] at h
  split at h
  · cases h
  · rename_i hcheck
    refine ⟨hcheck, ?_⟩
    cases hfinish :
      r.finishWrite now (r.nextEntry req) (r.planWrite view now) acked walOk fates with
    | mk res' r' =>
      rw [hfinish] at h
      rcases ReplicaState.finishWrite_cases hfinish with ⟨err, -, -, herr, -⟩ | ⟨-, -, -, -, hle, -⟩
      · cases h.symm.trans herr
      · exact hle

/-- With enough holders and enough peers for which the entry is the next one, a success
    means a majority. -/
theorem quorumBeforeSuccess_of_le
    (h : (r.peers.length + 1) / 2 ≤ (holders r req peers).card +
      ((r.planWrite view now).neededFollowers - (duplicating r view now peers).card)) :
    QuorumBeforeSuccess r view now req peers := by
  intro x walOk fates res hres
  obtain ⟨-, hneeded⟩ := leaderWrite_ok hres
  have hfresh : ∀ p ∈ x.acked.toFinset \ duplicating r view now peers,
      (peers p).replica.version < Counter.next r.version := fun p hp => by
    rw [Finset.mem_sdiff, List.mem_toFinset] at hp
    exact version_lt_of_not_duplicating (mem_accepting x hp.1) hp.2
  have hsub : holders r req peers ∪ (x.acked.toFinset \ duplicating r view now peers) ⊆
      r.peers.toFinset.filter fun p => r.nextEntry req ∈ (x.after p).history := by
    intro p hp
    rw [Finset.mem_filter, mem_history_after]
    rcases Finset.mem_union.1 hp with hp | hp
    · exact ⟨(Finset.mem_filter.1 hp).1, .inl (Finset.mem_filter.1 hp).2⟩
    · obtain ⟨hhandled, hacked⟩ := x.acked_spec p (List.mem_toFinset.1 (Finset.mem_sdiff.1 hp).1)
      exact ⟨livePeers_subset (x.handled_subset hhandled), .inr ⟨hhandled, hacked, hfresh p hp⟩⟩
  -- The peers that apply the entry now do not hold it yet, so none is counted twice.
  have hcard := Finset.card_le_card hsub
  rw [Finset.card_union_of_disjoint (disjoint_holders hfresh)] at hcard
  have hsdiff := Finset.le_card_sdiff (duplicating r view now peers) x.acked.toFinset
  rw [List.toFinset_card_of_nodup x.nodup_acked] at hsdiff
  omega

/-- Enough acknowledgements, as many as possible of them from peers that do not apply
    the entry. -/
theorem exists_acks (hle : (r.planWrite view now).neededFollowers ≤
    (accepting r view now peers).card) :
    ∃ A ⊆ accepting r view now peers, A.card = (r.planWrite view now).neededFollowers ∧
      (A \ duplicating r view now peers).card =
        (r.planWrite view now).neededFollowers - (duplicating r view now peers).card := by
  have hdup : duplicating r view now peers ⊆ accepting r view now peers :=
    Finset.monotone_filter_right _ fun p _ hp => ⟨hp.1, hp.2.trans (Nat.le_succ _)⟩
  rcases le_total (r.planWrite view now).neededFollowers (duplicating r view now peers).card with
    h | h
  · -- The duplicating peers are enough.
    obtain ⟨A, hA, hcard⟩ := Finset.exists_subset_card_eq h
    refine ⟨A, hA.trans hdup, hcard, ?_⟩
    rw [Finset.sdiff_eq_empty_iff_subset.2 hA, Finset.card_empty]
    omega
  · obtain ⟨A, hdA, hA, hcard⟩ := Finset.exists_subsuperset_card_eq hdup h hle
    exact ⟨A, hA, hcard, by rw [Finset.card_sdiff_of_subset hdA, hcard]⟩

/-- The write in which exactly the peers `A` get the entry, and all of them answer. -/
noncomputable def Replication.ofAccepting (req : KVRequest) (A : Finset String)
    (hA : A ⊆ accepting r view now peers) :
    Replication (r.nextEntry req) (livePeers r view now) peers where
  now := now
  walOk _ := true
  handled := A
  acked := A.toList
  handled_subset := hA.trans (Finset.filter_subset _ _)
  nodup_acked := A.nodup_toList
  acked_spec p hp := by
    rw [Finset.mem_toList] at hp
    obtain ⟨-, hterm, hversion⟩ := Finset.mem_filter.1 (hA hp)
    refine ⟨hp, ReplicaState.acked_replicate hterm ?_ req.known⟩
    refine (Nat.le_succ_iff.1 hversion).imp_right fun hnext => ?_
    exact hnext.trans (Counter.next_of_next_eq hnext).symm

/-- In this write, the peers that hold the entry afterwards are those that did before,
    and those of `A` that are not past it. -/
theorem card_after_ofAccepting (req : KVRequest) (A : Finset String)
    (hA : A ⊆ accepting r view now peers) :
    (r.peers.toFinset.filter fun p =>
      r.nextEntry req ∈ ((Replication.ofAccepting req A hA).after p).history).card ≤
      (holders r req peers).card + (A \ duplicating r view now peers).card := by
  refine (Finset.card_le_card fun p hp => ?_).trans (Finset.card_union_le _ _)
  rw [Finset.mem_filter, mem_history_after] at hp
  rw [Finset.mem_union]
  obtain ⟨hpeer, hold | ⟨hhandled, -, hlt⟩⟩ := hp
  · exact .inl (Finset.mem_filter.2 ⟨hpeer, hold⟩)
  · refine .inr (Finset.mem_sdiff.2 ⟨hhandled, fun hdup => ?_⟩)
    have := (Finset.mem_filter.1 hdup).2.2
    omega

end

/-- A success means that a majority has applied the entry exactly when there is no
    success to be had, or when the peers that hold the entry already and those that
    a success needs to apply it make up a majority with the leader. A success needs
    the acknowledgements of half of the live peers, rounded up. -/
theorem quorumBeforeSuccess_iff (r : ReplicaState) (view : View) (now : Time) (req : KVRequest)
    (peers : String → Holder) :
    QuorumBeforeSuccess r view now req peers ↔
      r.leaderWriteCheck view ≠ .ok () ∨
      (accepting r view now peers).card < ((livePeers r view now).card + 1) / 2 ∨
      (r.peers.length + 1) / 2 ≤ (holders r req peers).card +
        (((livePeers r view now).card + 1) / 2 - (duplicating r view now peers).card) := by
  have hplan : (r.planWrite view now).neededFollowers = ((livePeers r view now).card + 1) / 2 :=
    planQuorum_neededFollowers _ _ _ _
  rw [← hplan]
  constructor
  · intro h
    by_contra hcon
    push Not at hcon
    obtain ⟨hcheck, haccepting, hlt⟩ := hcon
    -- Exactly the peers `A` get the entry, and those past it are preferred.
    obtain ⟨A, hA, hcard, hsdiff⟩ := exists_acks haccepting
    obtain ⟨res, hres⟩ : ∃ res, (r.finishWrite now (r.nextEntry req) (r.planWrite view now)
        A.toList true []).1 = .ok res :=
      ReplicaState.finishWrite_ok (by rw [Finset.length_toList, hcard])
        (hasLiveQuorum_planQuorum _ _ _ _) rfl le_rfl req.known
    have hmajority := h (Replication.ofAccepting req A hA) true [] res (by
      rw [ReplicaState.leaderWrite, hcheck]
      exact hres)
    have := card_after_ofAccepting req A hA
    omega
  · rintro (hcheck | haccepting | hle)
    · intro x walOk fates res hres
      exact absurd (leaderWrite_ok hres).1 hcheck
    · intro x walOk fates res hres
      have hneeded := (leaderWrite_ok hres).2
      have hsub : x.acked.toFinset ⊆ accepting r view now peers := fun p hp =>
        mem_accepting x (List.mem_toFinset.1 hp)
      have hcard := Finset.card_le_card hsub
      rw [List.toFinset_card_of_nodup x.nodup_acked] at hcard
      omega
    · exact quorumBeforeSuccess_of_le hle

/-- The leader `a` of three replicas. -/
def loneLeader : ReplicaState :=
  initShard (exampleConfig "a") exampleShard exampleMap 0 Files.empty

/-- What the leader knows of the cluster. -/
def loneView : View where
  nodeAddresses := exampleMap.nodeAddresses
  shardMapVersion := exampleMap.version
  leaderHeartbeat := 100

/-- The peers, with nothing applied. -/
def newPeer (id : String) : Holder where
  replica := newReplicaState "shard-0" id ["a"] 1000
  history := []
  version_le := by simp

/-- Long after it has heard from its two peers for the last time, the leader commits a
    write alone. -/
theorem commits_alone :
    ¬QuorumBeforeSuccess loneLeader loneView 1000 ⟨.put, "k", "v", by decide⟩ newPeer := by
  intro h
  have hmajority := h ⟨0, fun _ => true, ∅, [], by simp, by simp, by simp⟩ true [] ⟨1, 1, 0, 1⟩
    (by decide)
  exact absurd hmajority (by decide)

end Doki
