import Doki.Cluster.ElectionSafety
import Doki.Cluster.History

/-!
# Leader completeness

A winner of an election should have every write that was acknowledged before. A
write is acknowledged when a majority has its entry, and a replica votes only for
candidates of its version or a newer one; so one of the voters has the entry, and
the winner has an entry at its version. Two things can go wrong.

* Versions do not identify entries. A write that fails may leave its entry on some
  followers, and the leader uses its version again: the replicas then disagree, and
  a follower acknowledges an entry that it does not have. In `reusedVersionRun` the
  replica left with the failed entry wins over one that has the acknowledged one;
* a vote is given before a write: a replica that has voted in a term still
  acknowledges writes of this term and of later ones. A candidate may thus win with
  votes from before a write, see `lateWinRun`.

Without these (`Cluster.Careful`), winners are complete: `Cluster.winner_complete`.
-/

namespace Doki

open Majority Runs

namespace Cluster

variable (c : Cluster)

/-- A write is planned over all replicas. -/
def PlansAll : Action → Prop
  | .writePlan k => ∀ w ∈ c.writes[k]?, ∀ p ∈ (c.nodes w.leader).replica.peers,
      p ∈ ((c.nodes w.leader).replica.planWrite (c.nodes w.leader).view w.now).livePeers
  | _ => True

/-- When a candidate ends its election with enough votes, in the term in which it
    has begun it, all acknowledged writes are of earlier terms. -/
def WinsLast : Action → Prop
  | .electionFinish k _ => ∀ e ∈ c.elections[k]?,
      (c.nodes e.candidate).replica.term = e.req.term →
      electionQuorum e.peers ≤ e.votes →
        ∀ w ∈ c.writes, ∀ x ∈ w.acknowledged, x.term < e.req.term
  | _ => True

/-- A step that acknowledges or commits an entry only if no replica has another one
    at its version, and wins an election only in a term after those of the
    acknowledged writes. -/
def Careful (a : Action) : Prop := (∀ x ∈ c.acking a, c.Unclashed x.2) ∧ c.WinsLast a

instance (a : Action) : Decidable (c.PlansAll a) := by
  cases a <;> (delta PlansAll; dsimp only; infer_instance)

instance (a : Action) : Decidable (c.WinsLast a) := by
  cases a <;> (delta WinsLast; dsimp only; infer_instance)

instance (a : Action) : Decidable (c.Careful a) :=
  inferInstanceAs (Decidable ((∀ x ∈ c.acking a, c.Unclashed x.2) ∧ c.WinsLast a))

end Cluster

/-- What holds of a write at any time. -/
structure WriteKept (ids : List String) (nodes : String → Node) (w : Write) : Prop where
  full : ∀ s, w.sent = some s → ∀ p ∈ ids, p ≠ w.leader → p ∈ s.plan.livePeers
  /-- A replica that has acknowledged the entry has it. -/
  acked : ∀ s, w.sent = some s → ∀ p reply, (p, reply) ∈ s.fan.handled → reply.acked = true →
    s.entry ∈ (nodes p).history
  /-- A majority has the entry of a successful write. -/
  majority : ∀ x, w.acknowledged = some x →
    ∃ Q, IsMajority ids.toFinset Q ∧ ∀ p ∈ Q, x ∈ (nodes p).history

theorem WriteKept.later {ids : List String} {nodes nodes' : String → Node} {w : Write}
    (h : WriteKept ids nodes w) (hl : ∀ i, NodeLater (nodes i) (nodes' i)) :
    WriteKept ids nodes' w where
  full := h.full
  acked s hs p reply hp hacked := (hl p).history.subset (h.acked s hs p reply hp hacked)
  majority x hx := by
    obtain ⟨Q, hQ, hmem⟩ := h.majority x hx
    exact ⟨Q, hQ, fun p hp => (hl p).history.subset (hmem p hp)⟩

/-- More responses, with the entry where it has been acknowledged. -/
theorem WriteKept.setFan {ids : List String} {nodes : String → Node} {w : Write} {s : Sending}
    (h : WriteKept ids nodes w) (hs : w.sent = some s) {fan : FanOut String ReplicateReply}
    (hfan : ∀ p reply, (p, reply) ∈ fan.handled → reply.acked = true →
      s.entry ∈ (nodes p).history) :
    WriteKept ids nodes { w with sent := some { s with fan := fan } } where
  full s' hs' := by
    obtain rfl := Option.some.inj hs'
    exact h.full s hs
  acked s' hs' := by
    obtain rfl := Option.some.inj hs'
    exact hfan
  majority x hx := by
    refine h.majority x ?_
    rw [Write.acknowledged, hs]
    exact hx

namespace Cluster

variable {c c' : Cluster}

/-- The invariant. -/
structure Complete (c : Cluster) : Prop extends Planned c where
  elections : ElectionInv c.ids c.nodes c.elections
  recorded : ∀ i ∈ c.ids, Recorded (c.nodes i)
  agree : ∀ i ∈ c.ids, ∀ j ∈ c.ids, Agree (c.nodes i).history (c.nodes j).history
  /-- An entry from before a vote is in the version voted for; one from after it is
      not of an older term. -/
  votes : ∀ i ∈ c.ids, ∀ v ∈ (c.nodes i).votes, ∀ x ∈ (c.nodes i).history,
    v.term ≤ x.term ∨ x.version ≤ v.version
  candidates : ∀ e ∈ c.elections, e.req.version ≤ (c.nodes e.candidate).replica.version
  kept : ∀ w ∈ c.writes, WriteKept c.ids c.nodes w

/-- A vote is for a version that the voter has reached. -/
theorem ElectionStep.votes {a : Action} (h : c.ElectionStep a c') {i : String} {v : Vote}
    (hv : v ∈ (c'.nodes i).votes) :
    v ∈ (c.nodes i).votes ∨
      ((c.nodes i).replica.version ≤ v.version ∧ (c'.nodes i).history = (c.nodes i).history) := by
  cases h with
  | other helections hnodes => exact .inl ((hnodes i).votes ▸ hv)
  | answered he htargets hhandled hres helections hnodes => exact .inl ((hnodes i).votes ▸ hv)
  | @begun j now r req hi hmax hbegin =>
    by_cases hij : i = j
    · subst hij
      simp only [electionBegin, Function.update_self] at hv ⊢
      rcases List.mem_cons.1 hv with rfl | hv
      · -- A candidate votes for itself at its own version.
        obtain ⟨-, rfl⟩ := ReplicaState.electionBegin_eq_some hbegin
        exact .inr ⟨le_rfl, trivial⟩
      · exact .inl hv
    · simp only [electionBegin, Function.update_of_ne hij] at hv
      exact .inl hv
  | @voted k p now e r resp fan he hreq hfan =>
    by_cases hip : i = p
    · subst hip
      simp only [Cluster.voted, Function.update_self] at hv ⊢
      split_ifs at hv with hgranted
      · rcases List.mem_cons.1 hv with rfl | hv
        · rcases ReplicaState.requestVote_cases hreq with
            ⟨-, -, hno⟩ | ⟨-, -, hno⟩ | ⟨-, hversion, -⟩
          · exact absurd (hno.symm.trans hgranted) (by simp)
          · exact absurd (hno.symm.trans hgranted) (by simp)
          · exact .inr ⟨hversion, trivial⟩
        · exact .inl hv
      · exact .inl hv
    · simp only [Cluster.voted, Function.update_of_ne hip] at hv
      exact .inl hv
  | @finished k now e res r he hfinish =>
    by_cases hie : i = e.candidate
    · subst hie
      simp only [setElection, setReplica, Function.update_self] at hv
      exact .inl hv
    · simp only [setElection, setReplica, Function.update_of_ne hie] at hv
      exact .inl hv

/-- A candidate asks with its own version. -/
theorem ElectionStep.requests {a : Action} (h : c.ElectionStep a c') {e : Election}
    (he : e ∈ c'.elections) :
    (∃ e₀ ∈ c.elections, e.candidate = e₀.candidate ∧ e.req = e₀.req) ∨
      e.req.version = (c.nodes e.candidate).replica.version := by
  have hset : ∀ {k : ℕ} {e₀ e₁ : Election}, c.elections[k]? = some e₀ →
      e ∈ c.elections.set k e₁ → e₁.candidate = e₀.candidate → e₁.req = e₀.req →
      ∃ e₀ ∈ c.elections, e.candidate = e₀.candidate ∧ e.req = e₀.req := by
    intro k e₀ e₁ he₀ he hcand hreq
    rcases List.mem_or_eq_of_mem_set he with he | rfl
    · exact ⟨e, he, rfl, rfl⟩
    · exact ⟨e₀, List.mem_of_getElem? he₀, hcand, hreq⟩
  cases h with
  | other helections hnodes => exact .inl ⟨e, helections ▸ he, rfl, rfl⟩
  | begun hi hmax hbegin =>
    rcases List.mem_append.1 he with he | he
    · exact .inl ⟨e, he, rfl, rfl⟩
    · obtain rfl := List.mem_singleton.1 he
      obtain ⟨-, rfl⟩ := ReplicaState.electionBegin_eq_some hbegin
      exact .inr rfl
  | voted he₀ hreq hfan => exact .inl (hset he₀ he rfl rfl)
  | answered he₀ htargets hhandled hres helections hnodes =>
    rw [helections] at he
    exact .inl (hset he₀ he rfl rfl)
  | finished he₀ hfinish => exact .inl (hset he₀ he rfl rfl)

/-- The histories keep agreeing. -/
theorem agree_step {a : Action} (h : c.Complete) (hC : ∀ x ∈ c.acking a, c.Unclashed x.2)
    (hw : c.WriteStep a c') :
    ∀ i ∈ c.ids, ∀ j ∈ c.ids, Agree (c'.nodes i).history (c'.nodes j).history := by
  intro i hi j hj
  rcases hw.contents with hstill | ⟨p, e, happlying, happlies, hothers⟩
  · rw [(hstill i).history, (hstill j).history]
    exact h.agree i hi j hj
  · have hunclashed : c.Unclashed e := hC _ (acking_of_applying happlying)
    have hcases : ∀ q, (c'.nodes q).history = (c.nodes q).history ∨
        (c'.nodes q).history = (c.nodes q).history ++ [e] := by
      intro q
      by_cases hq : q = p
      · exact .inr (hq ▸ happlies.history)
      · exact .inl (by rw [hothers q hq])
    exact (h.agree i hi j hj).concat (hunclashed i hi) (hunclashed j hj) (hcases i) (hcases j)

/-- A replica that has voted does not apply entries of older terms. -/
theorem votes_step {a : Action} (h : c.Complete) (he : c.ElectionStep a c')
    (hw : c.WriteStep a c') :
    ∀ i ∈ c.ids, ∀ v ∈ (c'.nodes i).votes, ∀ x ∈ (c'.nodes i).history,
      v.term ≤ x.term ∨ x.version ≤ v.version := by
  intro i hi v hv x hx
  rcases he.votes hv with hv | ⟨hversion, hhistory⟩
  · rcases hw.contents with hstill | ⟨p, e, -, happlies, hothers⟩
    · exact h.votes i hi v hv x ((hstill i).history ▸ hx)
    · by_cases hip : i = p
      · subst hip
        rw [happlies.history] at hx
        rcases List.mem_append.1 hx with hx | hx
        · exact h.votes i hi v hv x hx
        · -- The replica is in the term of its vote or a later one when it applies `x`.
          obtain rfl := List.mem_singleton.1 hx
          exact .inl (((h.elections.ledger i hi).term_le v hv).trans happlies.replica.term_le)
      · exact h.votes i hi v hv x (hothers i hip ▸ hx)
  · exact .inr (((h.recorded i hi).version_le (hhistory ▸ hx)).trans hversion)

/-- A replica that acknowledges an entry, and has no other one at its version, has it
    afterwards. -/
theorem mem_of_acked (h : c.Complete) {p : String} {now : Time} {e : Entry} {walOk : Bool}
    (hp : p ∈ c.ids) (hpos : 0 < e.version) (hclash : NoClash (c.nodes p).history e)
    (hacked : ((c.nodes p).replica.replicate now e walOk).2.acked = true) :
    e ∈ ((c.nodes p).track e ((c.nodes p).replica.replicate now e walOk).1).history := by
  rcases (c.nodes p).replica.replicate_effect now e walOk with ⟨hsame, hpast⟩ | ⟨happlies, -⟩
  · -- The entry is acknowledged by its version: there is one, and it is no other.
    rw [(NodeStill.track hsame e).history]
    exact (h.recorded p hp).mem_of_noClash hpos (hpast hacked).2 hclash
  · rw [(NodeApplies.track happlies).history]
    simp

/-- The entry of a write is on the replicas that have acknowledged it. -/
theorem kept_step {a : Action} (h : c.Complete) (hplans : c.PlansAll a)
    (hC : ∀ x ∈ c.acking a, c.Unclashed x.2) (hl : ∀ i, NodeLater (c.nodes i) (c'.nodes i))
    (hw : c.WriteStep a c') : ∀ w ∈ c'.writes, WriteKept c.ids c'.nodes w := by
  have hlater : ∀ w ∈ c.writes, WriteKept c.ids c'.nodes w := fun w hw => (h.kept w hw).later hl
  cases hw with
  | other hwrites hnodes => exact hwrites ▸ hlater
  | started hi hcheck =>
    intro w hw
    rcases List.mem_append.1 hw with hw | hw
    · exact hlater w hw
    · obtain rfl := List.mem_singleton.1 hw
      exact ⟨by simp, by simp, by simp [Write.acknowledged]⟩
  | @planned k w hw hsent =>
    have hok := h.writes w (List.mem_of_getElem? hw)
    refine List.forall_mem_set hlater ⟨fun s hs p hp hne => ?_, fun s hs p reply hp => ?_,
      fun x hx => ?_⟩
    · obtain rfl := Option.some.inj hs
      refine hplans w hw p ?_
      rw [h.configured.peers _ hok.leader, List.mem_filter]
      exact ⟨hp, by simpa using hne⟩
    · obtain rfl := Option.some.inj hs
      exact absurd hp (by simp [FanOut.start])
    · rw [Write.acknowledged, hok.unsent hsent] at hx
      cases hx
  | @replicated k p now walOk w s fan hw hs hfan =>
    have hkept := h.kept w (List.mem_of_getElem? hw)
    refine List.forall_mem_set hlater ((hkept.later hl).setFan hs fun q reply hq hacked => ?_)
    rw [(FanOut.of_handle hfan).2.2.2.1] at hq
    rcases List.mem_cons.1 hq with heq | hq
    · obtain ⟨rfl, rfl⟩ := Prod.mk.inj heq
      have hq := ((h.writes w (List.mem_of_getElem? hw)).sent s hs).peers q
        (FanOut.of_handle hfan).1
      rw [nodes_setWrite, nodes_track_self]
      exact mem_of_acked h hq.1 s.version_pos (hC _ (acking_replicate hw hs hacked) q hq.1)
        hacked
    · exact (hl q).history.subset (hkept.acked s hs q reply hq hacked)
  | @answered a k w s fan hw hs hres htargets hhandled =>
    have hkept := h.kept w (List.mem_of_getElem? hw)
    exact List.forall_mem_set hlater
      (hkept.setFan hs fun q reply hq => hkept.acked s hs q reply (hhandled ▸ hq))
  | @finished k walOk fates w s res r ps hw hs hres hfinish =>
    have hkept := (h.kept w (List.mem_of_getElem? hw)).later hl
    have hok := h.writes w (List.mem_of_getElem? hw)
    refine List.forall_mem_set hlater ⟨hkept.full, hkept.acked, fun x hx => ?_⟩
    rcases ReplicaState.finishWrite_effect s.version_pos hfinish with
      ⟨err, rfl, -⟩ | ⟨ok, rfl, hneeded, happlies⟩
    · cases hx
    · rw [Write.acknowledged, hs] at hx
      obtain rfl := Option.some.inj hx
      refine ⟨_, (hok.sent s hs).majority c.nodup_ids hok.leader (hkept.full s hs) hneeded, ?_⟩
      intro p hp
      rcases Finset.mem_insert.1 hp with rfl | hp
      · simp [(NodeApplies.track happlies).history]
      · obtain ⟨reply, hreply, hacked⟩ := FanOut.handled_of_success (List.mem_toFinset.1 hp)
        exact hkept.acked s hs p reply hreply hacked
  | forced hw =>
    have hkept := (h.kept _ (List.mem_of_getElem? hw)).later hl
    exact List.forall_mem_set hlater ⟨hkept.full, hkept.acked, hkept.majority⟩

/-- The step lemma. -/
theorem complete_step (c : Cluster) (a : Action) (c' : Cluster) (h : c.Complete)
    (hC : a.recovers = false ∧ c.PlansAll a ∧ c.Careful a) (hstep : c.step a = some c') :
    c'.Complete := by
  obtain ⟨ha, hplans, hunclashed, -⟩ := hC
  obtain ⟨hids, -, hl⟩ := step_later ha hstep
  have hw := writeStep ha hstep
  have he := electionStep ha hstep
  exact
    { toPlanned := planned_step c a c' h.toPlanned ha hstep
      elections := electionInv_step c a c' h.elections ha hstep
      recorded := fun i hi => hw.recorded (h.recorded i (hids ▸ hi))
      agree := hids ▸ agree_step h hunclashed hw
      votes := hids ▸ votes_step h he hw
      candidates := fun e he' => by
        rcases he.requests he' with ⟨e₀, he₀, hcand, hreq⟩ | heq
        · rw [hcand, hreq]
          exact (h.candidates e₀ he₀).trans (hl _).version_le
        · exact heq ▸ (hl _).version_le
      kept := hids ▸ kept_step h hplans hunclashed hl hw }

/-- The replicas have contents that their histories give, and the histories agree; so
    it is when they are empty. -/
structure Consistent (c : Cluster) : Prop where
  recorded : ∀ i ∈ c.ids, Recorded (c.nodes i)
  agree : ∀ i ∈ c.ids, ∀ j ∈ c.ids, Agree (c.nodes i).history (c.nodes j).history

theorem Start.complete (h : c.Start) (hc : c.Consistent) : c.Complete where
  toPlanned := h.planned
  elections := h.electionInv
  recorded := hc.recorded
  agree := hc.agree
  votes i hi v hv := absurd hv (by simp [h.votes i hi])
  candidates e he := absurd he (by simp [h.elections])
  kept w hw := absurd hw (by simp [h.writes])

/-- A candidate with the votes of a majority has every acknowledged entry of an older
    term. -/
theorem Complete.mem_history (h : c.Complete) {e : Election} {Q : Finset String} {w : Write}
    {x : Entry} (he : e ∈ c.elections) (hQ : IsMajority c.ids.toFinset Q)
    (hvotes : ∀ p ∈ Q, e.req.vote ∈ (c.nodes p).votes) (hw : w ∈ c.writes)
    (hx : w.acknowledged = some x) (hterm : x.term < e.req.term) :
    x ∈ (c.nodes e.candidate).history := by
  obtain ⟨Q', hQ', hmem⟩ := (h.kept w hw).majority x hx
  obtain ⟨p, hp, hp'⟩ := hQ.exists_common hQ'
  have hpid := List.mem_toFinset.1 (hQ.subset hp)
  have hcand := (h.elections.elections e he).candidate
  -- The common member has voted after it had the entry: a later one is of a later term.
  have hversion : x.version ≤ e.req.version := by
    rcases h.votes p hpid _ (hvotes p hp) x (hmem p hp') with hle | hle
    · exact absurd hterm (not_lt.2 hle)
    · exact hle
  refine (h.agree _ hcand p hpid).mem (h.recorded _ hcand).consecutive (hmem p hp')
    (h.recorded p hpid).consecutive ?_
  rw [← (h.recorded _ hcand).version]
  exact hversion.trans (h.candidates e he)

/-- In every run of careful steps, whenever a replica wins an election, it has the
    entry of every write acknowledged before, and its contents are those of its
    history. -/
theorem winner_complete {d d' : Cluster} (hstart : c.Start) (hc : c.Consistent)
    (as : List Action) (k : ℕ) (now : Time)
    (hC : Along step (fun c a => a.recovers = false ∧ c.PlansAll a ∧ c.Careful a) c
      (as ++ [.electionFinish k now]))
    (hd : exec step c as = some d) (hd' : d.step (.electionFinish k now) = some d')
    {e : Election} (he : d'.elections[k]? = some e) (hwon : e.result = some .won) {w : Write}
    {x : Entry} (hw : w ∈ d.writes) (hx : w.acknowledged = some x) :
    x ∈ (d'.nodes e.candidate).history ∧ Recorded (d'.nodes e.candidate) := by
  obtain ⟨hC, hlast, -⟩ := hC.of_append hd
  have h := invariant complete_step (hstart.complete hc) hC hd
  have h' := complete_step d (.electionFinish k now) d' h hlast hd'
  have hmem := List.mem_of_getElem? he
  refine ⟨?_, h'.recorded _ (h'.elections.elections e hmem).candidate⟩
  obtain ⟨Q, hQ, hvotes⟩ := (h'.elections.elections e hmem).won hwon
  obtain ⟨e₀, res, r, he₀, hnone, hfinish, rfl⟩ := step_electionFinish hd'
  refine h'.mem_history hmem hQ hvotes hw hx ?_
  rcases List.getElem?_set_cases he with ⟨-, rfl⟩ | ⟨-, he⟩
  · obtain rfl := Option.some.inj hwon
    obtain ⟨hterm, hvotes⟩ := ReplicaState.electionFinish_won hfinish
    exact hlast.2.2.2 e₀ he₀ hterm hvotes w hw x hx
  · obtain rfl := Option.some.inj (he₀.symm.trans he)
    exact absurd (hnone.symm.trans hwon) (by simp)

end Cluster

/-- The example starts empty. -/
theorem consistent_exampleCluster : exampleCluster.Consistent where
  recorded i _ := ⟨trivial, rfl, rfl⟩
  agree i _ j _ := by simp [exampleCluster, exampleNode, Agree]

/-- A write of `a` that reaches `b`, which then runs for election. -/
def failoverRun : List Action :=
  [.writeStart "a" (examplePut "v") 0, .writePlan 0, .replicate 0 "b" 0 true,
    .replicateReply 0 "b" (.response ⟨true, 0⟩), .replicateLost 0 "c", .writeFinish 0 true [],
    .electionBegin "b" 0, .requestVote 0 "c" 0, .voteReply 0 "c" ⟨1, true⟩, .voteLost 0 "a"]

/-- The winner `b` has the write. -/
theorem Cluster.winner_complete_failoverRun :
    ∃ d d' e, exec step exampleCluster failoverRun = some d ∧
      d.step (.electionFinish 0 0) = some d' ∧ d'.elections[0]? = some e ∧
      e.candidate = "b" ∧ e.result = some .won ∧
      ∀ w ∈ d.writes, ∀ x, w.acknowledged = some x → x ∈ (d'.nodes "b").history :=
  ⟨_, _, _, rfl, rfl, rfl, rfl, rfl, fun _ hw _ hx =>
    (Cluster.winner_complete start_exampleCluster consistent_exampleCluster failoverRun 0 0
      (by decide) rfl rfl rfl rfl hw hx).1⟩

/-- The write of `v` fails, but stays on `b`; the write of `w` gets the same version, and
    the acknowledgement of `c`. Then `c` votes for `b`, whose version is the same. -/
def reusedVersionRun : List Action :=
  [.writeStart "a" (examplePut "v") 0, .writePlan 0, .replicate 0 "b" 0 true,
    .replicateLost 0 "b", .replicateLost 0 "c", .writeFinish 0 true [],
    .writeStart "a" (examplePut "w") 0, .writePlan 1, .replicate 1 "c" 0 true,
    .replicateReply 1 "c" (.response ⟨true, 0⟩), .replicateLost 1 "b", .writeFinish 1 true [],
    .electionBegin "b" 0, .requestVote 0 "c" 0, .voteReply 0 "c" ⟨1, true⟩, .voteLost 0 "a"]

/-- The winner `b` lacks the acknowledged write: it has the failed one in its place. -/
theorem Cluster.winner_lacks_write :
    Along step (fun c a => a.recovers = false ∧ c.PlansAll a) exampleCluster reusedVersionRun ∧
    ∃ d d' e w, exec step exampleCluster reusedVersionRun = some d ∧
      d.step (.electionFinish 0 0) = some d' ∧ d'.elections[0]? = some e ∧
      e.candidate = "b" ∧ e.result = some .won ∧ d.writes[1]? = some w ∧
      w.acknowledged = some (.put 0 1 "k" "w") ∧
      (d'.nodes "b").history = [.put 0 1 "k" "v"] :=
  ⟨by decide, _, _, _, _, rfl, rfl, rfl, rfl, rfl, rfl, rfl, rfl⟩

/-- The leader `a` begins a write, votes for `b`, and makes the write in the new term;
    `b` wins without it. -/
def lateWinRun : List Action :=
  [.writeStart "a" (examplePut "v") 0, .electionBegin "b" 0, .requestVote 0 "a" 0, .writePlan 0,
    .replicate 0 "c" 0 true, .replicateReply 0 "c" (.response ⟨true, 1⟩), .replicateLost 0 "b",
    .writeFinish 0 true [], .voteReply 0 "a" ⟨1, true⟩, .voteLost 0 "c"]

/-- Even when no entry clashes with another, a winner may lack a write of its own term. -/
theorem Cluster.late_winner_lacks_write :
    Along step (fun c a => a.recovers = false ∧ c.PlansAll a ∧
      ∀ x ∈ c.acking a, c.Unclashed x.2) exampleCluster lateWinRun ∧
    ∃ d d' e w, exec step exampleCluster lateWinRun = some d ∧
      d.step (.electionFinish 0 0) = some d' ∧ d'.elections[0]? = some e ∧
      e.candidate = "b" ∧ e.result = some .won ∧ d.writes[0]? = some w ∧
      w.acknowledged = some (.put 1 1 "k" "v") ∧ (d'.nodes "b").history = [] :=
  ⟨by decide, _, _, _, _, rfl, rfl, rfl, rfl, rfl, rfl, rfl, rfl⟩

end Doki
