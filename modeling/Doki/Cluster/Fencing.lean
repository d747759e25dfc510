import Doki.Cluster.Writes

/-!
# Fencing of stale leaders

Once a majority of the replicas is past the term `t`, no write of this term that is
planned over all peers succeeds. Terms do not decrease, so the majority stays past
`t` (`Cluster.Fenced.above`); none of it acknowledges an entry of the term `t`
(`WriteFenced.refused`), and if the leader itself is past `t` by the time it commits,
its state machine refuses the entry. Acknowledgements enough for a success would be
those of another majority (`SendingOk.majority`).

* `Cluster.fenced_step`: the invariant is kept by every step;
* `Cluster.stale_write_fails`: such a write does not succeed, in any run.
-/

namespace Doki

open Majority Runs

/-- What holds of a write begun when all of `M` are past the term `t`. -/
structure WriteFenced (t : ℕ) (M : Finset String) (ids : List String) (w : Write) : Prop where
  /-- None of `M` has acknowledged an entry of the term `t`. -/
  refused : ∀ s, w.sent = some s → s.entry.term = t →
    ∀ p reply, (p, reply) ∈ s.fan.handled → reply.acked = true → p ∉ M
  /-- It does not succeed in the term `t`, if it is planned over all peers. -/
  failed : ∀ s, w.sent = some s → s.entry.term = t →
    (∀ p ∈ ids, p ≠ w.leader → p ∈ s.plan.livePeers) → ∀ ok, w.result ≠ some (.ok ok)

/-- The invariant: the majority `M` is past the term `t`, since `n` writes had begun. -/
structure Cluster.Fenced (t : ℕ) (M : Finset String) (n : ℕ) (c : Cluster) : Prop
    extends Planned c where
  majority : IsMajority c.ids.toFinset M
  above : ∀ p ∈ M, t < (c.nodes p).replica.term
  fenced : ∀ k w, n ≤ k → c.writes[k]? = some w → WriteFenced t M c.ids w

section

variable {t : ℕ} {M : Finset String} {ids : List String} {w : Write} {s : Sending}

/-- More responses, none of which is an acknowledgement by `M`. -/
theorem WriteFenced.setFan (h : WriteFenced t M ids w) (hs : w.sent = some s)
    {fan : FanOut String ReplicateReply}
    (hfan : s.entry.term = t →
      ∀ p reply, (p, reply) ∈ fan.handled → reply.acked = true → p ∉ M) :
    WriteFenced t M ids { w with sent := some { s with fan := fan } } where
  refused s' hs' := by
    obtain rfl := Option.some.inj hs'
    exact hfan
  failed s' hs' := by
    obtain rfl := Option.some.inj hs'
    exact h.failed s hs

end

namespace Cluster

variable {c c' : Cluster} {t : ℕ} {M : Finset String} {n : ℕ}

/-- A replica past the term `t` does not acknowledge an entry of it. -/
theorem Fenced.notMem_of_acked (h : c.Fenced t M n) {p : String} {now : Time} {e : Entry}
    {walOk : Bool} (hterm : e.term = t)
    (hacked : ((c.nodes p).replica.replicate now e walOk).2.acked = true) : p ∉ M := by
  intro hp
  have habove := h.above p hp
  have hterm_le := (ReplicaState.of_acked hacked).1
  omega

/-- A write of the term `t` that has been planned over all peers does not end in
    success. -/
theorem Fenced.not_ok (h : c.Fenced t M n) {w : Write} {s : Sending} {walOk : Bool}
    {fates : List Faulty.Fate} {res : Except WriteError WriteResult} {r : ReplicaState}
    (hok : WriteOk c.ids w) (hw : WriteFenced t M c.ids w) (hs : w.sent = some s)
    (hterm : s.entry.term = t) (hfull : ∀ p ∈ c.ids, p ≠ w.leader → p ∈ s.plan.livePeers)
    (hfinish : (c.nodes w.leader).replica.finishWrite w.now s.entry s.plan s.acked walOk fates =
      (res, r)) (ok : WriteResult) : res ≠ .ok ok := by
  rintro rfl
  rcases ReplicaState.finishWrite_effect s.version_pos hfinish with
    ⟨err, hres, -⟩ | ⟨ok', -, hneeded, happlies⟩
  · cases hres
  · obtain ⟨p, hpM, hp⟩ := h.majority.exists_common
      ((hok.sent s hs).majority c.nodup_ids hok.leader hfull hneeded)
    rcases Finset.mem_insert.1 hp with rfl | hp
    · -- The leader itself is past the term.
      have := h.above _ hpM
      have := happlies.term_le
      omega
    · obtain ⟨reply, hreply, hacked⟩ := FanOut.handled_of_success (List.mem_toFinset.1 hp)
      exact hw.refused s hs hterm p reply hreply hacked hpM

/-- The step lemma. -/
theorem fenced_step (c : Cluster) (a : Action) (c' : Cluster) (h : c.Fenced t M n)
    (ha : a.recovers = false) (hstep : c.step a = some c') : c'.Fenced t M n := by
  obtain ⟨hids, -, hl⟩ := step_later ha hstep
  have hw := writeStep ha hstep
  refine ⟨planned_step c a c' h.toPlanned ha hstep, hids ▸ h.majority,
    fun p hp => (h.above p hp).trans_le (hl p).evolves.term_le, ?_⟩
  have hset : ∀ {k : ℕ} {w' : Write},
      (n ≤ k → WriteFenced t M c.ids w') → ∀ j w, n ≤ j → (c.writes.set k w')[j]? = some w →
        WriteFenced t M c.ids w := by
    intro k w' hw' j w hj hwj
    rcases List.getElem?_set_cases hwj with ⟨rfl, rfl⟩ | ⟨-, hwj⟩
    · exact hw' hj
    · exact h.fenced j w hj hwj
  rw [hids]
  cases hw with
  | other hwrites hnodes => exact hwrites ▸ h.fenced
  | started hi hcheck =>
    -- A new write has not been sent yet.
    intro k w hk hwk
    rcases List.getElem?_concat_cases hwk with ⟨-, rfl⟩ | hwk
    · exact ⟨fun s hs => absurd hs (by simp), fun s hs => absurd hs (by simp)⟩
    · exact h.fenced k w hk hwk
  | planned hw hsent =>
    refine hset fun hk => ⟨fun s hs _ p reply hp => ?_, fun s hs _ _ ok hres => ?_⟩
    · obtain rfl := Option.some.inj hs
      exact absurd hp (by simp [FanOut.start])
    · have := (h.writes _ (List.mem_of_getElem? hw)).unsent hsent
      exact absurd (this.symm.trans hres) (by simp)
  | replicated hw hs hfan =>
    refine hset fun hk => (h.fenced _ _ hk hw).setFan hs fun hterm p reply hp hacked => ?_
    rw [(FanOut.of_handle hfan).2.2.2.1] at hp
    rcases List.mem_cons.1 hp with heq | hp
    · obtain ⟨rfl, rfl⟩ := Prod.mk.inj heq
      exact h.notMem_of_acked hterm hacked
    · exact (h.fenced _ _ hk hw).refused _ hs hterm p reply hp hacked
  | answered hw hs hres htargets hhandled =>
    exact hset fun hk => (h.fenced _ _ hk hw).setFan hs fun hterm p reply hp =>
      (h.fenced _ _ hk hw).refused _ hs hterm p reply (hhandled ▸ hp)
  | finished hw hs hres hfinish =>
    -- Here the majority counts: the acknowledgements would be those of another one.
    refine hset fun hk => ⟨(h.fenced _ _ hk hw).refused, fun s' hs' hterm hfull ok hok => ?_⟩
    obtain rfl := Option.some.inj (hs.symm.trans hs')
    exact h.not_ok (h.writes _ (List.mem_of_getElem? hw)) (h.fenced _ _ hk hw) hs hterm hfull
      hfinish ok (Option.some.inj hok)
  | forced hw =>
    exact hset fun hk => ⟨(h.fenced _ _ hk hw).refused, (h.fenced _ _ hk hw).failed⟩

/-- In any run, once a majority is past the term `t`, no write that begins later, in
    the term `t` and with all peers in its plan, succeeds. -/
theorem stale_write_fails {c₀ : Cluster} (hstart : c₀.Start) (as bs : List Action)
    (has : ∀ a ∈ as, a.recovers = false) (hbs : ∀ a ∈ bs, a.recovers = false)
    (hc : exec step c₀ as = some c) (hM : IsMajority c.ids.toFinset M)
    (habove : ∀ p ∈ M, t < (c.nodes p).replica.term) (hc' : exec step c bs = some c') {k : ℕ}
    {w : Write} {s : Sending} (hk : c.writes.length ≤ k) (hw : c'.writes[k]? = some w)
    (hs : w.sent = some s) (hterm : s.entry.term = t)
    (hfull : ∀ p ∈ (c'.nodes w.leader).replica.peers, p ∈ s.plan.livePeers) (ok : WriteResult) :
    w.result ≠ some (.ok ok) := by
  have hplanned := invariant planned_step hstart.planned (.of_forall_mem has) hc
  -- Nothing is claimed of the writes that have begun before.
  have hfenced : c.Fenced t M c.writes.length := by
    refine ⟨hplanned, hM, habove, fun j w hj hwj => ?_⟩
    rw [List.getElem?_eq_none hj] at hwj
    cases hwj
  have h := invariant fenced_step hfenced (.of_forall_mem hbs) hc'
  have hok := h.writes w (List.mem_of_getElem? hw)
  refine (h.fenced k w hk hw).failed s hs hterm (fun p hp hne => hfull p ?_) ok
  rw [h.configured.peers _ hok.leader, List.mem_filter]
  exact ⟨hp, by simpa using hne⟩

end Cluster

/-- A write of the deposed leader `a`, which `b` and `c` refuse. -/
def staleWriteRun : List Action :=
  [.writeStart "a" (examplePut "v") 0, .writePlan 0, .replicate 0 "b" 0 true,
    .replicateReply 0 "b" (.response ⟨false, 1⟩), .replicate 0 "c" 0 true,
    .replicateReply 0 "c" (.response ⟨false, 1⟩), .writeFinish 0 true []]

/-- With `b` and `c` in the term 1, a write in the term 0 over both of them fails. -/
theorem Cluster.stale_write_fails_staleWriteRun :
    ∃ c c' w s, exec step exampleCluster [.electionBegin "b" 0, .requestVote 0 "c" 0] = some c ∧
      exec step c staleWriteRun = some c' ∧ c'.writes[0]? = some w ∧ w.sent = some s ∧
      s.entry.term = 0 ∧ w.result.isSome = true ∧ ∀ ok, w.result ≠ some (.ok ok) :=
  ⟨_, _, _, _, rfl, rfl, rfl, rfl, rfl, rfl,
    Cluster.stale_write_fails start_exampleCluster [.electionBegin "b" 0, .requestVote 0 "c" 0]
      staleWriteRun (by decide) (by decide) rfl (t := 0) (M := {"b", "c"})
      ⟨by decide, by decide⟩ (by decide) rfl (Nat.zero_le 0) rfl rfl rfl (by decide)⟩

end Doki
