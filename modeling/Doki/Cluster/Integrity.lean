import Doki.Cluster.Convergence
import Doki.Node.Client

/-!
# What a read can return

Whatever happens in a cluster (elections, lost messages, failed writes, recoveries of
any replica from any other one), a store is what the entries of a history leave, and
every one of these entries was sent for a put or a delete of a client. So a read
returns only what a client has put under the key, and a write that was refused before
it was sent is never seen.

What a replica has applied stays, until it installs a snapshot: until then a leader
that has acknowledged a write serves this write, or a newer one at its key.

* `Cluster.Sourced`: the invariant, kept by every step (`Cluster.sourced_step`);
* `Cluster.get_ok_of_put`: a value that is read was put by a client, and nothing was
  written at the key after it;
* `Cluster.get_notFound_of_delete`: a key that is not found is not written in the history
  that the replica has the state of, or deleted last;
* `Cluster.read_your_writes`: what a leader has acknowledged is read from it.
-/

namespace Doki

open Faulty Runs

/-- The entry `e` was sent for the write `w`, with what the client has asked for. -/
structure SentFor (w : Write) (e : Entry) : Prop where
  sent : w.sent.map (·.entry) = some e
  op : e.op = w.req.op
  key : e.key = w.req.key
  value : e.value = w.req.value

/-- The answer to a write, once there is one. -/
def Write.response (w : Write) : Option PutResponse := w.result.map writeResponse

/-- The entry `e` was sent for one of the writes. -/
def Sent (ws : List Write) (e : Entry) : Prop := ∃ w ∈ ws, SentFor w e

/-- What holds of a write at any time: its entry is what the client has asked for, and
    the answer is a success or a missing quorum. -/
structure WriteSound (ids : List String) (w : Write) : Prop where
  leader : w.leader ∈ ids
  sent : ∀ s, w.sent = some s → SentFor w s.entry
  response : ∀ resp, w.response = some resp →
    resp.result = .ok ∨ resp.result = .quorumUnavailable

section

variable {ids : List String} {ws : List Write} {w w' : Write} {e : Entry} {k : ℕ}

theorem SentFor.op_ne_unknown (h : SentFor w e) : e.op ≠ .unknown := h.op ▸ w.req.known

/-- A write has changed, but not what it sends. -/
theorem SentFor.of_eq (h : SentFor w e) (hreq : w'.req = w.req)
    (hsent : w'.sent.map (·.entry) = w.sent.map (·.entry)) : SentFor w' e where
  sent := hsent.trans h.sent
  op := hreq ▸ h.op
  key := hreq ▸ h.key
  value := hreq ▸ h.value

theorem Sent.append (h : Sent ws e) (w : Write) : Sent (ws ++ [w]) e := by
  obtain ⟨x, hx, hsent⟩ := h
  exact ⟨x, List.mem_append_left _ hx, hsent⟩

/-- One write has changed, and sends what it did. -/
theorem Sent.set (h : Sent ws e) (hw : ws[k]? = some w) (hw' : SentFor w e → SentFor w' e) :
    Sent (ws.set k w') e := by
  obtain ⟨x, hx, hsent⟩ := h
  by_cases hxw : x = w
  · subst hxw
    obtain ⟨hk, -⟩ := List.getElem?_eq_some_iff.1 hw
    exact ⟨w', List.mem_set hk w', hw' hsent⟩
  · exact ⟨x, List.mem_set_of_ne hx hw hxw, hsent⟩

theorem WriteSound.setFan {s : Sending} (h : WriteSound ids w) (hs : w.sent = some s)
    (fan : FanOut String ReplicateReply) :
    WriteSound ids { w with sent := some { s with fan := fan } } where
  leader := h.leader
  sent s' hs' := by
    obtain rfl := Option.some.inj hs'
    exact (h.sent s hs).of_eq rfl (by rw [hs]; rfl)
  response := h.response

end

namespace Cluster

variable {c c' : Cluster}

/-- An entry that was sent stays sent. -/
theorem WriteStep.sent {a : Action} (h : c.WriteStep a c') {e : Entry} (he : Sent c.writes e) :
    Sent c'.writes e := by
  cases h with
  | other hwrites hnodes => exact hwrites ▸ he
  | started => exact he.append _
  | planned hw hsent =>
    -- The write that is planned has not sent anything yet.
    exact he.set hw fun h => absurd h.sent (by simp [hsent])
  | replicated hw hs hfan => exact he.set hw fun h => h.of_eq rfl (by rw [hs]; rfl)
  | answered hw hs hres htargets hhandled => exact he.set hw fun h => h.of_eq rfl (by rw [hs]; rfl)
  | finished hw hs hres hfinish => exact he.set hw fun h => h.of_eq rfl rfl
  | forced hw => exact he.set hw fun h => h.of_eq rfl rfl

/-- The step lemma for writes. -/
theorem WriteStep.sound {a : Action} (h : c.WriteStep a c')
    (hc : ∀ w ∈ c.writes, WriteSound c.ids w) : ∀ w ∈ c'.writes, WriteSound c.ids w := by
  cases h with
  | other hwrites hnodes => exact hwrites ▸ hc
  | started hi hcheck =>
    exact List.forall_mem_concat hc ⟨hi, fun s hs => absurd hs (by simp),
      fun resp hresp => absurd hresp (by simp [Write.response])⟩
  | planned hw hsent =>
    have hok := hc _ (List.mem_of_getElem? hw)
    refine List.forall_mem_set hc ⟨hok.leader, fun s hs => ?_, hok.response⟩
    obtain rfl := Option.some.inj hs
    exact ⟨rfl, rfl, rfl, rfl⟩
  | replicated hw hs hfan =>
    exact List.forall_mem_set hc ((hc _ (List.mem_of_getElem? hw)).setFan hs _)
  | answered hw hs hres htargets hhandled =>
    exact List.forall_mem_set hc ((hc _ (List.mem_of_getElem? hw)).setFan hs _)
  | finished hw hs hres hfinish =>
    have hok := hc _ (List.mem_of_getElem? hw)
    refine List.forall_mem_set hc
      ⟨hok.leader, fun s hs => (hok.sent s hs).of_eq rfl rfl, fun resp hresp => ?_⟩
    obtain rfl := Option.some.inj hresp
    rcases ReplicaState.response_of_finishWrite hfinish with h | h
    · exact .inl (by rw [h])
    · exact .inr (by rw [h])
  | forced hw =>
    have hok := hc _ (List.mem_of_getElem? hw)
    exact List.forall_mem_set hc
      ⟨hok.leader, fun s hs => (hok.sent s hs).of_eq rfl rfl, hok.response⟩

/-- An entry that is acknowledged was sent. -/
theorem sent_of_acking (hc : ∀ w ∈ c.writes, WriteSound c.ids w) {a : Action} {p : String}
    {e : Entry} (h : c.acking a = some (p, e)) : Sent c.writes e := by
  have hsent : ∀ (k : ℕ) (P : Write → Sending → Option (String × Entry)),
      ((c.writes[k]?).bind fun w => w.sent.bind (P w)) = some (p, e) →
      (∀ w s x, P w s = some x → x.2 = s.entry) → Sent c.writes e := by
    intro k P h hP
    obtain ⟨w, hw, h⟩ := Option.bind_eq_some_iff.1 h
    obtain ⟨s, hs, h⟩ := Option.bind_eq_some_iff.1 h
    have hmem := List.mem_of_getElem? hw
    obtain rfl : e = s.entry := hP w s _ h
    exact ⟨w, hmem, (hc w hmem).sent s hs⟩
  cases a with
  | replicate k q now walOk =>
    refine hsent k _ h fun w s x hx => ?_
    split_ifs at hx
    exact Option.some.inj hx ▸ rfl
  | writeFinish k walOk fates =>
    refine hsent k _ h fun w s x hx => ?_
    split_ifs at hx
    exact Option.some.inj hx ▸ rfl
  | _ => cases h

/-- What holds of a recovery at any time: its response stands for entries that were
    sent. -/
structure SourcedRecovery (ids : List String) (ws : List Write) (x : Recovery) : Prop where
  source : x.source ∈ ids
  response : ∀ resp, x.response = some resp → ResponseOk resp ∧ ∀ e ∈ resp.2, Sent ws e

/-- The invariant: every store is what the entries of a history leave, and every entry
    was sent for a write of a client. -/
structure Sourced (c : Cluster) : Prop where
  writes : ∀ w ∈ c.writes, WriteSound c.ids w
  recorded : ∀ i ∈ c.ids, Recorded (c.nodes i)
  log : ∀ i ∈ c.ids, (c.nodes i).replica.repLog.entries ⊆ (c.nodes i).history
  history : ∀ i ∈ c.ids, ∀ e ∈ (c.nodes i).history, Sent c.writes e
  recoveries : ∀ x ∈ c.recoveries, SourcedRecovery c.ids c.writes x

/-- The recoveries of a run are from nodes of the cluster. -/
theorem source_mem_of_recoverBegin {p q leaderAddr : String}
    (h : c.step (.recoverBegin p q leaderAddr) = some c') : q ∈ c.ids := by
  rw [step] at h
  split_ifs at h with hp
  exact hp.2.1

/-- A step that applies nothing, and does not change the writes. -/
theorem Sourced.still (h : c.Sourced) (hids : c'.ids = c.ids) (hwrites : c'.writes = c.writes)
    (hstill : ∀ i, NodeStill (c.nodes i) (c'.nodes i))
    (hrec : ∀ x ∈ c'.recoveries, SourcedRecovery c.ids c.writes x) : c'.Sourced where
  writes := by rw [hids, hwrites]; exact h.writes
  recorded i hi := (h.recorded i (hids ▸ hi)).still (hstill i)
  log i hi := by
    rw [(hstill i).history]
    exact List.Subset.trans (hstill i).replica.repLog (h.log i (hids ▸ hi))
  history i hi := by
    rw [(hstill i).history, hwrites]
    exact h.history i (hids ▸ hi)
  recoveries x hx := by
    rw [hids, hwrites]
    exact hrec x hx

/-- A step of a write, or another one outside the recovery loop. -/
theorem sourced_write {a : Action} (h : c.Sourced) (ha : a.recovers = false)
    (hstep : c.step a = some c') : c'.Sourced := by
  obtain ⟨hids, hrec, -⟩ := step_later ha hstep
  have hw := writeStep ha hstep
  have hrecoveries : ∀ x ∈ c'.recoveries, SourcedRecovery c'.ids c'.writes x := by
    intro x hx
    have hx := h.recoveries x (hrec ▸ hx)
    refine ⟨hids ▸ hx.source, fun resp hresp => ?_⟩
    obtain ⟨hok, hsent⟩ := hx.response resp hresp
    exact ⟨hok, fun e he => hw.sent (hsent e he)⟩
  refine ⟨hids ▸ hw.sound h.writes, fun i hi => hw.recorded (h.recorded i (hids ▸ hi)),
    fun i hi => ?_, fun i hi e he => ?_, hrecoveries⟩
  all_goals have hi := hids ▸ hi
  all_goals rcases hw.contents with hstill | ⟨p, e₀, happlying, happlies, hothers⟩
  · rw [(hstill i).history]
    exact List.Subset.trans (hstill i).replica.repLog (h.log i hi)
  · by_cases hip : i = p
    · -- The log gets the entry that the history gets.
      subst hip
      obtain ⟨d, hd⟩ := (c.nodes i).replica.repLog.entries_append e₀
      rw [happlies.replica.repLog, hd, happlies.history]
      intro x hx
      rcases List.mem_append.1 hx with hx | hx
      · exact List.mem_append_left _ (h.log i hi (List.mem_of_mem_drop hx))
      · exact List.mem_append_right _ hx
    · rw [hothers i hip]
      exact h.log i hi
  · exact hw.sent (h.history i hi e ((hstill i).history ▸ he))
  · by_cases hip : i = p
    · subst hip
      rw [happlies.history] at he
      rcases List.mem_append.1 he with he | he
      · exact hw.sent (h.history i hi e he)
      · obtain rfl := List.mem_singleton.1 he
        exact hw.sent (sent_of_acking h.writes (acking_of_applying happlying))
    · exact hw.sent (h.history i hi e (by rwa [hothers i hip] at he))

end Cluster

/-- Applying entries logs those that are applied, and no others. -/
theorem ReplicaState.repLog_applyEntries (walOk : ℕ → Bool) (r : ReplicaState) (es : List Entry) :
    (applyEntries walOk r es).1.repLog.entries ⊆ r.repLog.entries ++ taken walOk r es := by
  induction es generalizing r with
  | nil => exact List.subset_append_left _ _
  | cons e es ih =>
    rw [applyEntries, taken]
    split_ifs
    · exact ih r
    · cases happly : r.apply e .withWAL (walOk e.version) with
      | mk s err =>
        cases err with
        | some err =>
          obtain ⟨ds, rfl⟩ := apply_error happly
          exact List.subset_append_left _ _
        | none =>
          obtain ⟨-, -, -, ds, rfl⟩ := apply_ok happly
          obtain ⟨d, hd⟩ := r.repLog.entries_append e
          intro x hx
          have hx : x ∈ (r.repLog.append e).entries ++
              taken walOk { r.applied e with ds := ds } es := ih _ hx
          rw [hd] at hx
          rcases List.mem_append.1 hx with hx | hx
          · rcases List.mem_append.1 hx with hx | hx
            · exact List.mem_append_left _ (List.mem_of_mem_drop hx)
            · exact List.mem_append_right _ (List.mem_singleton.1 hx ▸ List.mem_cons_self)
          · exact List.mem_append_right _ (List.mem_cons_of_mem _ hx)

namespace Node

/-- The log of a replica that has installed a response holds only what it has applied. -/
theorem recover_log {n : Node} (hlog : n.replica.repLog.entries ⊆ n.history)
    (walOk : ℕ → Bool) (fates : List Fate) (status : String)
    (resp : RecoverResponse × List Entry) :
    (n.recover walOk fates status resp).replica.repLog.entries ⊆
      (n.recover walOk fates status resp).history := by
  have heq : (n.recover walOk fates status resp).replica.repLog =
      (n.replica.doIncrementalRecovery resp.1 walOk fates).2.repLog := by
    simp only [recover]
    split <;> rfl
  rw [heq]
  obtain ⟨resp, H⟩ := resp
  cases resp with
  | entries version es =>
    have hes := ReplicaState.repLog_applyEntries walOk n.replica es
    change _ ⊆ n.history ++ ReplicaState.takenEntries walOk n.replica es
    rw [ReplicaState.doIncrementalRecovery, ReplicaState.takenEntries]
    cases firstGap n.replica.version (Counter.next n.replica.version) es with
    | some gap => exact List.Subset.trans hlog (List.subset_append_left _ _)
    | none =>
      have hes := List.Subset.trans hes (List.append_subset.2
        ⟨List.Subset.trans hlog (List.subset_append_left _ _), List.subset_append_right _ _⟩)
      simp only
      split <;> rename_i happly <;> rw [happly] at hes <;> exact hes
  | snapshot s =>
    obtain ⟨ds, hds⟩ := ReplicaState.doIncrementalRecovery_snapshot
      (Prod.mk.eta (p := n.replica.doIncrementalRecovery (.snapshot s) walOk fates)).symm
    rcases hds with hds | hds <;> rw [hds] <;> exact List.nil_subset _

/-- A replica has applied, after it has installed a response, what it had before and
    what the response stands for. -/
theorem mem_recover_history {n : Node} (h : Recorded n) {walOk : ℕ → Bool} {fates : List Fate}
    {status : String} {resp : RecoverResponse × List Entry} (hresp : ResponseOk resp) {e : Entry}
    (he : e ∈ (n.recover walOk fates status resp).history) : e ∈ n.history ∨ e ∈ resp.2 := by
  obtain ⟨resp, H⟩ := resp
  cases resp with
  | entries version es =>
    obtain ⟨-, gs, hgs, hhistory⟩ := recover_entries h walOk fates status version es H
    rw [hhistory] at he
    exact (List.mem_append.1 he).imp_right fun he => hresp e (hgs he)
  | snapshot s => exact .inr he

theorem recorded_recover {n : Node} (h : Recorded n) (walOk : ℕ → Bool) (fates : List Fate)
    (status : String) {resp : RecoverResponse × List Entry} (hresp : ResponseOk resp) :
    Recorded (n.recover walOk fates status resp) := by
  obtain ⟨resp, H⟩ := resp
  cases resp with
  | entries version es => exact (recover_entries h walOk fates status version es H).1
  | snapshot s => exact (n.recover_snapshot walOk fates status hresp).1

end Node

namespace Cluster

variable {c c' : Cluster}

/-- A recovery that has failed. -/
theorem sourced_recoverFailed (h : c.Sourced) {k : ℕ} {x : Recovery}
    (hx : c.recoveries[k]? = some x) : (c.recoverFailed k x).Sourced := by
  have hok := h.recoveries x (List.mem_of_getElem? hx)
  refine h.still rfl rfl
    (NodeStill.update ⟨ReplicaState.sameContents_recoveryFailed _ _, rfl⟩) ?_
  exact List.forall_mem_set h.recoveries ⟨hok.source, hok.response⟩

/-- A replica installs a response. -/
theorem sourced_recoverApply (h : c.Sourced) {k : ℕ} {walOk : ℕ → Bool} {fates : List Fate}
    (hstep : c.step (.recoverApply k walOk fates) = some c') : c'.Sourced := by
  obtain ⟨x, resp, hx, hresp, rfl⟩ := step_recoverApply hstep
  have hok := h.recoveries x (List.mem_of_getElem? hx)
  obtain ⟨hrespOk, hsent⟩ := hok.response resp hresp
  have hnodes : ∀ i ∈ c.ids, ∀ n : Node,
      n = Function.update c.nodes x.follower
        ((c.nodes x.follower).recover walOk fates x.status resp) i →
      Recorded n ∧ n.replica.repLog.entries ⊆ n.history ∧ ∀ e ∈ n.history, Sent c.writes e := by
    rintro i hi n rfl
    rw [Function.update_apply]
    split_ifs with hix
    · subst hix
      refine ⟨Node.recorded_recover (h.recorded _ hi) _ _ _ hrespOk,
        Node.recover_log (h.log _ hi) _ _ _ _, fun e he => ?_⟩
      rcases Node.mem_recover_history (h.recorded _ hi) hrespOk he with he | he
      · exact h.history _ hi e he
      · exact hsent e he
    · exact ⟨h.recorded i hi, h.log i hi, h.history i hi⟩
  exact ⟨h.writes, fun i hi => (hnodes i hi _ rfl).1, fun i hi => (hnodes i hi _ rfl).2.1,
    fun i hi => (hnodes i hi _ rfl).2.2,
    List.forall_mem_set h.recoveries ⟨hok.source, hok.response⟩⟩

/-- The step lemma. -/
theorem sourced_step (c : Cluster) (a : Action) (c' : Cluster) (h : c.Sourced)
    (hstep : c.step a = some c') : c'.Sourced := by
  cases ha : a.recovers with
  | false => exact sourced_write h ha hstep
  | true =>
    cases a with
    | recoverBegin p q leaderAddr =>
      have hq := source_mem_of_recoverBegin hstep
      have hsame : NodeStill (c.nodes p)
          { c.nodes p with replica := ((c.nodes p).replica.recoveryTick leaderAddr).1 } :=
        ⟨ReplicaState.sameContents_recoveryTick _ _, rfl⟩
      obtain ⟨-, rfl | ⟨x, -, rfl, hresp, rfl⟩⟩ := step_recoverBegin hstep
      · exact h.still rfl rfl (NodeStill.update hsame) h.recoveries
      · exact h.still rfl rfl (NodeStill.update hsame) (List.forall_mem_concat h.recoveries
          ⟨hq, fun resp h => absurd (hresp.symm.trans h) (by simp)⟩)
    | recoverServe k =>
      obtain ⟨x, hx, rfl | ⟨resp, hresp, rfl⟩⟩ := step_recoverServe hstep
      · exact sourced_recoverFailed h hx
      · -- The response comes with the history of the node that sends it.
        have hsource := (h.recoveries x (List.mem_of_getElem? hx)).source
        refine h.still rfl rfl (fun i => .refl _) (List.forall_mem_set h.recoveries
          ⟨hsource, fun resp' hresp' => ?_⟩)
        obtain rfl := Option.some.inj hresp'
        exact ⟨responseOk_recover (h.recorded _ hsource) (h.log _ hsource) hresp,
          h.history _ hsource⟩
    | recoverApply k walOk fates => exact sourced_recoverApply h hstep
    | recoverLost k =>
      obtain ⟨x, hx, rfl⟩ := step_recoverLost hstep
      exact sourced_recoverFailed h hx
    | _ => exact absurd ha (by simp [Action.recovers])

theorem Fresh.sourced (h : c.Fresh) (hwrites : c.writes = []) : c.Sourced where
  writes w hw := absurd hw (by simp [hwrites])
  recorded i hi := (h.converging hi).recorded i hi
  log i hi := by simp [h.log i hi]
  history i hi e he := absurd he (by simp [h.history i hi])
  recoveries x hx := absurd hx (by simp [h.recoveries])

/-- The invariant holds in every state of every run. -/
theorem sourced_exec {c₀ : Cluster} (hfresh : c₀.Fresh) (hwrites : c₀.writes = [])
    {as : List Action} (hc : exec step c₀ as = some c) : c.Sourced :=
  invariant (C := fun _ _ => True) (fun c a c' h _ hstep => sourced_step c a c' h hstep)
    (hfresh.sourced hwrites) (.of_forall_mem fun _ _ => trivial) hc

/-- The store of a replica has at every key what the last write of its history left. -/
theorem Sourced.lookup (h : c.Sourced) {i : String} (hi : i ∈ c.ids) (key : String) :
    (c.nodes i).replica.kv.lookup key =
      (lastWrite key (c.nodes i).history).bind Entry.written := by
  rw [(h.recorded i hi).kv]
  refine lookup_replay (fun e he => ?_) key
  obtain ⟨w, -, hsent⟩ := h.history i hi e he
  exact hsent.op_ne_unknown

/-- A write of `a` that `b` has acknowledged and `c` has missed, not ended yet. -/
def sentRun (k : ℕ) (req : KVRequest) : List Action :=
  [.writeStart "a" req 0, .writePlan k, .replicate k "b" 0 true,
    .replicateReply k "b" (.response ⟨true, 0⟩), .replicateLost k "c"]

/-- Such a write, with its end. -/
def ackedRun (k : ℕ) (req : KVRequest) : List Action := sentRun k req ++ [.writeFinish k true []]

/-- A delete of the key `k`. -/
def exampleDelete : KVRequest where
  op := .delete
  key := "k"
  value := ""
  known := by decide

/-- In every run, a value that is read was put under the key by a client, and the replica
    has applied no write at the key after it. The put was not refused: it was answered
    with a success or a missing quorum, or it is not answered yet. -/
theorem get_ok_of_put {c₀ : Cluster} (hfresh : c₀.Fresh) (hwrites : c₀.writes = [])
    (as : List Action) (hc : exec step c₀ as = some c) {i : String} (hi : i ∈ c.ids)
    (seen : ReplicaState) (key : String)
    (hget : (seen.get (c.nodes i).replica key).result = .ok) :
    ∃ w ∈ c.writes, ∃ s, w.sent = some s ∧ w.req.op = .put ∧ w.req.key = key ∧
      w.req.value = (seen.get (c.nodes i).replica key).value ∧
      (∀ resp, w.response = some resp →
        resp.result = .ok ∨ resp.result = .quorumUnavailable) ∧
      ∃ older newer, (c.nodes i).history = older ++ s.entry :: newer ∧
        ∀ e ∈ newer, e.key ≠ key := by
  have h := sourced_exec hfresh hwrites hc
  have hlookup := (ReplicaState.get_eq seen _ key).1 hget
  rw [h.lookup hi, Option.bind_eq_some_iff] at hlookup
  obtain ⟨e, hlast, hwritten⟩ := hlookup
  -- The last write at the key is a put, and it was sent for one of the writes.
  obtain ⟨w, hw, hsent⟩ := h.history i hi e (lastWrite_mem hlast).1
  obtain ⟨s, hs, rfl⟩ := Option.map_eq_some_iff.1 hsent.sent
  rw [Entry.written] at hwritten
  split_ifs at hwritten with hop
  obtain ⟨hkey, hnewest⟩ := lastWrite_eq_some_iff.1 hlast
  exact ⟨w, hw, s, hs, hsent.op ▸ hop, hsent.key ▸ hkey,
    hsent.value ▸ Option.some.inj hwritten, (h.writes w hw).response, hnewest⟩

/-- A read after a write of `v`. -/
theorem get_ok_of_put_ackedRun :
    ∃ c, exec step exampleCluster (ackedRun 0 (examplePut "v")) = some c ∧
      ∃ w ∈ c.writes, w.req.op = .put ∧ w.req.key = "k" ∧
        w.req.value = ((c.nodes "a").replica.get (c.nodes "a").replica "k").value := by
  obtain ⟨c, hc, hi, hget⟩ : ∃ c,
      exec step exampleCluster (ackedRun 0 (examplePut "v")) = some c ∧ "a" ∈ c.ids ∧
      ((c.nodes "a").replica.get (c.nodes "a").replica "k").result = .ok :=
    ⟨_, rfl, by decide, rfl⟩
  obtain ⟨w, hw, s, -, hop, hkey, hvalue, -⟩ :=
    get_ok_of_put fresh_exampleCluster rfl _ hc hi _ "k" hget
  exact ⟨c, hc, w, hw, hop, hkey, hvalue⟩

/-- In every run, a key that is not found is not written in the history that the replica has
    the state of, or the last write there is a delete of a client. -/
theorem get_notFound_of_delete {c₀ : Cluster} (hfresh : c₀.Fresh) (hwrites : c₀.writes = [])
    (as : List Action) (hc : exec step c₀ as = some c) {i : String} (hi : i ∈ c.ids)
    (seen : ReplicaState) (key : String)
    (hget : (seen.get (c.nodes i).replica key).result = .notFound) :
    (∀ e ∈ (c.nodes i).history, e.key ≠ key) ∨
    ∃ w ∈ c.writes, ∃ s, w.sent = some s ∧ w.req.op = .delete ∧ w.req.key = key ∧
      ∃ older newer, (c.nodes i).history = older ++ s.entry :: newer ∧
        ∀ e ∈ newer, e.key ≠ key := by
  have h := sourced_exec hfresh hwrites hc
  have hlookup := (ReplicaState.get_eq seen _ key).2 hget
  rw [h.lookup hi] at hlookup
  cases hlast : lastWrite key (c.nodes i).history with
  | none => exact .inl (lastWrite_eq_none_iff.1 hlast)
  | some e =>
    obtain ⟨w, hw, hsent⟩ := h.history i hi e (lastWrite_mem hlast).1
    obtain ⟨s, hs, rfl⟩ := Option.map_eq_some_iff.1 hsent.sent
    rw [hlast, Option.bind_some, Entry.written] at hlookup
    split_ifs at hlookup with hop
    obtain ⟨hkey, hnewest⟩ := lastWrite_eq_some_iff.1 hlast
    have hdelete : s.entry.op = .delete := by
      cases hop' : s.entry.op with
      | put => exact absurd hop' hop
      | delete => rfl
      | unknown => exact absurd hop' hsent.op_ne_unknown
    exact .inr ⟨w, hw, s, hs, hsent.op ▸ hdelete, hsent.key ▸ hkey, hnewest⟩

/-- A read after a write and a delete. -/
theorem get_notFound_of_delete_ackedRun :
    ∃ c, exec step exampleCluster (ackedRun 0 (examplePut "v") ++ ackedRun 1 exampleDelete) =
        some c ∧
      ((∀ e ∈ (c.nodes "a").history, e.key ≠ "k") ∨
        ∃ w ∈ c.writes, w.req.op = .delete ∧ w.req.key = "k") := by
  obtain ⟨c, hc, hi, hget⟩ : ∃ c,
      exec step exampleCluster (ackedRun 0 (examplePut "v") ++ ackedRun 1 exampleDelete) =
        some c ∧ "a" ∈ c.ids ∧
      ((c.nodes "a").replica.get (c.nodes "a").replica "k").result = .notFound :=
    ⟨_, rfl, by decide, rfl⟩
  refine ⟨c, hc, ?_⟩
  rcases get_notFound_of_delete fresh_exampleCluster rfl _ hc hi _ "k" hget with
    h | ⟨w, hw, s, -, hop, hkey, -⟩
  · exact .inl h
  · exact .inr ⟨w, hw, hop, hkey⟩

/-! ## What an acknowledged write is good for -/

/-- The replica that installs a snapshot in a step. -/
def installing (c : Cluster) : Action → Option String
  | .recoverApply k _ _ =>
    (c.recoveries[k]?).bind fun x =>
      x.response.bind fun resp =>
        match resp.1 with
        | .snapshot _ => some x.follower
        | .entries _ _ => none
  | _ => none

/-- The recovery loop changes neither the members nor the writes. -/
theorem recovers_frame {a : Action} (ha : a.recovers = true) (h : c.step a = some c') :
    c'.ids = c.ids ∧ c'.writes = c.writes := by
  cases a with
  | recoverBegin p q leaderAddr =>
    obtain ⟨-, rfl | ⟨x, -, -, -, rfl⟩⟩ := step_recoverBegin h <;> exact ⟨rfl, rfl⟩
  | recoverServe k =>
    obtain ⟨x, -, rfl | ⟨resp, -, rfl⟩⟩ := step_recoverServe h <;> exact ⟨rfl, rfl⟩
  | recoverApply k walOk fates =>
    obtain ⟨x, resp, -, -, rfl⟩ := step_recoverApply h
    exact ⟨rfl, rfl⟩
  | recoverLost k =>
    obtain ⟨x, -, rfl⟩ := step_recoverLost h
    exact ⟨rfl, rfl⟩
  | _ => exact absurd ha (by simp [Action.recovers])

theorem ids_step {a : Action} (h : c.step a = some c') : c'.ids = c.ids := by
  cases ha : a.recovers with
  | false => exact (step_later ha h).1
  | true => exact (recovers_frame ha h).1

/-- A replica takes back nothing that it has applied, unless it installs a snapshot. -/
theorem history_step {a : Action} (h : c.step a = some c') {i : String}
    (hi : c.installing a ≠ some i) : (c.nodes i).history <+: (c'.nodes i).history := by
  have hupdate : ∀ (p : String) (n : Node), (c.nodes p).history <+: n.history →
      (c.nodes i).history <+: (Function.update c.nodes p n i).history := by
    intro p n hn
    rw [Function.update_apply]
    split_ifs with hip
    · exact hip ▸ hn
    · exact List.prefix_rfl
  cases ha : a.recovers with
  | false => exact ((step_later ha h).2.2 i).history
  | true =>
    cases a with
    | recoverBegin p q leaderAddr =>
      obtain ⟨-, rfl | ⟨x, -, -, -, rfl⟩⟩ := step_recoverBegin h <;>
        exact hupdate _ _ List.prefix_rfl
    | recoverServe k =>
      obtain ⟨x, -, rfl | ⟨resp, -, rfl⟩⟩ := step_recoverServe h
      · exact hupdate _ _ List.prefix_rfl
      · exact List.prefix_rfl
    | recoverApply k walOk fates =>
      obtain ⟨x, ⟨resp, H⟩, hx, hresp, rfl⟩ := step_recoverApply h
      cases resp with
      | entries version es => exact hupdate _ _ (List.prefix_append _ _)
      | snapshot s =>
        have hne : i ≠ x.follower := by
          rintro rfl
          exact hi (by simp [installing, hx, hresp])
        have hsame : Function.update c.nodes x.follower
            ((c.nodes x.follower).recover walOk fates x.status (.snapshot s, H)) i = c.nodes i :=
          Function.update_of_ne hne _ _
        simp only [hsame]
        exact List.prefix_rfl
    | recoverLost k =>
      obtain ⟨x, -, rfl⟩ := step_recoverLost h
      exact hupdate _ _ List.prefix_rfl
    | _ => exact absurd ha (by simp [Action.recovers])

/-- A write that is answered with a success has been applied by its leader. -/
theorem applied_of_writeFinish {k : ℕ} {walOk : Bool} {fates : List Fate} {w : Write}
    (h : c.step (.writeFinish k walOk fates) = some c') (hw : c'.writes[k]? = some w)
    (hresp : w.response = some { result := .ok }) :
    ∃ s, w.sent = some s ∧ s.entry ∈ (c'.nodes w.leader).history := by
  obtain ⟨w₀, s, res, r, ps, hw₀, hs, -, hfinish, rfl⟩ := step_writeFinish h
  rcases List.getElem?_set_cases hw with ⟨-, rfl⟩ | ⟨hne, -⟩
  · refine ⟨s, hs, ?_⟩
    rcases ReplicaState.finishWrite_effect s.version_pos hfinish with
      ⟨err, rfl, -⟩ | ⟨ok, -, -, happlies⟩
    · exact absurd (congrArg PutResponse.result (Option.some.inj hresp)) (writeResponse_error err)
    · rw [nodes_setWrite, nodes_track_self, (NodeApplies.track happlies).history]
      exact List.mem_append_right _ List.mem_cons_self
  · exact absurd rfl hne

/-- In every run, when a leader has answered a write with a success, a ready leader's read
    at the key answers with this write or with one that follows it, until the replica
    installs a snapshot. -/
theorem read_your_writes {c₀ d : Cluster} (hfresh : c₀.Fresh) (hwrites : c₀.writes = [])
    (as bs : List Action) (hc : exec step c₀ as = some c) {k : ℕ} {walOk : Bool}
    {fates : List Fate} (hstep : c.step (.writeFinish k walOk fates) = some d) {w : Write}
    (hw : d.writes[k]? = some w) (hresp : w.response = some { result := .ok })
    (hbs : Along step (fun c a => c.installing a ≠ some w.leader) d bs)
    (hc' : exec step d bs = some c') (seen : ReplicaState) (hrole : seen.role = .leader)
    (hready : seen.isReady = true) :
    ∃ e x, SentFor w e ∧ Sent c'.writes x ∧ x.key = w.req.key ∧ e.version ≤ x.version ∧
      (x.version = e.version → x = e) ∧
      (x.op = .put ∧ seen.get (c'.nodes w.leader).replica w.req.key =
          { result := .ok, value := x.value } ∨
        x.op = .delete ∧ seen.get (c'.nodes w.leader).replica w.req.key =
          { result := .notFound }) := by
  have hd := sourced_step _ _ _ (sourced_exec hfresh hwrites hc) hstep
  have hsound := hd.writes w (List.mem_of_getElem? hw)
  obtain ⟨s, hs, he⟩ := applied_of_writeFinish hstep hw hresp
  -- What the leader has applied stays.
  obtain ⟨h', hi, he⟩ : c'.Sourced ∧ w.leader ∈ c'.ids ∧
      s.entry ∈ (c'.nodes w.leader).history := by
    have hkeep : ∀ (c : Cluster) a c', c.Sourced ∧ w.leader ∈ c.ids ∧
        s.entry ∈ (c.nodes w.leader).history → c.installing a ≠ some w.leader →
        c.step a = some c' → c'.Sourced ∧ w.leader ∈ c'.ids ∧
          s.entry ∈ (c'.nodes w.leader).history := by
      rintro c a c' ⟨hc, hi, he⟩ hC hstep
      exact ⟨sourced_step c a c' hc hstep, ids_step hstep ▸ hi,
        (history_step hstep hC).subset he⟩
    exact invariant hkeep ⟨hd, hsound.leader, he⟩ hbs hc'
  have hsent := hsound.sent s hs
  have hcons := (h'.recorded _ hi).consecutive
  obtain ⟨x, hlast, hle⟩ := exists_lastWrite hcons he
  obtain ⟨hx, hkey⟩ := lastWrite_mem hlast
  obtain ⟨w', hw', hsent'⟩ := h'.history _ hi x hx
  have hlookup := h'.lookup hi s.entry.key
  rw [hlast, Option.bind_some, Entry.written, hsent.key] at hlookup
  refine ⟨s.entry, x, hsent, ⟨w', hw', hsent'⟩, hkey.trans hsent.key, hle,
    fun heq => hcons.eq_of_version hx he heq, ?_⟩
  rw [ReplicaState.get, if_neg (not_not.2 hrole), if_neg (by simp [hready]), hlookup]
  cases hop : x.op with
  | put => exact .inl ⟨rfl, rfl⟩
  | delete => exact .inr ⟨rfl, rfl⟩
  | unknown => exact absurd hop hsent'.op_ne_unknown

/-- The write of `v` is followed by one of `w`: a read returns one of the two. -/
theorem read_your_writes_ackedRun :
    ∃ c d c' w, exec step exampleCluster (sentRun 0 (examplePut "v")) = some c ∧
      c.step (.writeFinish 0 true []) = some d ∧
      exec step d (ackedRun 1 (examplePut "w")) = some c' ∧
      d.writes[0]? = some w ∧ w.req.value = "v" ∧
      ∃ e x, SentFor w e ∧ Sent c'.writes x ∧ x.key = w.req.key ∧ e.version ≤ x.version := by
  obtain ⟨c, d, c', w, hc, hd, hc', hw, hvalue, hresp, hbs⟩ : ∃ c d c' w,
      exec step exampleCluster (sentRun 0 (examplePut "v")) = some c ∧
      c.step (.writeFinish 0 true []) = some d ∧
      exec step d (ackedRun 1 (examplePut "w")) = some c' ∧
      d.writes[0]? = some w ∧ w.req.value = "v" ∧ w.response = some { result := .ok } ∧
      Along step (fun c a => c.installing a ≠ some w.leader) d (ackedRun 1 (examplePut "w")) :=
    ⟨_, _, _, _, rfl, rfl, rfl, rfl, rfl, rfl, by decide⟩
  obtain ⟨e, x, he, hx, hkey, hle, -⟩ := read_your_writes fresh_exampleCluster rfl
    _ _ hc hd hw hresp hbs hc' (exampleNode "a").replica rfl rfl
  exact ⟨c, d, c', w, hc, hd, hc', hw, hvalue, e, x, he, hx, hkey, hle⟩

end Cluster

end Doki
