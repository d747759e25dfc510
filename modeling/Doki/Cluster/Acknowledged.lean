import Doki.Cluster.Convergence

/-!
# Acknowledged entries and snapshots

A follower that has answered a write with a success must not lose it any more once
the leader has acknowledged the write to its client. Entries only add to what it
has. A snapshot replaces it, and the version of the snapshot is not compared with
that of the follower: while the response of the leader is under way, the follower
may have applied entries that the snapshot does not have yet, and installing it takes
them back.

* `Cluster.Covers p v`: a replica at the version `v` has what `p` has answered for;
* `Cluster.NotOvertaken`: no entry is answered by a follower that an older snapshot is
  on its way to, and no recovery by a leader that waits for the write of an entry which
  the follower has answered;
* `Cluster.acks_kept`: then an acknowledged entry stays, under one leader;
* `Cluster.ack_rolled_back`: a snapshot undoes an acknowledged entry.
-/

namespace Doki

open Faulty Runs

/-- The peers that have answered with a success, whether their leader has got the
    answer or not. -/
def Sending.answered (s : Sending) : List String :=
  (s.fan.handled.filter fun x => x.2.acked).map Prod.fst

theorem Sending.mem_answered {s : Sending} {p : String} :
    p ∈ s.answered ↔ ∃ reply, (p, reply) ∈ s.fan.handled ∧ reply.acked = true := by
  simp [answered]

/-- The write has ended with an error. -/
def Write.failed (w : Write) : Bool :=
  match w.result with
  | some (.error _) => true
  | _ => false

/-- The snapshot that is on its way to the follower. -/
def Recovery.snapshot (x : Recovery) : Option Snapshot :=
  if x.finished then none
  else
    match x.response with
    | some (.snapshot s, _) => some s
    | _ => none

namespace Cluster

variable (c : Cluster)

/-- The versions of the entries that `p` has answered for, in writes that have not
    failed, are at most `v`. -/
def Covers (p : String) (v : ℕ) : Prop :=
  ∀ w ∈ c.writes, w.failed = false → ∀ s ∈ w.sent, p ∈ s.answered → s.entry.version ≤ v

/-- No follower is behind an acknowledged entry that it has answered for. -/
def AcksKept : Prop :=
  ∀ w ∈ c.writes, ∀ s ∈ w.sent, w.acknowledged = some s.entry →
    ∀ p ∈ s.answered, s.entry.version ≤ (c.nodes p).replica.version

/-- The replica that starts a write in a step. -/
def writer : Action → Option String
  | .writeStart i _ _ => some i
  | _ => none

/-- The recovery that is answered in a step. -/
def serving : Action → Option Recovery
  | .recoverServe k => c.recoveries[k]?
  | _ => none

/-- One leader makes the writes, and the others recover from it. -/
def OneLeader (ℓ : String) (a : Action) : Prop := (∀ i ∈ writer a, i = ℓ) ∧ RecoversFrom ℓ a

/-- A follower acknowledges no entry that is newer than a snapshot on its way to it. A
    leader answers no recovery of a follower that has answered for an entry which the
    leader itself is still to apply. -/
def NotOvertaken (a : Action) : Prop :=
  (∀ x ∈ c.acking a, ∀ y ∈ c.recoveries, y.follower = x.1 → ∀ s ∈ y.snapshot,
    x.2.version ≤ s.version) ∧
  ∀ x ∈ c.serving a, ∀ w ∈ c.writes, w.result = none → ∀ s ∈ w.sent, x.follower ∈ s.answered →
    s.entry.version ≤ (c.nodes x.source).replica.version

instance (ℓ : String) (a : Action) : Decidable (OneLeader ℓ a) :=
  inferInstanceAs (Decidable ((∀ i ∈ writer a, i = ℓ) ∧ RecoversFrom ℓ a))

instance (a : Action) : Decidable (c.NotOvertaken a) :=
  inferInstanceAs (Decidable (_ ∧ _))

/-- What holds of a write at any time, when its leader is at the version `v`. -/
structure LedBy (ℓ : String) (v : ℕ) (w : Write) : Prop where
  leader : w.leader = ℓ
  unsent : w.sent = none → w.result = none
  committed : ∀ e, w.acknowledged = some e → e.version ≤ v

/-- The invariant: the followers are past what they have answered for, and so are the
    snapshots on their way to them. -/
structure Secure (ℓ : String) (c : Cluster) : Prop where
  writes : ∀ w ∈ c.writes, LedBy ℓ (c.nodes ℓ).replica.version w
  recoveries : ∀ x ∈ c.recoveries, x.follower ≠ ℓ ∧ x.source = ℓ
  kept : ∀ p, c.Covers p (c.nodes p).replica.version
  snapshots : ∀ x ∈ c.recoveries, ∀ s ∈ x.snapshot, c.Covers x.follower s.version

variable {c} {c' : Cluster} {ℓ : String}

theorem LedBy.mono {v v' : ℕ} {w : Write} (h : LedBy ℓ v w) (hle : v ≤ v') : LedBy ℓ v' w :=
  ⟨h.leader, h.unsent, fun e he => (h.committed e he).trans hle⟩

theorem Covers.mono {p : String} {v v' : ℕ} (h : c.Covers p v) (hle : v ≤ v') : c.Covers p v' :=
  fun w hw hfailed s hs hp => (h w hw hfailed s hs hp).trans hle

theorem Covers.of_writes {p : String} {v : ℕ} (h : c.Covers p v) (hw : c'.writes = c.writes) :
    c'.Covers p v := by
  rw [Covers, hw]
  exact h

/-- One write has changed. -/
theorem Covers.setWrite {p : String} {v k : ℕ} {w : Write} {nodes : String → Node}
    (h : c.Covers p v)
    (hw : w.failed = false → ∀ s ∈ w.sent, p ∈ s.answered → s.entry.version ≤ v) :
    ({ c with nodes := nodes }.setWrite k w).Covers p v :=
  List.forall_mem_set h hw

/-! ## Steps of writes -/

/-- What a replica has answered for grows when it answers with a success. -/
theorem Covers.step {a : Action} {p : String} {v : ℕ} (h : c.Covers p v)
    (hstep : c.WriteStep a c')
    (hack : ∀ k now walOk w s, a = .replicate k p now walOk → c.writes[k]? = some w →
      w.sent = some s → ((c.nodes p).replica.replicate now s.entry walOk).2.acked = true →
      s.entry.version ≤ v) : c'.Covers p v := by
  cases hstep with
  | other hwrites hnodes => exact h.of_writes hwrites
  | started hi hcheck =>
    intro w hw
    rcases List.mem_append.1 hw with hw | hw
    · exact h w hw
    · obtain rfl := List.mem_singleton.1 hw
      exact fun _ s hs => absurd hs (by simp)
  | planned hw hsent =>
    refine h.setWrite fun _ s hs hp => ?_
    obtain rfl := Option.some.inj hs
    simp [Sending.answered, FanOut.start] at hp
  | @replicated k q now walOk w s fan hw hs hfan =>
    obtain ⟨-, -, -, hhandled, -⟩ := FanOut.of_handle hfan
    refine h.setWrite fun hfailed s' hs' hp => ?_
    obtain rfl := Option.some.inj hs'
    obtain ⟨reply, hmem, hacked⟩ := Sending.mem_answered.1 hp
    rw [hhandled] at hmem
    rcases List.mem_cons.1 hmem with heq | hmem
    · -- The answer that is given in this step.
      obtain ⟨rfl, rfl⟩ := Prod.mk.inj heq
      exact hack k now walOk w s rfl hw hs hacked
    · exact h w (List.mem_of_getElem? hw) hfailed s hs
        (Sending.mem_answered.2 ⟨reply, hmem, hacked⟩)
  | @answered a k w s fan hw hs hres htargets hhandled =>
    refine h.setWrite fun hfailed s' hs' hp => ?_
    obtain rfl := Option.some.inj hs'
    refine h w (List.mem_of_getElem? hw) hfailed s hs ?_
    rw [Sending.mem_answered] at hp ⊢
    rwa [hhandled] at hp
  | @finished k walOk fates w s res r ps hw hs hres hfinish =>
    refine h.setWrite fun _ => h w (List.mem_of_getElem? hw) ?_
    rw [Write.failed, hres]
  | @forced k q now w ps hw =>
    exact h.setWrite fun hfailed => h w (List.mem_of_getElem? hw) hfailed

/-- An acknowledged entry has been applied by the leader. -/
theorem ledBy_step {a : Action} (h : ∀ w ∈ c.writes, LedBy ℓ (c.nodes ℓ).replica.version w)
    (ha : ∀ i ∈ writer a, i = ℓ) (hl : NodeLater (c.nodes ℓ) (c'.nodes ℓ))
    (hstep : c.WriteStep a c') :
    ∀ w ∈ c'.writes, LedBy ℓ (c'.nodes ℓ).replica.version w := by
  have hlater : ∀ w ∈ c.writes, LedBy ℓ (c'.nodes ℓ).replica.version w :=
    fun w hw => (h w hw).mono hl.version_le
  cases hstep with
  | other hwrites hnodes => exact hwrites ▸ hlater
  | started hi hcheck =>
    intro w hw
    rcases List.mem_append.1 hw with hw | hw
    · exact hlater w hw
    · obtain rfl := List.mem_singleton.1 hw
      exact ⟨ha _ rfl, fun _ => rfl, fun e he => absurd he (by simp [Write.acknowledged])⟩
  | planned hw hsent =>
    have hok := hlater _ (List.mem_of_getElem? hw)
    refine List.forall_mem_set hlater ⟨hok.leader, fun hs => absurd hs (by simp), fun e he => ?_⟩
    simp [Write.acknowledged, hok.unsent hsent] at he
  | @replicated k q now walOk w s fan hw hs hfan =>
    have hok := hlater _ (List.mem_of_getElem? hw)
    refine List.forall_mem_set hlater ⟨hok.leader, fun hs => absurd hs (by simp), fun e he => ?_⟩
    refine hok.committed e ?_
    rw [Write.acknowledged] at he ⊢
    rw [hs]
    exact he
  | @answered a k w s fan hw hs hres htargets hhandled =>
    have hok := hlater _ (List.mem_of_getElem? hw)
    refine List.forall_mem_set hlater ⟨hok.leader, fun hs => absurd hs (by simp), fun e he => ?_⟩
    simp [Write.acknowledged, hres] at he
  | @finished k walOk fates w s res r ps hw hs hres hfinish =>
    have hok := hlater _ (List.mem_of_getElem? hw)
    refine List.forall_mem_set hlater
      ⟨hok.leader, fun hs' => absurd (hs.symm.trans hs') (by simp), fun e he => ?_⟩
    rcases ReplicaState.finishWrite_effect s.version_pos hfinish with
      ⟨err, rfl, -⟩ | ⟨ok, rfl, -, happlies⟩
    · simp [Write.acknowledged] at he
    · -- The leader has applied the entry in this step.
      obtain rfl : s.entry = e := by simpa [Write.acknowledged, hs] using he
      have hnode : ((c.track w.leader s.entry r).nodes ℓ).replica = r := by
        rw [← hok.leader, nodes_track_self]
        rfl
      rw [nodes_setWrite, hnode, happlies.version]
  | forced hw =>
    have hok := hlater _ (List.mem_of_getElem? hw)
    exact List.forall_mem_set hlater ⟨hok.leader, hok.unsent, hok.committed⟩

/-- The version of a replica that answers with a success is not below the entry's. -/
theorem version_le_of_acked {k : ℕ} {p : String} {now : Time} {walOk : Bool} {w : Write}
    {s : Sending} (hw : c.writes[k]? = some w) (hs : w.sent = some s)
    (hstep : c.step (.replicate k p now walOk) = some c')
    (hacked : ((c.nodes p).replica.replicate now s.entry walOk).2.acked = true) :
    s.entry.version ≤ (c'.nodes p).replica.version := by
  obtain ⟨w', s', fan, hw', hs', -, rfl⟩ := step_replicate hstep
  obtain rfl := Option.some.inj (hw.symm.trans hw')
  obtain rfl := Option.some.inj (hs.symm.trans hs')
  rw [nodes_setWrite, nodes_track_self]
  rcases (c.nodes p).replica.replicate_effect now s.entry walOk with ⟨hsame, hpast⟩ | ⟨happlies, -⟩
  · exact (hpast hacked).2.trans hsame.version.ge
  · exact happlies.version.ge

/-- A step outside the recovery loop. -/
theorem secure_write {a : Action} (h : c.Secure ℓ) (hℓ : OneLeader ℓ a) (hC : c.NotOvertaken a)
    (ha : a.recovers = false) (hstep : c.step a = some c') : c'.Secure ℓ := by
  obtain ⟨-, hrec, hl⟩ := step_later ha hstep
  have hw := writeStep ha hstep
  refine ⟨ledBy_step h.writes hℓ.1 (hl ℓ) hw, hrec ▸ h.recoveries, fun p => ?_, fun x hx s hs => ?_⟩
  · refine ((h.kept p).mono (hl p).version_le).step hw ?_
    rintro k now walOk w s rfl hk hs hacked
    exact version_le_of_acked hk hs hstep hacked
  · rw [hrec] at hx
    refine (h.snapshots x hx s hs).step hw ?_
    rintro k now walOk w s' rfl hk hs' hacked
    exact hC.1 _ (acking_replicate hk hs' hacked) x hx rfl s hs

/-! ## Steps of the recovery loop -/

/-- A step that touches neither the writes nor the version of a replica. -/
theorem Secure.still (h : c.Secure ℓ) (hwrites : c'.writes = c.writes)
    (hversion : ∀ p, (c'.nodes p).replica.version = (c.nodes p).replica.version)
    (hrec : ∀ x ∈ c'.recoveries, (x.follower ≠ ℓ ∧ x.source = ℓ) ∧
      ∀ s ∈ x.snapshot, c.Covers x.follower s.version) : c'.Secure ℓ where
  writes := by
    rw [hwrites, hversion]
    exact h.writes
  recoveries x hx := (hrec x hx).1
  kept p := (hversion p ▸ h.kept p).of_writes hwrites
  snapshots x hx s hs := ((hrec x hx).2 s hs).of_writes hwrites

/-- The recoveries of a secure cluster. -/
theorem Secure.recovery (h : c.Secure ℓ) : ∀ x ∈ c.recoveries, (x.follower ≠ ℓ ∧ x.source = ℓ) ∧
    ∀ s ∈ x.snapshot, c.Covers x.follower s.version :=
  fun x hx => ⟨h.recoveries x hx, h.snapshots x hx⟩

theorem version_setReplica {q : String} {r : ReplicaState}
    (hr : r.version = (c.nodes q).replica.version) (p : String) :
    ((c.setReplica q r).nodes p).replica.version = (c.nodes p).replica.version := by
  simp only [setReplica, Function.update_apply]
  split_ifs with hp
  · rw [hr, hp]
  · rfl

theorem secure_recoverFailed (h : c.Secure ℓ) {k : ℕ} {x : Recovery}
    (hx : c.recoveries[k]? = some x) : (c.recoverFailed k x).Secure ℓ := by
  have hr : ((c.nodes x.follower).replica.recoveryFailed x.status).version =
    (c.nodes x.follower).replica.version := rfl
  refine h.still rfl (version_setReplica hr) (List.forall_mem_set h.recovery ⟨?_, ?_⟩)
  · exact h.recoveries x (List.mem_of_getElem? hx)
  · exact fun s hs => absurd hs (by simp [Recovery.snapshot])

/-- A leader that has applied all that the follower has answered for has it in its
    snapshot. -/
theorem Secure.covers_leader (h : c.Secure ℓ) {p : String}
    (hopen : ∀ w ∈ c.writes, w.result = none → ∀ s ∈ w.sent, p ∈ s.answered →
      s.entry.version ≤ (c.nodes ℓ).replica.version) :
    c.Covers p (c.nodes ℓ).replica.version := by
  intro w hw hfailed s hs hp
  cases hres : w.result with
  | none => exact hopen w hw hres s hs hp
  | some res =>
    cases res with
    | error err => simp [Write.failed, hres] at hfailed
    | ok ok =>
      refine (h.writes w hw).committed s.entry ?_
      rw [Write.acknowledged, hres, hs]
      rfl

/-- The version of a follower that has installed a response is not lower, or it is that
    of the snapshot. -/
theorem Secure.covers_recover (h : c.Secure ℓ) {x : Recovery} (hx : x ∈ c.recoveries)
    (hopen : x.finished = false) {resp : RecoverResponse × List Entry}
    (hresp : x.response = some resp) (walOk : ℕ → Bool) (fates : List Fate) :
    c.Covers x.follower
      ((c.nodes x.follower).recover walOk fates x.status resp).replica.version := by
  rw [(Node.recover_contents _ walOk fates x.status resp).1]
  obtain ⟨resp, H⟩ := resp
  cases resp with
  | entries version es =>
    obtain ⟨-, -, -, hversion⟩ := (c.nodes x.follower).replica.doIncrementalRecovery_contents
      version es walOk fates
    exact (h.kept x.follower).mono (hversion ▸ Nat.le_add_right _ _)
  | snapshot s =>
    rw [(ReplicaState.contents_recover_snapshot _ s walOk fates).1]
    exact h.snapshots x hx s (by simp [Recovery.snapshot, hopen, hresp])

theorem secure_recoverApply (h : c.Secure ℓ) {k : ℕ} {walOk : ℕ → Bool} {fates : List Fate}
    (hstep : c.step (.recoverApply k walOk fates) = some c') : c'.Secure ℓ := by
  have hopen : ∀ x, c.recoveries[k]? = some x → x.finished = false := by
    intro x hx
    by_contra hfin
    rw [Bool.not_eq_false] at hfin
    simp [step, hx, hfin] at hstep
  obtain ⟨x, resp, hx, hresp, rfl⟩ := step_recoverApply hstep
  have hmem := List.mem_of_getElem? hx
  have hne := (h.recoveries x hmem).1
  refine ⟨?_, fun y hy => ?_, fun p => ?_, fun y hy => ?_⟩
  · simp only [Function.update_of_ne hne.symm]
    exact h.writes
  · exact (List.forall_mem_set (P := fun y => y.follower ≠ ℓ ∧ y.source = ℓ) h.recoveries
      (h.recoveries x hmem)) y hy
  · simp only [Function.update_apply]
    split_ifs with hp
    · subst hp
      exact h.covers_recover hmem (hopen x hx) hresp walOk fates
    · exact h.kept p
  · rcases List.mem_or_eq_of_mem_set hy with hy | rfl
    · exact h.snapshots y hy
    · exact fun s hs => absurd hs (by simp [Recovery.snapshot])

/-- The step lemma. -/
theorem secure_step (c : Cluster) (a : Action) (c' : Cluster) (h : c.Secure ℓ)
    (hC : OneLeader ℓ a ∧ c.NotOvertaken a) (hstep : c.step a = some c') : c'.Secure ℓ := by
  cases ha : a.recovers with
  | false => exact secure_write h hC.1 hC.2 ha hstep
  | true =>
    cases a with
    | recoverBegin p q leaderAddr =>
      have hr := ((c.nodes p).replica.sameContents_recoveryTick leaderAddr).version
      obtain ⟨-, rfl | ⟨x, rfl, rfl, hresp, rfl⟩⟩ := step_recoverBegin hstep
      · exact h.still rfl (version_setReplica hr) h.recovery
      · refine h.still rfl (version_setReplica hr) fun y hy => ?_
        rcases List.mem_append.1 hy with hy | hy
        · exact h.recovery y hy
        · obtain rfl := List.mem_singleton.1 hy
          refine ⟨hC.1.2 _ rfl, fun s hs => ?_⟩
          simp [Recovery.snapshot, hresp] at hs
    | recoverServe k =>
      obtain ⟨x, hx, rfl | ⟨resp, hresp, rfl⟩⟩ := step_recoverServe hstep
      · exact secure_recoverFailed h hx
      · have hsource := h.recoveries x (List.mem_of_getElem? hx)
        refine h.still rfl (fun p => rfl) (List.forall_mem_set h.recovery ⟨hsource, fun s hs => ?_⟩)
        -- A snapshot is the state that the leader is in.
        have hsnap : s.version = (c.nodes ℓ).replica.version := by
          rw [hsource.2] at hresp
          rcases ReplicaState.recover_ok hresp with ⟨es, rfl, -⟩ | rfl
          · simp [Recovery.snapshot] at hs
          · simp only [Recovery.snapshot, Option.mem_def, Option.ite_none_left_eq_some] at hs
            exact (Option.some.inj hs.2) ▸ rfl
        rw [hsnap]
        refine h.covers_leader ?_
        rw [← hsource.2]
        exact hC.2.2 x hx
    | recoverApply k walOk fates => exact secure_recoverApply h hstep
    | recoverLost k =>
      obtain ⟨x, hx, rfl⟩ := step_recoverLost hstep
      exact secure_recoverFailed h hx
    | _ => exact absurd ha (by simp [Action.recovers])

theorem Secure.acksKept (h : c.Secure ℓ) : c.AcksKept := by
  intro w hw s hs hack p hp
  refine h.kept p w hw ?_ s hs hp
  rw [Write.failed]
  split
  · rename_i err hres
    simp [Write.acknowledged, hres] at hack
  · rfl

/-- In every run under one leader in which no acknowledgement overtakes a snapshot, a
    follower that has answered for an entry is never behind it once the leader has
    acknowledged it. -/
theorem acks_kept (ℓ : String) {c₀ : Cluster} (hwrites : c₀.writes = [])
    (hrecoveries : c₀.recoveries = []) (as : List Action)
    (hC : Along step (fun c a => OneLeader ℓ a ∧ c.NotOvertaken a) c₀ as) :
    Throughout step AcksKept c₀ as := by
  have hstart : c₀.Secure ℓ := by
    refine ⟨?_, ?_, fun p w hw => ?_, ?_⟩
    · simp [hwrites]
    · simp [hrecoveries]
    · simp [hwrites] at hw
    · simp [hrecoveries]
  exact (throughout secure_step hstart hC).mono fun c h => h.acksKept

end Cluster

/-! The leader keeps one entry in its log. The follower `c` has just been started and
recovers, but its request is slow. -/

/-- A node that keeps one entry in its log. -/
def shortLogNode (id : String) : Node :=
  { exampleNode id with
    replica := initShard { exampleConfig id with replicationLogSize := 1 } exampleShard exampleMap 0
      Files.empty }

/-- Three such nodes. -/
def shortLogCluster : Cluster := { exampleCluster with nodes := shortLogNode }

/-- The write `k` of `a`, acknowledged by `c`. -/
def writeRun (k : ℕ) : List Action :=
  [.writeStart "a" (examplePut "v") 0, .writePlan k, .replicate k "c" 0 true,
    .replicateReply k "c" (.response ⟨true, 0⟩), .replicateLost k "b", .writeFinish k true []]

/-- The recovery of `c` is answered after two writes, and the response is installed
    before the third one. -/
def promptRun : List Action :=
  .recoverBegin "c" "a" "a:1" :: writeRun 0 ++ writeRun 1 ++
    [.recoverServe 0, .recoverApply 0 (fun _ => true) []] ++ writeRun 2

/-- The response is installed after the third write. -/
def overtakenRun : List Action :=
  .recoverBegin "c" "a" "a:1" :: writeRun 0 ++ writeRun 1 ++ [.recoverServe 0] ++ writeRun 2 ++
    [.recoverApply 0 (fun _ => true) []]

theorem Cluster.acks_kept_promptRun :
    (exec step shortLogCluster promptRun).map (fun c => (c.nodes "c").replica.version) = some 3 ∧
      Throughout step AcksKept shortLogCluster promptRun :=
  ⟨by decide +kernel, acks_kept "a" rfl rfl promptRun (by decide +kernel)⟩

/-- In the end `c` has answered for the version 3, the leader has acknowledged it, and `c`
    is back at the version 2. -/
theorem Cluster.ack_rolled_back :
    (∀ a ∈ overtakenRun, OneLeader "a" a) ∧
    ∃ c, exec step shortLogCluster overtakenRun = some c ∧
      ((c.writes[2]?).bind Write.acknowledged).map Entry.version = some 3 ∧
      ((c.writes[2]?).bind Write.sent).map Sending.answered = some ["c"] ∧
      (c.nodes "c").replica.version = 2 := by
  obtain ⟨c, hc⟩ := Option.isSome_iff_exists.1
    (by decide +kernel : (exec step shortLogCluster overtakenRun).isSome = true)
  have hend : (exec step shortLogCluster overtakenRun).map (fun c =>
      (((c.writes[2]?).bind Write.acknowledged).map Entry.version,
        ((c.writes[2]?).bind Write.sent).map Sending.answered,
        (c.nodes "c").replica.version)) = some (some 3, some ["c"], 2) := by
    decide +kernel
  rw [hc] at hend
  simp only [Option.map_some, Option.some.injEq, Prod.mk.injEq] at hend
  exact ⟨by decide, c, hc, hend.1, hend.2.1, hend.2.2⟩

end Doki
