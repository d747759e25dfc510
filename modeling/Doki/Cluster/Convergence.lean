import Doki.Cluster.History

/-!
# Convergence of the followers

Under one leader `ℓ`, a follower at the version `v` should have the contents that
`ℓ` had at the version `v`. It has if its history is a beginning of the leader's,
and for this the two have to agree (`Agree`), which they do as long as no version
is used twice: a write that fails leaves its entry on the followers that have
applied it, and the next write of the leader gets the same version.

* `Cluster.ClashFree`: no entry is applied that clashes with the leader's history, or
  by the leader with that of a replica;
* `Cluster.converging_step`: then the histories of the followers agree with the
  leader's, also through recoveries. The entries of a response are the leader's,
  and a snapshot comes with the history it stands for;
* `Cluster.follower_converges`: the followers converge;
* `Cluster.follower_diverges`: with a version used twice, a ready follower has other
  contents than the leader at the same version.
-/

namespace Doki

open Faulty Runs

/-- What a response for a recovery stands for: entries from the history `h`, or the
    state that `h` gives. -/
def ResponseOk : RecoverResponse × List Entry → Prop
  | (.entries _ es, h) => ∀ e ∈ es, e ∈ h
  | (.snapshot s, h) => Consecutive 0 h ∧ s.version = h.length ∧ s.kv = replay ∅ h

/-- The response of a recorded leader. -/
theorem responseOk_recover {n : Node} {sinceVersion : ℕ} {resp : RecoverResponse}
    (h : Recorded n) (hlog : n.replica.repLog.entries ⊆ n.history)
    (hresp : n.replica.recover sinceVersion = .ok resp) : ResponseOk (resp, n.history) := by
  rcases ReplicaState.recover_ok hresp with ⟨es, rfl, hes⟩ | rfl
  · exact fun e he => hlog (hes e he)
  · exact ⟨h.consecutive, h.version, h.kv⟩

namespace Node

/-- A failed recovery and a successful one differ in the readiness only. -/
theorem recover_contents (n : Node) (walOk : ℕ → Bool) (fates : List Fate) (status : String)
    (resp : RecoverResponse × List Entry) :
    (n.recover walOk fates status resp).replica.version =
      (n.replica.doIncrementalRecovery resp.1 walOk fates).2.version ∧
    (n.recover walOk fates status resp).replica.kv =
      (n.replica.doIncrementalRecovery resp.1 walOk fates).2.kv := by
  simp only [recover]
  split <;> exact ⟨rfl, rfl⟩

/-- Recovering from entries applies some of them. -/
theorem recover_entries {n : Node} (h : Recorded n) (walOk : ℕ → Bool) (fates : List Fate)
    (status : String) (version : ℕ) (es H : List Entry) :
    Recorded (n.recover walOk fates status (.entries version es, H)) ∧
      ∃ gs ⊆ es, (n.recover walOk fates status (.entries version es, H)).history =
        n.history ++ gs := by
  obtain ⟨hversion, hkv⟩ := n.recover_contents walOk fates status (.entries version es, H)
  obtain ⟨hsub, hcons, hkv', hversion'⟩ :=
    n.replica.doIncrementalRecovery_contents version es walOk fates
  refine ⟨⟨?_, ?_, ?_⟩, _, hsub.subset, rfl⟩
  · exact consecutive_append.2 ⟨h.consecutive, by rwa [Nat.zero_add, ← h.version]⟩
  · rw [hversion, hversion', h.version]
    exact List.length_append.symm
  · rw [hkv, hkv', h.kv]
    exact (replay_append _ _ _).symm

/-- Recovering from a snapshot replaces the contents. -/
theorem recover_snapshot (n : Node) (walOk : ℕ → Bool) (fates : List Fate) (status : String)
    {s : Snapshot} {H : List Entry} (h : ResponseOk (.snapshot s, H)) :
    Recorded (n.recover walOk fates status (.snapshot s, H)) ∧
      (n.recover walOk fates status (.snapshot s, H)).history = H := by
  obtain ⟨hversion, hkv⟩ := n.recover_contents walOk fates status (.snapshot s, H)
  obtain ⟨hcons, hsversion, hskv⟩ := h
  obtain ⟨ds, hds⟩ := ReplicaState.doIncrementalRecovery_snapshot
    (Prod.mk.eta (p := n.replica.doIncrementalRecovery (.snapshot s) walOk fates)).symm
  refine ⟨⟨hcons, ?_, ?_⟩, rfl⟩
  · rw [hversion]
    rcases hds with hds | hds <;> rw [hds] <;> exact hsversion
  · rw [hkv]
    rcases hds with hds | hds <;> rw [hds] <;> exact hskv

end Node

/-- What holds of a recovery at any time, when the leader has the history `H`. -/
structure RecoveryOk (ids : List String) (ℓ : String) (H : List Entry) (x : Recovery) : Prop where
  follower : x.follower ∈ ids
  ne_leader : x.follower ≠ ℓ
  source : x.source = ℓ
  response : ∀ resp, x.response = some resp → ResponseOk resp ∧ resp.2 <+: H

theorem RecoveryOk.mono {ids : List String} {ℓ : String} {H H' : List Entry} {x : Recovery}
    (h : RecoveryOk ids ℓ H x) (hH : H <+: H') : RecoveryOk ids ℓ H' x where
  follower := h.follower
  ne_leader := h.ne_leader
  source := h.source
  response resp hresp := ⟨(h.response resp hresp).1, (h.response resp hresp).2.trans hH⟩

namespace Cluster

variable (ℓ : String)

/-- The replica that begins to recover in a step, and the one it recovers from. -/
def recovery : Action → Option (String × String)
  | .recoverBegin p q _ => some (p, q)
  | _ => none

/-- The followers recover, and they do from the leader `ℓ`. -/
def RecoversFrom (a : Action) : Prop := ∀ x ∈ recovery a, x.1 ≠ ℓ ∧ x.2 = ℓ

/-- The leader applies no entry when a replica has another one at its version, and a
    follower none when the leader has. -/
def ClashFree (c : Cluster) (a : Action) : Prop :=
  ∀ x ∈ c.applying a, if x.1 = ℓ then c.Unclashed x.2 else NoClash (c.nodes ℓ).history x.2

instance (a : Action) : Decidable (RecoversFrom ℓ a) :=
  inferInstanceAs (Decidable (∀ x ∈ recovery a, x.1 ≠ ℓ ∧ x.2 = ℓ))

instance (c : Cluster) (a : Action) : Decidable (c.ClashFree ℓ a) :=
  inferInstanceAs (Decidable (∀ x ∈ c.applying a,
    if x.1 = ℓ then c.Unclashed x.2 else NoClash (c.nodes ℓ).history x.2))

/-- The invariant: the followers' histories agree with the leader's. -/
structure Converging (c : Cluster) : Prop where
  leader : ℓ ∈ c.ids
  recorded : ∀ i ∈ c.ids, Recorded (c.nodes i)
  agree : ∀ i ∈ c.ids, Agree (c.nodes i).history (c.nodes ℓ).history
  log : (c.nodes ℓ).replica.repLog.entries ⊆ (c.nodes ℓ).history
  recoveries : ∀ x ∈ c.recoveries, RecoveryOk c.ids ℓ (c.nodes ℓ).history x

variable {ℓ} {c c' : Cluster}

/-- A step in which nothing is applied. -/
theorem Converging.still (h : c.Converging ℓ) (hids : c'.ids = c.ids)
    (hstill : ∀ i, NodeStill (c.nodes i) (c'.nodes i))
    (hrec : ∀ x ∈ c'.recoveries, RecoveryOk c.ids ℓ (c.nodes ℓ).history x) :
    c'.Converging ℓ where
  leader := hids ▸ h.leader
  recorded i hi := (h.recorded i (hids ▸ hi)).still (hstill i)
  agree i hi := by
    rw [(hstill i).history, (hstill ℓ).history]
    exact h.agree i (hids ▸ hi)
  log := by
    rw [(hstill ℓ).history]
    exact List.Subset.trans (hstill ℓ).replica.repLog h.log
  recoveries x hx := by
    rw [hids, (hstill ℓ).history]
    exact hrec x hx

/-- A recovery has changed. -/
theorem Converging.setRecovery (h : c.Converging ℓ) {k : ℕ} {x : Recovery}
    (hx : RecoveryOk c.ids ℓ (c.nodes ℓ).history x) :
    ∀ y ∈ c.recoveries.set k x, RecoveryOk c.ids ℓ (c.nodes ℓ).history y :=
  List.forall_mem_set h.recoveries hx

/-- A step of a write, or another one outside the recovery loop. -/
theorem converging_write {a : Action} (h : c.Converging ℓ) (hC : c.ClashFree ℓ a)
    (ha : a.recovers = false) (hstep : c.step a = some c') : c'.Converging ℓ := by
  obtain ⟨hids, hrec, hl⟩ := step_later ha hstep
  have hw := writeStep ha hstep
  rcases hw.contents with hstill | ⟨p, e, happlying, happlies, hothers⟩
  · exact h.still hids hstill (hrec ▸ h.recoveries)
  · have hclash := hC _ happlying
    have hothers' : ∀ q, q ≠ p → (c'.nodes q).history = (c.nodes q).history :=
      fun q hq => by rw [hothers q hq]
    refine ⟨hids ▸ h.leader, fun i hi => hw.recorded (h.recorded i (hids ▸ hi)), fun i hi => ?_, ?_,
      fun x hx => hids ▸ (h.recoveries x (hrec ▸ hx)).mono (hl ℓ).history⟩
    all_goals by_cases hp : p = ℓ
    · -- The leader applies the entry, and no replica has another one.
      subst hp
      rw [if_pos rfl] at hclash
      have hi := hids ▸ hi
      refine (h.agree i hi).concat (hclash i hi) (hclash p h.leader) ?_ (.inr happlies.history)
      by_cases hip : i = p
      · exact .inr (hip ▸ happlies.history)
      · exact .inl (hothers' i hip)
    · -- A follower applies the entry, and the leader does not have another one.
      rw [if_neg hp] at hclash
      rw [hothers' ℓ (Ne.symm hp)]
      by_cases hip : i = p
      · subst hip
        rw [happlies.history]
        exact (h.agree i (hids ▸ hi)).append (by simpa using hclash)
      · rw [hothers' i hip]
        exact h.agree i (hids ▸ hi)
    · -- The log of the leader gets the entry that its history gets.
      subst hp
      obtain ⟨d, hd⟩ := (c.nodes p).replica.repLog.entries_append e
      rw [happlies.replica.repLog, hd, happlies.history]
      intro x hx
      rcases List.mem_append.1 hx with hx | hx
      · exact List.mem_append_left _ (h.log (List.mem_of_mem_drop hx))
      · exact List.mem_append_right _ hx
    · rw [hothers ℓ (Ne.symm hp)]
      exact h.log

/-- A recovery that has failed. -/
theorem converging_recoverFailed (h : c.Converging ℓ) {k : ℕ} {x : Recovery}
    (hx : c.recoveries[k]? = some x) : (c.recoverFailed k x).Converging ℓ := by
  have hok := h.recoveries x (List.mem_of_getElem? hx)
  refine h.still rfl (NodeStill.update ⟨ReplicaState.sameContents_recoveryFailed _ _, rfl⟩) ?_
  exact h.setRecovery ⟨hok.follower, hok.ne_leader, hok.source, hok.response⟩

/-- A follower installs a response. -/
theorem converging_recoverApply (h : c.Converging ℓ) {k : ℕ} {walOk : ℕ → Bool}
    {fates : List Fate} (hstep : c.step (.recoverApply k walOk fates) = some c') :
    c'.Converging ℓ := by
  obtain ⟨x, resp, hx, hresp, rfl⟩ := step_recoverApply hstep
  have hok := h.recoveries x (List.mem_of_getElem? hx)
  obtain ⟨hrespOk, hH⟩ := hok.response resp hresp
  have hleader : Function.update c.nodes x.follower
      ((c.nodes x.follower).recover walOk fates x.status resp) ℓ = c.nodes ℓ :=
    Function.update_of_ne hok.ne_leader.symm _ _
  have hself : ∀ e ∈ (c.nodes ℓ).history, NoClash (c.nodes ℓ).history e := h.agree ℓ h.leader
  have hnew : Recorded ((c.nodes x.follower).recover walOk fates x.status resp) ∧
      Agree ((c.nodes x.follower).recover walOk fates x.status resp).history
        (c.nodes ℓ).history := by
    obtain ⟨resp, H⟩ := resp
    cases resp with
    -- The entries are the leader's, and agree with what it has.
    | entries version es =>
      obtain ⟨hrec, gs, hgs, hhistory⟩ := Node.recover_entries (h.recorded _ hok.follower)
        walOk fates x.status version es H
      refine ⟨hrec, hhistory ▸ (h.agree _ hok.follower).append fun e he => ?_⟩
      exact hself e (hH.subset (hrespOk e (hgs he)))
    -- The follower takes over the history of the leader at the time of the response.
    | snapshot s =>
      obtain ⟨hrec, hhistory⟩ :=
        (c.nodes x.follower).recover_snapshot walOk fates x.status hrespOk
      exact ⟨hrec, fun e he y hy => hself e he y (hH.subset (hhistory ▸ hy))⟩
  refine ⟨h.leader, fun i hi => ?_, fun i hi => ?_, ?_, ?_⟩
  · simp only [Function.update_apply]
    split_ifs
    · exact hnew.1
    · exact h.recorded i hi
  · simp only [hleader]
    rw [Function.update_apply]
    split_ifs
    · exact hnew.2
    · exact h.agree i hi
  · simp only [hleader]
    exact h.log
  · simp only [hleader]
    exact h.setRecovery ⟨hok.follower, hok.ne_leader, hok.source, hok.response⟩

/-- The step lemma. -/
theorem converging_step (c : Cluster) (a : Action) (c' : Cluster) (h : c.Converging ℓ)
    (hC : RecoversFrom ℓ a ∧ c.ClashFree ℓ a) (hstep : c.step a = some c') :
    c'.Converging ℓ := by
  cases ha : a.recovers with
  | false => exact converging_write h hC.2 ha hstep
  | true =>
    cases a with
    | recoverBegin p q leaderAddr =>
      obtain ⟨hp, rfl | ⟨x, rfl, rfl, hresp, rfl⟩⟩ := step_recoverBegin hstep
      · exact h.still rfl
          (NodeStill.update ⟨ReplicaState.sameContents_recoveryTick _ _, rfl⟩) h.recoveries
      · refine h.still rfl
          (NodeStill.update ⟨ReplicaState.sameContents_recoveryTick _ _, rfl⟩) fun y hy => ?_
        rcases List.mem_append.1 hy with hy | hy
        · exact h.recoveries y hy
        · obtain rfl := List.mem_singleton.1 hy
          obtain ⟨hne, hsource⟩ := hC.1 _ rfl
          exact ⟨hp, hne, hsource, fun resp h => absurd (hresp.symm.trans h) (by simp)⟩
    | recoverServe k =>
      obtain ⟨x, hx, rfl | ⟨resp, hresp, rfl⟩⟩ := step_recoverServe hstep
      · exact converging_recoverFailed h hx
      · have hok := h.recoveries x (List.mem_of_getElem? hx)
        refine h.still rfl (fun i => .refl _) (h.setRecovery
          ⟨hok.follower, hok.ne_leader, hok.source, fun resp' hresp' => ?_⟩)
        obtain rfl := Option.some.inj hresp'
        rw [hok.source] at hresp ⊢
        exact ⟨responseOk_recover (h.recorded ℓ h.leader) h.log hresp, List.prefix_rfl⟩
    | recoverApply k walOk fates => exact converging_recoverApply h hstep
    | recoverLost k =>
      obtain ⟨x, hx, rfl⟩ := step_recoverLost hstep
      exact converging_recoverFailed h hx
    | _ => exact absurd ha (by simp [Action.recovers])

/-- The recovery loop leaves the leader alone. -/
theorem Converging.leader_eq (h : c.Converging ℓ) {a : Action} (hC : RecoversFrom ℓ a)
    (ha : a.recovers = true) (hstep : c.step a = some c') : c'.nodes ℓ = c.nodes ℓ := by
  have hfollower : ∀ {k : ℕ} {x : Recovery}, c.recoveries[k]? = some x → ℓ ≠ x.follower :=
    fun hx => (h.recoveries _ (List.mem_of_getElem? hx)).ne_leader.symm
  cases a with
  | recoverBegin p q leaderAddr =>
    obtain ⟨hne, -⟩ := hC _ rfl
    obtain ⟨-, rfl | ⟨x, -, -, -, rfl⟩⟩ := step_recoverBegin hstep
    · exact Function.update_of_ne hne.symm _ _
    · exact Function.update_of_ne hne.symm _ _
  | recoverServe k =>
    obtain ⟨x, hx, rfl | ⟨resp, -, rfl⟩⟩ := step_recoverServe hstep
    · exact Function.update_of_ne (hfollower hx) _ _
    · rfl
  | recoverApply k walOk fates =>
    obtain ⟨x, resp, hx, -, rfl⟩ := step_recoverApply hstep
    exact Function.update_of_ne (hfollower hx) _ _
  | recoverLost k =>
    obtain ⟨x, hx, rfl⟩ := step_recoverLost hstep
    exact Function.update_of_ne (hfollower hx) _ _
  | _ => exact absurd ha (by simp [Action.recovers])

/-- The history of the leader grows by one entry at a time. -/
theorem Converging.leader_history (h : c.Converging ℓ) {a : Action} (hC : RecoversFrom ℓ a)
    (hstep : c.step a = some c') :
    (c'.nodes ℓ).history = (c.nodes ℓ).history ∨
      ∃ e, (c'.nodes ℓ).history = (c.nodes ℓ).history ++ [e] := by
  cases ha : a.recovers with
  | true => exact .inl (by rw [h.leader_eq hC ha hstep])
  | false =>
    rcases (writeStep ha hstep).contents with hstill | ⟨p, e, -, happlies, hothers⟩
    · exact .inl (hstill ℓ).history
    · by_cases hp : ℓ = p
      · exact .inr ⟨e, hp ▸ happlies.history⟩
      · exact .inl (by rw [hothers ℓ hp])

/-- What the leader has applied is not taken back. -/
theorem leader_history_exec {as : List Action} (h : c.Converging ℓ)
    (hC : Along step (fun c a => RecoversFrom ℓ a ∧ c.ClashFree ℓ a) c as)
    (hc' : exec step c as = some c') :
    c'.Converging ℓ ∧ (c.nodes ℓ).history <+: (c'.nodes ℓ).history := by
  have hkept : ∀ (d : Cluster) (a : Action) (d' : Cluster),
      d.Converging ℓ ∧ (c.nodes ℓ).history <+: (d.nodes ℓ).history →
      RecoversFrom ℓ a ∧ d.ClashFree ℓ a → d.step a = some d' →
      d'.Converging ℓ ∧ (c.nodes ℓ).history <+: (d'.nodes ℓ).history := by
    intro d a d' ⟨hd, hbegins⟩ hC hstep
    refine ⟨converging_step d a d' hd hC hstep, ?_⟩
    rcases hd.leader_history hC.1 hstep with heq | ⟨e, heq⟩
    · rwa [heq]
    · exact heq ▸ hbegins.trans (List.prefix_append _ _)
  exact invariant hkept ⟨h, List.prefix_rfl⟩ hC hc'

/-- A follower at the version of an earlier leader has its contents. -/
theorem Converging.kv_eq {d : Cluster} (h : c.Converging ℓ) (hd : d.Converging ℓ)
    (hbegins : (d.nodes ℓ).history <+: (c.nodes ℓ).history) {p : String} (hp : p ∈ c.ids)
    (hversion : (d.nodes ℓ).replica.version = (c.nodes p).replica.version) :
    (c.nodes p).replica.kv = (d.nodes ℓ).replica.kv := by
  have hpRec := h.recorded p hp
  have hdRec := hd.recorded ℓ hd.leader
  rw [hpRec.version, hdRec.version] at hversion
  -- Both histories are the beginning of the leader's, of the same length.
  have htake := (h.agree p hp).eq_take hpRec.consecutive (h.recorded ℓ h.leader).consecutive
    (hversion ▸ hbegins.length_le)
  rw [hpRec.kv, hdRec.kv, htake, List.prefix_iff_eq_take.1 hbegins, hversion]

/-- All replicas are empty, and no recovery is under way. -/
structure Fresh (c : Cluster) : Prop where
  version : ∀ i ∈ c.ids, (c.nodes i).replica.version = 0
  kv : ∀ i ∈ c.ids, (c.nodes i).replica.kv = ∅
  log : ∀ i ∈ c.ids, (c.nodes i).replica.repLog.entries = []
  history : ∀ i ∈ c.ids, (c.nodes i).history = []
  recoveries : c.recoveries = []

theorem Fresh.converging (h : c.Fresh) (hℓ : ℓ ∈ c.ids) : c.Converging ℓ where
  leader := hℓ
  recorded i hi := by
    refine ⟨?_, ?_, ?_⟩
    · rw [h.history i hi]
      trivial
    · rw [h.history i hi, h.version i hi]
      rfl
    · rw [h.history i hi, h.kv i hi]
      rfl
  agree i hi := by simp [h.history i hi, Agree, NoClash]
  log := by simp [h.log ℓ hℓ]
  recoveries x hx := absurd hx (by simp [h.recoveries])

/-- The version of the leader grows by at most one. -/
theorem Converging.leader_version_le (h : c.Converging ℓ) (h' : c'.Converging ℓ) {a : Action}
    (hC : RecoversFrom ℓ a) (hstep : c.step a = some c') :
    (c'.nodes ℓ).replica.version ≤ (c.nodes ℓ).replica.version + 1 := by
  rw [(h.recorded ℓ h.leader).version, (h'.recorded ℓ h'.leader).version]
  rcases h.leader_history hC hstep with heq | ⟨e, heq⟩ <;> simp [heq]

/-- In every run without clashes, a follower with a version `v` that is not ahead of the
    leader's, ready or not, has the contents of the leader at the version `v`: there
    is a moment when the leader was at `v`, and at every such moment it had them. -/
theorem follower_converges (ℓ : String) {c₀ : Cluster} (hfresh : c₀.Fresh) (hℓ : ℓ ∈ c₀.ids)
    (as : List Action)
    (hC : Along step (fun c a => RecoversFrom ℓ a ∧ c.ClashFree ℓ a) c₀ as)
    (hc : exec step c₀ as = some c) {p : String} (hp : p ∈ c.ids)
    (hle : (c.nodes p).replica.version ≤ (c.nodes ℓ).replica.version) :
    (∃ bs cs d, as = bs ++ cs ∧ exec step c₀ bs = some d ∧
      (d.nodes ℓ).replica.version = (c.nodes p).replica.version) ∧
    ∀ bs cs d, as = bs ++ cs → exec step c₀ bs = some d →
      (d.nodes ℓ).replica.version = (c.nodes p).replica.version →
      (c.nodes p).replica.kv = (d.nodes ℓ).replica.kv := by
  have h₀ := hfresh.converging hℓ
  constructor
  · refine exists_stopover (f := fun d : Cluster => (d.nodes ℓ).replica.version)
      (fun d a d' hd hC hstep => ?_) h₀ hC hc (hfresh.version ℓ hℓ ▸ Nat.zero_le _) hle
    have hd' := converging_step d a d' hd hC hstep
    exact ⟨hd', hd.leader_version_le hd' hC.1 hstep⟩
  · -- The run stops over in `d`, and goes on from there.
    rintro bs cs d rfl hd hversion
    obtain ⟨hCbs, hCcs⟩ := hC.of_append hd
    obtain ⟨t, ht, hc⟩ := exec_append hc
    obtain rfl := Option.some.inj (hd.symm.trans ht)
    obtain ⟨hdConv, -⟩ := leader_history_exec h₀ hCbs hd
    obtain ⟨hcConv, hbegins⟩ := leader_history_exec hdConv hCcs hc
    exact hcConv.kv_eq hdConv hbegins hp hversion

end Cluster

/-- The example is empty. -/
theorem fresh_exampleCluster : exampleCluster.Fresh where
  version := by decide
  kv := by decide
  log := by decide
  history := by decide
  recoveries := rfl

/-- A write of `a` that misses `c`, which learns from the next one that it lags, and
    recovers. -/
def laggingRun : List Action :=
  [.writeStart "a" (examplePut "v") 0, .writePlan 0, .replicate 0 "b" 0 true,
    .replicateReply 0 "b" (.response ⟨true, 0⟩), .replicateLost 0 "c", .writeFinish 0 true [],
    .writeStart "a" (examplePut "w") 0, .writePlan 1, .replicate 1 "b" 0 true,
    .replicateReply 1 "b" (.response ⟨true, 0⟩), .replicate 1 "c" 0 true, .replicateLost 1 "c",
    .writeFinish 1 true [], .recoverBegin "c" "a" "a:1", .recoverServe 0,
    .recoverApply 0 (fun _ => true) []]

/-- After its recovery, `c` has the contents of the leader. -/
theorem Cluster.follower_converges_laggingRun :
    ∃ c, exec step exampleCluster laggingRun = some c ∧
      (c.nodes "c").replica.isReady = true ∧ (c.nodes "c").replica.version = 2 ∧
      (c.nodes "c").replica.kv = (c.nodes "a").replica.kv :=
  ⟨_, rfl, rfl, rfl, (Cluster.follower_converges "a" fresh_exampleCluster (by decide)
    laggingRun (by decide) rfl (p := "c") (by decide) le_rfl).2 laggingRun [] _
      (List.append_nil _).symm rfl rfl⟩

/-- The write of `v` fails, but stays on `b`, as its acknowledgement is lost; the write of
    `w` gets the same version. -/
def divergingRun : List Action :=
  [.writeStart "a" (examplePut "v") 0, .writePlan 0, .replicate 0 "b" 0 true,
    .replicateLost 0 "b", .replicateLost 0 "c", .writeFinish 0 true [],
    .writeStart "a" (examplePut "w") 0, .writePlan 1, .replicate 1 "c" 0 true,
    .replicateReply 1 "c" (.response ⟨true, 0⟩), .replicateLost 1 "b", .writeFinish 1 true []]

/-- The leader `a` and the ready follower `b` are at the same version, with different
    contents. -/
theorem Cluster.follower_diverges :
    (∀ a ∈ divergingRun, RecoversFrom "a" a) ∧
    ∃ c, exec step exampleCluster divergingRun = some c ∧
      (c.nodes "a").replica.role = .leader ∧ (c.nodes "b").replica.isReady = true ∧
      (c.nodes "b").replica.version = 1 ∧ (c.nodes "a").replica.version = 1 ∧
      (c.nodes "b").replica.kv.lookup "k" = some "v" ∧
      (c.nodes "a").replica.kv.lookup "k" = some "w" :=
  ⟨by decide, _, rfl, rfl, rfl, rfl, rfl, rfl, rfl⟩

end Doki
