import Doki.Node.Stream

/-!
# Catching up across terms

A follower that misses entries gets them from the log of its leader, each with the
term it was written in, and applies them one after the other. The state machine
refuses an entry of an older term than the replica's. The term of a follower moves
on without any entry, with the heartbeats of the leader and with the votes it is
asked for: a follower that has heard of the term of a new leader refuses every
entry that was written before, and the same recovery fails again and again.

* `LogTerms`: what the log of a leader has besides the last entries of its
  history. The terms of the entries do not decrease, and the state machine keeps it so
  (`logTerms_throughout`);
* `applyEntries_ok_iff`: which entries are all applied;
* `catchesUp_iff`: a follower that is sent the missing entries gets to the state of
  the leader exactly when none of them is older than its own term, up to the last version of
  the counter;
* `recovery_refused`: a follower that has heard a heartbeat cannot.
-/

namespace Doki

open Faulty Runs

variable {H : ℕ → KVRequest} {r r' : ReplicaState}

/-! ## The terms of a log -/

/-- The terms of the entries of the log do not decrease, up to the term of the
    replica. -/
structure LogTerms (r : ReplicaState) : Prop where
  ordered : r.repLog.entries.Pairwise fun a b => a.term ≤ b.term
  le_term : ∀ e ∈ r.repLog.entries, e.term ≤ r.term

/-- An empty log, in any term. -/
theorem LogTerms.of_nil (hlog : r.repLog.entries = []) : LogTerms r where
  ordered := by simp [hlog]
  le_term := by simp [hlog]

/-- The terms of a log stay in order when the replica gets to a newer term. -/
theorem LogTerms.mono (h : LogTerms r) (hlog : r'.repLog = r.repLog) (hterm : r.term ≤ r'.term) :
    LogTerms r' where
  ordered := hlog ▸ h.ordered
  le_term e he := (h.le_term e (hlog ▸ he)).trans hterm

/-- An entry that is applied is not older than the log. -/
theorem LogTerms.applied {e : Entry} (h : LogTerms r) (hterm : r.term ≤ e.term) :
    LogTerms (r.applied e) := by
  obtain ⟨d, hd⟩ := r.repLog.entries_append e
  have hentries : (r.applied e).repLog.entries = r.repLog.entries.drop d ++ [e] := hd
  have hle : ∀ x ∈ r.repLog.entries.drop d, x.term ≤ e.term := fun x hx =>
    (h.le_term x (List.mem_of_mem_drop hx)).trans hterm
  constructor
  · rw [hentries, List.pairwise_append]
    exact ⟨h.ordered.drop, List.pairwise_singleton _ e,
      fun x hx y hy => List.mem_singleton.1 hy ▸ hle x hx⟩
  · intro x hx
    rw [hentries, List.mem_append, List.mem_singleton] at hx
    rcases hx with hx | rfl
    · exact hle x hx
    · exact le_rfl

theorem logTerms_step (r : ReplicaState) (op : MachineOp) (r' : ReplicaState) (h : LogTerms r)
    (hstep : op.step r = some r') : LogTerms r' := by
  cases op with
  | apply e mode walOk =>
    obtain rfl := Option.some.inj hstep
    cases happly : r.apply e mode walOk with
    | mk s err =>
      cases err with
      | some err =>
        obtain ⟨ds, rfl⟩ := ReplicaState.apply_error happly
        exact h.mono rfl le_rfl
      | none =>
        obtain ⟨-, hterm, -, ds, rfl⟩ := ReplicaState.apply_ok happly
        exact (h.applied hterm).mono rfl le_rfl
  | applySnapshot s mode fates =>
    obtain ⟨ds, hds⟩ := r.applySnapshot_snd s mode fates
    obtain rfl := hds.symm.trans (Option.some.inj hstep)
    exact .of_nil rfl
  | resetLog =>
    obtain rfl := Option.some.inj hstep
    exact .of_nil rfl

/-- Whatever the state machine is asked to do, the terms of its log stay in order. -/
theorem logTerms_throughout (r : ReplicaState) (h : LogTerms r) (ops : List MachineOp) :
    Throughout MachineOp.step LogTerms r ops :=
  throughout (C := fun _ _ => True) (fun r op r' h _ => logTerms_step r op r' h) h
    (Along.of_forall_mem fun _ _ => trivial)

/-! ## The entries that are applied -/

/-- Consecutive entries after the version of the replica have no gap, up to the last version. -/
theorem firstGap_of_consecutive {version v : ℕ} {es : List Entry} (h : Consecutive v es)
    (hmax : v + es.length ≤ Counter.max) (hv : version ≤ v) :
    firstGap version (Counter.next v) es = none := by
  induction es generalizing v with
  | nil => rfl
  | cons e es ih =>
    obtain ⟨he, hes⟩ := h
    rw [List.length_cons] at hmax
    rw [Counter.next_of_ne (by omega), firstGap, if_neg (by omega), if_neg (not_not.2 he)]
    exact ih hes (by omega) (by omega)

namespace ReplicaState

/-- An entry of an older term is refused. -/
theorem apply_stale {e : Entry} (hversion : e.version = Counter.next r.version)
    (hterm : e.term < r.term) (mode : ApplyMode) (walOk : Bool) :
    r.apply e mode walOk = (r, some (.staleTerm r.term e.term)) := by
  rw [apply, if_neg (not_not.2 hversion), if_pos hterm]

/-- The next entries, with terms that do not decrease, are all applied exactly when
    none of them is older than the replica. -/
theorem applyEntries_ok_iff {walOk : ℕ → Bool} {es : List Entry} (hwal : ∀ v, walOk v = true)
    (hes : Consecutive r.version es) (hmax : r.version + es.length ≤ Counter.max)
    (hops : ∀ e ∈ es, e.op ≠ .unknown)
    (hterms : es.Pairwise fun a b => a.term ≤ b.term) :
    (applyEntries walOk r es).2 = none ↔ ∀ e ∈ es, r.term ≤ e.term := by
  -- Once the first entry is applied, the replica is in its term, and no later one is older.
  induction es generalizing r with
  | nil => simp [applyEntries]
  | cons e es ih =>
    obtain ⟨he, hes⟩ := hes
    obtain ⟨hfirst, hterms⟩ := List.pairwise_cons.1 hterms
    rw [List.length_cons] at hmax
    have hnext : e.version = Counter.next r.version := by rw [he, Counter.next_of_ne (by omega)]
    rw [applyEntries, if_neg (by omega), hwal]
    rcases lt_or_ge e.term r.term with hlt | hle
    · rw [apply_stale hnext hlt]
      simp [hlt]
    · rw [apply_next hnext hle (hops e List.mem_cons_self)]
      have hversion : ((r.logged e .withWAL).applied e).version = r.version + 1 := he
      have hrest := ih (r := (r.logged e .withWAL).applied e) (by rw [hversion]; exact hes)
        (by omega) (fun x hx => hops x (List.mem_cons_of_mem e hx)) hterms
      refine iff_of_true (hrest.2 hfirst) ?_
      exact List.forall_mem_cons.2 ⟨hle, fun x hx => hle.trans (hfirst x hx)⟩

/-- How a recovery from entries without a gap ends. -/
theorem doIncrementalRecovery_done_iff {version : ℕ} {es : List Entry} {walOk : ℕ → Bool}
    {fates : List Fate} (hes : Consecutive r.version es)
    (hmax : r.version + es.length ≤ Counter.max) :
    (r.doIncrementalRecovery (.entries version es) walOk fates).1 = .done .incremental ↔
      (applyEntries walOk r es).2 = none := by
  rw [doIncrementalRecovery, firstGap_of_consecutive hes hmax le_rfl]
  cases applyEntries walOk r es with
  | mk r' err => cases err <;> simp

/-- A recovery that succeeds leaves the replica ready. -/
theorem isReady_doIncrementalRecovery {version : ℕ} {es : List Entry} {walOk : ℕ → Bool}
    {fates : List Fate} {ty : RecoveryType}
    (h : (r.doIncrementalRecovery (.entries version es) walOk fates).1 = .done ty) :
    (r.doIncrementalRecovery (.entries version es) walOk fates).2.isReady = true := by
  rw [doIncrementalRecovery] at h ⊢
  split at h
  · exact absurd h (by simp)
  · split at h
    · exact absurd h (by simp)
    · rfl

end ReplicaState

/-! ## Catching up -/

/-- The recovery of a follower has ended at the state of the leader, without an error. -/
structure CatchesUp (leader : ReplicaState)
    (result : Outcome RecoveryError RecoveryType × ReplicaState) : Prop where
  done : result.1 = .done .incremental
  ready : result.2.isReady = true
  version : result.2.version = leader.version
  kv : result.2.kv = leader.kv

/-- None of the entries that the follower misses is of an older term than its own. -/
def NoneStale (leader follower : ReplicaState) : Prop :=
  ∀ e ∈ leader.repLog.entries, follower.version < e.version → follower.term ≤ e.term

instance (leader follower : ReplicaState) : Decidable (NoneStale leader follower) :=
  inferInstanceAs (Decidable (∀ e ∈ leader.repLog.entries, _ → _))

/-- The write of a history is a known operation. -/
theorem Drawn.op_ne_unknown {e : Entry} (h : Drawn H e) : e.op ≠ .unknown := by
  rw [h]
  exact (H e.version).known

/-- The entries that a log has after a version, if it covers them. -/
theorem Log.since_eq_filter {l : Log} {v : ℕ} (h : (l.since v).2 = true) :
    (l.since v).1 = l.entries.filter fun e => decide (e.version > v) := by
  rw [Log.since] at h ⊢
  split at h
  · rename_i hnil
    simp [hnil]
  · rename_i oldest rest hcons
    split_ifs at h ⊢
    rfl

/-- The entries that a leader answers with are those of its log that the follower
    misses. -/
theorem recover_eq_filter {leader : ReplicaState} {since version : ℕ} {es : List Entry}
    (hresp : leader.recover since = .ok (.entries version es))
    (hlog : ∀ e ∈ leader.repLog.entries, e.version ≤ leader.version) :
    es = leader.repLog.entries.filter fun e => decide (e.version > since) := by
  simp only [ReplicaState.recover] at hresp
  split_ifs at hresp with hrole hahead hsame hok <;> cases hresp
  · -- The follower is up to date, and so is all of the log.
    refine (List.filter_eq_nil_iff.2 fun e he => ?_).symm
    have := hlog e he
    simp only [decide_eq_true_eq]
    omega
  · exact Log.since_eq_filter hok.1

/-- A leader has the end of its history in its log, with terms that do not decrease. A
    follower on this history, with no bootstrap pending and a disk that works, asks for
    the entries it misses and is sent them. It applies all of them, and gets ready at
    the state of the leader, exactly when none of them is older than its own term. The
    version of the leader is a word of 64 bits. -/
theorem catchesUp_iff (H : ℕ → KVRequest) (leader follower : ReplicaState)
    (hleader : OnHistory H leader) (hterms : LogTerms leader)
    (hmax : leader.version ≤ Counter.max)
    (hbootstrap : follower.bootstrapShardID = "") (hfollows : Follows H follower)
    (hversion : follower.version ≤ leader.version) (version : ℕ) (es : List Entry)
    (hresp : leader.recover follower.recoverRequest.2 = .ok (.entries version es))
    (walOk : ℕ → Bool) (hwal : ∀ v, walOk v = true) (fates : List Fate) :
    CatchesUp leader (follower.doIncrementalRecovery (.entries version es) walOk fates) ↔
      NoneStale leader follower := by
  have hsince : follower.recoverRequest.2 = follower.version := by
    rw [ReplicaState.recoverRequest, if_neg (by simp [hbootstrap])]
  rw [hsince] at hresp
  obtain ⟨base, hcons, hlen⟩ := hleader.log
  have hfilter := recover_eq_filter hresp fun e he => by
    have := (hcons.lt_version e he).2
    omega
  rcases hleader.recover hresp with ⟨es', heq, hes, hend, hdrawn⟩ | heq
  · obtain ⟨rfl, rfl⟩ := RecoverResponse.entries.inj heq
    have hstale : NoneStale leader follower ↔ ∀ e ∈ es, follower.term ≤ e.term := by
      simp only [NoneStale, hfilter, List.mem_filter, decide_eq_true_eq, and_imp, gt_iff_lt]
    -- The entries are a part of the log, in its order.
    have hok := ReplicaState.applyEntries_ok_iff (r := follower) hwal hes (hend.le.trans hmax)
      (fun e he => (hdrawn e he).op_ne_unknown)
      (hfilter ▸ hterms.ordered.sublist List.filter_sublist)
    rw [hstale, ← hok, ← ReplicaState.doIncrementalRecovery_done_iff hes (hend.le.trans hmax)]
    refine ⟨CatchesUp.done, fun hdone => ?_⟩
    have hat := (ReplicaState.version_doIncrementalRecovery hes le_rfl (by omega) hdone).trans hend
    have hkv : Follows H
        (follower.doIncrementalRecovery (.entries leader.version es) walOk fates).2 :=
      hfollows.recover hdrawn
    exact ⟨hdone, ReplicaState.isReady_doIncrementalRecovery hdone, hat,
      by rw [hkv, hat, ← hleader.follows]⟩
  · cases heq

/-- A leader of the term 2, with a write of the term 1 and one of the term 2. -/
def electedLeader : ReplicaState :=
  { newReplicaState "s" "a" ["b"] 0 with
    role := .leader
    term := 2
    version := 2
    kv := stateAt exampleHistory 2
    repLog := ⟨[entryAt exampleHistory 1 1, entryAt exampleHistory 2 2], 1000⟩ }

theorem onHistory_electedLeader : OnHistory exampleHistory electedLeader :=
  ⟨rfl, ⟨0, by decide, rfl⟩, by decide⟩

theorem logTerms_electedLeader : LogTerms electedLeader := ⟨by decide, by decide⟩

/-- A follower that has heard of the term of the leader, and misses its last write
    only, catches up. -/
theorem catchesUp_followerAt :
    CatchesUp electedLeader
      (((followerAt 1).observe 2).doIncrementalRecovery (.entries 2 [entryAt exampleHistory 2 2])
        (fun _ => true) []) :=
  (catchesUp_iff exampleHistory electedLeader ((followerAt 1).observe 2) onHistory_electedLeader
    logTerms_electedLeader (by decide) rfl rfl (by decide) 2 _ rfl _ (fun _ => rfl) []).2
    (by decide)

/-- A follower with nothing yet, that has heard a heartbeat of the leader: it is in the
    term of the leader, and is sent both writes. The first one is of an older term, and
    the recovery fails; the follower is where it was. -/
theorem recovery_refused :
    let follower := ((followerAt 0).leaderHeartbeat 0 ⟨2, 2, "a"⟩).1
    follower.term ≤ electedLeader.term ∧ Follows exampleHistory follower ∧
      electedLeader.recover follower.recoverRequest.2 =
        .ok (.entries 2 [entryAt exampleHistory 1 1, entryAt exampleHistory 2 2]) ∧
      (follower.doIncrementalRecovery
          (.entries 2 [entryAt exampleHistory 1 1, entryAt exampleHistory 2 2])
          (fun _ => true) []).1 = .error (.applyEntry (.staleTerm 2 1)) ∧
      ¬CatchesUp electedLeader (follower.doIncrementalRecovery
          (.entries 2 [entryAt exampleHistory 1 1, entryAt exampleHistory 2 2])
          (fun _ => true) []) :=
  ⟨by decide, rfl, rfl, rfl, fun h => absurd h.done (by decide)⟩

end Doki
