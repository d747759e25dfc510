import Mathlib.Tactic.Linarith
import Doki.Node.Terms

/-!
# The election timer

Every replica has a timer (`runElectionTimer`, in `node/election.go`). It looks at the
replica from time to time: if there was no contact to a leader for as long as the
replica's timeout, it starts an election, and waits for its end.

The timer takes the lock to read the last contact, and releases it before it looks at the
clock. `startElection` takes the lock again, but checks the role only. A contact in
between comes too late.

* `NodeOp.contact_step`: the last contact is moved to the present, or not at all;
* `ElectionTimer.elections_spaced`: elections are at least the minimal timeout apart, so that
  a replica that hears of nobody raises its term at a bounded rate;
* `ElectionTimer.no_election`: no election begins while contacts come often enough. How
  late the timer gets to the clock counts as well.
-/

namespace Doki

open Faulty Runs

/-- A timeout between the two bounds, from the random number `draw`; `0` is for none. -/
def electionTimeout (min max draw : Time) : Time :=
  if min ≤ 0 ∨ max ≤ min then 0 else min + draw % (max - min)

theorem electionTimeout_mem {min max : Time} (hmin : 0 < min) (hmax : min < max) (draw : Time) :
    min ≤ electionTimeout min max draw ∧ electionTimeout min max draw < max := by
  rw [electionTimeout, if_neg (not_or.2 ⟨not_le.2 hmin, not_le.2 hmax⟩)]
  have hspread : 0 < max - min := sub_pos.2 hmax
  have hnonneg := Int.emod_nonneg draw hspread.ne'
  have hlt := Int.emod_lt_of_pos draw hspread
  constructor <;> linarith

/-- The operation is made at the time `now`, and not by the timer. A write keeps the time of
    its start. -/
def NodeOp.At (now : Time) : NodeOp → Prop
  | .replicate t _ _ => t = now
  | .requestVote t _ => t = now
  | .leaderHeartbeat t _ => t = now
  | .forceRecover t => t = now
  | .heartbeatReply t _ _ _ => t = now
  | .finishWrite _ _ _ _ _ _ => True
  | .recover _ _ _ => True
  | .electionBegin _ => False
  | .higherTerm _ => False
  | .electionFinish _ _ _ _ => False

instance (now : Time) : (op : NodeOp) → Decidable (op.At now)
  | .replicate t _ _ => inferInstanceAs (Decidable (t = now))
  | .requestVote t _ => inferInstanceAs (Decidable (t = now))
  | .leaderHeartbeat t _ => inferInstanceAs (Decidable (t = now))
  | .forceRecover t => inferInstanceAs (Decidable (t = now))
  | .heartbeatReply t _ _ _ => inferInstanceAs (Decidable (t = now))
  | .finishWrite _ _ _ _ _ _ => .isTrue trivial
  | .recover _ _ _ => .isTrue trivial
  | .electionBegin _ => .isFalse id
  | .higherTerm _ => .isFalse id
  | .electionFinish _ _ _ _ => .isFalse id

/-! ### Contacts -/

namespace ReplicaState

variable {r r' : ReplicaState}

theorem lastLeaderContact_observe (r : ReplicaState) (term : ℕ) :
    (r.observe term).lastLeaderContact = r.lastLeaderContact := by
  obtain ⟨role, h⟩ := r.observe_eq term
  rw [h]

theorem lastLeaderContact_observeVote (r : ReplicaState) (term : ℕ) :
    (r.observeVote term).lastLeaderContact = r.lastLeaderContact := by
  rcases r.observeVote_eq term with ⟨-, h⟩ | ⟨-, h⟩ <;> rw [h]

theorem lastLeaderContact_apply (r : ReplicaState) (e : Entry) (mode : ApplyMode) (walOk : Bool) :
    (r.apply e mode walOk).1.lastLeaderContact = r.lastLeaderContact := by
  cases h : r.apply e mode walOk with
  | mk r' err =>
    cases err with
    | some err =>
      obtain ⟨ds, rfl⟩ := apply_error h
      rfl
    | none =>
      obtain ⟨-, -, -, ds, rfl⟩ := apply_ok h
      rfl

theorem lastLeaderContact_applyEntries (walOk : ℕ → Bool) (r : ReplicaState) (es : List Entry) :
    (applyEntries walOk r es).1.lastLeaderContact = r.lastLeaderContact :=
  applyEntries_keeps (R := fun r r' => r'.lastLeaderContact = r.lastLeaderContact) (fun _ => rfl)
    (fun _ _ _ h h' => h'.trans h) (fun r e => r.lastLeaderContact_apply e .withWAL) walOk r es

theorem lastLeaderContact_doIncrementalRecovery (r : ReplicaState) (resp : RecoverResponse)
    (walOk : ℕ → Bool) (fates : List Fate) :
    (r.doIncrementalRecovery resp walOk fates).2.lastLeaderContact = r.lastLeaderContact := by
  cases h : r.doIncrementalRecovery resp walOk fates with
  | mk o r' =>
    cases resp with
    | entries version es =>
      have hes := lastLeaderContact_applyEntries walOk r es
      rcases doIncrementalRecovery_entries h with rfl | rfl | rfl
      · rfl
      · exact hes
      · exact hes
    | snapshot s =>
      obtain ⟨ds, rfl | rfl⟩ := doIncrementalRecovery_snapshot h <;> rfl

end ReplicaState

open ReplicaState in
/-- An operation leaves the last contact as it is, or sets it to the present. -/
theorem NodeOp.contact_step {r r' : ReplicaState} {op : NodeOp} {now : Time} (hat : op.At now)
    (h : op.step r = some r') :
    r'.lastLeaderContact = r.lastLeaderContact ∨ r'.lastLeaderContact = now := by
  cases op with
  | replicate t req walOk =>
    obtain rfl : t = now := hat
    cases hreplicate : r.replicate t req walOk with
    | mk r'' reply =>
      have hr' : r'' = r' := by
        have := Option.some.inj h
        rwa [hreplicate] at this
      subst hr'
      rcases replicate_cases hreplicate with ⟨-, rfl, -⟩ | ⟨-, -, rfl, -⟩ | ⟨-, -, -, rfl, -⟩ |
        ⟨-, -, ⟨ds, rfl⟩, -⟩ | ⟨-, -, -, ⟨ds, rfl⟩, -⟩
      · exact .inl rfl
      · exact .inl (r.lastLeaderContact_observe req.term)
      · exact .inr rfl
      · exact .inl (r.lastLeaderContact_observe req.term)
      · exact .inr rfl
  | requestVote t req =>
    obtain rfl : t = now := hat
    cases hvote : r.requestVote t req with
    | mk r'' resp =>
      have hr' : r'' = r' := by
        have := Option.some.inj h
        rwa [hvote] at this
      subst hr'
      rcases requestVote_cases hvote with ⟨-, rfl, -⟩ | ⟨-, rfl, -⟩ | ⟨-, -, -, rfl, -⟩
      · exact .inl rfl
      · exact .inl (r.lastLeaderContact_observeVote req.term)
      · exact .inr rfl
  | leaderHeartbeat t req =>
    obtain rfl : t = now := hat
    obtain rfl := Option.some.inj h
    simp only [ReplicaState.leaderHeartbeat]
    split_ifs
    · exact .inl rfl
    · exact .inr rfl
  | forceRecover t =>
    obtain rfl : t = now := hat
    obtain rfl := Option.some.inj h
    exact .inr rfl
  | heartbeatReply t sentTerm peerID peerTerm =>
    obtain rfl := Option.some.inj h
    rw [ReplicaState.heartbeatReply]
    split_ifs <;> exact .inl rfl
  | finishWrite t e plan acked walOk fates =>
    obtain rfl := Option.some.inj h
    cases hfinish : r.finishWrite t e plan acked walOk fates with
    | mk res r' =>
      rcases finishWrite_cases hfinish with
        ⟨err, ds, last, -, rfl⟩ | ⟨ok, ds, last, -, -, -, -, -, rfl⟩ <;> exact .inl rfl
  | recover resp walOk fates =>
    obtain rfl := Option.some.inj h
    exact .inl (r.lastLeaderContact_doIncrementalRecovery resp walOk fates)
  | electionBegin t => exact hat.elim
  | higherTerm term => exact hat.elim
  | electionFinish t peers candidateTerm votes => exact hat.elim

/-! ### The timer -/

/-- How far the timer is: it has read the role and the last contact, at the time `since`, it
    has found that the time is up, or it waits for the votes of some peers in a term. -/
inductive TimerStage
  | waiting
  | read (role : Role) (last since : Time)
  | due
  | electing (peers : List String) (candidateTerm : ℕ)

/-- A replica with its timer. `begun` are the times at which elections began, the latest
    one first. -/
structure ElectionTimer where
  replica : ReplicaState
  clock : Time
  timeout : Time
  stage : TimerStage
  begun : List Time

/-- What can happen: time passes, the node does something else to the replica, and the
    timer makes a step. -/
inductive TimerAction
  | advance (d : ℕ)
  | op (op : NodeOp)
  | applyShard (shard : ShardInfo) (version : ℕ)
  | tick
  | compare
  | electionBegin
  | higherTerm (term : ℕ)
  | electionFinish (votes : ℕ)

/-- What the timer has read is at most `delay` old. -/
def TimerStage.Within (clock delay : Time) : TimerStage → Prop
  | .read _ _ since => clock ≤ since + delay
  | _ => True

namespace ElectionTimer

/-- The timer of a replica is started at `clock`. -/
def start (r : ReplicaState) (clock timeout : Time) : ElectionTimer where
  replica := { r with lastLeaderContact := clock }
  clock := clock
  timeout := timeout
  stage := .waiting
  begun := []

/-- One step. -/
def step (s : ElectionTimer) : TimerAction → Option ElectionTimer
  | .advance d => some { s with clock := s.clock + d }
  | .op op =>
    if op.At s.clock then (op.step s.replica).map fun r => { s with replica := r } else none
  | .applyShard shard version =>
    some { s with replica := s.replica.applyShard shard version s.clock }
  | .tick =>
    match s.stage with
    -- A timer without a timeout has ended.
    | .waiting => if s.timeout = 0 then none else
        some { s with stage := .read s.replica.role s.replica.lastLeaderContact s.clock }
    | _ => none
  | .compare =>
    match s.stage with
    | .read role last _ =>
      if role = .leader then some { s with stage := .waiting }
      else if last = 0 then
        some { s with
          replica := { s.replica with lastLeaderContact := s.clock }
          stage := .waiting }
      else if s.clock - last < s.timeout then some { s with stage := .waiting }
      else some { s with stage := .due }
    | _ => none
  | .electionBegin =>
    match s.stage with
    | .due =>
      match s.replica.electionBegin s.clock with
      | none => some { s with stage := .waiting }
      | some (r, req) =>
        some { s with
          replica := r
          stage := .electing s.replica.peers req.term
          begun := s.clock :: s.begun }
    | _ => none
  | .higherTerm term =>
    match s.stage with
    | .electing _ candidateTerm =>
      if term > candidateTerm then
        some { s with replica := s.replica.higherTerm term, stage := .waiting }
      else none
    | _ => none
  | .electionFinish votes =>
    match s.stage with
    | .electing peers candidateTerm =>
      some { s with
        replica := (s.replica.electionFinish s.clock peers candidateTerm votes).2
        stage := .waiting }
    | _ => none

variable {s s' : ElectionTimer}

/-- The inversion of a step: time passes, the last contact stays or is set to the present
    while the timer may end its round, or the timer gets one stage further. -/
theorem step_cases {a : TimerAction} (h : s.step a = some s') :
    (∃ d : ℕ, a = .advance d ∧ s' = { s with clock := s.clock + d }) ∨
    (∃ r stage, (stage = s.stage ∨ stage = .waiting) ∧
      (r.lastLeaderContact = s.replica.lastLeaderContact ∨ r.lastLeaderContact = s.clock) ∧
      s' = { s with replica := r, stage := stage }) ∨
    (a = .tick ∧ s.timeout ≠ 0 ∧ s' = { s with
      stage := .read s.replica.role s.replica.lastLeaderContact s.clock }) ∨
    (∃ role last since, a = .compare ∧ s.stage = .read role last since ∧
      s.timeout ≤ s.clock - last ∧ s' = { s with stage := .due }) ∨
    (∃ r peers candidateTerm, s.stage = .due ∧ r.lastLeaderContact = s.clock ∧
      s' = { s with
        replica := r
        stage := .electing peers candidateTerm
        begun := s.clock :: s.begun }) := by
  cases a with
  | advance d =>
    cases h
    exact .inl ⟨d, rfl, rfl⟩
  | op op =>
    simp only [step] at h
    split_ifs at h with hat
    obtain ⟨r, hr, rfl⟩ := Option.map_eq_some_iff.1 h
    exact .inr (.inl ⟨r, s.stage, .inl rfl, NodeOp.contact_step hat hr, rfl⟩)
  | applyShard shard version =>
    cases h
    refine .inr (.inl ⟨_, s.stage, .inl rfl, ?_, rfl⟩)
    simp only [ReplicaState.applyShard]
    split_ifs
    · exact .inr rfl
    · exact .inl rfl
  | tick =>
    simp only [step] at h
    split at h
    · split_ifs at h with htimeout
      cases h
      exact .inr (.inr (.inl ⟨rfl, htimeout, rfl⟩))
    · cases h
  | compare =>
    simp only [step] at h
    split at h
    · rename_i role last since hread
      split_ifs at h with hrole hzero hearly
      · cases h
        exact .inr (.inl ⟨s.replica, .waiting, .inr rfl, .inl rfl, rfl⟩)
      · cases h
        exact .inr (.inl ⟨_, .waiting, .inr rfl, .inr rfl, rfl⟩)
      · cases h
        exact .inr (.inl ⟨s.replica, .waiting, .inr rfl, .inl rfl, rfl⟩)
      · cases h
        exact .inr (.inr (.inr (.inl ⟨role, last, since, rfl, hread, not_lt.1 hearly, rfl⟩)))
    · cases h
  | electionBegin =>
    simp only [step] at h
    split at h
    · rename_i hdue
      split at h
      · cases h
        exact .inr (.inl ⟨s.replica, .waiting, .inr rfl, .inl rfl, rfl⟩)
      · rename_i r req hbegin
        cases h
        obtain ⟨rfl, -⟩ := ReplicaState.electionBegin_eq_some hbegin
        exact .inr (.inr (.inr (.inr ⟨_, _, req.term, hdue, rfl, rfl⟩)))
    · cases h
  | higherTerm term =>
    simp only [step] at h
    split at h
    · split_ifs at h
      cases h
      exact .inr (.inl ⟨s.replica.higherTerm term, .waiting, .inr rfl, .inl rfl, rfl⟩)
    · cases h
  | electionFinish votes =>
    simp only [step] at h
    split at h
    · cases h
      refine .inr (.inl ⟨_, .waiting, .inr rfl, ?_, rfl⟩)
      rw [ReplicaState.electionFinish]
      split_ifs
      · exact .inl rfl
      · exact .inl rfl
      · exact .inr rfl
    · cases h

/-! ### How often elections begin -/

/-- The last election began at `s.latest t₀`, or the timer was started then. -/
def latest (s : ElectionTimer) (t₀ : Time) : Time := s.begun.head?.getD t₀

/-- The elections of a timer that was started at `t₀`: they are at least `δ` apart, and the
    contact that the timer goes by is no older than the last one. -/
structure Spaced (t₀ δ : Time) (s : ElectionTimer) : Prop where
  timeout : δ ≤ s.timeout
  contact : s.latest t₀ ≤ s.replica.lastLeaderContact
  contact_le : s.replica.lastLeaderContact ≤ s.clock
  chain : (s.begun ++ [t₀]).IsChain fun newer older => older + δ ≤ newer
  count : t₀ + s.begun.length * δ ≤ s.latest t₀
  read : ∀ role last since, s.stage = .read role last since → s.latest t₀ ≤ last
  due : s.stage = .due → s.latest t₀ + δ ≤ s.clock

/-- The step lemma. -/
theorem Spaced.step {t₀ δ : Time} (h : s.Spaced t₀ δ) {a : TimerAction}
    (hstep : s.step a = some s') : s'.Spaced t₀ δ := by
  rcases step_cases hstep with ⟨d, -, rfl⟩ | ⟨r, stage, hstage, hcontact, rfl⟩ | ⟨-, -, rfl⟩ |
    ⟨role, last, since, -, hread, hup, rfl⟩ | ⟨r, peers, candidateTerm, hdue, hcontact, rfl⟩
  · have hd : (0 : ℤ) ≤ d := Int.natCast_nonneg d
    refine ⟨h.timeout, h.contact, ?_, h.chain, h.count, h.read, fun hdue => ?_⟩
    · exact h.contact_le.trans (le_add_of_nonneg_right hd)
    · exact (h.due hdue).trans (le_add_of_nonneg_right hd)
  · -- The contact may be renewed, but no election begins.
    have hle : s.replica.lastLeaderContact ≤ r.lastLeaderContact := by
      rcases hcontact with heq | heq
      · exact heq.ge
      · exact heq ▸ h.contact_le
    refine ⟨h.timeout, h.contact.trans hle, ?_, h.chain, h.count, fun role last since hread => ?_,
      fun hdue => ?_⟩
    · rcases hcontact with heq | heq
      · exact heq.le.trans h.contact_le
      · exact heq.le
    · rcases hstage with rfl | rfl
      · exact h.read role last since hread
      · cases hread
    · rcases hstage with rfl | rfl
      · exact h.due hdue
      · cases hdue
  · refine ⟨h.timeout, h.contact, h.contact_le, h.chain, h.count, fun role last since hread => ?_,
      fun hdue => (by cases hdue)⟩
    cases hread
    exact h.contact
  · have hlast := h.read role last since hread
    have htimeout := h.timeout
    refine ⟨htimeout, h.contact, h.contact_le, h.chain, h.count,
      fun _ _ _ hread' => (by cases hread'), fun _ => ?_⟩
    change s.latest t₀ + δ ≤ s.clock
    linarith
  · have hup := h.due hdue
    have hcount := h.count
    refine ⟨h.timeout, hcontact.ge, hcontact.le, ?_, ?_, fun _ _ _ hread => (by cases hread),
      fun hdue => (by cases hdue)⟩
    · -- The election before is the first one of the rest of the list.
      change (s.clock :: (s.begun ++ [t₀])).IsChain _
      cases hbegun : s.begun with
      | nil =>
        rw [latest, hbegun] at hup
        exact .cons_cons hup (.singleton t₀)
      | cons t ts =>
        have hchain := h.chain
        rw [latest, hbegun] at hup
        rw [hbegun] at hchain
        exact .cons_cons hup hchain
    · change t₀ + ((s.begun.length + 1 : ℕ) : ℤ) * δ ≤ s.clock
      push_cast
      linarith

theorem spaced_start (r : ReplicaState) (t₀ : Time) {δ timeout : Time} (hle : δ ≤ timeout) :
    (start r t₀ timeout).Spaced t₀ δ where
  timeout := hle
  contact := le_rfl
  contact_le := le_rfl
  chain := .singleton t₀
  count := by
    change t₀ + ((0 : ℕ) : ℤ) * δ ≤ t₀
    simp
  read _ _ _ h := by cases h
  due h := by cases h

/-- Whatever happens to a replica, two elections of its timer are at least the minimal
    timeout apart, and the first one is as long after the start. So in a time `T` it
    begins at most `T / min` elections. -/
theorem elections_spaced {min max : Time} (hmin : 0 < min) (hmax : min < max) (draw t₀ : Time)
    (r : ReplicaState) (as : List TimerAction)
    (hrun : exec step (start r t₀ (electionTimeout min max draw)) as = some s) :
    (s.begun ++ [t₀]).IsChain (fun newer older => older + min ≤ newer) ∧
      s.begun.length * min ≤ s.clock - t₀ := by
  have hstart := spaced_start r t₀ (electionTimeout_mem hmin hmax draw).1
  have hkeep : ∀ (s : ElectionTimer) a s', s.Spaced t₀ min → True → s.step a = some s' →
      s'.Spaced t₀ min := fun s a s' h _ hstep => h.step hstep
  have h : s.Spaced t₀ min :=
    invariant hkeep hstart (Along.of_forall_mem fun _ _ => trivial) hrun
  refine ⟨h.chain, ?_⟩
  have hcount := h.count
  have hcontact := h.contact
  have hcontact_le := h.contact_le
  linarith

/-- A replica that hears of nobody. -/
def unheard (now : ℕ) : List TimerAction :=
  [.advance now, .tick, .compare, .electionBegin, .electionFinish 1]

/-- Two elections of a follower that is alone. -/
theorem elections_spaced_unheard :
    ∃ s, exec step (start (initShard (exampleConfig "b") exampleShard exampleMap 1 Files.empty) 1
        (electionTimeout 150 300 7)) (unheard 157 ++ unheard 200) = some s ∧
      s.begun = [358, 158] ∧ s.begun.length * (150 : ℤ) ≤ s.clock - 1 := by
  obtain ⟨s, hs, hbegun⟩ : ∃ s, exec step
      (start (initShard (exampleConfig "b") exampleShard exampleMap 1 Files.empty) 1
        (electionTimeout 150 300 7)) (unheard 157 ++ unheard 200) = some s ∧
      s.begun = [358, 158] := ⟨_, rfl, rfl⟩
  exact ⟨s, hs, hbegun, (elections_spaced (by decide) (by decide) 7 1 _ _ hs).2⟩

/-! ### When none begins -/

/-- Time passes only while the last contact is at most `gap` ago, and the timer gets to the
    clock at most `delay` after it has read the last contact. -/
def InContact (gap delay : Time) (s : ElectionTimer) : TimerAction → Prop
  | .advance d => s.clock + d ≤ s.replica.lastLeaderContact + gap
  | .compare => s.stage.Within s.clock delay
  | _ => True

instance (clock delay : Time) : (stage : TimerStage) → Decidable (stage.Within clock delay)
  | .read _ _ since => inferInstanceAs (Decidable (clock ≤ since + delay))
  | .waiting => .isTrue trivial
  | .due => .isTrue trivial
  | .electing _ _ => .isTrue trivial

instance (gap delay : Time) (s : ElectionTimer) :
    (a : TimerAction) → Decidable (s.InContact gap delay a)
  | .advance d => inferInstanceAs (Decidable (s.clock + d ≤ s.replica.lastLeaderContact + gap))
  | .compare => inferInstanceAs (Decidable (s.stage.Within s.clock delay))
  | .op _ | .applyShard _ _ | .tick | .electionBegin | .higherTerm _ | .electionFinish _ =>
    .isTrue trivial

/-- No election has begun, and none is due. -/
structure Quiet (gap : Time) (s : ElectionTimer) : Prop where
  begun : s.begun = []
  contact : s.clock ≤ s.replica.lastLeaderContact + gap
  contact_le : s.replica.lastLeaderContact ≤ s.clock
  read : ∀ role last since, s.stage = .read role last since → since ≤ last + gap
  not_due : s.stage ≠ .due

/-- The step lemma. -/
theorem Quiet.step {gap delay timeout : Time} (htimeout : gap + delay < timeout)
    (h : s.Quiet gap ∧ s.timeout = timeout) {a : TimerAction} (ha : s.InContact gap delay a)
    (hgap : 0 ≤ gap) (hstep : s.step a = some s') : s'.Quiet gap ∧ s'.timeout = timeout := by
  obtain ⟨h, rfl⟩ := h
  rcases step_cases hstep with ⟨d, rfl, rfl⟩ | ⟨r, stage, hstage, hcontact, rfl⟩ | ⟨-, -, rfl⟩ |
    ⟨role, last, since, rfl, hread, hup, rfl⟩ | ⟨r, peers, candidateTerm, hdue, -, rfl⟩
  · have hd : (0 : ℤ) ≤ d := Int.natCast_nonneg d
    exact ⟨⟨h.begun, ha, h.contact_le.trans (le_add_of_nonneg_right hd), h.read, h.not_due⟩, rfl⟩
  · refine ⟨⟨h.begun, ?_, ?_, fun role last since hread => ?_, fun hdue => ?_⟩, rfl⟩
    · rcases hcontact with heq | heq
      · exact heq ▸ h.contact
      · exact heq ▸ le_add_of_nonneg_right hgap
    · rcases hcontact with heq | heq
      · exact heq.le.trans h.contact_le
      · exact heq.le
    · rcases hstage with rfl | rfl
      · exact h.read role last since hread
      · cases hread
    · rcases hstage with rfl | rfl
      · exact h.not_due hdue
      · cases hdue
  · refine ⟨⟨h.begun, h.contact, h.contact_le, fun role last since hread => ?_,
      fun hdue => (by cases hdue)⟩, rfl⟩
    cases hread
    exact h.contact
  · -- The time cannot be up: what was read is old by the gap and the delay at most.
    have hsince := h.read role last since hread
    have hdelay : s.stage.Within s.clock delay := ha
    rw [hread] at hdelay
    have hlate : s.clock ≤ since + delay := hdelay
    linarith
  · exact absurd hdue h.not_due

/-- While contacts are at most `gap` apart, and the timer is at most `delay` late, no election
    begins, if the two are less than the timeout together. -/
theorem no_election {gap delay timeout : Time} (hgap : 0 ≤ gap) (htimeout : gap + delay < timeout)
    (r : ReplicaState) (t₀ : Time) {as : List TimerAction}
    (has : Along step (InContact gap delay) (start r t₀ timeout) as)
    (hrun : exec step (start r t₀ timeout) as = some s) : s.begun = [] := by
  have hstart : (start r t₀ timeout).Quiet gap :=
    ⟨rfl, le_add_of_nonneg_right hgap, le_rfl, fun _ _ _ hread => (by cases hread),
      fun hdue => (by cases hdue)⟩
  have hkeep : ∀ (s : ElectionTimer) a s', s.Quiet gap ∧ s.timeout = timeout →
      s.InContact gap delay a → s.step a = some s' → s'.Quiet gap ∧ s'.timeout = timeout :=
    fun s a s' h ha hstep => Quiet.step htimeout h ha hgap hstep
  exact (invariant hkeep ⟨hstart, rfl⟩ has hrun).1.begun

/-- The timer of the follower `b`, started at the time `1`. -/
def followerTimer : ElectionTimer :=
  start (initShard (exampleConfig "b") exampleShard exampleMap 1 Files.empty) 1 150

/-- A heartbeat of the leader `a` at the time `now`. -/
def contact (now : Time) : TimerAction :=
  .op (.leaderHeartbeat now ⟨0, 0, "a"⟩)

/-- A heartbeat every hundred, with a timer that is ten late. -/
def steadyContacts : List TimerAction :=
  [.advance 100, .tick, contact 101, .advance 10, .compare, .advance 90, contact 201, .tick,
    .compare]

theorem no_election_steadyContacts :
    ∃ s, Along step (InContact 100 10) followerTimer steadyContacts ∧
      exec step followerTimer steadyContacts = some s ∧ s.begun = [] := by
  obtain ⟨s, has, hs⟩ : ∃ s, Along step (InContact 100 10) followerTimer steadyContacts ∧
      exec step followerTimer steadyContacts = some s := ⟨_, by decide, rfl⟩
  exact ⟨s, has, hs, no_election (by decide) (by decide) _ 1 has hs⟩

/-- Without a bound on how late the timer is: heartbeats are never more than a hundred
    apart, and an election begins at the time of the last one. -/
example : (exec step followerTimer [.advance 100, .tick, contact 101, .advance 60, contact 161,
    .compare, .electionBegin]).map begun = some [161] := rfl

end ElectionTimer

end Doki
