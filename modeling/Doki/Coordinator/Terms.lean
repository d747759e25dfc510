import Doki.Coordinator.Promotion
import Doki.Lib.Lists

/-!
# The terms of the coordinator

A run of `CheckAndReassign` reads the term of a shard, changes the leader and writes
the next term, each under a lock of its own, while the nodes report the elections
that they have won (`NotifyLeader`). A report that is accepted between the reading and the
writing is lost: the run replaces the leader, and writes a term that may be lower
than the one reported. After the last term, which a report may bring, comes the term 0.

`Assignment` is the coordinator with the runs under way (`CheckPhase`), and with a
record of the leaders that it has accepted, which no step reads.

* `Assignment.exec_checkShard`: without other steps in between, the steps of a run for a
  shard are what `LeaderManager.checkShard` does;
* `Assignment.Unheld`: the term of a shard is neither read nor set by a report while a run
  is between reading and writing it, and is not the last one when it is read;
* `Assignment.terms_kept`: then no term decreases, and an accepted leader is replaced only
  together with a newer term;
* `Assignment.term_regresses`: an accepted election that is lost.
-/

namespace Doki

open Runs

/-- Where a run of `CheckAndReassign` stands: with the shards that are still to be
    checked, at a shard whose leader is missing or dead, at the replicas that may take
    over after the term has been read, at the new leader, or at the new term. -/
inductive CheckPhase
  | scanning (todo : List ShardInfo)
  | suspecting (shard : ShardInfo) (todo : List ShardInfo)
  | picking (shard : ShardInfo) (currentTerm : ℕ) (left : List String) (best : String × ℕ)
      (todo : List ShardInfo)
  | setting (shard : ShardInfo) (candidate : String) (term : ℕ) (todo : List ShardInfo)
  | writing (shard : ShardInfo) (term : ℕ) (todo : List ShardInfo)

namespace CheckPhase

/-- The next step of a run. -/
def next (lm : LeaderManager) : CheckPhase → Option (LeaderManager × CheckPhase)
  | .scanning [] => none
  | .scanning (shard :: todo) =>
    if shard.leader = "" ∨ lm.membership.isAlive shard.leader = false then
      some (lm, .suspecting shard todo)
    else some (lm, .scanning todo)
  | .suspecting shard todo =>
    some (lm, .picking shard (lm.termForShard shard.id) shard.replicas ("", 0) todo)
  | .picking shard currentTerm (replicaID :: left) best todo =>
    some (lm, .picking shard currentTerm left (lm.pickStep shard best replicaID) todo)
  | .picking shard currentTerm [] best todo =>
    if best.1 = "" then some (lm, .scanning todo)
    else some (lm, .setting shard best.1 (Counter.next currentTerm) todo)
  | .setting shard candidate term todo =>
    match lm.shards.setLeader shard.id candidate with
    | .error _ => some (lm, .scanning todo)
    | .ok shards => some ({ lm with shards := shards }, .writing shard term todo)
  | .writing shard term todo =>
    some ({ lm with terms := lm.terms.insert shard.id term }, .scanning todo)

/-- The shard whose term the run has read and not written yet, and the term that it is
    going to write. -/
def holds : CheckPhase → Option (String × ℕ)
  | .picking shard currentTerm _ _ _ => some (shard.id, Counter.next currentTerm)
  | .setting shard _ term _ => some (shard.id, term)
  | .writing shard term _ => some (shard.id, term)
  | _ => none

/-- The shard whose leader the run has changed, and the term that it is going to
    write. -/
def unwritten : CheckPhase → Option (String × ℕ)
  | .writing shard term _ => some (shard.id, term)
  | _ => none

/-- What a step of a run can do: go on without changing or holding anything new, read the
    term of a shard, set its leader, or write its term. -/
inductive Moves (lm : LeaderManager) : CheckPhase → LeaderManager → CheckPhase → Prop
  | goOn {c c' : CheckPhase} (hunw : c.unwritten = none)
      (hholds : ∀ x, c'.holds = some x → c.holds = some x) : Moves lm c lm c'
  | readTerm (shard : ShardInfo) (todo : List ShardInfo) :
      Moves lm (.suspecting shard todo) lm
        (.picking shard (lm.termForShard shard.id) shard.replicas ("", 0) todo)
  | setLeader (shard : ShardInfo) (candidate : String) (term : ℕ) (todo : List ShardInfo)
      (shards : ShardMap) (hset : lm.shards.setLeader shard.id candidate = .ok shards) :
      Moves lm (.setting shard candidate term todo) { lm with shards := shards }
        (.writing shard term todo)
  | writeTerm (shard : ShardInfo) (term : ℕ) (todo : List ShardInfo) :
      Moves lm (.writing shard term todo) { lm with terms := lm.terms.insert shard.id term }
        (.scanning todo)

theorem moves_of_next {lm lm' : LeaderManager} {c c' : CheckPhase}
    (h : c.next lm = some (lm', c')) : Moves lm c lm' c' := by
  cases c with
  | scanning todo =>
    cases todo with
    | nil => cases h
    | cons shard todo =>
      simp only [next] at h
      split_ifs at h <;> cases h <;> exact .goOn rfl fun x hx => absurd hx (by simp [holds])
  | suspecting shard todo =>
    cases h
    exact .readTerm shard todo
  | picking shard currentTerm left best todo =>
    cases left with
    | nil =>
      simp only [next] at h
      split_ifs at h <;> cases h
      · exact .goOn rfl fun x hx => absurd hx (by simp [holds])
      · exact .goOn rfl fun x hx => hx
    | cons replicaID left =>
      cases h
      exact .goOn rfl fun x hx => hx
  | setting shard candidate term todo =>
    simp only [next] at h
    split at h <;> cases h
    · exact .goOn rfl fun x hx => absurd hx (by simp [holds])
    · exact .setLeader shard candidate term todo _ ‹_›
  | writing shard term todo =>
    cases h
    exact .writeTerm shard term todo

end CheckPhase

/-- A leader that the coordinator has accepted. -/
structure Accepted where
  shardID : String
  leader : String
  term : ℕ
  deriving DecidableEq

/-- The coordinator, with the runs of `CheckAndReassign` under way. -/
structure Assignment where
  lm : LeaderManager
  checks : List CheckPhase
  accepted : List Accepted

/-- What can happen at the coordinator. Of the nodes it may learn anything at any time.
    A run is named by its index. -/
inductive AssignmentAction
  | membership (m : Membership)
  | initTerm (shardID : String)
  | notifyLeader (shardID leaderID : String) (term : ℕ)
  | checkStart (order : List String)
  | checkNext (k : ℕ)

namespace Assignment

/-- A coordinator with no run under way. -/
def new (lm : LeaderManager) : Assignment := { lm := lm, checks := [], accepted := [] }

/-- One step of the coordinator. -/
def step (s : Assignment) : AssignmentAction → Option Assignment
  | .membership m => some { s with lm := { s.lm with membership := m } }
  | .initTerm shardID => some { s with lm := s.lm.initTerm shardID }
  | .notifyLeader shardID leaderID term =>
    match s.lm.notifyLeader shardID leaderID term with
    | (true, lm) => some { s with lm := lm, accepted := ⟨shardID, leaderID, term⟩ :: s.accepted }
    | (false, lm) => some { s with lm := lm }
  | .checkStart order => some { s with checks := s.checks ++ [.scanning (s.lm.shards.all order)] }
  | .checkNext k =>
    (s.checks[k]?).bind fun c =>
      (c.next s.lm).map fun x => { s with lm := x.1, checks := s.checks.set k x.2 }

/-- The step decreases no term. -/
def TermsKept (s : Assignment) (a : AssignmentAction) : Prop :=
  ∀ t, s.step a = some t → ∀ x, s.lm.termForShard x ≤ t.lm.termForShard x

/-- An accepted leader leads in its term, unless the term is a newer one, or a run that
    has replaced the leader is about to write a newer one. -/
def LeadersKept (s : Assignment) : Prop :=
  ∀ e ∈ s.accepted, (s.lm.shards.shards.lookup e.shardID).map (·.leader) = some e.leader ∨
    e.term < s.lm.termForShard e.shardID ∨
    ∃ c ∈ s.checks, ∃ term, c.unwritten = some (e.shardID, term) ∧ e.term < term

/-- The shard whose term is set by a report in a step, or read by a run. A report is
    accepted if its term is a newer one, and the leader a replica. -/
def touches (s : Assignment) : AssignmentAction → Option String
  | .notifyLeader shardID leaderID term =>
    if s.lm.termForShard shardID < term ∧
        (s.lm.shards.shards.lookup shardID).any (·.hasReplica leaderID) then
      some shardID
    else none
  | .checkNext k =>
    match s.checks[k]? with
    | some (.suspecting shard _) => some shard.id
    | _ => none
  | _ => none

/-- No run is between reading and writing the term of a shard when a newer one is
    reported, or when another run reads it. There is a term after the one that is read. -/
def Unheld (s : Assignment) (a : AssignmentAction) : Prop :=
  ∀ x ∈ s.touches a, s.lm.termForShard x ≠ Counter.max ∧
    ∀ c ∈ s.checks, ∀ h ∈ c.holds, h.1 ≠ x

instance (s : Assignment) (a : AssignmentAction) : Decidable (s.Unheld a) :=
  inferInstanceAs (Decidable (∀ x ∈ s.touches a, s.lm.termForShard x ≠ Counter.max ∧
    ∀ c ∈ s.checks, ∀ h ∈ c.holds, h.1 ≠ x))

section Uninterrupted

/-! ## A run without other steps in between -/

/-- The coordinator with the run `k` moved on. -/
def moved (s : Assignment) (k : ℕ) (lm : LeaderManager) (c : CheckPhase) : Assignment :=
  { s with lm := lm, checks := s.checks.set k c }

variable {s : Assignment} {k : ℕ}

theorem exec_moved (hk : k < s.checks.length) {lm lm' : LeaderManager} {c c' : CheckPhase}
    (h : c.next lm = some (lm', c')) :
    exec step (s.moved k lm c) [.checkNext k] = some (s.moved k lm' c') := by
  simp [exec, step, moved, hk, h]

/-- The search for the best replica. -/
theorem exec_picking (hk : k < s.checks.length) (lm : LeaderManager) (shard : ShardInfo)
    (currentTerm : ℕ) (todo : List ShardInfo) (left : List String) (best : String × ℕ) :
    ∃ as, exec step (s.moved k lm (.picking shard currentTerm left best todo)) as =
      some (s.moved k lm (.picking shard currentTerm [] (left.foldl (lm.pickStep shard) best)
        todo)) := by
  induction left generalizing best with
  | nil => exact ⟨[], rfl⟩
  | cons replicaID left ih =>
    obtain ⟨as, has⟩ := ih (lm.pickStep shard best replicaID)
    exact ⟨_, exec_trans (exec_moved hk rfl) has⟩

/-- The steps for a shard whose leader is missing or dead. -/
theorem exec_reassign (hk : k < s.checks.length) (lm : LeaderManager) (shard : ShardInfo)
    (todo : List ShardInfo) :
    ∃ as, exec step (s.moved k lm (.suspecting shard todo)) as =
      some (s.moved k (lm.reassign shard) (.scanning todo)) := by
  obtain ⟨as, has⟩ :=
    exec_picking hk lm shard (lm.termForShard shard.id) todo shard.replicas ("", 0)
  have hpick := exec_trans
    (exec_moved hk (rfl : CheckPhase.next lm (.suspecting shard todo) = _)) has
  simp only [LeaderManager.reassign, LeaderManager.pickCandidate]
  split_ifs with hnone
  · exact ⟨_, exec_trans hpick (exec_moved hk (by rw [CheckPhase.next, if_pos hnone]))⟩
  · have hset := exec_trans hpick (exec_moved hk (by rw [CheckPhase.next, if_neg hnone]))
    simp only
    cases hleader : lm.shards.setLeader shard.id
        (shard.replicas.foldl (lm.pickStep shard) ("", 0)).1 with
    | error e =>
      exact ⟨_, exec_trans hset (exec_moved hk (by simp only [CheckPhase.next, hleader]))⟩
    | ok shards =>
      have hwrite := exec_trans hset (exec_moved hk (by
        rw [CheckPhase.next, hleader] : CheckPhase.next lm (.setting shard _ _ todo) =
          some ({ lm with shards := shards }, .writing shard _ todo)))
      exact ⟨_, exec_trans hwrite (exec_moved hk rfl)⟩

/-- Without other steps in between, a run does for a shard what `checkShard` does. -/
theorem exec_checkShard (hk : k < s.checks.length) (lm : LeaderManager) (shard : ShardInfo)
    (todo : List ShardInfo) :
    ∃ as, exec step (s.moved k lm (.scanning (shard :: todo))) as =
      some (s.moved k (lm.checkShard shard) (.scanning todo)) := by
  obtain ⟨as, has⟩ := exec_reassign hk lm shard todo
  have hsuspect : shard.leader = "" ∨ lm.membership.isAlive shard.leader = false →
      ∃ as, exec step (s.moved k lm (.scanning (shard :: todo))) as =
        some (s.moved k (lm.reassign shard) (.scanning todo)) := fun h =>
    ⟨_, exec_trans (exec_moved hk (by rw [CheckPhase.next, if_pos h])) has⟩
  rw [LeaderManager.checkShard]
  split_ifs with hnone hdead
  · exact hsuspect (.inl hnone)
  · exact hsuspect (.inr hdead)
  · exact ⟨_, exec_moved hk (by rw [CheckPhase.next, if_neg (by simp [hnone, hdead])])⟩

end Uninterrupted

/-! ## The invariant -/

/-- At most one run is between reading and writing the term of a shard. -/
def OneHolder (checks : List CheckPhase) : Prop :=
  ∀ (j k : ℕ) (c d : CheckPhase) (x y : String × ℕ), checks[j]? = some c →
    checks[k]? = some d → c.holds = some x → d.holds = some y → x.1 = y.1 → j = k

/-- What holds of the term that a run is going to write: it is not lower than the current
    one, and newer than those of the accepted leaders. -/
structure Pending (term : String → ℕ) (accepted : List Accepted) (x : String × ℕ) : Prop where
  pos : 0 < x.2
  term_le : term x.1 ≤ x.2
  accepted : ∀ e ∈ accepted, e.shardID = x.1 → e.term < x.2

/-- The invariant. -/
structure Sound (s : Assignment) : Prop where
  pending : ∀ c ∈ s.checks, ∀ x, c.holds = some x → Pending s.lm.termForShard s.accepted x
  oneHolder : OneHolder s.checks
  accepted : ∀ e ∈ s.accepted, e.term ≤ s.lm.termForShard e.shardID
  leaders : s.LeadersKept

variable {s t : Assignment} {k : ℕ} {c c' : CheckPhase}

/-- A run that has moved on holds what it has held, or what no run holds. -/
theorem OneHolder.set {checks : List CheckPhase} (h : OneHolder checks)
    (hk : checks[k]? = some c)
    (hc' : ∀ x, c'.holds = some x → (∃ y, c.holds = some y ∧ y.1 = x.1) ∨
      ∀ d ∈ checks, ∀ y, d.holds = some y → y.1 ≠ x.1) : OneHolder (checks.set k c') := by
  -- One of the two is the run that has moved on.
  have hother : ∀ j d x y, checks[j]? = some d → c'.holds = some x → d.holds = some y →
      x.1 = y.1 → k = j := by
    intro j d x y hd hx hy heq
    rcases hc' x hx with ⟨z, hz, hzx⟩ | hnone
    · exact h k j c d z y hk hd hz hy (hzx.trans heq)
    · exact absurd heq.symm (hnone d (List.mem_of_getElem? hd) y hy)
  intro i j d e x y hd he hx hy heq
  rcases List.getElem?_set_cases hd with ⟨rfl, rfl⟩ | ⟨-, hd'⟩ <;>
    rcases List.getElem?_set_cases he with ⟨rfl, rfl⟩ | ⟨-, he'⟩
  · rfl
  · exact hother j e x y he' hx hy heq
  · exact (hother i d y x hd' hy hx heq.symm).symm
  · exact h i j d e x y hd' he' hx hy heq

/-- The leaders that are kept, when a run that has not replaced a leader has moved on. -/
theorem LeadersKept.set (h : s.LeadersKept) (hk : s.checks[k]? = some c)
    (hunw : c.unwritten = none) : LeadersKept { s with checks := s.checks.set k c' } := by
  intro e he
  rcases h e he with hleader | hterm | ⟨d, hd, term, hunw', hlt⟩
  · exact .inl hleader
  · exact .inr (.inl hterm)
  · have hne : d ≠ c := by
      rintro rfl
      exact absurd (hunw.symm.trans hunw') (by simp)
    exact .inr (.inr ⟨d, List.mem_set_of_ne hd hk hne, term, hunw', hlt⟩)

/-- A run moves on without changing anything. -/
theorem Sound.move (h : s.Sound) (hk : s.checks[k]? = some c) (hunw : c.unwritten = none)
    (hc' : ∀ x, c'.holds = some x → c.holds = some x ∨
      (Pending s.lm.termForShard s.accepted x ∧
        ∀ d ∈ s.checks, ∀ y, d.holds = some y → y.1 ≠ x.1)) :
    Sound { s with checks := s.checks.set k c' } where
  pending := by
    refine List.forall_mem_set h.pending fun x hx => ?_
    rcases hc' x hx with hheld | ⟨hpending, -⟩
    · exact h.pending c (List.mem_of_getElem? hk) x hheld
    · exact hpending
  oneHolder := h.oneHolder.set hk fun x hx =>
    (hc' x hx).imp (fun hheld => ⟨x, hheld, rfl⟩) And.right
  accepted := h.accepted
  leaders := h.leaders.set hk hunw

/-- A run reads the term of a shard. -/
theorem Sound.readTerm (h : s.Sound) {shard : ShardInfo} {todo : List ShardInfo}
    (hk : s.checks[k]? = some (.suspecting shard todo))
    (hmax : s.lm.termForShard shard.id ≠ Counter.max)
    (hfree : ∀ d ∈ s.checks, ∀ y, d.holds = some y → y.1 ≠ shard.id) :
    Sound { s with
      checks := s.checks.set k
        (.picking shard (s.lm.termForShard shard.id) shard.replicas ("", 0) todo) } := by
  refine h.move hk rfl fun x hx => .inr ?_
  obtain rfl := Option.some.inj hx
  have hlt := Counter.lt_next_iff.2 hmax
  refine ⟨⟨Nat.zero_lt_of_lt hlt, hlt.le, fun e he hid => ?_⟩, hfree⟩
  have hle := h.accepted e he
  rw [hid] at hle
  exact hle.trans_lt hlt

/-- A run sets the leader of a shard. The term that it is going to write is newer than
    that of an accepted leader which it has replaced. -/
theorem Sound.setLeader (h : s.Sound) {shard : ShardInfo} {candidate : String} {term : ℕ}
    {todo : List ShardInfo} (hk : s.checks[k]? = some (.setting shard candidate term todo))
    {shards : ShardMap} (hset : s.lm.shards.setLeader shard.id candidate = .ok shards) :
    Sound { s with
      lm := { s.lm with shards := shards }
      checks := s.checks.set k (.writing shard term todo) } where
  pending := List.forall_mem_set
    (P := fun c : CheckPhase => ∀ x, c.holds = some x → Pending s.lm.termForShard s.accepted x)
    h.pending (h.pending (.setting shard candidate term todo) (List.mem_of_getElem? hk))
  oneHolder := h.oneHolder.set hk fun x hx => .inl ⟨x, hx, rfl⟩
  accepted := h.accepted
  leaders := by
    obtain ⟨sh, hsh, -, rfl⟩ := ShardMap.setLeader_ok hset
    have hid := s.lm.shards.id_eq _ _ hsh
    intro e he
    by_cases hes : e.shardID = shard.id
    · refine .inr (.inr ⟨_, List.mem_set (List.getElem?_eq_some_iff.1 hk).1 _, term, ?_, ?_⟩)
      · rw [hes]
        rfl
      · exact (h.pending _ (List.mem_of_getElem? hk) _ rfl).accepted e he hes
    · have hkept : LeadersKept { s with checks := s.checks.set k (.writing shard term todo) } :=
        h.leaders.set hk rfl
      rw [ShardMap.lookup_insert, if_neg (by simpa [hid] using hes)]
      exact hkept e he

/-- A run writes the term of a shard. -/
theorem Sound.writeTerm (h : s.Sound) {shard : ShardInfo} {term : ℕ} {todo : List ShardInfo}
    (hk : s.checks[k]? = some (.writing shard term todo)) :
    Sound { s with
      lm := { s.lm with terms := s.lm.terms.insert shard.id term }
      checks := s.checks.set k (.scanning todo) } := by
  have hpending := h.pending _ (List.mem_of_getElem? hk) _ rfl
  refine ⟨fun d hd x hx => ?_, ?_, fun e he => ?_, fun e he => ?_⟩
  · obtain ⟨j, hj⟩ := List.mem_iff_getElem?.1 hd
    rcases List.getElem?_set_cases hj with ⟨rfl, rfl⟩ | ⟨hjk, hj⟩
    · exact absurd hx (by simp [CheckPhase.holds])
    · -- No other run holds this shard.
      have hne : x.1 ≠ shard.id := fun heq => hjk (h.oneHolder j k d _ x _ hj hk hx rfl heq)
      have hother := h.pending d (List.mem_of_getElem? hj) x hx
      refine ⟨hother.pos, ?_, hother.accepted⟩
      rw [LeaderManager.termForShard_insert rfl, if_neg hne]
      exact hother.term_le
  · exact h.oneHolder.set hk fun x hx => absurd hx (by simp [CheckPhase.holds])
  · rw [LeaderManager.termForShard_insert rfl]
    split_ifs with hes
    · exact (hpending.accepted e he hes).le
    · exact h.accepted e he
  · rw [LeaderManager.termForShard_insert rfl]
    by_cases hes : e.shardID = shard.id
    · rw [if_pos hes]
      exact .inr (.inl (hpending.accepted e he hes))
    · rw [if_neg hes]
      rcases h.leaders e he with hleader | hterm | ⟨d, hd, term', hunw, hlt⟩
      · exact .inl hleader
      · exact .inr (.inl hterm)
      · have hne : d ≠ .writing shard term todo := by
          rintro rfl
          exact hes (Prod.mk.inj (Option.some.inj hunw)).1.symm
        exact .inr (.inr ⟨d, List.mem_set_of_ne hd hk hne, term', hunw, hlt⟩)

/-- A report is accepted while no run holds the shard. -/
theorem Sound.notifyLeader (h : s.Sound) {x leader : String} {term : ℕ} {lm : LeaderManager}
    (hnotify : s.lm.notifyLeader x leader term = (true, lm))
    (hfree : ∀ d ∈ s.checks, ∀ y, d.holds = some y → y.1 ≠ x) :
    Sound { s with lm := lm, accepted := ⟨x, leader, term⟩ :: s.accepted } := by
  obtain ⟨hlt, shards, hset, rfl⟩ := LeaderManager.notifyLeader_accepted hnotify
  obtain ⟨sh, hsh, -, rfl⟩ := ShardMap.setLeader_ok hset
  have hid := s.lm.shards.id_eq _ _ hsh
  -- The leaders accepted before are of an older term.
  have holder : ∀ e ∈ s.accepted, e.shardID = x → e.term < term := fun e he hex =>
    (h.accepted e he).trans_lt (hex ▸ hlt)
  refine ⟨fun d hd y hy => ?_, h.oneHolder, ?_, ?_⟩
  · have hpending := h.pending d hd y hy
    have hne := hfree d hd y hy
    refine ⟨hpending.pos, ?_, List.forall_mem_cons.2 ⟨fun heq => absurd heq.symm hne,
      hpending.accepted⟩⟩
    rw [LeaderManager.termForShard_insert rfl, if_neg hne]
    exact hpending.term_le
  · refine List.forall_mem_cons.2 ⟨?_, fun e he => ?_⟩
    · rw [LeaderManager.termForShard_insert rfl, if_pos rfl]
    · rw [LeaderManager.termForShard_insert rfl]
      split_ifs with hex
      · exact (holder e he hex).le
      · exact h.accepted e he
  · refine List.forall_mem_cons.2 ⟨.inl ?_, fun e he => ?_⟩
    · rw [ShardMap.lookup_insert, if_pos hid.symm]
      rfl
    · rw [LeaderManager.termForShard_insert rfl]
      by_cases hex : e.shardID = x
      · rw [if_pos hex]
        exact .inr (.inl (holder e he hex))
      · rw [if_neg hex, ShardMap.lookup_insert, if_neg (by simpa [hid] using hex)]
        exact h.leaders e he

/-- The term of a new shard. -/
theorem Sound.initTerm (h : s.Sound) (x : String) : Sound { s with lm := s.lm.initTerm x } := by
  have hshards : (s.lm.initTerm x).shards = s.lm.shards := by
    rw [LeaderManager.initTerm]
    split <;> rfl
  have hle := s.lm.le_termForShard_initTerm x
  refine ⟨fun c hc y hy => ?_, h.oneHolder, fun e he => (h.accepted e he).trans (hle _),
    fun e he => ?_⟩
  · have hpending := h.pending c hc y hy
    refine ⟨hpending.pos, ?_, hpending.accepted⟩
    rcases s.lm.termForShard_initTerm x y.1 with heq | ⟨-, hone⟩
    · exact heq ▸ hpending.term_le
    · exact hone ▸ hpending.pos
  · simp only [hshards]
    exact (h.leaders e he).imp_right (Or.imp_left fun hlt => hlt.trans_le (hle _))

/-- The step lemma. -/
theorem sound_step (s : Assignment) (a : AssignmentAction) (t : Assignment) (h : s.Sound)
    (ha : s.Unheld a) (hstep : s.step a = some t) : t.Sound := by
  cases a with
  | membership m =>
    obtain rfl := Option.some.inj hstep
    exact ⟨h.pending, h.oneHolder, h.accepted, h.leaders⟩
  | initTerm x =>
    obtain rfl := Option.some.inj hstep
    exact h.initTerm x
  | notifyLeader x leader term =>
    simp only [step] at hstep
    split at hstep
    · rename_i lm hnotify
      obtain rfl := Option.some.inj hstep
      obtain ⟨hlt, shards, hset, -⟩ := LeaderManager.notifyLeader_accepted hnotify
      obtain ⟨sh, hsh, hmem, -⟩ := ShardMap.setLeader_ok hset
      exact h.notifyLeader hnotify
        (ha x (by simp [touches, hlt, hsh, ShardInfo.hasReplica, hmem])).2
    · rename_i lm hnotify
      obtain rfl := Option.some.inj hstep
      rw [LeaderManager.notifyLeader_rejected hnotify]
      exact h
  | checkStart order =>
    obtain rfl := Option.some.inj hstep
    refine ⟨List.forall_mem_concat h.pending fun x hx => absurd hx (by simp [CheckPhase.holds]),
      ?_, h.accepted, fun e he => ?_⟩
    · intro i j d e x y hd he hx hy heq
      rcases List.getElem?_concat_cases hd with ⟨-, rfl⟩ | hd
      · exact absurd hx (by simp [CheckPhase.holds])
      · rcases List.getElem?_concat_cases he with ⟨-, rfl⟩ | he
        · exact absurd hy (by simp [CheckPhase.holds])
        · exact h.oneHolder i j d e x y hd he hx hy heq
    · rcases h.leaders e he with hleader | hterm | ⟨c, hc, hrest⟩
      · exact .inl hleader
      · exact .inr (.inl hterm)
      · exact .inr (.inr ⟨c, List.mem_append_left _ hc, hrest⟩)
  | checkNext k =>
    obtain ⟨c, hk, hstep⟩ := Option.bind_eq_some_iff.1 hstep
    obtain ⟨⟨lm, c'⟩, hnext, rfl⟩ := Option.map_eq_some_iff.1 hstep
    cases CheckPhase.moves_of_next hnext with
    | goOn hunw hholds => exact h.move hk hunw fun x hx => .inl (hholds x hx)
    | readTerm shard todo =>
      obtain ⟨hmax, hfree⟩ := ha shard.id (by simp [touches, hk])
      exact h.readTerm hk hmax hfree
    | setLeader shard candidate term todo shards hset => exact h.setLeader hk hset
    | writeTerm shard term todo => exact h.writeTerm hk

/-- With the invariant, no step decreases a term. -/
theorem Sound.termsKept (h : s.Sound) (a : AssignmentAction) : s.TermsKept a := by
  intro t hstep y
  cases a with
  | membership m =>
    obtain rfl := Option.some.inj hstep
    exact le_rfl
  | initTerm x =>
    obtain rfl := Option.some.inj hstep
    exact s.lm.le_termForShard_initTerm x y
  | notifyLeader x leader term =>
    simp only [step] at hstep
    split at hstep
    · rename_i lm hnotify
      obtain rfl := Option.some.inj hstep
      obtain ⟨hlt, shards, -, rfl⟩ := LeaderManager.notifyLeader_accepted hnotify
      exact LeaderManager.le_termForShard_insert rfl hlt.le y
    · rename_i lm hnotify
      obtain rfl := Option.some.inj hstep
      rw [LeaderManager.notifyLeader_rejected hnotify]
  | checkStart order =>
    obtain rfl := Option.some.inj hstep
    exact le_rfl
  | checkNext k =>
    obtain ⟨c, hk, hstep⟩ := Option.bind_eq_some_iff.1 hstep
    obtain ⟨⟨lm, c'⟩, hnext, rfl⟩ := Option.map_eq_some_iff.1 hstep
    cases CheckPhase.moves_of_next hnext with
    | goOn => exact le_rfl
    | readTerm => exact le_rfl
    | setLeader => exact le_rfl
    | writeTerm shard term todo =>
      have hpending := h.pending _ (List.mem_of_getElem? hk) _ rfl
      exact LeaderManager.le_termForShard_insert rfl hpending.term_le y

/-- In every run in which no term is read or reported while another run is about to write
    it, and none that is read is the last one, no term decreases, and an accepted leader is
    replaced only together with a newer term. -/
theorem terms_kept (lm : LeaderManager) (as : List AssignmentAction)
    (h : Along step Unheld (new lm) as) :
    Along step TermsKept (new lm) as ∧ Throughout step LeadersKept (new lm) as := by
  have hstart : (new lm).Sound := by
    refine ⟨?_, ?_, ?_, ?_⟩
    · simp [new]
    · simp [new, OneHolder]
    · simp [new]
    · simp [new, LeadersKept]
  exact ⟨Along.mono sound_step (fun s a hs _ => hs.termsKept a) hstart h,
    (throughout sound_step hstart h).mono fun s hs => hs.leaders⟩

end Assignment

/-! The leader `a` has not sent a heartbeat, and `b` is to take over. -/

/-- What the coordinator of the example knows after a heartbeat of `b`. -/
def afterHeartbeat : Membership :=
  { exampleManager.membership with
    nodes := (exampleManager.membership.nodes.insert "b"
      { id := "b", address := "b:1", isAlive := true, lastHeartbeatAt := some 10,
        shardVersions := ∅ }) }

/-- A run up to the new leader. -/
def pickRun : List AssignmentAction :=
  [.membership afterHeartbeat, .checkStart ["shard-0"], .checkNext 0, .checkNext 0, .checkNext 0,
    .checkNext 0, .checkNext 0, .checkNext 0]

/-- The election of `c` in the term 5 is reported after the run. -/
theorem Assignment.terms_kept_pickRun :
    (exec step (new exampleManager)
      (pickRun ++ [.checkNext 0, .checkNext 0, .notifyLeader "shard-0" "c" 5])).map
        (fun s => s.lm.termForShard "shard-0") = some 5 ∧
    Along step TermsKept (new exampleManager)
      (pickRun ++ [.checkNext 0, .checkNext 0, .notifyLeader "shard-0" "c" 5]) ∧
    Throughout step LeadersKept (new exampleManager)
      (pickRun ++ [.checkNext 0, .checkNext 0, .notifyLeader "shard-0" "c" 5]) :=
  ⟨by decide +kernel, terms_kept exampleManager _ (by decide +kernel)⟩

/-- The election is reported before the run sets the leader. -/
def lostRun : List AssignmentAction :=
  pickRun ++ [.notifyLeader "shard-0" "c" 5, .checkNext 0, .checkNext 0]

/-- The report is accepted. Then `b` replaces `c`, and the term goes from 5 back to 2. -/
theorem Assignment.term_regresses :
    ¬Along step TermsKept (new exampleManager) lostRun ∧
      ¬Throughout step LeadersKept (new exampleManager) lostRun := by
  obtain ⟨t, ht⟩ := Option.isSome_iff_exists.1
    (by decide +kernel : (exec step (new exampleManager) lostRun).isSome = true)
  have hend : (exec step (new exampleManager) lostRun).map (fun s => (s.accepted,
      (s.lm.shards.shards.lookup "shard-0").map (·.leader), s.lm.termForShard "shard-0",
      s.checks.all (·.unwritten.isNone))) =
        some ([⟨"shard-0", "c", 5⟩], some "b", 2, true) := by
    decide +kernel
  rw [ht] at hend
  simp only [Option.map_some, Option.some.injEq, Prod.mk.injEq, List.all_eq_true,
    Option.isNone_iff_eq_none] at hend
  obtain ⟨haccepted, hleader, hterm, hwritten⟩ := hend
  refine ⟨fun h => ?_, fun h => ?_⟩
  · -- The last step but one.
    have hsplit : lostRun = (pickRun ++ [.notifyLeader "shard-0" "c" 5, .checkNext 0]) ++
        [.checkNext 0] := rfl
    rw [hsplit] at h ht
    obtain ⟨s, hs, hlast⟩ := exec_append ht
    have hbefore : (exec step (new exampleManager)
        (pickRun ++ [.notifyLeader "shard-0" "c" 5, .checkNext 0])).map
          (fun s => s.lm.termForShard "shard-0") = some 5 := by
      decide +kernel
    rw [hs, Option.map_some, Option.some.injEq] at hbefore
    obtain ⟨u, hu, hut⟩ := exec_cons hlast
    obtain rfl := Option.some.inj hut
    have hkept := (h.of_append hs).2.1 u hu "shard-0"
    rw [hbefore, hterm] at hkept
    exact absurd hkept (by decide)
  · rcases h.last ht ⟨"shard-0", "c", 5⟩ (by simp [haccepted]) with hl | hl | ⟨c, hc, term, hl, -⟩
    · exact absurd (hleader.symm.trans hl) (by decide)
    · rw [hterm] at hl
      exact absurd hl (by decide)
    · exact absurd ((hwritten c hc).symm.trans hl) (by simp)

end Doki
