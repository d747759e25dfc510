import Mathlib.Data.List.MinMax
import Doki.Coordinator.Terms

/-!
# Changes of leaders

The coordinator changes the leader of a shard in two ways. A run of `CheckAndReassign`
looks for shards without a live leader, and gives each of them the best of its other live
replicas. And a node that has won an election reports it (`NotifyLeader`).

What both of them end with is a maximum (`List.argmax`). The search of a run goes through
the replicas in their order and ends with the first one that has the highest version
(`foldl_pickStep`). The reports of several elections may come late, again and in any
order. Those that count are of replicas, and of a term above the one at the beginning, and
of these the one with the highest term stays (`Stands.notifyAll`).

The search takes `""` for "no replica yet". Neither the configuration nor the endpoint that
adds nodes lets one with this ID in.

* `Reassigns`: what a run changes, if no live node has the ID `""`. The shards that it
  returns are those without a live leader that have another live replica. The others stay
  as they are;
* `reassigns_succ_iff`: the term of such a shard is increased by one exactly when it is not
  the last one;
* `last_term_wraps`: a shard whose term goes back to 0, after a report of the last one;
* `notifyLeader_order_insensitive`: the reports of some elections end with the same
  leader and the same term in whatever order and however often they come.
-/

namespace Doki

namespace Membership

/-- The node can take over from the leader of the shard: it is another one, and alive. -/
def eligible (m : Membership) (shard : ShardInfo) (nodeID : String) : Bool :=
  decide (nodeID ≠ shard.leader) && m.isAlive nodeID

/-- The shard has no leader, or one that is unknown or not alive. -/
def Unled (m : Membership) (shard : ShardInfo) : Prop :=
  shard.leader = "" ∨ m.isAlive shard.leader = false

instance (m : Membership) (shard : ShardInfo) : Decidable (m.Unled shard) :=
  inferInstanceAs (Decidable (_ ∨ _))

/-- Of the replicas that can take over from the leader, the first one with the highest
    version. -/
def successor (m : Membership) (shard : ShardInfo) : Option String :=
  (shard.replicas.filter (m.eligible shard)).argmax (m.versionForShard · shard.id)

/-- The new leader that a shard gets. -/
def newLeader (m : Membership) (shard : ShardInfo) : Option String :=
  if m.Unled shard then m.successor shard else none

variable {m : Membership} {shard : ShardInfo} {c : String}

theorem eligible_iff : m.eligible shard c = true ↔ c ≠ shard.leader ∧ m.isAlive c = true := by
  rw [eligible, Bool.and_eq_true, decide_eq_true_eq]

/-- What is alive is not taken for "no replica yet". -/
theorem ne_empty_of_eligible (hnamed : m.isAlive "" = false) (h : m.eligible shard c = true) :
    c ≠ "" := by
  rintro rfl
  rw [eligible_iff, hnamed] at h
  cases h.2

theorem newLeader_eq_some :
    m.newLeader shard = some c ↔ m.Unled shard ∧ m.successor shard = some c := by
  rw [newLeader]
  split_ifs with hunled <;> simp [hunled]

/-- A shard gets a new leader if it has none that is alive, and another live replica. -/
theorem newLeader_isSome_iff :
    (m.newLeader shard).isSome = true ↔
      m.Unled shard ∧ ∃ c ∈ shard.replicas, c ≠ shard.leader ∧ m.isAlive c = true := by
  rw [Option.isSome_iff_exists]
  simp only [newLeader_eq_some, exists_and_left]
  refine and_congr_right fun _ => ?_
  rw [← Option.isSome_iff_exists, ← Option.ne_none_iff_isSome, successor, Ne,
    List.argmax_eq_none, List.filter_eq_nil_iff]
  simp only [eligible_iff, not_forall, not_not, exists_prop]

end Membership

namespace LeaderManager

variable (lm : LeaderManager)

/-- A new leader for a shard, if there is a candidate, with the shards that have got one
    so far. -/
def reassignChanged (acc : LeaderManager × List String) (shard : ShardInfo) :
    LeaderManager × List String :=
  match acc.1.pickCandidate shard with
  | none => acc
  | some (candidate, term) =>
    match acc.1.shards.setLeader shard.id candidate with
    | .error _ => acc
    | .ok shards =>
      ({ acc.1 with shards := shards, terms := acc.1.terms.insert shard.id term },
        acc.2 ++ [shard.id])

/-- One shard in a run of `CheckAndReassign`. -/
def checkShardChanged (acc : LeaderManager × List String) (shard : ShardInfo) :
    LeaderManager × List String :=
  if shard.leader = "" then reassignChanged acc shard
  else if acc.1.membership.isAlive shard.leader = false then reassignChanged acc shard
  else acc

/-- A run of `CheckAndReassign` with the list that it returns: the shards that have got a
    new leader. -/
def checkAndReassignChanged (order : List String) : LeaderManager × List String :=
  (lm.shards.all order).foldl checkShardChanged (lm, [])

theorem checkShardChanged_fst (acc : LeaderManager × List String) (shard : ShardInfo) :
    (checkShardChanged acc shard).1 = acc.1.checkShard shard := by
  have hreassign : (reassignChanged acc shard).1 = acc.1.reassign shard := by
    rw [reassignChanged, reassign]
    cases acc.1.pickCandidate shard with
    | none => rfl
    | some picked => cases hset : acc.1.shards.setLeader shard.id picked.1 <;> simp only [hset]
  rw [checkShardChanged, checkShard]
  split_ifs
  · exact hreassign
  · exact hreassign
  · rfl

/-- The list is all that is new in a run with it. -/
theorem checkAndReassignChanged_fst (order : List String) :
    (lm.checkAndReassignChanged order).1 = lm.checkAndReassign order := by
  have hfold : ∀ (shards : List ShardInfo) (acc : LeaderManager × List String),
      (shards.foldl checkShardChanged acc).1 = shards.foldl checkShard acc.1 := by
    intro shards
    induction shards with
    | nil => exact fun acc => rfl
    | cons shard shards ih =>
      intro acc
      rw [List.foldl_cons, ih, checkShardChanged_fst, List.foldl_cons]
  exact hfold _ _

/-- The shard has the leader `leader` since the term `term`. -/
def withLeader (shard : ShardInfo) (leader : String) (term : ℕ) : LeaderManager :=
  { lm with
    shards := lm.shards.insert { shard with leader := leader }
    terms := lm.terms.insert shard.id term }

variable {lm}

theorem lookup_withLeader (shard : ShardInfo) (leader : String) (term : ℕ) (x : String) :
    (lm.withLeader shard leader term).shards.shards.lookup x =
      if x = shard.id then some { shard with leader := leader } else lm.shards.shards.lookup x :=
  ShardMap.lookup_insert _ x

theorem terms_withLeader (shard : ShardInfo) (leader : String) (term : ℕ) (x : String) :
    (lm.withLeader shard leader term).terms.lookup x =
      if x = shard.id then some term else lm.terms.lookup x := by
  rw [withLeader]
  split_ifs with hx
  · rw [hx, Finmap.lookup_insert]
  · rw [Finmap.lookup_insert_of_ne _ hx]

theorem termForShard_withLeader (shard : ShardInfo) (leader : String) (term : ℕ) (x : String) :
    (lm.withLeader shard leader term).termForShard x =
      if x = shard.id then term else lm.termForShard x :=
  termForShard_insert rfl x

/-- A replica can become the leader. -/
theorem setLeader_of_mem {shard : ShardInfo} {leader : String}
    (hshard : lm.shards.shards.lookup shard.id = some shard) (hleader : leader ∈ shard.replicas) :
    lm.shards.setLeader shard.id leader =
      .ok (lm.shards.insert { shard with leader := leader }) := by
  have hreplica : shard.hasReplica leader = true :=
    List.any_eq_true.2 ⟨leader, hleader, beq_self_eq_true leader⟩
  rw [ShardMap.setLeader, hshard]
  exact if_pos hreplica

/-! ### The search for a new leader -/

/-- The search ends with the first replica that has the highest version, and with that
    version. -/
theorem foldl_pickStep (hnamed : lm.membership.isAlive "" = false) (shard : ShardInfo)
    (replicas : List String) :
    replicas.foldl (lm.pickStep shard) ("", 0) =
      ((replicas.filter (lm.membership.eligible shard)).argmax
        (lm.membership.versionForShard · shard.id)).elim ("", 0)
        fun c => (c, lm.membership.versionForShard c shard.id) := by
  induction replicas using List.reverseRecOn with
  | nil => rfl
  | append_singleton replicas a ih =>
    rw [List.foldl_append, ih, List.foldl_cons, List.foldl_nil, List.filter_append]
    by_cases ha : lm.membership.eligible shard a = true
    · obtain ⟨hleader, halive⟩ := Membership.eligible_iff.1 ha
      have hstep : ∀ best, lm.pickStep shard best a =
          if best.1 = "" ∨ lm.membership.versionForShard a shard.id > best.2 then
            (a, lm.membership.versionForShard a shard.id) else best := fun best => by
        simp [pickStep, hleader, halive]
      rw [List.filter_cons_of_pos ha, List.filter_nil, List.argmax_concat, hstep]
      cases hmax : (replicas.filter (lm.membership.eligible shard)).argmax
          (lm.membership.versionForShard · shard.id) with
      | none => simp
      | some c =>
        have hc := Membership.ne_empty_of_eligible hnamed
          (List.mem_filter.1 (List.argmax_mem hmax)).2
        simp only [Option.elim_some, hc, false_or]
        split_ifs <;> rfl
    · have hstep : ∀ best, lm.pickStep shard best a = best := fun best => by
        rw [Membership.eligible_iff, not_and, Bool.not_eq_true] at ha
        rw [pickStep]
        by_cases hleader : a = shard.leader
        · rw [if_pos hleader]
        · rw [if_neg hleader, if_pos (ha hleader)]
      rw [List.filter_cons_of_neg ha, List.filter_nil, List.append_nil, hstep]

theorem pickCandidate_eq (hnamed : lm.membership.isAlive "" = false) (shard : ShardInfo) :
    lm.pickCandidate shard =
      (lm.membership.successor shard).map (·, Counter.next (lm.termForShard shard.id)) := by
  rw [pickCandidate, foldl_pickStep hnamed, ← Membership.successor]
  cases hmax : lm.membership.successor shard with
  | none => rfl
  | some c =>
    exact if_neg (Membership.ne_empty_of_eligible hnamed
      (List.mem_filter.1 (List.argmax_mem hmax)).2)

/-! ### A run -/

/-- One shard in a run: it gets its new leader in the next term. -/
theorem checkShardChanged_eq {acc : LeaderManager × List String} {shard : ShardInfo}
    (hnamed : acc.1.membership.isAlive "" = false)
    (hshard : acc.1.shards.shards.lookup shard.id = some shard) :
    checkShardChanged acc shard =
      (acc.1.membership.newLeader shard).elim acc fun c =>
        (acc.1.withLeader shard c (Counter.next (acc.1.termForShard shard.id)),
          acc.2 ++ [shard.id]) := by
  have hreassign : reassignChanged acc shard =
      (acc.1.membership.successor shard).elim acc fun c =>
        (acc.1.withLeader shard c (Counter.next (acc.1.termForShard shard.id)),
          acc.2 ++ [shard.id]) := by
    rw [reassignChanged, pickCandidate_eq hnamed]
    cases hmax : acc.1.membership.successor shard with
    | none => rfl
    | some c =>
      have hreplica := (List.mem_filter.1 (List.argmax_mem hmax)).1
      simp only [Option.map_some, setLeader_of_mem hshard hreplica, Option.elim_some, withLeader]
  rw [checkShardChanged, Membership.newLeader]
  by_cases hunled : acc.1.membership.Unled shard
  · rw [if_pos hunled, ← hreassign]
    rcases hunled with hempty | hdead
    · rw [if_pos hempty]
    · rw [if_pos hdead, ite_self]
  · obtain ⟨hempty, hdead⟩ := not_or.1 hunled
    rw [if_neg hunled, if_neg hempty, if_neg hdead]
    rfl

/-- What a run has done when it has gone through the shards `todo`. -/
structure Checked (lm : LeaderManager) (todo : List ShardInfo) (lm' : LeaderManager) :
    Prop where
  membership : lm'.membership = lm.membership
  changed : ∀ shard ∈ todo, ∀ c, lm.membership.newLeader shard = some c →
    lm'.shards.shards.lookup shard.id = some { shard with leader := c } ∧
      lm'.terms.lookup shard.id = some (Counter.next (lm.termForShard shard.id))
  kept : ∀ x, (∀ shard ∈ todo, shard.id = x → lm.membership.newLeader shard = none) →
    lm'.shards.shards.lookup x = lm.shards.shards.lookup x ∧
      lm'.terms.lookup x = lm.terms.lookup x

section

variable {lm' : LeaderManager} {shard : ShardInfo} {todo : List ShardInfo}

/-- A shard that gets no new leader makes no difference. -/
theorem Checked.cons_of_none (h : lm.Checked todo lm')
    (hnew : lm.membership.newLeader shard = none) : lm.Checked (shard :: todo) lm' where
  membership := h.membership
  changed := by
    rintro shard' (_ | ⟨_, hmem⟩) c hc
    · rw [hnew] at hc
      cases hc
    · exact h.changed shard' hmem c hc
  kept x hx := h.kept x fun shard' hmem => hx shard' (List.mem_cons_of_mem _ hmem)

/-- A shard that has got a new leader stays as it is when the run goes on, and does not
    change what the run does to the others. -/
theorem Checked.cons_of_some {c : String} (hlater : ∀ shard' ∈ todo, shard'.id ≠ shard.id)
    (hnew : lm.membership.newLeader shard = some c)
    (h : (lm.withLeader shard c (Counter.next (lm.termForShard shard.id))).Checked todo lm') :
    lm.Checked (shard :: todo) lm' where
  membership := h.membership
  changed := by
    rintro shard' (_ | ⟨_, hmem⟩) c' hc'
    · obtain rfl : c = c' := Option.some.inj (hnew.symm.trans hc')
      obtain ⟨hshard, hterm⟩ := h.kept shard.id fun shard' hmem hid =>
        absurd hid (hlater shard' hmem)
      rw [hshard, hterm, lookup_withLeader, terms_withLeader, if_pos rfl, if_pos rfl]
      exact ⟨rfl, rfl⟩
    · obtain ⟨hshard, hterm⟩ := h.changed shard' hmem c' hc'
      rw [termForShard_withLeader, if_neg (hlater shard' hmem)] at hterm
      exact ⟨hshard, hterm⟩
  kept x hx := by
    have hne : x ≠ shard.id := by
      rintro rfl
      rw [hx shard List.mem_cons_self rfl] at hnew
      cases hnew
    obtain ⟨hshard, hterm⟩ := h.kept x fun shard' hmem => hx shard' (List.mem_cons_of_mem _ hmem)
    rw [lookup_withLeader, if_neg hne] at hshard
    rw [terms_withLeader, if_neg hne] at hterm
    exact ⟨hshard, hterm⟩

end

/-- A run leaves the shards behind it alone, and comes to each of the others as it was. -/
theorem checked_foldl {acc : LeaderManager × List String} {todo : List ShardInfo}
    (hnamed : acc.1.membership.isAlive "" = false) (hdistinct : (todo.map (·.id)).Nodup)
    (hshards : ∀ shard ∈ todo, acc.1.shards.shards.lookup shard.id = some shard) :
    acc.1.Checked todo (todo.foldl checkShardChanged acc).1 ∧
      (todo.foldl checkShardChanged acc).2 = acc.2 ++
        (todo.filter fun shard => (acc.1.membership.newLeader shard).isSome).map (·.id) := by
  induction todo generalizing acc with
  | nil => exact ⟨⟨rfl, by simp, fun _ _ => ⟨rfl, rfl⟩⟩, by simp⟩
  | cons shard todo ih =>
    obtain ⟨hfirst, hdistinct⟩ := List.nodup_cons.1 hdistinct
    have hlater : ∀ shard' ∈ todo, shard'.id ≠ shard.id := fun shard' hmem hid =>
      hfirst (List.mem_map.2 ⟨shard', hmem, hid⟩)
    have htail := fun shard' (hmem : shard' ∈ todo) => hshards shard' (List.mem_cons_of_mem _ hmem)
    rw [List.foldl_cons, checkShardChanged_eq hnamed (hshards shard List.mem_cons_self)]
    cases hnew : acc.1.membership.newLeader shard with
    | none =>
      obtain ⟨hchecked, hlist⟩ := ih hnamed hdistinct htail
      refine ⟨hchecked.cons_of_none hnew, ?_⟩
      rw [Option.elim_none, hlist, List.filter_cons_of_neg (by simp [hnew])]
    | some c =>
      obtain ⟨hchecked, hlist⟩ := @ih
        (acc.1.withLeader shard c (Counter.next (acc.1.termForShard shard.id)),
          acc.2 ++ [shard.id])
        hnamed hdistinct fun shard' hmem => by
          rw [lookup_withLeader, if_neg (hlater shard' hmem)]
          exact htail shard' hmem
      refine ⟨.cons_of_some hlater hnew hchecked, ?_⟩
      rw [Option.elim_some, hlist, List.filter_cons_of_pos (by simp [hnew]), List.map_cons,
        List.append_assoc]
      rfl

/-- The shard has no live leader, and another live replica. -/
def Reassigned (lm : LeaderManager) (shard : ShardInfo) : Prop :=
  lm.membership.Unled shard ∧
    ∃ c ∈ shard.replicas, c ≠ shard.leader ∧ lm.membership.isAlive c = true

/-- What a run changes: it returns the shards without a live leader that have another live
    replica. Of these replicas, the first one with the highest version leads the shard, in
    the term `next` after the one before. The other shards, and their terms, are as
    before. -/
structure Reassigns (next : ℕ → ℕ) (lm : LeaderManager) (order : List String) : Prop where
  nodup : (lm.checkAndReassignChanged order).2.Nodup
  mem_iff : ∀ x, x ∈ (lm.checkAndReassignChanged order).2 ↔
    ∃ shard, lm.shards.shards.lookup x = some shard ∧ lm.Reassigned shard
  changed : ∀ x ∈ (lm.checkAndReassignChanged order).2, ∃ shard c,
    lm.shards.shards.lookup x = some shard ∧ lm.membership.successor shard = some c ∧
      (lm.checkAndReassignChanged order).1.shards.shards.lookup x =
        some { shard with leader := c } ∧
      (lm.checkAndReassignChanged order).1.termForShard x = next (lm.termForShard x)
  kept : ∀ x, x ∉ (lm.checkAndReassignChanged order).2 →
    (lm.checkAndReassignChanged order).1.shards.shards.lookup x = lm.shards.shards.lookup x ∧
      (lm.checkAndReassignChanged order).1.terms.lookup x = lm.terms.lookup x

/-- A run without other steps in between, if no live node has the ID `""`. -/
theorem reassigns_next {lm : LeaderManager} {order : List String}
    (hnodup : order.Nodup) (horder : order.toFinset = lm.shards.shards.keys)
    (hnamed : lm.membership.isAlive "" = false) : lm.Reassigns Counter.next order := by
  have hmem := lm.shards.mem_all_iff horder
  obtain ⟨hchecked, hlist⟩ := @checked_foldl (lm, []) (lm.shards.all order) hnamed
    (ShardMap.nodup_all hnodup) fun shard h => (hmem shard).1 h
  have hchanged : ∀ x, x ∈ (lm.checkAndReassignChanged order).2 ↔
      ∃ shard, lm.shards.shards.lookup x = some shard ∧
        (lm.membership.newLeader shard).isSome = true := fun x => by
    rw [checkAndReassignChanged, hlist, List.nil_append, List.mem_map]
    constructor
    · rintro ⟨shard, h, rfl⟩
      exact ⟨shard, (hmem shard).1 (List.mem_filter.1 h).1, (List.mem_filter.1 h).2⟩
    · rintro ⟨shard, h, hnew⟩
      obtain rfl := lm.shards.id_eq x shard h
      exact ⟨shard, List.mem_filter.2 ⟨(hmem shard).2 h, hnew⟩, rfl⟩
  refine ⟨?_, fun x => ?_, fun x hx => ?_, fun x hx => hchecked.kept x fun shard h hid => ?_⟩
  · rw [checkAndReassignChanged, hlist, List.nil_append]
    exact (ShardMap.nodup_all hnodup).sublist (List.filter_sublist.map _)
  · simp only [hchanged, Membership.newLeader_isSome_iff, Reassigned]
  · obtain ⟨shard, hshard, hnew⟩ := (hchanged x).1 hx
    obtain ⟨c, hc⟩ := Option.isSome_iff_exists.1 hnew
    obtain rfl := lm.shards.id_eq x shard hshard
    obtain ⟨hlookup, hterm⟩ := hchecked.changed shard ((hmem shard).2 hshard) c hc
    refine ⟨shard, c, hshard, (Membership.newLeader_eq_some.1 hc).2, hlookup, ?_⟩
    rw [termForShard, checkAndReassignChanged, hterm]
    rfl
  · subst hid
    rw [← Option.not_isSome_iff_eq_none]
    exact fun hnew => hx ((hchanged _).2 ⟨shard, (hmem shard).1 h, hnew⟩)

/-- A run without other steps in between, if no live node has the ID `""`, increases the
    terms of the shards that get a new leader by one, with the rest as it should be, exactly
    when none of these terms is the last one. -/
theorem reassigns_succ_iff (lm : LeaderManager) (order : List String)
    (hnodup : order.Nodup) (horder : order.toFinset = lm.shards.shards.keys)
    (hnamed : lm.membership.isAlive "" = false) :
    lm.Reassigns (· + 1) order ↔
      ∀ x shard, lm.shards.shards.lookup x = some shard → lm.Reassigned shard →
        lm.termForShard x ≠ Counter.max := by
  have hrun := reassigns_next hnodup horder hnamed
  constructor
  · intro h x shard hshard hnew hmax
    have hx := (hrun.mem_iff x).2 ⟨shard, hshard, hnew⟩
    obtain ⟨-, -, -, -, -, hterm⟩ := h.changed x hx
    obtain ⟨-, -, -, -, -, hnext⟩ := hrun.changed x hx
    rw [hnext, hmax] at hterm
    cases hterm
  · intro h
    refine ⟨hrun.nodup, hrun.mem_iff, fun x hx => ?_, hrun.kept⟩
    obtain ⟨shard, hshard, hnew⟩ := (hrun.mem_iff x).1 hx
    rw [← Counter.next_of_ne (h x shard hshard hnew)]
    exact hrun.changed x hx

/-- The coordinator of the example, after a heartbeat of `b`. -/
def heardManager : LeaderManager := { exampleManager with membership := afterHeartbeat }

/-- There, `b` takes over from `a`. -/
theorem reassigns_heardManager :
    heardManager.Reassigns (· + 1) ["shard-0"] ∧
      (heardManager.checkAndReassignChanged ["shard-0"]).2 = ["shard-0"] := by
  have horder : ["shard-0"].toFinset = heardManager.shards.shards.keys := by decide +kernel
  refine ⟨(reassigns_succ_iff heardManager ["shard-0"] (by decide) horder (by decide +kernel)).2
    fun x shard hshard _ => ?_, by decide +kernel⟩
  have hx := Finmap.mem_keys.2 (Finmap.mem_of_lookup_eq_some hshard)
  rw [← horder, List.mem_toFinset, List.mem_singleton] at hx
  subst hx
  decide +kernel

/-- The same after the report of an election of `a` in the last term. -/
def lastTermManager : LeaderManager := (heardManager.notifyLeader "shard-0" "a" Counter.max).2

/-- The report is accepted. Then `b` takes over from `a`, in the term 0. -/
theorem last_term_wraps :
    (heardManager.notifyLeader "shard-0" "a" Counter.max).1 = true ∧
      (lastTermManager.checkAndReassignChanged ["shard-0"]).1.termForShard "shard-0" = 0 ∧
      ¬lastTermManager.Reassigns (· + 1) ["shard-0"] := by
  have hterm : (lastTermManager.checkAndReassignChanged ["shard-0"]).1.termForShard "shard-0" =
      0 := by decide +kernel
  refine ⟨by decide +kernel, hterm, fun h => ?_⟩
  obtain ⟨-, -, -, -, -, hnext⟩ := h.changed "shard-0" (by decide +kernel)
  exact absurd (hterm.symm.trans hnext) (Nat.succ_ne_zero _).symm

end LeaderManager

/-! ### The reports of elections -/

/-- A report that `leader` has won the election of the term `term`. -/
structure LeaderReport where
  leader : String
  term : ℕ
  deriving DecidableEq, Repr

namespace LeaderReport

/-- The report is of a replica, and of a term above `term`. -/
def Valid (replicas : List String) (term : ℕ) (c : LeaderReport) : Prop :=
  c.leader ∈ replicas ∧ term < c.term

instance (replicas : List String) (term : ℕ) (c : LeaderReport) :
    Decidable (c.Valid replicas term) :=
  inferInstanceAs (Decidable (_ ∧ _))

/-- The leader and the term that some reports end with, from those of `first`: the valid
    report with the highest term, if there is one. -/
def last (replicas : List String) (first : LeaderReport) (calls : List LeaderReport) :
    LeaderReport :=
  ((calls.filter fun c => c.Valid replicas first.term).argmax (·.term)).getD first

variable {replicas : List String} {first c : LeaderReport} {calls : List LeaderReport}

theorem last_eq_first (h : ∀ c ∈ calls, ¬c.Valid replicas first.term) :
    last replicas first calls = first := by
  have hnone : calls.filter (fun c => c.Valid replicas first.term) = [] :=
    List.filter_eq_nil_iff.2 fun c hc => by simpa using h c hc
  rw [last, hnone]
  rfl

/-- If some report is valid, the last one is a valid one with the highest term. -/
theorem last_isMax (h : ∃ c ∈ calls, c.Valid replicas first.term) :
    last replicas first calls ∈ calls ∧ (last replicas first calls).Valid replicas first.term ∧
      ∀ c ∈ calls, c.Valid replicas first.term → c.term ≤ (last replicas first calls).term := by
  have hmem : ∀ {c}, c ∈ calls.filter (fun c => c.Valid replicas first.term) ↔
      c ∈ calls ∧ c.Valid replicas first.term := by simp
  rw [last]
  cases hmax : (calls.filter fun c => c.Valid replicas first.term).argmax (·.term) with
  | none =>
    obtain ⟨c, hc, hvalid⟩ := h
    rw [List.argmax_eq_none, List.filter_eq_nil_iff] at hmax
    exact absurd (decide_eq_true hvalid) (hmax c hc)
  | some d =>
    obtain ⟨hd, hvalid⟩ := hmem.1 (List.argmax_mem hmax)
    exact ⟨hd, hvalid, fun c hc hc' => List.le_of_mem_argmax (hmem.2 ⟨hc, hc'⟩) hmax⟩

/-- The last report is not of a lower term than the first. -/
theorem le_term_last (replicas : List String) (first : LeaderReport) (calls : List LeaderReport) :
    first.term ≤ (last replicas first calls).term := by
  by_cases h : ∃ c ∈ calls, c.Valid replicas first.term
  · exact (last_isMax h).2.1.2.le
  · rw [last_eq_first fun c hc hvalid => h ⟨c, hc, hvalid⟩]

/-- One more report is the last one if it is of a replica, and of a higher term. -/
theorem last_concat (replicas : List String) (first : LeaderReport) (calls : List LeaderReport)
    (c : LeaderReport) :
    last replicas first (calls ++ [c]) =
      if c.Valid replicas (last replicas first calls).term then c
      else last replicas first calls := by
  by_cases hvalid : c.Valid replicas first.term
  · rw [last, List.filter_append, List.filter_cons_of_pos (by simpa using hvalid),
      List.filter_nil, List.argmax_concat, last]
    cases hmax : (calls.filter fun c => c.Valid replicas first.term).argmax (·.term) with
    | none => exact (if_pos hvalid).symm
    | some d =>
      have hiff : c.Valid replicas d.term ↔ d.term < c.term := and_iff_right hvalid.1
      simp only [Option.getD_some, hiff]
      split_ifs <;> rfl
  · -- A report that is not valid at first is not so later.
    have hlater : ¬c.Valid replicas (last replicas first calls).term := fun h =>
      hvalid ⟨h.1, (le_term_last replicas first calls).trans_lt h.2⟩
    rw [if_neg hlater, last, List.filter_append,
      List.filter_cons_of_neg (by simpa using hvalid), List.filter_nil, List.append_nil, last]

/-- If equal terms are of the same leader, the last report does not depend on the order
    of the reports, or on how often they come. -/
theorem last_congr {calls' : List LeaderReport} (hmem : ∀ c, c ∈ calls' ↔ c ∈ calls)
    (hsame : ∀ c ∈ calls, ∀ d ∈ calls, c.term = d.term → c.leader = d.leader) :
    last replicas first calls' = last replicas first calls := by
  by_cases h : ∃ c ∈ calls, c.Valid replicas first.term
  · obtain ⟨hlast, hvalid, hmax⟩ := last_isMax h
    have h' : ∃ c ∈ calls', c.Valid replicas first.term := by simpa only [hmem] using h
    obtain ⟨hlast', hvalid', hmax'⟩ := last_isMax h'
    simp only [hmem] at hlast' hmax'
    have hterm := le_antisymm (hmax _ hlast' hvalid') (hmax' _ hlast hvalid)
    have hleader := hsame _ hlast' _ hlast hterm
    cases hl : last replicas first calls
    cases hl' : last replicas first calls'
    simp only [hl, hl'] at hterm hleader
    rw [hterm, hleader]
  · have hnone : ∀ c ∈ calls, ¬c.Valid replicas first.term := fun c hc hvalid => h ⟨c, hc, hvalid⟩
    rw [last_eq_first hnone, last_eq_first fun c hc => hnone c ((hmem c).1 hc)]

end LeaderReport

namespace LeaderManager

/-- The coordinator after some reports for the shard `x`. -/
def notifyAll (lm : LeaderManager) (x : String) (calls : List LeaderReport) : LeaderManager :=
  calls.foldl (fun lm c => (lm.notifyLeader x c.leader c.term).2) lm

/-- The shard stands as `shard`, with the leader and the term of `c`. -/
def Stands (lm : LeaderManager) (shard : ShardInfo) (c : LeaderReport) : Prop :=
  lm.shards.shards.lookup shard.id = some { shard with leader := c.leader } ∧
    lm.terms.lookup shard.id = some c.term

variable {lm : LeaderManager} {shard : ShardInfo} {c d : LeaderReport}

theorem Stands.notifyLeader_eq (h : lm.Stands shard c) (d : LeaderReport) :
    lm.notifyLeader shard.id d.leader d.term =
      if d.Valid shard.replicas c.term then
        (true, lm.withLeader { shard with leader := c.leader } d.leader d.term)
      else (false, lm) := by
  obtain ⟨hshard, hterm⟩ := h
  rw [LeaderManager.notifyLeader, hterm]
  by_cases hle : d.term ≤ c.term
  · simp only [hle, if_true, LeaderReport.Valid, not_lt.2 hle, and_false, if_false]
  · by_cases hmem : d.leader ∈ shard.replicas
    · have hvalid : d.Valid shard.replicas c.term := ⟨hmem, not_le.1 hle⟩
      have hset := @setLeader_of_mem lm { shard with leader := c.leader } d.leader hshard hmem
      simp only [hle, if_false, if_pos hvalid, hset, withLeader]
    · have hset : lm.shards.setLeader shard.id d.leader =
          .error (.notReplica d.leader shard.id) := by
        rw [ShardMap.setLeader, hshard]
        exact if_neg (by simpa [ShardInfo.hasReplica] using hmem)
      simp only [hle, if_false, hset, LeaderReport.Valid, hmem, false_and]

/-- One report: it is accepted, and takes effect, if it is valid. -/
theorem Stands.notifyLeader (h : lm.Stands shard c) (d : LeaderReport) :
    ((lm.notifyLeader shard.id d.leader d.term).1 = true ↔ d.Valid shard.replicas c.term) ∧
      (lm.notifyLeader shard.id d.leader d.term).2.Stands shard
        (if d.Valid shard.replicas c.term then d else c) := by
  rw [h.notifyLeader_eq]
  split_ifs with hvalid
  · refine ⟨iff_of_true rfl hvalid, ?_, ?_⟩
    · rw [lookup_withLeader, if_pos rfl]
    · rw [terms_withLeader, if_pos rfl]
  · exact ⟨iff_of_false not_false hvalid, h⟩

/-- The reports end with the last one that is valid. -/
theorem Stands.notifyAll (h : lm.Stands shard c) (calls : List LeaderReport) :
    (lm.notifyAll shard.id calls).Stands shard (.last shard.replicas c calls) := by
  induction calls using List.reverseRecOn with
  | nil => exact h
  | append_singleton calls d ih =>
    rw [LeaderManager.notifyAll, List.foldl_append, LeaderReport.last_concat]
    exact (ih.notifyLeader d).2

/-- The reports of some elections of a shard, in which equal terms are of the same leader,
    end with the same leader and the same term in whatever order and however often they
    come: those of the highest term among the reports of replicas with a term above the
    initial one, or the initial ones if there are none. And a report is accepted if its
    term is above the current one and its leader is a replica. -/
theorem notifyLeader_order_insensitive {lm : LeaderManager} {x : String} {shard : ShardInfo}
    {term : ℕ} (hshard : lm.shards.shards.lookup x = some shard)
    (hterm : lm.terms.lookup x = some term) {calls : List LeaderReport}
    (hsame : ∀ c ∈ calls, ∀ d ∈ calls, c.term = d.term → c.leader = d.leader) :
    (∃ final : LeaderReport,
      (∀ delivered : List LeaderReport, (∀ c, c ∈ delivered ↔ c ∈ calls) →
        (lm.notifyAll x delivered).shards.shards.lookup x =
            some { shard with leader := final.leader } ∧
          (lm.notifyAll x delivered).terms.lookup x = some final.term) ∧
      ((∃ c ∈ calls, c.leader ∈ shard.replicas ∧ term < c.term) →
        final ∈ calls ∧ (final.leader ∈ shard.replicas ∧ term < final.term) ∧
          ∀ c ∈ calls, c.leader ∈ shard.replicas ∧ term < c.term → c.term ≤ final.term) ∧
      ((∀ c ∈ calls, ¬(c.leader ∈ shard.replicas ∧ term < c.term)) →
        final = ⟨shard.leader, term⟩)) ∧
    ∀ (delivered : List LeaderReport) (c : LeaderReport),
      ((lm.notifyAll x delivered).notifyLeader x c.leader c.term).1 = true ↔
        (lm.notifyAll x delivered).termForShard x < c.term ∧ c.leader ∈ shard.replicas := by
  obtain rfl := lm.shards.id_eq x shard hshard
  have hstart : lm.Stands shard ⟨shard.leader, term⟩ := ⟨hshard, hterm⟩
  refine ⟨⟨.last shard.replicas ⟨shard.leader, term⟩ calls, fun delivered hmem => ?_,
    fun h => LeaderReport.last_isMax h, fun h => LeaderReport.last_eq_first h⟩,
    fun delivered c => ?_⟩
  · rw [← LeaderReport.last_congr hmem hsame]
    exact hstart.notifyAll delivered
  · have hstands := hstart.notifyAll delivered
    rw [(hstands.notifyLeader c).1, termForShard, hstands.2, Option.getD_some]
    exact and_comm

/-- Three elections, and one of a node that is no replica. -/
def elections : List LeaderReport := [⟨"b", 2⟩, ⟨"a", 3⟩, ⟨"c", 5⟩, ⟨"d", 9⟩]

/-- However they are reported, `c` leads in the term 5. -/
theorem notifyLeader_order_insensitive_elections :
    (∀ c ∈ elections, ∀ d ∈ elections, c.term = d.term → c.leader = d.leader) ∧
      ∀ delivered : List LeaderReport, (∀ c, c ∈ delivered ↔ c ∈ elections) →
        (exampleManager.notifyAll "shard-0" delivered).terms.lookup "shard-0" = some 5 := by
  have hsame : ∀ c ∈ elections, ∀ d ∈ elections, c.term = d.term → c.leader = d.leader := by decide
  obtain ⟨⟨final, hfinal, hmax, -⟩, -⟩ := @notifyLeader_order_insensitive exampleManager "shard-0"
    exampleShard 1 (by decide +kernel) (by decide +kernel) elections hsame
  obtain ⟨hmem, hvalid, hle⟩ := hmax ⟨⟨"c", 5⟩, by decide, by decide⟩
  have hterm : ∀ d ∈ elections, d.leader ∈ exampleShard.replicas ∧ 1 < d.term → 5 ≤ d.term →
      d.term = 5 := by decide
  have hfive := hterm final hmem hvalid (hle ⟨"c", 5⟩ (by decide) (by decide))
  exact ⟨hsame, fun delivered h => by rw [(hfinal delivered h).2, hfive]⟩

end LeaderManager

end Doki
