import Doki.Cluster.Writes

/-!
# What the replicas have applied

The contents of a replica are those that its history gives (`Recorded`), and a
history grows by one entry at a time: in every step but those of the recovery
loop, nothing changes, or one replica applies the entry of a write
(`Cluster.WriteStep.contents`). Which one and which entry is known before the
step (`Cluster.applying`).
-/

namespace Doki

/-- The node `n'` is `n` with the entry `e` applied. -/
structure NodeApplies (n : Node) (e : Entry) (n' : Node) : Prop where
  replica : Applies n.replica e n'.replica
  history : n'.history = n.history ++ [e]

/-- The contents of the replica are those of its history. -/
structure Recorded (n : Node) : Prop where
  consecutive : Consecutive 0 n.history
  version : n.replica.version = n.history.length
  kv : n.replica.kv = replay ∅ n.history

section

variable {n n' : Node} {e : Entry} {r : ReplicaState}

theorem NodeStill.track (h : SameContents n.replica r) (e : Entry) : NodeStill n (n.track e r) :=
  ⟨h, if_pos h.version⟩

theorem NodeApplies.track (h : Applies n.replica e r) : NodeApplies n e (n.track e r) := by
  refine ⟨h, if_neg ?_⟩
  rw [h.version, h.next]
  omega

theorem Recorded.still (h : Recorded n) (hs : NodeStill n n') : Recorded n' where
  consecutive := hs.history ▸ h.consecutive
  version := by rw [hs.replica.version, hs.history, h.version]
  kv := by rw [hs.replica.kv, hs.history, h.kv]

theorem Recorded.applies (h : Recorded n) (ha : NodeApplies n e n') : Recorded n' where
  consecutive := by
    rw [ha.history, consecutive_append]
    exact ⟨h.consecutive, by rw [ha.replica.next, h.version]; omega, trivial⟩
  version := by rw [ha.replica.version, ha.replica.next, ha.history, h.version]; simp
  kv := by rw [ha.replica.kv, ha.history, h.kv]; simp

/-- The version of an applied entry is one that the replica has reached. -/
theorem Recorded.version_le (h : Recorded n) (he : e ∈ n.history) :
    e.version ≤ n.replica.version := by
  have := (h.consecutive.lt_version e he).2
  rw [h.version]
  omega

/-- A replica that is past an entry, and has no other one at its version, has
    applied it. -/
theorem Recorded.mem_of_noClash (h : Recorded n) (hpos : 0 < e.version)
    (hle : e.version ≤ n.replica.version) (hclash : NoClash n.history e) : e ∈ n.history := by
  obtain ⟨x, hx, hv⟩ := h.consecutive.exists_version hpos (by rw [← h.version]; omega)
  exact hclash x hx hv ▸ hx

end

namespace Cluster

variable (c : Cluster)

/-- The replica that acknowledges an entry in a step, as a follower or by committing
    it as a leader, and the entry. A follower has to be in the term of the entry or an
    older one, and must not miss an entry before it; a leader needs the
    acknowledgements of the plan, and the entry must be its next one. -/
def acking : Action → Option (String × Entry)
  | .replicate k p _ _ =>
    (c.writes[k]?).bind fun w =>
      w.sent.bind fun s =>
        if (c.nodes p).replica.term ≤ s.entry.term ∧
            s.entry.version ≤ (c.nodes p).replica.version + 1 then
          some (p, s.entry)
        else none
  | .writeFinish k _ _ =>
    (c.writes[k]?).bind fun w =>
      w.sent.bind fun s =>
        if s.plan.neededFollowers ≤ s.acked.length ∧
            (c.nodes w.leader).replica.term ≤ s.entry.term ∧
            s.entry.version = (c.nodes w.leader).replica.version + 1 then
          some (w.leader, s.entry)
        else none
  | _ => none

/-- The replica that applies an entry in a step, and the entry: one that acknowledges
    it, and is not past it. -/
def applying (a : Action) : Option (String × Entry) :=
  (c.acking a).filter fun x => decide ((c.nodes x.1).replica.version < x.2.version)

/-- No replica has another entry at the version of `e`. -/
def Unclashed (e : Entry) : Prop := ∀ i ∈ c.ids, NoClash (c.nodes i).history e

instance (e : Entry) : Decidable (c.Unclashed e) :=
  inferInstanceAs (Decidable (∀ i ∈ c.ids, NoClash (c.nodes i).history e))

variable {c} {c' : Cluster}

theorem acking_replicate {k : ℕ} {p : String} {now : Time} {walOk : Bool} {w : Write} {s : Sending}
    (hw : c.writes[k]? = some w) (hs : w.sent = some s)
    (hacked : ((c.nodes p).replica.replicate now s.entry walOk).2.acked = true) :
    c.acking (.replicate k p now walOk) = some (p, s.entry) := by
  simp [acking, hw, hs, ReplicaState.of_acked hacked]

theorem acking_writeFinish {k : ℕ} {walOk : Bool} {fates : List Faulty.Fate} {w : Write}
    {s : Sending} {r : ReplicaState} (hw : c.writes[k]? = some w) (hs : w.sent = some s)
    (hneeded : s.plan.neededFollowers ≤ s.acked.length)
    (happlies : Applies (c.nodes w.leader).replica s.entry r) :
    c.acking (.writeFinish k walOk fates) = some (w.leader, s.entry) := by
  simp [acking, hw, hs, hneeded, happlies.term_le, happlies.next]

theorem applying_of_acking {a : Action} {p : String} {e : Entry} (h : c.acking a = some (p, e))
    (hlt : (c.nodes p).replica.version < e.version) : c.applying a = some (p, e) := by
  simp [applying, h, hlt]

theorem acking_of_applying {a : Action} {x : String × Entry} (h : c.applying a = some x) :
    c.acking a = some x :=
  (Option.filter_eq_some_iff.1 h).1

/-- In a step nothing is applied, or one entry by one replica. -/
theorem WriteStep.contents {a : Action} (h : c.WriteStep a c') :
    (∀ i, NodeStill (c.nodes i) (c'.nodes i)) ∨
    ∃ p e, c.applying a = some (p, e) ∧ NodeApplies (c.nodes p) e (c'.nodes p) ∧
      ∀ q, q ≠ p → c'.nodes q = c.nodes q := by
  cases h with
  | other hwrites hnodes => exact .inl hnodes
  | started | planned | answered => exact .inl fun i => .refl _
  -- Two of the cases can apply an entry: the handler of a follower, and the commit.
  | @replicated k p now walOk w s fan hw hs hfan =>
    rcases (c.nodes p).replica.replicate_effect now s.entry walOk with
      ⟨hsame, -⟩ | ⟨happlies, hacked⟩
    · exact .inl (NodeStill.update (.track hsame _))
    · refine .inr ⟨p, s.entry, applying_of_acking (acking_replicate hw hs hacked) ?_, ?_, ?_⟩
      · exact happlies.next ▸ Nat.lt_succ_self _
      · simpa using NodeApplies.track happlies
      · exact fun q hq => Function.update_of_ne hq _ _
  | @finished k walOk fates w s res r ps hw hs hres hfinish =>
    rcases ReplicaState.finishWrite_effect s.version_pos hfinish with
      ⟨err, -, hsame⟩ | ⟨ok, -, hneeded, happlies⟩
    · exact .inl (NodeStill.update (.track hsame _))
    · refine .inr ⟨w.leader, s.entry,
        applying_of_acking (acking_writeFinish hw hs hneeded happlies) ?_, ?_, ?_⟩
      · exact happlies.next ▸ Nat.lt_succ_self _
      · simpa using NodeApplies.track happlies
      · exact fun q hq => Function.update_of_ne hq _ _
  | forced hw =>
    exact .inl (NodeStill.update ⟨ReplicaState.sameContents_setLagging _ _, rfl⟩)

/-- The contents of the replicas remain those of their histories. -/
theorem WriteStep.recorded {a : Action} (h : c.WriteStep a c') {i : String}
    (hi : Recorded (c.nodes i)) : Recorded (c'.nodes i) := by
  rcases h.contents with hstill | ⟨p, e, -, happlies, hothers⟩
  · exact hi.still (hstill i)
  · by_cases hip : i = p
    · subst hip
      exact hi.applies happlies
    · rwa [hothers i hip]

end Cluster

end Doki
