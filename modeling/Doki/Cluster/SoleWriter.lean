import Doki.Cluster.Acknowledged
import Doki.Cluster.Integrity

/-!
# One writer, without failures

A follower diverges when a version is used for two entries, and for this a write has
to fail: its entry stays on the followers that have applied it, and the next write
gets the same version. When one node makes all writes, and begins none after one that
has failed, every version is used once. Then the followers follow, through any
number of elections, lost messages and recoveries from the writer.

* `Cluster.Serial`: every entry that was sent is in the history of the writer, or it
  is that of the last write, which has not succeeded, and the next one of the writer;
* `Cluster.Serial.unique`: so no version has two entries;
* `Cluster.follower_follows`: a follower has the contents that the writer had at the
  same version, or it is ahead by the entry of the last write.
-/

namespace Doki

open Faulty Runs

/-- What holds of the `k`-th of `n` writes, when the writer `ℓ` is at the version `v` and
    has the history `H`. -/
structure SerialWrite (ℓ : String) (v : ℕ) (H : List Entry) (n k : ℕ) (w : Write) : Prop where
  leader : w.leader = ℓ
  unsent : w.sent = none → w.result = none ∧ k + 1 = n
  sent : ∀ s, w.sent = some s → s.entry ∈ H ∨
    k + 1 = n ∧ s.entry.version = v + 1 ∧ w.acknowledged = none

/-- A write has changed, but neither what it sends nor its result. -/
theorem SerialWrite.of_eq {ℓ : String} {v n k : ℕ} {H : List Entry} {w w' : Write}
    (h : SerialWrite ℓ v H n k w) (hleader : w'.leader = w.leader)
    (hsent : w'.sent.map (·.entry) = w.sent.map (·.entry)) (hresult : w'.result = w.result) :
    SerialWrite ℓ v H n k w' where
  leader := hleader.trans h.leader
  unsent hs := by
    rw [hs, Option.map_none, eq_comm, Option.map_eq_none_iff] at hsent
    exact hresult ▸ h.unsent hsent
  sent s' hs' := by
    have hacked : w'.acknowledged = w.acknowledged := by
      rw [Write.acknowledged, Write.acknowledged, hresult, hsent]
    rw [hs', Option.map_some, eq_comm, Option.map_eq_some_iff] at hsent
    obtain ⟨s, hs, heq⟩ := hsent
    rw [hacked, ← heq]
    exact h.sent s hs

namespace Cluster

variable (ℓ : String)

/-- No write begins after one that has failed. -/
def NoneFailed (c : Cluster) (a : Action) : Prop :=
  (writer a).isSome = true → ∀ w ∈ c.writes, w.failed = false

instance (c : Cluster) (a : Action) : Decidable (c.NoneFailed a) :=
  inferInstanceAs (Decidable (_ → _))

/-- The writes are those of `ℓ`, one after the other. -/
def Serial (c : Cluster) : Prop :=
  ∀ k w, c.writes[k]? = some w →
    SerialWrite ℓ (c.nodes ℓ).replica.version (c.nodes ℓ).history c.writes.length k w

variable {ℓ} {c c' : Cluster}

/-- No version has two entries. -/
theorem Serial.unique (h : c.Serial ℓ) (hrec : Recorded (c.nodes ℓ)) {e e' : Entry}
    (he : Sent c.writes e) (he' : Sent c.writes e') (hv : e.version = e'.version) : e = e' := by
  have hcases : ∀ {e}, Sent c.writes e → e ∈ (c.nodes ℓ).history ∨
      e.version = (c.nodes ℓ).replica.version + 1 ∧
        ∃ w, c.writes[c.writes.length - 1]? = some w ∧ w.sent.map (·.entry) = some e := by
    rintro e ⟨w, hw, hsent⟩
    obtain ⟨k, hk⟩ := List.mem_iff_getElem?.1 hw
    obtain ⟨s, hs, rfl⟩ := Option.map_eq_some_iff.1 hsent.sent
    rcases (h k w hk).sent s hs with hmem | ⟨hlast, hversion, -⟩
    · exact .inl hmem
    · refine .inr ⟨hversion, w, ?_, hsent.sent⟩
      rwa [← hlast, Nat.add_sub_cancel]
  rcases hcases he with hmem | ⟨hversion, w, hw, hsent⟩ <;>
    rcases hcases he' with hmem' | ⟨hversion', w', hw', hsent'⟩
  · exact hrec.consecutive.eq_of_version hmem hmem' hv
  · have := hrec.version_le hmem
    omega
  · have := hrec.version_le hmem'
    omega
  · -- Both are entries of the last write.
    obtain rfl := Option.some.inj (hw.symm.trans hw')
    exact Option.some.inj (hsent.symm.trans hsent')

/-- So no entry that is applied clashes with another one. -/
theorem Serial.clashFree (h : c.Serial ℓ) (hc : c.Sourced) (hℓ : ℓ ∈ c.ids) (a : Action) :
    c.ClashFree ℓ a := by
  intro x hx
  have hsent := sent_of_acking hc.writes (acking_of_applying hx)
  have hclash : ∀ i ∈ c.ids, NoClash (c.nodes i).history x.2 := fun i hi y hy hv =>
    h.unique (hc.recorded ℓ hℓ) (hc.history i hi y hy) hsent hv
  split_ifs
  · exact hclash
  · exact hclash ℓ hℓ

/-! ## Steps -/

/-- The writer has moved on by the entry of the last write, or not at all. -/
theorem Serial.writer {a : Action} (h : c.Serial ℓ) (hc : c.Sourced) (hℓ : ℓ ∈ c.ids)
    (hstep : c.WriteStep a c') {k : ℕ} {w : Write} (hw : c.writes[k]? = some w) :
    SerialWrite ℓ (c'.nodes ℓ).replica.version (c'.nodes ℓ).history c.writes.length k w := by
  have hk := h k w hw
  rcases hstep.contents with hstill | ⟨p, e, happlying, happlies, hothers⟩
  · rw [(hstill ℓ).replica.version, (hstill ℓ).history]
    exact hk
  · by_cases hp : ℓ = p
    · subst hp
      refine ⟨hk.leader, hk.unsent, fun s hs => ?_⟩
      rw [happlies.history]
      rcases hk.sent s hs with hmem | ⟨-, hversion, -⟩
      · exact .inl (List.mem_append_left _ hmem)
      · -- The entry of the last write is the one that is applied.
        have hsent := sent_of_acking hc.writes (acking_of_applying happlying)
        have hsent' : Sent c.writes s.entry := by
          have hmem := List.mem_of_getElem? hw
          exact ⟨w, hmem, (hc.writes w hmem).sent s hs⟩
        have heq := h.unique (hc.recorded ℓ hℓ) hsent' hsent
          (hversion.trans happlies.replica.next.symm)
        exact .inl (List.mem_append_right _ (heq ▸ List.mem_cons_self))
    · rw [hothers ℓ hp]
      exact hk

/-- All entries are in the history of the writer, when it begins a write. -/
theorem Serial.started {i : String} {req : KVRequest} {now : Time} (h : c.Serial ℓ)
    (hi : i = ℓ) (hnone : ∀ w ∈ c.writes, w.failed = false)
    (hstep : c.step (.writeStart i req now) = some c') {k : ℕ} {w : Write}
    (hw : c.writes[k]? = some w) (n : ℕ) :
    SerialWrite ℓ (c.nodes ℓ).replica.version (c.nodes ℓ).history n k w := by
  subst hi
  have hidle : c.idle i = true := by
    rw [step] at hstep
    split_ifs at hstep with hi
    exact hi.2
  have hk := h k w hw
  have hmem := List.mem_of_getElem? hw
  have hended : w.result.isSome = true := by
    have := List.all_eq_true.1 hidle w hmem
    simpa [hk.leader] using this
  -- The write has ended, and it has not failed.
  have hacked : w.acknowledged = w.sent.map (·.entry) := by
    have hfailed := hnone w hmem
    cases hres : w.result with
    | none => exact absurd hended (by simp [hres])
    | some res =>
      cases res with
      | error err => exact absurd hfailed (by simp [Write.failed, hres])
      | ok res => simp [Write.acknowledged, hres]
  refine ⟨hk.leader, fun hs => absurd hended (by simp [(hk.unsent hs).1]), fun s hs => ?_⟩
  rcases hk.sent s hs with hmem | ⟨-, -, hnone⟩
  · exact .inl hmem
  · exact absurd (hacked.symm.trans hnone) (by simp [hs])

/-- The step lemma for writes. -/
theorem serial_write {a : Action} (h : c.Serial ℓ) (hc : c.Sourced) (hℓ : ℓ ∈ c.ids)
    (hC : OneLeader ℓ a ∧ c.NoneFailed a) (ha : a.recovers = false)
    (hstep : c.step a = some c') : c'.Serial ℓ := by
  have hwrite := writeStep ha hstep
  have hother := fun {k w} => h.writer hc hℓ hwrite (k := k) (w := w)
  -- A write that has changed is the one that it was, or the others are.
  have hset : ∀ {k : ℕ} {w w' : Write}, c.writes[k]? = some w → c'.writes = c.writes.set k w' →
      (SerialWrite ℓ (c'.nodes ℓ).replica.version (c'.nodes ℓ).history c.writes.length k w →
        SerialWrite ℓ (c'.nodes ℓ).replica.version (c'.nodes ℓ).history c.writes.length k w') →
      c'.Serial ℓ := by
    intro k w w' hw heq hw' j x hx
    rw [heq] at hx ⊢
    rw [List.length_set]
    rcases List.getElem?_set_cases hx with ⟨rfl, rfl⟩ | ⟨-, hx⟩
    · exact hw' (hother hw)
    · exact hother hx
  cases hwrite with
  | other hwrites hnodes =>
    intro k w hw
    rw [hwrites] at hw ⊢
    exact hother hw
  | @started i req now hi hcheck =>
    intro k w hw
    rcases List.getElem?_concat_cases hw with ⟨rfl, rfl⟩ | hw
    · exact ⟨hC.1.1 i rfl, fun _ => ⟨rfl, by simp⟩, fun s hs => absurd hs (by simp)⟩
    · exact h.started (hC.1.1 i rfl) (hC.2 rfl) hstep hw _
  | planned hw hsent hpos =>
    refine hset hw rfl fun hk => ⟨hk.leader, fun hs => absurd hs (by simp), fun s hs => ?_⟩
    obtain ⟨hres, hlast⟩ := hk.unsent hsent
    obtain rfl := Option.some.inj hs
    refine .inr ⟨hlast, ?_, ?_⟩
    · rw [nodes_setWrite, ← hk.leader]
      exact Counter.next_of_pos hpos
    · simp [Write.acknowledged, hres]
  | replicated hw hs hfan => exact hset hw rfl fun hk => hk.of_eq rfl (by rw [hs]; rfl) rfl
  | answered hw hs hres htargets hhandled =>
    exact hset hw rfl fun hk => hk.of_eq rfl (by rw [hs]; rfl) rfl
  | @finished k walOk fates w s res r ps hw hs hres hfinish =>
    refine hset hw rfl fun hk =>
      ⟨hk.leader, fun hs' => absurd (hs.symm.trans hs') (by simp), fun s' hs' => ?_⟩
    obtain rfl := Option.some.inj (hs.symm.trans hs')
    rcases ReplicaState.finishWrite_effect s.version_pos hfinish with
      ⟨err, rfl, -⟩ | ⟨ok, -, -, happlies⟩
    · rcases hk.sent s hs with hmem | ⟨hlast, hversion, -⟩
      · exact .inl hmem
      · exact .inr ⟨hlast, hversion, rfl⟩
    · -- The leader of the write is the writer, which has applied the entry.
      rw [← hk.leader, nodes_setWrite, nodes_track_self, (NodeApplies.track happlies).history]
      exact .inl (List.mem_append_right _ List.mem_cons_self)
  | forced hw => exact hset hw rfl fun hk => hk.of_eq rfl rfl rfl

/-- What holds in a run of one writer without failures. -/
structure Sole (ℓ : String) (c : Cluster) : Prop where
  serial : c.Serial ℓ
  sourced : c.Sourced
  converging : c.Converging ℓ

theorem Sole.clashFree (h : c.Sole ℓ) (a : Action) : c.ClashFree ℓ a :=
  h.serial.clashFree h.sourced h.converging.leader a

/-- The step lemma. -/
theorem sole_step (c : Cluster) (a : Action) (c' : Cluster) (h : c.Sole ℓ)
    (hC : OneLeader ℓ a ∧ c.NoneFailed a) (hstep : c.step a = some c') : c'.Sole ℓ := by
  refine ⟨?_, sourced_step c a c' h.sourced hstep,
    converging_step c a c' h.converging ⟨hC.1.2, h.clashFree a⟩ hstep⟩
  cases ha : a.recovers with
  | false => exact serial_write h.serial h.sourced h.converging.leader hC ha hstep
  | true =>
    -- Recoveries change neither the writes nor the writer.
    have hwriter := h.converging.leader_eq hC.1.2 ha hstep
    rw [Serial, (recovers_frame ha hstep).2, hwriter]
    exact h.serial

theorem Fresh.sole (h : c.Fresh) (hwrites : c.writes = []) (hℓ : ℓ ∈ c.ids) : c.Sole ℓ where
  serial k w hw := absurd hw (by simp [hwrites])
  sourced := h.sourced hwrites
  converging := h.converging hℓ

/-- An entry that the writer has not applied is the next one, of a write that has not
    succeeded. -/
theorem Serial.sent_ahead (h : c.Serial ℓ) {e : Entry} (he : Sent c.writes e)
    (hnot : e ∉ (c.nodes ℓ).history) :
    e.version = (c.nodes ℓ).replica.version + 1 ∧
      ∃ w ∈ c.writes, SentFor w e ∧ w.acknowledged = none := by
  obtain ⟨w, hw, hsent⟩ := he
  obtain ⟨k, hk⟩ := List.mem_iff_getElem?.1 hw
  obtain ⟨s, hs, rfl⟩ := Option.map_eq_some_iff.1 hsent.sent
  rcases (h k w hk).sent s hs with hmem | ⟨-, hversion, hacked⟩
  · exact absurd hmem hnot
  · exact ⟨hversion, w, hw, hsent, hacked⟩

/-- A follower that is past the writer has the entry of a write that has not succeeded,
    and no other one. -/
theorem Sole.ahead (h : c.Sole ℓ) {p : String} (hp : p ∈ c.ids)
    (hlt : (c.nodes ℓ).replica.version < (c.nodes p).replica.version) :
    ∃ w ∈ c.writes, ∃ e, SentFor w e ∧ w.acknowledged = none ∧
      (c.nodes p).history = (c.nodes ℓ).history ++ [e] := by
  have hpRec := h.sourced.recorded p hp
  have hℓRec := h.sourced.recorded ℓ h.converging.leader
  rw [hpRec.version, hℓRec.version] at hlt
  have htake := (h.converging.agree p hp).symm.eq_take hℓRec.consecutive hpRec.consecutive hlt.le
  obtain ⟨rest, hrest⟩ := List.prefix_iff_eq_take.2 htake
  have hrest := hrest.symm
  have hcons := hpRec.consecutive
  rw [hrest, consecutive_append, Nat.zero_add] at hcons
  -- What the follower has in addition was sent, and is not in the history of the writer.
  have hahead : ∀ e ∈ rest, e.version = (c.nodes ℓ).history.length + 1 ∧
      ∃ w ∈ c.writes, SentFor w e ∧ w.acknowledged = none := by
    intro e he
    have hsent := h.sourced.history p hp e (hrest ▸ List.mem_append_right _ he)
    rw [← hℓRec.version]
    refine h.serial.sent_ahead hsent fun hmem => ?_
    have := (hcons.2.lt_version e he).1
    have := (hℓRec.consecutive.lt_version e hmem).2
    omega
  cases rest with
  | nil => exact absurd (congrArg List.length hrest) (by simp; omega)
  | cons e rest =>
    obtain ⟨hversion, w, hw, hsent, hacked⟩ := hahead e List.mem_cons_self
    have hnil : rest = [] := by
      refine List.eq_nil_iff_forall_not_mem.2 fun x hx => ?_
      have := (hahead x (List.mem_cons_of_mem _ hx)).1
      have := (hcons.2.2.lt_version x hx).1
      omega
    exact ⟨w, hw, e, hsent, hacked, hnil ▸ hrest⟩

/-- In every run in which `ℓ` makes all writes and begins none after one that has failed, and
    in which the others recover from `ℓ`, each replica has the contents that `ℓ` had at
    the same version, or those of `ℓ` now with the entry of a write that has not
    succeeded. -/
theorem follower_follows (ℓ : String) {c₀ : Cluster} (hfresh : c₀.Fresh)
    (hwrites : c₀.writes = []) (hℓ : ℓ ∈ c₀.ids) (as : List Action)
    (hC : Along step (fun c a => OneLeader ℓ a ∧ c.NoneFailed a) c₀ as)
    (hc : exec step c₀ as = some c) {p : String} (hp : p ∈ c.ids) :
    (∃ bs cs d, as = bs ++ cs ∧ exec step c₀ bs = some d ∧
      (d.nodes ℓ).replica.version = (c.nodes p).replica.version ∧
      (d.nodes ℓ).replica.kv = (c.nodes p).replica.kv) ∨
    ∃ w ∈ c.writes, ∃ e, SentFor w e ∧ w.acknowledged = none ∧
      (c.nodes p).replica.version = (c.nodes ℓ).replica.version + 1 ∧
      (c.nodes p).replica.kv = applyOp (c.nodes ℓ).replica.kv e := by
  have h₀ := hfresh.sole hwrites hℓ
  have h : c.Sole ℓ := invariant sole_step h₀ hC hc
  by_cases hle : (c.nodes p).replica.version ≤ (c.nodes ℓ).replica.version
  · -- The writer has been at the version of the follower, and the run stops over there.
    have hC' : Along step (fun c a => RecoversFrom ℓ a ∧ c.ClashFree ℓ a) c₀ as :=
      Along.mono sole_step (fun c a h hC => ⟨hC.1.2, h.clashFree a⟩) h₀ hC
    obtain ⟨bs, cs, d, rfl, hd, hversion⟩ :=
      exists_stopover (f := fun d : Cluster => (d.nodes ℓ).replica.version)
        (fun d a d' hd hC hstep =>
          have hd' := converging_step d a d' hd hC hstep
          ⟨hd', hd.leader_version_le hd' hC.1 hstep⟩)
        h₀.converging hC' hc (hfresh.version ℓ hℓ ▸ Nat.zero_le _) hle
    obtain ⟨hCbs, hCcs⟩ := hC'.of_append hd
    obtain ⟨t, ht, hc⟩ := exec_append hc
    obtain rfl := Option.some.inj (hd.symm.trans ht)
    obtain ⟨hdConv, -⟩ := leader_history_exec h₀.converging hCbs hd
    obtain ⟨hcConv, hbegins⟩ := leader_history_exec hdConv hCcs hc
    exact .inl ⟨bs, cs, d, rfl, hd, hversion, (hcConv.kv_eq hdConv hbegins hp hversion).symm⟩
  · obtain ⟨w, hw, e, hsent, hacked, hhistory⟩ := h.ahead hp (not_le.1 hle)
    have hpRec := h.sourced.recorded p hp
    have hℓRec := h.sourced.recorded ℓ h.converging.leader
    refine .inr ⟨w, hw, e, hsent, hacked, ?_, ?_⟩
    · rw [hpRec.version, hℓRec.version, hhistory]
      simp
    · rw [hpRec.kv, hℓRec.kv, hhistory]
      simp

/-- The follower that has recovered, at the end of the run. -/
theorem follower_follows_laggingRun :
    ∃ c, exec step exampleCluster laggingRun = some c ∧
      ((∃ bs cs d, laggingRun = bs ++ cs ∧ exec step exampleCluster bs = some d ∧
        (d.nodes "a").replica.version = (c.nodes "c").replica.version ∧
        (d.nodes "a").replica.kv = (c.nodes "c").replica.kv) ∨
      ∃ w ∈ c.writes, ∃ e, SentFor w e ∧ w.acknowledged = none ∧
        (c.nodes "c").replica.version = (c.nodes "a").replica.version + 1 ∧
        (c.nodes "c").replica.kv = applyOp (c.nodes "a").replica.kv e) := by
  obtain ⟨c, hc, hp⟩ : ∃ c, exec step exampleCluster laggingRun = some c ∧ "c" ∈ c.ids :=
    ⟨_, rfl, by decide⟩
  exact ⟨c, hc, follower_follows "a" fresh_exampleCluster rfl (by decide) laggingRun
    (by decide) hc hp⟩

end Cluster

end Doki
