import Doki.Disk.Remains

/-!
# Files that mirror the memory

A process that has written all it has applied to its write-ahead log can start again from
its files: they lead to the state it is in (`DiskState.Mirrored`). The snapshots in sight
are not past this state, the log ends with it, and its entries after the snapshot that is
picked lead from the one to the other. They are all short enough to be read again.

* `Mirrored.load`: then this state is loaded;
* `Mirrored.appendWAL`, `Mirrored.maybeSnapshot`, `mirrored_resetSnapshot`: what keeps the
  files in step: the next entry, if it fits, a snapshot of the current state, whether it succeeds or
  not, and one of a recovered state that no snapshot in sight is past.

An attempt that fails must not push the snapshot that is picked out of sight
(`DiskState.Exposed`).
-/

namespace Doki

open Faulty

theorem mem_inSight {snaps : ℕ → SnapFile} {n : ℕ} {s : Snapshot} :
    s ∈ inSight snaps n ↔ ∃ i < n, snaps i = .snap s := by
  have hfile : ∀ c : SnapFile, c.toOption = some s ↔ c = .snap s := by
    intro c
    cases c <;> simp [SnapFile.toOption]
  simp [inSight, hfile]

/-- A file that is not picked may as well be out of sight. -/
theorem loadLatestSnapshot_succ {snaps : ℕ → SnapFile} {n : ℕ}
    (h : ∀ s, loadLatestSnapshot snaps (n + 1) ≠ some (s, n)) :
    loadLatestSnapshot snaps (n + 1) = loadLatestSnapshot snaps n := by
  have hlast : loadLatestSnapshot snaps (n + 1) =
      betterSnapshot snaps (loadLatestSnapshot snaps n) n := by
    rw [loadLatestSnapshot, List.range_succ, List.foldl_append]
    rfl
  rw [hlast] at h ⊢
  rw [betterSnapshot] at h ⊢
  split
  · rename_i s hs
    rw [hs] at h
    split
    · rename_i hnone
      rw [hnone] at h
      exact absurd rfl (h s)
    · rename_i b i hb
      rw [hb] at h
      simp only at h
      split_ifs at h ⊢ with hlt
      · exact absurd rfl (h s)
      · rfl
  · rfl

namespace DiskState

variable {ds ds' : DiskState} {version : ℕ} {kv : KV} {s : Snapshot} {fates : List Fate}

/-- The files lead to the state `kv` at `version`. -/
structure Mirrored (ds : DiskState) (version : ℕ) (kv : KV) : Prop where
  bounded : ∀ s ∈ inSight ds.files.snaps ds.snapshotRetention, s.version ≤ version
  fits : ∀ e ∈ ds.files.wal, e.fits = true
  /-- The log starts at or before the snapshot that is picked, and ends at `version`. -/
  log : ∃ start, Consecutive start ds.files.wal ∧ start + ds.files.wal.length = version ∧
    start ≤ ds.base.version ∧
    replay ds.base.kv (ds.files.wal.drop (ds.base.version - start)) = kv

/-- The latest snapshot is in the last file in sight: the next rotation moves it out of
    sight. -/
def Exposed (ds : DiskState) : Prop :=
  1 < ds.snapshotRetention ∧
    (loadLatestSnapshot ds.files.snaps ds.snapshotRetention).map Prod.snd =
      some (ds.snapshotRetention - 1)

instance (ds : DiskState) : Decidable ds.Exposed := inferInstanceAs (Decidable (_ ∧ _))

/-- The state that the replay starts from, in terms of the snapshots in sight. -/
theorem base_eq (ds : DiskState) :
    ds.base = ds.best.getD { term := 0, version := 0, kv := ∅ } := by
  rw [base, map_loadLatestSnapshot]
  rfl

/-- The snapshots in sight decide where the replay starts. -/
theorem base_congr (h : ds'.best = ds.best) : ds'.base = ds.base := by
  rw [base_eq, base_eq, h]

theorem Mirrored.base_le (h : ds.Mirrored version kv) : ds.base.version ≤ version := by
  rw [base]
  cases hbest : loadLatestSnapshot ds.files.snaps ds.snapshotRetention with
  | none => exact Nat.zero_le _
  | some best =>
    obtain ⟨hi, hs, -⟩ := loadLatestSnapshot_some hbest
    exact h.bounded _ (mem_inSight.2 ⟨_, hi, hs⟩)

/-- The snapshots that a rotation keeps in sight are bounded, too. -/
theorem Mirrored.stays (h : ds.Mirrored version kv) :
    ∀ t ∈ inSight ds.files.snaps (ds.snapshotRetention - 1), t.version ≤ version := by
  intro t ht
  obtain ⟨i, hi, ht⟩ := mem_inSight.1 ht
  exact h.bounded t (mem_inSight.2 ⟨i, by omega, ht⟩)

/-- An empty directory. -/
theorem mirrored_of_empty (hfiles : ds.files = Files.empty) : ds.Mirrored 0 ∅ where
  bounded s hs := by
    rw [hfiles] at hs
    obtain ⟨i, -, hi⟩ := mem_inSight.1 hs
    cases hi
  fits := by
    rw [hfiles]
    exact fun e he => nomatch he
  log := by
    rw [hfiles]
    refine ⟨0, trivial, rfl, Nat.zero_le _, ?_⟩
    rw [show Files.empty.wal = [] from rfl, List.drop_nil, replay_nil, base_eq, best, hfiles]
    have hnone : inSight Files.empty.snaps ds.snapshotRetention = [] := by
      simp [inSight, Files.empty, SnapFile.toOption]
    rw [hnone]
    rfl

/-- What is loaded: nothing has been written yet, or it is the state that the files
    mirror. -/
theorem Mirrored.load (h : ds.Mirrored version kv) :
    (version = 0 ∧ kv = ∅ ∧ ∃ loaded, ds.load = .ok loaded ∧ loaded.valid = false) ∨
      ∃ t, ds.load = .ok { term := t, version := version, kv := kv, valid := true } := by
  have hle := h.base_le
  obtain ⟨start, hcons, hend, hstart, hkv⟩ := h.log
  rw [← Files.readLog_of_fits h.fits] at hcons hend hkv
  by_cases hnone : ds.best = none ∧ ds.files.readLog = []
  · obtain ⟨hbest, hwal⟩ := hnone
    have hbase : ds.base = { term := 0, version := 0, kv := ∅ } := by rw [base_eq, hbest]; rfl
    rw [hbase] at hstart hkv
    rw [hwal, List.length_nil] at hend
    rw [hwal, List.drop_nil] at hkv
    refine .inl ⟨?_, hkv.symm, { term := 0, version := 0, kv := ∅, valid := false }, ?_, rfl⟩
    · simp only at hstart
      omega
    · rw [load_eq_loadFrom, hbest, hwal]
      rfl
  · -- The log has entries, or there is a snapshot that it starts before.
    obtain ⟨t, ht⟩ := load_eq hcons fun hwal => by
      cases hbest : loadLatestSnapshot ds.files.snaps ds.snapshotRetention with
      | none => exact absurd ⟨by rw [best, ← map_loadLatestSnapshot, hbest]; rfl, hwal⟩ hnone
      | some best =>
        refine ⟨best.1, best.2, rfl, ?_⟩
        rw [base, hbest] at hstart
        exact hstart
    refine .inr ⟨t, ht.trans ?_⟩
    rw [hend, max_eq_right hle, hkv]

/-- The next entry is written to the log, if it fits. -/
theorem Mirrored.appendWAL {e : Entry} (h : ds.Mirrored version kv) (hfits : e.fits = true)
    (he : e.version = version + 1) : (ds.appendWAL e).Mirrored e.version (applyOp kv e) where
  bounded s hs := by
    have := h.bounded s hs
    omega
  fits := List.forall_mem_append.2 ⟨h.fits, List.forall_mem_singleton.2 hfits⟩
  log := by
    have hle := h.base_le
    obtain ⟨start, hcons, hend, hstart, hkv⟩ := h.log
    have hbase : (ds.appendWAL e).base = ds.base := rfl
    refine ⟨start, ?_, ?_, hstart, ?_⟩
    · rw [wal_appendWAL, consecutive_append]
      exact ⟨hcons, by omega, trivial⟩
    · rw [wal_appendWAL, List.length_append, List.length_singleton]
      omega
    · rw [hbase, wal_appendWAL, List.drop_append_of_le_length (by omega), replay_append, hkv]
      rfl

/-- A new snapshot that is past those that stay in sight is the one that is picked. -/
theorem mirrored_saved (hretention : ds'.snapshotRetention = ds.snapshotRetention)
    (hsaved : Saved ds.snapshotRetention ds.files s ds'.files)
    (hstay : ∀ t ∈ inSight ds.files.snaps (ds.snapshotRetention - 1), t.version ≤ s.version)
    (hfits : ∀ e ∈ ds'.files.wal, e.fits = true)
    (hlog : ∃ start, Consecutive start ds'.files.wal ∧
      start + ds'.files.wal.length = s.version) : ds'.Mirrored s.version s.kv where
  bounded t ht := by
    rw [hretention, hsaved.inSight_eq ds.retention_pos] at ht
    rcases List.mem_cons.1 ht with rfl | ht
    · exact le_rfl
    · exact hstay t ht
  fits := hfits
  log := by
    have hpicked : loadLatestSnapshot ds'.files.snaps ds.snapshotRetention = some (s, 0) :=
      loadLatestSnapshot_saved ds.retention_pos hsaved fun i hi t ht =>
        hstay t (mem_inSight.2 ⟨i, by omega, ht⟩)
    have hbase : ds'.base = s := by
      rw [base, hretention, hpicked]
      rfl
    obtain ⟨start, hcons, hend⟩ := hlog
    refine ⟨start, hcons, hend, hbase ▸ by omega, ?_⟩
    rw [hbase, List.drop_eq_nil_of_le (by omega)]
    rfl

/-- With such a snapshot, the log may as well be empty. -/
theorem mirrored_of_nil (hretention : ds'.snapshotRetention = ds.snapshotRetention)
    (hsaved : Saved ds.snapshotRetention ds.files s ds'.files)
    (hstay : ∀ t ∈ inSight ds.files.snaps (ds.snapshotRetention - 1), t.version ≤ s.version)
    (hwal : ds'.files.wal = []) : ds'.Mirrored s.version s.kv := by
  refine mirrored_saved hretention hsaved hstay ?_ ?_ <;> rw [hwal]
  · exact fun e he => nomatch he
  · exact ⟨s.version, trivial, rfl⟩

/-- A failed attempt to save the current state leaves files that lead to it, too, unless
    they were exposed. -/
theorem Mirrored.attempted (h : ds.Mirrored s.version s.kv)
    (hretention : ds'.snapshotRetention = ds.snapshotRetention)
    (hattempted : Attempted ds.snapshotRetention ds.files s ds'.files) (hexposed : ¬ds.Exposed) :
    ds'.Mirrored s.version s.kv := by
  obtain ⟨hwal, hsight⟩ := hattempted.inSight_eq ds.retention_pos
  -- The same snapshot is picked, from the same log.
  have hsame : ds'.best = ds.best →
      (∀ t ∈ inSight ds'.files.snaps ds'.snapshotRetention, t.version ≤ s.version) →
      ds'.Mirrored s.version s.kv := by
    intro hbest hbounded
    refine ⟨hbounded, hwal ▸ h.fits, ?_⟩
    rw [base_congr hbest, hwal]
    exact h.log
  rcases hattempted with ⟨n, hn, h0, hshifted⟩ | ⟨-, hsaved⟩
  · rcases hn.eq_or_lt with rfl | hlt
    · have heq : inSight ds'.files.snaps ds'.snapshotRetention =
          inSight ds.files.snaps ds.snapshotRetention := by
        rw [hretention]
        exact inSight_congr hshifted.below
      exact hsame (by rw [best, heq]; rfl) (heq ▸ h.bounded)
    · have heq : inSight ds'.files.snaps ds'.snapshotRetention =
          inSight ds.files.snaps (ds.snapshotRetention - 1) := by
        rw [hretention]
        exact hshifted.inSight_eq hlt
      refine hsame ?_ (heq ▸ h.stays)
      obtain ⟨k, hk⟩ : ∃ k, ds.snapshotRetention = k + 1 :=
        ⟨ds.snapshotRetention - 1, by omega⟩
      have hpicked : loadLatestSnapshot ds.files.snaps (k + 1) =
          loadLatestSnapshot ds.files.snaps k := by
        refine loadLatestSnapshot_succ fun t ht => hexposed ⟨by omega, ?_⟩
        rw [hk, ht]
        rfl
      rw [best, heq, best, ← map_loadLatestSnapshot, ← map_loadLatestSnapshot, hk, hpicked,
        Nat.add_sub_cancel]
  · obtain ⟨start, hcons, hend, -⟩ := h.log
    exact mirrored_saved hretention hsaved h.stays (hwal ▸ h.fits)
      ⟨start, hwal ▸ hcons, hwal ▸ hend⟩

/-- A snapshot of the current state, if one is due. -/
theorem Mirrored.maybeSnapshot (h : ds.Mirrored s.version s.kv)
    (hcareful : ds.Exposed → ∀ x ∈ fates, x = .ok) :
    (ds.maybeSnapshot s fates).2.Mirrored s.version s.kv := by
  have hretention : (ds.replaceWith "snapshot" s fates).2.snapshotRetention =
      ds.snapshotRetention := replaceWith_config.2
  rw [DiskState.maybeSnapshot]
  split_ifs
  · rcases replaceWith_files (rfl : (ds.replaceWith "snapshot" s fates).2 = _) with
      ⟨hwal, hsaved⟩ | ⟨hattempted, x, hx, hne⟩
    · exact mirrored_of_nil hretention hsaved h.stays hwal
    · exact h.attempted hretention hattempted fun hexposed => hne (hcareful hexposed x hx)
  · exact h

/-- A recovered state that is saved, and that no snapshot that stays in sight is past. -/
theorem mirrored_resetSnapshot (hdone : (ds.resetSnapshot s fates).1 = .done ())
    (hstay : ∀ t ∈ inSight ds.files.snaps (ds.snapshotRetention - 1), t.version ≤ s.version) :
    (ds.resetSnapshot s fates).2.Mirrored s.version s.kv := by
  obtain ⟨hretention, hwal, hsaved⟩ := replaceWith_done (Prod.ext hdone rfl)
  exact mirrored_of_nil hretention hsaved hstay hwal

/-- The files are opened again. -/
theorem Mirrored.reopen (h : ds.Mirrored version kv) : ds.reopen.Mirrored version kv :=
  ⟨h.bounded, h.fits, h.log⟩

end DiskState

end Doki
