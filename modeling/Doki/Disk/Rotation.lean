import Doki.Disk.State

/-!
# Rotation of the snapshots

What an attempt to replace the base snapshot (`replaceSnapshot`) leaves on disk,
however far it gets.

The rotation moves the snapshot files one index up, from the last one to the
base one. In the middle of it, the files of index below some `n` are in place,
those from `n` on have moved, and there is none at `n` (`Shifted`). After it,
the new snapshot is put at index `0` (`Saved`), and the log is emptied.

* `replaceSnapshot_triple`: an attempt that succeeds leaves the new snapshot
  over the shifted old ones, and an empty log; one that fails or crashes leaves
  the log and either a partly shifted layout, or the new snapshot.
-/

namespace Doki

open Faulty

/-- The files `g` are the files `f` in the middle of a rotation: those of index
    below `n` are in place, the others have moved. The last one has left the
    `retention` files that are looked at. -/
structure Shifted (retention : ℕ) (f : Files) (n : ℕ) (g : Files) : Prop where
  wal : g.wal = f.wal
  below : ∀ i < n, g.snaps i = f.snaps i
  missing : n < retention → g.snaps n = .missing
  above : ∀ i, n ≤ i → i + 1 < retention → g.snaps (i + 1) = f.snaps i

/-- The files `g` have the snapshot `s` over the shifted snapshots of `f`. -/
structure Saved (retention : ℕ) (f : Files) (s : Snapshot) (g : Files) : Prop where
  base : g.snaps 0 = .snap s
  above : ∀ i, i + 1 < retention → g.snaps (i + 1) = f.snaps i

/-- What an attempt that does not succeed may leave. With a retention of `1` the
    base snapshot does not move. -/
def Attempted (retention : ℕ) (f : Files) (s : Snapshot) (g : Files) : Prop :=
  (∃ n ≤ retention, (n = 0 → 1 < retention) ∧ Shifted retention f n g) ∨
    (g.wal = f.wal ∧ Saved retention f s g)

variable {retention n : ℕ} {f g : Files} {s : Snapshot}

/-- Before the rotation, all files are in place. -/
theorem Shifted.refl (retention : ℕ) (f : Files) : Shifted retention f retention f where
  wal := rfl
  below _ _ := rfl
  missing h := absurd h (lt_irrefl _)
  above _ hn hi := by omega

/-- The temporary file plays no part in the rotation. -/
theorem Shifted.tmp (h : Shifted retention f n g) (c : SnapFile) :
    Shifted retention f n { g with tmp := c } := ⟨h.wal, h.below, h.missing, h.above⟩

/-- Moving the snapshot file `n`, when the next one has moved. -/
theorem Shifted.move (h : Shifted retention f (n + 1) g) :
    Shifted retention f n (g.moveSnap n (n + 1)) where
  wal := h.wal
  below i hi := by
    rw [Files.moveSnap_snaps, if_neg (by omega), if_neg (by omega), h.below i (by omega)]
  missing _ := by rw [Files.moveSnap_snaps, if_pos rfl]
  above i hn hi := by
    rw [Files.moveSnap_snaps, if_neg (by omega)]
    rcases hn.eq_or_lt with rfl | hn
    · -- The file that moves was in place.
      rw [if_pos rfl, h.below _ (Nat.lt_succ_self _)]
    · rw [if_neg (by omega), h.above i hn hi]

/-- There is nothing to move if the snapshot file `n` does not exist. -/
theorem Shifted.skip (h : Shifted retention f (n + 1) g) (hn : (g.snaps n).exists = false) :
    Shifted retention f n g := by
  have hmissing : g.snaps n = .missing := by
    generalize g.snaps n = c at hn
    cases c with
    | missing => rfl
    | corrupt => exact absurd hn (by simp [SnapFile.exists])
    | snap s => exact absurd hn (by simp [SnapFile.exists])
  refine ⟨h.wal, fun i hi => h.below i (by omega), fun _ => hmissing, fun i hi hr => ?_⟩
  rcases hi.eq_or_lt with rfl | hi
  · rw [h.missing hr, ← h.below n (Nat.lt_succ_self n), hmissing]
  · exact h.above i hi hr

/-- The file that has left the sight of `load` can be removed. -/
theorem Shifted.remove (h : Shifted retention f retention g) (i : ℕ) (hi : retention ≤ i) :
    Shifted retention f retention (g.setSnap i .missing) where
  wal := h.wal
  below j hj := by rw [Files.setSnap_snaps, if_neg (by omega), h.below j hj]
  missing h := absurd h (lt_irrefl _)
  above _ hn hi := by omega

theorem Shifted.attempted (h : Shifted retention f (n + 1) g) (hn : n + 1 ≤ retention) :
    Attempted retention f s g := .inl ⟨n + 1, hn, (absurd · (Nat.succ_ne_zero n)), h⟩

theorem Attempted.tmp (h : Attempted retention f s g) (c : SnapFile) :
    Attempted retention f s { g with tmp := c } :=
  h.imp (fun ⟨n, hn, h0, h⟩ => ⟨n, hn, h0, h.tmp c⟩) fun h => ⟨h.1, h.2.base, h.2.above⟩

/-- What a rotation that gets to its end leaves: all files have moved up. With a
    retention of `1` there is no rotation. -/
def Rotated (retention : ℕ) (f g : Files) : Prop :=
  (retention = 1 ∧ Shifted retention f 1 g) ∨ (1 < retention ∧ Shifted retention f 0 g)

theorem Rotated.tmp (h : Rotated retention f g) (c : SnapFile) :
    Rotated retention f { g with tmp := c } :=
  h.imp (fun h => ⟨h.1, h.2.tmp c⟩) fun h => ⟨h.1, h.2.tmp c⟩

theorem Rotated.attempted (h : Rotated retention f g) : Attempted retention f s g := by
  rcases h with ⟨rfl, h⟩ | ⟨hr, h⟩
  · exact h.attempted le_rfl
  · exact .inl ⟨0, Nat.zero_le _, fun _ => hr, h⟩

/-- The base path is free for the new snapshot. -/
theorem Rotated.saved (h : Rotated retention f g) :
    (g.setSnap 0 (.snap s)).wal = f.wal ∧ Saved retention f s (g.setSnap 0 (.snap s)) := by
  have hbase : (g.setSnap 0 (.snap s)).snaps 0 = .snap s := by
    rw [Files.setSnap_snaps, if_pos rfl]
  rcases h with ⟨rfl, h⟩ | ⟨-, h⟩
  · exact ⟨h.wal, hbase, fun i hi => by omega⟩
  · refine ⟨h.wal, hbase, fun i hi => ?_⟩
    rw [Files.setSnap_snaps, if_neg (by omega), h.above i (Nat.zero_le i) hi]

/-! ## The programs -/

/-- One move of the rotation. -/
theorem moveUp_triple (hn : n + 1 ≤ retention) :
    Triple (Shifted retention f (n + 1)) (moveUp n) (fun _ => Shifted retention f n)
      (Attempted retention f s) := by
  have hstat : Triple (Shifted retention f (n + 1)) (statSnap n)
      (fun b g => (g.snaps n).exists = b ∧ Shifted retention f (n + 1) g)
      (Attempted retention f s) :=
    Triple.bind Triple.read fun v => Triple.pure fun w hw => ⟨by rw [hw.1], hw.2⟩
  refine Triple.bind hstat fun b => Triple.ite (fun hb => ?_) fun hb => ?_
  · exact Triple.op (fun g hg => hg.2.move) fun g hg => hg.2.attempted hn
  · exact Triple.pure fun g hg => hg.2.skip (by simpa [hb] using hg.1)

theorem makeRoom_triple (hn : n + 1 ≤ retention) :
    Triple (Shifted retention f (n + 1)) (makeRoom retention n)
      (fun _ => Shifted retention f (n + 1)) (Attempted retention f s) := by
  refine Triple.ite (fun hlast => ?_) fun _ => Triple.pure fun _ h => h
  obtain rfl : retention = n + 1 := by omega
  exact Triple.ignore (Triple.op (fun g hg => hg.remove _ le_rfl) fun _ h => h)
    fun g hg => hg.attempted le_rfl

/-- The loop of the rotation, from the index `i` down. -/
theorem rotateLoop_triple (i : ℕ) (hi : i + 1 ≤ retention) :
    Triple (Shifted retention f (i + 1)) (rotateLoop retention i)
      (fun _ => Shifted retention f 1) (Attempted retention f s) := by
  -- One round moves the file at the index, and leaves a gap for the next one.
  induction i with
  | zero => exact Triple.pure fun _ h => h
  | succ i ih =>
    exact Triple.bind (makeRoom_triple hi) fun _ =>
      Triple.bind (moveUp_triple hi) fun _ => ih (by omega)

theorem rotateSnapshots_triple (hr : 0 < retention) :
    Triple (· = f) (rotateSnapshots retention) (fun _ => Rotated retention f)
      (Attempted retention f s) := by
  refine Triple.ite (fun h => ?_) fun h => ?_
  · obtain rfl : retention = 1 := by omega
    exact Triple.pure fun g hg => .inl ⟨rfl, hg ▸ Shifted.refl 1 f⟩
  · have hloop := Triple.bind (rotateLoop_triple (f := f) (s := s) (retention - 1) (by omega))
      fun _ => moveUp_triple (s := s) hr
    refine hloop.weaken (fun g hg => ?_) fun _ g hg => .inr ⟨by omega, hg⟩
    rw [hg, Nat.sub_add_cancel hr]
    exact Shifted.refl retention f

/-- The new snapshot is saved over the shifted ones; until it is renamed, the
    layout is still that of the rotation. -/
theorem save_triple :
    Triple (Rotated retention f) (save s)
      (fun _ g => g.wal = f.wal ∧ Saved retention f s g) (Attempted retention f s) := by
  -- Until the rename, only the temporary file changes.
  have hwrite : Triple (Rotated retention f)
      (Prog.op DiskError.writeTmp (fun g => { g with tmp := .snap s })
        fun g => { g with tmp := .corrupt })
      (fun _ g => g.tmp = .snap s ∧ Rotated retention f g) (Attempted retention f s) :=
    Triple.op (fun g hg => ⟨rfl, hg.tmp _⟩) fun g hg => hg.attempted.tmp _
  refine Triple.bind hwrite fun _ => Triple.cleanup (Triple.op ?_ ?_) (Triple.op ?_ fun _ h => h)
  · rintro g ⟨hs, hg⟩
    obtain ⟨hwal, hsaved⟩ := hg.saved (s := s)
    rw [hs]
    exact ⟨hwal, hsaved.base, hsaved.above⟩
  · exact fun g hg => hg.2.attempted
  · exact fun g hg => hg.tmp _

/-- What an attempt to replace the base snapshot leaves, whatever fails. -/
theorem replaceSnapshot_triple (what : String) (hr : 0 < retention) :
    Triple (· = f) (replaceSnapshot retention what s)
      (fun _ g => g.wal = [] ∧ Saved retention f s g) (Attempted retention f s) := by
  refine Triple.bind (rotateSnapshots_triple hr) fun _ =>
    Triple.bind save_triple.mapError fun _ => Triple.op ?_ ?_
  · exact fun g hg => ⟨rfl, hg.2.base, hg.2.above⟩
  · exact fun g hg => .inr hg

namespace DiskState

variable {ds ds' : DiskState} {what : String} {fates : List Fate}

/-- The interval and the retention are those the disk state was opened with. -/
theorem replaceWith_config :
    (ds.replaceWith what s fates).2.snapshotInterval = ds.snapshotInterval ∧
      (ds.replaceWith what s fates).2.snapshotRetention = ds.snapshotRetention := by
  rw [replaceWith]
  split <;> exact ⟨rfl, rfl⟩

/-- An attempt that succeeds puts `s` over the shifted snapshots. -/
theorem replaceWith_done (h : ds.replaceWith what s fates = (.done (), ds')) :
    ds'.snapshotRetention = ds.snapshotRetention ∧ ds'.files.wal = [] ∧
      Saved ds.snapshotRetention ds.files s ds'.files := by
  have hends := replaceSnapshot_triple (s := s) what ds.retention_pos ds.files fates rfl
  rw [replaceWith] at h
  generalize replaceSnapshot ds.snapshotRetention what s ds.files fates = x at h hends
  rcases x with ⟨_ | _ | _, g, gs⟩
  · obtain rfl := (Prod.mk.inj h).2
    exact ⟨rfl, hends.2⟩
  · exact absurd (Prod.mk.inj h).1 (by simp)
  · exact absurd (Prod.mk.inj h).1 (by simp)

/-- An attempt none of whose operations fails succeeds. -/
theorem replaceWith_nil (ds : DiskState) (what : String) (s : Snapshot) :
    (ds.replaceWith what s []).1 = .done () := by
  have hends := replaceSnapshot_triple (s := s) what ds.retention_pos ds.files [] rfl
  rw [replaceWith]
  generalize replaceSnapshot ds.snapshotRetention what s ds.files [] = x at hends
  rcases x with ⟨_ | _ | _, g, gs⟩
  · rfl
  · exact absurd hends.2.2 (by simp)
  · exact absurd hends.2.2 (by simp)

/-- Any attempt succeeds in this way, or one of its operations fails and it leaves one
    of the layouts of a failed one. -/
theorem replaceWith_files (h : (ds.replaceWith what s fates).2 = ds') :
    (ds'.files.wal = [] ∧ Saved ds.snapshotRetention ds.files s ds'.files) ∨
      (Attempted ds.snapshotRetention ds.files s ds'.files ∧ ∃ x ∈ fates, x ≠ .ok) := by
  have hends := replaceSnapshot_triple (s := s) what ds.retention_pos ds.files fates rfl
  rw [replaceWith] at h
  generalize replaceSnapshot ds.snapshotRetention what s ds.files fates = x at h hends
  rcases x with ⟨_ | _ | _, g, gs⟩ <;> obtain rfl := h
  · exact .inl hends.2
  · exact .inr hends.2
  · exact .inr hends.2

end DiskState

end Doki
