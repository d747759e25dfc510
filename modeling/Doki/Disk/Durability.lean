import Doki.Disk.Rotation
import Doki.Lib.Runs

/-!
# Durability

The life of a disk state: entries with consecutive versions are appended,
snapshots of the current state are attempted, and the process is started again
any number of times, possibly after a crash in the middle of an attempt. What
has been appended should be what `load` finds (`DiskRun.Durable`).

What the files hold is described by `Sound`: every snapshot in sight is the state
at its version, and the log has lost only entries that some snapshot in sight
includes. All entries are short enough to be read again (`Entry.fits`). An attempt
that fails after the rotation has pushed the snapshots one index up and saved none.
As long as the latest snapshot is not the last in sight, it stays in sight
(`Sound.attempted`). When it is, a failed attempt may push it out of sight, together
with what the log no longer has (`DiskRun.Exposed`).

* `Sound.load`: from sound files, everything is loaded;
* `DiskRun.holds_step`: the files stay sound, as long as nothing fails in an attempt on an
  exposed state;
* `durable_of_careful`: the same for runs from an empty directory;
* `load_loses_entry`: a run that loses an entry otherwise.
-/

namespace Doki

open Faulty Runs

/-! ## Sound files -/

/-- The files `f` hold the entries `es`, the first one of version `start + 1`.
    The entries before `gone` are no longer in the log. -/
structure Sound (retention start : ℕ) (es : List Entry) (f : Files) (gone : ℕ) : Prop where
  version_le : ∀ i < retention, ∀ s, f.snaps i = .snap s →
    start ≤ s.version ∧ s.version ≤ start + es.length
  kv_eq : ∀ i < retention, ∀ s, f.snaps i = .snap s →
    s.kv = replay ∅ (es.take (s.version - start))
  gone_le : gone ≤ es.length
  wal_eq : f.wal = es.drop gone
  fits : ∀ e ∈ f.wal, e.fits = true
  /-- Some snapshot in sight includes the entries that have gone. -/
  covered : gone = 0 ∨ ∃ i < retention, ∃ s, f.snaps i = .snap s ∧ start + gone ≤ s.version

namespace Sound

variable {retention start gone : ℕ} {es : List Entry} {f g : Files} {s : Snapshot}

/-- The empty directory. -/
theorem empty (retention start : ℕ) : Sound retention start [] Files.empty 0 where
  version_le _ _ _ h := nomatch h
  kv_eq _ _ _ h := nomatch h
  gone_le := le_rfl
  wal_eq := rfl
  fits _ h := nomatch h
  covered := .inl rfl

/-- Appending an entry that fits. -/
theorem append (h : Sound retention start es f gone) {e : Entry} (he : e.fits = true) :
    Sound retention start (es ++ [e]) { f with wal := f.wal ++ [e] } gone where
  version_le i hi s hs := by
    have := h.version_le i hi s hs
    rw [List.length_append]
    omega
  kv_eq i hi s hs := by
    have := h.version_le i hi s hs
    rw [h.kv_eq i hi s hs, List.take_append_of_le_length (by omega)]
  gone_le := by
    have := h.gone_le
    rw [List.length_append]
    omega
  wal_eq := by
    rw [List.drop_append_of_le_length h.gone_le, ← h.wal_eq]
  fits := List.forall_mem_append.2 ⟨h.fits, List.forall_mem_singleton.2 he⟩
  covered := h.covered

/-- Loading from sound files gives the state after all entries. -/
theorem load {ds : DiskState} (h : Sound ds.snapshotRetention start es ds.files gone)
    (hes : Consecutive start es) (hne : es ≠ []) :
    ∃ t, ds.load = .ok
      { term := t, version := start + es.length, kv := replay ∅ es, valid := true } := by
  have hread : ds.files.readLog = es.drop gone := (Files.readLog_of_fits h.fits).trans h.wal_eq
  have hwal : Consecutive (start + gone) ds.files.readLog := by
    rw [hread]
    exact (hes.take_drop gone h.gone_le).2
  have hgone := h.gone_le
  have hlen : ds.files.readLog.length = es.length - gone := by rw [hread, List.length_drop]
  cases hbest : loadLatestSnapshot ds.files.snaps ds.snapshotRetention with
  | none =>
    -- Without a snapshot in sight, the log has all entries.
    have hzero : gone = 0 := by
      rcases h.covered with h0 | ⟨i, hi, s, hs, -⟩
      · exact h0
      · exact absurd hs (loadLatestSnapshot_none hbest i hi s)
    subst hzero
    have hlog : ds.files.readLog = es := by rw [hread, List.drop_zero]
    obtain ⟨t, ht⟩ := ds.load_eq hwal fun hnil => absurd (hlog ▸ hnil) hne
    have hbase : ds.base = { term := 0, version := 0, kv := ∅ } := by
      rw [DiskState.base, hbest]
      rfl
    refine ⟨t, ht.trans ?_⟩
    rw [hbase, hlog]
    simp
  | some best =>
    -- The latest snapshot includes all that has gone from the log.
    obtain ⟨s, i⟩ := best
    obtain ⟨hi, hs, hlatest⟩ := loadLatestSnapshot_some hbest
    obtain ⟨hstart, hend⟩ := h.version_le i hi s hs
    have hcovered : start + gone ≤ s.version := by
      rcases h.covered with h0 | ⟨j, hj, t, ht, hle⟩
      · omega
      · exact hle.trans (hlatest j hj t ht).1
    have hbase : ds.base = s := by
      rw [DiskState.base, hbest]
      rfl
    obtain ⟨t, ht⟩ := ds.load_eq hwal fun _ => ⟨s, i, hbest, hcovered⟩
    refine ⟨t, ht.trans ?_⟩
    rw [hbase, h.kv_eq i hi s hs, hread, List.drop_drop, ← replay_append,
      show gone + (s.version - (start + gone)) = s.version - start by omega,
      List.take_append_drop, List.length_drop, show max s.version _ = start + es.length by omega]

/-- Sound files whose snapshots have moved, or disappeared, are sound if some
    snapshot still includes what has gone. -/
theorem of_snaps (h : Sound retention start es f gone) (hwal : g.wal = f.wal)
    (hsnaps : ∀ i < retention, ∀ s, g.snaps i = .snap s →
      ∃ j < retention, f.snaps j = .snap s)
    (hcovered : gone = 0 ∨ ∃ i < retention, ∃ s, g.snaps i = .snap s ∧ start + gone ≤ s.version) :
    Sound retention start es g gone where
  version_le i hi s hs := by
    obtain ⟨j, hj, hs⟩ := hsnaps i hi s hs
    exact h.version_le j hj s hs
  kv_eq i hi s hs := by
    obtain ⟨j, hj, hs⟩ := hsnaps i hi s hs
    exact h.kv_eq j hj s hs
  gone_le := h.gone_le
  wal_eq := hwal.trans h.wal_eq
  fits := hwal ▸ h.fits
  covered := hcovered

/-- In the middle of a rotation, the latest snapshot is in sight, unless it was
    the last one in sight before. -/
theorem shifted {n : ℕ} (h : Sound retention start es f gone) (hg : Shifted retention f n g)
    (hn : n ≤ retention) (h0 : n = 0 → 1 < retention)
    (hlast : 1 < retention → ∀ t, loadLatestSnapshot f.snaps retention ≠ some (t, retention - 1)) :
    Sound retention start es g gone := by
  refine h.of_snaps hg.wal (fun i hi s hs => ?_) ?_
  · rcases lt_trichotomy i n with hin | rfl | hin
    · exact ⟨i, hi, hg.below i hin ▸ hs⟩
    · rw [hg.missing hi] at hs
      exact nomatch hs
    · obtain ⟨k, rfl⟩ : ∃ k, i = k + 1 := ⟨i - 1, by omega⟩
      exact ⟨k, by omega, hg.above k (by omega) hi ▸ hs⟩
  · refine h.covered.imp id fun ⟨j, hj, t, ht, hle⟩ => ?_
    cases hbest : loadLatestSnapshot f.snaps retention with
    | none => exact absurd ht (loadLatestSnapshot_none hbest j hj t)
    | some best =>
      obtain ⟨s, i⟩ := best
      obtain ⟨hi, hs, hlatest⟩ := loadLatestSnapshot_some hbest
      have hle := hle.trans (hlatest j hj t ht).1
      -- The latest snapshot is still in place, or has moved one index up.
      by_cases hin : i < n
      · exact ⟨i, hi, s, (hg.below i hin).trans hs, hle⟩
      · have hi' : i ≠ retention - 1 := by
          rintro rfl
          exact hlast (by omega) s hbest
        exact ⟨i + 1, by omega, s, (hg.above i (by omega) (by omega)).trans hs, hle⟩

/-- A saved snapshot of the current state includes whatever has gone. -/
theorem saved {gone' : ℕ} (h : Sound retention start es f gone) (hr : 0 < retention)
    (hg : Saved retention f s g) (hversion : s.version = start + es.length)
    (hkv : s.kv = replay ∅ es) (hgone : gone' ≤ es.length) (hwal : g.wal = es.drop gone')
    (hfits : ∀ e ∈ g.wal, e.fits = true) : Sound retention start es g gone' where
  version_le i hi t ht := by
    cases i with
    | zero =>
      obtain rfl : s = t := SnapFile.snap.inj (hg.base.symm.trans ht)
      exact ⟨by omega, by omega⟩
    | succ i => exact h.version_le i (by omega) t (hg.above i hi ▸ ht)
  kv_eq i hi t ht := by
    cases i with
    | zero =>
      obtain rfl : s = t := SnapFile.snap.inj (hg.base.symm.trans ht)
      rw [hkv, List.take_of_length_le (by omega)]
    | succ i => exact h.kv_eq i (by omega) t (hg.above i hi ▸ ht)
  gone_le := hgone
  wal_eq := hwal
  fits := hfits
  covered := .inr ⟨0, hr, s, hg.base, by omega⟩

/-- What a failed attempt leaves is sound, unless the latest snapshot was the
    last one in sight. -/
theorem attempted (h : Sound retention start es f gone) (hr : 0 < retention)
    (hg : Attempted retention f s g) (hversion : s.version = start + es.length)
    (hkv : s.kv = replay ∅ es)
    (hlast : 1 < retention → ∀ t, loadLatestSnapshot f.snaps retention ≠ some (t, retention - 1)) :
    Sound retention start es g gone := by
  rcases hg with ⟨n, hn, h0, hg⟩ | ⟨hwal, hg⟩
  · exact h.shifted hg hn h0 hlast
  · exact h.saved hr hg hversion hkv h.gone_le (hwal.trans h.wal_eq) (hwal ▸ h.fits)

end Sound

/-! ## Runs -/

/-- A disk state, and the entries appended to it since its directory was empty,
    the first one of version `start + 1`. -/
structure DiskRun where
  ds : DiskState
  start : ℕ
  appended : List Entry
  consecutive : Consecutive start appended

/-- What is done to a disk state. A snapshot is attempted on the current state,
    and its file operations meet the given fates. -/
inductive DiskAction
  | append (e : Entry)
  | maybeSnapshot (term : ℕ) (fates : List Fate)
  | takeSnapshot (term : ℕ) (fates : List Fate)
  | reopen

namespace DiskRun

/-- A disk state opened in an empty directory. -/
def init (snapshotInterval snapshotRetention : ℕ) (hi : 0 < snapshotInterval)
    (hr : 0 < snapshotRetention) (start : ℕ) : DiskRun where
  ds := .new snapshotInterval snapshotRetention hi hr
  start := start
  appended := []
  consecutive := trivial

variable (s : DiskRun)

/-- The version of the last entry. -/
def version : ℕ := s.start + s.appended.length

/-- The current state, as given to a snapshot attempt. -/
def current (term : ℕ) : Snapshot :=
  { term := term, version := s.version, kv := replay ∅ s.appended }

/-- After an attempt the process goes on; after a crash it starts again. -/
def after : Outcome DiskError Unit × DiskState → DiskRun
  | (.crashed, ds) => { s with ds := ds.reopen }
  | (_, ds) => { s with ds := ds }

/-- One step of the life of a disk state. -/
def step (s : DiskRun) : DiskAction → Option DiskRun
  | .append e =>
    if h : e.version = s.version + 1 then
      some { s with
        ds := s.ds.appendWAL e
        appended := s.appended ++ [e]
        consecutive := consecutive_append.2 ⟨s.consecutive, h, trivial⟩ }
    else none
  | .maybeSnapshot term fates => some (s.after (s.ds.maybeSnapshot (s.current term) fates))
  | .takeSnapshot term fates => some (s.after (s.ds.takeSnapshot (s.current term) fates))
  | .reopen => some { s with ds := s.ds.reopen }

/-- What has been appended is loaded. -/
def Durable : Prop :=
  s.appended ≠ [] → ∃ t, s.ds.load = .ok
    { term := t, version := s.version, kv := replay ∅ s.appended, valid := true }

/-- The latest snapshot is in the last file in sight: the next rotation moves it
    out of sight. -/
def Exposed : Prop :=
  1 < s.ds.snapshotRetention ∧
    (loadLatestSnapshot s.ds.files.snaps s.ds.snapshotRetention).map Prod.snd =
      some (s.ds.snapshotRetention - 1)

instance : Decidable s.Exposed := inferInstanceAs (Decidable (_ ∧ _))

/-- The entry that is appended fits, and no operation of an attempt on an exposed state
    fails, or is cut off by a crash. -/
def Careful (s : DiskRun) : DiskAction → Prop
  | .maybeSnapshot _ fates | .takeSnapshot _ fates => s.Exposed → ∀ x ∈ fates, x = .ok
  | .append e => e.fits = true
  | .reopen => True

instance : ∀ a, Decidable (s.Careful a)
  | .maybeSnapshot _ fates => inferInstanceAs (Decidable (s.Exposed → ∀ x ∈ fates, x = .ok))
  | .takeSnapshot _ fates => inferInstanceAs (Decidable (s.Exposed → ∀ x ∈ fates, x = .ok))
  | .append e => inferInstanceAs (Decidable (e.fits = true))
  | .reopen => .isTrue trivial

/-- The invariant: the files hold what has been appended. -/
def Holds (s : DiskRun) : Prop :=
  ∃ gone, Sound s.ds.snapshotRetention s.start s.appended s.ds.files gone

variable {s}

theorem holds_init {snapshotInterval snapshotRetention : ℕ} (hi : 0 < snapshotInterval)
    (hr : 0 < snapshotRetention) (start : ℕ) :
    (init snapshotInterval snapshotRetention hi hr start).Holds :=
  ⟨0, Sound.empty snapshotRetention start⟩

theorem Holds.durable (h : s.Holds) : s.Durable := by
  intro hne
  obtain ⟨gone, h⟩ := h
  exact h.load s.consecutive hne

/-- The contents that are loaded. -/
theorem Durable.kv_load (h : s.Durable) (hne : s.appended ≠ []) :
    s.ds.load.toOption.map DiskLoadResult.kv = some (replay ∅ s.appended) := by
  obtain ⟨t, ht⟩ := h hne
  rw [ht]
  rfl

/-- Starting again changes no file. -/
theorem holds_after {r : Outcome DiskError Unit × DiskState} :
    (s.after r).Holds ↔ { s with ds := r.2 }.Holds := by
  rcases r with ⟨_ | _ | _, ds⟩ <;> exact Iff.rfl

/-- An attempt keeps the invariant, if nothing fails or if the state is not exposed. -/
theorem Holds.replaceWith (h : s.Holds) (what : String) (term : ℕ) (fates : List Fate)
    (hC : s.Exposed → ∀ x ∈ fates, x = .ok) :
    (s.after (s.ds.replaceWith what (s.current term) fates)).Holds := by
  obtain ⟨gone, h⟩ := h
  have hretention : (s.ds.replaceWith what (s.current term) fates).2.snapshotRetention =
      s.ds.snapshotRetention := DiskState.replaceWith_config.2
  rw [holds_after, Holds, hretention]
  rcases DiskState.replaceWith_files rfl with ⟨hwal, hsaved⟩ | ⟨hattempted, x, hx, hfail⟩
  · -- The new snapshot includes everything that has gone with the log.
    exact ⟨s.appended.length, h.saved s.ds.retention_pos hsaved rfl rfl le_rfl
      (by rw [hwal, List.drop_length]) (by simp [hwal])⟩
  · refine ⟨gone, h.attempted s.ds.retention_pos hattempted rfl rfl fun hr t ht => ?_⟩
    exact hfail (hC ⟨hr, by rw [ht]; rfl⟩ x hx)

/-- The invariant is kept by every careful step. -/
theorem holds_step (s : DiskRun) (a : DiskAction) (t : DiskRun) (h : s.Holds) (hC : s.Careful a)
    (hstep : s.step a = some t) : t.Holds := by
  cases a with
  | append e =>
    obtain ⟨gone, h⟩ := h
    rw [step] at hstep
    split_ifs at hstep
    obtain rfl := Option.some.inj hstep
    exact ⟨gone, h.append hC⟩
  | maybeSnapshot term fates =>
    obtain rfl := Option.some.inj hstep
    rw [DiskState.maybeSnapshot]
    split_ifs
    · exact h.replaceWith "snapshot" term fates hC
    · exact h
  | takeSnapshot term fates =>
    obtain rfl := Option.some.inj hstep
    exact h.replaceWith "snapshot" term fates hC
  | reopen =>
    obtain rfl := Option.some.inj hstep
    exact h

end DiskRun

/-- In a run from an empty directory where all entries fit and nothing fails in a
    snapshot attempt while the latest snapshot is in the last file in sight, `load` always
    finds what has been appended. -/
theorem durable_of_careful (snapshotInterval snapshotRetention : ℕ) (hi : 0 < snapshotInterval)
    (hr : 0 < snapshotRetention) (start : ℕ) (as : List DiskAction)
    (hC : Along DiskRun.step DiskRun.Careful
      (DiskRun.init snapshotInterval snapshotRetention hi hr start) as)
    {u : DiskRun}
    (h : exec DiskRun.step (DiskRun.init snapshotInterval snapshotRetention hi hr start) as =
      some u) : u.Durable :=
  (invariant DiskRun.holds_step (DiskRun.holds_init hi hr start) hC h).durable

/-- Three writes to different keys, each followed by a snapshot attempt when one
    is due after every write. In the last two attempts, the write of the
    temporary file fails, after the rotation. -/
def failingSnapshots : List DiskAction :=
  [.append (.put 0 1 "a" "x"), .maybeSnapshot 0 [],
    .append (.put 0 2 "b" "y"), .maybeSnapshot 0 [.ok, .ok, .error],
    .append (.put 0 3 "c" "z"), .maybeSnapshot 0 [.ok, .ok, .error]]

/-- A failed attempt, a new start, and a crash in the middle of the next attempt. -/
def crashingSnapshot : List DiskAction :=
  failingSnapshots.take 4 ++
    [.reopen, .append (.put 0 3 "c" "z"), .takeSnapshot 0 [.ok, .crash]]

/-- With a retention of `3`, nothing is lost in such a run. -/
theorem durable_crashingSnapshot :
    ∃ u, exec DiskRun.step (DiskRun.init 1 3 (by decide) (by decide) 0) crashingSnapshot = some u ∧
      u.Durable :=
  ⟨_, rfl, durable_of_careful 1 3 (by decide) (by decide) 0 crashingSnapshot (by decide) rfl⟩

/-- With a retention of `2`, the two failed attempts move the only snapshot out of
    sight: the first write, which the log no longer has, is lost. -/
theorem load_loses_entry :
    ∃ u, exec DiskRun.step (DiskRun.init 1 2 (by decide) (by decide) 0) failingSnapshots = some u ∧
      ¬u.Durable :=
  ⟨_, rfl, fun h => absurd (h.kv_load (by decide)) (by decide)⟩

end Doki
