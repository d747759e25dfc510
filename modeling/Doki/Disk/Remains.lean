import Doki.Disk.Replay
import Doki.Disk.Rollback

/-!
# What a failed replacement leaves to load

An attempt to replace the base snapshot (`replaceSnapshot`) that returns an error has
stopped at one of its file operations. What `load` makes of the files then depends on
the snapshots that are in sight, in their order, and on the log, which the attempt
leaves as it was.

* `inSight`: the snapshots in sight; `DiskState.load_eq_loadFrom`: what is loaded, from the
  newest of them and the log;
* `Attempted.inSight_eq`: after a failed attempt, the snapshots in sight are those from
  before, with the last file out of sight or not, or the new one over them;
* `exists_rotated`, `exists_saved`: both of these do occur;
* `DiskState.Indifferent`: the disk states for which it does not matter, since the log
  leads to the same state from the snapshots that are picked (`indifferent_iff`).
-/

namespace Doki

open Faulty

/-! ## Snapshots in sight -/

/-- The snapshot in a file, if it can be read. -/
def SnapFile.toOption : SnapFile → Option Snapshot
  | .snap s => some s
  | _ => none

/-- The snapshots in the first `n` files, in their order. -/
def inSight (snaps : ℕ → SnapFile) (n : ℕ) : List Snapshot :=
  (List.range n).filterMap fun i => (snaps i).toOption

/-- The better one of two snapshots: the later one, if its version is higher. -/
def newer (best : Option Snapshot) (s : Snapshot) : Option Snapshot :=
  match best with
  | none => some s
  | some b => if s.version > b.version then some s else some b

theorem inSight_succ (snaps : ℕ → SnapFile) (n : ℕ) :
    inSight snaps (n + 1) = inSight snaps n ++ (snaps n).toOption.toList := by
  rw [inSight, List.range_succ, List.filterMap_append]
  cases h : (snaps n).toOption <;> simp [inSight, h]

theorem inSight_add (snaps : ℕ → SnapFile) (n m : ℕ) :
    inSight snaps (n + m) = inSight snaps n ++ inSight (fun i => snaps (n + i)) m := by
  simp only [inSight, List.range_add, List.filterMap_append, List.filterMap_map]
  rfl

/-- The files in sight determine the snapshots. -/
theorem inSight_congr {snaps snaps' : ℕ → SnapFile} {n : ℕ} (h : ∀ i < n, snaps i = snaps' i) :
    inSight snaps n = inSight snaps' n :=
  List.filterMap_congr fun i hi => by rw [h i (List.mem_range.1 hi)]

theorem map_betterSnapshot (snaps : ℕ → SnapFile) (best : Option (Snapshot × ℕ)) (i : ℕ) :
    (betterSnapshot snaps best i).map Prod.fst =
      (snaps i).toOption.toList.foldl newer (best.map Prod.fst) := by
  rw [betterSnapshot]
  cases hs : snaps i with
  | missing => rfl
  | corrupt => rfl
  | snap s =>
    cases best with
    | none => rfl
    | some b =>
      simp only [SnapFile.toOption, Option.toList, List.foldl_cons, List.foldl_nil, newer,
        Option.map_some]
      split_ifs <;> rfl

/-- The snapshot that is picked, among those in sight. -/
theorem map_loadLatestSnapshot (snaps : ℕ → SnapFile) (n : ℕ) :
    (loadLatestSnapshot snaps n).map Prod.fst = (inSight snaps n).foldl newer none := by
  induction n with
  | zero => rfl
  | succ n ih =>
    rw [loadLatestSnapshot, List.range_succ, List.foldl_append, inSight_succ, List.foldl_append,
      ← ih]
    exact map_betterSnapshot snaps (loadLatestSnapshot snaps n) n

/-- The snapshot that is picked. -/
def DiskState.best (ds : DiskState) : Option Snapshot :=
  (inSight ds.files.snaps ds.snapshotRetention).foldl newer none

theorem DiskState.load_eq_loadFrom (ds : DiskState) :
    ds.load = loadFrom ds.best ds.files.readLog := by
  rw [load, best, ← map_loadLatestSnapshot, loadFrom, Option.isNone_map]
  cases ensureMonotonicWAL ds.files.readLog 0 <;> rfl

theorem DiskState.load_foldl_appendWAL (ds : DiskState) (es : List Entry) :
    (es.foldl appendWAL ds).load =
      loadFrom ds.best ((ds.files.wal ++ es).takeWhile Entry.fits) := by
  obtain ⟨hsnaps, hlog, hr⟩ := foldl_appendWAL ds es
  rw [load_eq_loadFrom, best, hsnaps, Files.readLog, hlog, hr, best]

/-- Nothing is read from behind an entry that is too long. -/
theorem takeWhile_append_of_long {wal : List Entry} (h : ¬∀ e ∈ wal, e.fits = true)
    (es : List Entry) : (wal ++ es).takeWhile Entry.fits = wal.takeWhile Entry.fits := by
  rw [List.takeWhile_append, if_neg fun hlen => h ?_]
  rw [← List.takeWhile_eq_self_iff]
  exact List.IsPrefix.eq_of_length ( List.takeWhile_prefix _) hlen

/-- What is read from a longer log begins with what is read from the log. -/
theorem exists_takeWhile_append (wal es : List Entry) :
    ∃ fs, (wal ++ es).takeWhile Entry.fits = wal.takeWhile Entry.fits ++ fs := by
  by_cases h : ∀ e ∈ wal, e.fits = true
  · exact ⟨es.takeWhile Entry.fits, by
      rw [List.takeWhile_append_of_pos h, List.takeWhile_eq_self_iff.2 h]⟩
  · exact ⟨[], by rw [takeWhile_append_of_long h, List.append_nil]⟩

/-! ## Failed attempts -/

variable {retention n : ℕ} {f g : Files} {s : Snapshot}

/-- In the middle of a rotation, the last file has left the sight. -/
theorem Shifted.inSight_eq (h : Shifted retention f n g) (hn : n < retention) :
    inSight g.snaps retention = inSight f.snaps (retention - 1) := by
  obtain ⟨k, rfl⟩ : ∃ k, retention = n + (1 + k) := ⟨retention - n - 1, by omega⟩
  have hbelow : inSight g.snaps n = inSight f.snaps n := inSight_congr h.below
  have habove : inSight (fun i => g.snaps (n + (1 + i))) k =
      inSight (fun i => f.snaps (n + i)) k :=
    inSight_congr fun i hi => by
      rw [show n + (1 + i) = n + i + 1 by omega]
      exact h.above (n + i) (by omega) (by omega)
  have hgap : inSight (fun i => g.snaps (n + i)) 1 = [] := by
    simp [inSight, h.missing hn, SnapFile.toOption]
  rw [show n + (1 + k) - 1 = n + k by omega, inSight_add, inSight_add _ 1 k, inSight_add, hbelow,
    hgap, habove, List.nil_append]

/-- Once the new snapshot is saved, it is in sight before the others. -/
theorem Saved.inSight_eq (h : Saved retention f s g) (hr : 0 < retention) :
    inSight g.snaps retention = s :: inSight f.snaps (retention - 1) := by
  obtain ⟨k, rfl⟩ : ∃ k, retention = 1 + k := ⟨retention - 1, by omega⟩
  have habove : inSight (fun i => g.snaps (1 + i)) k = inSight f.snaps k :=
    inSight_congr fun i hi => by
      rw [show 1 + i = i + 1 by omega]
      exact h.above i (by omega)
  have hbase : inSight g.snaps 1 = [s] := by simp [inSight, h.base, SnapFile.toOption]
  rw [inSight_add, hbase, habove, Nat.add_sub_cancel_left, List.singleton_append]

/-- What is in sight after a failed attempt. -/
theorem Attempted.inSight_eq (h : Attempted retention f s g) (hr : 0 < retention) :
    g.wal = f.wal ∧
      (inSight g.snaps retention = inSight f.snaps retention ∨
        (1 < retention ∧
          inSight g.snaps retention = inSight f.snaps (retention - 1)) ∨
        inSight g.snaps retention = s :: inSight f.snaps (retention - 1)) := by
  rcases h with ⟨n, hn, h0, h⟩ | ⟨hwal, h⟩
  · refine ⟨h.wal, ?_⟩
    rcases hn.eq_or_lt with rfl | hlt
    · exact .inl (inSight_congr h.below)
    · exact .inr (.inl ⟨by omega, h.inSight_eq hlt⟩)
  · exact ⟨hwal, .inr (.inr (h.inSight_eq hr))⟩

/-! ## Where an attempt may fail -/

theorem succeeds_moveUp (i : ℕ) (f : Files) : ∃ g, Succeeds (moveUp i) f () g := by
  have hstat : Succeeds (statSnap i) f (f.snaps i).exists f := ⟨0, fun _ => rfl⟩
  cases h : (f.snaps i).exists with
  | true => exact ⟨_, hstat.bind (by rw [h]; exact .op _ _ _ f)⟩
  | false => exact ⟨_, hstat.bind (by rw [h]; exact .pure () f)⟩

theorem succeeds_makeRoom (retention i : ℕ) (f : Files) :
    ∃ g, Succeeds (makeRoom retention i) f () g := by
  rw [makeRoom]
  split_ifs
  · exact ⟨_, Succeeds.ignore (.op _ _ _ f)⟩
  · exact ⟨f, .pure () f⟩

theorem succeeds_rotateLoop (retention i : ℕ) (f : Files) :
    ∃ g, Succeeds (rotateLoop retention i) f () g := by
  induction i generalizing f with
  | zero => exact ⟨f, .pure () f⟩
  | succ i ih =>
    obtain ⟨g, hg⟩ := succeeds_makeRoom retention (i + 1) f
    obtain ⟨g', hg'⟩ := succeeds_moveUp (i + 1) g
    obtain ⟨g'', hg''⟩ := ih g'
    exact ⟨g'', hg.bind (hg'.bind hg'')⟩

theorem succeeds_rotateSnapshots (retention : ℕ) (f : Files) :
    ∃ g, Succeeds (rotateSnapshots retention) f () g := by
  rw [rotateSnapshots]
  split_ifs
  · exact ⟨f, .pure () f⟩
  · obtain ⟨g, hg⟩ := succeeds_rotateLoop retention (retention - 1) f
    obtain ⟨g', hg'⟩ := succeeds_moveUp 0 g
    exact ⟨g', hg.bind hg'⟩

/-- An attempt may fail after the rotation. -/
theorem exists_rotated (what : String) (hr : 0 < retention) (f : Files) (s : Snapshot) :
    ∃ fates err g, replaceSnapshot retention what s f fates = (.error err, g, []) ∧
      Rotated retention f g := by
  obtain ⟨g, hg⟩ := succeeds_rotateSnapshots retention f
  have hrotated := hg.of_triple (rotateSnapshots_triple (s := s) hr) rfl
  obtain ⟨fates, hfates⟩ := hg.exists_error
    (f := fun _ => (save s).mapError .saveSnapshot >>= fun _ => truncateWAL (.truncateAfter what))
    [.error] rfl
  exact ⟨fates, _, _, hfates, hrotated.tmp .corrupt⟩

/-- It may also fail when the new snapshot has been saved. -/
theorem exists_saved (what : String) (hr : 0 < retention) (f : Files) (s : Snapshot) :
    ∃ fates err g, replaceSnapshot retention what s f fates = (.error err, g, []) ∧
      g.wal = f.wal ∧ Saved retention f s g := by
  obtain ⟨g, hg⟩ := succeeds_rotateSnapshots retention f
  have hrotated := hg.of_triple (rotateSnapshots_triple (s := s) hr) rfl
  obtain ⟨fates, hfates⟩ := hg.exists_error
    (f := fun _ => (save s).mapError .saveSnapshot >>= fun _ => truncateWAL (.truncateAfter what))
    [.ok, .ok, .error] rfl
  obtain ⟨hwal, hbase, habove⟩ := hrotated.saved (s := s)
  exact ⟨fates, _, _, hfates, hwal, hbase, habove⟩

namespace DiskState

variable {ds : DiskState} {what : String}

/-- How a failed attempt of a disk state ends. -/
theorem replaceWith_error {fates : List Fate} {err : DiskError} {g : Files} {gs : List Fate}
    (h : replaceSnapshot ds.snapshotRetention what s ds.files fates = (.error err, g, gs)) :
    ds.replaceWith what s fates = (.error err, { ds with files := g }) := by
  rw [replaceWith, h]

/-- The files of a failed attempt. -/
theorem attempted_of_error {ds' : DiskState} {fates : List Fate} {err : DiskError}
    (h : ds.replaceWith what s fates = (.error err, ds')) :
    ds'.snapshotRetention = ds.snapshotRetention ∧
      Attempted ds.snapshotRetention ds.files s ds'.files := by
  have hends := replaceSnapshot_triple (s := s) what ds.retention_pos ds.files fates rfl
  rw [replaceWith] at h
  generalize replaceSnapshot ds.snapshotRetention what s ds.files fates = x at h hends
  rcases x with ⟨_ | _ | _, g, gs⟩
  · exact absurd (Prod.mk.inj h).1 (by simp)
  · obtain rfl := (Prod.mk.inj h).2
    exact ⟨rfl, hends.2.1⟩
  · exact absurd (Prod.mk.inj h).1 (by simp)

/-- The snapshot that is picked when there is one file less in sight. -/
def bestBut (ds : DiskState) : Option Snapshot :=
  (inSight ds.files.snaps (ds.snapshotRetention - 1)).foldl newer none

/-- The snapshot that is picked when `s` is saved over those that stay in sight. -/
def bestOver (ds : DiskState) (s : Snapshot) : Option Snapshot :=
  (s :: inSight ds.files.snaps (ds.snapshotRetention - 1)).foldl newer none

/-- Whether or not the last file stays in sight, and whether or not `s` is saved over the
    others, what is read from the log leads to the same state, unless it is refused. -/
def Indifferent (ds : DiskState) (s : Snapshot) : Prop :=
  Ordered ds.files.readLog →
    (1 < ds.snapshotRetention → SameState ds.bestBut ds.best ds.files.readLog) ∧
      SameState (ds.bestOver s) ds.best ds.files.readLog

/-- This is to say that the same is loaded. -/
theorem indifferent_iff :
    ds.Indifferent s ↔
      (1 < ds.snapshotRetention → loadFrom ds.bestBut ds.files.readLog = ds.load) ∧
        loadFrom (ds.bestOver s) ds.files.readLog = ds.load := by
  rw [load_eq_loadFrom, loadFrom_eq_iff, loadFrom_eq_iff, Indifferent]
  exact ⟨fun h => ⟨fun hr hlog => (h hlog).1 hr, fun hlog => (h hlog).2⟩,
    fun h hlog => ⟨fun hr => h.1 hr hlog, h.2 hlog⟩⟩

/-- If an attempt that may fail anywhere never changes what is loaded, then this makes no
    difference. -/
theorem indifferent_of_load (what : String) (h : ∀ fates err ds',
    ds.replaceWith what s fates = (.error err, ds') → ds'.load.toOption = ds.load.toOption) :
    ds.Indifferent s := by
  refine indifferent_iff.2 ⟨fun hr => ?_, ?_⟩ <;> rw [load_eq_loadFrom] <;>
    refine loadFrom_eq_of_loadedState ?_
  · obtain ⟨fates, err, g, hg, hrotated⟩ := exists_rotated what ds.retention_pos ds.files s
    have hload := h fates err _ (replaceWith_error hg)
    rcases hrotated with ⟨hone, -⟩ | ⟨-, hshifted⟩
    · omega
    · rw [load_eq_loadFrom, load_eq_loadFrom, best, hshifted.inSight_eq ds.retention_pos,
        Files.readLog_congr hshifted.wal] at hload
      exact hload
  · obtain ⟨fates, err, g, hg, hwal, hsaved⟩ := exists_saved what ds.retention_pos ds.files s
    have hload := h fates err _ (replaceWith_error hg)
    rw [load_eq_loadFrom, load_eq_loadFrom, best, hsaved.inSight_eq ds.retention_pos,
      Files.readLog_congr hwal] at hload
    exact hload

/-- Conversely, a failed attempt then changes nothing of what is loaded, now and with any
    entries appended later. -/
theorem Indifferent.load_eq {ds' : DiskState} {fates : List Fate} {err : DiskError}
    (h : ds.Indifferent s) (hds' : ds.replaceWith what s fates = (.error err, ds'))
    (es : List Entry) : (es.foldl appendWAL ds').load = (es.foldl appendWAL ds).load := by
  obtain ⟨hrotated, hsaved⟩ := indifferent_iff.1 h
  obtain ⟨hretention, hattempted⟩ := attempted_of_error hds'
  obtain ⟨hwal, hsight⟩ := hattempted.inSight_eq ds.retention_pos
  -- The log is the same, so that it is enough to compare what is loaded from it now.
  have hnow : loadFrom ds'.best ds.files.readLog = loadFrom ds.best ds.files.readLog := by
    rw [← load_eq_loadFrom, best, hretention]
    rcases hsight with h | ⟨hr, h⟩ | h
    · rw [h, load_eq_loadFrom]
      rfl
    · rw [h]
      exact hrotated hr
    · rw [h]
      exact hsaved
  obtain ⟨fs, hfs⟩ := exists_takeWhile_append ds.files.wal es
  rw [load_foldl_appendWAL, load_foldl_appendWAL, hwal, hfs]
  exact loadFrom_append hnow fs

end DiskState

end Doki
