import Mathlib.Data.List.TakeWhile
import Doki.Lib.Faulty
import Doki.Storage.WalReading

/-!
# The files of a shard

On disk, a shard has a write-ahead log and some snapshot files: the base
snapshot `snapshot.json` and the rotated ones `snapshot.json.1`,
`snapshot.json.2`, and so on (`internal/wal`, `internal/snapshot`). A snapshot file
is seen as `snapshot.Load` sees it, possibly as nothing that it can parse, and the
log as the entries appended to it. What `ReadAll` returns of them are those before
the first one whose line is too long (`Files.readLog`). A snapshot is written to a
temporary file first, and renamed. That the bytes of the files are read like this is
the subject of `Doki.Disk.Bytes`.

The operations on the files are those of `Faulty`: each of them may fail, and
the process may crash before each of them. Appending to the log is atomic; a
failed write of the temporary file may leave a part of the snapshot in it.
-/

namespace Doki

open Faulty

/-- The state of a shard at a version, as a snapshot file holds it. -/
structure Snapshot where
  term : ℕ
  version : ℕ
  kv : KV
  deriving DecidableEq

/-- The state before any entry. -/
def Snapshot.empty : Snapshot := { term := 0, version := 0, kv := ∅ }

/-- What `snapshot.Load` finds at a path. -/
inductive SnapFile
  | missing
  | corrupt
  | snap (s : Snapshot)
  deriving DecidableEq

/-- A snapshot file that exists, readable or not (`os.Stat`). -/
def SnapFile.exists : SnapFile → Bool
  | .missing => false
  | _ => true

/-- The files of a shard. -/
structure Files where
  /-- The snapshot files, by their index: `0` is the base path. -/
  snaps : ℕ → SnapFile
  /-- The temporary file of the base snapshot. -/
  tmp : SnapFile
  /-- The entries that have been appended to the write-ahead log. -/
  wal : List Entry

/-- The errors of the operations on the files of a shard. -/
inductive DiskError
  | rotate
  | writeTmp
  | renameTmp
  | saveSnapshot (e : DiskError)
  | truncateAfter (what : String)
  | remove
  | walMonotonicity (index last version : ℕ)
  deriving DecidableEq, Repr

/-- The error's text, without the details that the operating system adds. -/
def DiskError.message : DiskError → String
  | .rotate => "rotate snapshot"
  | .writeTmp => "write snapshot tmp"
  | .renameTmp => "rename snapshot"
  | .saveSnapshot e => "save snapshot: " ++ e.message
  | .truncateAfter what => "truncate wal after " ++ what ++ ": wal truncate"
  | .remove => "remove"
  | .walMonotonicity index last version =>
    s!"wal monotonicity: version decreased at index {index}: {last} -> {version}"

namespace Files

/-- An empty directory. -/
def empty : Files := { snaps := fun _ => .missing, tmp := .missing, wal := [] }

/-- The files with the contents `c` at the snapshot path `i`. -/
def setSnap (f : Files) (i : ℕ) (c : SnapFile) : Files :=
  { f with snaps := Function.update f.snaps i c }

/-- The files after moving the snapshot file `i` to `j`, replacing it. -/
def moveSnap (f : Files) (i j : ℕ) : Files :=
  (f.setSnap j (f.snaps i)).setSnap i .missing

/-- The entries of the log that `ReadAll` returns. -/
def readLog (f : Files) : List Entry := f.wal.takeWhile Entry.fits

variable (f : Files) (i j k : ℕ) (c : SnapFile)

@[simp] theorem setSnap_wal : (f.setSnap i c).wal = f.wal := rfl

@[simp] theorem moveSnap_wal : (f.moveSnap i j).wal = f.wal := rfl

theorem setSnap_snaps : (f.setSnap i c).snaps k = if k = i then c else f.snaps k := by
  simp only [setSnap, Function.update_apply]

theorem moveSnap_snaps :
    (f.moveSnap i j).snaps k =
      if k = i then .missing else if k = j then f.snaps i else f.snaps k := by
  simp only [moveSnap, setSnap_snaps]

variable {f} {g : Files}

/-- Entries that fit are all read. -/
theorem readLog_of_fits (h : ∀ e ∈ f.wal, e.fits = true) : f.readLog = f.wal :=
  List.takeWhile_eq_self_iff.2 h

theorem readLog_congr (h : g.wal = f.wal) : g.readLog = f.readLog := by
  rw [readLog, h, readLog]

end Files

/-! ## Operations -/

/-- A program on the files of a shard. -/
abbrev Fs := Prog Files DiskError

/-- `os.Remove` of the snapshot file `i`. -/
def removeSnap (i : ℕ) : Fs Unit := Prog.op .remove (·.setSnap i .missing) id

/-- `os.Stat` of the snapshot file `i`. -/
def statSnap (i : ℕ) : Fs Bool := do
  let f ← Prog.read
  return (f.snaps i).exists

/-- `os.Rename` of the snapshot file `i` to `j`, in a rotation. -/
def renameSnap (i j : ℕ) : Fs Unit := Prog.op .rotate (·.moveSnap i j) id

/-- `snapshot.Save`: the snapshot `s` is written to the temporary file, which is
    then renamed to the base path, or removed if that fails. -/
def save (s : Snapshot) : Fs Unit := do
  Prog.op .writeTmp (fun f => { f with tmp := .snap s }) (fun f => { f with tmp := .corrupt })
  (Prog.op .renameTmp (fun f => { f.setSnap 0 f.tmp with tmp := .missing }) id).cleanup
    (Prog.op .remove (fun f => { f with tmp := .missing }) id)

/-- `WAL.Truncate`. -/
def truncateWAL (e : DiskError) : Fs Unit := Prog.op e (fun f => { f with wal := [] }) id

end Doki
