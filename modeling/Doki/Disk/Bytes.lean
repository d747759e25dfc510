import Doki.Disk.Durability
import Doki.Disk.SnapshotFile

/-!
# The bytes of the files

The disk model keeps a snapshot file as the snapshot in it and the log as a list of entries
(`Files`). On the disk they are bytes: the JSON text of a snapshot, and one line for each
entry. A `Directory` has these bytes, and what is read from them is what `snapshot.Load` and
`ReadAll` make of them (`Directory.seen`).

The bytes `d` stand for the files `f` if the snapshots are read from them, and the log is made
of the lines of the entries (`Directory.Stands`). The operations that the process performs on
its files keep this, whether they are complete or not (`Directory.Stands.perform`), and the
programs on the files are made of such operations (`performs_replaceSnapshot`).

* `Directory.Stands.load`: the state that is loaded from bytes is the one that the model loads
  from the files that they stand for;
* `DiskRun.load_bytes`: so it is after every run;
* `DiskRun.durable_bytes`: what has been appended is loaded from the bytes.
-/

namespace Doki

open Faulty Json Runs

/-- What the result of `snapshot.Load` is in the model. -/
def SnapFile.ofLoad : Except SnapshotFile.FormatError (Option SnapshotFile.Snapshot) → SnapFile
  | .ok (some s) => .snap (SnapshotFile.toSnapshot s)
  | .ok none => .missing
  | .error _ => .corrupt

/-- The contents of the files of a shard; a file that does not exist has none. -/
structure Directory where
  snaps : ℕ → Option Bytes
  tmp : Option Bytes
  wal : Bytes

namespace Directory

def empty : Directory := { snaps := fun _ => none, tmp := none, wal := Wal.openFile none }

/-- The files as they are read. -/
def seen (d : Directory) : Files where
  snaps i := .ofLoad (SnapshotFile.load (d.snaps i))
  tmp := .ofLoad (SnapshotFile.load d.tmp)
  wal := (Wal.readAll d.wal).map Wal.Entry.toWrite

def setSnap (d : Directory) (i : ℕ) (c : Option Bytes) : Directory :=
  { d with snaps := Function.update d.snaps i c }

end Directory

/-! ## Operations -/

/-- What the process does to its files: a line is appended to the log, the log is emptied, a
    snapshot file is removed or renamed, and a snapshot is written to the temporary file, the
    first `n` bytes of it if this fails, which is renamed or removed. -/
inductive FileOp
  | append (e : Entry)
  | truncate
  | removeSnap (i : ℕ)
  | renameSnap (i j : ℕ)
  | writeTmp (s : Snapshot)
  | cutTmp (s : Snapshot) (n : ℕ)
  | renameTmp
  | removeTmp

/-- The numbers that are written are of type `uint64`, and of a cut file something is
    missing. -/
def FileOp.Proper : FileOp → Prop
  | .append e => (Wal.walEntryFrom e).Uint64
  | .writeTmp s => SnapshotFile.Uint64 s
  | .cutTmp s n => n < (SnapshotFile.contents s).length
  | .truncate | .removeSnap _ | .renameSnap .. | .renameTmp | .removeTmp => True

def Files.perform (f : Files) : FileOp → Files
  | .append e => { f with wal := f.wal ++ [e] }
  | .truncate => { f with wal := [] }
  | .removeSnap i => f.setSnap i .missing
  | .renameSnap i j => f.moveSnap i j
  | .writeTmp s => { f with tmp := .snap s }
  | .cutTmp _ _ => { f with tmp := .corrupt }
  | .renameTmp => { f.setSnap 0 f.tmp with tmp := .missing }
  | .removeTmp => { f with tmp := .missing }

def Directory.perform (d : Directory) : FileOp → Directory
  | .append e => { d with wal := Wal.append d.wal (Wal.walEntryFrom e) }
  | .truncate => { d with wal := [] }
  | .removeSnap i => d.setSnap i none
  | .renameSnap i j => (d.setSnap j (d.snaps i)).setSnap i none
  | .writeTmp s => { d with tmp := some (SnapshotFile.contents s) }
  | .cutTmp s n => { d with tmp := some ((SnapshotFile.contents s).take n) }
  | .renameTmp => { d.setSnap 0 d.tmp with tmp := none }
  | .removeTmp => { d with tmp := none }

/-! ## Bytes that stand for files -/

namespace Directory

/-- The bytes stand for the files: the snapshots are read from them, and the log has the lines
    of the entries. -/
structure Stands (d : Directory) (f : Files) : Prop where
  snaps : d.seen.snaps = f.snaps
  tmp : d.seen.tmp = f.tmp
  wal : d.wal = (f.wal.map Wal.walEntryFrom).flatMap Wal.encode
  uint64 : ∀ e ∈ f.wal, (Wal.walEntryFrom e).Uint64

theorem stands_empty : empty.Stands Files.empty where
  snaps := rfl
  tmp := rfl
  wal := rfl
  uint64 := List.forall_mem_nil _

variable {d : Directory} {f : Files}

theorem Stands.setSnap (h : d.Stands f) (i : ℕ) {c : Option Bytes} {c' : SnapFile}
    (hc : SnapFile.ofLoad (SnapshotFile.load c) = c') :
    (d.setSnap i c).Stands (f.setSnap i c') where
  snaps := by
    funext k
    change SnapFile.ofLoad (SnapshotFile.load (Function.update d.snaps i c k)) = _
    rw [Function.update_apply, Files.setSnap_snaps, ← h.snaps]
    split_ifs
    · exact hc
    · rfl
  tmp := h.tmp
  wal := h.wal
  uint64 := h.uint64

theorem Stands.setTmp (h : d.Stands f) {c : Option Bytes} {c' : SnapFile}
    (hc : SnapFile.ofLoad (SnapshotFile.load c) = c') :
    { d with tmp := c }.Stands { f with tmp := c' } :=
  ⟨h.snaps, hc, h.wal, h.uint64⟩

/-- An operation on the bytes does what it does on the files. -/
theorem Stands.perform (h : d.Stands f) {op : FileOp} (hop : op.Proper) :
    (d.perform op).Stands (f.perform op) := by
  cases op with
  | append e =>
    refine ⟨h.snaps, h.tmp, ?_, List.forall_mem_concat h.uint64 hop⟩
    change d.wal ++ _ = ((f.wal ++ [e]).map _).flatMap _
    rw [h.wal, List.map_append, List.flatMap_append, List.map_singleton, List.flatMap_singleton]
  | truncate => exact ⟨h.snaps, h.tmp, rfl, List.forall_mem_nil _⟩
  | removeSnap i => exact h.setSnap i rfl
  | renameSnap i j => exact (h.setSnap j (congrFun h.snaps i)).setSnap i rfl
  | writeTmp s =>
    refine h.setTmp ?_
    rw [SnapshotFile.load_contents, SnapFile.ofLoad, SnapshotFile.toSnapshot_ofSnapshot hop]
  | cutTmp s n =>
    refine h.setTmp ?_
    rw [SnapshotFile.load_cut s hop, SnapFile.ofLoad]
  | renameTmp => exact (h.setSnap 0 h.tmp).setTmp rfl
  | removeTmp => exact h.setTmp rfl

/-- The step lemma along a list of operations. -/
theorem Stands.foldl_perform (h : d.Stands f) {ops : List FileOp} (hops : ∀ op ∈ ops, op.Proper) :
    (ops.foldl Directory.perform d).Stands (ops.foldl Files.perform f) := by
  induction ops generalizing d f with
  | nil => exact h
  | cons op ops ih =>
    obtain ⟨hop, hops⟩ := List.forall_mem_cons.1 hops
    exact ih (h.perform hop) hops

/-- The log is read up to the first line that is too long. -/
theorem Stands.readLog (h : d.Stands f) : d.seen.readLog = f.readLog := by
  have hwal : d.seen.wal = f.readLog := by
    rw [seen, h.wal]
    exact Wal.readAll_writes h.uint64
  rw [Files.readLog_of_fits fun e he => List.mem_takeWhile_imp (hwal ▸ he), hwal]

/-- From bytes that stand for the files, the same state is loaded. -/
theorem Stands.load {ds : DiskState} (h : d.Stands ds.files) :
    { ds with files := d.seen }.load = ds.load := by
  simp only [DiskState.load, h.readLog, h.snaps]

end Directory

/-! ## The programs -/

/-- Operations lead from the files `f` to `g`. -/
def Performed (f g : Files) : Prop :=
  ∃ ops : List FileOp, (∀ op ∈ ops, op.Proper) ∧ ops.foldl Files.perform f = g

variable {f g : Files} {s : Snapshot}

theorem Performed.refl (f : Files) : Performed f f := ⟨[], List.forall_mem_nil _, rfl⟩

theorem Performed.perform (h : Performed f g) (op : FileOp) (hop : op.Proper) :
    Performed f (g.perform op) := by
  obtain ⟨ops, hops, rfl⟩ := h
  exact ⟨ops ++ [op], List.forall_mem_concat hops hop, by rw [List.foldl_append]; rfl⟩

/-- A program that is made of operations, whatever fails. -/
abbrev Performs (f : Files) {α : Type} (m : Fs α) : Prop :=
  Triple (Performed f) m (fun _ => Performed f) (Performed f)

/-- An operation that fails without a trace. -/
theorem performs_op (f : Files) (e : DiskError) (op : FileOp) (hop : op.Proper) :
    Performs f (Prog.op e (·.perform op) id) :=
  Triple.op (fun _ hg => hg.perform op hop) fun _ hg => hg

theorem performs_moveUp (f : Files) (i : ℕ) : Performs f (moveUp i) := by
  have hstat : Performs f (statSnap i) :=
    Triple.bind Triple.read fun _ => Triple.pure fun _ hg => hg.2
  refine Triple.bind hstat fun _ => Triple.ite (fun _ => ?_) fun _ => Triple.pure fun _ hg => hg
  exact performs_op f .rotate (.renameSnap i (i + 1)) trivial

theorem performs_makeRoom (f : Files) (retention i : ℕ) : Performs f (makeRoom retention i) := by
  refine Triple.ite (fun _ => ?_) fun _ => Triple.pure fun _ hg => hg
  exact Triple.ignore (performs_op f .remove (.removeSnap (i + 1)) trivial) fun _ hg => hg

theorem performs_rotateLoop (f : Files) (retention i : ℕ) :
    Performs f (rotateLoop retention i) := by
  induction i with
  | zero => exact Triple.pure fun _ hg => hg
  | succ i ih =>
    exact Triple.bind (performs_makeRoom f retention (i + 1)) fun _ =>
      Triple.bind (performs_moveUp f (i + 1)) fun _ => ih

theorem performs_save (f : Files) (hs : SnapshotFile.Uint64 s) : Performs f (save s) := by
  -- A write that fails may leave any part of the file; here it has left nothing of it.
  have hwrite : Performs f (Prog.op DiskError.writeTmp (fun g => { g with tmp := .snap s })
      fun g => { g with tmp := .corrupt }) :=
    Triple.op (fun _ hg => hg.perform (.writeTmp s) hs) fun _ hg =>
      hg.perform (.cutTmp s 0) (SnapshotFile.length_contents_pos s)
  exact Triple.bind hwrite fun _ => Triple.cleanup (performs_op f .renameTmp .renameTmp trivial)
    (performs_op f .remove .removeTmp trivial)

theorem performs_replaceSnapshot (f : Files) (retention : ℕ) (what : String)
    (hs : SnapshotFile.Uint64 s) : Performs f (replaceSnapshot retention what s) := by
  have hrotate : Performs f (rotateSnapshots retention) :=
    Triple.ite (fun _ => Triple.pure fun _ hg => hg) fun _ =>
      Triple.bind (performs_rotateLoop f retention _) fun _ => performs_moveUp f 0
  exact Triple.bind hrotate fun _ => Triple.bind (performs_save f hs).mapError fun _ =>
    performs_op f (.truncateAfter what) .truncate trivial

/-- An attempt to replace the snapshot is made of operations, however it ends. -/
theorem DiskState.performed_replaceWith {ds : DiskState} (h : Performed f ds.files)
    (what : String) (hs : SnapshotFile.Uint64 s) (fates : List Fate) :
    Performed f (ds.replaceWith what s fates).2.files := by
  have hends := performs_replaceSnapshot f ds.snapshotRetention what hs ds.files fates h
  rw [replaceWith]
  generalize replaceSnapshot ds.snapshotRetention what s ds.files fates = x at hends
  rcases x with ⟨_ | _ | _, g, gs⟩
  · exact hends.2
  · exact hends.2.1
  · exact hends.2.1

/-! ## Runs -/

namespace DiskRun

/-- The numbers that are written are of type `uint64`. -/
def Uint64 (s : DiskRun) : DiskAction → Prop
  | .append e => (Wal.walEntryFrom e).Uint64
  | .maybeSnapshot term _ | .takeSnapshot term _ => SnapshotFile.Uint64 (s.current term)
  | .reopen => True

variable {s : DiskRun}

theorem performed_after {r : Outcome DiskError Unit × DiskState} (h : Performed f r.2.files) :
    Performed f (s.after r).ds.files := by
  obtain ⟨_ | _ | _, ds⟩ := r <;> exact h

theorem performed_step (s : DiskRun) (a : DiskAction) (t : DiskRun) (h : Performed f s.ds.files)
    (hC : s.Uint64 a) (hstep : s.step a = some t) : Performed f t.ds.files := by
  cases a with
  | append e =>
    rw [step] at hstep
    split_ifs at hstep
    obtain rfl := Option.some.inj hstep
    exact h.perform (.append e) hC
  | maybeSnapshot term fates =>
    obtain rfl := Option.some.inj hstep
    refine performed_after ?_
    rw [DiskState.maybeSnapshot]
    split_ifs
    · exact DiskState.performed_replaceWith h _ hC fates
    · exact h
  | takeSnapshot term fates =>
    obtain rfl := Option.some.inj hstep
    exact performed_after (DiskState.performed_replaceWith h _ hC fates)
  | reopen =>
    obtain rfl := Option.some.inj hstep
    exact h

/-- The operations of a run that starts in an empty directory, performed on bytes, leave bytes
    from which the state is loaded that the model loads. -/
theorem load_bytes {s₀ t : DiskRun} (hempty : s₀.ds.files = Files.empty) {as : List DiskAction}
    (hC : Along step Uint64 s₀ as) (h : exec step s₀ as = some t) :
    ∃ ops : List FileOp, ops.foldl Files.perform Files.empty = t.ds.files ∧
      { t.ds with files := (ops.foldl Directory.perform .empty).seen }.load = t.ds.load := by
  have hstart : Performed Files.empty s₀.ds.files := hempty ▸ Performed.refl _
  obtain ⟨ops, hops, heq⟩ := invariant performed_step hstart hC h
  have hstands := Directory.stands_empty.foldl_perform hops
  exact ⟨ops, heq, Directory.Stands.load (heq ▸ hstands)⟩

/-- What has been appended is loaded from the bytes, if the run is careful. -/
theorem durable_bytes {snapshotInterval snapshotRetention start : ℕ} (hi : 0 < snapshotInterval)
    (hr : 0 < snapshotRetention) {as : List DiskAction} {t : DiskRun}
    (hcareful : Along step Careful (init snapshotInterval snapshotRetention hi hr start) as)
    (huint : Along step Uint64 (init snapshotInterval snapshotRetention hi hr start) as)
    (h : exec step (init snapshotInterval snapshotRetention hi hr start) as = some t)
    (hne : t.appended ≠ []) :
    ∃ (ops : List FileOp) (term : ℕ), ops.foldl Files.perform Files.empty = t.ds.files ∧
      { t.ds with files := (ops.foldl Directory.perform .empty).seen }.load = .ok
        { term := term, version := t.version, kv := replay ∅ t.appended, valid := true } := by
  obtain ⟨ops, hfiles, hload⟩ := load_bytes rfl huint h
  obtain ⟨term, hterm⟩ := (invariant holds_step (holds_init hi hr start) hcareful h).durable hne
  exact ⟨ops, term, hfiles, hload.trans hterm⟩

end DiskRun

end Doki
