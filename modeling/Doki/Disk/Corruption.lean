import Doki.Disk.Durability

/-!
# Damaged snapshots

Snapshot files may become unreadable. `load` skips those it cannot read, and takes the
newest of the others. But the log was emptied when the newest snapshot of all was
taken: between an older one and the log, the entries that only the newest snapshot
had are missing. They are noticed neither by `load` nor by its check on the log, which
looks at the entries of the log alone.

* `Archive`: a disk state with the entries appended to it, and how many of them each of
  the snapshots includes, which were all taken successfully;
* `archived_step`, `Archived.load`: what the files hold, and what is loaded from them when
  some of them are damaged;
* `faithful_iff`: what is loaded is a state of the history exactly when no entry is
  read from the log, or every key that the missing entries have changed is written
  again by one that is;
* `load_fabricates`: a loaded state that never was.
-/

namespace Doki

open Faulty Runs

/-! ## Histories -/

/-- A disk state and its history: the entries appended since its directory was empty,
    and for every snapshot taken, the newest first, the number of entries it
    includes. -/
structure Archive extends DiskRun where
  taken : List ℕ

/-- What is done to a disk state when nothing fails. -/
inductive ArchiveAction
  | append (e : Entry)
  | takeSnapshot (term : ℕ) (fates : List Fate)

namespace Archive

/-- A disk state opened in an empty directory. -/
def init (snapshotInterval snapshotRetention : ℕ) (hi : 0 < snapshotInterval)
    (hr : 0 < snapshotRetention) (start : ℕ) : Archive where
  toDiskRun := .init snapshotInterval snapshotRetention hi hr start
  taken := []

/-- One step of the history: an entry with the next version is appended, or a snapshot
    of the current state is taken successfully. -/
def step (s : Archive) : ArchiveAction → Option Archive
  | .append e => (s.toDiskRun.step (.append e)).map fun r => ⟨r, s.taken⟩
  | .takeSnapshot term fates =>
    match s.ds.takeSnapshot (s.current term) fates with
    | (.done (), ds) => some ⟨{ s.toDiskRun with ds := ds }, s.appended.length :: s.taken⟩
    | _ => none

variable (s : Archive)

/-- The state after the first `n` entries. -/
def stateAfter (n : ℕ) : KV := replay ∅ (s.appended.take n)

/-- The number of entries that the newest snapshot of all includes. -/
def gone : ℕ := s.taken.headD 0

/-- The entries after the newest snapshot of all. -/
def tail : List Entry := s.appended.drop s.gone

/-- Those of them that are read again: the ones before the first that is too long. -/
def readTail : List Entry := s.tail.takeWhile Entry.fits

/-- The numbers of entries that the snapshots in sight include, without those of the
    files `bad`. -/
def readable (bad : ℕ → Bool) : List ℕ :=
  (List.range s.ds.snapshotRetention).filterMap fun i => if bad i then none else s.taken[i]?

theorem mem_readable {bad : ℕ → Bool} {n : ℕ} :
    n ∈ s.readable bad ↔
      ∃ i < s.ds.snapshotRetention, bad i = false ∧ s.taken[i]? = some n := by
  simp [readable, List.mem_filterMap]

end Archive

/-- The snapshot files `bad` have been damaged, if they exist. -/
def Files.damage (f : Files) (bad : ℕ → Bool) : Files :=
  { f with snaps := fun i => if bad i ∧ (f.snaps i).exists then .corrupt else f.snaps i }

/-- The disk state with the files `bad` damaged. -/
def DiskState.damage (ds : DiskState) (bad : ℕ → Bool) : DiskState :=
  { ds with files := ds.files.damage bad }

theorem Files.damage_eq_snap {f : Files} {bad : ℕ → Bool} {i : ℕ} {t : Snapshot} :
    (f.damage bad).snaps i = .snap t ↔ bad i = false ∧ f.snaps i = .snap t := by
  rw [Files.damage]
  cases hbad : bad i with
  | false => simp [hbad]
  | true => cases hs : f.snaps i <;> simp [hbad, hs, SnapFile.exists]

/-- What the files hold after a history. -/
structure Archived (s : Archive) : Prop where
  taken_le : ∀ n ∈ s.taken, n ≤ s.appended.length
  ordered : s.taken.Pairwise (· ≥ ·)
  snaps : ∀ i < s.ds.snapshotRetention, ∀ t, s.ds.files.snaps i = .snap t →
    ∃ n, s.taken[i]? = some n ∧ t.version = s.start + n ∧ t.kv = s.stateAfter n
  found : ∀ i < s.ds.snapshotRetention, ∀ n, s.taken[i]? = some n →
    ∃ t, s.ds.files.snaps i = .snap t
  wal : s.ds.files.wal = s.tail

namespace Archived

variable {s s' : Archive}

theorem gone_le (h : Archived s) : s.gone ≤ s.appended.length := by
  rw [Archive.gone]
  cases hn : s.taken with
  | nil => simp
  | cons n ns => exact h.taken_le n (by simp [hn])

/-- No snapshot includes more than the newest one. -/
theorem le_gone (h : Archived s) {i n : ℕ} (hn : s.taken[i]? = some n) : n ≤ s.gone := by
  have hord := h.ordered
  rw [Archive.gone]
  cases hns : s.taken with
  | nil => simp [hns] at hn
  | cons m ms =>
    rw [hns] at hn hord
    rcases List.mem_cons.1 (List.mem_of_getElem? hn) with rfl | hmem
    · exact le_rfl
    · exact (List.pairwise_cons.1 hord).1 n hmem

end Archived

theorem archived_init {snapshotInterval snapshotRetention : ℕ} (hi : 0 < snapshotInterval)
    (hr : 0 < snapshotRetention) (start : ℕ) :
    Archived (.init snapshotInterval snapshotRetention hi hr start) where
  taken_le := by simp [Archive.init]
  ordered := List.Pairwise.nil
  snaps _ _ _ h := nomatch h
  found i hi n h := by simp [Archive.init] at h
  wal := rfl

theorem archived_step (s : Archive) (a : ArchiveAction) (s' : Archive) (h : Archived s)
    (hstep : s.step a = some s') : Archived s' := by
  cases a with
  | append e =>
    obtain ⟨r, hr, rfl⟩ := Option.map_eq_some_iff.1 hstep
    rw [DiskRun.step] at hr
    split_ifs at hr
    obtain rfl := Option.some.inj hr
    refine ⟨fun n hn => ?_, h.ordered, fun i hi t ht => ?_, h.found, ?_⟩
    · exact (h.taken_le n hn).trans (by simp)
    · obtain ⟨n, hn, hv, hkv⟩ := h.snaps i hi t ht
      have hle := h.taken_le n (List.mem_of_getElem? hn)
      exact ⟨n, hn, hv, by
        rw [hkv, Archive.stateAfter, Archive.stateAfter, List.take_append_of_le_length hle]⟩
    · show s.ds.files.wal ++ [e] = _
      rw [h.wal, Archive.tail, Archive.tail]
      exact (List.drop_append_of_le_length h.gone_le).symm
  | takeSnapshot term fates =>
    rw [Archive.step] at hstep
    split at hstep
    · rename_i ds hdone
      obtain rfl := Option.some.inj hstep
      obtain ⟨hretention, hwal, hsaved⟩ := DiskState.replaceWith_done hdone
      refine ⟨?_, ?_, fun i hi t ht => ?_, fun i hi n hn => ?_, ?_⟩
      · exact List.forall_mem_cons.2 ⟨le_rfl, h.taken_le⟩
      · exact List.pairwise_cons.2 ⟨h.taken_le, h.ordered⟩
      · -- The new snapshot is at the base path, the others have moved one index up.
        rw [show ds.snapshotRetention = _ from hretention] at hi
        cases i with
        | zero =>
          obtain rfl : s.current term = t := SnapFile.snap.inj (hsaved.base.symm.trans ht)
          refine ⟨_, rfl, rfl, ?_⟩
          rw [Archive.stateAfter, List.take_length]
          rfl
        | succ i => exact h.snaps i (by omega) t (hsaved.above i hi ▸ ht)
      · rw [show ds.snapshotRetention = _ from hretention] at hi
        cases i with
        | zero => exact ⟨_, hsaved.base⟩
        | succ i =>
          obtain ⟨t, ht⟩ := h.found i (by omega) n hn
          exact ⟨t, (hsaved.above i hi).trans ht⟩
      · show ds.files.wal = _
        rw [hwal, Archive.tail]
        exact (List.drop_length).symm
    · cases hstep

/-! ## What is loaded -/

namespace Archived

variable {s : Archive} {bad : ℕ → Bool}

/-- A snapshot of the damaged files is one that can be read. -/
theorem mem_readable (h : Archived s) {i : ℕ} {t : Snapshot} (hi : i < s.ds.snapshotRetention)
    (ht : (s.ds.damage bad).files.snaps i = .snap t) :
    ∃ n ∈ s.readable bad, t.version = s.start + n ∧ t.kv = s.stateAfter n := by
  obtain ⟨hbad, ht⟩ := Files.damage_eq_snap.1 ht
  obtain ⟨n, hn, hv, hkv⟩ := h.snaps i hi t ht
  exact ⟨n, s.mem_readable.2 ⟨i, hi, hbad, hn⟩, hv, hkv⟩

/-- With no readable snapshot in sight, none is picked. -/
theorem latest_none (h : Archived s) (hnone : s.readable bad = []) :
    loadLatestSnapshot (s.ds.damage bad).files.snaps s.ds.snapshotRetention = none := by
  cases hbest : loadLatestSnapshot (s.ds.damage bad).files.snaps s.ds.snapshotRetention with
  | none => rfl
  | some best =>
    obtain ⟨t, i⟩ := best
    obtain ⟨hi, ht, -⟩ := loadLatestSnapshot_some hbest
    obtain ⟨n, hn, -⟩ := h.mem_readable hi ht
    rw [hnone] at hn
    cases hn

/-- Otherwise the one that is picked includes the most entries. -/
theorem latest_some (h : Archived s) {n : ℕ} (hn : (s.readable bad).max? = some n) :
    ∃ t i, loadLatestSnapshot (s.ds.damage bad).files.snaps s.ds.snapshotRetention =
      some (t, i) ∧ t.version = s.start + n ∧ t.kv = s.stateAfter n := by
  obtain ⟨hmem, hmax⟩ := List.max?_eq_some_iff.1 hn
  obtain ⟨j, hj, hbad, hjn⟩ := s.mem_readable.1 hmem
  obtain ⟨u, hu⟩ := h.found j hj n hjn
  have hu' : (s.ds.damage bad).files.snaps j = .snap u := Files.damage_eq_snap.2 ⟨hbad, hu⟩
  obtain ⟨n', hn', huv, -⟩ := h.snaps j hj u hu
  obtain rfl : n = n' := Option.some.inj (hjn.symm.trans hn')
  cases hbest : loadLatestSnapshot (s.ds.damage bad).files.snaps s.ds.snapshotRetention with
  | none => exact absurd hu' (loadLatestSnapshot_none hbest j hj u)
  | some best =>
    obtain ⟨t, i⟩ := best
    obtain ⟨hi, ht, hlatest⟩ := loadLatestSnapshot_some hbest
    obtain ⟨m, hm, hv, hkv⟩ := h.mem_readable hi ht
    -- The two have the same version: each of them is the highest.
    have hle := (hlatest j hj u hu').1
    have hge := hmax m hm
    obtain rfl : m = n := by omega
    exact ⟨t, i, rfl, hv, hkv⟩

/-- The state that the replay starts from. -/
theorem base_kv (h : Archived s) (bad : ℕ → Bool) :
    (s.ds.damage bad).base.kv = s.stateAfter ((s.readable bad).max?.getD 0) ∧
      (s.ds.damage bad).base.version ≤ s.start + s.gone := by
  rw [DiskState.base]
  cases hn : (s.readable bad).max? with
  | none =>
    rw [show (s.ds.damage bad).snapshotRetention = s.ds.snapshotRetention from rfl,
      h.latest_none (List.max?_eq_none_iff.1 hn)]
    exact ⟨rfl, Nat.zero_le _⟩
  | some n =>
    obtain ⟨t, i, hbest, hv, hkv⟩ := h.latest_some hn
    obtain ⟨j, -, -, hj⟩ := s.mem_readable.1 (List.max?_eq_some_iff.1 hn).1
    have := h.le_gone hj
    rw [show (s.ds.damage bad).snapshotRetention = s.ds.snapshotRetention from rfl, hbest]
    exact ⟨hkv, by show t.version ≤ _; omega⟩

/-- What is read from the log. -/
theorem readLog_eq (h : Archived s) (bad : ℕ → Bool) :
    (s.ds.damage bad).files.readLog = s.readTail := by
  rw [Files.readLog, show (s.ds.damage bad).files.wal = s.tail from h.wal, Archive.readTail]

/-- With entries that are read from the log, all of them are replayed on this state. -/
theorem load_of_tail (h : Archived s) (bad : ℕ → Bool) (htail : s.readTail ≠ []) :
    ∃ t, (s.ds.damage bad).load = .ok
      { term := t
        version := s.start + (s.gone + s.readTail.length)
        kv := replay (s.stateAfter ((s.readable bad).max?.getD 0)) s.readTail
        valid := true } := by
  obtain ⟨hkv, hle⟩ := h.base_kv bad
  have hread := h.readLog_eq bad
  obtain ⟨t, ht⟩ := @DiskState.load_eq (s.ds.damage bad) (s.start + s.gone)
    (by rw [hread]; exact (s.consecutive.take_drop s.gone h.gone_le).2.takeWhile _)
    fun hnil => absurd (hread.symm.trans hnil) htail
  refine ⟨t, ht.trans ?_⟩
  rw [hread, hkv, Nat.sub_eq_zero_of_le hle, List.drop_zero]
  congr 2
  omega

/-- With none, what is loaded is the newest snapshot that can be read. -/
theorem load_of_nil (h : Archived s) (htail : s.readTail = []) {res : DiskLoadResult}
    (hres : (s.ds.damage bad).load = .ok res) (hvalid : res.valid = true) :
    ∃ n, res.version = s.start + n ∧ res.kv = s.stateAfter n := by
  have hwal : (s.ds.damage bad).files.readLog = [] := (h.readLog_eq bad).trans htail
  have hretention : (s.ds.damage bad).snapshotRetention = s.ds.snapshotRetention := rfl
  rw [DiskState.load, hwal, hretention] at hres
  cases hn : (s.readable bad).max? with
  | none =>
    -- There is nothing to load.
    rw [h.latest_none (List.max?_eq_none_iff.1 hn)] at hres
    obtain rfl := Except.ok.inj hres
    cases hvalid
  | some n =>
    obtain ⟨t, i, hbest, hv, hkv⟩ := h.latest_some hn
    rw [hbest] at hres
    obtain rfl := Except.ok.inj hres
    exact ⟨n, hv, hkv⟩

end Archived

/-! ## Damage -/

namespace Archive

variable (s : Archive) (bad : ℕ → Bool)

/-- What is loaded after the files `bad` have been damaged, if it is valid, is the
    state of the history at its version. -/
def Faithful : Prop :=
  ∀ res, (s.ds.damage bad).load = .ok res → res.valid = true →
    res.kv = s.stateAfter (res.version - s.start)

/-- Every key that has changed between the newest snapshot that can be read and the
    newest of all is written again by an entry that is read from the log, if any is.
    Without a readable snapshot, the changes are those since the beginning. -/
def Overwritten : Prop :=
  s.readTail = [] ∨ ∀ key,
    (s.stateAfter ((s.readable bad).max?.getD 0)).lookup key ≠ (s.stateAfter s.gone).lookup key →
      ∃ e ∈ s.readTail, e.Writes key

/-- The history leads to what is read from the log from what the newest snapshot of all
    includes. -/
theorem stateAfter_readTail :
    s.stateAfter (s.gone + s.readTail.length) = replay (s.stateAfter s.gone) s.readTail := by
  have hread : s.tail.take s.readTail.length = s.readTail :=
    (List.prefix_iff_eq_take.1 ( List.takeWhile_prefix _)).symm
  rw [stateAfter, List.take_add, replay_append, ← tail, hread, stateAfter]

end Archive

/-- Three writes, with a snapshot after each of the first two; the last one is in the
    log. -/
def threeEntries (key : String) : List ArchiveAction :=
  [.append (.put 0 1 "a" "x"), .takeSnapshot 0 [], .append (.put 0 2 key "y"),
    .takeSnapshot 0 [], .append (.put 0 3 "a" "z")]

end Doki
