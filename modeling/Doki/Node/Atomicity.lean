import Doki.Disk.Remains
import Doki.Lib.Runs
import Doki.Node.Replica

/-!
# Failed operations of the state machine

An operation of the state machine that returns an error should have done nothing: the
memory is as before, and so is what a restart would find on disk, now and after the
operations that succeed later. Two of the operations' steps come too early for this.
An unknown operation is refused only after its entry has been written to the
write-ahead log; the entry takes up its version there, and the next entry of this
version is skipped by `load`. And a snapshot is installed in memory before the files
are replaced, which may fail.

* `Untouched`: what a failed call should leave, in memory and on disk;
* `DiskState.Superseded`: an entry in the log has no effect when the disk is at its version
  already, or when the log is not read that far
  (`AllOrNothing.superseded`, `DiskState.Superseded.load_eq`);
* `allOrNothing_iff`: the calls that leave everything as it was whenever they fail;
* `failed_apply_loses_entry`: calls that do not.
-/

namespace Doki

open Faulty Runs

/-! ## An entry more in the log -/

namespace DiskState

/-- The version has been reached by a snapshot in sight, or by an entry of the log. -/
def Reached (ds : DiskState) (version : ℕ) : Prop :=
  (∃ i < ds.snapshotRetention, ∃ s, ds.files.snaps i = .snap s ∧ version ≤ s.version) ∨
    ∃ x ∈ ds.files.wal, version ≤ x.version

/-- An entry at the end of the log has no effect there: what comes before it is not read to
    its end or refused, or else it is short enough to be read, nothing in the log is after
    it, and its version has been reached. -/
def Superseded (ds : DiskState) (e : Entry) : Prop :=
  (∀ x ∈ ds.files.wal, x.fits = true) → Ordered ds.files.wal →
    e.fits = true ∧ (∀ x ∈ ds.files.wal, x.version ≤ e.version) ∧ ds.Reached e.version

variable {ds : DiskState}

theorem best_eq (ds : DiskState) :
    ds.best = (loadLatestSnapshot ds.files.snaps ds.snapshotRetention).map Prod.fst :=
  (map_loadLatestSnapshot _ _).symm

/-- A version that is reached is not past the one that the log leads to. -/
theorem reached_iff {v : ℕ} :
    ds.Reached v ↔ ¬(ds.best.isNone ∧ ds.files.wal = []) ∧
      v ≤ (replayed ds.best ds.files.wal).version := by
  rw [Reached, replayed, le_version_foldl_replayStep, best_eq]
  cases hbest : loadLatestSnapshot ds.files.snaps ds.snapshotRetention with
  | none =>
    have hsnap : ¬∃ i < ds.snapshotRetention, ∃ s, ds.files.snaps i = .snap s ∧ v ≤ s.version := by
      rintro ⟨i, hi, s, hs, -⟩
      exact loadLatestSnapshot_none hbest i hi s hs
    rw [or_iff_right hsnap]
    constructor
    · rintro ⟨x, hx, hle⟩
      exact ⟨fun h => List.ne_nil_of_mem hx h.2, .inr ⟨x, hx, hle⟩⟩
    · rintro ⟨hne, hzero | hx⟩
      · obtain ⟨x, hx⟩ := List.exists_mem_of_ne_nil _ fun hnil => hne ⟨rfl, hnil⟩
        exact ⟨x, hx, (Nat.le_zero.1 hzero).trans_le (Nat.zero_le _)⟩
      · exact hx
  | some best =>
    obtain ⟨b, j⟩ := best
    obtain ⟨hj, hb, hlatest⟩ := loadLatestSnapshot_some hbest
    rw [and_iff_right (by simp)]
    refine or_congr_left ⟨?_, fun h => ⟨j, hj, b, hb, h⟩⟩
    rintro ⟨i, hi, s, hs, h⟩
    exact h.trans (hlatest i hi s hs).1

/-- An entry that changes nothing of what is loaded from a log that is not refused has no
    version before others, and one that has been reached. -/
theorem reached_of_loadedState {e : Entry} (hwal : Ordered ds.files.wal)
    (h : loadedState ds.best (ds.files.wal ++ [e]) = loadedState ds.best ds.files.wal) :
    (∀ x ∈ ds.files.wal, x.version ≤ e.version) ∧ ds.Reached e.version := by
  have hordered : Ordered (ds.files.wal ++ [e]) := by
    by_contra hnot
    rw [loadedState_of_not_ordered _ hnot] at h
    exact absurd (loadedState_isSome ds.best hwal) (by simp [← h])
  refine ⟨fun x hx => (List.pairwise_append.1 hordered).2.2 x hx e List.mem_cons_self, ?_⟩
  rw [loadedState_of_ordered hordered (by simp)] at h
  have hfresh : ¬(ds.best.isNone ∧ ds.files.wal = []) := by
    intro hfresh
    rw [loadedState, loadFrom, if_pos hfresh, Except.toOption] at h
    simp at h
  rw [loadedState_of_ordered hwal hfresh, Option.some.injEq, DiskLoadResult.mk.injEq,
    replayed_append, List.foldl_cons, List.foldl_nil, version_replayStep] at h
  exact reached_iff.2 ⟨hfresh, max_eq_left_iff.1 h.2.1⟩

/-- An entry whose version has been reached changes nothing, also not when others are
    appended, the first of them with its version. -/
theorem Reached.loadedState_eq {e : Entry} (hwal : Ordered ds.files.wal)
    (hle : ∀ x ∈ ds.files.wal, x.version ≤ e.version) (h : ds.Reached e.version)
    {es : List Entry} (hes : ∀ x ∈ es.head?, x.version = e.version) :
    loadedState ds.best (ds.files.wal ++ e :: es) = loadedState ds.best (ds.files.wal ++ es) := by
  obtain ⟨hfresh, hreached⟩ := reached_iff.1 h
  have hskip : replayed ds.best (ds.files.wal ++ e :: es) =
      replayed ds.best (ds.files.wal ++ es) := by
    rw [replayed_append, List.foldl_cons, replayStep, if_pos hreached, replayed_append]
  -- The others are in order with the entry exactly if they are without it.
  have hordered : Ordered (ds.files.wal ++ e :: es) ↔ Ordered (ds.files.wal ++ es) := by
    constructor
    · exact fun h => h.sublist ((List.sublist_cons_self e es).append_left _)
    · intro h
      obtain ⟨-, hes', hwes⟩ := List.pairwise_append.1 h
      have hge : ∀ x ∈ es, e.version ≤ x.version := by
        cases es with
        | nil => simp
        | cons y es =>
          have hy : y.version = e.version := hes y rfl
          rw [← hy]
          exact List.forall_mem_cons.2 ⟨le_rfl, (List.pairwise_cons.1 hes').1⟩
      refine List.pairwise_append.2 ⟨hwal, List.pairwise_cons.2 ⟨hge, hes'⟩, fun x hx y hy => ?_⟩
      rcases List.mem_cons.1 hy with rfl | hy
      · exact hle x hx
      · exact hwes x hx y hy
  by_cases h : Ordered (ds.files.wal ++ es)
  · rw [loadedState_of_ordered (hordered.2 h) (by simp), loadedState_of_ordered h fun hn =>
      hfresh ⟨hn.1, (List.append_eq_nil_iff.1 hn.2).1⟩, hskip]
  · rw [loadedState_of_not_ordered _ h, loadedState_of_not_ordered _ (mt hordered.1 h)]

end DiskState

/-! ## What a failed call should leave -/

namespace ReplicaState

/-- What a restart would load, if there is a disk state, and if its log is not refused. -/
def load (r : ReplicaState) : Option (Option DiskLoadResult) := r.ds.map fun ds => ds.load.toOption

/-- A successful application of an entry. -/
def applyNext (r : ReplicaState) (e : Entry) : Option ReplicaState :=
  if (r.apply e .withWAL true).2 = none then some (r.apply e .withWAL true).1 else none

end ReplicaState

/-- The replica `r'` is as good as `r`: it has the same memory, and a restart, now or after any
    entries that are applied successfully, would load the same. -/
structure Untouched (r r' : ReplicaState) : Prop where
  term : r'.term = r.term
  version : r'.version = r.version
  kv : r'.kv = r.kv
  repLog : r'.repLog = r.repLog
  load : ∀ es : List Entry, (exec ReplicaState.applyNext r' es).map ReplicaState.load =
    (exec ReplicaState.applyNext r es).map ReplicaState.load

/-- The entries can be applied to a replica at this version and in this term. -/
def Applicable : ℕ → ℕ → List Entry → Prop
  | _, _, [] => True
  | version, term, e :: es =>
    e.version = Counter.next version ∧ term ≤ e.term ∧ e.op ≠ .unknown ∧
      Applicable e.version e.term es

theorem Applicable.head? {version term : ℕ} {es : List Entry} (h : Applicable version term es) :
    ∀ x ∈ es.head?, x.version = Counter.next version := by
  cases es with
  | nil => simp
  | cons e es => simpa using h.1

theorem Applicable.takeWhile {version term : ℕ} {es : List Entry} (h : Applicable version term es)
    (p : Entry → Bool) : Applicable version term (es.takeWhile p) := by
  induction es generalizing version term with
  | nil => trivial
  | cons e es ih =>
    obtain ⟨hversion, hterm, hop, hes⟩ := h
    rw [List.takeWhile_cons]
    split_ifs
    · exact ⟨hversion, hterm, hop, ih hes⟩
    · trivial

/-! Versions do not increase for ever: after the last one comes 0, and `load` refuses a log
in which it does. -/

/-- The shortest entry. -/
theorem fits_put_empty {term version : ℕ} (hterm : term ≤ Counter.max)
    (hversion : version ≤ Counter.max) : (Entry.put term version "" "").fits = true := by
  have hdigits : ∀ n ≤ Counter.max, (Nat.toDigits 10 n).length ≤ 20 := fun n hn =>
    (Nat.length_toDigits_le_iff (by decide) (by decide)).2 (hn.trans_lt (by decide))
  have hlen : (Wal.walEntryFrom (.put term version "" "")).lineLength =
      33 + (Nat.toDigits 10 term).length + (Nat.toDigits 10 version).length + 5 + 2 + 0 := by
    have hput : Json.quotedWidth "put" = 5 := by decide
    have hempty : Json.quotedWidth "" = 2 := by decide
    simp only [Wal.Entry.lineLength, Wal.walEntryFrom, Entry.put, Wal.opName, hput, hempty, if_true]
  have := hdigits term hterm
  have := hdigits version hversion
  rw [Entry.fits, decide_eq_true_eq, hlen, Wal.maxScanTokenSize]
  omega

/-- From a version before the last one, entries can be applied until the version starts
    again from 0. -/
theorem exists_applicable_of_add {term : ℕ} (hterm : term ≤ Counter.max) {k : ℕ} :
    ∀ version : ℕ, version + (k + 1) = Counter.max → ∃ es, Applicable version term es ∧
      (∀ e ∈ es, e.fits = true) ∧ ¬Ordered es := by
  induction k with
  | zero =>
    intro version hversion
    have hnext : Counter.next version = Counter.max := by
      rw [Counter.next_of_ne (by omega), ← hversion]
    refine ⟨[.put term Counter.max "" "", .put term 0 "" ""],
      ⟨hnext.symm, le_rfl, by simp [Entry.put], rfl, le_rfl, by simp [Entry.put], trivial⟩, ?_,
      fun h => ?_⟩
    · exact List.forall_mem_cons.2 ⟨fits_put_empty hterm le_rfl,
        List.forall_mem_singleton.2 (fits_put_empty hterm (Nat.zero_le _))⟩
    · have hle : Counter.max ≤ 0 := (List.pairwise_cons.1 h).1 _ List.mem_cons_self
      exact absurd hle (by decide)
  | succ k ih =>
    intro version hversion
    have hnext : Counter.next version = version + 1 := Counter.next_of_ne (by omega)
    obtain ⟨es, hes, hfits, hordered⟩ := ih (version + 1) (by omega)
    refine ⟨.put term (version + 1) "" "" :: es, ⟨hnext.symm, le_rfl, by simp [Entry.put], hes⟩, ?_,
      fun h => hordered (List.pairwise_cons.1 h).2⟩
    exact List.forall_mem_cons.2 ⟨fits_put_empty hterm (by omega), hfits⟩

theorem exists_applicable {version term : ℕ} (hversion : version ≤ Counter.max)
    (hterm : term ≤ Counter.max) : ∃ es, Applicable version term es ∧
      (∀ e ∈ es, e.fits = true) ∧ ¬Ordered es := by
  rcases hversion.lt_or_eq with hlt | rfl
  · exact exists_applicable_of_add hterm (k := Counter.max - version - 1) version (by omega)
  · -- The first entry is of version 0, and the others follow as before.
    obtain ⟨es, hes, hfits, hordered⟩ :=
      exists_applicable_of_add hterm (k := Counter.max - 1) 0 (by decide)
    exact ⟨.put term 0 "" "" :: es, ⟨rfl, le_rfl, by simp [Entry.put], hes⟩,
      List.forall_mem_cons.2 ⟨fits_put_empty hterm (Nat.zero_le _), hfits⟩,
      fun h => hordered (List.pairwise_cons.1 h).2⟩

/-! Entries that are applied are logged. -/

variable {r r' : ReplicaState}

/-- The entries that are applied are those that can be, and they are all logged. -/
theorem exec_applyNext (r : ReplicaState) (es : List Entry) :
    (Applicable r.version r.term es →
      ∃ u, exec ReplicaState.applyNext r es = some u ∧
        u.ds = r.ds.map fun ds => es.foldl DiskState.appendWAL ds) ∧
      (¬Applicable r.version r.term es → exec ReplicaState.applyNext r es = none) := by
  induction es generalizing r with
  | nil => exact ⟨fun _ => ⟨r, rfl, by simp⟩, fun h => (h trivial).elim⟩
  | cons e es ih =>
    by_cases hnext : e.version = Counter.next r.version ∧ r.term ≤ e.term ∧ e.op ≠ .unknown
    · obtain ⟨hversion, hterm, hop⟩ := hnext
      have happly := ReplicaState.apply_next hversion hterm hop .withWAL
      have hstep : r.applyNext e = some ((r.logged e .withWAL).applied e) := by
        rw [ReplicaState.applyNext, happly]
        rfl
      obtain ⟨hsome, hnone⟩ := ih ((r.logged e .withWAL).applied e)
      constructor
      · intro h
        obtain ⟨u, hu, hds⟩ := hsome h.2.2.2
        refine ⟨u, by rw [exec, hstep]; exact hu, hds.trans ?_⟩
        show (r.ds.map _).map _ = _
        rw [Option.map_map]
        rfl
      · intro h
        rw [exec, hstep]
        exact hnone fun hes => h ⟨hversion, hterm, hop, hes⟩
    · have hstep : r.applyNext e = none := by
        rw [ReplicaState.applyNext, if_neg]
        intro hok
        obtain ⟨hversion, hterm, hop, -⟩ := ReplicaState.apply_ok (Prod.ext rfl hok)
        exact hnext ⟨hversion, hterm, hop⟩
      exact ⟨fun h => (hnext ⟨h.1, h.2.1, h.2.2.1⟩).elim, fun _ => by rw [exec, hstep]; rfl⟩

/-- It is enough to compare the disks, for the entries that can be applied. -/
theorem Untouched.of_load (hterm : r'.term = r.term) (hversion : r'.version = r.version)
    (hkv : r'.kv = r.kv) (hlog : r'.repLog = r.repLog)
    (hload : ∀ es, Applicable r.version r.term es →
      (r'.ds.map fun ds => (es.foldl DiskState.appendWAL ds).load.toOption) =
        r.ds.map fun ds => (es.foldl DiskState.appendWAL ds).load.toOption) : Untouched r r' where
  term := hterm
  version := hversion
  kv := hkv
  repLog := hlog
  load es := by
    by_cases h : Applicable r.version r.term es
    · obtain ⟨u, hu, hds⟩ := (exec_applyNext r es).1 h
      obtain ⟨u', hu', hds'⟩ := (exec_applyNext r' es).1 (by rwa [hversion, hterm])
      have := hload es h
      rw [hu, hu', Option.map_some, Option.map_some, ReplicaState.load, ReplicaState.load, hds,
        hds', Option.map_map, Option.map_map]
      exact congrArg some this
    · rw [(exec_applyNext r es).2 h, (exec_applyNext r' es).2 (by rwa [hversion, hterm])]

theorem Untouched.refl (r : ReplicaState) : Untouched r r := ⟨rfl, rfl, rfl, rfl, fun _ => rfl⟩

/-- What would be loaded at once. -/
theorem Untouched.load_eq (h : Untouched r r') : r'.load = r.load := Option.some.inj (h.load [])

/-- What would be loaded after entries that can be applied. -/
theorem Untouched.load_applied (h : Untouched r r') {es : List Entry}
    (hes : Applicable r.version r.term es) :
    (r'.ds.map fun ds => (es.foldl DiskState.appendWAL ds).load.toOption) =
      r.ds.map fun ds => (es.foldl DiskState.appendWAL ds).load.toOption := by
  obtain ⟨u, hu, hds⟩ := (exec_applyNext r es).1 hes
  obtain ⟨u', hu', hds'⟩ := (exec_applyNext r' es).1 (by rwa [h.version, h.term])
  have hload := h.load es
  rw [hu, hu', Option.map_some, Option.map_some, Option.some.injEq, ReplicaState.load,
    ReplicaState.load, hds, hds', Option.map_map, Option.map_map] at hload
  exact hload

/-! ## The calls -/

/-- The operations of the state machine that write to the disk. -/
inductive MachineCall
  | apply (e : Entry)
  | applySnapshot (s : Snapshot)

/-- However the disk behaves, the call leaves everything as it was if it returns an
    error. -/
def AllOrNothing (r : ReplicaState) : MachineCall → Prop
  | .apply e => ∀ walOk r' err, r.apply e .withWAL walOk = (r', some err) → Untouched r r'
  | .applySnapshot s =>
    ∀ fates r' err, r.applySnapshot s .persist fates = (.error err, r') → Untouched r r'

/-- The calls that cannot do harm. An entry of an unknown operation that gets as far as
    the log has to be superseded there. A snapshot has to be of the current state, with
    nothing in the replication log, and to make no difference to where the log leads. -/
def Harmless (r : ReplicaState) : MachineCall → Prop
  | .apply e => e.version = Counter.next r.version → r.term ≤ e.term → e.op = .unknown →
    ∀ ds ∈ r.ds, ds.Superseded e
  | .applySnapshot s => ∀ ds ∈ r.ds, s = r.snapshot ∧ r.repLog.entries = [] ∧ ds.Indifferent s

/-- How an application fails: before anything is done, or with an unknown operation in
    the log. -/
theorem ReplicaState.apply_error_cases {e : Entry} {walOk : Bool} {err : ApplyError}
    (h : r.apply e .withWAL walOk = (r', some err)) :
    r' = r ∨ (e.version = Counter.next r.version ∧ r.term ≤ e.term ∧ e.op = .unknown ∧
      r' = r.logged e .withWAL) := by
  rw [apply] at h
  split_ifs at h with hversion hterm hwal hop
  · exact .inl (Prod.mk.inj h).1.symm
  · exact .inl (Prod.mk.inj h).1.symm
  · exact .inl (Prod.mk.inj h).1.symm
  · exact .inr ⟨not_not.1 hversion, not_lt.1 hterm, hop, (Prod.mk.inj h).1.symm⟩
  · exact absurd (Prod.mk.inj h).2 (by simp)

/-- What is loaded with the entry in the log, and with others after it. -/
theorem DiskState.load_logged (ds : DiskState) (e : Entry) (es : List Entry) :
    (es.foldl appendWAL (ds.appendWAL e)).load.toOption =
      loadedState ds.best ((ds.files.wal ++ e :: es).takeWhile Entry.fits) := by
  rw [← List.foldl_cons, ds.load_foldl_appendWAL]
  rfl

/-- An entry of an unknown operation that makes no difference is superseded. -/
theorem AllOrNothing.superseded {e : Entry} (h : AllOrNothing r (.apply e))
    (hr : r.term ≤ Counter.max ∧ r.version ≤ Counter.max)
    (hversion : e.version = Counter.next r.version) (hterm : r.term ≤ e.term)
    (hop : e.op = .unknown) {ds : DiskState} (hds : r.ds = some ds) : ds.Superseded e := by
  intro hfits hwal
  have happly : r.apply e .withWAL true = (r.logged e .withWAL, some .unknownOp) := by
    rw [ReplicaState.apply, if_neg (not_not.2 hversion), if_neg (not_lt.2 hterm),
      if_neg (by simp), if_pos hop]
  have hload : ∀ es, Applicable r.version r.term es →
      loadedState ds.best ((ds.files.wal ++ e :: es).takeWhile Entry.fits) =
        loadedState ds.best (ds.files.wal ++ es.takeWhile Entry.fits) := by
    intro es hes
    have hload := (h true _ _ happly).load_applied hes
    rw [ReplicaState.logged, hds] at hload
    rw [← ds.load_logged, ← List.takeWhile_append_of_pos hfits]
    exact (Option.some.inj hload).trans (congrArg Except.toOption (ds.load_foldl_appendWAL es))
  have hefits : e.fits = true := by
    -- Behind an entry that is too long, it is not noticed that the log is to be refused.
    by_contra hlong
    obtain ⟨es, hes, hesfits, hordered⟩ := exists_applicable hr.2 hr.1
    have hload := hload es hes
    rw [List.takeWhile_append_of_pos hfits, List.takeWhile_cons_of_neg hlong, List.append_nil,
      List.takeWhile_eq_self_iff.2 hesfits,
      loadedState_of_not_ordered _ fun hall => hordered (List.pairwise_append.1 hall).2.1] at hload
    exact absurd (loadedState_isSome ds.best hwal) (by simp [hload])
  refine ⟨hefits, DiskState.reached_of_loadedState hwal ?_⟩
  have hload := hload [] trivial
  rwa [List.takeWhile_append_of_pos hfits, List.takeWhile_cons_of_pos hefits, List.takeWhile_nil,
    List.append_nil] at hload

/-- An entry that is superseded makes no difference to what is loaded. -/
theorem DiskState.Superseded.load_eq {ds : DiskState} {e : Entry} (h : ds.Superseded e)
    {version term : ℕ} (he : e.version = Counter.next version) {es : List Entry}
    (hes : Applicable version term es) :
    loadedState ds.best ((ds.files.wal ++ e :: es).takeWhile Entry.fits) =
      loadedState ds.best ((ds.files.wal ++ es).takeWhile Entry.fits) := by
  by_cases hfits : ∀ x ∈ ds.files.wal, x.fits = true
  · rw [List.takeWhile_append_of_pos hfits, List.takeWhile_append_of_pos hfits]
    by_cases hwal : Ordered ds.files.wal
    · obtain ⟨hefits, hle, hreached⟩ := h hfits hwal
      rw [List.takeWhile_cons_of_pos hefits]
      exact hreached.loadedState_eq hwal hle fun x hx =>
        ((hes.takeWhile _).head? x hx).trans he.symm
    · rw [loadedState_of_not_ordered _ fun hall => hwal (List.pairwise_append.1 hall).1,
        loadedState_of_not_ordered _ fun hall => hwal (List.pairwise_append.1 hall).1]
  · rw [takeWhile_append_of_long hfits, takeWhile_append_of_long hfits]

theorem allOrNothing_apply_iff (hr : r.term ≤ Counter.max ∧ r.version ≤ Counter.max) (e : Entry) :
    AllOrNothing r (.apply e) ↔ Harmless r (.apply e) := by
  constructor
  · exact fun h hversion hterm hop ds hds => h.superseded hr hversion hterm hop hds
  · intro h walOk r' err herr
    rcases ReplicaState.apply_error_cases herr with rfl | ⟨hversion, hterm, hop, rfl⟩
    · exact .refl r'
    · refine .of_load rfl rfl rfl rfl fun es hes => ?_
      rw [ReplicaState.logged]
      cases hds : r.ds with
      | none => rfl
      | some ds =>
        simp only [Option.map_some, Option.some.injEq]
        rw [ds.load_logged, (h hversion hterm hop ds hds).load_eq hversion hes,
          ds.load_foldl_appendWAL]
        rfl

theorem ReplicaState.applySnapshot_of_ds {ds : DiskState} (hds : r.ds = some ds) (s : Snapshot)
    (fates : List Fate) :
    r.applySnapshot s .persist fates =
      ((ds.resetSnapshot s fates).1,
        { r.installed s with ds := some (ds.resetSnapshot s fates).2 }) := by
  simp only [applySnapshot, hds]

theorem allOrNothing_applySnapshot_iff (r : ReplicaState) (s : Snapshot) :
    AllOrNothing r (.applySnapshot s) ↔ Harmless r (.applySnapshot s) := by
  constructor
  · intro h ds hds
    have hfail : ∀ fates err ds', ds.resetSnapshot s fates = (.error err, ds') →
        Untouched r { r.installed s with ds := some ds' } := fun fates err ds' hds' =>
      h fates _ err (by rw [ReplicaState.applySnapshot_of_ds hds, hds'])
    -- There is a way to fail, and the memory has changed by then.
    obtain ⟨fates, err, g, hg, -⟩ := exists_rotated "reset" ds.retention_pos ds.files s
    have hmem := hfail fates err _ (DiskState.replaceWith_error hg)
    refine ⟨?_, congrArg Log.entries hmem.repLog.symm, ?_⟩
    · obtain ⟨term, version, kv⟩ := s
      rw [ReplicaState.snapshot, ← hmem.term, ← hmem.version, ← hmem.kv]
      rfl
    · refine DiskState.indifferent_of_load "reset" fun fates err ds' hds' => ?_
      have hload := (hfail fates err ds' hds').load_eq
      rw [ReplicaState.load, ReplicaState.load, Option.mem_def.1 hds] at hload
      exact Option.some.inj hload
  · intro h fates r' err herr
    cases hds : r.ds with
    | none =>
      simp only [ReplicaState.applySnapshot, hds] at herr
      exact absurd (Prod.mk.inj herr).1 (by simp)
    | some ds =>
      obtain ⟨rfl, hlog, hdisk⟩ := h ds hds
      rw [ReplicaState.applySnapshot_of_ds hds] at herr
      obtain ⟨hout, rfl⟩ := Prod.mk.inj herr
      refine .of_load rfl rfl rfl ?_ fun es _ => ?_
      · show r.repLog.reset = r.repLog
        rw [Log.reset, ← hlog]
      · rw [hds]
        exact congrArg (fun l => some (Except.toOption l)) (hdisk.load_eq (Prod.ext hout rfl) es)

/-- A new replica with a disk state. -/
def replicaOnDisk : ReplicaState :=
  { newReplicaState "s" "a" ["b"] 0 with
    ds := some (.new 2 2 Nat.zero_lt_two Nat.zero_lt_two) }

/-- An entry of an unknown operation. -/
def unknownEntry : Entry := { term := 1, version := 1, op := .unknown, key := "a", value := "x" }

end Doki
