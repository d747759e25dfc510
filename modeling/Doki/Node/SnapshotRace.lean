import Doki.Disk.Durability
import Doki.Node.Write

/-!
# Snapshots and appends at the same time

After a write, the leader may take a snapshot, and empties the write-ahead log
(`leaderWrite`, `maybeSnapshot`). It holds `writeMu` then, but not the lock of the
replica: when it has been demoted meanwhile, entries of the new leader are
applied at the same time, by `Replicate` or by a recovery.

A `Race` is the state of such a replica. Its steps are the critical sections of
the two sides: an entry is logged, counted and stored; the contents of the store
are copied, the write counter is checked, the snapshot files are rotated, the
copy is saved under the version of the leader's own write, the log is emptied and
the counter reset. The file operations succeed; what failures do is the subject
of `Doki.Disk.Durability`.

* `exec_apply`, `exec_maybeSnapshot`: one side alone does what `apply` and
  `maybeSnapshot` do;
* `Race.intact_step`: what is on disk includes every entry applied, as long as no
  entry is logged while a snapshot is under way, or that the log cannot give back
  (`Race.Undisturbed`);
* `contained_of_undisturbed`: so it is in every run of such steps;
* `logged_entry_lost`: an entry that is logged between the copy and the emptying of the
  log is lost.
-/

namespace Doki

open Faulty Runs

namespace DiskState

variable (ds : DiskState)

/-- The entry is in the log. -/
def logEntry (e : Entry) : DiskState :=
  { ds with files := { ds.files with wal := ds.files.wal ++ [e] } }

/-- The write is counted. -/
def countWrite : DiskState := { ds with writesSinceSnapshot := ds.writesSinceSnapshot + 1 }

/-- The files after a program none of whose operations fails. -/
def run (p : Fs Unit) : DiskState := { ds with files := (p ds.files []).2.1 }

/-- The writes are counted from here. -/
def resetCount : DiskState := { ds with writesSinceSnapshot := 0 }

end DiskState

/-- The disk state of the replica changed by `f`. -/
def ReplicaState.onDisk (r : ReplicaState) (f : DiskState → DiskState) : ReplicaState :=
  { r with ds := r.ds.map f }

/-- An entry that is being applied, under the lock of the replica. -/
structure Applying where
  entry : Entry
  /-- The entry is a write of the leader itself. -/
  own : Bool
  counted : Bool

/-- How far the leader is with the snapshot after its write. -/
inductive Attempt
  | idle
  | committed (e : Entry)
  | copied (s : Snapshot)
  | due (s : Snapshot)
  | rotated (s : Snapshot)
  | saved (s : Snapshot)
  | truncated

/-- The leader is not busy with a write. -/
def Attempt.isIdle : Attempt → Bool
  | .idle => true
  | _ => false

/-- The write is done, and it is not checked yet whether a snapshot is due. -/
def Attempt.isOpen : Attempt → Bool
  | .committed _ | .copied _ => true
  | _ => false

/-- A snapshot is due, and its log is not emptied yet. -/
def Attempt.isDue : Attempt → Bool
  | .due _ | .rotated _ | .saved _ => true
  | _ => false

/-- A replica whose leader takes snapshots while entries are applied. -/
structure Race where
  replica : ReplicaState
  applying : Option Applying
  attempt : Attempt
  /-- The entries whose application has succeeded. -/
  acked : List Entry

/-- The critical sections of the two sides. The term of the replica may change at any
    time. -/
inductive RaceAction
  | log (own : Bool) (term : ℕ) (req : KVRequest)
  | count
  | store
  | copy
  | check
  | rotate
  | save
  | truncate
  | reset
  | observe (term : ℕ)

namespace Race

variable (s : Race)

/-- The entry of the next version. -/
def next (term : ℕ) (req : KVRequest) : Entry :=
  { term := term
    version := Counter.next s.replica.version
    op := req.op
    key := req.key
    value := req.value }

/-- A new replica with a new directory. -/
def init (shardID nodeID : String) (peers : List String) (logSize : ℤ)
    (snapshotInterval snapshotRetention : ℕ) (hi : 0 < snapshotInterval)
    (hr : 0 < snapshotRetention) : Race where
  replica := { newReplicaState shardID nodeID peers logSize with
    ds := some (.new snapshotInterval snapshotRetention hi hr) }
  applying := none
  attempt := .idle
  acked := []

/-- One critical section. -/
def step (s : Race) : RaceAction → Option Race
  | .log own term req =>
    -- The leader begins its next write after the snapshot of the last one.
    if s.applying.isNone ∧ s.replica.term ≤ term ∧ (own = true → s.attempt.isIdle = true) then
      some { s with
        replica := s.replica.onDisk (·.logEntry (s.next term req))
        applying := some ⟨s.next term req, own, false⟩ }
    else none
  | .count =>
    match s.applying with
    | some ⟨e, own, false⟩ =>
      some { s with
        replica := s.replica.onDisk (·.countWrite)
        applying := some ⟨e, own, true⟩ }
    | _ => none
  | .store =>
    match s.applying with
    | some ⟨e, own, true⟩ =>
      some { s with
        replica := s.replica.applied e
        applying := none
        attempt := if own then .committed e else s.attempt
        acked := s.acked ++ [e] }
    | _ => none
  | .copy =>
    match s.attempt with
    | .committed e =>
      -- The version is the one of the write, the contents are those of now.
      some { s with
        attempt := .copied { term := e.term, version := e.version, kv := s.replica.kv } }
    | _ => none
  | .check =>
    match s.attempt, s.replica.ds with
    | .copied x, some ds =>
      if ds.writesSinceSnapshot ≥ ds.snapshotInterval then some { s with attempt := .due x }
      else some { s with attempt := .idle }
    | _, _ => none
  | .rotate =>
    match s.attempt with
    | .due x =>
      some { s with
        replica := s.replica.onDisk fun ds => ds.run (rotateSnapshots ds.snapshotRetention)
        attempt := .rotated x }
    | _ => none
  | .save =>
    match s.attempt with
    | .rotated x =>
      some { s with
        replica := s.replica.onDisk fun ds => ds.run ((save x).mapError .saveSnapshot)
        attempt := .saved x }
    | _ => none
  | .truncate =>
    match s.attempt with
    | .saved _ =>
      some { s with
        replica := s.replica.onDisk fun ds => ds.run (truncateWAL (.truncateAfter "snapshot"))
        attempt := .truncated }
    | _ => none
  | .reset =>
    match s.attempt with
    | .truncated =>
      some { s with
        replica := s.replica.onDisk (·.resetCount)
        attempt := .idle }
    | _ => none
  | .observe term => some { s with replica := s.replica.observe term }

/-- The entries in the log and those that a snapshot has taken over from it. -/
def logged : List Entry := s.acked ++ s.applying.toList.map Applying.entry

/-- Every entry whose application has succeeded is in the state that `load` gives: it
    has the contents after these entries, and after no more than those that are
    being applied. -/
def Contained : Prop :=
  ∀ ds, s.replica.ds = some ds → s.acked ≠ [] →
    ∃ t more, ds.load = .ok
      { term := t
        version := (s.acked ++ more).length
        kv := replay ∅ (s.acked ++ more)
        valid := true }

/-- No snapshot is under way that the next entry could get in between: none is found
    due, and after a write for which this is not checked yet, the next entry does not
    make one due. -/
def Quiet : Prop :=
  s.attempt.isDue = false ∧ (s.attempt.isOpen = true →
    ∀ ds ∈ s.replica.ds, ds.writesSinceSnapshot + 1 < ds.snapshotInterval)

instance : Decidable s.Quiet := inferInstanceAs (Decidable (_ ∧ _))

/-- An entry is logged only while no snapshot is under way, on a line that can be read back,
    and before the last version. -/
def Undisturbed : RaceAction → Prop
  | .log _ term req =>
    s.Quiet ∧ (s.next term req).fits = true ∧ s.replica.version ≠ Counter.max
  | _ => True

instance (a : RaceAction) : Decidable (s.Undisturbed a) :=
  match a with
  | .log _ _ _ => inferInstanceAs (Decidable (_ ∧ _ ∧ _))
  | .count | .store | .copy | .check | .rotate | .save | .truncate | .reset | .observe _ =>
    .isTrue trivial

/-! ## What is on disk -/

/-- The latest snapshot in sight is the base snapshot. -/
def BaseLatest (retention : ℕ) (f : Files) : Prop :=
  ∀ t i, loadLatestSnapshot f.snaps retention = some (t, i) → i = 0

/-- The files hold the entries `es`. In the middle of an attempt, they are the files
    `g` from before it, rotated, and with the new snapshot. -/
def OnDisk (retention : ℕ) (es : List Entry) (f : Files) : Attempt → Prop
  | .rotated _ => ∃ g gone, Sound retention 0 es g gone ∧ BaseLatest retention g ∧
      Rotated retention g f
  | .saved x => ∃ g gone, Sound retention 0 es g gone ∧ Saved retention g x f ∧ f.wal = g.wal
  | _ => ∃ gone, Sound retention 0 es f gone ∧ BaseLatest retention f

/-- The snapshot `x` is the state after the entries `acked`, and no more are being
    applied. -/
structure Current (applying : Option Applying) (acked : List Entry) (x : Snapshot) : Prop where
  applying : applying = none
  version : x.version = acked.length
  kv : x.kv = replay ∅ acked

/-- The writes that are logged since the last snapshot do not make one due. -/
def NotDue (applying : Option Applying) (ds : DiskState) : Prop :=
  ds.writesSinceSnapshot + (applying.filter fun a => !a.counted).toList.length <
    ds.snapshotInterval

/-- What holds in the middle of an attempt: its snapshot is that of the current state,
    unless it is going to be found not due. -/
def OnTrack (applying : Option Applying) (acked : List Entry) (ds : DiskState) : Attempt → Prop
  | .idle | .truncated => True
  | .committed e => (applying = none ∧ e.version = acked.length) ∨ NotDue applying ds
  | .copied x => Current applying acked x ∨ NotDue applying ds
  | .due x | .rotated x | .saved x => Current applying acked x

/-- The invariant, for a replica with the disk state `ds`. -/
structure Intact (s : Race) (ds : DiskState) : Prop where
  disk : s.replica.ds = some ds
  consecutive : Consecutive 0 s.logged
  version : s.replica.version = s.acked.length
  kv : s.replica.kv = replay ∅ s.acked
  onDisk : OnDisk ds.snapshotRetention s.logged ds.files s.attempt
  onTrack : OnTrack s.applying s.acked ds s.attempt

variable {s} {t : Race} {ds : DiskState}

theorem logged_of_none (h : s.applying = none) : s.logged = s.acked := by
  rw [logged, h]
  exact List.append_nil _

theorem logged_of_some {a : Applying} (h : s.applying = some a) :
    s.logged = s.acked ++ [a.entry] := by
  rw [logged, h]
  rfl

/-- In every state of an attempt the files are sound. -/
theorem Intact.sound (h : s.Intact ds) :
    ∃ gone, Sound ds.snapshotRetention 0 s.logged ds.files gone := by
  have hdisk := h.onDisk
  have htrack := h.onTrack
  cases hattempt : s.attempt with
  | rotated x =>
    rw [hattempt] at hdisk
    obtain ⟨g, gone, hg, hbase, hrot⟩ := hdisk
    refine ⟨gone, ?_⟩
    rcases hrot with ⟨hr, hrot⟩ | ⟨hr, hrot⟩
    · refine hg.shifted hrot (by omega) (by omega) fun h => by omega
    · refine hg.shifted hrot (by omega) (fun _ => hr) fun _ t ht => ?_
      have := hbase t _ ht
      omega
  | saved x =>
    rw [hattempt] at hdisk htrack
    obtain ⟨g, gone, hg, hsaved, hwal⟩ := hdisk
    rw [logged_of_none htrack.applying] at hg ⊢
    refine ⟨gone, hg.saved ds.retention_pos hsaved ?_ htrack.kv hg.gone_le (hwal.trans hg.wal_eq)
      (hwal ▸ hg.fits)⟩
    rw [htrack.version, Nat.zero_add]
  | _ =>
    rw [hattempt] at hdisk
    obtain ⟨gone, hg, -⟩ := hdisk
    exact ⟨gone, hg⟩

theorem Intact.contained (h : s.Intact ds) : s.Contained := by
  intro ds' hds' hne
  obtain rfl : ds = ds' := Option.some.inj (h.disk.symm.trans hds')
  obtain ⟨gone, hsound⟩ := h.sound
  have hlogged : s.logged ≠ [] := fun hnil => hne (List.append_eq_nil_iff.1 hnil).1
  obtain ⟨t, ht⟩ := hsound.load h.consecutive hlogged
  exact ⟨t, s.applying.toList.map Applying.entry, by rw [ht, Nat.zero_add]; rfl⟩

/-! ## Steps -/

/-- Outside an attempt on the files, they are sound, and the base snapshot is the
    latest one. -/
theorem onDisk_iff {retention : ℕ} {es : List Entry} {f : Files} {a : Attempt}
    (hr : ∀ x, a ≠ .rotated x) (hs : ∀ x, a ≠ .saved x) :
    OnDisk retention es f a ↔ ∃ gone, Sound retention 0 es f gone ∧ BaseLatest retention f := by
  cases a with
  | rotated x => exact absurd rfl (hr x)
  | saved x => exact absurd rfl (hs x)
  | _ => exact Iff.rfl

theorem Intact.log (h : s.Intact ds) {own : Bool} {term : ℕ} {req : KVRequest}
    (hC : s.Undisturbed (.log own term req)) (hnone : s.applying = none) :
    Intact { s with
      replica := s.replica.onDisk (·.logEntry (s.next term req))
      applying := some ⟨s.next term req, own, false⟩ } (ds.logEntry (s.next term req)) := by
  have hlogged := logged_of_none hnone
  have hdisk := h.onDisk
  have hcons := h.consecutive
  rw [hlogged] at hdisk hcons
  obtain ⟨⟨hnotDue, hopen⟩, hfits, hmax⟩ := hC
  have hr : ∀ x, s.attempt ≠ .rotated x := fun x hx => by simp [hx, Attempt.isDue] at hnotDue
  have hs : ∀ x, s.attempt ≠ .saved x := fun x hx => by simp [hx, Attempt.isDue] at hnotDue
  refine ⟨?_, ?_, h.version, h.kv, ?_, ?_⟩
  · rw [ReplicaState.onDisk, h.disk]
    rfl
  · refine consecutive_append.2 ⟨hcons, ?_, trivial⟩
    rw [next, Counter.next_of_ne hmax, h.version, Nat.zero_add]
  · rw [onDisk_iff hr hs] at hdisk ⊢
    obtain ⟨gone, hsound, hbase⟩ := hdisk
    exact ⟨gone, hsound.append hfits, hbase⟩
  · cases hattempt : s.attempt with
    | idle | truncated => trivial
    | committed e => exact Or.inr (hopen (by rw [hattempt]; rfl) ds h.disk)
    | copied x => exact Or.inr (hopen (by rw [hattempt]; rfl) ds h.disk)
    | due x => simp [hattempt, Attempt.isDue] at hnotDue
    | rotated x => exact absurd hattempt (hr x)
    | saved x => exact absurd hattempt (hs x)

section Applying

variable {a : Applying} {acked acked' : List Entry} {applying : Option Applying}
  {attempt : Attempt} {ds' : DiskState}

/-- While an entry is being applied, the files are not in the middle of an attempt. -/
theorem OnTrack.ne_of_applying (h : OnTrack (some a) acked ds attempt) :
    (∀ x, attempt ≠ .rotated x) ∧ ∀ x, attempt ≠ .saved x := by
  constructor <;> (rintro x rfl; exact absurd h.applying (by simp))

/-- While an entry is being applied, an attempt is under way only if it is going to be
    found not due. -/
theorem OnTrack.of_applying (h : OnTrack (some a) acked ds attempt)
    (hdue : NotDue (some a) ds → NotDue applying ds') : OnTrack applying acked' ds' attempt := by
  cases attempt with
  | idle | truncated => trivial
  | committed e => exact Or.inr (hdue (h.resolve_left fun h => absurd h.1 (by simp)))
  | copied x => exact Or.inr (hdue (h.resolve_left fun h => absurd h.applying (by simp)))
  | due x | rotated x | saved x => exact absurd h.applying (by simp)

end Applying

theorem Intact.count (h : s.Intact ds) {e : Entry} {own : Bool}
    (happ : s.applying = some ⟨e, own, false⟩) :
    Intact { s with
      replica := s.replica.onDisk (·.countWrite)
      applying := some ⟨e, own, true⟩ } ds.countWrite := by
  have hlogged : s.logged = s.acked ++ [e] := logged_of_some happ
  have hdisk := h.onDisk
  have hcons := h.consecutive
  have htrack := h.onTrack
  rw [hlogged] at hdisk hcons
  rw [happ] at htrack
  refine ⟨?_, hcons, h.version, h.kv, hdisk, htrack.of_applying fun hdue => hdue⟩
  rw [ReplicaState.onDisk, h.disk]
  rfl

theorem Intact.store (h : s.Intact ds) {e : Entry} {own : Bool}
    (happ : s.applying = some ⟨e, own, true⟩) :
    Intact { s with
      replica := s.replica.applied e
      applying := none
      attempt := if own then .committed e else s.attempt
      acked := s.acked ++ [e] } ds := by
  have hlogged : s.logged = s.acked ++ [e] := logged_of_some happ
  have hcons := h.consecutive
  have hdisk := h.onDisk
  have htrack := h.onTrack
  rw [happ] at htrack
  obtain ⟨hr, hs⟩ := htrack.ne_of_applying
  rw [onDisk_iff hr hs] at hdisk
  rw [hlogged] at hdisk hcons
  have hversion : e.version = (s.acked ++ [e]).length := by
    have := (consecutive_append.1 hcons).2.1
    rw [List.length_append, List.length_singleton]
    omega
  refine ⟨h.disk, ?_, hversion, ?_, ?_, ?_⟩
  · rw [logged_of_none rfl]
    exact hcons
  · rw [replay_append, ← h.kv]
    rfl
  · rw [logged_of_none rfl]
    cases own with
    | true => exact hdisk
    | false => exact (onDisk_iff hr hs).2 hdisk
  · cases own with
    | true => exact Or.inl ⟨rfl, hversion⟩
    | false => exact htrack.of_applying fun hdue => hdue

theorem Intact.copy (h : s.Intact ds) {e : Entry} (hattempt : s.attempt = .committed e) :
    Intact { s with
      attempt := .copied { term := e.term, version := e.version, kv := s.replica.kv } } ds := by
  have hdisk := h.onDisk
  have htrack := h.onTrack
  rw [hattempt] at hdisk
  rw [hattempt] at htrack
  refine ⟨h.disk, h.consecutive, h.version, h.kv, hdisk, ?_⟩
  rcases htrack with ⟨hnone, hversion⟩ | hdue
  · exact Or.inl ⟨hnone, hversion, h.kv⟩
  · exact Or.inr hdue

theorem Intact.check (h : s.Intact ds) {x : Snapshot} (hattempt : s.attempt = .copied x) :
    Intact { s with
      attempt := if ds.writesSinceSnapshot ≥ ds.snapshotInterval then .due x else .idle } ds := by
  have hdisk := h.onDisk
  have htrack := h.onTrack
  rw [hattempt] at hdisk
  rw [hattempt] at htrack
  split_ifs with hge
  · refine ⟨h.disk, h.consecutive, h.version, h.kv, hdisk, ?_⟩
    rcases htrack with hcur | hdue
    · exact hcur
    · rw [NotDue] at hdue
      omega
  · exact ⟨h.disk, h.consecutive, h.version, h.kv, hdisk, trivial⟩

theorem Intact.rotate (h : s.Intact ds) {x : Snapshot} (hattempt : s.attempt = .due x) :
    Intact { s with
      replica := s.replica.onDisk fun ds => ds.run (rotateSnapshots ds.snapshotRetention)
      attempt := .rotated x } (ds.run (rotateSnapshots ds.snapshotRetention)) := by
  have hdisk := h.onDisk
  have htrack := h.onTrack
  rw [hattempt] at hdisk
  rw [hattempt] at htrack
  obtain ⟨gone, hsound, hbase⟩ := hdisk
  obtain ⟨_, f, hrun, hrot⟩ :=
    (rotateSnapshots_triple (f := ds.files) (s := x) ds.retention_pos).of_nil rfl
  refine ⟨?_, h.consecutive, h.version, h.kv, ⟨ds.files, gone, hsound, hbase, ?_⟩, htrack⟩
  · rw [ReplicaState.onDisk, h.disk]
    rfl
  · rw [DiskState.run, hrun]
    exact hrot

theorem Intact.save (h : s.Intact ds) {x : Snapshot} (hattempt : s.attempt = .rotated x) :
    Intact { s with
      replica := s.replica.onDisk fun ds => ds.run ((Doki.save x).mapError .saveSnapshot)
      attempt := .saved x } (ds.run ((Doki.save x).mapError .saveSnapshot)) := by
  have hdisk := h.onDisk
  have htrack := h.onTrack
  rw [hattempt] at hdisk
  rw [hattempt] at htrack
  obtain ⟨g, gone, hsound, -, hrot⟩ := hdisk
  obtain ⟨_, f, hrun, hwal, hsaved⟩ :=
    (save_triple (f := g) (s := x)).mapError (g := .saveSnapshot) |>.of_nil hrot
  refine ⟨?_, h.consecutive, h.version, h.kv, ⟨g, gone, hsound, ?_, ?_⟩, htrack⟩
  · rw [ReplicaState.onDisk, h.disk]
    rfl
  · rw [DiskState.run, hrun]
    exact hsaved
  · rw [DiskState.run, hrun]
    exact hwal

/-- A saved snapshot of the current state is the latest one. -/
theorem baseLatest_of_saved {retention gone : ℕ} {es : List Entry} {f g : Files} {x : Snapshot}
    (hsound : Sound retention 0 es f gone) (hg : g.snaps 0 = .snap x) (hr : 0 < retention)
    (habove : ∀ i, i + 1 < retention → g.snaps (i + 1) = f.snaps i)
    (hversion : x.version = es.length) : BaseLatest retention g := by
  intro t i ht
  obtain ⟨hi, hsnap, hlatest⟩ := loadLatestSnapshot_some ht
  cases i with
  | zero => rfl
  | succ i =>
    rw [habove i hi] at hsnap
    have hle := (hsound.version_le i (by omega) t hsnap).2
    have hlt := (hlatest 0 hr x hg).2 (Nat.succ_pos i)
    omega

theorem Intact.truncate (h : s.Intact ds) {x : Snapshot} (hattempt : s.attempt = .saved x) :
    Intact { s with
      replica := s.replica.onDisk fun ds => ds.run (truncateWAL (.truncateAfter "snapshot"))
      attempt := .truncated } (ds.run (truncateWAL (.truncateAfter "snapshot"))) := by
  have hdisk := h.onDisk
  have htrack := h.onTrack
  rw [hattempt] at hdisk
  rw [hattempt] at htrack
  obtain ⟨g, gone, hsound, hsaved, -⟩ := hdisk
  rw [logged_of_none htrack.applying] at hsound
  have hlogged : (Race.mk (s.replica.onDisk fun ds => ds.run
      (truncateWAL (.truncateAfter "snapshot"))) s.applying .truncated s.acked).logged = s.acked :=
    logged_of_none htrack.applying
  refine ⟨?_, h.consecutive, h.version, h.kv, ?_, trivial⟩
  · rw [ReplicaState.onDisk, h.disk]
    rfl
  · rw [hlogged]
    refine ⟨s.acked.length, hsound.saved ds.retention_pos ⟨hsaved.base, hsaved.above⟩ ?_ htrack.kv
      le_rfl (List.drop_length).symm (List.forall_mem_nil _), ?_⟩
    · rw [htrack.version, Nat.zero_add]
    · exact baseLatest_of_saved hsound hsaved.base ds.retention_pos hsaved.above htrack.version

theorem Intact.reset (h : s.Intact ds) (hattempt : s.attempt = .truncated) :
    Intact { s with replica := s.replica.onDisk (·.resetCount), attempt := .idle }
      ds.resetCount := by
  have hdisk := h.onDisk
  rw [hattempt] at hdisk
  refine ⟨?_, h.consecutive, h.version, h.kv, hdisk, trivial⟩
  rw [ReplicaState.onDisk, h.disk]
  rfl

theorem Intact.observe (h : s.Intact ds) (term : ℕ) :
    Intact { s with replica := s.replica.observe term } ds := by
  obtain ⟨role, hobs⟩ := s.replica.observe_eq term
  rw [hobs]
  exact ⟨h.disk, h.consecutive, h.version, h.kv, h.onDisk, h.onTrack⟩

/-- The invariant is kept by every undisturbed step. -/
theorem intact_step (s : Race) (a : RaceAction) (t : Race) (h : ∃ ds, s.Intact ds)
    (hC : s.Undisturbed a) (hstep : s.step a = some t) : ∃ ds, t.Intact ds := by
  obtain ⟨ds, h⟩ := h
  cases a with
  | log own term req =>
    obtain ⟨⟨hnone, -, -⟩, hstep⟩ := Option.ite_none_right_eq_some.1 hstep
    obtain rfl := Option.some.inj hstep
    exact ⟨_, h.log hC (Option.isNone_iff_eq_none.1 hnone)⟩
  | count =>
    simp only [step] at hstep
    split at hstep
    · obtain rfl := Option.some.inj hstep
      exact ⟨_, h.count ‹_›⟩
    · cases hstep
  | store =>
    simp only [step] at hstep
    split at hstep
    · obtain rfl := Option.some.inj hstep
      exact ⟨_, h.store ‹_›⟩
    · cases hstep
  | copy =>
    simp only [step] at hstep
    split at hstep
    · obtain rfl := Option.some.inj hstep
      exact ⟨_, h.copy ‹_›⟩
    · cases hstep
  | check =>
    simp only [step, h.disk] at hstep
    split at hstep
    · rename_i x ds' hattempt hds
      obtain rfl := Option.some.inj hds
      have hcheck := h.check hattempt
      split_ifs at hstep hcheck <;> (obtain rfl := Option.some.inj hstep; exact ⟨_, hcheck⟩)
    · cases hstep
  | rotate =>
    simp only [step] at hstep
    split at hstep
    · obtain rfl := Option.some.inj hstep
      exact ⟨_, h.rotate ‹_›⟩
    · cases hstep
  | save =>
    simp only [step] at hstep
    split at hstep
    · obtain rfl := Option.some.inj hstep
      exact ⟨_, h.save ‹_›⟩
    · cases hstep
  | truncate =>
    simp only [step] at hstep
    split at hstep
    · obtain rfl := Option.some.inj hstep
      exact ⟨_, h.truncate ‹_›⟩
    · cases hstep
  | reset =>
    simp only [step] at hstep
    split at hstep
    · obtain rfl := Option.some.inj hstep
      exact ⟨_, h.reset ‹_›⟩
    · cases hstep
  | observe term =>
    obtain rfl := Option.some.inj hstep
    exact ⟨_, h.observe term⟩

theorem intact_init (shardID nodeID : String) (peers : List String) (logSize : ℤ)
    {snapshotInterval snapshotRetention : ℕ} (hi : 0 < snapshotInterval)
    (hr : 0 < snapshotRetention) :
    ∃ ds,
      (init shardID nodeID peers logSize snapshotInterval snapshotRetention hi hr).Intact ds := by
  refine ⟨_, rfl, trivial, rfl, rfl, ⟨0, Sound.empty snapshotRetention 0, fun t i ht => ?_⟩,
    trivial⟩
  obtain ⟨-, hsnap, -⟩ := loadLatestSnapshot_some ht
  exact nomatch hsnap

/-! ## One side alone -/

/-- The three steps of an application, one after the other, do what `apply` does. -/
theorem exec_apply {own : Bool} {term : ℕ} {req : KVRequest}
    (h : exec step s [.log own term req, .count, .store] = some t) :
    s.replica.apply (s.next term req) .withWAL true = (t.replica, none) := by
  obtain ⟨u, hlog, h⟩ := exec_cons h
  obtain ⟨⟨-, hterm, -⟩, hlog⟩ := Option.ite_none_right_eq_some.1 hlog
  obtain rfl := Option.some.inj hlog
  obtain rfl := Option.some.inj h
  rw [ReplicaState.apply_next rfl hterm req.known]
  simp only [ReplicaState.logged, ReplicaState.onDisk, Option.map_map]
  rfl

/-- The steps of a snapshot that is due, one after the other, do what `maybeSnapshot`
    does. -/
theorem exec_maybeSnapshot {e : Entry} (hattempt : s.attempt = .committed e)
    (hds : s.replica.ds = some ds) (hdue : ds.writesSinceSnapshot ≥ ds.snapshotInterval) :
    exec step s [.copy, .check, .rotate, .save, .truncate, .reset] =
      some { s with replica := s.replica.maybeSnapshot e [], attempt := .idle } := by
  obtain ⟨replica, applying, attempt, acked⟩ := s
  simp only at hattempt hds
  subst hattempt
  let x : Snapshot := { term := e.term, version := e.version, kv := replica.kv }
  obtain ⟨_, f, hrotate, hrot⟩ :=
    (rotateSnapshots_triple (f := ds.files) (s := x) ds.retention_pos).of_nil rfl
  obtain ⟨_, g, hsave, -⟩ :=
    (save_triple (f := ds.files) (s := x)).mapError (g := .saveSnapshot) |>.of_nil hrot
  have hreplace : replaceSnapshot ds.snapshotRetention "snapshot" x ds.files [] =
      (.done (), { g with wal := [] }, []) := by
    change Prog.bind _ _ ds.files [] = _
    rw [Prog.bind, hrotate]
    change Prog.bind _ _ f [] = _
    rw [Prog.bind, hsave]
    rfl
  have hmaybe : (ds.maybeSnapshot x []).2 =
      { ds with files := { g with wal := [] }, writesSinceSnapshot := 0 } := by
    rw [DiskState.maybeSnapshot, if_pos hdue, DiskState.takeSnapshot, DiskState.replaceWith,
      hreplace]
  have hrun : (((ds.run (rotateSnapshots ds.snapshotRetention)).run
      ((Doki.save x).mapError .saveSnapshot)).run
        (truncateWAL (.truncateAfter "snapshot"))).resetCount = (ds.maybeSnapshot x []).2 := by
    simp only [DiskState.run, hrotate, hsave, hmaybe]
    rfl
  simp only [exec, step, Option.bind_some, hds, if_pos hdue, ReplicaState.onDisk, Option.map_some,
    ReplicaState.maybeSnapshot]
  exact congrArg (fun d => some (Race.mk { replica with ds := some d } applying .idle acked)) hrun

end Race

/-- A put of the value `"x"`. -/
def exampleReq (key : String) : KVRequest :=
  { op := .put, key := key, value := "x", known := Op.put_ne_unknown }

/-- The leader writes `"a"` and takes a snapshot, which is due after every write. -/
def snapshotRun : List RaceAction :=
  [.log true 1 (exampleReq "a"), .count, .store, .copy, .check, .rotate, .save, .truncate, .reset]

/-- An entry of the next leader after the snapshot. -/
def quietRun : List RaceAction :=
  snapshotRun ++ [.observe 2, .log false 2 (exampleReq "b"), .count, .store]

/-- The same entry while the snapshot is being saved. -/
def racingRun : List RaceAction :=
  snapshotRun.take 6 ++ [.observe 2, .log false 2 (exampleReq "b"), .count, .store] ++
    snapshotRun.drop 6

/-- The start of the two runs. -/
def raceStart : Race := .init "shard-0" "a" ["b"] 10 1 2 Nat.one_pos Nat.two_pos

/-- How many entries have been applied, and the version that is loaded. -/
def Race.versions (s : Race) : ℕ × Option ℕ :=
  (s.acked.length, s.replica.ds.bind fun ds => ds.load.toOption.map DiskLoadResult.version)

end Doki
