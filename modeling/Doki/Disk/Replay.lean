import Doki.Disk.State

/-!
# What the log makes of a snapshot

`load` starts from the snapshot that it has picked and replays the log on it
(`loadFrom`), unless the versions of the log decrease (`Ordered`). When another snapshot
is picked, the log may make up for the difference: it does if the two lead to the same
version, the same term and the same store.

* `pending`: the entries of a log that are replayed from a version on;
* `SameState`: two snapshots from which a log leads to the same state, in terms of their
  versions and terms and of the keys at which they differ;
* `loadFrom_eq_iff`: this is when the same is loaded from them;
* `loadFrom_append`: and then it is, too, from any longer log.
-/

namespace Doki

/-- The versions of the entries do not decrease. -/
abbrev Ordered (es : List Entry) : Prop := es.Pairwise fun a b => a.version ≤ b.version

theorem version_replayStep (s : Snapshot) (e : Entry) :
    (replayStep s e).version = max s.version e.version := by
  rw [replayStep]
  split_ifs with h
  · exact (max_eq_left h).symm
  · exact (max_eq_right (not_le.1 h).le).symm

theorem le_version_foldl_replayStep {v : ℕ} {s : Snapshot} {es : List Entry} :
    v ≤ (es.foldl replayStep s).version ↔ v ≤ s.version ∨ ∃ x ∈ es, v ≤ x.version := by
  induction es generalizing s with
  | nil => simp
  | cons e es ih =>
    rw [List.foldl_cons, ih, version_replayStep, le_max_iff, or_assoc]
    simp only [List.mem_cons, exists_eq_or_imp]

/-! ## The entries that are replayed -/

/-- The entries of a log that are replayed from `version` on: those that are each after
    all before them. -/
def pending (version : ℕ) : List Entry → List Entry
  | [] => []
  | e :: es => if e.version ≤ version then pending version es else e :: pending e.version es

/-- The newest of the term `term` and of those of the entries. -/
def newestTerm (term : ℕ) (es : List Entry) : ℕ := es.foldl (fun t e => max t e.term) term

theorem newestTerm_append (term : ℕ) (es fs : List Entry) :
    newestTerm term (es ++ fs) = newestTerm (newestTerm term es) fs := List.foldl_append

theorem le_newestTerm {t term : ℕ} {es : List Entry} :
    t ≤ newestTerm term es ↔ t ≤ term ∨ ∃ x ∈ es, t ≤ x.term := by
  induction es generalizing term with
  | nil => simp [newestTerm]
  | cons e es ih =>
    rw [newestTerm, List.foldl_cons, ← newestTerm, ih, le_max_iff, or_assoc]
    simp only [List.mem_cons, exists_eq_or_imp]

/-- Two terms are made the same by the entries that are at least as new as either. -/
theorem newestTerm_eq_iff {t u : ℕ} {es : List Entry} :
    newestTerm t es = newestTerm u es ↔
      (t ≤ u ∨ ∃ x ∈ es, t ≤ x.term) ∧ (u ≤ t ∨ ∃ x ∈ es, u ≤ x.term) := by
  rw [← le_newestTerm, ← le_newestTerm]
  constructor
  · intro h
    exact ⟨h ▸ le_newestTerm.2 (.inl le_rfl), h ▸ le_newestTerm.2 (.inl le_rfl)⟩
  · rintro ⟨ht, hu⟩
    have hle : ∀ {a b : ℕ}, a ≤ newestTerm b es → newestTerm a es ≤ newestTerm b es := by
      intro a b hab
      rcases le_newestTerm.1 (le_refl (newestTerm a es)) with h | ⟨x, hx, h⟩
      · exact h.trans hab
      · exact h.trans (le_newestTerm.2 (.inr ⟨x, hx, le_rfl⟩))
    exact le_antisymm (hle ht) (hle hu)

/-- What the replay makes of the term and of the store. -/
theorem foldl_replayStep_eq (s : Snapshot) (es : List Entry) :
    (es.foldl replayStep s).term = newestTerm s.term (pending s.version es) ∧
      (es.foldl replayStep s).kv = replay s.kv (pending s.version es) := by
  induction es generalizing s with
  | nil => exact ⟨rfl, rfl⟩
  | cons e es ih =>
    rw [List.foldl_cons, replayStep, pending]
    split_ifs with hle
    · exact ih s
    · exact ih { term := max s.term e.term, version := e.version, kv := applyOp s.kv e }

theorem le_of_mem_pending {version v : ℕ} {es : List Entry} (h : ∀ x ∈ es, v ≤ x.version)
    {x : Entry} (hx : x ∈ pending version es) : v ≤ x.version := by
  induction es generalizing version with
  | nil => cases hx
  | cons e es ih =>
    have hes := fun y hy => h y (List.mem_cons_of_mem e hy)
    rw [pending] at hx
    split_ifs at hx
    · exact ih hes hx
    · rcases List.mem_cons.1 hx with rfl | hx
      · exact h x List.mem_cons_self
      · exact ih hes hx

/-- The entries that are replayed from `v` on, but not from the later version `v'`. -/
def between (v v' : ℕ) (es : List Entry) : List Entry :=
  (pending v es).filter fun e => decide (e.version ≤ v')

/-- Of an ordered log, first the entries up to `v'` are replayed, and then the same as from
    there on. -/
theorem pending_eq {v v' : ℕ} {es : List Entry} (hes : Ordered es) (h : v ≤ v') :
    pending v es = between v v' es ++ pending v' es := by
  induction es generalizing v with
  | nil => rfl
  | cons e es ih =>
    obtain ⟨he, hes⟩ := List.pairwise_cons.1 hes
    rcases le_or_gt e.version v with hv | hv
    · rw [between, pending, if_pos hv, pending, if_pos (hv.trans h)]
      exact ih hes h
    · rcases le_or_gt e.version v' with hv' | hv'
      · rw [between, pending, if_neg (not_le.2 hv), pending, if_pos hv',
          List.filter_cons_of_pos (by simpa using hv'), List.cons_append]
        exact congrArg (e :: ·) (ih hes hv')
      · -- Nothing of the log is up to `v'`.
        have hnil : between v v' (e :: es) = [] := by
          refine List.filter_eq_nil_iff.2 fun x hx => ?_
          have hle := le_of_mem_pending (List.forall_mem_cons.2 ⟨le_rfl, he⟩) hx
          simp only [decide_eq_true_eq]
          omega
        rw [hnil, List.nil_append, pending, if_neg (not_le.2 hv), pending, if_neg (not_le.2 hv')]

/-! ## The same state -/

/-- From the snapshot `a`, whose version is not after that of `b`, the log leads to the same
    state as from `b`. It reaches the version of `b`, and the entries that are replayed
    from there on make up for the difference between `b` and what the entries before make
    of `a`: those at least as new as the newer term, and those that write the keys at
    which the stores differ. -/
structure Overtakes (a b : Snapshot) (wal : List Entry) : Prop where
  version : b.version ≤ a.version ∨ ∃ x ∈ wal, b.version ≤ x.version
  term_le : newestTerm a.term (between a.version b.version wal) ≤ b.term ∨
    ∃ x ∈ pending b.version wal, newestTerm a.term (between a.version b.version wal) ≤ x.term
  le_term : b.term ≤ newestTerm a.term (between a.version b.version wal) ∨
    ∃ x ∈ pending b.version wal, b.term ≤ x.term
  keys : ∀ key, (replay a.kv (between a.version b.version wal)).lookup key ≠ b.kv.lookup key →
    ∃ x ∈ pending b.version wal, x.Writes key

theorem Snapshot.eq_iff {s t : Snapshot} :
    s = t ↔ s.version = t.version ∧ s.term = t.term ∧ s.kv = t.kv := by
  obtain ⟨term, version, kv⟩ := s
  obtain ⟨term', version', kv'⟩ := t
  rw [Snapshot.mk.injEq]
  exact and_left_comm

theorem foldl_replayStep_eq_iff {a b : Snapshot} {wal : List Entry} (hwal : Ordered wal)
    (h : a.version ≤ b.version) :
    wal.foldl replayStep a = wal.foldl replayStep b ↔ Overtakes a b wal := by
  obtain ⟨hta, hka⟩ := foldl_replayStep_eq a wal
  obtain ⟨htb, hkb⟩ := foldl_replayStep_eq b wal
  have hversion : (wal.foldl replayStep a).version = (wal.foldl replayStep b).version ↔
      b.version ≤ a.version ∨ ∃ x ∈ wal, b.version ≤ x.version := by
    rw [← le_version_foldl_replayStep]
    refine ⟨fun heq => heq ▸ le_version_foldl_replayStep.2 (.inl le_rfl), fun hle => ?_⟩
    refine le_antisymm (le_version_foldl_replayStep.2 ?_) ?_
    · exact (le_version_foldl_replayStep.1 le_rfl).imp_left h.trans'
    · rcases le_version_foldl_replayStep.1 (le_refl (wal.foldl replayStep b).version) with hb | hx
      · exact hb.trans hle
      · exact le_version_foldl_replayStep.2 (.inr hx)
  rw [Snapshot.eq_iff, hversion, hta, htb, hka, hkb, pending_eq hwal h, newestTerm_append,
    replay_append, newestTerm_eq_iff, replay_eq_replay_iff]
  exact ⟨fun h => ⟨h.1, h.2.1.1, h.2.1.2, h.2.2⟩,
    fun h => ⟨h.version, ⟨h.term_le, h.le_term⟩, h.keys⟩⟩

/-! ## Loading -/

/-- The state that the log leads to, from the snapshot that is picked. -/
def replayed (best : Option Snapshot) (wal : List Entry) : Snapshot :=
  wal.foldl replayStep (best.getD Snapshot.empty)

/-- What is loaded from the snapshot that is picked and the log. -/
def loadFrom (best : Option Snapshot) (wal : List Entry) : Except DiskError DiskLoadResult :=
  if best.isNone ∧ wal = [] then .ok { term := 0, version := 0, kv := ∅, valid := false }
  else (ensureMonotonicWAL wal 0).map fun _ =>
    { term := (replayed best wal).term
      version := (replayed best wal).version
      kv := (replayed best wal).kv
      valid := true }

/-- From either of the snapshots, one of which may be missing, the log leads to the same
    state. -/
def SameState (best best' : Option Snapshot) (wal : List Entry) : Prop :=
  (wal = [] → best.isNone = best'.isNone) ∧
    if (best.getD Snapshot.empty).version ≤ (best'.getD Snapshot.empty).version then
      Overtakes (best.getD Snapshot.empty) (best'.getD Snapshot.empty) wal
    else Overtakes (best'.getD Snapshot.empty) (best.getD Snapshot.empty) wal

theorem replayed_eq_iff {best best' : Option Snapshot} {wal : List Entry} (hwal : Ordered wal) :
    SameState best best' wal ↔
      (wal = [] → best.isNone = best'.isNone) ∧ replayed best wal = replayed best' wal := by
  rw [SameState]
  refine and_congr_right fun _ => ?_
  split_ifs with hle
  · exact (foldl_replayStep_eq_iff hwal hle).symm
  · rw [← foldl_replayStep_eq_iff hwal (not_le.1 hle).le, eq_comm]
    rfl

/-- The log up to a decreasing version is all that the check looks at. -/
theorem ensureMonotonicWAL_append_error {es fs : List Entry} {i : ℕ} {err : DiskError}
    (h : ensureMonotonicWAL es i = .error err) : ensureMonotonicWAL (es ++ fs) i = .error err := by
  fun_induction ensureMonotonicWAL es i with
  | case1 e e' es i hlt => rwa [List.cons_append, List.cons_append, ensureMonotonicWAL, if_pos hlt]
  | case2 e e' es i hle ih =>
    rw [List.cons_append, List.cons_append, ensureMonotonicWAL, if_neg hle]
    exact ih h
  | case3 es i hes => cases h

/-- The check passes exactly when the versions do not decrease. -/
theorem ensureMonotonicWAL_ok_iff {es : List Entry} {i : ℕ} :
    ensureMonotonicWAL es i = .ok () ↔ Ordered es := by
  unfold Ordered
  rw [← List.isChain_iff_pairwise]
  fun_induction ensureMonotonicWAL es i with
  | case1 e e' es i hlt => simp [List.isChain_cons_cons, hlt]
  | case2 e e' es i hle ih => rw [ih, List.isChain_cons_cons, and_iff_right (not_lt.1 hle)]
  | case3 es i hes =>
    refine iff_of_true rfl ?_
    cases es with
    | nil => exact .nil
    | cons e es =>
      cases es with
      | nil => exact .singleton e
      | cons e' es => exact (hes e e' es rfl).elim

theorem replayed_append (best : Option Snapshot) (es fs : List Entry) :
    replayed best (es ++ fs) = fs.foldl replayStep (replayed best es) := List.foldl_append

theorem loadFrom_of_error {best : Option Snapshot} {wal : List Entry} {err : DiskError}
    (h : ensureMonotonicWAL wal 0 = .error err) : loadFrom best wal = .error err := by
  have hne : wal ≠ [] := by
    rintro rfl
    cases h
  rw [loadFrom, if_neg fun hn => hne hn.2, h]
  rfl

theorem loadFrom_of_ok {best : Option Snapshot} {wal : List Entry}
    (h : ensureMonotonicWAL wal 0 = .ok ()) (hne : ¬(best.isNone ∧ wal = [])) :
    loadFrom best wal = .ok
      { term := (replayed best wal).term
        version := (replayed best wal).version
        kv := (replayed best wal).kv
        valid := true } := by
  rw [loadFrom, if_neg hne, h]
  rfl

/-- The state that is loaded, if the log is not refused. -/
def loadedState (best : Option Snapshot) (wal : List Entry) : Option DiskLoadResult :=
  (loadFrom best wal).toOption

theorem loadedState_of_not_ordered (best : Option Snapshot) {wal : List Entry}
    (h : ¬Ordered wal) : loadedState best wal = none := by
  rw [loadedState]
  cases hmono : ensureMonotonicWAL wal 0 with
  | error err => rw [loadFrom_of_error hmono]; rfl
  | ok _ => exact absurd (ensureMonotonicWAL_ok_iff.1 hmono) h

theorem loadedState_of_ordered {best : Option Snapshot} {wal : List Entry} (h : Ordered wal)
    (hfresh : ¬(best.isNone ∧ wal = [])) :
    loadedState best wal = some
      { term := (replayed best wal).term
        version := (replayed best wal).version
        kv := (replayed best wal).kv
        valid := true } := by
  rw [loadedState, loadFrom_of_ok (ensureMonotonicWAL_ok_iff.2 h) hfresh]
  rfl

theorem loadedState_isSome (best : Option Snapshot) {wal : List Entry} (h : Ordered wal) :
    (loadedState best wal).isSome := by
  by_cases hfresh : best.isNone ∧ wal = []
  · rw [loadedState, loadFrom, if_pos hfresh]
    rfl
  · rw [loadedState_of_ordered h hfresh]
    rfl

/-- Whether the log is refused does not depend on the snapshot. -/
theorem loadFrom_eq_of_loadedState {best best' : Option Snapshot} {wal : List Entry}
    (h : loadedState best wal = loadedState best' wal) :
    loadFrom best wal = loadFrom best' wal := by
  cases hmono : ensureMonotonicWAL wal 0 with
  | error err => rw [loadFrom_of_error hmono, loadFrom_of_error hmono]
  | ok _ =>
    have hok : ∀ b, ∃ x, loadFrom b wal = .ok x := fun b => by
      rw [loadFrom, hmono]
      split_ifs <;> exact ⟨_, rfl⟩
    obtain ⟨x, hx⟩ := hok best
    obtain ⟨y, hy⟩ := hok best'
    rw [loadedState, loadedState, hx, hy] at h
    rw [hx, hy, Option.some.inj h]

/-- The same is loaded from two snapshots exactly when the log is refused, or leads to the
    same state from either. -/
theorem loadFrom_eq_iff {best best' : Option Snapshot} {wal : List Entry} :
    loadFrom best wal = loadFrom best' wal ↔ (Ordered wal → SameState best best' wal) := by
  cases hmono : ensureMonotonicWAL wal 0 with
  | error err =>
    refine iff_of_true (by rw [loadFrom_of_error hmono, loadFrom_of_error hmono]) fun hwal => ?_
    rw [ensureMonotonicWAL_ok_iff.2 hwal] at hmono
    cases hmono
  | ok _ =>
    have hwal := ensureMonotonicWAL_ok_iff.1 hmono
    rw [forall_prop_of_true hwal, replayed_eq_iff hwal]
    by_cases hnil : wal = []
    · subst hnil
      cases best <;> cases best' <;> simp [loadFrom, replayed, ensureMonotonicWAL, Except.map,
        Snapshot.eq_iff, and_left_comm]
    · rw [loadFrom_of_ok hmono fun h => hnil h.2, loadFrom_of_ok hmono fun h => hnil h.2,
        Except.ok.injEq, DiskLoadResult.mk.injEq, Snapshot.eq_iff]
      simp only [hnil, false_imp_iff, true_and, and_true]
      exact and_left_comm

/-- Two snapshots from which a log leads to the same state are the same for any longer
    log, too. -/
theorem loadFrom_append {best best' : Option Snapshot} {wal : List Entry}
    (h : loadFrom best wal = loadFrom best' wal) (es : List Entry) :
    loadFrom best (wal ++ es) = loadFrom best' (wal ++ es) := by
  cases hmono : ensureMonotonicWAL wal 0 with
  | error err =>
    rw [loadFrom_of_error (ensureMonotonicWAL_append_error hmono),
      loadFrom_of_error (ensureMonotonicWAL_append_error hmono)]
  | ok _ =>
    by_cases hb : best.isNone ∧ wal = [] <;> by_cases hb' : best'.isNone ∧ wal = []
    · rw [Option.isNone_iff_eq_none.1 hb.1, Option.isNone_iff_eq_none.1 hb'.1]
    · rw [loadFrom_of_ok hmono hb', loadFrom, if_pos hb] at h
      simp at h
    · rw [loadFrom_of_ok hmono hb, loadFrom, if_pos hb'] at h
      simp at h
    · -- The two states are the same, and so is what the new entries make of them.
      rw [loadFrom_of_ok hmono hb, loadFrom_of_ok hmono hb', Except.ok.injEq,
        DiskLoadResult.mk.injEq] at h
      have hsame : replayed best wal = replayed best' wal := by
        cases hs : replayed best wal
        cases hs' : replayed best' wal
        rw [hs, hs'] at h
        obtain ⟨rfl, rfl, rfl, -⟩ := h
        rfl
      have hnil : wal ++ es = [] → wal = [] := fun h => (List.append_eq_nil_iff.1 h).1
      rw [loadFrom, loadFrom, if_neg fun hn => hb ⟨hn.1, hnil hn.2⟩,
        if_neg fun hn => hb' ⟨hn.1, hnil hn.2⟩, replayed_append, replayed_append, hsame]

end Doki
