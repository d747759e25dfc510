import Mathlib.Data.Finmap
import Mathlib.Data.List.Basic

/-!
# Writes and the key-value store

A shard stores a map from keys to values (`KV`, the in-memory store), changed by
one write at a time. A write is an `Entry`: the operation with the term and the
version it was made in, as it stands in the replication log and in the
write-ahead log. The two logs have each an entry type in the source, with the
same fields; `walEntryFrom` copies one to the other, and here they are one type.
Keys and values are strings of characters. The source takes any bytes for them, and
those that are not UTF-8 do not survive on disk (`SnapshotFile.load_save_iff`).

* `applyOp`: what an entry does to the store;
* `replay`: the entries of a list applied in order. Two stores are the same after it
  exactly when every key at which they differ is written (`replay_eq_replay_iff`);
* `Consecutive v es`: the versions of `es` are `v + 1`, `v + 2`, and so on. This
  is how entries are numbered, in the logs and in the history of a replica;
* `Agree es fs`: no version has two different entries in `es` and `fs`. Of two
  histories that agree, one is the beginning of the other
  (`Agree.eq_take`).
-/

namespace Doki

/-- The operation of a write: the strings `"put"`, `"delete"`, and any other, as
    `opFromProto` gives for an operation of unspecified type. -/
inductive Op
  | put
  | delete
  | unknown
  deriving DecidableEq, Repr

/-- A write, as recorded in the replication log and in the write-ahead log. -/
structure Entry where
  term : ℕ
  version : ℕ
  op : Op
  key : String
  value : String
  deriving DecidableEq, Repr

/-- The write of a value at a key. -/
def Entry.put (term version : ℕ) (key value : String) : Entry :=
  { term := term, version := version, op := .put, key := key, value := value }

/-- The contents of the store. -/
abbrev KV := Finmap fun _ : String => String

/-- The store after the operation of `e`: other operations than put and delete
    change nothing. -/
def applyOp (kv : KV) (e : Entry) : KV :=
  match e.op with
  | .put => kv.insert e.key e.value
  | .delete => kv.erase e.key
  | .unknown => kv

/-- The store after the entries `es`, in order. -/
def replay (kv : KV) (es : List Entry) : KV := es.foldl applyOp kv

@[simp] theorem replay_nil (kv : KV) : replay kv [] = kv := rfl

@[simp] theorem replay_cons (kv : KV) (e : Entry) (es : List Entry) :
    replay kv (e :: es) = replay (applyOp kv e) es := rfl

@[simp] theorem replay_append (kv : KV) (es fs : List Entry) :
    replay kv (es ++ fs) = replay (replay kv es) fs := List.foldl_append

/-- The entry writes the key. -/
def Entry.Writes (e : Entry) (key : String) : Prop := e.op ≠ .unknown ∧ e.key = key

/-- Two stores agree at a key after an entry, if they did before or if it is written. -/
theorem lookup_applyOp_eq_iff (a b : KV) (e : Entry) (key : String) :
    (applyOp a e).lookup key = (applyOp b e).lookup key ↔
      a.lookup key = b.lookup key ∨ e.Writes key := by
  rcases eq_or_ne e.key key with rfl | hne
  · cases h : e.op <;> simp [applyOp, Entry.Writes, h]
  · cases h : e.op <;>
      simp [applyOp, Entry.Writes, h, hne, Finmap.lookup_insert_of_ne _ hne.symm,
        Finmap.lookup_erase_ne hne.symm]

theorem lookup_replay_eq_iff (a b : KV) (es : List Entry) (key : String) :
    (replay a es).lookup key = (replay b es).lookup key ↔
      a.lookup key = b.lookup key ∨ ∃ e ∈ es, e.Writes key := by
  induction es generalizing a b with
  | nil => simp
  | cons e es ih =>
    rw [replay_cons, replay_cons, ih, lookup_applyOp_eq_iff, or_assoc]
    simp only [List.mem_cons, exists_eq_or_imp]

/-- Two stores are the same after a replay exactly when every key at which they
    differ is written by it. -/
theorem replay_eq_replay_iff (a b : KV) (es : List Entry) :
    replay a es = replay b es ↔
      ∀ key, a.lookup key ≠ b.lookup key → ∃ e ∈ es, e.Writes key := by
  constructor
  · intro h key hne
    exact ((lookup_replay_eq_iff a b es key).1 (by rw [h])).resolve_left hne
  · intro h
    refine Finmap.ext_lookup fun key => (lookup_replay_eq_iff a b es key).2 ?_
    exact or_iff_not_imp_left.2 (h key)

/-- The versions of the entries follow each other, from `v + 1` on. -/
def Consecutive : ℕ → List Entry → Prop
  | _, [] => True
  | v, e :: es => e.version = v + 1 ∧ Consecutive (v + 1) es

instance : ∀ v es, Decidable (Consecutive v es)
  | _, [] => .isTrue trivial
  | v, e :: es =>
    have := instDecidableConsecutive (v + 1) es
    inferInstanceAs (Decidable (e.version = v + 1 ∧ Consecutive (v + 1) es))

theorem consecutive_append {v : ℕ} {es fs : List Entry} :
    Consecutive v (es ++ fs) ↔ Consecutive v es ∧ Consecutive (v + es.length) fs := by
  induction es generalizing v with
  | nil => simp [Consecutive]
  | cons e es ih =>
    rw [List.cons_append, Consecutive, Consecutive, ih, and_assoc, List.length_cons,
      Nat.add_right_comm v 1, Nat.add_assoc v]

/-- The beginning of consecutive entries, and what is left. -/
theorem Consecutive.take_drop {v : ℕ} {es : List Entry} (h : Consecutive v es) (n : ℕ)
    (hn : n ≤ es.length) : Consecutive v (es.take n) ∧ Consecutive (v + n) (es.drop n) := by
  rw [← List.take_append_drop n es, consecutive_append] at h
  rwa [List.length_take_of_le hn] at h

theorem Consecutive.takeWhile {v : ℕ} {es : List Entry} (h : Consecutive v es) (p : Entry → Bool) :
    Consecutive v (es.takeWhile p) := by
  rw [← List.takeWhile_append_dropWhile (p := p) (l := es), consecutive_append] at h
  exact h.1

/-- Consecutive entries lie after the version they start from. -/
theorem Consecutive.lt_version {v : ℕ} {es : List Entry} (h : Consecutive v es) :
    ∀ e ∈ es, v < e.version ∧ e.version ≤ v + es.length := by
  induction es generalizing v with
  | nil => simp
  | cons e es ih =>
    intro x hx
    rw [List.length_cons]
    rcases List.mem_cons.1 hx with rfl | hx
    · exact ⟨by have := h.1; omega, by have := h.1; omega⟩
    · have := ih h.2 x hx
      exact ⟨by omega, by omega⟩

theorem Consecutive.pairwise_version {v : ℕ} {es : List Entry} (h : Consecutive v es) :
    es.Pairwise fun a b => a.version ≤ b.version := by
  induction es generalizing v with
  | nil => exact List.Pairwise.nil
  | cons e es ih =>
    obtain ⟨he, hes⟩ := h
    refine List.pairwise_cons.2 ⟨fun x hx => ?_, ih hes⟩
    have := (hes.lt_version x hx).1
    omega

/-- The entry at index `i` of consecutive entries has the version `v + i + 1`. -/
theorem Consecutive.version_getElem {v : ℕ} {es : List Entry} (h : Consecutive v es) {i : ℕ}
    (hi : i < es.length) : es[i].version = v + i + 1 := by
  induction es generalizing v i with
  | nil => exact absurd hi (Nat.not_lt_zero i)
  | cons e es ih =>
    cases i with
    | zero => exact h.1
    | succ i =>
      have := ih h.2 (Nat.lt_of_succ_lt_succ hi)
      rw [List.getElem_cons_succ, this]
      omega

/-- Consecutive entries have one entry for every version. -/
theorem Consecutive.exists_version {v n : ℕ} {es : List Entry} (h : Consecutive v es)
    (hlt : v < n) (hle : n ≤ v + es.length) : ∃ e ∈ es, e.version = n := by
  have hi : n - v - 1 < es.length := by omega
  exact ⟨es[n - v - 1], List.getElem_mem hi, by rw [h.version_getElem hi]; omega⟩

/-- Consecutive entries have one entry only for a version. -/
theorem Consecutive.eq_of_version {v : ℕ} {es : List Entry} (h : Consecutive v es) {a b : Entry}
    (ha : a ∈ es) (hb : b ∈ es) (heq : a.version = b.version) : a = b := by
  obtain ⟨i, hi, rfl⟩ := List.getElem_of_mem ha
  obtain ⟨j, hj, rfl⟩ := List.getElem_of_mem hb
  rw [h.version_getElem hi, h.version_getElem hj] at heq
  obtain rfl : i = j := by omega
  rfl

/-- The last of consecutive entries. -/
theorem Consecutive.version_getLast? {v : ℕ} {es : List Entry} (h : Consecutive v es) {e : Entry}
    (he : es.getLast? = some e) : e.version = v + es.length := by
  rw [List.getLast?_eq_getElem?, List.getElem?_eq_some_iff] at he
  obtain ⟨hlt, rfl⟩ := he
  rw [h.version_getElem hlt]
  omega

/-- Consecutive entries are what a map from versions gives that has each of them. -/
theorem Consecutive.map_some_eq {v : ℕ} {es : List Entry} (h : Consecutive v es)
    {f : ℕ → Option Entry} (hf : ∀ e ∈ es, f e.version = some e) :
    es.map some = (List.range' (v + 1) es.length).map f := by
  induction es generalizing v with
  | nil => rfl
  | cons e es ih =>
    obtain ⟨he, hes⟩ := h
    rw [List.map_cons, List.length_cons, List.range'_succ, List.map_cons, ← he,
      hf e List.mem_cons_self, he, ← ih hes fun x hx => hf x (List.mem_cons_of_mem e hx)]

/-! ## Agreement -/

/-- The entries `es` have no other entry at the version of `e`. -/
def NoClash (es : List Entry) (e : Entry) : Prop := ∀ x ∈ es, x.version = e.version → x = e

instance (es : List Entry) (e : Entry) : Decidable (NoClash es e) :=
  inferInstanceAs (Decidable (∀ x ∈ es, x.version = e.version → x = e))

/-- No version has two different entries in `es` and `fs`. -/
def Agree (es fs : List Entry) : Prop := ∀ e ∈ fs, NoClash es e

theorem Agree.symm {es fs : List Entry} (h : Agree es fs) : Agree fs es :=
  fun e he x hx hv => (h x hx e he hv.symm).symm

theorem Agree.append {es fs gs : List Entry} (h : Agree es fs) (h' : ∀ e ∈ gs, NoClash fs e) :
    Agree (es ++ gs) fs := by
  intro e he x hx hv
  rcases List.mem_append.1 hx with hx | hx
  · exact h e he x hx hv
  · exact (h' x hx e he hv.symm).symm

/-- Of two histories that agree, each may go on with an entry that clashes with
    neither. -/
theorem Agree.concat {es fs es' fs' : List Entry} {e : Entry} (h : Agree es fs)
    (hes : NoClash es e) (hfs : NoClash fs e) (hes' : es' = es ∨ es' = es ++ [e])
    (hfs' : fs' = fs ∨ fs' = fs ++ [e]) : Agree es' fs' := by
  have hself : NoClash (es ++ [e]) e := by
    intro x hx hv
    rcases List.mem_append.1 hx with hx | hx
    · exact hes x hx hv
    · exact List.mem_singleton.1 hx
  -- Either of the two may have stayed as it was.
  rcases hes' with rfl | rfl <;> rcases hfs' with rfl | rfl
  · exact h
  · exact (h.symm.append (by simpa using hes)).symm
  · exact h.append (by simpa using hfs)
  · exact ((h.append (by simpa using hfs)).symm.append (by simpa using hself)).symm

/-- An entry at every version up to the length of a history that agrees with another
    is the one of the other. -/
theorem Agree.mem {es fs : List Entry} (h : Agree es fs) (hes : Consecutive 0 es) {e : Entry}
    (he : e ∈ fs) (hfs : Consecutive 0 fs) (hle : e.version ≤ es.length) : e ∈ es := by
  obtain ⟨x, hx, hv⟩ := hes.exists_version (hfs.lt_version e he).1 (by omega)
  rwa [← h e he x hx hv]

/-- Of two histories that agree, the shorter one is the beginning of the longer one. -/
theorem Agree.eq_take {es fs : List Entry} (h : Agree es fs) (hes : Consecutive 0 es)
    (hfs : Consecutive 0 fs) (hle : es.length ≤ fs.length) : es = fs.take es.length := by
  refine List.ext_getElem (by rw [List.length_take_of_le hle]) fun i hi hi' => ?_
  -- The two have an entry of the same version at `i`.
  rw [List.getElem_take]
  have hi'' : i < fs.length := by omega
  refine h _ (List.getElem_mem hi'') _ (List.getElem_mem hi) ?_
  rw [hes.version_getElem hi, hfs.version_getElem hi'']

end Doki
