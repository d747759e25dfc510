import Doki.Node.Write

/-!
# The calls of clients

Clients put, delete and get the values of a shard (`node/grpc.go`). A write is
refused unless the replica is a ready leader (`ensureLeaderReady`), a check that
is made once before `leaderWrite` waits for its turn and once after; a read is
answered by a ready leader, from its store. A read takes no lock of the replica:
its status is read first, and the store may have changed when it is read.

What a read returns is told by the entries that the replica has applied: the last
one at the key decides.

* `lookup_replay`: the store after some entries has at every key what the last of
  them wrote there (`lastWrite`);
* `get_eq`: the four answers of a read;
* `response_of_finishWrite`: a write that got as far as its plan is answered with
  a success or a missing quorum. The other answers are given before anything is sent.
-/

namespace Doki

open Faulty

/-! ## The last write at a key -/

/-- What an entry leaves at its key: the value of a put, and nothing for a delete. -/
def Entry.written (e : Entry) : Option String := if e.op = .put then some e.value else none

/-- The last of the entries `es` at `key`. -/
def lastWrite (key : String) (es : List Entry) : Option Entry :=
  es.reverse.find? fun e => e.key == key

@[simp] theorem lastWrite_nil (key : String) : lastWrite key [] = none := rfl

theorem lastWrite_concat (key : String) (es : List Entry) (e : Entry) :
    lastWrite key (es ++ [e]) = if e.key = key then some e else lastWrite key es := by
  rw [lastWrite, List.reverse_append, List.reverse_singleton, List.singleton_append,
    List.find?_cons]
  by_cases h : e.key = key
  · rw [if_pos h, beq_iff_eq.2 h]
  · rw [if_neg h, beq_eq_false_iff_ne.2 h]
    rfl

/-- The last entry at a key is one of the entries, and none after it has its key. -/
theorem lastWrite_eq_some_iff {key : String} {es : List Entry} {e : Entry} :
    lastWrite key es = some e ↔
      e.key = key ∧ ∃ older newer, es = older ++ e :: newer ∧ ∀ x ∈ newer, x.key ≠ key := by
  rw [lastWrite, List.find?_eq_some_iff_append]
  constructor
  · rintro ⟨hkey, newer, older, heq, hnewer⟩
    refine ⟨beq_iff_eq.1 hkey, older.reverse, newer.reverse, ?_, fun x hx => ?_⟩
    · rw [← List.reverse_reverse es, heq]
      simp
    · simpa using hnewer x (List.mem_reverse.1 hx)
  · rintro ⟨hkey, older, newer, rfl, hnewer⟩
    refine ⟨beq_iff_eq.2 hkey, newer.reverse, older.reverse, by simp, fun x hx => ?_⟩
    simpa using hnewer x (List.mem_reverse.1 hx)

theorem lastWrite_eq_none_iff {key : String} {es : List Entry} :
    lastWrite key es = none ↔ ∀ e ∈ es, e.key ≠ key := by
  simp [lastWrite]

theorem lastWrite_mem {key : String} {es : List Entry} {e : Entry}
    (h : lastWrite key es = some e) : e ∈ es ∧ e.key = key := by
  obtain ⟨hkey, older, newer, rfl, -⟩ := lastWrite_eq_some_iff.1 h
  exact ⟨List.mem_append_right _ List.mem_cons_self, hkey⟩

/-- An entry at the key is the last one there, or another one is, which follows it. -/
theorem exists_lastWrite {v : ℕ} {es : List Entry} (hes : Consecutive v es) {e : Entry}
    (he : e ∈ es) : ∃ x, lastWrite e.key es = some x ∧ e.version ≤ x.version := by
  cases hlast : lastWrite e.key es with
  | none => exact absurd rfl (lastWrite_eq_none_iff.1 hlast e he)
  | some x =>
    obtain ⟨-, older, newer, rfl, hnewer⟩ := lastWrite_eq_some_iff.1 hlast
    refine ⟨x, rfl, ?_⟩
    rcases List.mem_append.1 he with he | he
    · exact (List.pairwise_append.1 hes.pairwise_version).2.2 e he x List.mem_cons_self
    · rcases List.mem_cons.1 he with rfl | he
      · exact le_rfl
      · exact absurd rfl (hnewer e he)

theorem lookup_applyOp (kv : KV) {e : Entry} (he : e.op ≠ .unknown) (key : String) :
    (applyOp kv e).lookup key = if e.key = key then e.written else kv.lookup key := by
  rw [applyOp, Entry.written]
  cases hop : e.op with
  | put =>
    by_cases h : e.key = key
    · simp [h]
    · rw [if_neg h]
      exact Finmap.lookup_insert_of_ne _ (Ne.symm h)
  | delete =>
    by_cases h : e.key = key
    · simp [h]
    · rw [if_neg h]
      exact Finmap.lookup_erase_ne (Ne.symm h)
  | unknown => exact absurd hop he

/-- The last write at a key decides what the store has there. -/
theorem lookup_replay {es : List Entry} (hes : ∀ e ∈ es, e.op ≠ .unknown) (key : String) :
    (replay ∅ es).lookup key = (lastWrite key es).bind Entry.written := by
  induction es using List.reverseRecOn with
  | nil => exact Finmap.lookup_empty key
  | append_singleton es e ih =>
    rw [replay_append, replay_cons, replay_nil, lastWrite_concat,
      lookup_applyOp _ (hes e (List.mem_append_right _ List.mem_cons_self)),
      ih fun x hx => hes x (List.mem_append_left _ hx)]
    split_ifs <;> rfl

/-! ## Reads -/

/-- The result of a read. -/
inductive GetResult
  | ok
  | notFound
  | notLeader
  | notReady
  deriving DecidableEq, Repr

/-- The answer to a read; what is not set is empty. -/
structure GetResponse where
  result : GetResult
  value : String := ""
  leaderHint : String := ""
  deriving DecidableEq, Repr

namespace ReplicaState

/-- The handler of `Get`, when the replica was `seen` when its status was read, and
    is `r` when its store is read. -/
def get (seen r : ReplicaState) (key : String) : GetResponse :=
  if seen.role ≠ .leader then { result := .notLeader, leaderHint := seen.leaderID }
  else if seen.isReady = false then { result := .notReady }
  else
    match r.kv.lookup key with
    | none => { result := .notFound }
    | some val => { result := .ok, value := val }

/-- The answers of a ready leader, and only those, tell what is in the store. -/
theorem get_eq (seen r : ReplicaState) (key : String) :
    ((seen.get r key).result = .ok → r.kv.lookup key = some (seen.get r key).value) ∧
      ((seen.get r key).result = .notFound → r.kv.lookup key = none) := by
  rw [get]
  split_ifs
  · exact ⟨fun h => absurd h (by decide), fun h => absurd h (by decide)⟩
  · exact ⟨fun h => absurd h (by decide), fun h => absurd h (by decide)⟩
  · split
    · exact ⟨fun h => absurd h (by decide), fun _ => ‹_›⟩
    · exact ⟨fun _ => ‹_›, fun h => absurd h (by simp)⟩

end ReplicaState

/-! ## Writes -/

/-- The result of a put. -/
inductive PutResult
  | unspecified
  | ok
  | notLeader
  | quorumUnavailable
  | notReady
  deriving DecidableEq, Repr

/-- The answer to a put. -/
structure PutResponse where
  result : PutResult
  leaderHint : String := ""
  deriving DecidableEq, Repr

/-- The result of a delete. -/
inductive DeleteResult
  | unspecified
  | ok
  | notLeader
  | quorumUnavailable
  | notReady
  deriving DecidableEq, Repr

/-- The answer to a delete. -/
structure DeleteResponse where
  result : DeleteResult
  leaderHint : String := ""
  deriving DecidableEq, Repr

/-- The result of a delete for that of a put. -/
def mapWriteResult : PutResult → DeleteResult
  | .ok => .ok
  | .notLeader => .notLeader
  | .quorumUnavailable => .quorumUnavailable
  | .notReady => .notReady
  | .unspecified => .unspecified

/-- The answer to a write that has passed the first check. -/
def writeResponse : Except WriteError WriteResult → PutResponse
  | .ok _ => { result := .ok }
  | .error .shardMapStale => { result := .notReady }
  -- A leader that has lost its role while it waited says so here, too.
  | .error _ => { result := .quorumUnavailable }

/-- A write with an error is not answered with a success. -/
theorem writeResponse_error (err : WriteError) : (writeResponse (.error err)).result ≠ .ok := by
  cases err <;> exact fun h => absurd h (by simp [writeResponse])

namespace ReplicaState

/-- The check before a write. -/
def ensureLeaderReady (r : ReplicaState) : Except WriteError Unit :=
  if r.role ≠ .leader then .error .notLeader
  else if r.isReady = false then .error .notReady
  else .ok ()

/-- The answer to a write, when the replica was `seen` at the first check and
    `written` is what `leaderWrite` has returned after it. -/
def handleWrite (seen : ReplicaState) (written : Except WriteError WriteResult) : PutResponse :=
  match seen.ensureLeaderReady with
  | .error .notLeader => { result := .notLeader, leaderHint := seen.leaderID }
  | .error _ => { result := .notReady }
  | .ok () => writeResponse written

/-- The handler of `Put`. -/
def put (seen : ReplicaState) (written : Except WriteError WriteResult) : PutResponse :=
  seen.handleWrite written

/-- The handler of `Delete`. -/
def delete (seen : ReplicaState) (written : Except WriteError WriteResult) : DeleteResponse :=
  let resp := seen.handleWrite written
  { result := mapWriteResult resp.result, leaderHint := resp.leaderHint }

/-- A write that is planned has passed the check before it, and ends with a success or
    without a quorum. -/
theorem response_of_finishWrite {r r' : ReplicaState} {now : Time} {e : Entry} {plan : QuorumInfo}
    {acked : List String} {walOk : Bool} {fates : List Fate}
    {res : Except WriteError WriteResult}
    (h : r.finishWrite now e plan acked walOk fates = (res, r')) :
    writeResponse res = { result := .ok } ∨
      writeResponse res = { result := .quorumUnavailable } := by
  have hcommit : ∀ acked, r.commitWrite now e plan acked walOk fates = (res, r') →
      writeResponse res = { result := .ok } ∨
        writeResponse res = { result := .quorumUnavailable } := by
    intro acked h
    simp only [commitWrite] at h
    split at h <;> cases h
    · exact .inr rfl
    · exact .inl rfl
  rw [finishWrite] at h
  split_ifs at h
  · exact hcommit [] h
  · cases h
    exact .inr rfl
  · cases h
    exact .inr rfl
  · exact hcommit acked h

end ReplicaState

end Doki
