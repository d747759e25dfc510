import Doki.Cluster.Integrity
import Doki.Lib.Finmaps

/-!
# The replicas on the wire

A leader sends the entry of a write to its peers, and a follower that recovers gets entries
or a snapshot. Both go over gRPC: the sender converts them to messages (`opToProto`,
`entriesToProto`, `kvToProto`, in `node/grpc.go`), and the receiver converts these back
(`opFromProto`, and `opTypeFromProto` and `kvFromProto`, in `node/recovery.go`). The
message of a delete has no value, and a snapshot is a list of pairs, in whatever order the
map is traversed.

* `Entry.fromProto_toProto`: an entry comes back if it is no delete with a value;
* `recoverResponseFromProto_toProto`: so does a response;
* `Cluster.wireStep_run`: clients give no value to a delete. So a cluster that converts its
  messages has the runs of `Cluster.step`, which hands them over as they are.
-/

namespace Doki

open Faulty Runs

/-! ### Messages -/

/-- The type of an `Operation`. -/
inductive ProtoOpType
  | unspecified
  | put
  | delete
  deriving DecidableEq, Repr

/-- The message `Operation` of `common.proto`. A key and a value are bytes there, which
    Go strings are converted to as they are. -/
structure ProtoOperation where
  type : ProtoOpType
  key : String
  value : String
  deriving DecidableEq, Repr

/-- The message `LogEntry` of `node.proto`; a request to replicate has the same fields. -/
structure ProtoLogEntry where
  term : ℕ
  version : ℕ
  op : Option ProtoOperation
  deriving DecidableEq, Repr

/-- The message `KVEntry` of `common.proto`. -/
structure ProtoKVEntry where
  key : String
  value : String
  deriving DecidableEq, Repr

/-- The type of a `RecoverResponse`. -/
inductive ProtoRecoverType
  | unspecified
  | entries
  | snapshot
  deriving DecidableEq, Repr

/-- The message `RecoverResponse` of `node.proto`. -/
structure ProtoRecoverResponse where
  type : ProtoRecoverType
  version : ℕ
  term : ℕ
  entries : List ProtoLogEntry
  kv : List ProtoKVEntry
  deriving DecidableEq, Repr

def opToProto (op : Op) (key value : String) : ProtoOperation :=
  match op with
  | .put => ⟨.put, key, value⟩
  | .delete => ⟨.delete, key, ""⟩
  | .unknown => ⟨.unspecified, key, value⟩

def opFromProto (op : Option ProtoOperation) : Op × String × String :=
  match op with
  | none => (.unknown, "", "")
  | some ⟨.put, key, value⟩ => (.put, key, value)
  | some ⟨.delete, key, _⟩ => (.delete, key, "")
  | some ⟨.unspecified, key, value⟩ => (.unknown, key, value)

def opTypeFromProto (op : Option ProtoOperation) : Op :=
  match op with
  | none => .unknown
  | some ⟨.put, _, _⟩ => .put
  | some ⟨.delete, _, _⟩ => .delete
  | some ⟨.unspecified, _, _⟩ => .unknown

/-- The message of an entry. -/
def Entry.toProto (e : Entry) : ProtoLogEntry where
  term := e.term
  version := e.version
  op := some (opToProto e.op e.key e.value)

def entriesToProto (es : List Entry) : List ProtoLogEntry := es.map Entry.toProto

/-- The entry that the handler of `Replicate` makes of a message. -/
def Entry.ofReplicate (m : ProtoLogEntry) : Entry where
  term := m.term
  version := m.version
  op := (opFromProto m.op).1
  key := (opFromProto m.op).2.1
  value := (opFromProto m.op).2.2

/-- The entry that a recovery makes of a message. -/
def Entry.ofRecover (m : ProtoLogEntry) : Entry where
  term := m.term
  version := m.version
  op := opTypeFromProto m.op
  key := (m.op.map (·.key)).getD ""
  value := (m.op.map (·.value)).getD ""

/-- The pairs of a map, with its keys in some order. -/
def kvToProto (order : List String) (kv : KV) : List ProtoKVEntry :=
  (kv.entriesAt order).map fun x => ⟨x.1, x.2⟩

def kvFromProto (entries : List ProtoKVEntry) : KV :=
  entries.foldl (fun kv e => kv.insert e.key e.value) ∅

def recoverResponseToProto (order : List String) : RecoverResponse → ProtoRecoverResponse
  | .entries version es => ⟨.entries, version, 0, entriesToProto es, []⟩
  | .snapshot s => ⟨.snapshot, s.version, s.term, [], kvToProto order s.kv⟩

/-- What a recovery makes of a response; one of another type is an error. -/
def recoverResponseFromProto (m : ProtoRecoverResponse) : Option RecoverResponse :=
  match m.type with
  | .entries => some (.entries m.version (m.entries.map Entry.ofRecover))
  | .snapshot => some (.snapshot ⟨m.term, m.version, kvFromProto m.kv⟩)
  | .unspecified => none

/-! ### Round trips -/

/-- The entry is no delete with a value. -/
def Entry.Plain (e : Entry) : Prop := e.op = .delete → e.value = ""

/-- A plain entry comes back, by either way. -/
theorem Entry.fromProto_toProto {e : Entry} (h : e.Plain) :
    Entry.ofReplicate e.toProto = e ∧ Entry.ofRecover e.toProto = e := by
  obtain ⟨term, version, op, key, value⟩ := e
  cases op with
  | put => exact ⟨rfl, rfl⟩
  | delete =>
    obtain rfl : value = "" := h rfl
    exact ⟨rfl, rfl⟩
  | unknown => exact ⟨rfl, rfl⟩

/-- A map comes back, in whatever order it was traversed. -/
theorem kvFromProto_toProto {order : List String} {kv : KV} (horder : ∀ key ∈ kv, key ∈ order) :
    kvFromProto (kvToProto order kv) = kv := by
  rw [kvFromProto, kvToProto, List.foldl_map]
  exact Finmap.foldl_insert_entriesAt horder

/-- The entries of a response are plain. -/
def RecoverResponse.Plain : RecoverResponse → Prop
  | .entries _ es => ∀ e ∈ es, e.Plain
  | .snapshot _ => True

/-- All keys of a snapshot are traversed. -/
def RecoverResponse.Traversed (order : List String) : RecoverResponse → Prop
  | .entries _ _ => True
  | .snapshot s => ∀ key ∈ s.kv.keys, key ∈ order

instance (order : List String) : (resp : RecoverResponse) → Decidable (resp.Traversed order)
  | .entries _ _ => .isTrue trivial
  | .snapshot s => inferInstanceAs (Decidable (∀ key ∈ s.kv.keys, key ∈ order))

theorem recoverResponseFromProto_toProto {order : List String} {resp : RecoverResponse}
    (hplain : resp.Plain) (htraversed : resp.Traversed order) :
    recoverResponseFromProto (recoverResponseToProto order resp) = some resp := by
  cases resp with
  | entries version es =>
    have hes : (entriesToProto es).map Entry.ofRecover = es := by
      rw [entriesToProto, List.map_map]
      have hid : ∀ e ∈ es, (Entry.ofRecover ∘ Entry.toProto) e = id e := fun e he =>
        (Entry.fromProto_toProto (hplain e he)).2
      rw [List.map_congr_left hid, List.map_id]
    simp only [recoverResponseToProto, recoverResponseFromProto, hes]
  | snapshot s =>
    have hkv : kvFromProto (kvToProto order s.kv) = s.kv :=
      kvFromProto_toProto fun key hkey => htraversed key (Finmap.mem_keys.2 hkey)
    simp only [recoverResponseToProto, recoverResponseFromProto, hkv]

/-! ### Whole runs -/

/-- The deletes of clients have no value. -/
def KVRequest.Plain (req : KVRequest) : Prop := req.op = .delete → req.value = ""

instance (req : KVRequest) : Decidable req.Plain :=
  inferInstanceAs (Decidable (req.op = .delete → req.value = ""))

namespace Cluster

/-- One step of a cluster whose messages are converted. The list is the order in which the
    map of a snapshot is traversed. -/
def wireStep (c : Cluster) : Action × List String → Option Cluster
  | (.replicate k p now walOk, _) =>
    (c.writes[k]?).bind fun w =>
      w.sent.bind fun s =>
        let received := Entry.ofReplicate s.entry.toProto
        let x := (c.nodes p).replica.replicate now received walOk
        (s.fan.handle p x.2).map fun fan =>
          (c.track p received x.1).setWrite k { w with sent := some { s with fan := fan } }
  | (.recoverApply k walOk fates, order) =>
    (c.recoveries[k]?).bind fun x =>
      x.response.bind fun resp =>
        if x.finished = true then none
        else
          match recoverResponseFromProto (recoverResponseToProto order resp.1) with
          | none => some (c.recoverFailed k x)
          | some received => some { c with
              nodes := Function.update c.nodes x.follower
                ((c.nodes x.follower).recover walOk fates x.status (received, resp.2))
              recoveries := c.recoveries.set k { x with finished := true } }
  | (a, _) => c.step a

/-- The deletes that are started have no value, and all keys of a snapshot are traversed. -/
def WellSent (c : Cluster) : Action × List String → Prop
  | (.writeStart _ req _, _) => req.Plain
  | (.recoverApply k _ _, order) =>
    ∀ x ∈ c.recoveries[k]?, ∀ resp ∈ x.response, resp.1.Traversed order
  | _ => True

instance (c : Cluster) : (a : Action × List String) → Decidable (c.WellSent a)
  | (.writeStart _ req _, _) => inferInstanceAs (Decidable req.Plain)
  | (.recoverApply k _ _, order) => inferInstanceAs (Decidable
      (∀ x ∈ c.recoveries[k]?, ∀ resp ∈ x.response, resp.1.Traversed order))
  | (.electionBegin _ _, _) | (.requestVote _ _ _, _) | (.voteReply _ _ _, _)
  | (.voteLost _ _, _) | (.electionFinish _ _, _) | (.heartbeatSend _, _)
  | (.leaderHeartbeat _ _ _, _) | (.heartbeatReply _ _ _ _, _) | (.writePlan _, _)
  | (.replicate _ _ _ _, _) | (.replicateReply _ _ _, _) | (.replicateLost _ _, _)
  | (.writeFinish _ _ _, _) | (.forceRecover _ _ _, _) | (.recoverBegin _ _ _, _)
  | (.recoverServe _, _) | (.recoverLost _, _) => .isTrue trivial

/-- Every write that is under way is of a plain request. -/
def PlainWrites (c : Cluster) : Prop := ∀ w ∈ c.writes, w.req.Plain

variable {c c' : Cluster}

/-- What was sent for plain requests is plain. -/
theorem PlainWrites.plain (h : c.PlainWrites) {e : Entry} (he : Sent c.writes e) : e.Plain := by
  obtain ⟨w, hw, hsent⟩ := he
  intro hop
  rw [hsent.value]
  exact h w hw (hsent.op ▸ hop)

/-- A write has changed, but not its request. -/
theorem PlainWrites.set (h : c.PlainWrites) {k : ℕ} {w w' : Write} (hw : c.writes[k]? = some w)
    (hreq : w'.req = w.req) : ∀ x ∈ c.writes.set k w', x.req.Plain :=
  List.forall_mem_set h (hreq ▸ h w (List.mem_of_getElem? hw))

/-- The step lemma outside the recovery loop. -/
theorem PlainWrites.writeStep {a : Action} (h : c.PlainWrites)
    (ha : ∀ i req now, a = .writeStart i req now → req.Plain) (hstep : c.WriteStep a c') :
    c'.PlainWrites := by
  cases hstep with
  | other hwrites hnodes => exact fun w hw => h w (hwrites ▸ hw)
  | started => exact List.forall_mem_concat h (ha _ _ _ rfl)
  | planned hw hsent => exact h.set hw rfl
  | replicated hw hs hfan => exact h.set hw rfl
  | answered hw hs hres htargets hhandled => exact h.set hw rfl
  | finished hw hs hres hfinish => exact h.set hw rfl
  | forced hw => exact h.set hw rfl

/-- The step lemma. A recovery does not touch the writes. -/
theorem PlainWrites.step {a : Action} (h : c.PlainWrites)
    (ha : ∀ i req now, a = .writeStart i req now → req.Plain) (hstep : c.step a = some c') :
    c'.PlainWrites := by
  cases hrec : a.recovers with
  | false => exact h.writeStep ha (Cluster.writeStep hrec hstep)
  | true =>
    cases a with
    | recoverBegin p q leaderAddr =>
      obtain ⟨-, rfl | ⟨x, -, -, -, rfl⟩⟩ := step_recoverBegin hstep <;> exact h
    | recoverServe k =>
      obtain ⟨x, -, rfl | ⟨resp, -, rfl⟩⟩ := step_recoverServe hstep <;> exact h
    | recoverApply k walOk fates =>
      obtain ⟨x, resp, -, -, rfl⟩ := step_recoverApply hstep
      exact h
    | recoverLost k =>
      obtain ⟨x, -, rfl⟩ := step_recoverLost hstep
      exact h
    | _ => exact absurd hrec (by simp [Action.recovers])

/-- The entries of the responses under way were sent, so they are plain. -/
theorem Sourced.plain (h : c.Sourced) (hplain : c.PlainWrites) {x : Recovery}
    (hx : x ∈ c.recoveries) {resp : RecoverResponse × List Entry} (hresp : x.response = some resp) :
    resp.1.Plain := by
  obtain ⟨hok, hsent⟩ := (h.recoveries x hx).response resp hresp
  obtain ⟨resp, hist⟩ := resp
  cases resp with
  | entries version es => exact fun e he => hplain.plain (hsent e (hok e he))
  | snapshot s => trivial

/-- The two clusters take the same steps. -/
theorem wireStep_eq (h : c.Sourced) (hplain : c.PlainWrites) {a : Action × List String}
    (ha : c.WellSent a) : c.wireStep a = c.step a.1 := by
  obtain ⟨a, order⟩ := a
  cases a with
  | replicate k p now walOk =>
    rw [wireStep, step]
    refine Option.bind_congr fun w hw => Option.bind_congr fun s hs => ?_
    have hmem := List.mem_of_getElem? hw
    have hentry : s.entry.Plain := hplain.plain ⟨w, hmem, (h.writes w hmem).sent s hs⟩
    simp only [(Entry.fromProto_toProto hentry).1]
  | recoverApply k walOk fates =>
    rw [wireStep, step]
    refine Option.bind_congr fun x hx => Option.bind_congr fun resp hresp => ?_
    rw [recoverResponseFromProto_toProto (h.plain hplain (List.mem_of_getElem? hx) hresp)
      (ha x hx resp hresp)]
  | _ => rfl

/-- From a fresh start, if clients give no value to a delete, a cluster whose messages are
    converted has the same runs as one whose messages are handed over. -/
theorem wireStep_run {c₀ : Cluster} (hfresh : c₀.Fresh) (hwrites : c₀.writes = [])
    (as : List (Action × List String)) (has : Along wireStep WellSent c₀ as) :
    exec wireStep c₀ as = exec step c₀ (as.map Prod.fst) := by
  have hkeep : ∀ (c : Cluster) a c', c.Sourced ∧ c.PlainWrites → c.WellSent a →
      c.wireStep a = some c' → c'.Sourced ∧ c'.PlainWrites := by
    rintro c a c' ⟨h, hplain⟩ ha hstep
    rw [wireStep_eq h hplain ha] at hstep
    refine ⟨sourced_step c a.1 c' h hstep, hplain.step (fun i req now heq => ?_) hstep⟩
    obtain ⟨a, order⟩ := a
    subst heq
    exact ha
  have hstart : c₀.PlainWrites := fun w hw => absurd hw (by simp [hwrites])
  exact (exec_eq hkeep (fun c a h ha => (wireStep_eq h.1 h.2 ha).symm)
    ⟨hfresh.sourced hwrites, hstart⟩ has).symm

/-- The steps of `laggingRun` and a delete, with the keys of a snapshot traversed as given. -/
def wiredRun : List (Action × List String) :=
  (laggingRun ++ sentRun 2 exampleDelete).map fun a => (a, ["k"])

/-- The runs are the same, and the delete has reached `b`. -/
theorem wireStep_run_wiredRun :
    ∃ c, exec wireStep exampleCluster wiredRun = some c ∧
      exec step exampleCluster (wiredRun.map Prod.fst) = some c ∧
      (c.nodes "b").replica.version = 3 := by
  obtain ⟨c, has, hc, hversion⟩ : ∃ c, Along wireStep WellSent exampleCluster wiredRun ∧
      exec wireStep exampleCluster wiredRun = some c ∧ (c.nodes "b").replica.version = 3 :=
    ⟨_, by decide, rfl, rfl⟩
  exact ⟨c, hc, (wireStep_run fresh_exampleCluster rfl wiredRun has).symm.trans hc, hversion⟩

end Cluster

end Doki
