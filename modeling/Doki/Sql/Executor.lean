import Doki.Sql.Planner

/-!
# The executor

Plans are executed on a catalog and a store, a finite map from keys to rows. A scan
returns the rows whose keys start with the prefix it is given, in an order that the
store does not specify: it is that of a list of the keys (`Enumerates`).

An error is returned before anything is written, so that a failed statement changes
nothing. What a statement that succeeds does to the tables and rows is one of five
things (`Effect`, `effect_of_runStatement`).
-/

namespace Doki.Sql

open Json (Bytes)

/-! ### The store -/

abbrev KV := Finmap fun _ : Bytes => Document

/-- The keys of the store, in some order. -/
def Enumerates (order : List Bytes) (kv : KV) : Prop :=
  order.Nodup ∧ ∀ key, key ∈ order ↔ key ∈ kv

theorem enumerates_iff {order : List Bytes} {kv : KV} :
    Enumerates order kv ↔ order.Nodup ∧ order.toFinset = kv.keys := by
  simp only [Enumerates, Finset.ext_iff, List.mem_toFinset, Finmap.mem_keys]

instance (order : List Bytes) (kv : KV) : Decidable (Enumerates order kv) :=
  decidable_of_iff _ enumerates_iff.symm

/-- The rows at the keys with a prefix, in the given order of the keys. -/
def KV.scan (kv : KV) (order : List Bytes) (keyPrefix : Bytes) : List Document :=
  (order.filter fun key => keyPrefix.isPrefixOf key).filterMap kv.lookup

/-- A catalog and a store. -/
structure Db where
  catalog : Catalog
  kv : KV

def Db.empty : Db := ⟨∅, ∅⟩

structure ResultSet where
  columns : List Bytes := []
  rows : List Row := []
  rowsAffected : ℕ := 0

/-! ### Executing plans -/

def resolveColumns (table : TableDef) (cols : Option (List ColumnDef)) : List ColumnDef :=
  cols.getD table.columns

/-- The fields of a row that are named by the columns; a missing one is null. -/
def projectRow (row : Row) (cols : List ColumnDef) : Row :=
  cols.foldl (fun result col => result.insert col.name ((row.lookup col.name).getD .null)) ∅

def executeCreateTable (db : Db) (d : TableDef) : Except SqlError (ResultSet × Db) := do
  let catalog ← (db.catalog.createTable d).mapError (.within .createTable)
  pure ({}, { db with catalog })

def executeInsert (db : Db) (key : Bytes) (row : Row) : ResultSet × Db :=
  ({ rowsAffected := 1 }, { db with kv := db.kv.insert key (encodeRow row) })

def executePointGet (db : Db) (key : Bytes) (table : TableDef) (cols : Option (List ColumnDef)) :
    ResultSet :=
  { columns := (resolveColumns table cols).map ColumnDef.name
    rows := ((db.kv.lookup key).map fun data =>
      projectRow (decodeRow data) (resolveColumns table cols)).toList }

def executeTableScan (order : List Bytes) (db : Db) (keyPrefix : Bytes) (table : TableDef)
    (cols : Option (List ColumnDef)) : ResultSet :=
  { columns := (resolveColumns table cols).map ColumnDef.name
    rows := (db.kv.scan order keyPrefix).map fun data =>
      projectRow (decodeRow data) (resolveColumns table cols) }

def executePointUpdate (db : Db) (key : Bytes) (assignments : List ResolvedAssignment) :
    Except SqlError (ResultSet × Db) :=
  match db.kv.lookup key with
  | none => .ok ({}, db)
  | some data => do
    let row ← (assign assignments (decodeRow data)).mapError (.within .update)
    pure ({ rowsAffected := 1 }, { db with kv := db.kv.insert key (encodeRow row) })

def executePointDelete (db : Db) (key : Bytes) : ResultSet × Db :=
  ({ rowsAffected := 1 }, { db with kv := db.kv.erase key })

def execute (order : List Bytes) (db : Db) : PhysicalPlan → Except SqlError (ResultSet × Db)
  | .createTable d => executeCreateTable db d
  | .insert key row _ => .ok (executeInsert db key row)
  | .pointGet key table cols => .ok (executePointGet db key table cols, db)
  | .tableScan keyPrefix table cols => .ok (executeTableScan order db keyPrefix table cols, db)
  | .pointUpdate key _ assignments => executePointUpdate db key assignments
  | .pointDelete key _ => .ok (executePointDelete db key)

/-! ### Running statements -/

/-- A statement through analyzer, planner and executor. -/
def runStatement (order : List Bytes) (db : Db) (stmt : Statement) :
    Except SqlError (ResultSet × Db) := do
  let p ← planned db.catalog stmt
  execute order db p

/-- A text through the parser and the rest. -/
def run (order : List Bytes) (db : Db) (text : Bytes) : Except SqlError (ResultSet × Db) := do
  let stmt ← (parse text).mapError .parse
  runStatement order db stmt

/-- A text, and the order in which the store lists its keys for it. -/
structure Request where
  text : Bytes
  order : List Bytes
  deriving DecidableEq, Repr

/-- The catalog and the store after an answer: a failed statement changes nothing. -/
def settled (db : Db) : Except SqlError (ResultSet × Db) → Db
  | .ok x => x.2
  | .error _ => db

/-- The catalog and the store after a text, which has failed or not. -/
def after (db : Db) (r : Request) : Db := settled db (run r.order db r.text)

def step (db : Db) (r : Request) : Option Db := some (after db r)

/-! ### What a statement does -/

/-- What a statement that succeeds does to the tables and rows. -/
inductive Effect (db : Db) : Statement → Db → Prop
  | unchanged (stmt : Statement) : Effect db stmt db
  | createTable {t : Bytes} {columns : List ColumnDef} {d : TableDef} (hd : d.WellFormed)
      (hname : d.name = t) (hnew : t ∉ db.catalog) :
      Effect db (.createTable t columns) { db with catalog := db.catalog.insert t d }
  | insert {t : Bytes} {columns : List Bytes} {values : List Expr} {table : TableDef} {v : Literal}
      {cells : List (Cell table)} (htable : db.catalog.lookup t = some table)
      (hkey : (Statement.insert t columns values).keyExpr table = some (.literal v))
      (htyped : table.KeyLiteral v)
      (hcells : insertAssignments table columns values = cells.map Cell.source) :
      Effect db (.insert t columns values)
        { db with
          kv := db.kv.insert (rowKey table.name v.keyText) (encodeRow (writeAll ∅ cells)) }
  | update {t : Bytes} {filter : Option Expr} {table : TableDef} {v : Literal}
      {cells : List (Cell table)} {data : Document} (htable : db.catalog.lookup t = some table)
      (hkey : Statement.compared filter = some (.literal v)) (htyped : table.KeyLiteral v)
      (hdata : db.kv.lookup (rowKey table.name v.keyText) = some data) :
      Effect db (.update t (cells.map Cell.source) filter)
        { db with
          kv := db.kv.insert (rowKey table.name v.keyText)
            (encodeRow (writeAll (decodeRow data) cells)) }
  | delete {t : Bytes} {filter : Option Expr} {table : TableDef} {v : Literal}
      (htable : db.catalog.lookup t = some table)
      (hkey : Statement.compared filter = some (.literal v)) (htyped : table.KeyLiteral v) :
      Effect db (.delete t filter) { db with kv := db.kv.erase (rowKey table.name v.keyText) }

open Except (bind_eq_ok_iff pure_eq_ok_iff mapError_eq_ok_iff)

variable {order : List Bytes} {db : Db}

theorem effect_of_runStatement {stmt : Statement} {x : ResultSet × Db}
    (hcat : db.catalog.WellFormed) (hrun : runStatement order db stmt = .ok x) :
    Effect db stmt x.2 := by
  obtain ⟨p, hp, h⟩ := bind_eq_ok_iff.1 hrun
  cases stmt with
  | createTable t columns =>
    obtain ⟨d, rfl, hd, rfl⟩ := planned_createTable hp
    simp only [execute, executeCreateTable, bind_eq_ok_iff, mapError_eq_ok_iff, pure_eq_ok_iff,
      Catalog.createTable] at h
    obtain ⟨cat, hnew, rfl⟩ := h
    split_ifs at hnew with hmem
    cases hnew
    exact .createTable hd rfl hmem
  | insert t columns values =>
    obtain ⟨table, v, cells, htable, hkey, htyped, hcells, rfl⟩ :=
      planned_insert hp fun table htable => (hcat t table htable).2.2
    cases h
    exact .insert htable hkey htyped hcells
  | select columns t filter =>
    obtain ⟨table, cols, -, ⟨-, rfl⟩ | ⟨v, -, -, rfl⟩⟩ := planned_select hp
    all_goals
      cases h
      exact .unchanged _
  | update t assignments filter =>
    obtain ⟨table, v, as, htable, hkey, htyped, rfl, hfits, rfl⟩ := planned_update hp
    rw [execute, executePointUpdate] at h
    cases hdata : db.kv.lookup (rowKey table.name v.keyText) with
    | none =>
      rw [hdata] at h
      cases h
      exact .unchanged _
    | some data =>
      rw [hdata] at h
      simp only [bind_eq_ok_iff, mapError_eq_ok_iff, pure_eq_ok_iff] at h
      obtain ⟨row, hrow, rfl⟩ := h
      obtain ⟨cells, hcells, rfl⟩ := assign_eq_ok hrow hfits
      rw [hcells]
      exact .update htable hkey htyped hdata
  | delete t filter =>
    obtain ⟨table, v, htable, hkey, htyped, rfl⟩ := planned_delete hp
    cases h
    exact .delete htable hkey htyped

theorem after_of_parse {r : Request} {stmt : Statement} (h : parse r.text = .ok stmt) :
    after db r = settled db (runStatement r.order db stmt) := by
  rw [after, run, h]
  rfl

theorem after_of_parse_error {r : Request} {e : ParseError} (h : parse r.text = .error e) :
    after db r = db := by
  rw [after, run, h]
  rfl

theorem effect_settled (hcat : db.catalog.WellFormed) (order : List Bytes) (stmt : Statement) :
    Effect db stmt (settled db (runStatement order db stmt)) := by
  cases hrun : runStatement order db stmt with
  | error e => exact .unchanged stmt
  | ok x => exact effect_of_runStatement hcat hrun

/-- A text does nothing, or what its statement does. -/
theorem after_cases (hcat : db.catalog.WellFormed) (r : Request) :
    after db r = db ∨ ∃ stmt, parse r.text = .ok stmt ∧ Effect db stmt (after db r) := by
  cases hparse : parse r.text with
  | error e => exact .inl (after_of_parse_error hparse)
  | ok stmt =>
    rw [after_of_parse hparse]
    exact .inr ⟨stmt, rfl, effect_settled hcat r.order stmt⟩

end Doki.Sql
