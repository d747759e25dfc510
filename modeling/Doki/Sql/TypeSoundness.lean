import Doki.Lib.Runs
import Doki.Sql.Documented
import Doki.Sql.Executor

/-!
# Stored rows have the types of their tables

Whatever texts are run, from an empty catalog and an empty store, and whether they
fail or not (`sound_run`): every table has columns of different names, exactly one of
them its primary key, and every row of the store belongs to a table, has only columns
of it, and values that are null or of the types of their columns.

The invariant behind it (`Db.Invariant`) also says what the keys are made of; a
statement keeps it because of what its effect is (`Effect.invariant`). A value may be
written and read any number of times: reading the literals of a type gives values of
the type (`Literal.hasType_stored`), and from then on they stay what they are.
-/

namespace Doki.Sql

open Json (Bytes)

/-! ### Values of a type -/

/-- The value is null, or a whole number, a text or a truth value as the type is. -/
inductive Value.HasType : Value → ColumnType → Prop
  | null (type : ColumnType) : HasType .null type
  | int (n : ℤ) : HasType (.int n) .int
  | float (n : ℤ) : HasType (.float n) .int
  | text (s : Bytes) : HasType (.text s) .text
  | bool (b : Bool) : HasType (.bool b) .bool

theorem Literal.hasType_stored (v : Literal) : v.value.stored.HasType v.columnType := by
  cases v with
  | int n => exact .float _
  | text s => exact .text _
  | bool b => exact .bool b
  | null => exact .null _

/-- What is stored is a row of the table: every value has the type of a column of its
    name. -/
def RowOf (table : TableDef) (data : Document) : Prop :=
  ∀ name x, (decodeRow data).lookup name = some x →
    ∃ col ∈ table.columns, col.name = name ∧ x.HasType col.type

/-- Writing cells over a row that has been read, or over nothing, keeps the types. -/
theorem rowOf_writeAll {table : TableDef} {data : Document} (h : RowOf table data)
    (cells : List (Cell table)) : RowOf table (encodeRow (writeAll (decodeRow data) cells)) := by
  intro name x hx
  rw [lookup_decodeRow_encodeRow, lookup_writeAll] at hx
  cases hc : cells.reverse.find? (·.column.name = name) with
  | some c =>
    rw [hc] at hx
    cases hx
    refine ⟨c.column, c.mem, of_decide_eq_true (List.find?_some hc :), ?_⟩
    rw [← c.typed]
    exact c.literal.hasType_stored
  | none =>
    rw [hc] at hx
    obtain ⟨j, hj, rfl⟩ : ∃ j, data.lookup name = some j ∧ j.decode = x := by
      simpa using hx
    exact h name _ (by rw [lookup_decodeRow, hj]; rfl)

theorem rowOf_empty (table : TableDef) : RowOf table ∅ := nofun

/-! ### The invariant -/

/-- A row of the store: it belongs to a table, and its key is made of the name of the
    table and a literal of the type of its primary key. -/
def Db.Entry (db : Db) (key : Bytes) (data : Document) : Prop :=
  ∃ table v, db.catalog.lookup table.name = some table ∧ table.KeyLiteral v ∧
    key = rowKey table.name v.keyText ∧ RowOf table data

structure Db.Invariant (db : Db) : Prop where
  catalog : db.catalog.WellFormed
  entry : ∀ key data, db.kv.lookup key = some data → db.Entry key data

theorem invariant_empty : Db.empty.Invariant := ⟨nofun, nofun⟩

variable {db db' : Db}

theorem Db.Invariant.lookup_name (h : db.Invariant) {t : Bytes} {table : TableDef}
    (htable : db.catalog.lookup t = some table) : db.catalog.lookup table.name = some table := by
  rw [(h.catalog t table htable).1, htable]

/-- Writing a row of a table. -/
theorem Db.Invariant.write (h : db.Invariant) {table : TableDef} {v : Literal} {data : Document}
    (htable : db.catalog.lookup table.name = some table) (htyped : table.KeyLiteral v)
    (hdata : RowOf table data) :
    ({ db with kv := db.kv.insert (rowKey table.name v.keyText) data } : Db).Invariant := by
  refine ⟨h.catalog, fun key data' hlookup => ?_⟩
  by_cases hkey : key = rowKey table.name v.keyText
  · subst hkey
    rw [Finmap.lookup_insert] at hlookup
    cases hlookup
    exact ⟨table, v, htable, htyped, rfl, hdata⟩
  · rw [Finmap.lookup_insert_of_ne _ hkey] at hlookup
    exact h.entry key data' hlookup

/-- A row that is updated belongs to the table it is looked for in. -/
theorem Db.Invariant.rowOf (h : db.Invariant) {table : TableDef} {k : Bytes} {data : Document}
    (htable : db.catalog.lookup table.name = some table)
    (hdata : db.kv.lookup (rowKey table.name k) = some data) : RowOf table data := by
  obtain ⟨table', v, htable', -, hkey, hrow⟩ := h.entry _ _ hdata
  have hname := ((rowKey_eq_iff (h.catalog _ _ htable).2.1 (h.catalog _ _ htable').2.1).1 hkey).1
  rw [hname, htable'] at htable
  cases htable
  exact hrow

/-- What a statement does keeps the invariant. -/
theorem Effect.invariant {stmt : Statement} (heffect : Effect db stmt db') (h : db.Invariant)
    (hname : IsName stmt.tableName) : db'.Invariant := by
  cases heffect with
  | unchanged => exact h
  | @createTable t columns d hd ht hnew =>
    have hold : ∀ name table, db.catalog.lookup name = some table →
        (db.catalog.insert t d).lookup name = some table := fun name table htable => by
      rw [Finmap.lookup_insert_of_ne, htable]
      rintro rfl
      exact hnew (Finmap.mem_of_lookup_eq_some htable)
    refine ⟨fun name table htable => ?_, fun key data hdata => ?_⟩
    · by_cases hnt : name = t
      · subst hnt
        rw [Finmap.lookup_insert] at htable
        cases htable
        exact ⟨ht, hname, hd⟩
      · rw [Finmap.lookup_insert_of_ne _ hnt] at htable
        exact h.catalog name table htable
    · obtain ⟨table, v, htable, hrest⟩ := h.entry key data hdata
      exact ⟨table, v, hold _ _ htable, hrest⟩
  | @insert t columns values table v cells htable _ htyped _ =>
    have hrow := rowOf_writeAll (rowOf_empty table) cells
    rw [decodeRow_empty] at hrow
    exact h.write (h.lookup_name htable) htyped hrow
  | @update t filter table v cells data htable _ htyped hdata =>
    have htable' := h.lookup_name htable
    exact h.write htable' htyped (rowOf_writeAll (h.rowOf htable' hdata) cells)
  | @delete t filter table v htable _ htyped =>
    refine ⟨h.catalog, fun key data hdata => ?_⟩
    by_cases hkey : key = rowKey table.name v.keyText
    · subst hkey
      rw [Finmap.lookup_erase] at hdata
      cases hdata
    · rw [Finmap.lookup_erase_ne hkey] at hdata
      exact h.entry key data hdata

theorem invariant_after (h : db.Invariant) (r : Request) : (after db r).Invariant := by
  rcases after_cases h.catalog r with hdb | ⟨stmt, hparse, heffect⟩
  · rwa [hdb]
  · exact heffect.invariant h (isName_tableName hparse)

theorem invariant_run (rs : List Request) : Runs.Throughout step Db.Invariant .empty rs := by
  refine Runs.throughout (C := fun _ _ => True) (fun db r db' h _ hstep => ?_) invariant_empty
    (Runs.Along.of_forall_mem fun _ _ => trivial)
  cases hstep
  exact invariant_after h r

/-! ### The result -/

/-- The tables are well formed, and every row of the store is one of a table: its key
    starts with the name of the table, and its values are null or of the types of the
    columns they stand under. -/
structure Db.Sound (db : Db) : Prop where
  nodup : ∀ name table, db.catalog.lookup name = some table →
    (table.columns.map ColumnDef.name).Nodup
  primaryKey : ∀ name table, db.catalog.lookup name = some table →
    ∃ pk, table.columns.filter (·.primaryKey) = [pk] ∧ pk.name = table.primaryKey
  rows : ∀ key data, db.kv.lookup key = some data →
    ∃ t table k, db.catalog.lookup t = some table ∧ key = rowKey t k ∧
      ∀ name x, (decodeRow data).lookup name = some x →
        ∃ col ∈ table.columns, col.name = name ∧ x.HasType col.type

/-- Whatever texts are run, what is stored has the types of its tables. -/
theorem sound_run (rs : List Request) : Runs.Throughout step Db.Sound .empty rs :=
  (invariant_run rs).mono fun db h =>
    { nodup := fun name table htable => (h.catalog name table htable).2.2.nodup
      primaryKey := fun name table htable => (h.catalog name table htable).2.2.primaryKey
      rows := fun key data hdata => by
        obtain ⟨table, v, htable, -, rfl, hrow⟩ := h.entry key data hdata
        exact ⟨table.name, table, v.keyText, htable, rfl, hrow⟩ }

end Doki.Sql
