import Doki.Lib.Lists
import Doki.Sql.Acceptance
import Doki.Sql.Rows

/-!
# Point lookups and scans

`SELECT * FROM t WHERE pk = v` is answered from the one key made of `t` and `v`, and
`SELECT * FROM t` from all keys of the table. They agree if every row stands at the key
of its primary key (`Db.KeysHold`, `agrees_iff_keysHold`), and that is not ensured by
the statements that write rows:

* an `INSERT` that gives the primary key more than once makes the key of the first
  value and the row of the last one;
* an `UPDATE` that assigns the primary key writes the row back to its old key;
* a value that is changed by storing it, an integer beyond 53 bits or a text that is
  not UTF-8, is found in the row as what it has become.

Whether a statement keeps the rows at their keys can be said before it is executed
(`KeepsKey`), and lookups and scans agree in every state of a run exactly if all its
statements do (`agrees_iff`). An `UPDATE` of the primary key breaks it (`row_moved`).
-/

namespace Doki.Sql

open Json (Bytes)

/-! ### The property -/

/-- The value is the literal, as a number, a text or a truth value. -/
def Value.is : Value → Literal → Bool
  | int m, .int n => m = n
  | float m, .int n => m = n
  | text s, .text s' => s = s'
  | bool b, .bool b' => b = b'
  | null, .null => true
  | _, _ => false

theorem Value.is_inj {x : Value} {v w : Literal} (hv : x.is v = true) (hw : x.is w = true) :
    v = w := by
  cases x <;> cases v <;> cases w <;> simp_all [Value.is]

def selectAll (t : Bytes) : Statement := .select [.star] t none

def selectKey (t pk : Bytes) (v : Literal) : Statement :=
  .select [.star] t (some (.binary (.column pk) .eq (.literal v)))

/-- For every table and every literal of the type of its primary key, looking up the
    literal gives the rows of the table that have it as their primary key. -/
def Db.LookupsAgree (db : Db) : Prop :=
  ∀ t table, db.catalog.lookup t = some table → ∀ v, table.KeyLiteral v →
    ∀ order, Enumerates order db.kv →
      ∃ point all, runStatement order db (selectKey t table.primaryKey v) = .ok (point, db) ∧
        runStatement order db (selectAll t) = .ok (all, db) ∧
        point.rows = all.rows.filter fun row => (row.lookup table.primaryKey).any (·.is v)

/-! ### Rows at their keys -/

/-- The primary key of a row that was read. -/
def TableDef.keyOf (table : TableDef) (row : Row) : Value :=
  (row.lookup table.primaryKey).getD .null

/-- Every row stands at the key of its primary key. -/
def Db.KeysHold (db : Db) : Prop :=
  ∀ t table v data, db.catalog.lookup t = some table → table.KeyLiteral v →
    db.kv.lookup (rowKey t v.keyText) = some data → (table.keyOf (decodeRow data)).is v = true

theorem lookup_projectRow (row : Row) {cols : List ColumnDef} {col : ColumnDef}
    (h : col ∈ cols) :
    (projectRow row cols).lookup col.name = some ((row.lookup col.name).getD .null) := by
  rw [projectRow, Finmap.lookup_foldl_insert (fun c : ColumnDef => c.name)
    (fun c => (row.lookup c.name).getD .null)]
  cases hfind : cols.reverse.find? (·.name = col.name) with
  | none =>
    exact absurd (decide_eq_true rfl) (List.find?_eq_none.1 hfind col (List.mem_reverse.2 h))
  | some c =>
    have hc : c.name = col.name := of_decide_eq_true (List.find?_some hfind :)
    rw [Option.map_some, hc]
    rfl

theorem any_is_projectRow {table : TableDef} {v : Literal} (hv : table.KeyLiteral v) (row : Row)
    (w : Literal) :
    ((projectRow row table.columns).lookup table.primaryKey).any (·.is w) =
      (table.keyOf row).is w := by
  obtain ⟨col, hcol, -⟩ := hv
  obtain ⟨hmem, hname⟩ := findColumn_eq_some hcol
  rw [← hname, lookup_projectRow row hmem, TableDef.keyOf, hname]
  rfl

open Except (bind_eq_ok_iff pure_eq_ok_iff mapError_eq_ok_iff)

variable {db : Db} {t : Bytes} {table : TableDef} {order : List Bytes}

theorem runStatement_selectAll (htable : db.catalog.lookup t = some table) :
    runStatement order db (selectAll t) =
      .ok (executeTableScan order db (tablePrefix table.name) table none, db) := by
  rw [runStatement, selectAll, planned, analyze, analyzeSelect,
    Catalog.getTable_eq_ok_iff.2 htable]
  rfl

theorem runStatement_select (htable : db.catalog.lookup t = some table) {v : Literal}
    (hv : table.KeyLiteral v) {columns : List Expr} {cols : Option (List ColumnDef)}
    (hcols : selectColumns table columns = .ok cols) :
    runStatement order db
        (.select columns t (some (.binary (.column table.primaryKey) .eq (.literal v)))) =
      .ok (executePointGet db (rowKey table.name v.keyText) table cols, db) := by
  obtain ⟨w, hw, hop, hexpr⟩ := resolveWhere_literal hv
  have hplan : planned db.catalog
      (.select columns t (some (.binary (.column table.primaryKey) .eq (.literal v)))) =
        .ok (.pointGet (rowKey table.name v.keyText) table cols) := by
    refine bind_eq_ok_iff.2 ⟨.select table cols (some w), ?_, ?_⟩
    · simp only [analyze, analyzeSelect, optionalWhere, mapError_eq_ok_iff,
        bind_eq_ok_iff, pure_eq_ok_iff, Catalog.getTable_eq_ok_iff]
      exact ⟨table, htable, cols, hcols, some w, ⟨w, hw, rfl⟩, rfl⟩
    · rw [plan, planSelect, if_pos hop, evalLiteralToString_literal hexpr]
      rfl
  rw [runStatement, hplan]
  rfl

theorem runStatement_selectKey (htable : db.catalog.lookup t = some table) {v : Literal}
    (hv : table.KeyLiteral v) :
    runStatement order db (selectKey t table.primaryKey v) =
      .ok (executePointGet db (rowKey table.name v.keyText) table none, db) :=
  runStatement_select htable hv rfl

/-! ### Agreeing lookups are rows at their keys -/

/-- Of the rows of a table that stand at their keys, one has a given primary key: the
    one at the key made of it. -/
theorem filter_scan (hinv : db.Invariant) (hkeys : db.KeysHold) (ho : Enumerates order db.kv)
    (htable : db.catalog.lookup t = some table) {v : Literal} (hv : table.KeyLiteral v) :
    (db.kv.scan order (tablePrefix t)).filter (fun data => (table.keyOf (decodeRow data)).is v) =
      (db.kv.lookup (rowKey t v.keyText)).toList := by
  obtain ⟨-, hisName, -⟩ := hinv.catalog t table htable
  -- a key of the table holds a row with the primary key only if it is made of it
  have hat : ∀ key ∈ order.filter fun key => (tablePrefix t).isPrefixOf key,
      (db.kv.lookup key).filter (fun data => (table.keyOf (decodeRow data)).is v) =
        if key = rowKey t v.keyText then db.kv.lookup (rowKey t v.keyText) else none := by
    intro key hkey
    obtain ⟨hmem, hpre⟩ := List.mem_filter.1 hkey
    obtain ⟨data, hdata⟩ := Finmap.mem_iff.1 ((ho.2 key).1 hmem)
    obtain ⟨table', w, htable', hw, rfl, -⟩ := hinv.entry key data hdata
    rw [(isPrefixOf_rowKey_iff hisName (hinv.catalog _ _ htable').2.1)] at hpre
    subst hpre
    rw [htable] at htable'
    cases htable'
    have hrow := hkeys _ _ w data htable hw hdata
    rw [hdata, Option.filter_some]
    by_cases hvw : w = v
    · subst hvw
      rw [if_pos hrow, if_pos rfl, hdata]
    · rw [if_neg fun h => hvw (Value.is_inj hrow h), if_neg]
      intro hkey
      exact hvw ((rowKey_eq_iff_of_keyLiteral hinv.catalog htable htable hw hv).1 hkey).2
  rw [KV.scan, List.filter_filterMap, List.filterMap_congr hat]
  refine List.filterMap_ite_eq (ho.1.filter _) fun hsome => ?_
  rw [List.mem_filter, ho.2, ← Finmap.lookup_isSome]
  exact ⟨hsome, (isPrefixOf_rowKey_iff hisName hisName).2 rfl⟩

theorem agrees_iff_keysHold (hinv : db.Invariant) : db.LookupsAgree ↔ db.KeysHold := by
  constructor
  · intro h t table v data htable hv hdata
    have ho : Enumerates db.kv.keys.toList db.kv :=
      ⟨Finset.nodup_toList _, fun key => by rw [Finset.mem_toList, Finmap.mem_keys]⟩
    obtain ⟨point, all, hpoint, -, hrows⟩ := h t table htable v hv _ ho
    rw [runStatement_selectKey htable hv] at hpoint
    cases hpoint
    have hmem : projectRow (decodeRow data) table.columns ∈
        (executePointGet db (rowKey table.name v.keyText) table none).rows := by
      rw [executePointGet, (hinv.catalog t table htable).1, hdata]
      exact List.mem_cons_self
    rw [hrows, List.mem_filter, any_is_projectRow hv] at hmem
    exact hmem.2
  · intro h t table htable v hv order ho
    refine ⟨_, _, runStatement_selectKey htable hv, runStatement_selectAll htable, ?_⟩
    obtain rfl := (hinv.catalog t table htable).1
    simp only [executePointGet, executeTableScan, resolveColumns, Option.getD_none, List.filter_map,
      Function.comp_def, any_is_projectRow hv, filter_scan hinv h ho htable hv]
    cases db.kv.lookup (rowKey table.name v.keyText) <;> rfl

/-! ### Which statements keep rows at their keys -/

/-- The primary key of a row after writing cells: the last one given for it, as it is
    stored, or the old one. -/
theorem keyOf_writeAll (data : Document) (cells : List (Cell table)) :
    table.keyOf (decodeRow (encodeRow (writeAll (decodeRow data) cells))) =
      ((cells.filter (·.column.name = table.primaryKey)).getLast?.map
        fun c => c.literal.value.stored).getD (table.keyOf (decodeRow data)) := by
  rw [TableDef.keyOf, TableDef.keyOf, lookup_decodeRow_encodeRow, lookup_writeAll,
    List.getLast?_filter]
  cases cells.reverse.find? (·.column.name = table.primaryKey) with
  | some c => rfl
  | none =>
    rw [Option.map_none, Option.none_or, lookup_decodeRow]
    cases data.lookup table.primaryKey with
    | none => rfl
    | some j => exact Value.stored_decode j

theorem given_map_source (name : Bytes) (cells : List (Cell table)) :
    given name (cells.map Cell.source) =
      (cells.filter (·.column.name = name)).map fun c => .literal c.literal := by
  rw [given, List.filter_map, List.map_map]
  rfl

/-- A statement that is accepted keeps the rows at their keys: of the values it gives
    for the primary key, the last one is stored as the one that names the row. An
    `UPDATE` of a row that is not there, or with a value that is no literal, writes
    nothing. -/
def KeepsKey (db : Db) : Statement → Prop
  | .insert t columns values => ∀ p table v w,
      planned db.catalog (.insert t columns values) = .ok p →
      db.catalog.lookup t = some table →
      (given table.primaryKey (insertAssignments table columns values)).head? =
        some (.literal v) →
      (given table.primaryKey (insertAssignments table columns values)).getLast? =
        some (.literal w) →
      w.value.stored.is v = true
  | .update t assignments filter => ∀ p table v w,
      planned db.catalog (.update t assignments filter) = .ok p →
      db.catalog.lookup t = some table →
      (∀ a ∈ assignments, ∃ u, a.value = .literal u) →
      Statement.compared filter = some (.literal v) → rowKey t v.keyText ∈ db.kv →
      (given table.primaryKey assignments).getLast? = some (.literal w) →
      w.value.stored.is v = true
  | _ => True

theorem keepsKey_of_error {stmt : Statement} {e : SqlError}
    (h : planned db.catalog stmt = .error e) : KeepsKey db stmt := by
  have hne : ∀ p, planned db.catalog stmt ≠ .ok p := fun p hp => by
    rw [h] at hp
    cases hp
  cases stmt with
  | insert => exact fun p _ _ _ hp => absurd hp (hne p)
  | update => exact fun p _ _ _ hp => absurd hp (hne p)
  | _ => trivial

/-- The row stands at the key of its primary key. -/
def KeyHeld (table : TableDef) (k : Bytes) (data : Document) : Prop :=
  ∀ v, table.KeyLiteral v → v.keyText = k → (table.keyOf (decodeRow data)).is v = true

theorem keysHold_iff : db.KeysHold ↔ db.AllRows KeyHeld := by
  constructor
  · intro h t table k data htable hdata v hv hk
    subst hk
    exact h t table v data htable hv hdata
  · intro h t table v data htable hv hdata
    exact h t table v.keyText data htable hdata v hv rfl

theorem keysHold_write_iff (hinv : db.Invariant) (hkeys : db.KeysHold)
    (htable : db.catalog.lookup t = some table) {v : Literal} (hv : table.KeyLiteral v)
    (data : Document) :
    ({ db with kv := db.kv.insert (rowKey table.name v.keyText) data } : Db).KeysHold ↔
      (table.keyOf (decodeRow data)).is v = true := by
  rw [keysHold_iff, allRows_write_iff hinv (keysHold_iff.1 hkeys) htable]
  refine ⟨fun h => h v hv rfl, fun h w hw hk => ?_⟩
  have hkey : rowKey table.name w.keyText = rowKey table.name v.keyText := by rw [hk]
  rwa [((rowKey_eq_iff_of_keyLiteral hinv.catalog htable htable hw hv).1 hkey).2]

/-- A written row has a primary key exactly if the last value given for it is stored as
    it, or the row had it before. -/
theorem is_keyOf_writeAll_iff {data : Document} {cells : List (Cell table)} {v : Literal}
    (h : given table.primaryKey (cells.map Cell.source) = [] →
      (table.keyOf (decodeRow data)).is v = true) :
    (table.keyOf (decodeRow (encodeRow (writeAll (decodeRow data) cells)))).is v = true ↔
      ∀ w, (given table.primaryKey (cells.map Cell.source)).getLast? = some (.literal w) →
        w.value.stored.is v = true := by
  rw [given_map_source] at h ⊢
  rw [keyOf_writeAll, List.getLast?_map]
  cases hlast : (cells.filter (·.column.name = table.primaryKey)).getLast? with
  | none =>
    rw [List.getLast?_eq_none_iff.1 hlast] at h
    exact iff_of_true (h rfl) nofun
  | some c =>
    refine ⟨fun hc w hw => ?_, fun hw => hw c.literal rfl⟩
    cases hw
    exact hc

theorem keysHold_insert_iff (hinv : db.Invariant) (hkeys : db.KeysHold) (columns : List Bytes)
    (values : List Expr) :
    (settled db (runStatement order db (.insert t columns values))).KeysHold ↔
      KeepsKey db (.insert t columns values) := by
  rw [runStatement]
  cases hp : planned db.catalog (.insert t columns values) with
  | error e => exact iff_of_true hkeys (keepsKey_of_error hp)
  | ok p =>
    obtain ⟨table, v, cells, htable, hkey, hv, hcells, rfl⟩ :=
      planned_insert hp fun table htable => (hinv.catalog t table htable).2.2
    have hgiven : (given table.primaryKey (cells.map Cell.source)).head? = some (.literal v) := by
      rw [← hcells]
      exact hkey
    refine (keysHold_write_iff hinv hkeys htable hv _).trans ?_
    rw [← decodeRow_empty, is_keyOf_writeAll_iff (by rintro h; rw [h] at hgiven; cases hgiven)]
    constructor
    · intro h p' table' v' w _ htable' hv' hw
      rw [htable] at htable'
      cases htable'
      rw [hcells] at hv' hw
      rw [hgiven] at hv'
      cases hv'
      exact h w hw
    · intro h w hw
      rw [← hcells] at hw
      exact h _ table v w hp htable hkey hw

theorem keysHold_update_iff (hinv : db.Invariant) (hkeys : db.KeysHold)
    (assignments : List Assignment) (filter : Option Expr) :
    (settled db (runStatement order db (.update t assignments filter))).KeysHold ↔
      KeepsKey db (.update t assignments filter) := by
  rcases settled_update hinv.catalog order t assignments filter with
    ⟨table, cells, k, data, hof, hdata, hsettled⟩ | ⟨hnone, hsettled⟩
  · obtain ⟨rfl, -, hwf⟩ := hinv.catalog t table hof.table_eq
    have hk : Statement.compared filter = some (.literal k) := by
      rw [hof.filter_eq]
      rfl
    rw [hsettled]
    refine (keysHold_write_iff hinv hkeys hof.table_eq hof.key _).trans ?_
    rw [is_keyOf_writeAll_iff fun _ => hkeys _ table k data hof.table_eq hof.key hdata,
      ← hof.cells_eq]
    constructor
    · intro h p table' v w _ htable' _ hv _ hw
      rw [hof.table_eq] at htable'
      cases htable'
      rw [hk] at hv
      cases hv
      exact h w hw
    · intro h w hw
      refine h _ table k w (hof.planned_eq hwf) hof.table_eq (fun a ha => ?_) hk
        (Finmap.mem_of_lookup_eq_some hdata) hw
      rw [hof.cells_eq] at ha
      obtain ⟨c, -, rfl⟩ := List.mem_map.1 ha
      exact ⟨c.literal, rfl⟩
  · rw [hsettled]
    refine iff_of_true hkeys fun p table v w hp htable hlit hv hmem => ?_
    obtain ⟨table', cells, k, hof, hk⟩ := updateOf_of_planned hp hlit
    obtain rfl := (hinv.catalog t table' hof.table_eq).1
    rw [hv] at hk
    cases hk
    exact absurd hmem (hnone table' cells v hof)

/-- A statement leaves rows at their keys exactly if it keeps them there. -/
theorem keysHold_settled_iff (hinv : db.Invariant) (hkeys : db.KeysHold) {stmt : Statement}
    (hname : IsName stmt.tableName) :
    (settled db (runStatement order db stmt)).KeysHold ↔ KeepsKey db stmt := by
  have hother : stmt.writesRow = false → (settled db (runStatement order db stmt)).KeysHold :=
    fun hwrites => keysHold_iff.2 ((keysHold_iff.1 hkeys).settled hinv order hname hwrites)
  cases stmt with
  | insert t columns values => exact keysHold_insert_iff hinv hkeys columns values
  | update t assignments filter => exact keysHold_update_iff hinv hkeys assignments filter
  | _ => exact iff_of_true (hother rfl) trivial

theorem keysHold_after_iff (hinv : db.Invariant) (hkeys : db.KeysHold) (r : Request) :
    (after db r).KeysHold ↔ ∀ stmt, parse r.text = .ok stmt → KeepsKey db stmt :=
  after_iff hkeys r fun _ hparse => keysHold_settled_iff hinv hkeys (isName_tableName hparse)

/-- Lookups and scans agree in every state of a run exactly if all its statements keep
    the rows at their keys. -/
theorem agrees_iff (rs : List Request) :
    Runs.Throughout step Db.LookupsAgree .empty rs ↔
      Runs.Along step (fun db r => ∀ stmt, parse r.text = .ok stmt → KeepsKey db stmt)
        .empty rs := by
  refine Runs.throughout_iff_along (fun db r hinv hagree => ?_) invariant_empty
    ((agrees_iff_keysHold invariant_empty).2 nofun)
  have hinv' := invariant_after hinv r
  refine ⟨after db r, rfl, hinv', ?_⟩
  rw [agrees_iff_keysHold hinv', keysHold_after_iff hinv ((agrees_iff_keysHold hinv).1 hagree)]

/-- A row is inserted, and then given another primary key. -/
def moved : List Request :=
  [⟨bytes "CREATE TABLE users (id INT PRIMARY KEY, name TEXT)", []⟩,
    ⟨bytes "INSERT INTO users VALUES (1, 'alice')", []⟩,
    ⟨bytes "UPDATE users SET id = 2 WHERE id = 1", []⟩]

/-- The primary keys of the rows of an answer. -/
def keysOf (pk : Bytes) (x : Except SqlError (ResultSet × Db)) : Option (List (Option Value)) :=
  x.toOption.map fun y => y.1.rows.map (·.lookup pk)

def users : TableDef :=
  { name := bytes "users"
    columns := [⟨bytes "id", .int, true, false⟩, ⟨bytes "name", .text, false, false⟩]
    primaryKey := bytes "id" }

/-- After the primary key of a row is updated from 1 to 2, looking up 1 finds the row with
    primary key 2, and looking up 2 finds none. -/
theorem row_moved : ∃ db, Runs.exec step .empty moved = some db ∧
    keysOf (bytes "id") (runStatement [bytes "users/1"] db
      (selectKey (bytes "users") (bytes "id") (.int 1))) = some [some (.float 2)] ∧
    keysOf (bytes "id") (runStatement [bytes "users/1"] db
      (selectKey (bytes "users") (bytes "id") (.int 2))) = some [] ∧
    keysOf (bytes "id") (runStatement [bytes "users/1"] db (selectAll (bytes "users"))) =
      some [some (.float 2)] ∧
    ¬ Runs.Throughout step Db.LookupsAgree .empty moved := by
  obtain ⟨db, hdb, hpoint, hnone, hall, hcat, horder⟩ : ∃ db,
      Runs.exec step .empty moved = some db ∧
      keysOf (bytes "id") (runStatement [bytes "users/1"] db
        (selectKey (bytes "users") (bytes "id") (.int 1))) = some [some (.float 2)] ∧
      keysOf (bytes "id") (runStatement [bytes "users/1"] db
        (selectKey (bytes "users") (bytes "id") (.int 2))) = some [] ∧
      keysOf (bytes "id") (runStatement [bytes "users/1"] db (selectAll (bytes "users"))) =
        some [some (.float 2)] ∧
      db.catalog.lookup (bytes "users") = some users ∧ Enumerates [bytes "users/1"] db.kv := by
    refine ⟨_, rfl, ?_, ?_, ?_, ?_, ?_⟩
    all_goals decide +kernel
  refine ⟨db, hdb, hpoint, hnone, hall, fun h => ?_⟩
  obtain ⟨point, all, hanswer, -, hrows⟩ :=
    h.last hdb (bytes "users") users hcat (.int 1) ⟨_, rfl, rfl⟩ _ horder
  rw [show bytes "id" = users.primaryKey from rfl, hanswer] at hpoint
  -- the row that is found is not one that the filter lets through
  have hkeys : point.rows.map (·.lookup users.primaryKey) = [some (.float 2)] :=
    Option.some.inj hpoint
  obtain ⟨row, hrow, hkey⟩ := List.mem_map.1 (hkeys ▸ List.mem_cons_self)
  rw [hrows, List.mem_filter, hkey] at hrow
  exact absurd hrow.2 (by decide)

end Doki.Sql
