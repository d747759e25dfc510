import Doki.Sql.Acceptance
import Doki.Sql.Fidelity
import Doki.Sql.PointLookup

/-!
# Nulls

A column may be declared `NOT NULL`, and the primary key is not meant to be null
either, but no stage reads the declaration. What decides on a `NULL` is the type of
the column: the analyzer takes it for an integer.

* `accepted_iff_int`: a `NULL` for a column is accepted exactly if the column is an
  integer;
* `notNullHolds_after_iff`: a statement leaves no null in a `NOT NULL` column exactly
  if it fills these columns itself (`FillsNotNull`);
* `nulls_iff`: hence the declarations are respected just where types and statements
  happen to agree with them; `null_stored` has a case of each kind in which they do
  not.
-/

namespace Doki.Sql

open Json (Bytes)

variable {cat : Catalog} {table : TableDef} {col : ColumnDef} {stmt : Statement}

/-! ### Accepting a null -/

/-- The value is a literal other than `NULL`, of the type of its column. -/
def WellTyped (table : TableDef) (a : Assignment) : Prop :=
  ∃ c : Cell table, c.literal ≠ .null ∧ a = c.source

/-- One of the assignments is that of `NULL` to the column, and the others are well
    typed. -/
def NullAmong (table : TableDef) (col : ColumnDef) (as : List Assignment) : Prop :=
  ∃ before after, as = before ++ ⟨col.name, .literal .null⟩ :: after ∧
    ∀ a ∈ before ++ after, WellTyped table a

/-- The statement is an `INSERT` or an `UPDATE` that has `NULL` for the column, and
    nothing else about it is wrong. -/
inductive GivesNull (cat : Catalog) (col : ColumnDef) : Statement → Prop
  | insert {t : Bytes} {columns : List Bytes} {values : List Expr} {table : TableDef}
      (htable : cat.lookup t = some table) (hcol : col ∈ table.columns)
      (hcount : values.length = (insertNames table columns).length)
      (hkey : table.primaryKey ∈ insertNames table columns)
      (hnull : NullAmong table col (insertAssignments table columns values)) :
      GivesNull cat col (.insert t columns values)
  | update {t : Bytes} {as : List Assignment} {table : TableDef} {k : Literal}
      (htable : cat.lookup t = some table) (hcol : col ∈ table.columns)
      (hkey : table.KeyLiteral k) (hnull : NullAmong table col as) :
      GivesNull cat col (.update t as (whereKey table k))

/-- The columns of a table are known by their names. -/
theorem TableDef.WellFormed.column_eq (h : table.WellFormed) {c d : ColumnDef}
    (hc : c ∈ table.columns) (hd : d ∈ table.columns) (hname : c.name = d.name) : c = d :=
  List.inj_on_of_nodup_map h.nodup hc hd hname

/-- With an integer column, the assignments are those of cells. -/
theorem NullAmong.exists_cells {as : List Assignment} (h : NullAmong table col as)
    (hcol : col ∈ table.columns) (hint : col.type = .int) :
    ∃ cells : List (Cell table), as = cells.map Cell.source := by
  obtain ⟨before, after, rfl, htyped⟩ := h
  have hrange : before ++ ⟨col.name, .literal .null⟩ :: after ∈
      Set.range (List.map (Cell.source : Cell table → Assignment)) := by
    rw [Set.range_list_map]
    intro a ha
    rcases List.mem_append.1 ha with ha | ha
    · obtain ⟨c, -, rfl⟩ := htyped a (List.mem_append_left _ ha)
      exact ⟨c, rfl⟩
    · rcases List.mem_cons.1 ha with rfl | ha
      · exact ⟨⟨col, .null, hcol, hint.symm⟩, rfl⟩
      · obtain ⟨c, -, rfl⟩ := htyped a (List.mem_append_right _ ha)
        exact ⟨c, rfl⟩
  obtain ⟨cells, hcells⟩ := hrange
  exact ⟨cells, hcells.symm⟩

theorem NullAmong.mem {as : List Assignment} (h : NullAmong table col as) :
    ⟨col.name, .literal .null⟩ ∈ as := by
  obtain ⟨before, after, rfl, -⟩ := h
  exact List.mem_append_right _ List.mem_cons_self

/-- The first value given for a column that is named. -/
theorem exists_head_given {name : Bytes} {cells : List (Cell table)}
    (h : name ∈ cells.map fun c => c.column.name) :
    ∃ v, (given name (cells.map Cell.source)).head? = some (.literal v) := by
  obtain ⟨c, hc, rfl⟩ := List.mem_map.1 h
  have hmem : c ∈ cells.filter (·.column.name = c.column.name) :=
    List.mem_filter.2 ⟨hc, decide_eq_true rfl⟩
  rw [given_map_source, List.head?_map]
  cases hf : cells.filter (·.column.name = c.column.name) with
  | nil =>
    rw [hf] at hmem
    cases hmem
  | cons d ds => exact ⟨d.literal, rfl⟩

/-- A `NULL` for a column is accepted exactly if the column is an integer. -/
theorem accepted_iff_int (hcat : cat.WellFormed) (h : GivesNull cat col stmt) :
    (∃ p, planned cat stmt = .ok p) ↔ col.type = .int := by
  cases h with
  | @insert t columns values table htable hcol hcount hkey hnull =>
    have hwf := (hcat t table htable).2.2
    constructor
    · rintro ⟨p, hp⟩
      obtain ⟨table', v, cells, htable', -, -, hcells, -⟩ :=
        planned_insert hp fun table' htable' => (hcat t table' htable').2.2
      rw [htable] at htable'
      cases htable'
      obtain ⟨c, -, hc⟩ := List.mem_map.1 (hcells ▸ hnull.mem)
      obtain ⟨hname, hlit⟩ := Assignment.mk.inj hc
      rw [← hwf.column_eq c.mem hcol hname, ← c.typed, Expr.literal.inj hlit]
      rfl
    · intro hint
      obtain ⟨cells, hcells⟩ := hnull.exists_cells hcol hint
      have hnames := ((zipWith_mk_eq_iff hcount).1 hcells).1
      rw [List.map_map] at hnames
      obtain ⟨v, hv⟩ := exists_head_given (hnames ▸ hkey)
      have hkey : (Statement.insert t columns values).keyExpr table = some (.literal v) := by
        rw [Statement.keyExpr, hcells, hv]
      exact ⟨_, planned_insert_cells htable hwf hcount hcells hkey⟩
  | @update t as table k htable hcol hkey hnull =>
    have hwf := (hcat t table htable).2.2
    constructor
    · rintro ⟨p, hp⟩
      obtain ⟨table', v, as', htable', -, -, rfl, hfits, -⟩ := planned_update hp
      rw [htable] at htable'
      cases htable'
      obtain ⟨a, ha, hsource⟩ := List.mem_map.1 hnull.mem
      obtain ⟨hname, hlit⟩ := Assignment.mk.inj hsource
      rw [← hwf.column_eq (hfits a ha).mem hcol hname, ← (hfits a ha).typed _ hlit]
      rfl
    · intro hint
      obtain ⟨cells, rfl⟩ := hnull.exists_cells hcol hint
      exact ⟨_, planned_update_cells htable hwf cells hkey⟩

/-! ### Storing a null -/

/-- The row has a value other than null for the column. -/
def Filled (row : Row) (name : Bytes) : Prop := ∃ x, row.lookup name = some x ∧ x ≠ .null

/-- No row of a table has a `NOT NULL` column that is null or missing. -/
def Db.NotNullHolds (db : Db) : Prop :=
  ∀ t table k data, db.catalog.lookup t = some table → db.kv.lookup (rowKey t k) = some data →
    ∀ col ∈ table.columns, col.notNull = true → Filled (decodeRow data) col.name

/-- The statement fills the `NOT NULL` columns of the row that it writes: an `INSERT` gives
    a literal other than `NULL` for each of them, and an `UPDATE` does not give `NULL`. -/
def FillsNotNull (db : Db) : Statement → Prop
  | .insert t columns values => ∀ table cells k,
      InsertOf db.catalog t columns values table cells k →
      ∀ col ∈ table.columns, col.notNull = true →
        ∃ v, (given col.name (insertAssignments table columns values)).getLast? =
          some (.literal v) ∧ v ≠ .null
  | .update t as filter => ∀ table cells k,
      UpdateOf db.catalog t as filter table cells k → rowKey table.name k.keyText ∈ db.kv →
      ∀ col ∈ table.columns, col.notNull = true →
        (given col.name as).getLast? ≠ some (.literal .null)
  | _ => True

variable {db : Db} {t : Bytes} {order : List Bytes}

theorem Literal.stored_ne_null_iff {v : Literal} : v.value.stored ≠ .null ↔ v ≠ .null := by
  cases v <;> simp [Literal.value, Value.stored, Value.encode, JsonValue.decode]

/-- A column of a written row is filled by the last value given for it, or was filled
    before. -/
theorem filled_writeAll_iff (data : Document) (cells : List (Cell table)) (name : Bytes) :
    Filled (decodeRow (encodeRow (writeAll (decodeRow data) cells))) name ↔
      (∃ v, (given name (cells.map Cell.source)).getLast? = some (.literal v) ∧ v ≠ .null) ∨
        (given name (cells.map Cell.source)).getLast? = none ∧ Filled (decodeRow data) name := by
  rw [Filled, lookup_decodeRow_encodeRow, lookup_writeAll, given_map_source, List.getLast?_map,
    List.getLast?_filter]
  cases cells.reverse.find? (·.column.name = name) with
  | some c => simp [Literal.stored_ne_null_iff]
  | none =>
    rw [Option.map_none, Option.none_or, Option.map_none, Filled, lookup_decodeRow]
    cases data.lookup name <;> simp

/-- No `NOT NULL` column of the row is null or missing. -/
def RowFilled (table : TableDef) (_ : Bytes) (data : Document) : Prop :=
  ∀ col ∈ table.columns, col.notNull = true → Filled (decodeRow data) col.name

theorem notNullHolds_iff : db.NotNullHolds ↔ db.AllRows RowFilled := Iff.rfl

theorem notNullHolds_write_iff (hinv : db.Invariant) (h : db.NotNullHolds)
    (htable : db.catalog.lookup t = some table) (k : Bytes) (data : Document) :
    ({ db with kv := db.kv.insert (rowKey table.name k) data } : Db).NotNullHolds ↔
      ∀ col ∈ table.columns, col.notNull = true → Filled (decodeRow data) col.name :=
  allRows_write_iff hinv (notNullHolds_iff.1 h) htable k data

theorem notNullHolds_insert_iff (hinv : db.Invariant) (h : db.NotNullHolds)
    (columns : List Bytes) (values : List Expr) :
    (settled db (runStatement order db (.insert t columns values))).NotNullHolds ↔
      FillsNotNull db (.insert t columns values) := by
  rcases settled_insert hinv.catalog order t columns values with
    ⟨table, cells, k, hof, hdb⟩ | ⟨hnone, hdb⟩
  · rw [hdb, notNullHolds_write_iff hinv h hof.table_eq, ← decodeRow_empty]
    constructor
    · intro hfilled table' cells' k' hof' col hcol hnn
      obtain rfl := Option.some.inj (hof.table_eq.symm.trans hof'.table_eq)
      rcases (filled_writeAll_iff _ _ _).1 (hfilled col hcol hnn) with hv | ⟨-, x, hx, -⟩
      · rwa [hof.cells_eq]
      · rw [decodeRow_empty, Finmap.lookup_empty] at hx
        cases hx
    · intro hfills col hcol hnn
      have hv := hfills table cells k hof col hcol hnn
      rw [hof.cells_eq] at hv
      exact (filled_writeAll_iff _ _ _).2 (.inl hv)
  · rw [hdb]
    exact iff_of_true h fun table cells k hof => absurd hof (hnone table cells k)

theorem notNullHolds_update_iff (hinv : db.Invariant) (h : db.NotNullHolds)
    (as : List Assignment) (filter : Option Expr) :
    (settled db (runStatement order db (.update t as filter))).NotNullHolds ↔
      FillsNotNull db (.update t as filter) := by
  rcases settled_update hinv.catalog order t as filter with
    ⟨table, cells, k, data, hof, hdata, hdb⟩ | ⟨hnone, hdb⟩
  · have hname := (hinv.catalog t table hof.table_eq).1
    have hold : ∀ col ∈ table.columns, col.notNull = true → Filled (decodeRow data) col.name :=
      h t table k.keyText data hof.table_eq (hname ▸ hdata)
    rw [hdb, notNullHolds_write_iff hinv h hof.table_eq]
    constructor
    · intro hfilled table' cells' k' hof' _ col hcol hnn hnull
      obtain rfl := Option.some.inj (hof.table_eq.symm.trans hof'.table_eq)
      rw [hof.cells_eq] at hnull
      rcases (filled_writeAll_iff _ _ _).1 (hfilled col hcol hnn) with ⟨v, hv, hne⟩ | ⟨hlast, -⟩
      · rw [hv] at hnull
        cases hnull
        exact hne rfl
      · rw [hlast] at hnull
        cases hnull
    · intro hfills col hcol hnn
      have hv := hfills table cells k hof (Finmap.mem_of_lookup_eq_some hdata) col hcol hnn
      rw [hof.cells_eq] at hv
      refine (filled_writeAll_iff _ _ _).2 ?_
      cases hlast : (given col.name (cells.map Cell.source)).getLast? with
      | none => exact .inr ⟨rfl, hold col hcol hnn⟩
      | some e =>
        rw [given_map_source, List.getLast?_map] at hlast
        obtain ⟨c, -, rfl⟩ := Option.map_eq_some_iff.1 hlast
        refine .inl ⟨c.literal, rfl, fun hnull => hv ?_⟩
        rw [given_map_source, List.getLast?_map, hlast, hnull]
  · rw [hdb]
    exact iff_of_true h fun table cells k hof hmem => absurd hmem (hnone table cells k hof)

/-- A statement leaves no null in a `NOT NULL` column exactly if it fills these columns. -/
theorem notNullHolds_settled_iff (hinv : db.Invariant) (h : db.NotNullHolds)
    (hname : IsName stmt.tableName) :
    (settled db (runStatement order db stmt)).NotNullHolds ↔ FillsNotNull db stmt := by
  have hother : stmt.writesRow = false →
      (settled db (runStatement order db stmt)).NotNullHolds :=
    (notNullHolds_iff.1 h).settled hinv order hname
  cases stmt with
  | insert t columns values => exact notNullHolds_insert_iff hinv h columns values
  | update t as filter => exact notNullHolds_update_iff hinv h as filter
  | _ => exact iff_of_true (hother rfl) trivial

theorem notNullHolds_after_iff (hinv : db.Invariant) (h : db.NotNullHolds) (r : Request) :
    (after db r).NotNullHolds ↔ ∀ stmt, parse r.text = .ok stmt → FillsNotNull db stmt :=
  after_iff h r fun _ hparse => notNullHolds_settled_iff hinv h (isName_tableName hparse)

theorem notNullHolds_run_iff (rs : List Request) :
    Runs.Throughout step Db.NotNullHolds .empty rs ↔
      Runs.Along step (fun db r => ∀ stmt, parse r.text = .ok stmt → FillsNotNull db stmt)
        .empty rs :=
  Runs.throughout_iff_along
    (fun db r hinv h => ⟨after db r, rfl, invariant_after hinv r, notNullHolds_after_iff hinv h r⟩)
    invariant_empty nofun

/-! ### The result -/

/-- The column may be null by its declaration. -/
def Nullable (col : ColumnDef) : Prop := col.notNull = false ∧ col.primaryKey = false

instance (col : ColumnDef) : Decidable (Nullable col) :=
  inferInstanceAs (Decidable (col.notNull = false ∧ col.primaryKey = false))

/-- A `NULL` for a column is accepted as the column's declaration says exactly if the
    integers are the columns that may be null, and no null is ever stored in a `NOT NULL`
    column exactly if every statement fills these columns. -/
theorem nulls_iff (rs : List Request) :
    (∀ cat col stmt, Catalog.WellFormed cat → GivesNull cat col stmt →
      (((∃ p, planned cat stmt = .ok p) ↔ Nullable col) ↔ (col.type = .int ↔ Nullable col))) ∧
    (Runs.Throughout step Db.NotNullHolds .empty rs ↔
      Runs.Along step (fun db r => ∀ stmt, parse r.text = .ok stmt → FillsNotNull db stmt)
        .empty rs) := by
  refine ⟨fun cat col stmt hcat h => ?_, notNullHolds_run_iff rs⟩
  rw [accepted_iff_int hcat h]

/-- An `INSERT` of the number 1 and `NULL`. -/
def insertNull (table : TableDef) : Statement :=
  .insert table.name [] [.literal (.int 1), .literal .null]

/-- In a table of two columns, the first one an integer and the primary key, the second
    value is for the second column. -/
theorem givesNull_insertNull {pk : ColumnDef} (hcolumns : table.columns = [pk, col])
    (hpk : pk.name = table.primaryKey) (hint : pk.type = .int)
    (htable : cat.lookup table.name = some table) : GivesNull cat col (insertNull table) := by
  have hnames : insertNames table [] = [pk.name, col.name] := by
    rw [insertNames, if_pos rfl, hcolumns]
    rfl
  have hmem : pk ∈ table.columns := by
    rw [hcolumns]
    exact List.mem_cons_self
  refine .insert htable ?_ ?_ ?_ ⟨[⟨pk.name, .literal (.int 1)⟩], [], ?_, ?_⟩
  · rw [hcolumns]
    exact List.mem_cons_of_mem _ List.mem_cons_self
  · rw [hnames]
    rfl
  · rw [hnames, ← hpk]
    exact List.mem_cons_self
  · rw [insertAssignments, ← insertNames, hnames]
    rfl
  · exact List.forall_mem_singleton.2 ⟨⟨pk, .int 1, hmem, hint.symm⟩, by simp, rfl⟩

theorem nulls_accounts : ∃ db, Runs.exec step .empty createAccounts = some db ∧
    ((∃ p, planned db.catalog (insertNull accounts) = .ok p) ↔ Nullable balanceColumn) := by
  obtain ⟨db, hdb, hcat, htable⟩ := exists_accounts
  have hnull : GivesNull db.catalog balanceColumn (insertNull accounts) :=
    givesNull_insertNull rfl rfl rfl htable
  exact ⟨db, hdb, ((nulls_iff createAccounts).1 _ _ _ hcat hnull).2 (by decide)⟩

def nameColumn : ColumnDef := ⟨bytes "name", .text, false, false⟩

def pointsColumn : ColumnDef := ⟨bytes "points", .int, false, true⟩

def scores : TableDef :=
  { name := bytes "scores"
    columns := [idColumn, pointsColumn]
    primaryKey := idColumn.name }

/-- Two tables, and a row of the second one. -/
def nullScore : List Request :=
  [⟨bytes "CREATE TABLE users (id INT PRIMARY KEY, name TEXT)", []⟩,
    ⟨bytes "CREATE TABLE scores (id INT PRIMARY KEY, points INT NOT NULL)", []⟩,
    ⟨bytes "INSERT INTO scores VALUES (1, NULL)", []⟩]

/-- A `NULL` is refused for a text that may be null, and accepted and stored for an integer
    that may not. -/
theorem null_stored : ∃ db, Runs.exec step .empty nullScore = some db ∧
    (GivesNull db.catalog nameColumn (insertNull users) ∧ Nullable nameColumn ∧
      ¬ ∃ p, planned db.catalog (insertNull users) = .ok p) ∧
    (GivesNull db.catalog pointsColumn (insertNull scores) ∧ ¬ Nullable pointsColumn ∧
      ∃ p, planned db.catalog (insertNull scores) = .ok p) ∧
    ¬ db.NotNullHolds := by
  obtain ⟨db, hdb, husers, hscores, hrow⟩ : ∃ db, Runs.exec step .empty nullScore = some db ∧
      db.catalog.lookup users.name = some users ∧ db.catalog.lookup scores.name = some scores ∧
      (db.kv.lookup (rowKey scores.name (bytes "1"))).map
        (fun data => (decodeRow data).lookup pointsColumn.name) = some (some .null) := by
    refine ⟨_, rfl, ?_, ?_, ?_⟩
    all_goals decide +kernel
  have hcat := ((invariant_run nullScore).last hdb).catalog
  have hname : GivesNull db.catalog nameColumn (insertNull users) :=
    givesNull_insertNull rfl rfl rfl husers
  have hpoints : GivesNull db.catalog pointsColumn (insertNull scores) :=
    givesNull_insertNull rfl rfl rfl hscores
  refine ⟨db, hdb, ⟨hname, by decide, fun h => ?_⟩,
    ⟨hpoints, by decide, (accepted_iff_int hcat hpoints).2 rfl⟩, fun h => ?_⟩
  · cases (accepted_iff_int hcat hname).1 h
  · obtain ⟨data, hdata, hnull⟩ := Option.map_eq_some_iff.1 hrow
    obtain ⟨x, hx, hne⟩ := h scores.name scores _ data hscores hdata pointsColumn
      (List.mem_cons_of_mem _ List.mem_cons_self) rfl
    rw [hnull] at hx
    cases hx
    exact hne rfl

end Doki.Sql
