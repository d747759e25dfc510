import Doki.Sql.Analyzer

/-!
# The planner

A resolved statement becomes a plan on the keys of the store. A row is addressed by
the literal that the statement gives for the primary key, the first one in an `INSERT`
(`Statement.key`), and it is made of the literals given for its columns, the last one
for each (`writeAll`); `Cell` is a literal with the column it fits.

* `planned_insert`, `planned_select`, `planned_update` and `planned_delete`: what the
  plans of accepted statements are;
* `planned_key`: the row that a plan addresses.
-/

namespace Doki.Sql

open Json (Bytes)

/-! ### Plans -/

/-- What is to be done to the store. No columns stand for all of them. -/
inductive PhysicalPlan
  | pointGet (key : Bytes) (table : TableDef) (columns : Option (List ColumnDef))
  | pointDelete (key : Bytes) (table : TableDef)
  | pointUpdate (key : Bytes) (table : TableDef) (assignments : List ResolvedAssignment)
  | tableScan (keyPrefix : Bytes) (table : TableDef) (columns : Option (List ColumnDef))
  | createTable (d : TableDef)
  | insert (key : Bytes) (row : Row) (table : TableDef)

def evalLiteralToString (te : TypedExpr) : Except SqlError Bytes :=
  match te.expr with
  | .literal v => .ok v.keyText
  | e => .error (.notLiteral e)

def findPKValue (table : TableDef) : List ColumnDef → List TypedExpr → Except SqlError TypedExpr
  | col :: cols, tv :: tvs =>
    if col.name = table.primaryKey then .ok tv else findPKValue table cols tvs
  | _, _ => .error (.keyNotGiven table.primaryKey)

/-- Literals assigned to the columns of a row, one after the other. -/
def assign : List ResolvedAssignment → Row → Except SqlError Row
  | [], row => .ok row
  | a :: as, row =>
    match a.value.expr with
    | .literal v => assign as (row.insert a.column.name v.value)
    | _ => .error (.nonLiteral a.column.name)

def planInsert (table : TableDef) (cols : List ColumnDef) (values : List TypedExpr) :
    Except SqlError PhysicalPlan :=
  Except.mapError (.within .planInsert) do
    let pkValue ← findPKValue table cols values
    let pkStr ← (evalLiteralToString pkValue).mapError (.within .pkValue)
    let row ← assign (List.zipWith ResolvedAssignment.mk cols values) ∅
    pure (.insert (rowKey table.name pkStr) row table)

def planSelect (table : TableDef) (columns : Option (List ColumnDef)) :
    Option ResolvedWhere → Except SqlError PhysicalPlan
  | some w =>
    if w.op = .eq then Except.mapError (.within .planSelect) do
      let pkStr ← (evalLiteralToString w.value).mapError (.within .whereValue)
      pure (.pointGet (rowKey table.name pkStr) table columns)
    else .ok (.tableScan (tablePrefix table.name) table columns)
  | none => .ok (.tableScan (tablePrefix table.name) table columns)

/-- The key of the row that a filter asks for. -/
def filterKey (table : TableDef) : Option ResolvedWhere → Except SqlError Bytes
  | none => .error .planFilterRequired
  | some w =>
    if w.op ≠ .eq then .error .onlyEquals
    else do
      let pkStr ← (evalLiteralToString w.value).mapError (.within .whereValue)
      pure (rowKey table.name pkStr)

def planUpdate (table : TableDef) (assignments : List ResolvedAssignment)
    (filter : Option ResolvedWhere) : Except SqlError PhysicalPlan :=
  Except.mapError (.within .planUpdate) do
    let key ← filterKey table filter
    pure (.pointUpdate key table assignments)

def planDelete (table : TableDef) (filter : Option ResolvedWhere) :
    Except SqlError PhysicalPlan :=
  Except.mapError (.within .planDelete) do
    let key ← filterKey table filter
    pure (.pointDelete key table)

def plan : ResolvedStatement → Except SqlError PhysicalPlan
  | .createTable d => .ok (.createTable d)
  | .insert table cols values => planInsert table cols values
  | .select table columns filter => planSelect table columns filter
  | .update table assignments filter => planUpdate table assignments filter
  | .delete table filter => planDelete table filter

/-- The plan of a statement. -/
def planned (cat : Catalog) (stmt : Statement) : Except SqlError PhysicalPlan := do
  let rs ← analyze cat stmt
  plan rs

/-! ### Literals for columns -/

/-- A literal for a column of a table, of the type of the column. -/
structure Cell (table : TableDef) where
  column : ColumnDef
  literal : Literal
  mem : column ∈ table.columns
  typed : literal.columnType = column.type

def Cell.source {table : TableDef} (c : Cell table) : Assignment :=
  ⟨c.column.name, .literal c.literal⟩

/-- A row after writing the cells one after the other. -/
def writeAll {table : TableDef} (row : Row) (cells : List (Cell table)) : Row :=
  cells.foldl (fun row c => row.insert c.column.name c.literal.value) row

/-- The values given for a column, in their order. -/
def given (column : Bytes) (assignments : List Assignment) : List Expr :=
  (assignments.filter (·.column = column)).map Assignment.value

theorem given_cons (column : Bytes) (a : Assignment) (as : List Assignment) :
    given column (a :: as) =
      if a.column = column then a.value :: given column as else given column as := by
  by_cases h : a.column = column <;> simp [given, h]

variable {table : TableDef}

theorem lookup_writeAll (row : Row) (cells : List (Cell table)) (name : Bytes) :
    (writeAll row cells).lookup name =
      ((cells.reverse.find? (·.column.name = name)).map fun c => c.literal.value).or
        (row.lookup name) :=
  Finmap.lookup_foldl_insert (fun c : Cell table => c.column.name) (fun c => c.literal.value)
    cells row name

/-- Assigning succeeds exactly on literals, which are written. -/
theorem assign_eq_ok {as : List ResolvedAssignment} {row row' : Row}
    (h : assign as row = .ok row') (hfits : ∀ a ∈ as, Fits table a) :
    ∃ cells : List (Cell table), as.map ResolvedAssignment.source = cells.map Cell.source ∧
      row' = writeAll row cells := by
  induction as generalizing row with
  | nil =>
    cases h
    exact ⟨[], rfl, rfl⟩
  | cons a as ih =>
    obtain ⟨hfit, hfits⟩ := List.forall_mem_cons.1 hfits
    unfold assign at h
    split at h
    · rename_i v hv
      obtain ⟨cells, hsource, hrow⟩ := ih h hfits
      refine ⟨⟨a.column, v, hfit.mem, hfit.typed v hv⟩ :: cells, ?_, hrow⟩
      rw [List.map_cons, List.map_cons, hsource, ResolvedAssignment.source, hv]
      rfl
    · cases h

theorem assign_of_literal {as : List ResolvedAssignment}
    (h : ∀ a ∈ as, ∃ v, a.value.expr = .literal v) (row : Row) :
    ∃ row', assign as row = .ok row' := by
  induction as generalizing row with
  | nil => exact ⟨row, rfl⟩
  | cons a as ih =>
    obtain ⟨⟨v, hv⟩, h⟩ := List.forall_mem_cons.1 h
    obtain ⟨row', hrow'⟩ := ih h (row.insert a.column.name v.value)
    exact ⟨row', by simp only [assign, hv, hrow']⟩

theorem evalLiteralToString_eq_ok {te : TypedExpr} {s : Bytes}
    (h : evalLiteralToString te = .ok s) : ∃ v, te.expr = .literal v ∧ s = v.keyText := by
  unfold evalLiteralToString at h
  split at h
  · rename_i v hv
    cases h
    exact ⟨v, hv, rfl⟩
  · cases h

theorem evalLiteralToString_literal {te : TypedExpr} {v : Literal} (h : te.expr = .literal v) :
    evalLiteralToString te = .ok v.keyText := by
  rw [evalLiteralToString, h]

/-! ### The row that a statement names -/

namespace Statement

/-- What a filter compares the primary key with. -/
def compared : Option Expr → Option Expr
  | some (.binary _ _ right) => some right
  | _ => none

/-- The value of the primary key by which the statement names a row of the table. -/
def keyExpr (table : TableDef) : Statement → Option Expr
  | createTable _ _ => none
  | insert _ columns values =>
    (given table.primaryKey (insertAssignments table columns values)).head?
  | select _ _ filter => compared filter
  | update _ _ filter => compared filter
  | delete _ filter => compared filter

end Statement

open Except (bind_eq_ok_iff pure_eq_ok_iff mapError_eq_ok_iff)

theorem findColumn_of_mem (h : table.WellFormed) {col : ColumnDef} (hcol : col ∈ table.columns) :
    findColumn table col.name = some col :=
  (List.find?_key_eq_some_iff h.nodup).2 ⟨hcol, rfl⟩

theorem findPKValue_eq_ok {cols : List ColumnDef} {tvs : List TypedExpr} {tv : TypedExpr}
    (h : findPKValue table cols tvs = .ok tv) :
    (given table.primaryKey ((List.zipWith ResolvedAssignment.mk cols tvs).map
        ResolvedAssignment.source)).head? = some tv.expr ∧
      ∃ col, col.name = table.primaryKey ∧
        ⟨col, tv⟩ ∈ List.zipWith ResolvedAssignment.mk cols tvs := by
  induction cols generalizing tvs with
  | nil => cases h
  | cons col cols ih =>
    cases tvs with
    | nil => cases h
    | cons tv' tvs =>
      rw [findPKValue] at h
      rw [List.zipWith_cons_cons, List.map_cons, given_cons]
      split_ifs at h with hcol
      · cases h
        rw [if_pos (by exact hcol)]
        exact ⟨rfl, col, hcol, List.mem_cons_self⟩
      · rw [if_neg (by exact hcol)]
        obtain ⟨hhead, col', hcol', hmem⟩ := ih h
        exact ⟨hhead, col', hcol', List.mem_cons_of_mem _ hmem⟩

theorem filterKey_eq_ok {e : Expr} {w : ResolvedWhere} {key : Bytes} (hw : Filters table e w)
    (h : filterKey table (some w) = .ok key) :
    ∃ v, Statement.compared (some e) = some (.literal v) ∧ table.KeyLiteral v ∧
      key = rowKey table.name v.keyText := by
  rw [filterKey, if_neg (not_not.2 hw.op_eq)] at h
  simp only [bind_eq_ok_iff, mapError_eq_ok_iff, pure_eq_ok_iff] at h
  obtain ⟨s, hs, rfl⟩ := h
  obtain ⟨v, hv, rfl⟩ := evalLiteralToString_eq_ok hs
  refine ⟨v, ?_, hw.typed v hv, rfl⟩
  rw [hw.expr_eq, hv]
  rfl

/-! ### The plans of statements -/

variable {cat : Catalog} {p : PhysicalPlan}

theorem planned_createTable {tableName : Bytes} {columns : List ColumnDef}
    (h : planned cat (.createTable tableName columns) = .ok p) :
    ∃ d, p = .createTable d ∧ d.WellFormed ∧ d.name = tableName := by
  simp only [planned, bind_eq_ok_iff, analyze] at h
  obtain ⟨rs, hrs, h⟩ := h
  cases hd : analyzeCreateTable tableName columns with
  | error e =>
    rw [hd] at hrs
    cases hrs
  | ok d =>
    rw [hd] at hrs
    cases hrs
    cases h
    exact ⟨d, rfl, wellFormed_analyzeCreateTable hd⟩

theorem planned_insert {tableName : Bytes} {columns : List Bytes} {values : List Expr}
    (h : planned cat (.insert tableName columns values) = .ok p)
    (hcat : ∀ table, cat.lookup tableName = some table → table.WellFormed) :
    ∃ table v, ∃ cells : List (Cell table), cat.lookup tableName = some table ∧
      (Statement.insert tableName columns values).keyExpr table = some (.literal v) ∧
      table.KeyLiteral v ∧
      insertAssignments table columns values = cells.map Cell.source ∧
      p = .insert (rowKey table.name v.keyText) (writeAll ∅ cells) table := by
  simp only [planned, bind_eq_ok_iff, analyze] at h
  obtain ⟨rs, hrs, h⟩ := h
  obtain ⟨table, cols, tvs, rfl, htable, hsource, hfits⟩ := analyzeInsert_eq_ok hrs
  simp only [plan, planInsert, mapError_eq_ok_iff, bind_eq_ok_iff, pure_eq_ok_iff] at h
  obtain ⟨tv, htv, s, hs, row, hrow, rfl⟩ := h
  obtain ⟨v, hv, rfl⟩ := evalLiteralToString_eq_ok hs
  obtain ⟨hhead, col, hcol, hmem⟩ := findPKValue_eq_ok htv
  obtain ⟨cells, hcells, rfl⟩ := assign_eq_ok hrow hfits
  refine ⟨table, v, cells, htable, ?_, ⟨col, ?_, (hfits _ hmem).typed v hv⟩, ?_, rfl⟩
  · rw [Statement.keyExpr, ← hsource, hhead, hv]
  · rw [← hcol]
    exact findColumn_of_mem (hcat table htable) (hfits _ hmem).mem
  · rw [← hsource, hcells]

theorem planned_select {columns : List Expr} {tableName : Bytes} {filter : Option Expr}
    (h : planned cat (.select columns tableName filter) = .ok p) :
    ∃ table cols, cat.lookup tableName = some table ∧
      (filter = none ∧ p = .tableScan (tablePrefix table.name) table cols ∨
        ∃ v, Statement.compared filter = some (.literal v) ∧ table.KeyLiteral v ∧
          p = .pointGet (rowKey table.name v.keyText) table cols) := by
  simp only [planned, bind_eq_ok_iff, analyze] at h
  obtain ⟨rs, hrs, h⟩ := h
  obtain ⟨table, cols, w, rfl, htable, ⟨rfl, rfl⟩ | ⟨e, w, rfl, rfl, hw⟩⟩ := analyzeSelect_eq_ok hrs
  · cases h
    exact ⟨table, cols, htable, .inl ⟨rfl, rfl⟩⟩
  · rw [plan, planSelect, if_pos hw.op_eq] at h
    simp only [mapError_eq_ok_iff, bind_eq_ok_iff, pure_eq_ok_iff] at h
    obtain ⟨s, hs, rfl⟩ := h
    obtain ⟨v, hv, rfl⟩ := evalLiteralToString_eq_ok hs
    refine ⟨table, cols, htable, .inr ⟨v, ?_, hw.typed v hv, rfl⟩⟩
    rw [hw.expr_eq, hv]
    rfl

theorem planned_update {tableName : Bytes} {assignments : List Assignment}
    {filter : Option Expr} (h : planned cat (.update tableName assignments filter) = .ok p) :
    ∃ table v as, cat.lookup tableName = some table ∧
      Statement.compared filter = some (.literal v) ∧ table.KeyLiteral v ∧
      as.map ResolvedAssignment.source = assignments ∧ (∀ a ∈ as, Fits table a) ∧
      p = .pointUpdate (rowKey table.name v.keyText) table as := by
  simp only [planned, bind_eq_ok_iff, analyze] at h
  obtain ⟨rs, hrs, h⟩ := h
  obtain ⟨table, as, e, w, rfl, htable, hsource, hfits, rfl, hw⟩ := analyzeUpdate_eq_ok hrs
  simp only [plan, planUpdate, mapError_eq_ok_iff, bind_eq_ok_iff, pure_eq_ok_iff] at h
  obtain ⟨key, hkey, rfl⟩ := h
  obtain ⟨v, hv, htyped, rfl⟩ := filterKey_eq_ok hw hkey
  exact ⟨table, v, as, htable, hv, htyped, hsource, hfits, rfl⟩

theorem planned_delete {tableName : Bytes} {filter : Option Expr}
    (h : planned cat (.delete tableName filter) = .ok p) :
    ∃ table v, cat.lookup tableName = some table ∧
      Statement.compared filter = some (.literal v) ∧ table.KeyLiteral v ∧
      p = .pointDelete (rowKey table.name v.keyText) table := by
  simp only [planned, bind_eq_ok_iff, analyze] at h
  obtain ⟨rs, hrs, h⟩ := h
  obtain ⟨table, e, w, rfl, htable, rfl, hw⟩ := analyzeDelete_eq_ok hrs
  simp only [plan, planDelete, mapError_eq_ok_iff, bind_eq_ok_iff, pure_eq_ok_iff] at h
  obtain ⟨key, hkey, rfl⟩ := h
  obtain ⟨v, hv, htyped, rfl⟩ := filterKey_eq_ok hw hkey
  exact ⟨table, v, htable, hv, htyped, rfl⟩

/-- The key of the row that a plan is about. -/
def PhysicalPlan.key : PhysicalPlan → Option Bytes
  | pointGet key _ _ => some key
  | pointDelete key _ => some key
  | pointUpdate key _ _ => some key
  | tableScan _ _ _ => none
  | createTable _ => none
  | insert key _ _ => some key

theorem planned_key {stmt : Statement} {key : Bytes} (h : planned cat stmt = .ok p)
    (hcat : ∀ table, cat.lookup stmt.tableName = some table → table.WellFormed)
    (hkey : p.key = some key) :
    ∃ table v, cat.lookup stmt.tableName = some table ∧
      stmt.keyExpr table = some (.literal v) ∧ table.KeyLiteral v ∧
      key = rowKey table.name v.keyText := by
  cases stmt with
  | createTable t columns =>
    obtain ⟨d, rfl, -⟩ := planned_createTable h
    cases hkey
  | insert t columns values =>
    obtain ⟨table, v, cells, htable, hv, htyped, -, rfl⟩ := planned_insert h hcat
    exact ⟨table, v, htable, hv, htyped, (Option.some.inj hkey).symm⟩
  | select columns t filter =>
    obtain ⟨table, cols, htable, ⟨-, rfl⟩ | ⟨v, hv, htyped, rfl⟩⟩ := planned_select h
    · cases hkey
    · exact ⟨table, v, htable, hv, htyped, (Option.some.inj hkey).symm⟩
  | update t assignments filter =>
    obtain ⟨table, v, as, htable, hv, htyped, -, -, rfl⟩ := planned_update h
    exact ⟨table, v, htable, hv, htyped, (Option.some.inj hkey).symm⟩
  | delete t filter =>
    obtain ⟨table, v, htable, hv, htyped, rfl⟩ := planned_delete h
    exact ⟨table, v, htable, hv, htyped, (Option.some.inj hkey).symm⟩

end Doki.Sql
