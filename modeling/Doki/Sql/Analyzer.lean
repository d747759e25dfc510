import Doki.Lib.Excepts
import Doki.Sql.Catalog

/-!
# The analyzer

Statements are checked against the catalog: the tables and columns they name exist,
values have the types of their columns, and a filter asks for one value of the
primary key.

What each check accepts is said by one lemma behind it; a statement that is accepted
has been understood as `Fits` and `Filters` say.

* `wellFormed_analyzeCreateTable`: the columns of a created table have different
  names, and one of them is the primary key;
* `analyzeInsert_eq_ok`, `analyzeSelect_eq_ok`, `analyzeUpdate_eq_ok` and
  `analyzeDelete_eq_ok`: what the other statements are resolved to.

A column is a value of its own type for the analyzer, although no later stage can
evaluate it, and `NULL` is an integer.
-/

namespace Doki.Sql

open Json (Bytes)

/-! ### Resolved statements -/

structure TypedExpr where
  expr : Expr
  ctype : ColumnType
  deriving DecidableEq, Repr

structure ResolvedAssignment where
  column : ColumnDef
  value : TypedExpr
  deriving DecidableEq, Repr

/-- A filter for one value of the primary key. -/
structure ResolvedWhere where
  pkColumn : ColumnDef
  op : BinaryOp
  value : TypedExpr
  deriving DecidableEq, Repr

/-- A statement with the tables and columns it names. No columns in a `SELECT` stand
    for all of them. -/
inductive ResolvedStatement
  | createTable (d : TableDef)
  | insert (table : TableDef) (cols : List ColumnDef) (values : List TypedExpr)
  | select (table : TableDef) (columns : Option (List ColumnDef)) (filter : Option ResolvedWhere)
  | update (table : TableDef) (assignments : List ResolvedAssignment)
      (filter : Option ResolvedWhere)
  | delete (table : TableDef) (filter : Option ResolvedWhere)
  deriving DecidableEq, Repr

/-! ### The checks -/

def findColumn (table : TableDef) (name : Bytes) : Option ColumnDef :=
  table.columns.find? (·.name = name)

def checkTypeCompat (actual expected : ColumnType) (colName : Bytes) : Except SqlError Unit :=
  if actual = expected then .ok () else .error (.typeMismatch colName expected actual)

def resolveLiteral (v : Literal) : TypedExpr := ⟨.literal v, v.columnType⟩

/-- The column of a name, which is an error if there is none; `tableName` is the name
    of the table in the error. -/
def requireColumn (table : TableDef) (tableName name : Bytes) : Except SqlError ColumnDef :=
  match findColumn table name with
  | none => .error (.columnNotFound name tableName)
  | some col => .ok col

def resolveExpr (table : TableDef) : Expr → Except SqlError TypedExpr
  | .literal v => .ok (resolveLiteral v)
  | .column name => do
    let col ← requireColumn table table.name name
    pure ⟨.column name, col.type⟩
  | e => .error (.unsupported e)

def resolveColumnExpr (table : TableDef) : Expr → Except SqlError ColumnDef
  | .column name => requireColumn table table.name name
  | e => .error (.notColumn e)

/-- The value of an expression for a column; `atValue` and `atType` say where an error
    in the expression and one of its type occurred. -/
def resolveValue (table : TableDef) (col : ColumnDef) (e : Expr)
    (atValue atType : SqlError → SqlError) : Except SqlError TypedExpr := do
  let tv ← (resolveExpr table e).mapError atValue
  (checkTypeCompat tv.ctype col.type col.name).mapError atType
  pure tv

def resolveWhere (table : TableDef) : Expr → Except SqlError ResolvedWhere
  | .binary (.column name) op right =>
    if name ≠ table.primaryKey then .error .filterForm
    else if op ≠ .eq then .error .filterForm
    else match findColumn table table.primaryKey with
      | none => .error (.noKeyColumn table.primaryKey table.name)
      | some pkCol => do
        let tv ← resolveValue table pkCol right (.within .whereValue) (.within .filter)
        pure ⟨pkCol, op, tv⟩
  | _ => .error .filterForm

/-- The filter of a statement that must have one. -/
def requireWhere (table : TableDef) : Option Expr → Except SqlError ResolvedWhere
  | none => .error .filterRequired
  | some e => resolveWhere table e

/-! ### The statements -/

/-- The first name that occurs among the columns before it. -/
def duplicate (seen : List Bytes) : List ColumnDef → Option Bytes
  | [] => none
  | col :: cols =>
    if col.name ∈ seen then some col.name else duplicate (col.name :: seen) cols

def analyzeCreateTable (tableName : Bytes) (columns : List ColumnDef) :
    Except SqlError TableDef :=
  match duplicate [] columns with
  | some name => .error (.duplicateColumn name tableName)
  | none =>
    match columns.filter (·.primaryKey) with
    | [] => .error (.noPrimaryKey tableName)
    | [pk] => .ok ⟨tableName, columns, pk.name⟩
    | _ => .error (.multiplePrimaryKeys tableName)

/-- The columns that the values of an `INSERT` are for. -/
def insertColumns (table : TableDef) (tableName : Bytes) (columns : List Bytes) :
    Except SqlError (List ColumnDef) :=
  if columns = [] then .ok table.columns else columns.mapM (requireColumn table tableName)

/-- The values of an `INSERT`, of which `i` come before the first one here. -/
def insertValues (table : TableDef) : ℕ → List ColumnDef → List Expr →
    Except SqlError (List TypedExpr)
  | i, col :: cols, e :: es => do
    let tv ← resolveValue table col e (.within (.value i)) id
    let tvs ← insertValues table (i + 1) cols es
    pure (tv :: tvs)
  | _, _, _ => .ok []

def analyzeInsert (cat : Catalog) (tableName : Bytes) (columns : List Bytes)
    (values : List Expr) : Except SqlError ResolvedStatement :=
  Except.mapError (.within .insert) do
    let table ← cat.getTable tableName
    let cols ← insertColumns table tableName columns
    if values.length ≠ cols.length then .error (.valueCount values.length cols.length)
    else do
      let tvs ← insertValues table 0 cols values
      pure (.insert table cols tvs)

def selectColumns (table : TableDef) : List Expr → Except SqlError (Option (List ColumnDef))
  | [] => .ok none
  | [.star] => .ok none
  | [e] => do
    let col ← resolveColumnExpr table e
    pure (some [col])
  | es => do
    let cols ← es.mapM fun e =>
      if e = .star then .error .starMixed else resolveColumnExpr table e
    pure (some cols)

/-- The filter of a statement that may have one. -/
def optionalWhere (table : TableDef) : Option Expr → Except SqlError (Option ResolvedWhere)
  | none => .ok none
  | some e => do
    let w ← resolveWhere table e
    pure (some w)

def analyzeSelect (cat : Catalog) (columns : List Expr) (tableName : Bytes)
    (filter : Option Expr) : Except SqlError ResolvedStatement :=
  Except.mapError (.within .select) do
    let table ← cat.getTable tableName
    let cols ← selectColumns table columns
    let w ← optionalWhere table filter
    pure (.select table cols w)

def resolveAssignment (table : TableDef) (tableName : Bytes) (a : Assignment) :
    Except SqlError ResolvedAssignment := do
  let col ← requireColumn table tableName a.column
  let tv ← resolveValue table col a.value (.within (.assignment a.column)) id
  pure ⟨col, tv⟩

def analyzeUpdate (cat : Catalog) (tableName : Bytes) (assignments : List Assignment)
    (filter : Option Expr) : Except SqlError ResolvedStatement :=
  Except.mapError (.within .update) do
    let table ← cat.getTable tableName
    let as ← assignments.mapM (resolveAssignment table tableName)
    let w ← requireWhere table filter
    pure (.update table as (some w))

def analyzeDelete (cat : Catalog) (tableName : Bytes) (filter : Option Expr) :
    Except SqlError ResolvedStatement :=
  Except.mapError (.within .delete) do
    let table ← cat.getTable tableName
    let w ← requireWhere table filter
    pure (.delete table (some w))

def analyze (cat : Catalog) : Statement → Except SqlError ResolvedStatement
  | .createTable tableName columns =>
    (analyzeCreateTable tableName columns).map .createTable
  | .insert tableName columns values => analyzeInsert cat tableName columns values
  | .select columns tableName filter => analyzeSelect cat columns tableName filter
  | .update tableName assignments filter => analyzeUpdate cat tableName assignments filter
  | .delete tableName filter => analyzeDelete cat tableName filter

/-! ### What the checks accept -/

open Except (bind_eq_ok_iff pure_eq_ok_iff mapError_eq_ok_iff mapM_eq_ok_iff)

variable {table : TableDef}

theorem findColumn_eq_some {name : Bytes} {col : ColumnDef} (h : findColumn table name = some col) :
    col ∈ table.columns ∧ col.name = name :=
  ⟨List.mem_of_find?_eq_some h, of_decide_eq_true (List.find?_some h :)⟩

theorem requireColumn_eq_ok_iff {tableName name : Bytes} {col : ColumnDef} :
    requireColumn table tableName name = .ok col ↔ findColumn table name = some col := by
  rw [requireColumn]
  cases findColumn table name <;> simp

theorem checkTypeCompat_eq_ok_iff {actual expected : ColumnType} {colName : Bytes} {u : Unit} :
    checkTypeCompat actual expected colName = .ok u ↔ actual = expected := by
  rw [checkTypeCompat]
  split <;> simp [*]

theorem resolveExpr_eq_ok {e : Expr} {tv : TypedExpr} (h : resolveExpr table e = .ok tv) :
    tv.expr = e ∧ ∀ v, e = .literal v → tv.ctype = v.columnType := by
  cases e with
  | literal v =>
    cases h
    refine ⟨rfl, fun w hw => ?_⟩
    cases hw
    rfl
  | column name =>
    rw [resolveExpr, bind_eq_ok_iff] at h
    obtain ⟨col, -, h⟩ := h
    cases h
    exact ⟨rfl, nofun⟩
  | binary l op r => cases h
  | star => cases h

theorem resolveValue_eq_ok {col : ColumnDef} {e : Expr} {f g : SqlError → SqlError}
    {tv : TypedExpr} (h : resolveValue table col e f g = .ok tv) :
    tv.expr = e ∧ ∀ v, tv.expr = .literal v → v.columnType = col.type := by
  simp only [resolveValue, bind_eq_ok_iff, mapError_eq_ok_iff, pure_eq_ok_iff,
    checkTypeCompat_eq_ok_iff] at h
  obtain ⟨tv', htv, _, htype, rfl⟩ := h
  obtain ⟨hexpr, hlit⟩ := resolveExpr_eq_ok htv
  exact ⟨hexpr, fun v hv => by rw [← hlit v (hexpr.symm.trans hv), htype]⟩

theorem resolveValue_literal {col : ColumnDef} {v : Literal} (h : v.columnType = col.type)
    (f g : SqlError → SqlError) :
    resolveValue table col (.literal v) f g = .ok (resolveLiteral v) := by
  simp only [resolveValue, bind_eq_ok_iff, mapError_eq_ok_iff, pure_eq_ok_iff,
    checkTypeCompat_eq_ok_iff]
  exact ⟨_, rfl, (), h, rfl⟩

/-- The literals of the type of the primary key. -/
def TableDef.KeyLiteral (table : TableDef) (v : Literal) : Prop :=
  ∃ col, findColumn table table.primaryKey = some col ∧ v.columnType = col.type

/-- The assignment is for a column of the table, and a literal has the type of it. -/
structure Fits (table : TableDef) (a : ResolvedAssignment) : Prop where
  mem : a.column ∈ table.columns
  typed : ∀ v, a.value.expr = .literal v → v.columnType = a.column.type

/-- The filter asks whether the primary key is the value that it was resolved to. -/
structure Filters (table : TableDef) (e : Expr) (w : ResolvedWhere) : Prop where
  expr_eq : e = .binary (.column table.primaryKey) .eq w.value.expr
  op_eq : w.op = .eq
  typed : ∀ v, w.value.expr = .literal v → table.KeyLiteral v

theorem resolveWhere_eq_ok {e : Expr} {w : ResolvedWhere} (h : resolveWhere table e = .ok w) :
    Filters table e w := by
  unfold resolveWhere at h
  split at h
  · rename_i name op right
    split_ifs at h with hname hop
    cases hcol : findColumn table table.primaryKey with
    | none =>
      rw [hcol] at h
      cases h
    | some col =>
      rw [hcol] at h
      obtain ⟨tv, htv, h⟩ := bind_eq_ok_iff.1 h
      cases h
      obtain ⟨hexpr, htyped⟩ := resolveValue_eq_ok htv
      rw [not_not] at hname hop
      exact ⟨by rw [hname, hop, hexpr], hop, fun v hv => ⟨col, hcol, htyped v hv⟩⟩
  · cases h

theorem resolveWhere_literal {v : Literal} (h : table.KeyLiteral v) :
    ∃ w, resolveWhere table (.binary (.column table.primaryKey) .eq (.literal v)) = .ok w ∧
      w.op = .eq ∧ w.value.expr = .literal v := by
  obtain ⟨col, hcol, htype⟩ := h
  refine ⟨⟨col, .eq, resolveLiteral v⟩, ?_, rfl, rfl⟩
  rw [resolveWhere, if_neg (not_not.2 rfl), if_neg (not_not.2 rfl), hcol]
  exact bind_eq_ok_iff.2 ⟨_, resolveValue_literal htype _ _, rfl⟩

theorem requireWhere_eq_ok {filter : Option Expr} {w : ResolvedWhere}
    (h : requireWhere table filter = .ok w) : ∃ e, filter = some e ∧ Filters table e w := by
  cases filter with
  | none => cases h
  | some e => exact ⟨e, rfl, resolveWhere_eq_ok h⟩

/-! ### What statements are resolved to -/

/-- The columns of a table have different names, and exactly one of them is a primary
    key, the one that is named so. -/
structure TableDef.WellFormed (table : TableDef) : Prop where
  nodup : (table.columns.map ColumnDef.name).Nodup
  primaryKey : ∃ pk, table.columns.filter (·.primaryKey) = [pk] ∧ pk.name = table.primaryKey

/-- Every table stands under its name, and is well formed. -/
def Catalog.WellFormed (cat : Catalog) : Prop :=
  ∀ name table, cat.lookup name = some table →
    table.name = name ∧ IsName name ∧ table.WellFormed

/-- Keys determine the table and the literal they are made of. -/
theorem rowKey_eq_iff_of_keyLiteral {cat : Catalog} (hcat : cat.WellFormed) {t t' : Bytes}
    {table table' : TableDef} (htable : cat.lookup t = some table)
    (htable' : cat.lookup t' = some table') {v v' : Literal} (hv : table.KeyLiteral v)
    (hv' : table'.KeyLiteral v') :
    rowKey table.name v.keyText = rowKey table'.name v'.keyText ↔ t = t' ∧ v = v' := by
  obtain ⟨hname, hisName, -⟩ := hcat t table htable
  obtain ⟨hname', hisName', -⟩ := hcat t' table' htable'
  rw [hname, hname', rowKey_eq_iff hisName hisName']
  refine and_congr_right fun heq => ⟨fun htext => ?_, congrArg _⟩
  subst heq
  rw [htable] at htable'
  cases htable'
  obtain ⟨col, hcol, htype⟩ := hv
  obtain ⟨col', hcol', htype'⟩ := hv'
  rw [hcol] at hcol'
  cases hcol'
  exact Literal.keyText_inj (htype.trans htype'.symm) htext

theorem nodup_of_duplicate {cols : List ColumnDef} {seen : List Bytes}
    (h : duplicate seen cols = none) :
    (cols.map ColumnDef.name).Nodup ∧ ∀ name ∈ seen, name ∉ cols.map ColumnDef.name := by
  induction cols generalizing seen with
  | nil => exact ⟨List.nodup_nil, fun _ _ => List.not_mem_nil⟩
  | cons col cols ih =>
    rw [duplicate] at h
    split_ifs at h with hcol
    obtain ⟨hnodup, hseen⟩ := ih h
    rw [List.map_cons]
    refine ⟨List.nodup_cons.2 ⟨hseen _ List.mem_cons_self, hnodup⟩, fun name hname hmem => ?_⟩
    rcases List.mem_cons.1 hmem with rfl | hmem
    · exact hcol hname
    · exact hseen name (List.mem_cons_of_mem _ hname) hmem

theorem wellFormed_analyzeCreateTable {tableName : Bytes} {columns : List ColumnDef}
    {d : TableDef} (h : analyzeCreateTable tableName columns = .ok d) :
    d.WellFormed ∧ d.name = tableName := by
  unfold analyzeCreateTable at h
  split at h
  · cases h
  · rename_i hdup
    split at h
    · cases h
    · rename_i pk hpk
      cases h
      exact ⟨⟨(nodup_of_duplicate hdup).1, pk, hpk, rfl⟩, rfl⟩
    · cases h

/-- A resolved assignment as it stands in the statement. -/
def ResolvedAssignment.source (a : ResolvedAssignment) : Assignment :=
  ⟨a.column.name, a.value.expr⟩

/-- The values of an `INSERT` as assignments to their columns. -/
def insertAssignments (table : TableDef) (columns : List Bytes) (values : List Expr) :
    List Assignment :=
  List.zipWith Assignment.mk
    (if columns = [] then table.columns.map ColumnDef.name else columns) values

theorem insertColumns_eq_ok {tableName : Bytes} {columns : List Bytes} {cols : List ColumnDef}
    (h : insertColumns table tableName columns = .ok cols) :
    cols.map ColumnDef.name =
        (if columns = [] then table.columns.map ColumnDef.name else columns) ∧
      ∀ col ∈ cols, col ∈ table.columns := by
  unfold insertColumns at h
  split_ifs at h with hnil
  · cases h
    exact ⟨(if_pos hnil).symm, fun _ => id⟩
  · rw [if_neg hnil]
    clear hnil
    rw [mapM_eq_ok_iff] at h
    induction h with
    | nil => exact ⟨rfl, nofun⟩
    | cons hcol _ ih =>
      obtain ⟨hmem, hname⟩ := findColumn_eq_some (requireColumn_eq_ok_iff.1 hcol)
      rw [List.map_cons, hname, ih.1]
      exact ⟨rfl, List.forall_mem_cons.2 ⟨hmem, ih.2⟩⟩

theorem insertValues_eq_ok {i : ℕ} {cols : List ColumnDef} {es : List Expr} {tvs : List TypedExpr}
    (h : insertValues table i cols es = .ok tvs) (hcols : ∀ col ∈ cols, col ∈ table.columns) :
    (List.zipWith ResolvedAssignment.mk cols tvs).map ResolvedAssignment.source =
        List.zipWith Assignment.mk (cols.map ColumnDef.name) es ∧
      ∀ a ∈ List.zipWith ResolvedAssignment.mk cols tvs, Fits table a := by
  induction cols generalizing i es tvs with
  | nil => exact ⟨rfl, nofun⟩
  | cons col cols ih =>
    cases es with
    | nil =>
      cases h
      exact ⟨rfl, nofun⟩
    | cons e es =>
      simp only [insertValues, bind_eq_ok_iff, pure_eq_ok_iff] at h
      obtain ⟨tv, htv, tvs, htvs, rfl⟩ := h
      obtain ⟨hcol, hcols⟩ := List.forall_mem_cons.1 hcols
      obtain ⟨hexpr, htyped⟩ := resolveValue_eq_ok htv
      obtain ⟨hsource, hfits⟩ := ih htvs hcols
      rw [List.zipWith_cons_cons, List.map_cons, hsource, ResolvedAssignment.source, hexpr]
      exact ⟨rfl, List.forall_mem_cons.2 ⟨⟨hcol, htyped⟩, hfits⟩⟩

variable {cat : Catalog} {rs : ResolvedStatement}

theorem analyzeInsert_eq_ok {tableName : Bytes} {columns : List Bytes} {values : List Expr}
    (h : analyzeInsert cat tableName columns values = .ok rs) :
    ∃ table cols tvs, rs = .insert table cols tvs ∧ cat.lookup tableName = some table ∧
      (List.zipWith ResolvedAssignment.mk cols tvs).map ResolvedAssignment.source =
        insertAssignments table columns values ∧
      ∀ a ∈ List.zipWith ResolvedAssignment.mk cols tvs, Fits table a := by
  simp only [analyzeInsert, mapError_eq_ok_iff, bind_eq_ok_iff, Catalog.getTable_eq_ok_iff] at h
  obtain ⟨table, htable, cols, hcols, h⟩ := h
  split_ifs at h
  obtain ⟨tvs, htvs, h⟩ := bind_eq_ok_iff.1 h
  cases h
  obtain ⟨hnames, hmem⟩ := insertColumns_eq_ok hcols
  obtain ⟨hsource, hfits⟩ := insertValues_eq_ok htvs hmem
  refine ⟨table, cols, tvs, rfl, htable, ?_, hfits⟩
  rw [hsource, hnames, insertAssignments]

theorem analyzeSelect_eq_ok {columns : List Expr} {tableName : Bytes} {filter : Option Expr}
    (h : analyzeSelect cat columns tableName filter = .ok rs) :
    ∃ table cols w, rs = .select table cols w ∧ cat.lookup tableName = some table ∧
      (filter = none ∧ w = none ∨ ∃ e w', filter = some e ∧ w = some w' ∧ Filters table e w') := by
  simp only [analyzeSelect, mapError_eq_ok_iff, bind_eq_ok_iff, Catalog.getTable_eq_ok_iff,
    pure_eq_ok_iff] at h
  obtain ⟨table, htable, cols, -, w, hw, rfl⟩ := h
  refine ⟨table, cols, w, rfl, htable, ?_⟩
  cases filter with
  | none =>
    cases hw
    exact .inl ⟨rfl, rfl⟩
  | some e =>
    obtain ⟨w', hw', hw⟩ := bind_eq_ok_iff.1 hw
    cases hw
    exact .inr ⟨e, w', rfl, rfl, resolveWhere_eq_ok hw'⟩

theorem resolveAssignments_eq_ok {tableName : Bytes} {assignments : List Assignment}
    {as : List ResolvedAssignment}
    (h : assignments.mapM (resolveAssignment table tableName) = .ok as) :
    as.map ResolvedAssignment.source = assignments ∧ ∀ a ∈ as, Fits table a := by
  rw [mapM_eq_ok_iff] at h
  induction h with
  | nil => exact ⟨rfl, nofun⟩
  | cons ha _ ih =>
    simp only [resolveAssignment, bind_eq_ok_iff, requireColumn_eq_ok_iff, pure_eq_ok_iff] at ha
    obtain ⟨col, hcol, tv, htv, rfl⟩ := ha
    obtain ⟨hmem, hname⟩ := findColumn_eq_some hcol
    obtain ⟨hexpr, htyped⟩ := resolveValue_eq_ok htv
    rw [List.map_cons, ih.1, ResolvedAssignment.source, hname, hexpr]
    exact ⟨rfl, List.forall_mem_cons.2 ⟨⟨hmem, htyped⟩, ih.2⟩⟩

theorem analyzeUpdate_eq_ok {tableName : Bytes} {assignments : List Assignment}
    {filter : Option Expr} (h : analyzeUpdate cat tableName assignments filter = .ok rs) :
    ∃ table as e w, rs = .update table as (some w) ∧ cat.lookup tableName = some table ∧
      as.map ResolvedAssignment.source = assignments ∧ (∀ a ∈ as, Fits table a) ∧
      filter = some e ∧ Filters table e w := by
  simp only [analyzeUpdate, mapError_eq_ok_iff, bind_eq_ok_iff, Catalog.getTable_eq_ok_iff,
    pure_eq_ok_iff] at h
  obtain ⟨table, htable, as, has, w, hw, rfl⟩ := h
  obtain ⟨e, rfl, hfilter⟩ := requireWhere_eq_ok hw
  obtain ⟨hsource, hfits⟩ := resolveAssignments_eq_ok has
  exact ⟨table, as, e, w, rfl, htable, hsource, hfits, rfl, hfilter⟩

theorem analyzeDelete_eq_ok {tableName : Bytes} {filter : Option Expr}
    (h : analyzeDelete cat tableName filter = .ok rs) :
    ∃ table e w, rs = .delete table (some w) ∧ cat.lookup tableName = some table ∧
      filter = some e ∧ Filters table e w := by
  simp only [analyzeDelete, mapError_eq_ok_iff, bind_eq_ok_iff, Catalog.getTable_eq_ok_iff,
    pure_eq_ok_iff] at h
  obtain ⟨table, htable, w, hw, rfl⟩ := h
  obtain ⟨e, rfl, hfilter⟩ := requireWhere_eq_ok hw
  exact ⟨table, e, w, rfl, htable, rfl, hfilter⟩

end Doki.Sql
