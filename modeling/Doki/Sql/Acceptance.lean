import Doki.Sql.Executor

/-!
# Which statements are accepted

An `INSERT` and an `UPDATE` of literals are accepted by the analyzer and the planner
exactly if every literal has the type of its column: the converse of what
`planned_insert` and `planned_update` say of the plans that there are.

* `planned_insert_cells`, `planned_update_cells`: the plan of such a statement;
* `settled_insert`, `settled_update`: a statement of another form changes nothing, be it
  refused or not.
-/

namespace Doki.Sql

open Json (Bytes)

open Except (bind_eq_ok_iff pure_eq_ok_iff mapError_eq_ok_iff mapM_eq_ok_iff)

variable {table : TableDef} {cat : Catalog} {t : Bytes}

namespace Cell

/-- The expression of a cell. -/
def expr (c : Cell table) : Expr := .literal c.literal

/-- A cell as the analyzer resolves it. -/
def resolved (c : Cell table) : ResolvedAssignment := ⟨c.column, resolveLiteral c.literal⟩

theorem resolveValue_expr (c : Cell table) (f g : SqlError → SqlError) :
    resolveValue table c.column c.expr f g = .ok (resolveLiteral c.literal) :=
  resolveValue_literal c.typed f g

end Cell

/-- The columns of the cells are the columns of their names. -/
theorem mapM_requireColumn (h : table.WellFormed) (tableName : Bytes) (cells : List (Cell table)) :
    (cells.map fun c => c.column.name).mapM (requireColumn table tableName) =
      .ok (cells.map Cell.column) := by
  rw [mapM_eq_ok_iff, List.forall₂_map_left_iff, List.forall₂_map_right_iff, List.forall₂_same]
  exact fun c _ => requireColumn_eq_ok_iff.2 (findColumn_of_mem h c.mem)

theorem insertValues_cells (i : ℕ) (cells : List (Cell table)) :
    insertValues table i (cells.map Cell.column) (cells.map Cell.expr) =
      .ok (cells.map fun c => resolveLiteral c.literal) := by
  induction cells generalizing i with
  | nil => rfl
  | cons c cells ih =>
    rw [List.map_cons, List.map_cons, insertValues, c.resolveValue_expr, ih]
    rfl

theorem assign_cells (cells : List (Cell table)) (row : Row) :
    assign (cells.map Cell.resolved) row = .ok (writeAll row cells) := by
  induction cells generalizing row with
  | nil => rfl
  | cons c cells ih => exact ih _

theorem findPKValue_cells {cells : List (Cell table)} {v : Literal}
    (h : (given table.primaryKey (cells.map Cell.source)).head? = some (.literal v)) :
    findPKValue table (cells.map Cell.column) (cells.map fun c => resolveLiteral c.literal) =
      .ok (resolveLiteral v) := by
  induction cells with
  | nil => cases h
  | cons c cells ih =>
    rw [List.map_cons, given_cons] at h
    rw [List.map_cons, List.map_cons, findPKValue]
    by_cases hc : c.column.name = table.primaryKey
    · rw [if_pos (by exact hc)] at h
      cases h
      rw [if_pos hc]
    · rw [if_neg (by exact hc)] at h
      rw [if_neg hc, ih h]

/-! ### Plans of literals -/

/-- The names of the columns that the values of an `INSERT` are for. -/
def insertNames (table : TableDef) (columns : List Bytes) : List Bytes :=
  if columns = [] then table.columns.map ColumnDef.name else columns

theorem zipWith_mk_eq_iff {names : List Bytes} {values : List Expr} {as : List Assignment}
    (hcount : values.length = names.length) :
    List.zipWith Assignment.mk names values = as ↔
      names = as.map Assignment.column ∧ values = as.map Assignment.value := by
  induction names generalizing values as with
  | nil =>
    obtain rfl := List.length_eq_zero_iff.1 hcount
    rw [List.zipWith_nil_left, eq_comm, eq_comm (a := []), List.map_eq_nil_iff, eq_comm (a := []),
      List.map_eq_nil_iff, and_self]
  | cons name names ih =>
    obtain ⟨value, values, rfl⟩ := List.exists_cons_of_length_eq_add_one hcount
    cases as with
    | nil => simp
    | cons a as =>
      obtain ⟨column, expr⟩ := a
      simp only [List.zipWith_cons_cons, List.map_cons, List.cons.injEq, Assignment.mk.injEq,
        ih (Nat.succ.inj hcount)]
      tauto

theorem insertColumns_cells (h : table.WellFormed) {tableName : Bytes} {columns : List Bytes}
    {cells : List (Cell table)}
    (hnames : insertNames table columns = cells.map fun c => c.column.name) :
    insertColumns table tableName columns = .ok (cells.map Cell.column) := by
  unfold insertNames at hnames
  unfold insertColumns
  split_ifs at hnames ⊢ with hnil
  · -- all columns of the table, in their order
    have hfind : ∀ cols : List ColumnDef, (∀ col ∈ cols, col ∈ table.columns) →
        (cols.map ColumnDef.name).map (findColumn table) = cols.map some := fun cols hcols => by
      rw [List.map_map]
      exact List.map_congr_left fun col hcol => findColumn_of_mem h (hcols col hcol)
    have hcols : table.columns = cells.map Cell.column := by
      refine List.map_injective_iff.2 (Option.some_injective _) ?_
      rw [← hfind _ fun _ => id, hnames, ← hfind _ fun col hcol => ?_, List.map_map, List.map_map,
        List.map_map]
      · rfl
      · obtain ⟨c, -, rfl⟩ := List.mem_map.1 hcol
        exact c.mem
    rw [hcols]
  · rw [hnames, mapM_requireColumn h]

/-- The plan of an `INSERT` of literals that have the types of their columns. -/
theorem planned_insert_cells (htable : cat.lookup t = some table) (h : table.WellFormed)
    {columns : List Bytes} {values : List Expr}
    (hcount : values.length = (insertNames table columns).length) {cells : List (Cell table)}
    (hcells : insertAssignments table columns values = cells.map Cell.source) {v : Literal}
    (hkey : (Statement.insert t columns values).keyExpr table = some (.literal v)) :
    planned cat (.insert t columns values) =
      .ok (.insert (rowKey table.name v.keyText) (writeAll ∅ cells) table) := by
  obtain ⟨hnames, hvalues⟩ : insertNames table columns = (cells.map fun c => c.column.name) ∧
      values = cells.map Cell.expr := by
    have h := (zipWith_mk_eq_iff hcount).1 hcells
    rwa [List.map_map, List.map_map] at h
  rw [Statement.keyExpr, hcells] at hkey
  subst hvalues
  refine bind_eq_ok_iff.2 ⟨.insert table (cells.map Cell.column)
    (cells.map fun c => resolveLiteral c.literal), ?_, ?_⟩
  · simp only [analyze, analyzeInsert, mapError_eq_ok_iff, bind_eq_ok_iff,
      Catalog.getTable_eq_ok_iff]
    refine ⟨table, htable, _, insertColumns_cells h hnames, ?_⟩
    rw [if_neg (by simp), insertValues_cells]
    rfl
  · have hresolved : List.zipWith ResolvedAssignment.mk (cells.map Cell.column)
        (cells.map fun c => resolveLiteral c.literal) = cells.map Cell.resolved := by
      rw [List.zipWith_map, List.zipWith_self]
      rfl
    rw [plan, planInsert, findPKValue_cells hkey, hresolved, assign_cells]
    rfl

/-- The plan of an `UPDATE` of literals that have the types of their columns. -/
theorem planned_update_cells (htable : cat.lookup t = some table) (h : table.WellFormed)
    (cells : List (Cell table)) {v : Literal} (hv : table.KeyLiteral v) :
    planned cat (.update t (cells.map Cell.source)
        (some (.binary (.column table.primaryKey) .eq (.literal v)))) =
      .ok (.pointUpdate (rowKey table.name v.keyText) table (cells.map Cell.resolved)) := by
  obtain ⟨w, hw, hop, hexpr⟩ := resolveWhere_literal hv
  have hassign : (cells.map Cell.source).mapM (resolveAssignment table t) =
      .ok (cells.map Cell.resolved) := by
    rw [mapM_eq_ok_iff, List.forall₂_map_left_iff, List.forall₂_map_right_iff, List.forall₂_same]
    intro c _
    simp only [resolveAssignment, bind_eq_ok_iff, requireColumn_eq_ok_iff, pure_eq_ok_iff]
    exact ⟨c.column, findColumn_of_mem h c.mem, _, c.resolveValue_expr _ _, rfl⟩
  refine bind_eq_ok_iff.2 ⟨.update table (cells.map Cell.resolved) (some w), ?_, ?_⟩
  · simp only [analyze, analyzeUpdate, mapError_eq_ok_iff, bind_eq_ok_iff, pure_eq_ok_iff,
      Catalog.getTable_eq_ok_iff]
    exact ⟨table, htable, _, hassign, w, hw, rfl⟩
  · rw [plan, planUpdate, filterKey, if_neg (not_not.2 hop), evalLiteralToString_literal hexpr]
    rfl

/-! ### What is written -/

/-- The filter for the row of a primary key. -/
def whereKey (table : TableDef) (k : Literal) : Option Expr :=
  some (.binary (.column table.primaryKey) .eq (.literal k))

/-- The `INSERT` gives literals of their types for columns of the table, the first one for
    its primary key being `k`. -/
structure InsertOf (cat : Catalog) (t : Bytes) (columns : List Bytes) (values : List Expr)
    (table : TableDef) (cells : List (Cell table)) (k : Literal) : Prop where
  table_eq : cat.lookup t = some table
  count : values.length = (insertNames table columns).length
  cells_eq : insertAssignments table columns values = cells.map Cell.source
  key_eq : (Statement.insert t columns values).keyExpr table = some (.literal k)

/-- The `UPDATE` gives literals of their types for columns of the row with primary key
    `k`. -/
structure UpdateOf (cat : Catalog) (t : Bytes) (as : List Assignment) (filter : Option Expr)
    (table : TableDef) (cells : List (Cell table)) (k : Literal) : Prop where
  table_eq : cat.lookup t = some table
  filter_eq : filter = whereKey table k
  key : table.KeyLiteral k
  cells_eq : as = cells.map Cell.source

theorem planned_insert_count {columns : List Bytes} {values : List Expr} {p : PhysicalPlan}
    (h : planned cat (.insert t columns values) = .ok p) (htable : cat.lookup t = some table) :
    values.length = (insertNames table columns).length := by
  simp only [planned, bind_eq_ok_iff, analyze, analyzeInsert, mapError_eq_ok_iff,
    Catalog.getTable_eq_ok_iff] at h
  obtain ⟨rs, ⟨table', htable', cols, hcols, hrs⟩, -⟩ := h
  rw [htable] at htable'
  cases htable'
  split_ifs at hrs with hcount
  rw [not_not] at hcount
  rw [hcount, insertNames, ← (insertColumns_eq_ok hcols).1, List.length_map]

theorem planned_update_filter {as : List Assignment} {filter : Option Expr} {p : PhysicalPlan}
    (h : planned cat (.update t as filter) = .ok p) (htable : cat.lookup t = some table)
    {k : Literal} (hk : Statement.compared filter = some (.literal k)) :
    filter = whereKey table k := by
  simp only [planned, bind_eq_ok_iff, analyze] at h
  obtain ⟨rs, hrs, -⟩ := h
  obtain ⟨table', as', e, w, -, htable', -, -, rfl, hw⟩ := analyzeUpdate_eq_ok hrs
  rw [htable] at htable'
  cases htable'
  rw [hw.expr_eq] at hk
  rw [hw.expr_eq, whereKey, Option.some.inj hk]

/-- The plan of an `UPDATE` of this form. -/
theorem UpdateOf.planned_eq {as : List Assignment} {filter : Option Expr}
    {cells : List (Cell table)} {k : Literal} (h : UpdateOf cat t as filter table cells k)
    (htable : table.WellFormed) :
    planned cat (.update t as filter) =
      .ok (.pointUpdate (rowKey table.name k.keyText) table (cells.map Cell.resolved)) := by
  rw [h.cells_eq, h.filter_eq]
  exact planned_update_cells h.table_eq htable cells h.key

/-- An `UPDATE` of literals that has a plan is of this form. -/
theorem updateOf_of_planned {as : List Assignment} {filter : Option Expr} {p : PhysicalPlan}
    (h : planned cat (.update t as filter) = .ok p)
    (hlit : ∀ a ∈ as, ∃ u, a.value = .literal u) :
    ∃ table cells k, UpdateOf cat t as filter table cells k ∧
      Statement.compared filter = some (.literal k) := by
  obtain ⟨table, k, as, htable, hkey, htyped, rfl, hfits, rfl⟩ := planned_update h
  obtain ⟨row, hrow⟩ := assign_of_literal (fun a ha => hlit _ (List.mem_map_of_mem ha)) ∅
  obtain ⟨cells, hcells, -⟩ := assign_eq_ok hrow hfits
  exact ⟨table, cells, k, ⟨htable, planned_update_filter h htable hkey, htyped, hcells⟩, hkey⟩

/-- An `INSERT` writes the row of its literals, or nothing. -/
theorem settled_insert {db : Db} (hcat : db.catalog.WellFormed) (order : List Bytes) (t : Bytes)
    (columns : List Bytes) (values : List Expr) :
    (∃ table cells k, InsertOf db.catalog t columns values table cells k ∧
        settled db (runStatement order db (.insert t columns values)) =
          { db with
            kv := db.kv.insert (rowKey table.name k.keyText) (encodeRow (writeAll ∅ cells)) }) ∨
      (∀ table cells k, ¬ InsertOf db.catalog t columns values table cells k) ∧
        settled db (runStatement order db (.insert t columns values)) = db := by
  have hwf : ∀ table, db.catalog.lookup t = some table → table.WellFormed :=
    fun table htable => (hcat t table htable).2.2
  rw [runStatement]
  cases hp : planned db.catalog (.insert t columns values) with
  | ok p =>
    obtain ⟨table, k, cells, htable, hkey, -, hcells, rfl⟩ := planned_insert hp hwf
    exact .inl ⟨table, cells, k, ⟨htable, planned_insert_count hp htable, hcells, hkey⟩, rfl⟩
  | error e =>
    refine .inr ⟨fun table cells k h => ?_, rfl⟩
    rw [planned_insert_cells h.table_eq (hwf table h.table_eq) h.count h.cells_eq h.key_eq] at hp
    cases hp

/-- An `UPDATE` writes its literals to the row of its filter, or nothing. -/
theorem settled_update {db : Db} (hcat : db.catalog.WellFormed) (order : List Bytes) (t : Bytes)
    (as : List Assignment) (filter : Option Expr) :
    (∃ table cells k data, UpdateOf db.catalog t as filter table cells k ∧
        db.kv.lookup (rowKey table.name k.keyText) = some data ∧
        settled db (runStatement order db (.update t as filter)) =
          { db with
            kv := db.kv.insert (rowKey table.name k.keyText)
              (encodeRow (writeAll (decodeRow data) cells)) }) ∨
      (∀ table cells k, UpdateOf db.catalog t as filter table cells k →
        rowKey table.name k.keyText ∉ db.kv) ∧
        settled db (runStatement order db (.update t as filter)) = db := by
  by_cases h : ∃ table cells k, UpdateOf db.catalog t as filter table cells k ∧
      rowKey table.name k.keyText ∈ db.kv
  · left
    obtain ⟨table, cells, k, hof, hmem⟩ := h
    obtain ⟨data, hdata⟩ := Finmap.mem_iff.1 hmem
    refine ⟨table, cells, k, data, hof, hdata, ?_⟩
    rw [runStatement, hof.planned_eq (hcat t table hof.table_eq).2.2]
    change settled db (executePointUpdate db (rowKey table.name k.keyText) _) = _
    rw [executePointUpdate, hdata]
    simp only [assign_cells]
    rfl
  · right
    push Not at h
    refine ⟨h, ?_⟩
    cases hrun : runStatement order db (.update t as filter) with
    | error e => rfl
    | ok x =>
      obtain ⟨p, hp, -⟩ := bind_eq_ok_iff.1 hrun
      have heffect := effect_of_runStatement hcat hrun
      obtain ⟨result, db'⟩ := x
      dsimp only at heffect
      cases heffect with
      | unchanged => rfl
      | @update _ _ table k cells data htable hkey htyped hdata =>
        exact absurd (Finmap.mem_of_lookup_eq_some hdata) (h table cells k
          ⟨htable, planned_update_filter hp htable hkey, htyped, rfl⟩)

end Doki.Sql
