import Doki.Lib.Json.ByteStrings
import Doki.Sql.TypeSoundness

/-!
# Tables

What the store is for: tables, each of them a finite map from primary keys to rows. A
statement is evaluated on the tables directly (`Tables.evaluate`), without keys made of
bytes, prefixes or documents, and the rows of an answer are in no order.

A store represents tables when the row of a primary key stands at the key made of the
name of the table and the primary key (`Represents`). Every statement, planned and
executed on the store, then has the error or the answer that it has on the tables
(`matches_runStatement`), and so does every text of any list of texts
(`answers_relational`): the layout of the store cannot be observed.

The tables also say what is peculiar about the statements: an `INSERT` replaces the row
of its primary key, an `UPDATE` keeps a row where it is even when it assigns the primary
key, and a `DELETE` reports one row whether there is one or not. Of what is written, a table
keeps numbers as `float64`s and texts as UTF-8 (`Value.kept`), which is all that is left of
the documents.
-/

namespace Doki.Sql

open Json (Bytes)
open Except (bind_eq_ok_iff map_eq_ok_iff pure_eq_ok_iff mapError_eq_ok_iff)

/-! ### Statements on tables -/

/-- What a table keeps of a value: the `float64` nearest to a number, and a text with U+FFFD
    for every byte that is not UTF-8. -/
def Value.kept : Value → Value
  | int n | float n => .float (Floats.nearest n)
  | text s => .text (Json.repair s)
  | bool b => .bool b
  | null => .null

/-- What a table keeps of a row. -/
def Row.kept (row : Row) : Row := row.mapValues fun _ => Value.kept

/-- The tables, and the rows of each by their primary keys. -/
structure Tables where
  catalog : Catalog
  rows : Bytes → Finmap fun _ : Literal => Row

/-- The columns and the rows of a result, the rows in no order. -/
structure Answer where
  columns : List Bytes := []
  rows : Multiset Row := 0
  rowsAffected : ℕ := 0

/-- The literal that a value is. -/
def TypedExpr.literal (te : TypedExpr) : Except SqlError Literal :=
  match te.expr with
  | .literal v => .ok v
  | e => .error (.notLiteral e)

/-- The primary key that a filter asks for. -/
def wantedKey : Option ResolvedWhere → Except SqlError Literal
  | none => .error .planFilterRequired
  | some w =>
    if w.op ≠ .eq then .error .onlyEquals
    else w.value.literal.mapError (.within .whereValue)

/-- The primary key and the row that an `INSERT` gives. -/
def newRow (table : TableDef) (cols : List ColumnDef) (values : List TypedExpr) :
    Except SqlError (Literal × Row) :=
  Except.mapError (.within .planInsert) do
    let pkValue ← findPKValue table cols values
    let v ← pkValue.literal.mapError (.within .pkValue)
    let row ← assign (List.zipWith ResolvedAssignment.mk cols values) ∅
    pure (v, row)

namespace Tables

def empty : Tables := ⟨∅, fun _ => ∅⟩

/-- All rows of a table. -/
def allRows (tables : Tables) (t : Bytes) : Multiset Row :=
  (tables.rows t).keys.val.filterMap (tables.rows t).lookup

/-- The row with a primary key, if there is one. -/
def rowsAt (tables : Tables) (t : Bytes) (v : Literal) : Multiset Row :=
  ((tables.rows t).lookup v).toList

/-- The row of a primary key is written. -/
def put (tables : Tables) (t : Bytes) (v : Literal) (row : Row) : Tables :=
  { tables with rows := Function.update tables.rows t ((tables.rows t).insert v row.kept) }

/-- The row of a primary key is removed. -/
def remove (tables : Tables) (t : Bytes) (v : Literal) : Tables :=
  { tables with rows := Function.update tables.rows t ((tables.rows t).erase v) }

/-- The rows that a `SELECT` is about. -/
def selected (tables : Tables) (table : TableDef) :
    Option ResolvedWhere → Except SqlError (Multiset Row)
  | some w =>
    if w.op = .eq then Except.mapError (.within .planSelect) do
      let v ← w.value.literal.mapError (.within .whereValue)
      pure (tables.rowsAt table.name v)
    else .ok (tables.allRows table.name)
  | none => .ok (tables.allRows table.name)

/-- The assignments on the row with a primary key, if there is one. -/
def update (tables : Tables) (t : Bytes) (v : Literal) (assignments : List ResolvedAssignment) :
    Except SqlError (Answer × Tables) :=
  match (tables.rows t).lookup v with
  | none => .ok ({}, tables)
  | some row => do
    let row ← (assign assignments row).mapError (.within .update)
    pure ({ rowsAffected := 1 }, tables.put t v row)

def evaluate (tables : Tables) : ResolvedStatement → Except SqlError (Answer × Tables)
  | .createTable d => do
    let catalog ← (tables.catalog.createTable d).mapError (.within .createTable)
    pure ({}, { tables with catalog })
  | .insert table cols values => do
    let new ← newRow table cols values
    pure ({ rowsAffected := 1 }, tables.put table.name new.1 new.2)
  | .select table columns filter => do
    let rows ← tables.selected table filter
    let cols := resolveColumns table columns
    pure ({ columns := cols.map ColumnDef.name, rows := rows.map (projectRow · cols) }, tables)
  | .update table assignments filter => do
    let v ← (wantedKey filter).mapError (.within .planUpdate)
    tables.update table.name v assignments
  | .delete table filter => do
    let v ← (wantedKey filter).mapError (.within .planDelete)
    pure ({ rowsAffected := 1 }, tables.remove table.name v)

/-- A text on the tables. -/
def run (tables : Tables) (text : Bytes) : Except SqlError (Answer × Tables) := do
  let stmt ← (parse text).mapError .parse
  let rs ← analyze tables.catalog stmt
  tables.evaluate rs

/-- The answer to a text, and the tables after it. -/
def respond (tables : Tables) (text : Bytes) : Except SqlError Answer × Tables :=
  match tables.run text with
  | .ok x => (.ok x.1, x.2)
  | .error e => (.error e, tables)

end Tables

/-! ### Plans from primary keys -/

theorem evalLiteralToString_eq (te : TypedExpr) :
    evalLiteralToString te = te.literal.map Literal.keyText := by
  obtain ⟨expr, ctype⟩ := te
  cases expr <;> rfl

theorem TypedExpr.literal_eq_ok {te : TypedExpr} {v : Literal} (h : te.literal = .ok v) :
    te.expr = .literal v := by
  obtain ⟨expr, ctype⟩ := te
  cases expr <;> cases h
  rfl

theorem filterKey_eq (table : TableDef) (filter : Option ResolvedWhere) :
    filterKey table filter = (wantedKey filter).map fun v => rowKey table.name v.keyText := by
  cases filter with
  | none => rfl
  | some w =>
    rw [filterKey, wantedKey, evalLiteralToString_eq]
    split_ifs
    · rfl
    · cases w.value.literal <;> rfl

theorem planInsert_eq (table : TableDef) (cols : List ColumnDef) (values : List TypedExpr) :
    planInsert table cols values = (newRow table cols values).map fun new =>
      .insert (rowKey table.name new.1.keyText) new.2 table := by
  unfold planInsert newRow
  cases findPKValue table cols values with
  | error e => rfl
  | ok tv =>
    obtain ⟨expr, ctype⟩ := tv
    cases expr with
    | literal v => cases assign (List.zipWith ResolvedAssignment.mk cols values) ∅ <;> rfl
    | column name => rfl
    | binary left op right => rfl
    | star => rfl

/-- The primary key of a new row has the type of the column. -/
theorem keyLiteral_newRow {table : TableDef} (htable : table.WellFormed) {cols : List ColumnDef}
    {values : List TypedExpr} {new : Literal × Row}
    (hfits : ∀ a ∈ List.zipWith ResolvedAssignment.mk cols values, Fits table a)
    (h : newRow table cols values = .ok new) : table.KeyLiteral new.1 := by
  simp only [newRow, mapError_eq_ok_iff, bind_eq_ok_iff, pure_eq_ok_iff] at h
  obtain ⟨tv, htv, v, hv, row, -, rfl⟩ := h
  obtain ⟨-, col, hcol, hmem⟩ := findPKValue_eq_ok htv
  refine ⟨col, ?_, (hfits _ hmem).typed v (TypedExpr.literal_eq_ok hv)⟩
  rw [← hcol]
  exact findColumn_of_mem htable (hfits _ hmem).mem

theorem keyLiteral_wantedKey {table : TableDef} {e : Expr} {w : ResolvedWhere} {v : Literal}
    (hw : Filters table e w) (h : wantedKey (some w) = .ok v) : table.KeyLiteral v := by
  rw [wantedKey, if_neg (not_not.2 hw.op_eq)] at h
  exact hw.typed v (TypedExpr.literal_eq_ok (mapError_eq_ok_iff.1 h))

/-! ### Stores that represent tables -/

/-- The row of each primary key stands at the key made of the name of the table and of
    the primary key, and no other rows are in the tables. -/
structure Represents (db : Db) (tables : Tables) : Prop where
  catalog : tables.catalog = db.catalog
  rows : ∀ table v, db.catalog.lookup table.name = some table → table.KeyLiteral v →
    (tables.rows table.name).lookup v =
      (db.kv.lookup (rowKey table.name v.keyText)).map decodeRow
  typed : ∀ t v, v ∈ tables.rows t →
    ∃ table, db.catalog.lookup t = some table ∧ table.KeyLiteral v

theorem represents_empty : Represents .empty .empty := by
  refine ⟨rfl, fun table v htable => ?_, fun t v hmem => ?_⟩
  · cases htable
  · exact absurd hmem (Finmap.notMem_empty)

/-- A document has what the table keeps. -/
theorem Value.stored_eq_kept (x : Value) : x.stored = x.kept := by
  cases x with
  | text s => exact congrArg Value.text (Json.asText_eq_repair s)
  | _ => rfl

theorem decodeRow_encodeRow (row : Row) : decodeRow (encodeRow row) = row.kept :=
  Finmap.ext_lookup fun c => by
    rw [lookup_decodeRow_encodeRow, Row.kept, Finmap.lookup_mapValues,
      funext Value.stored_eq_kept]

namespace Tables

variable (tables : Tables) (t t' : Bytes) (v w : Literal)

theorem lookup_put (row : Row) : ((tables.put t v row).rows t').lookup w =
    if t' = t ∧ w = v then some row.kept else (tables.rows t').lookup w := by
  by_cases ht : t' = t
  · subst ht
    by_cases hw : w = v
    · subst hw
      simp [put]
    · simp [put, hw, Finmap.lookup_insert_of_ne _ hw]
  · simp [put, ht]

theorem lookup_remove : ((tables.remove t v).rows t').lookup w =
    if t' = t ∧ w = v then none else (tables.rows t').lookup w := by
  by_cases ht : t' = t
  · subst ht
    by_cases hw : w = v
    · subst hw
      simp [remove]
    · simp [remove, hw, Finmap.lookup_erase_ne hw]
  · simp [remove, ht]

end Tables

namespace Represents

variable {db : Db} {tables : Tables} {table : TableDef} {v : Literal}

/-- The row of one primary key is changed in the store and in the tables. -/
theorem change (h : Represents db tables) (hinv : db.Invariant)
    (htable : db.catalog.lookup table.name = some table) (hv : table.KeyLiteral v) {kv : KV}
    {tables' : Tables} (data : Option Document)
    (hkv : ∀ key, kv.lookup key =
      if key = rowKey table.name v.keyText then data else db.kv.lookup key)
    (hcat : tables'.catalog = tables.catalog)
    (hrows : ∀ t w, (tables'.rows t).lookup w =
      if t = table.name ∧ w = v then data.map decodeRow else (tables.rows t).lookup w) :
    Represents { db with kv } tables' := by
  refine ⟨hcat.trans h.catalog, fun table' w htable' hw => ?_, fun t w hmem => ?_⟩
  · rw [hrows, hkv]
    simp only [rowKey_eq_iff_of_keyLiteral hinv.catalog htable' htable hw hv]
    split_ifs
    · rfl
    · exact h.rows table' w htable' hw
  · rw [← Finmap.lookup_isSome, hrows] at hmem
    split_ifs at hmem with heq
    · obtain ⟨rfl, rfl⟩ := heq
      exact ⟨table, htable, hv⟩
    · exact h.typed t w (Finmap.lookup_isSome.1 hmem)

theorem put (h : Represents db tables) (hinv : db.Invariant)
    (htable : db.catalog.lookup table.name = some table) (hv : table.KeyLiteral v) (row : Row) :
    Represents { db with kv := db.kv.insert (rowKey table.name v.keyText) (encodeRow row) }
      (tables.put table.name v row) := by
  refine h.change hinv htable hv (some (encodeRow row)) (fun key => ?_) rfl fun t w => ?_
  · split_ifs with hkey
    · rw [hkey, Finmap.lookup_insert]
    · rw [Finmap.lookup_insert_of_ne _ hkey]
  · rw [Tables.lookup_put, Option.map_some, decodeRow_encodeRow]

theorem remove (h : Represents db tables) (hinv : db.Invariant)
    (htable : db.catalog.lookup table.name = some table) (hv : table.KeyLiteral v) :
    Represents { db with kv := db.kv.erase (rowKey table.name v.keyText) }
      (tables.remove table.name v) := by
  refine h.change hinv htable hv none (fun key => ?_) rfl fun t w => ?_
  · split_ifs with hkey
    · rw [hkey, Finmap.lookup_erase]
    · rw [Finmap.lookup_erase_ne hkey]
  · rw [Tables.lookup_remove, Option.map_none]

/-- A new table has no rows, neither in the store nor in the tables. -/
theorem createTable (h : Represents db tables) (hinv : db.Invariant) {d : TableDef}
    (hnew : d.name ∉ db.catalog) (hname : IsName d.name) :
    Represents { db with catalog := db.catalog.insert d.name d }
      { tables with catalog := db.catalog.insert d.name d } := by
  refine ⟨rfl, fun table v htable hv => ?_, fun t v hmem => ?_⟩
  · dsimp only at htable ⊢
    by_cases ht : table.name = d.name
    · rw [ht]
      have hrow : (tables.rows d.name).lookup v = none := by
        rw [Finmap.lookup_eq_none]
        intro hmem
        obtain ⟨table', htable', -⟩ := h.typed _ _ hmem
        exact hnew (Finmap.mem_of_lookup_eq_some htable')
      have hdata : db.kv.lookup (rowKey d.name v.keyText) = none := by
        rw [Option.eq_none_iff_forall_ne_some]
        intro data hdata
        obtain ⟨table', w, htable', -, hkey, -⟩ := hinv.entry _ _ hdata
        have hn := ((rowKey_eq_iff hname (hinv.catalog _ _ htable').2.1).1 hkey).1
        exact hnew (hn ▸ Finmap.mem_of_lookup_eq_some htable')
      rw [hrow, hdata, Option.map_none]
    · rw [Finmap.lookup_insert_of_ne _ ht] at htable
      exact h.rows table v htable hv
  · obtain ⟨table, htable, hv⟩ := h.typed t v hmem
    refine ⟨table, ?_, hv⟩
    dsimp only
    rw [Finmap.lookup_insert_of_ne, htable]
    rintro rfl
    exact hnew (Finmap.mem_of_lookup_eq_some htable)

theorem keyLiteral (h : Represents db tables)
    (htable : db.catalog.lookup table.name = some table)
    (hv : v ∈ (tables.rows table.name).keys.toList) : table.KeyLiteral v := by
  obtain ⟨table', htable', hv'⟩ := h.typed _ v (Finmap.mem_keys.1 (Finset.mem_toList.1 hv))
  rw [htable] at htable'
  cases htable'
  exact hv'

/-- The keys of a table in the store are those of its rows. -/
theorem perm_keys (h : Represents db tables) (hinv : db.Invariant) {order : List Bytes}
    (ho : Enumerates order db.kv) (htable : db.catalog.lookup table.name = some table) :
    (order.filter fun key => (tablePrefix table.name).isPrefixOf key).Perm
      ((tables.rows table.name).keys.toList.map fun v => rowKey table.name v.keyText) := by
  have hname := (hinv.catalog _ _ htable).2.1
  have hnodup : ((tables.rows table.name).keys.toList.map
      fun v => rowKey table.name v.keyText).Nodup := by
    refine (Finset.nodup_toList _).map_on fun v hv w hw heq => ?_
    exact ((rowKey_eq_iff_of_keyLiteral hinv.catalog htable htable (h.keyLiteral htable hv)
      (h.keyLiteral htable hw)).1 heq).2
  rw [List.perm_ext_iff_of_nodup (ho.1.filter _) hnodup]
  intro key
  rw [List.mem_filter, List.mem_map, ho.2]
  constructor
  · rintro ⟨hmem, hprefix⟩
    obtain ⟨data, hdata⟩ := Finmap.mem_iff.1 hmem
    obtain ⟨table', v, htable', hv, rfl, -⟩ := hinv.entry _ _ hdata
    have ht := (isPrefixOf_rowKey_iff hname (hinv.catalog _ _ htable').2.1).1 hprefix
    rw [← ht] at htable' hdata ⊢
    rw [htable] at htable'
    cases htable'
    refine ⟨v, ?_, rfl⟩
    rw [Finset.mem_toList, Finmap.mem_keys, ← Finmap.lookup_isSome, h.rows table v htable hv,
      hdata]
    rfl
  · rintro ⟨v, hv, rfl⟩
    refine ⟨?_, (isPrefixOf_rowKey_iff hname hname).2 rfl⟩
    have hrow := h.rows table v htable (h.keyLiteral htable hv)
    rw [Finset.mem_toList, Finmap.mem_keys, ← Finmap.lookup_isSome, hrow,
      Option.isSome_map] at hv
    exact Finmap.lookup_isSome.1 hv

/-- A scan finds the rows of the table. -/
theorem scan (h : Represents db tables) (hinv : db.Invariant) {order : List Bytes}
    (ho : Enumerates order db.kv) (htable : db.catalog.lookup table.name = some table) :
    ((db.kv.scan order (tablePrefix table.name)).map decodeRow : Multiset Row) =
      tables.allRows table.name := by
  have hrows : ∀ v ∈ (tables.rows table.name).keys.toList,
      (db.kv.lookup (rowKey table.name v.keyText)).map decodeRow =
        (tables.rows table.name).lookup v := fun v hv =>
    (h.rows table v htable (h.keyLiteral htable hv)).symm
  rw [Tables.allRows, ← Finset.coe_toList, Multiset.filterMap_coe, Multiset.coe_eq_coe, KV.scan,
    List.map_filterMap]
  refine ((h.perm_keys hinv ho htable).filterMap _).trans ?_
  rw [List.filterMap_map]
  exact .of_eq (List.filterMap_congr hrows)

end Represents

/-! ### The same answers -/

def ResultSet.answer (r : ResultSet) : Answer := ⟨r.columns, r.rows, r.rowsAffected⟩

/-- The same error, or the same answer and a store that represents the tables. -/
inductive Matches : Except SqlError (ResultSet × Db) → Except SqlError (Answer × Tables) → Prop
  | error (e : SqlError) : Matches (.error e) (.error e)
  | ok {r : ResultSet} {db : Db} {tables : Tables} (h : Represents db tables) :
      Matches (.ok (r, db)) (.ok (r.answer, tables))

theorem Matches.of_eq {r : ResultSet} {a : Answer} {db : Db} {tables : Tables}
    (h : Represents db tables) (hr : r.answer = a) : Matches (.ok (r, db)) (.ok (a, tables)) :=
  hr ▸ .ok h

section

variable {db : Db} {tables : Tables} {order : List Bytes} (h : Represents db tables)
  (hinv : db.Invariant)

include h hinv

theorem matches_createTable {d : TableDef} (hname : IsName d.name) :
    Matches (executeCreateTable db d) (tables.evaluate (.createTable d)) := by
  rw [executeCreateTable, Tables.evaluate, h.catalog, Catalog.createTable]
  split_ifs with hmem
  · exact .error _
  · exact .ok (h.createTable hinv hmem hname)

theorem matches_insert {table : TableDef} {cols : List ColumnDef} {values : List TypedExpr}
    (htable : db.catalog.lookup table.name = some table)
    (hfits : ∀ a ∈ List.zipWith ResolvedAssignment.mk cols values, Fits table a) :
    Matches (planInsert table cols values >>= execute order db)
      (tables.evaluate (.insert table cols values)) := by
  rw [planInsert_eq, Tables.evaluate]
  cases hnew : newRow table cols values with
  | error e => exact .error e
  | ok new =>
    have hv := keyLiteral_newRow (hinv.catalog _ _ htable).2.2 hfits hnew
    exact .ok (h.put hinv htable hv new.2)

theorem matches_select {table : TableDef} (columns : Option (List ColumnDef))
    {filter : Option ResolvedWhere} (htable : db.catalog.lookup table.name = some table)
    (hfilter : ∀ w, filter = some w →
      w.op = .eq ∧ ∀ v, w.value.expr = .literal v → table.KeyLiteral v)
    (ho : Enumerates order db.kv) :
    Matches (planSelect table columns filter >>= execute order db)
      (tables.evaluate (.select table columns filter)) := by
  cases filter with
  | none =>
    refine Matches.of_eq h ?_
    rw [← h.scan hinv ho htable, Multiset.map_coe, List.map_map]
    rfl
  | some w =>
    obtain ⟨hop, htyped⟩ := hfilter w rfl
    rw [planSelect, Tables.evaluate, Tables.selected, if_pos hop, if_pos hop,
      evalLiteralToString_eq]
    cases hv : w.value.literal with
    | error e => exact .error _
    | ok v =>
      refine Matches.of_eq h ?_
      rw [Tables.rowsAt, h.rows table v htable (htyped v (TypedExpr.literal_eq_ok hv)),
        Multiset.map_coe, Option.toList_map, List.map_map]
      rw [ResultSet.answer, executePointGet, Option.toList_map]
      rfl

theorem matches_update {table : TableDef} (assignments : List ResolvedAssignment) {e : Expr}
    {w : ResolvedWhere} (htable : db.catalog.lookup table.name = some table)
    (hw : Filters table e w) :
    Matches (planUpdate table assignments (some w) >>= execute order db)
      (tables.evaluate (.update table assignments (some w))) := by
  rw [planUpdate, Tables.evaluate, filterKey_eq]
  cases hv : wantedKey (some w) with
  | error e => exact .error _
  | ok v =>
    have htyped := keyLiteral_wantedKey hw hv
    change Matches (executePointUpdate db (rowKey table.name v.keyText) assignments)
      (tables.update table.name v assignments)
    rw [executePointUpdate, Tables.update, h.rows table v htable htyped]
    cases db.kv.lookup (rowKey table.name v.keyText) with
    | none => exact .ok h
    | some data =>
      rw [Option.map_some]
      dsimp only
      cases assign assignments (decodeRow data) with
      | error e => exact .error _
      | ok row => exact .ok (h.put hinv htable htyped row)

theorem matches_delete {table : TableDef} {e : Expr} {w : ResolvedWhere}
    (htable : db.catalog.lookup table.name = some table) (hw : Filters table e w) :
    Matches (planDelete table (some w) >>= execute order db)
      (tables.evaluate (.delete table (some w))) := by
  rw [planDelete, Tables.evaluate, filterKey_eq]
  cases hv : wantedKey (some w) with
  | error e => exact .error _
  | ok v => exact .ok (h.remove hinv htable (keyLiteral_wantedKey hw hv))

/-- A statement on a store that represents the tables. -/
theorem matches_runStatement (ho : Enumerates order db.kv) {stmt : Statement}
    (hname : IsName stmt.tableName) :
    Matches (runStatement order db stmt) (analyze tables.catalog stmt >>= tables.evaluate) := by
  rw [runStatement, planned, h.catalog]
  cases hrs : analyze db.catalog stmt with
  | error e => exact .error e
  | ok rs =>
    change Matches (plan rs >>= execute order db) (tables.evaluate rs)
    cases stmt with
    | createTable t columns =>
      obtain ⟨d, hd, rfl⟩ := map_eq_ok_iff.1 hrs
      obtain ⟨-, rfl⟩ := wellFormed_analyzeCreateTable hd
      exact matches_createTable h hinv hname
    | insert t columns values =>
      obtain ⟨table, cols, tvs, rfl, htable, -, hfits⟩ := analyzeInsert_eq_ok hrs
      exact matches_insert h hinv (hinv.lookup_name htable) hfits
    | select columns t filter =>
      obtain ⟨table, cols, w, rfl, htable, hw⟩ := analyzeSelect_eq_ok hrs
      refine matches_select h hinv cols (hinv.lookup_name htable) ?_ ho
      rintro w' rfl
      obtain ⟨-, hw⟩ | ⟨e, w, -, hw, hfilter⟩ := hw
      · cases hw
      · cases hw
        exact ⟨hfilter.op_eq, hfilter.typed⟩
    | update t assignments filter =>
      obtain ⟨table, as, e, w, rfl, htable, -, -, rfl, hw⟩ := analyzeUpdate_eq_ok hrs
      exact matches_update h hinv as (hinv.lookup_name htable) hw
    | delete t filter =>
      obtain ⟨table, e, w, rfl, htable, rfl, hw⟩ := analyzeDelete_eq_ok hrs
      exact matches_delete h hinv (hinv.lookup_name htable) hw

theorem matches_run {r : Request} (ho : Enumerates r.order db.kv) :
    Matches (run r.order db r.text) (tables.run r.text) := by
  rw [run, Tables.run]
  cases hparse : parse r.text with
  | error e => exact .error _
  | ok stmt => exact matches_runStatement h hinv ho (isName_tableName hparse)

end

/-- The answer to a text, and the catalog and the store after it. -/
def respond (db : Db) (r : Request) : Except SqlError Answer × Db :=
  ((run r.order db r.text).map fun x => x.1.answer, after db r)

theorem respond_eq {db : Db} {tables : Tables} {r : Request}
    (h : Matches (run r.order db r.text) (tables.run r.text)) (hrep : Represents db tables) :
    (respond db r).1 = (tables.respond r.text).1 ∧
      Represents (respond db r).2 (tables.respond r.text).2 := by
  unfold respond Tables.respond after
  generalize run r.order db r.text = x at h ⊢
  generalize tables.run r.text = y at h ⊢
  cases h with
  | error e => exact ⟨rfl, hrep⟩
  | ok hnext => exact ⟨rfl, hnext⟩

/-- Whatever texts are run, and in whatever order the store lists its keys for each, the
    answers are those on the tables. -/
theorem answers_relational (rs : List Request)
    (hord : Runs.Along step (fun db r => Enumerates r.order db.kv) .empty rs) :
    Runs.answers respond .empty rs = Runs.answers Tables.respond .empty (rs.map Request.text) := by
  refine Runs.answers_eq (R := fun db tables => db.Invariant ∧ Represents db tables)
    (fun db tables r hdb ho => ?_) ⟨invariant_empty, represents_empty⟩ hord
  obtain ⟨hanswer, hnext⟩ := respond_eq (matches_run hdb.2 hdb.1 ho) hdb.2
  exact ⟨hanswer, invariant_after hdb.1 r, hnext⟩

/-- Rows are inserted, listed in another order than they were inserted in, updated and
    deleted. -/
def someTexts : List Request :=
  [⟨bytes "CREATE TABLE users (id INT PRIMARY KEY, name TEXT)", []⟩,
    ⟨bytes "INSERT INTO users VALUES (1, 'alice')", []⟩,
    ⟨bytes "INSERT INTO users VALUES (2, 'bob')", [bytes "users/1"]⟩,
    ⟨bytes "SELECT * FROM users", [bytes "users/2", bytes "users/1"]⟩,
    ⟨bytes "UPDATE users SET id = 3 WHERE id = 1", [bytes "users/1", bytes "users/2"]⟩,
    ⟨bytes "DELETE FROM users WHERE id = 2", [bytes "users/1", bytes "users/2"]⟩,
    ⟨bytes "SELECT name FROM users WHERE id = 1", [bytes "users/1"]⟩]

theorem answers_relational_someTexts :
    Runs.Along step (fun db r => Enumerates r.order db.kv) .empty someTexts ∧
      Runs.answers respond .empty someTexts =
        Runs.answers Tables.respond .empty (someTexts.map Request.text) := by
  have hord : Runs.Along step (fun db r => Enumerates r.order db.kv) .empty someTexts := by
    decide +kernel
  exact ⟨hord, answers_relational someTexts hord⟩

end Doki.Sql
