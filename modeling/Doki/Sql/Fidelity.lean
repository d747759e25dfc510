import Doki.Lib.Json.ByteStrings
import Doki.Sql.Acceptance
import Doki.Sql.PointLookup

/-!
# What becomes of an inserted value

A literal that is inserted goes through the encoder and the decoder of rows once, and
again with every `UPDATE` of its row. Only the first time changes it
(`Value.stored_decode`), so what a `SELECT` of the row returns for its column does not
depend on the updates of other columns in between (`holds_updates`).

It is the literal for truth values and for UTF-8 texts. An integer is the same exactly
if it has a significand of 53 bits (`returns_iff_representable`); others below `2 ^ 63`
are accepted and come back changed (`integer_rounded`).
-/

namespace Doki.Sql

open Json (Bytes)

/-! ### Literals -/

/-- The literals that statements have but for `NULL`: integers of the parser's range,
    texts in UTF-8, and truth values. -/
def Literal.Proper : Literal → Prop
  | int n => 0 ≤ n ∧ n < 2 ^ 63
  | text s => s.toByteArray.IsValidUTF8
  | bool _ => True
  | null => False

/-- An integer is a `float64`. -/
def Literal.Representable : Literal → Prop
  | int n => ∃ m e : ℕ, m < 2 ^ 53 ∧ n = m * 2 ^ e
  | _ => True

theorem Literal.is_stored_iff {l : Literal} (h : l.Proper) :
    l.value.stored.is l = true ↔ l.Representable := by
  cases l with
  | int n =>
    obtain ⟨n, rfl⟩ := Int.eq_ofNat_of_zero_le h.1
    have hstored : (Literal.int n).value.stored = .float (Floats.nearest n) := rfl
    rw [hstored, Value.is, decide_eq_true_iff, Floats.nearest_natCast, Int.natCast_inj,
      Floats.roundNat_eq_iff]
    simp only [Representable]
    norm_cast
  | text s =>
    have hstored : (Literal.text s).value.stored = .text (Json.asText s) := rfl
    rw [hstored, Value.is, decide_eq_true_iff, Json.asText_eq_iff]
    exact iff_of_true h trivial
  | bool b => exact iff_of_true (decide_eq_true rfl) trivial
  | null => exact h.elim

/-! ### Statements on one row -/

/-- The catalog and the store after statements, which have failed or not. -/
def runAll (order : List Bytes) (db : Db) (stmts : List Statement) : Db :=
  stmts.foldl (fun db stmt => settled db (runStatement order db stmt)) db

/-- A row stands at the key, and has the value for the column. -/
def Db.Holds (db : Db) (key name : Bytes) (x : Value) : Prop :=
  ∃ data, db.kv.lookup key = some data ∧ (decodeRow data).lookup name = some x

variable {db : Db} {t : Bytes} {table : TableDef} {order : List Bytes} {k l : Literal}
  {name : Bytes} {x : Value}

/-- Writing other columns keeps a value that was read. -/
theorem lookup_decodeRow_writeAll {data : Document} {cells : List (Cell table)}
    (h : (decodeRow data).lookup name = some x) (hcells : ∀ c ∈ cells, c.column.name ≠ name) :
    (decodeRow (encodeRow (writeAll (decodeRow data) cells))).lookup name = some x := by
  have hfind : cells.reverse.find? (·.column.name = name) = none :=
    List.find?_eq_none.2 fun c hc hname =>
      hcells c (List.mem_reverse.1 hc) (of_decide_eq_true hname)
  rw [lookup_decodeRow_encodeRow, lookup_writeAll, hfind, Option.map_none, Option.none_or, h,
    Option.map_some]
  rw [lookup_decodeRow] at h
  obtain ⟨j, -, rfl⟩ := Option.map_eq_some_iff.1 h
  rw [Value.stored_decode]

/-- An `UPDATE` of other columns, of this row or another one, keeps the value. -/
theorem holds_update (hcat : db.catalog.WellFormed) {as : List Assignment}
    (has : ∀ a ∈ as, a.column ≠ name) {key : Bytes} (h : db.Holds key name x)
    (order : List Bytes) (t : Bytes) (filter : Option Expr) :
    (settled db (runStatement order db (.update t as filter))).Holds key name x ∧
      (settled db (runStatement order db (.update t as filter))).catalog = db.catalog := by
  have heffect := effect_settled hcat order (.update t as filter)
  generalize settled db _ = db' at heffect ⊢
  cases heffect with
  | unchanged => exact ⟨h, rfl⟩
  | @update _ _ table v cells data htable hkey htyped hdata =>
    refine ⟨?_, rfl⟩
    obtain ⟨data', hdata', hx⟩ := h
    by_cases heq : key = rowKey table.name v.keyText
    · subst heq
      rw [hdata] at hdata'
      cases hdata'
      exact ⟨_, Finmap.lookup_insert _, lookup_decodeRow_writeAll hx fun c hc =>
        has c.source (List.mem_map_of_mem hc)⟩
    · exact ⟨data', (Finmap.lookup_insert_of_ne _ heq).trans hdata', hx⟩

theorem holds_updates (hcat : db.catalog.WellFormed) {us : List (List Assignment)}
    (hus : ∀ as ∈ us, ∀ a ∈ as, a.column ≠ name) {key : Bytes} (h : db.Holds key name x)
    (order : List Bytes) (t : Bytes) (filter : Option Expr) :
    (runAll order db (us.map (.update t · filter))).Holds key name x ∧
      (runAll order db (us.map (.update t · filter))).catalog = db.catalog := by
  induction us generalizing db with
  | nil => exact ⟨h, rfl⟩
  | cons as us ih =>
    obtain ⟨has, hus⟩ := List.forall_mem_cons.1 hus
    obtain ⟨hstep, hcat'⟩ := holds_update hcat has h order t filter
    obtain ⟨hrest, hcat''⟩ := ih (hcat' ▸ hcat) hus hstep
    exact ⟨hrest, hcat''.trans hcat'⟩

/-- What an `INSERT` of typed literals leaves at the key of its row. -/
theorem holds_insert (hcat : db.catalog.WellFormed) {columns : List Bytes} {values : List Expr}
    {cells : List (Cell table)} (h : InsertOf db.catalog t columns values table cells k)
    (hl : (given name (insertAssignments table columns values)).getLast? = some (.literal l))
    (order : List Bytes) :
    (settled db (runStatement order db (.insert t columns values))).Holds
        (rowKey table.name k.keyText) name l.value.stored ∧
      (settled db (runStatement order db (.insert t columns values))).catalog = db.catalog := by
  rw [runStatement, planned_insert_cells h.table_eq (hcat t table h.table_eq).2.2 h.count
    h.cells_eq h.key_eq]
  refine ⟨⟨_, Finmap.lookup_insert _, ?_⟩, rfl⟩
  rw [h.cells_eq, given_map_source, List.getLast?_map, List.getLast?_filter] at hl
  obtain ⟨c, hc, hlit⟩ := Option.map_eq_some_iff.1 hl
  rw [lookup_decodeRow_encodeRow, lookup_writeAll, hc]
  cases hlit
  rfl

/-! ### What a lookup returns -/

/-- The statement returns one row, in which the column has the literal as its value. -/
def Returns (order : List Bytes) (db : Db) (stmt : Statement) (name : Bytes) (l : Literal) : Prop :=
  ∃ result, runStatement order db stmt = .ok (result, db) ∧
    ∃ row, result.rows = [row] ∧ ∃ x, row.lookup name = some x ∧ x.is l = true

/-- A lookup of the row at a key returns the value that it holds. -/
theorem returns_select_iff (htable : db.catalog.lookup t = some table) (hk : table.KeyLiteral k)
    {targets : List Expr} {cols : Option (List ColumnDef)}
    (htargets : selectColumns table targets = .ok cols) {col : ColumnDef}
    (hcol : col ∈ resolveColumns table cols)
    (h : db.Holds (rowKey table.name k.keyText) col.name x) :
    Returns order db (.select targets t (whereKey table k)) col.name l ↔ x.is l = true := by
  obtain ⟨data, hdata, hx⟩ := h
  have hrun : runStatement order db (.select targets t (whereKey table k)) = _ :=
    runStatement_select htable hk htargets
  have hrow := lookup_projectRow (decodeRow data) hcol
  rw [hx, Option.getD_some] at hrow
  rw [executePointGet, hdata] at hrun
  constructor
  · rintro ⟨result, hresult, row, hrows, y, hy, his⟩
    rw [hrun] at hresult
    cases hresult
    cases hrows
    rw [hrow] at hy
    cases hy
    exact his
  · exact fun his => ⟨_, hrun, _, rfl, x, hrow, his⟩

theorem InsertOf.keyLiteral {cat : Catalog} {columns : List Bytes} {values : List Expr}
    {cells : List (Cell table)} (h : InsertOf cat t columns values table cells k)
    (hwf : table.WellFormed) : table.KeyLiteral k := by
  have hkey := h.key_eq
  rw [Statement.keyExpr, h.cells_eq, given_map_source, List.head?_map] at hkey
  obtain ⟨c, hc, hlit⟩ := Option.map_eq_some_iff.1 hkey
  cases hlit
  have hname := (List.mem_filter.1 (List.mem_of_mem_head? hc)).2
  exact ⟨c.column, of_decide_eq_true hname ▸ findColumn_of_mem hwf c.mem, c.typed⟩

/-- After an `INSERT` of typed literals and `UPDATE`s of the row that leave a column
    alone, a lookup of the row returns the literal that was inserted for the column
    exactly if it is no integer beyond 53 bits of significand. -/
theorem returns_iff_representable (hcat : db.catalog.WellFormed) {columns : List Bytes}
    {values : List Expr} {cells : List (Cell table)}
    (h : InsertOf db.catalog t columns values table cells k) {col : ColumnDef}
    (hl : (given col.name (insertAssignments table columns values)).getLast? = some (.literal l))
    (hproper : l.Proper) {us : List (List Assignment)}
    (hus : ∀ as ∈ us, ∀ a ∈ as, a.column ≠ col.name) {targets : List Expr}
    {cols : Option (List ColumnDef)} (htargets : selectColumns table targets = .ok cols)
    (hcol : col ∈ resolveColumns table cols) :
    Returns order
        (runAll order db (.insert t columns values :: us.map (.update t · (whereKey table k))))
        (.select targets t (whereKey table k)) col.name l ↔
      l.Representable := by
  obtain ⟨hinsert, hcat'⟩ := holds_insert hcat h hl order
  obtain ⟨hholds, hcat''⟩ := holds_updates (hcat' ▸ hcat) hus hinsert order t (whereKey table k)
  rw [← Literal.is_stored_iff hproper]
  refine returns_select_iff ?_ (h.keyLiteral (hcat t table h.table_eq).2.2) htargets hcol hholds
  rw [runAll, List.foldl_cons, ← runAll, hcat'', hcat', h.table_eq]

/-! ### Examples -/

def idColumn : ColumnDef := ⟨bytes "id", .int, true, false⟩

def balanceColumn : ColumnDef := ⟨bytes "balance", .int, false, false⟩

/-- A table of two integers. -/
def accounts : TableDef :=
  { name := bytes "accounts"
    columns := [idColumn, balanceColumn]
    primaryKey := idColumn.name }

def createAccounts : List Request :=
  [⟨bytes "CREATE TABLE accounts (id INT PRIMARY KEY, balance INT)", []⟩]

/-- Literals for the columns of an account. -/
def account (id balance : ℤ) : List (Cell accounts) :=
  [⟨idColumn, .int id, List.mem_cons_self, rfl⟩,
    ⟨balanceColumn, .int balance, List.mem_cons_of_mem _ List.mem_cons_self, rfl⟩]

theorem exists_accounts : ∃ db, Runs.exec step .empty createAccounts = some db ∧
    db.catalog.WellFormed ∧ db.catalog.lookup (bytes "accounts") = some accounts := by
  obtain ⟨db, hdb, htable⟩ : ∃ db, Runs.exec step .empty createAccounts = some db ∧
      db.catalog.lookup (bytes "accounts") = some accounts := by
    refine ⟨_, rfl, ?_⟩
    decide +kernel
  exact ⟨db, hdb, ((invariant_run createAccounts).last hdb).catalog, htable⟩

/-- A balance is inserted, and read after the identifier of the row was assigned. -/
theorem returns_account : ∃ db, Runs.exec step .empty createAccounts = some db ∧
    (Returns []
        (runAll [] db (.insert accounts.name [] [.literal (.int 1), .literal (.int 100)] ::
          [[⟨idColumn.name, .literal (.int 1)⟩]].map
            (.update accounts.name · (whereKey accounts (.int 1)))))
        (.select [.column balanceColumn.name] accounts.name (whereKey accounts (.int 1)))
        balanceColumn.name (.int 100) ↔
      (Literal.int 100).Representable) := by
  obtain ⟨db, hdb, hcat, htable⟩ := exists_accounts
  have hinsert : InsertOf db.catalog accounts.name [] [.literal (.int 1), .literal (.int 100)]
      accounts (account 1 100) (.int 1) := ⟨htable, rfl, rfl, rfl⟩
  have hl : (given balanceColumn.name (insertAssignments accounts []
      [.literal (.int 1), .literal (.int 100)])).getLast? = some (.literal (.int 100)) := by
    decide +kernel
  have hproper : (Literal.int 100).Proper := ⟨by decide, by decide⟩
  have hcols : selectColumns accounts [.column balanceColumn.name] =
      .ok (some [balanceColumn]) := by decide +kernel
  exact ⟨db, hdb, returns_iff_representable hcat hinsert hl hproper (by decide +kernel) hcols
    List.mem_cons_self⟩

/-- A table and a row whose balance has 54 bits. -/
def largeBalance : List Request :=
  createAccounts ++ [⟨bytes "INSERT INTO accounts VALUES (1, 9007199254740993)", []⟩]

/-- The row of the first account. -/
def selectFirst : Statement := .select [.star] accounts.name (whereKey accounts (.int 1))

/-- A balance comes back as another one. -/
theorem integer_rounded : ∃ db, Runs.exec step .empty largeBalance = some db ∧
    keysOf balanceColumn.name (runStatement [] db selectFirst)
      = some [some (.float 9007199254740992)] ∧
    ¬ Returns [] db selectFirst balanceColumn.name (.int 9007199254740993) := by
  obtain ⟨db, hdb, hread⟩ : ∃ db, Runs.exec step .empty largeBalance = some db ∧
      keysOf balanceColumn.name (runStatement [] db selectFirst)
        = some [some (.float 9007199254740992)] := by
    refine ⟨_, rfl, ?_⟩
    decide +kernel
  refine ⟨db, hdb, hread, ?_⟩
  rintro ⟨result, hresult, row, hrows, x, hx, his⟩
  rw [hresult] at hread
  have hkeys : result.rows.map (·.lookup balanceColumn.name) = [some (.float 9007199254740992)] :=
    Option.some.inj hread
  rw [hrows, List.map_singleton, hx] at hkeys
  cases hkeys
  exact absurd his (by decide)

end Doki.Sql
