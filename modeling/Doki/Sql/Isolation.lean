import Doki.Sql.TypeSoundness

/-!
# Tables do not disturb each other

A statement on one table leaves what is selected from another unchanged, and two plans
are about the same key exactly if they are about the same row (`isolated`). Both come
from the keys: the name of a table ends at the first slash of a key, and what follows it
is the text of a literal, of which those of one type are different.

A `SELECT` depends on the catalog through its own table only (`planned_select_congr`),
and on the store through the keys that start with the name of the table
(`sameAnswer_select`). The order of the rows is not specified, so the rows are compared
up to their order.
-/

namespace Doki.Sql

open Json (Bytes)

/-! ### Answers -/

/-- The same result, up to the order of the rows. -/
structure ResultSet.Same (r r' : ResultSet) : Prop where
  columns : r.columns = r'.columns
  rows : r.rows.Perm r'.rows
  rowsAffected : r.rowsAffected = r'.rowsAffected

/-- The same error, or the same result. -/
inductive SameAnswer :
    Except SqlError (ResultSet × Db) → Except SqlError (ResultSet × Db) → Prop
  | error (e : SqlError) : SameAnswer (.error e) (.error e)
  | ok {r r' : ResultSet} (db db' : Db) (h : r.Same r') : SameAnswer (.ok (r, db)) (.ok (r', db'))

/-! ### What a `SELECT` depends on -/

theorem planned_select_congr {cat cat' : Catalog} {t : Bytes} (h : cat.lookup t = cat'.lookup t)
    (columns : List Expr) (filter : Option Expr) :
    planned cat (.select columns t filter) = planned cat' (.select columns t filter) := by
  simp only [planned, analyze, analyzeSelect, Catalog.getTable, h]

/-- Scans of stores that agree on the keys with a prefix. -/
theorem perm_scan {kv kv' : KV} {order order' : List Bytes} {keyPrefix : Bytes}
    (ho : Enumerates order kv) (ho' : Enumerates order' kv')
    (h : ∀ key, keyPrefix.isPrefixOf key = true → kv.lookup key = kv'.lookup key) :
    (kv.scan order keyPrefix).Perm (kv'.scan order' keyPrefix) := by
  have hkeys : (order.filter fun key => keyPrefix.isPrefixOf key).Perm
      (order'.filter fun key => keyPrefix.isPrefixOf key) := by
    rw [List.perm_ext_iff_of_nodup (ho.1.filter _) (ho'.1.filter _)]
    intro key
    simp only [List.mem_filter, ho.2, ho'.2]
    refine and_congr_left fun hkey => ?_
    rw [← Finmap.lookup_isSome, ← Finmap.lookup_isSome, h key hkey]
  have hrows : (order.filter fun key => keyPrefix.isPrefixOf key).filterMap kv.lookup =
      (order.filter fun key => keyPrefix.isPrefixOf key).filterMap kv'.lookup :=
    List.filterMap_congr fun key hkey => h key (List.mem_filter.1 hkey).2
  unfold KV.scan
  rw [hrows]
  exact hkeys.filterMap _

/-- A `SELECT` has the same answer when its table is the same, and so are the rows at
    the keys that start with the name of the table. -/
theorem sameAnswer_select {db db' : Db} {t : Bytes} (hcat : db.catalog.WellFormed)
    (htable : db.catalog.lookup t = db'.catalog.lookup t)
    (hkv : ∀ key, (tablePrefix t).isPrefixOf key = true → db.kv.lookup key = db'.kv.lookup key)
    {order order' : List Bytes} (ho : Enumerates order db.kv) (ho' : Enumerates order' db'.kv)
    (columns : List Expr) (filter : Option Expr) :
    SameAnswer (runStatement order db (.select columns t filter))
      (runStatement order' db' (.select columns t filter)) := by
  unfold runStatement
  rw [← planned_select_congr htable]
  cases hp : planned db.catalog (.select columns t filter) with
  | error e => exact .error e
  | ok p =>
    obtain ⟨table, cols, hlookup, hp⟩ := planned_select hp
    obtain ⟨hname, hisName, -⟩ := hcat t table hlookup
    rcases hp with ⟨-, rfl⟩ | ⟨v, -, -, rfl⟩
    · refine .ok db db' ⟨rfl, (perm_scan ho ho' ?_).map _, rfl⟩
      rwa [hname]
    · refine .ok db db' ⟨rfl, ?_, rfl⟩
      have hkey := hkv (rowKey table.name v.keyText) <| by
        rw [hname]
        exact (isPrefixOf_rowKey_iff hisName hisName).2 rfl
      simp only [executePointGet, hkey, List.Perm.refl]

/-! ### What a statement leaves alone -/

/-- A statement changes no other table, and no row of another table. -/
theorem Effect.frame {db db' : Db} {stmt : Statement} (h : Effect db stmt db')
    (hcat : db.catalog.WellFormed) {t : Bytes} (ht : IsName t) (hne : stmt.tableName ≠ t) :
    db.catalog.lookup t = db'.catalog.lookup t ∧
      ∀ key, (tablePrefix t).isPrefixOf key = true → db.kv.lookup key = db'.kv.lookup key := by
  have hkey : ∀ table k key, db.catalog.lookup stmt.tableName = some table →
      (tablePrefix t).isPrefixOf key = true → key ≠ rowKey table.name k := by
    rintro table k key htable hkey rfl
    obtain ⟨hname, hisName, -⟩ := hcat _ table htable
    rw [hname] at hkey
    exact hne ((isPrefixOf_rowKey_iff ht hisName).1 hkey).symm
  cases h with
  | unchanged => exact ⟨rfl, fun _ _ => rfl⟩
  | createTable => exact ⟨(Finmap.lookup_insert_of_ne _ hne.symm).symm, fun _ _ => rfl⟩
  | insert htable =>
    refine ⟨rfl, fun key hpre => (Finmap.lookup_insert_of_ne _ ?_).symm⟩
    exact hkey _ _ key htable hpre
  | update htable =>
    refine ⟨rfl, fun key hpre => (Finmap.lookup_insert_of_ne _ ?_).symm⟩
    exact hkey _ _ key htable hpre
  | delete htable =>
    refine ⟨rfl, fun key hpre => (Finmap.lookup_erase_ne ?_).symm⟩
    exact hkey _ _ key htable hpre

theorem sameAnswer_after {db : Db} (hcat : db.catalog.WellFormed) {r : Request} {stmt : Statement}
    (hparse : parse r.text = .ok stmt) {t : Bytes} (ht : IsName t) (hne : stmt.tableName ≠ t)
    {order order' : List Bytes} (ho : Enumerates order db.kv)
    (ho' : Enumerates order' (after db r).kv) (columns : List Expr) (filter : Option Expr) :
    SameAnswer (runStatement order db (.select columns t filter))
      (runStatement order' (after db r) (.select columns t filter)) := by
  rcases after_cases hcat r with hdb | ⟨stmt', hparse', heffect⟩
  · rw [hdb] at ho' ⊢
    exact sameAnswer_select hcat rfl (fun _ _ => rfl) ho ho' columns filter
  · rw [hparse] at hparse'
    cases hparse'
    obtain ⟨htable, hkv⟩ := heffect.frame hcat ht hne
    exact sameAnswer_select hcat htable hkv ho ho' columns filter

/-! ### Which rows plans are about -/

/-- The statement names a row of its table by the literal `v`, which is of the type of
    the primary key. -/
def Catalog.Names (cat : Catalog) (stmt : Statement) (v : Literal) : Prop :=
  ∃ table, cat.lookup stmt.tableName = some table ∧
    stmt.keyExpr table = some (.literal v) ∧ table.KeyLiteral v

/-- A statement on one table leaves every `SELECT` on another unchanged, and plans are
    about the same key exactly if their statements name the same row. -/
theorem isolated {db : Db} (hcat : db.catalog.WellFormed) :
    (∀ (r : Request) (stmt : Statement) (b : Bytes), parse r.text = .ok stmt → b ∈ db.catalog →
      stmt.tableName ≠ b → ∀ order order', Enumerates order db.kv →
        Enumerates order' (after db r).kv → ∀ columns filter,
          SameAnswer (runStatement order db (.select columns b filter))
            (runStatement order' (after db r) (.select columns b filter))) ∧
      ∀ s₁ s₂ p₁ p₂ k₁ k₂, planned db.catalog s₁ = .ok p₁ → planned db.catalog s₂ = .ok p₂ →
        p₁.key = some k₁ → p₂.key = some k₂ →
          ∃ v₁ v₂, db.catalog.Names s₁ v₁ ∧ db.catalog.Names s₂ v₂ ∧
            (k₁ = k₂ ↔ s₁.tableName = s₂.tableName ∧ v₁ = v₂) := by
  have hwf : ∀ stmt : Statement, ∀ table, db.catalog.lookup stmt.tableName = some table →
      table.WellFormed := fun stmt table htable => (hcat _ table htable).2.2
  constructor
  · intro r stmt b hparse hb hne order order' ho ho' columns filter
    obtain ⟨table, htable⟩ := Finmap.mem_iff.1 hb
    exact sameAnswer_after hcat hparse (hcat b table htable).2.1 hne ho ho' columns filter
  · intro s₁ s₂ p₁ p₂ k₁ k₂ hp₁ hp₂ hk₁ hk₂
    obtain ⟨table₁, v₁, htable₁, hkey₁, htyped₁, rfl⟩ := planned_key hp₁ (hwf s₁) hk₁
    obtain ⟨table₂, v₂, htable₂, hkey₂, htyped₂, rfl⟩ := planned_key hp₂ (hwf s₂) hk₂
    exact ⟨v₁, v₂, ⟨table₁, htable₁, hkey₁, htyped₁⟩, ⟨table₂, htable₂, hkey₂, htyped₂⟩,
      rowKey_eq_iff_of_keyLiteral hcat htable₁ htable₂ htyped₁ htyped₂⟩

/-- Two tables, the name of one the start of the name of the other, and a row of each;
    one row has a slash in its key. -/
def twoTables : Db :=
  let db := after .empty ⟨bytes "CREATE TABLE a (id TEXT PRIMARY KEY, n INT)", []⟩
  let db := after db ⟨bytes "CREATE TABLE ab (id INT PRIMARY KEY)", []⟩
  let db := after db ⟨bytes "INSERT INTO a VALUES ('b/1', 7)", []⟩
  after db ⟨bytes "INSERT INTO ab VALUES (1)", []⟩

theorem wellFormed_twoTables : twoTables.catalog.WellFormed :=
  have h₁ := invariant_after invariant_empty
    ⟨bytes "CREATE TABLE a (id TEXT PRIMARY KEY, n INT)", []⟩
  have h₂ := invariant_after h₁ ⟨bytes "CREATE TABLE ab (id INT PRIMARY KEY)", []⟩
  have h₃ := invariant_after h₂ ⟨bytes "INSERT INTO a VALUES ('b/1', 7)", []⟩
  (invariant_after h₃ ⟨bytes "INSERT INTO ab VALUES (1)", []⟩).catalog

theorem isolated_twoTables : SameAnswer
    (runStatement [bytes "ab/1", bytes "a/b/1"] twoTables (.select [.star] (bytes "ab") none))
    (runStatement [bytes "ab/1"] (after twoTables ⟨bytes "DELETE FROM a WHERE id = 'b/1'", []⟩)
      (.select [.star] (bytes "ab") none)) := by
  refine (isolated wellFormed_twoTables).1 ⟨bytes "DELETE FROM a WHERE id = 'b/1'", []⟩
    (.delete (bytes "a")
      (some (.binary (.column (bytes "id")) .eq (.literal (.text (bytes "b/1"))))))
    (bytes "ab") ?_ ?_ ?_ _ _ ?_ ?_ [.star] none
  all_goals decide +kernel

end Doki.Sql
