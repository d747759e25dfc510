import Doki.Sql.TypeSoundness

/-!
# Properties of every row

A property of rows speaks of the table, of what the key is made of and of what is
stored under it. Whether all rows of the store have it (`Db.AllRows`) depends on the
statements as follows:

* writing a row keeps it exactly if the written row has the property
  (`allRows_write_iff`);
* deleting a row keeps it (`Db.AllRows.erase`), and so does a new table, because it has
  no rows (`Db.AllRows.createTable`).

Only an `INSERT` or an `UPDATE` can therefore break it (`Db.AllRows.settled`), and a text
does what its statement does (`after_iff`).
-/

namespace Doki.Sql

open Json (Bytes)

/-- Every row of a table has the property. -/
def Db.AllRows (P : TableDef → Bytes → Document → Prop) (db : Db) : Prop :=
  ∀ t table k data, db.catalog.lookup t = some table → db.kv.lookup (rowKey t k) = some data →
    P table k data

/-- The statement writes a row if it succeeds. -/
def Statement.writesRow : Statement → Bool
  | insert .. | update .. => true
  | createTable .. | select .. | delete .. => false

variable {P : TableDef → Bytes → Document → Prop} {db : Db} {t : Bytes}

theorem allRows_write_iff (hinv : db.Invariant) (h : db.AllRows P) {table : TableDef}
    (htable : db.catalog.lookup t = some table) (k : Bytes) (data : Document) :
    ({ db with kv := db.kv.insert (rowKey table.name k) data } : Db).AllRows P ↔
      P table k data := by
  obtain ⟨rfl, hname, -⟩ := hinv.catalog t table htable
  refine ⟨fun h' => h' _ table k data htable (Finmap.lookup_insert _), fun hrow => ?_⟩
  intro t' table' k' data' htable' hdata'
  dsimp only at htable' hdata'
  by_cases hkey : rowKey t' k' = rowKey table.name k
  · obtain ⟨rfl, rfl⟩ := (rowKey_eq_iff (hinv.catalog _ _ htable').2.1 hname).1 hkey
    rw [htable] at htable'
    cases htable'
    rw [Finmap.lookup_insert] at hdata'
    cases hdata'
    exact hrow
  · rw [Finmap.lookup_insert_of_ne _ hkey] at hdata'
    exact h t' table' k' data' htable' hdata'

theorem Db.AllRows.erase (h : db.AllRows P) (key : Bytes) :
    ({ db with kv := db.kv.erase key } : Db).AllRows P := by
  intro t table k data htable hdata
  dsimp only at hdata
  by_cases hkey : rowKey t k = key
  · rw [hkey, Finmap.lookup_erase] at hdata
    cases hdata
  · rw [Finmap.lookup_erase_ne hkey] at hdata
    exact h t table k data htable hdata

/-- A new table has no rows. -/
theorem Db.AllRows.createTable (h : db.AllRows P) (hinv : db.Invariant) (hnew : t ∉ db.catalog)
    (hname : IsName t) (d : TableDef) :
    ({ db with catalog := db.catalog.insert t d } : Db).AllRows P := by
  intro t' table k data htable hdata
  dsimp only at htable hdata
  by_cases ht : t' = t
  · subst ht
    obtain ⟨table', w, htable', -, hkey, -⟩ := hinv.entry _ _ hdata
    obtain ⟨rfl, -⟩ := (rowKey_eq_iff hname (hinv.catalog _ _ htable').2.1).1 hkey
    exact absurd (Finmap.mem_of_lookup_eq_some htable') hnew
  · rw [Finmap.lookup_insert_of_ne _ ht] at htable
    exact h t' table k data htable hdata

theorem Db.AllRows.settled (h : db.AllRows P) (hinv : db.Invariant) (order : List Bytes)
    {stmt : Statement} (hname : IsName stmt.tableName) (hwrites : stmt.writesRow = false) :
    (settled db (runStatement order db stmt)).AllRows P := by
  have heffect := effect_settled hinv.catalog order stmt
  generalize Sql.settled db _ = db' at heffect ⊢
  cases heffect with
  | unchanged => exact h
  | createTable _ _ hnew => exact h.createTable hinv hnew hname _
  | insert | update => cases hwrites
  | delete => exact h.erase _

/-- A property of the store holds after a text exactly if its statement meets a condition
    that says so for every statement. -/
theorem after_iff {Q : Db → Prop} {C : Statement → Prop} (h : Q db) (r : Request)
    (hstmt : ∀ stmt, parse r.text = .ok stmt →
      (Q (settled db (runStatement r.order db stmt)) ↔ C stmt)) :
    Q (after db r) ↔ ∀ stmt, parse r.text = .ok stmt → C stmt := by
  cases hparse : parse r.text with
  | error e =>
    rw [after_of_parse_error hparse]
    exact iff_of_true h nofun
  | ok stmt =>
    rw [after_of_parse hparse, hstmt stmt hparse]
    refine ⟨fun hc stmt' hstmt' => ?_, fun hc => hc stmt rfl⟩
    cases hstmt'
    exact hc

end Doki.Sql
