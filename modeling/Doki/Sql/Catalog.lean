import Doki.Lib.Finmaps
import Doki.Lib.Floats
import Doki.Lib.Json.Decode
import Doki.Sql.Parser

/-!
# The catalog, rows and their keys

The tables that have been created, and how a row of a table is kept in the store:
as a JSON object, at a key made of the name of the table and the value of its primary
key.

A row is written from the literals of a statement and read back without its types. An
integer comes back as a `float64`, that is, rounded to 53 bits; a text comes back with
every byte that is not UTF-8 replaced. From then on a value stays what it is
(`Value.stored_decode`): writing a row that was read changes nothing.

Keys determine what they are made of (`rowKey_eq_iff`): names of tables have no `/`,
and literals of one type have different texts (`Literal.keyText_inj`).
-/

namespace Doki.Sql

open Json (Bytes)

/-! ### Errors -/

/-- What was being done when an error occurred. -/
inductive Context
  | createTable
  | insert
  | select
  | update
  | delete
  | planInsert
  | planSelect
  | planUpdate
  | planDelete
  | value (i : ℕ)
  | assignment (column : Bytes)
  | pkValue
  | whereValue
  | filter
  deriving DecidableEq, Repr

def Context.text (q : Bytes → String) : Context → String
  | createTable => "CREATE TABLE"
  | insert => "INSERT"
  | select => "SELECT"
  | update => "UPDATE"
  | delete => "DELETE"
  | planInsert => "plan INSERT"
  | planSelect => "plan SELECT"
  | planUpdate => "plan UPDATE"
  | planDelete => "plan DELETE"
  | value i => s!"value {i}"
  | assignment column => "assignment to " ++ q column
  | pkValue => "pk value"
  | whereValue => "WHERE value"
  | filter => "WHERE"

inductive SqlError
  | parse (e : ParseError)
  | tableExists (name : Bytes)
  | tableNotFound (name : Bytes)
  | duplicateColumn (column table : Bytes)
  | noPrimaryKey (table : Bytes)
  | multiplePrimaryKeys (table : Bytes)
  | columnNotFound (column table : Bytes)
  | valueCount (values columns : ℕ)
  | starMixed
  | filterRequired
  | filterForm
  | noKeyColumn (column table : Bytes)
  | notColumn (e : Expr)
  | unsupported (e : Expr)
  | typeMismatch (column : Bytes) (expected actual : ColumnType)
  | keyNotGiven (column : Bytes)
  | notLiteral (e : Expr)
  | nonLiteral (column : Bytes)
  | planFilterRequired
  | onlyEquals
  | within (c : Context) (e : SqlError)
  deriving DecidableEq, Repr

/-- The name of the type of an expression, as `%T` shows it. -/
def Expr.typeName : Expr → String
  | binary .. => "*sql.BinaryExpr"
  | column _ => "*sql.ColumnRef"
  | literal _ => "*sql.Literal"
  | star => "*sql.StarExpr"

def columnTypeName : ColumnType → String
  | .int => "INT"
  | .text => "TEXT"
  | .bool => "BOOL"

/-- The text of the error; `qb` and `q` quote a byte and a text, as `%q` does. -/
def SqlError.message (qb : UInt8 → String) (q : Bytes → String) : SqlError → String
  | parse e => e.message qb q
  | tableExists name => "table " ++ q name ++ " already exists"
  | tableNotFound name => "table " ++ q name ++ " not found"
  | duplicateColumn column table =>
    "duplicate column name " ++ q column ++ " in CREATE TABLE " ++ q table
  | noPrimaryKey table => "CREATE TABLE " ++ q table ++ ": no PRIMARY KEY defined"
  | multiplePrimaryKeys table =>
    "CREATE TABLE " ++ q table ++ ": multiple PRIMARY KEY columns defined"
  | columnNotFound column table => "column " ++ q column ++ " not found in table " ++ q table
  | valueCount values columns => s!"{values} values provided but table has {columns} columns"
  | starMixed => "* cannot be mixed with other columns"
  | filterRequired => "WHERE clause required in v1"
  | filterForm => "v1: WHERE must filter on primary key column with ="
  | noKeyColumn column table =>
    "internal: primary key column " ++ q column ++ " not found in table " ++ q table
  | notColumn e => "expected column name, got " ++ e.typeName
  | unsupported e => "unsupported expression type " ++ e.typeName
  | typeMismatch column expected actual => "type mismatch for column " ++ q column ++
    ": expected " ++ columnTypeName expected ++ ", got " ++ columnTypeName actual
  | keyNotGiven column => "primary key column " ++ q column ++ " not found in INSERT columns"
  | notLiteral e => "expected literal expression, got " ++ e.typeName
  | nonLiteral column => "non-literal value for column " ++ q column
  | planFilterRequired => "WHERE clause required"
  | onlyEquals => "only = operator supported in WHERE"
  | within c e => c.text q ++ ": " ++ e.message qb q

/-! ### The catalog -/

structure TableDef where
  name : Bytes
  columns : List ColumnDef
  primaryKey : Bytes
  deriving DecidableEq, Repr

abbrev Catalog := Finmap fun _ : Bytes => TableDef

namespace Catalog

def createTable (cat : Catalog) (d : TableDef) : Except SqlError Catalog :=
  if d.name ∈ cat then .error (.tableExists d.name) else .ok (cat.insert d.name d)

def getTable (cat : Catalog) (name : Bytes) : Except SqlError TableDef :=
  match cat.lookup name with
  | none => .error (.tableNotFound name)
  | some d => .ok d

theorem getTable_eq_ok_iff {cat : Catalog} {name : Bytes} {d : TableDef} :
    cat.getTable name = .ok d ↔ cat.lookup name = some d := by
  rw [getTable]
  cases cat.lookup name <;> simp

end Catalog

/-! ### Rows -/

/-- A value of a row: of a literal, or as it is read from the store, where numbers
    are `float64`s. Only whole numbers are ever written. -/
inductive Value
  | int (n : ℤ)
  | float (n : ℤ)
  | text (s : Bytes)
  | bool (b : Bool)
  | null
  deriving DecidableEq, Repr

abbrev Row := Finmap fun _ : Bytes => Value

/-- A value of a stored row. A number stands for the `float64` it is read as: of the
    texts of one `float64`, which one is written makes no difference. -/
inductive JsonValue
  | number (n : ℤ)
  | string (s : List Char)
  | bool (b : Bool)
  | null
  deriving DecidableEq, Repr

/-- A stored row. Its names are those of columns, which are written as they are. -/
abbrev Document := Finmap fun _ : Bytes => JsonValue

def Value.encode : Value → JsonValue
  | int n => .number n
  | float n => .number n
  | text s => .string (Json.runes s)
  | bool b => .bool b
  | null => .null

def JsonValue.decode : JsonValue → Value
  | number n => .float (Floats.nearest n)
  | string s => .text (Json.utf8Encode s)
  | bool b => .bool b
  | null => .null

def encodeRow (row : Row) : Document := row.mapValues fun _ => Value.encode

def decodeRow (data : Document) : Row := data.mapValues fun _ => JsonValue.decode

/-- What a value is once it has been written and read. -/
def Value.stored (x : Value) : Value := x.encode.decode

@[simp] theorem Value.stored_decode (j : JsonValue) : j.decode.stored = j.decode := by
  cases j with
  | number n => exact congrArg Value.float (Floats.nearest_nearest n)
  | string s =>
    exact congrArg (fun cs => Value.text (Json.utf8Encode cs)) (Json.runes_utf8Encode s)
  | bool b => rfl
  | null => rfl

@[simp] theorem lookup_decodeRow (data : Document) (c : Bytes) :
    (decodeRow data).lookup c = (data.lookup c).map JsonValue.decode :=
  Finmap.lookup_mapValues _ _ _

@[simp] theorem decodeRow_empty : decodeRow ∅ = ∅ :=
  Finmap.ext_lookup fun c => by rw [lookup_decodeRow, Finmap.lookup_empty, Finmap.lookup_empty]; rfl

theorem lookup_decodeRow_encodeRow (row : Row) (c : Bytes) :
    (decodeRow (encodeRow row)).lookup c = (row.lookup c).map Value.stored := by
  rw [lookup_decodeRow, encodeRow, Finmap.lookup_mapValues, Option.map_map]
  rfl

/-! ### Literals as values and as keys -/

namespace Literal

/-- The type that the analyzer infers for a literal: `NULL` counts as an integer. -/
def columnType : Literal → ColumnType
  | int _ => .int
  | text _ => .text
  | bool _ => .bool
  | null => .int

def value : Literal → Value
  | int n => .int n
  | text s => .text s
  | bool b => .bool b
  | null => .null

/-- An integer in base ten. -/
def formatInt (n : ℤ) : Bytes :=
  if n < 0 then 0x2d :: Json.encodeNat n.natAbs else Json.encodeNat n.natAbs

/-- The text of a literal in a key. -/
def keyText : Literal → Bytes
  | int n => formatInt n
  | text s => s
  | bool b => if b then bytes "true" else bytes "false"
  | null => bytes "null"

theorem encodeNat_inj {m n : ℕ} (h : Json.encodeNat m = Json.encodeNat n) : m = n := by
  rw [← Json.ofDigitChars_encodeNat m, h, Json.ofDigitChars_encodeNat]

theorem cons_ne_encodeNat {b : UInt8} (hb : Json.isDigit b = false) (rest : Bytes) (n : ℕ) :
    b :: rest ≠ Json.encodeNat n := fun h => by
  have := Json.Scan.isDigit_of_mem_encodeNat n b (h ▸ List.mem_cons_self)
  rw [hb] at this
  cases this

theorem formatInt_inj {m n : ℤ} (h : formatInt m = formatInt n) : m = n := by
  unfold formatInt at h
  split_ifs at h with hm hn hn
  · have := encodeNat_inj (List.cons.inj h).2
    omega
  · exact absurd h (cons_ne_encodeNat rfl _ _)
  · exact absurd h.symm (cons_ne_encodeNat rfl _ _)
  · have := encodeNat_inj h
    omega

theorem null_ne_formatInt (n : ℤ) : bytes "null" ≠ formatInt n := by
  have hnull : bytes "null" = 0x6e :: [0x75, 0x6c, 0x6c] := by decide +kernel
  unfold formatInt
  rw [hnull]
  split
  · intro h
    cases (List.cons.inj h).1
  · exact cons_ne_encodeNat rfl _ _

theorem keyText_bool_inj {b c : Bool} (h : keyText (.bool b) = keyText (.bool c)) : b = c := by
  have hne : bytes "true" ≠ bytes "false" := by decide +kernel
  cases b <;> cases c
  · rfl
  · exact absurd h hne.symm
  · exact absurd h hne
  · rfl

/-- Literals of one type have different texts. -/
theorem keyText_inj {v w : Literal} (ht : v.columnType = w.columnType)
    (h : v.keyText = w.keyText) : v = w := by
  cases v <;> cases w <;> try cases ht
  · exact congrArg int (formatInt_inj h)
  · exact absurd h.symm (null_ne_formatInt _)
  · exact congrArg text h
  · exact congrArg bool (keyText_bool_inj h)
  · exact absurd h (null_ne_formatInt _)
  · rfl

end Literal

abbrev slash : UInt8 := 0x2f

def rowKey (table pkValue : Bytes) : Bytes := table ++ slash :: pkValue

/-- The start of the keys of a table. -/
def tablePrefix (table : Bytes) : Bytes := table ++ [slash]

theorem slash_notMem_of_isName {s : Bytes} (h : IsName s) : slash ∉ s := fun hmem =>
  absurd (List.all_eq_true.1 h.2.1 slash hmem) (by decide)

theorem rowKey_eq_iff {t t' k k' : Bytes} (ht : IsName t) (ht' : IsName t') :
    rowKey t k = rowKey t' k' ↔ t = t' ∧ k = k' := by
  refine ⟨fun h => ?_, by rintro ⟨rfl, rfl⟩; rfl⟩
  have hne : ∀ u : Bytes, IsName u → ∀ ch ∈ u, (ch != slash) = true := fun u hu ch hch => by
    rw [bne_iff_ne]
    rintro rfl
    exact slash_notMem_of_isName hu hch
  -- a name is what stands before the first slash of a key
  have hbefore : ∀ u l : Bytes, IsName u → (rowKey u l).takeWhile (· != slash) = u := by
    intro u l hu
    rw [rowKey, List.takeWhile_append_of_pos (hne u hu), List.takeWhile_cons_of_neg (by decide),
      List.append_nil]
  have htt : t = t' := by rw [← hbefore t k ht, h, hbefore t' k' ht']
  subst htt
  exact ⟨rfl, (List.cons.inj (List.append_cancel_left h)).2⟩

/-- The keys of a table are those with its name. -/
theorem isPrefixOf_rowKey_iff {t t' k : Bytes} (ht : IsName t) (ht' : IsName t') :
    (tablePrefix t).isPrefixOf (rowKey t' k) = true ↔ t = t' := by
  rw [List.isPrefixOf_iff_prefix, tablePrefix]
  constructor
  · rintro ⟨rest, h⟩
    rw [List.append_assoc] at h
    exact ((rowKey_eq_iff ht ht').1 h).1
  · rintro rfl
    exact ⟨k, by rw [List.append_assoc]; rfl⟩

end Doki.Sql
