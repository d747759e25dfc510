import Doki.Lib.Json.Encode
import Doki.Lib.Parsing
import Doki.Sql.Lexer

/-!
# Statements and their parser

The syntax trees of the SQL front end and its parser, a recursive descent over the
tokens of a text. Its loops and its nesting are bounded by the number of tokens
(`parse_ne_exhausted`, in `Doki.Sql.Soundness`).

A statement ends where its parser stops: nothing looks at the tokens behind it.
-/

namespace Doki.Sql

open Json (Bytes isDigit)
open Parsing

/-! ### Syntax trees -/

inductive ColumnType
  | int
  | text
  | bool
  deriving DecidableEq, Repr

structure ColumnDef where
  name : Bytes
  type : ColumnType
  primaryKey : Bool
  notNull : Bool
  deriving DecidableEq, Repr

/-- The operators; they come from tokens whose literal is determined by the type,
    up to the case of letters. -/
inductive BinaryOp
  | eq
  | ne
  | lt
  | gt
  | le
  | ge
  | and
  | or
  deriving DecidableEq, Repr

inductive Literal
  | int (n : ℤ)
  | text (s : Bytes)
  | bool (b : Bool)
  | null
  deriving DecidableEq, Repr

inductive Expr
  | binary (left : Expr) (op : BinaryOp) (right : Expr)
  | column (name : Bytes)
  | literal (value : Literal)
  | star
  deriving DecidableEq, Repr

structure Assignment where
  column : Bytes
  value : Expr
  deriving DecidableEq, Repr

/-- A statement. No columns in an `INSERT` stand for all of them. -/
inductive Statement
  | createTable (tableName : Bytes) (columns : List ColumnDef)
  | insert (tableName : Bytes) (columns : List Bytes) (values : List Expr)
  | select (columns : List Expr) (tableName : Bytes) (filter : Option Expr)
  | update (tableName : Bytes) (assignments : List Assignment) (filter : Option Expr)
  | delete (tableName : Bytes) (filter : Option Expr)
  deriving DecidableEq, Repr

def Statement.tableName : Statement → Bytes
  | createTable t _ => t
  | insert t _ _ => t
  | select _ t _ => t
  | update t _ _ => t
  | delete t _ => t

/-! ### The parser -/

inductive ParseError
  | lex (e : LexError)
  | expected (tt : TokenType) (got : Token)
  | expectedStatement (got : Token)
  | expectedType (got : Token)
  | invalidNumber (got : Token)
  | unexpected (got : Token)
  /-- Never returned. -/
  | exhausted
  deriving DecidableEq, Repr

/-- The text of the error; `qb` and `q` quote a byte and a text, as `%q` does. -/
def ParseError.message (qb : UInt8 → String) (q : Bytes → String) : ParseError → String
  | lex e => "lex: " ++ e.message qb
  | expected tt t => "expected " ++ tt.name ++ " but got " ++ shown t
  | expectedStatement t =>
    "unexpected token " ++ shown t ++ "; expected SELECT, INSERT, UPDATE, DELETE, or CREATE"
  | expectedType t => "expected column type (INT, TEXT, BOOL) but got " ++ shown t
  | invalidNumber t => "invalid number " ++ q t.literal ++ s!" at position {t.pos}: " ++
    "strconv.ParseInt: parsing " ++ q t.literal ++ ": value out of range"
  | unexpected t => "unexpected token " ++ shown t ++ " in expression"
  | exhausted => ""
where
  shown (t : Token) : String :=
    t.type.name ++ " (" ++ q t.literal ++ s!") at position {t.pos}"

/-- The token seen behind the last one. -/
def eofToken : Token := ⟨.eof, [], 0⟩

abbrev TokenParser := Parser Token ParseError

def peek : TokenParser Token := Parsing.peek eofToken

def advance : TokenParser Token := Parsing.advance eofToken

def expect (tt : TokenType) : TokenParser Token :=
  Parsing.expect eofToken (fun t => t.type = tt) (.expected tt)

/-- The method `match` for one type. -/
def accept (tt : TokenType) : TokenParser Bool := Parsing.accept eofToken fun t => t.type = tt

/-- A list of items with commas between them, in at most `n` rounds. -/
def commaSeparated {α : Type} (n : ℕ) (item : TokenParser α) : TokenParser (List α) :=
  sepBy eofToken (fun t => t.type = .comma) .exhausted item n

def TokenType.logical : TokenType → Option BinaryOp
  | .and => some .and
  | .or => some .or
  | _ => none

def TokenType.comparison : TokenType → Option BinaryOp
  | .eq => some .eq
  | .neq => some .ne
  | .lt => some .lt
  | .gt => some .gt
  | .lte => some .le
  | .gte => some .ge
  | _ => none

def TokenType.columnType : TokenType → Option ColumnType
  | .int => some .int
  | .text => some .text
  | .bool => some .bool
  | _ => none

/-- The number that some digits stand for, as an `int64`. -/
def parseInt (literal : Bytes) : Option ℤ :=
  let n := Nat.ofDigitChars 10 (literal.map fun b => Char.ofNat b.toNat) 0
  if n < 2 ^ 63 then some n else none

mutual

def parseExpr : ℕ → TokenParser Expr
  | 0 => fail .exhausted
  | n + 1 => do
    let left ← parseCompare n
    parseLogical n left

/-- The loop of `parseExpr`. -/
def parseLogical : ℕ → Expr → TokenParser Expr
  | 0, _ => fail .exhausted
  | n + 1, left => do
    let tok ← peek
    match tok.type.logical with
    | none => pure left
    | some op => do
      let _ ← advance
      let right ← parseCompare n
      parseLogical n (.binary left op right)

def parseCompare : ℕ → TokenParser Expr
  | 0 => fail .exhausted
  | n + 1 => do
    let left ← parsePrimary n
    let tok ← peek
    match tok.type.comparison with
    | none => pure left
    | some op => do
      let _ ← advance
      let right ← parsePrimary n
      pure (.binary left op right)

def parsePrimary : ℕ → TokenParser Expr
  | 0 => fail .exhausted
  | n + 1 => do
    let tok ← peek
    match tok.type with
    | .number => do
      let _ ← advance
      match parseInt tok.literal with
      | some k => pure (.literal (.int k))
      | none => fail (.invalidNumber tok)
    | .string => do
      let _ ← advance
      pure (.literal (.text tok.literal))
    | .true => do
      let _ ← advance
      pure (.literal (.bool true))
    | .false => do
      let _ ← advance
      pure (.literal (.bool false))
    | .null => do
      let _ ← advance
      pure (.literal .null)
    | .ident => do
      let _ ← advance
      pure (.column tok.literal)
    | .lparen => do
      let _ ← advance
      let expr ← parseExpr n
      let _ ← expect .rparen
      pure expr
    | _ => fail (.unexpected tok)

end

def parseColumnType : TokenParser ColumnType := do
  let tok ← advance
  match tok.type.columnType with
  | some ct => pure ct
  | none => fail (.expectedType tok)

/-- The loop of `parseColumnDef`: constraints in any order. -/
def parseConstraints : ℕ → (primaryKey notNull : Bool) → TokenParser (Bool × Bool)
  | 0, _, _ => fail .exhausted
  | n + 1, primaryKey, notNull => do
    let tok ← peek
    if tok.type = .primary then do
      let _ ← advance
      let _ ← expect .key
      parseConstraints n true notNull
    else if tok.type = .not then do
      let _ ← advance
      let _ ← expect .null
      parseConstraints n primaryKey true
    else pure (primaryKey, notNull)

def parseColumnDef (n : ℕ) : TokenParser ColumnDef := do
  let nameTok ← expect .ident
  let colType ← parseColumnType
  let constraints ← parseConstraints n false false
  pure ⟨nameTok.literal, colType, constraints.1, constraints.2⟩

def parseCreateTable (n : ℕ) : TokenParser Statement := do
  let _ ← expect .create
  let _ ← expect .table
  let nameTok ← expect .ident
  let _ ← expect .lparen
  let cols ← commaSeparated n (parseColumnDef n)
  let _ ← expect .rparen
  let _ ← accept .semicolon
  pure (.createTable nameTok.literal cols)

def parseName : TokenParser Bytes := do
  let tok ← expect .ident
  pure tok.literal

/-- The optional list of columns of an `INSERT`. -/
def parseColumnList (n : ℕ) : TokenParser (List Bytes) := do
  let parens ← accept .lparen
  if parens then do
    let cols ← commaSeparated n parseName
    let _ ← expect .rparen
    pure cols
  else pure []

def parseInsert (n : ℕ) : TokenParser Statement := do
  let _ ← expect .insert
  let _ ← expect .into
  let nameTok ← expect .ident
  let cols ← parseColumnList n
  let _ ← expect .values
  let _ ← expect .lparen
  let values ← commaSeparated n (parseExpr n)
  let _ ← expect .rparen
  let _ ← accept .semicolon
  pure (.insert nameTok.literal cols values)

def parseSelectList (n : ℕ) : TokenParser (List Expr) := do
  let star ← accept .star
  if star then pure [.star] else commaSeparated n (parsePrimary n)

/-- The optional `WHERE` of a `SELECT`. -/
def parseFilter (n : ℕ) : TokenParser (Option Expr) := do
  let found ← accept .where
  if found then do
    let expr ← parseExpr n
    pure (some expr)
  else pure none

def parseSelect (n : ℕ) : TokenParser Statement := do
  let _ ← expect .select
  let columns ← parseSelectList n
  let _ ← expect .from
  let nameTok ← expect .ident
  let filter ← parseFilter n
  let _ ← accept .semicolon
  pure (.select columns nameTok.literal filter)

def parseAssignment (n : ℕ) : TokenParser Assignment := do
  let colTok ← expect .ident
  let _ ← expect .eq
  let val ← parseExpr n
  pure ⟨colTok.literal, val⟩

def parseUpdate (n : ℕ) : TokenParser Statement := do
  let _ ← expect .update
  let nameTok ← expect .ident
  let _ ← expect .set
  let assignments ← commaSeparated n (parseAssignment n)
  let _ ← expect .where
  let filter ← parseExpr n
  let _ ← accept .semicolon
  pure (.update nameTok.literal assignments (some filter))

def parseDelete (n : ℕ) : TokenParser Statement := do
  let _ ← expect .delete
  let _ ← expect .from
  let nameTok ← expect .ident
  let _ ← expect .where
  let filter ← parseExpr n
  let _ ← accept .semicolon
  pure (.delete nameTok.literal (some filter))

def parseStatement (n : ℕ) : TokenParser Statement := do
  let tok ← peek
  match tok.type with
  | .create => parseCreateTable n
  | .insert => parseInsert n
  | .select => parseSelect n
  | .update => parseUpdate n
  | .delete => parseDelete n
  | _ => fail (.expectedStatement tok)

/-- Rounds that are enough for some tokens. -/
def rounds (tokens : List Token) : ℕ := 4 * tokens.length + 4

def parse (input : Bytes) : Except ParseError Statement :=
  match lex input with
  | .error e => .error (.lex e)
  | .ok tokens => (parseStatement (rounds tokens) tokens).map Prod.fst

example : parse (bytes "SELECT name FROM users WHERE id = 42;") = .ok (.select
    [.column (bytes "name")] (bytes "users")
    (some (.binary (.column (bytes "id")) .eq (.literal (.int 42))))) := by
  decide +kernel

end Doki.Sql
