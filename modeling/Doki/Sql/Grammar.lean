import Doki.Sql.Parser

/-!
# The grammar of statements

The language of statements, as derivations over words. Expressions have three
levels, as the functions of the recursive descent. Statements are given in terms of
the items of a `SELECT` list and of the constraints of a column, in which the
comments on the functions of the parser and these functions differ:

* `Documented`: the items are names, and the constraints are `PRIMARY KEY`, then
  `NOT NULL`, each at most once;
* `Accepted`: the items are primary expressions, and the constraints come in any
  order and number.
-/

namespace Doki.Sql

open Json (Bytes isDigit)
open Parsing

/-! ### Derivations -/

/-- The levels of expressions. -/
inductive Level
  | primary
  | compare
  | expr

inductive Derives : Level → List Word → Expr → Prop
  | number {s : Bytes} {n : ℤ} (h : parseInt s = some n) :
      Derives .primary [(.number, s)] (.literal (.int n))
  | string (s : Bytes) : Derives .primary [(.string, s)] (.literal (.text s))
  | true (s : Bytes) : Derives .primary [(.true, s)] (.literal (.bool true))
  | false (s : Bytes) : Derives .primary [(.false, s)] (.literal (.bool false))
  | null (s : Bytes) : Derives .primary [(.null, s)] (.literal .null)
  | name (s : Bytes) : Derives .primary [(.ident, s)] (.column s)
  | paren {s s' : Bytes} {ws : List Word} {e : Expr} (h : Derives .expr ws e) :
      Derives .primary ((.lparen, s) :: (ws ++ [(.rparen, s')])) e
  | primary {ws : List Word} {e : Expr} (h : Derives .primary ws e) : Derives .compare ws e
  | compare {ws vs : List Word} {l r : Expr} {tt : TokenType} {op : BinaryOp} {s : Bytes}
      (hl : Derives .primary ws l) (ht : tt.comparison = some op) (hr : Derives .primary vs r) :
      Derives .compare (ws ++ (tt, s) :: vs) (.binary l op r)
  | operand {ws : List Word} {e : Expr} (h : Derives .compare ws e) : Derives .expr ws e
  | logical {ws vs : List Word} {l r : Expr} {tt : TokenType} {op : BinaryOp} {s : Bytes}
      (hl : Derives .expr ws l) (ht : tt.logical = some op) (hr : Derives .compare vs r) :
      Derives .expr (ws ++ (tt, s) :: vs) (.binary l op r)

/-- The tokens with which an expression begins. -/
theorem Derives.exists_first {l : Level} {ws : List Word} {e : Expr} (h : Derives l ws e) :
    ∃ w ws', ws = w :: ws' ∧
      w.1 ∈ [TokenType.number, .string, .true, .false, .null, .ident, .lparen] := by
  induction h with
  | number | string | true | false | null | name | paren =>
    exact ⟨_, _, rfl, by simp⟩
  | primary h ih => exact ih
  | operand h ih => exact ih
  | compare hl ht hr ihl ihr =>
    obtain ⟨w, ws', rfl, hw⟩ := ihl
    exact ⟨w, _, rfl, hw⟩
  | logical hl ht hr ihl ihr =>
    obtain ⟨w, ws', rfl, hw⟩ := ihl
    exact ⟨w, _, rfl, hw⟩

/-- A comma between two items. -/
def IsComma (w : Word) : Prop := w.1 = .comma

/-- The constraints of a column, in any order: whether it is the primary key, and
    whether it is not null. -/
inductive AnyOrder : List Word → Bool × Bool → Prop
  | nil : AnyOrder [] (false, false)
  | primaryKey {s s' : Bytes} {ws : List Word} {c : Bool × Bool} (h : AnyOrder ws c) :
      AnyOrder ((.primary, s) :: (.key, s') :: ws) (true, c.2)
  | notNull {s s' : Bytes} {ws : List Word} {c : Bool × Bool} (h : AnyOrder ws c) :
      AnyOrder ((.not, s) :: (.null, s') :: ws) (c.1, true)

/-- The constraints of a column as documented: `(PRIMARY KEY)? (NOT NULL)?`. -/
inductive InOrder : List Word → Bool × Bool → Prop
  | nil : InOrder [] (false, false)
  | primaryKey (s s' : Bytes) : InOrder [(.primary, s), (.key, s')] (true, false)
  | notNull (s s' : Bytes) : InOrder [(.not, s), (.null, s')] (false, true)
  | both (s s' t t' : Bytes) :
      InOrder [(.primary, s), (.key, s'), (.not, t), (.null, t')] (true, true)

inductive ColumnOf (Constraints : List Word → Bool × Bool → Prop) : List Word → ColumnDef → Prop
  | mk {name s : Bytes} {tt : TokenType} {ct : ColumnType} {ws : List Word} {c : Bool × Bool}
      (ht : tt.columnType = some ct) (hc : Constraints ws c) :
      ColumnOf Constraints ((.ident, name) :: (tt, s) :: ws) ⟨name, ct, c.1, c.2⟩

/-- A name, as an item of a list. -/
def NameItem (ws : List Word) (name : Bytes) : Prop := ws = [(.ident, name)]

/-- A name, as an expression. -/
def ColumnItem (ws : List Word) (e : Expr) : Prop :=
  ∃ name, ws = [(.ident, name)] ∧ e = .column name

/-- The list of columns of an `INSERT`, which may be missing. -/
inductive ColumnList : List Word → List Bytes → Prop
  | none : ColumnList [] []
  | some {s s' : Bytes} {ws : List Word} {names : List Bytes}
      (h : SepBy IsComma NameItem ws names) :
      ColumnList ((.lparen, s) :: (ws ++ [(.rparen, s')])) names

inductive SelectList (Item : List Word → Expr → Prop) : List Word → List Expr → Prop
  | star (s : Bytes) : SelectList Item [(.star, s)] [.star]
  | items {ws : List Word} {es : List Expr} (h : SepBy IsComma Item ws es) : SelectList Item ws es

/-- The filter of a `SELECT`, which may be missing. -/
inductive Filter : List Word → Option Expr → Prop
  | none : Filter [] none
  | some {s : Bytes} {ws : List Word} {e : Expr} (h : Derives .expr ws e) :
      Filter ((.where, s) :: ws) (some e)

inductive AssignmentOf : List Word → Assignment → Prop
  | mk {name s : Bytes} {ws : List Word} {e : Expr} (h : Derives .expr ws e) :
      AssignmentOf ((.ident, name) :: (.eq, s) :: ws) ⟨name, e⟩

/-- At most one semicolon. -/
inductive Semicolon : List Word → Prop
  | none : Semicolon []
  | some (s : Bytes) : Semicolon [(.semicolon, s)]

/-- The five statements, with the given items of a `SELECT` list and the given
    constraints of a column. -/
inductive StatementOf (Item : List Word → Expr → Prop)
    (Constraints : List Word → Bool × Bool → Prop) : List Word → Statement → Prop
  | createTable {a b c d name : Bytes} {us semi : List Word} {cols : List ColumnDef}
      (hc : SepBy IsComma (ColumnOf Constraints) us cols) (hs : Semicolon semi) :
      StatementOf Item Constraints
        ((.create, a) :: (.table, b) :: (.ident, name) :: (.lparen, c) ::
          (us ++ (.rparen, d) :: semi))
        (.createTable name cols)
  | insert {a b c d e name : Bytes} {us vs semi : List Word} {cols : List Bytes}
      {values : List Expr} (hc : ColumnList us cols) (hv : SepBy IsComma (Derives .expr) vs values)
      (hs : Semicolon semi) :
      StatementOf Item Constraints
        ((.insert, a) :: (.into, b) :: (.ident, name) ::
          (us ++ (.values, c) :: (.lparen, d) :: (vs ++ (.rparen, e) :: semi)))
        (.insert name cols values)
  | select {a b name : Bytes} {us vs semi : List Word} {items : List Expr} {filter : Option Expr}
      (hi : SelectList Item us items) (hw : Filter vs filter) (hs : Semicolon semi) :
      StatementOf Item Constraints
        ((.select, a) :: (us ++ (.from, b) :: (.ident, name) :: (vs ++ semi)))
        (.select items name filter)
  | update {a b c name : Bytes} {us vs semi : List Word} {assignments : List Assignment}
      {filter : Expr} (ha : SepBy IsComma AssignmentOf us assignments)
      (hw : Derives .expr vs filter) (hs : Semicolon semi) :
      StatementOf Item Constraints
        ((.update, a) :: (.ident, name) :: (.set, b) :: (us ++ (.where, c) :: (vs ++ semi)))
        (.update name assignments (some filter))
  | delete {a b c name : Bytes} {vs semi : List Word} {filter : Expr}
      (hw : Derives .expr vs filter) (hs : Semicolon semi) :
      StatementOf Item Constraints
        ((.delete, a) :: (.from, b) :: (.ident, name) :: (.where, c) :: (vs ++ semi))
        (.delete name (some filter))

/-- A statement as the parser accepts it. -/
abbrev Accepted : List Word → Statement → Prop := StatementOf (Derives .primary) AnyOrder

/-- A statement as the comments on the functions of the parser describe it. -/
abbrev Documented : List Word → Statement → Prop := StatementOf ColumnItem InOrder

end Doki.Sql
