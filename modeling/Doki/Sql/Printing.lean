import Doki.Sql.Completeness
import Doki.Sql.Layout

/-!
# Printing statements

A statement is printed as its words with a blank between any two: keywords in upper
case, quotes doubled, and a binary expression in parentheses where it is an operand
or an item of a `SELECT` list. What is printed is read back (`parse_print`), for
every statement that the parser could return:

* its names are identifiers and no keywords, its numbers are those of an `int64`
  from zero on, and its texts are any bytes;
* its lists are not empty where the grammar has no empty list, and a star is the only
  item of its list.
-/

namespace Doki.Sql

open Json (Bytes isDigit encodeNat)
open Parsing

/-! ### Words -/

/-- The word of a type that is written in one way. -/
def word (tt : TokenType) : Word := (tt, bytes tt.name)

def BinaryOp.type : BinaryOp → TokenType
  | .eq => .eq
  | .ne => .neq
  | .lt => .lt
  | .gt => .gt
  | .le => .lte
  | .ge => .gte
  | .and => .and
  | .or => .or

def ColumnType.type : ColumnType → TokenType
  | .int => .int
  | .text => .text
  | .bool => .bool

def Literal.word : Literal → Word
  | .int n => (.number, encodeNat n.toNat)
  | .text s => (.string, s)
  | .bool true => Sql.word .true
  | .bool false => Sql.word .false
  | .null => Sql.word .null

def parens (ws : List Word) : List Word := word .lparen :: (ws ++ [word .rparen])

def Expr.isBinary : Expr → Bool
  | .binary _ _ _ => true
  | _ => false

def Expr.words : Expr → List Word
  | .binary l op r =>
    (if l.isBinary then parens l.words else l.words) ++ word op.type ::
      (if r.isBinary then parens r.words else r.words)
  | .column name => [(.ident, name)]
  | .literal v => [v.word]
  | .star => [word .star]

/-- An expression as an operand, or as an item of a `SELECT` list. -/
def Expr.operand (e : Expr) : List Word := if e.isBinary then parens e.words else e.words

/-- Lists of words with commas between them. -/
def commas : List (List Word) → List Word
  | [] => []
  | [ws] => ws
  | ws :: vs :: rest => ws ++ word .comma :: commas (vs :: rest)

def ColumnDef.words (c : ColumnDef) : List Word :=
  (.ident, c.name) :: word c.type.type ::
    ((if c.primaryKey then [word .primary, word .key] else []) ++
      if c.notNull then [word .not, word .null] else [])

def Assignment.words (a : Assignment) : List Word :=
  (.ident, a.column) :: word .eq :: a.value.words

def filterWords : Option Expr → List Word
  | none => []
  | some e => word .where :: e.words

def Statement.words : Statement → List Word
  | .createTable name cols =>
    word .create :: word .table :: (.ident, name) :: parens (commas (cols.map ColumnDef.words))
  | .insert name cols values =>
    word .insert :: word .into :: (.ident, name) ::
      ((if cols = [] then [] else parens (commas (cols.map fun c => [(.ident, c)]))) ++
        word .values :: parens (commas (values.map Expr.words)))
  | .select items name filter =>
    word .select :: (commas (items.map Expr.operand) ++ word .from :: (.ident, name) ::
      filterWords filter)
  | .update name assignments filter =>
    word .update :: (.ident, name) :: word .set ::
      (commas (assignments.map Assignment.words) ++ filterWords filter)
  | .delete name filter => word .delete :: word .from :: (.ident, name) :: filterWords filter

def print (stmt : Statement) : Bytes := write stmt.words

example : print (.delete (bytes "t") (some (.binary (.binary (.column (bytes "k")) .eq
    (.literal (.text (bytes "it's")))) .or (.literal .null))))
    = bytes "DELETE FROM t WHERE ( k = 'it''s' ) OR NULL" := by
  decide +kernel

/-! ### Statements that can be printed -/

def Literal.Printable : Literal → Prop
  | .int n => 0 ≤ n ∧ n < 2 ^ 63
  | _ => True

def Expr.Printable : Expr → Prop
  | .binary l _ r => l.Printable ∧ r.Printable
  | .column name => IsName name
  | .literal v => v.Printable
  | .star => False

def Statement.Printable : Statement → Prop
  | .createTable name cols => IsName name ∧ cols ≠ [] ∧ ∀ c ∈ cols, IsName c.name
  | .insert name cols values =>
    IsName name ∧ (∀ c ∈ cols, IsName c) ∧ values ≠ [] ∧ ∀ e ∈ values, e.Printable
  | .select items name filter =>
    IsName name ∧ (items = [.star] ∨ items ≠ [] ∧ ∀ e ∈ items, e.Printable) ∧
      ∀ e ∈ filter, e.Printable
  | .update name assignments filter =>
    IsName name ∧ assignments ≠ [] ∧ (∀ a ∈ assignments, IsName a.column ∧ a.value.Printable) ∧
      ∃ e, filter = some e ∧ e.Printable
  | .delete name filter => IsName name ∧ ∃ e, filter = some e ∧ e.Printable

/-! ### Printed words are lexical -/

/-- The types that are written in one way, up to the case of letters. -/
def fixedTypes : List TokenType :=
  keywords.map Prod.snd ++ (punctuations.map Prod.snd ++
    operators.flatMap fun x => x.2.1 :: x.2.2.toList)

theorem lexical_keyword : ∀ tt ∈ keywords.map Prod.snd, Lexical (word tt) := by
  have hall : ∀ tt ∈ keywords.map Prod.snd, (bytes tt.name).head?.any isLetter = true ∧
      (bytes tt.name).all isLetterOrDigit = true ∧ keyword (bytes tt.name) = some tt := by
    decide +kernel
  exact fun tt htt => .keyword (hall tt htt).1 (hall tt htt).2.1 (hall tt htt).2.2

theorem lexical_punctuation : ∀ tt ∈ punctuations.map Prod.snd, Lexical (word tt) := by
  have hall : ∀ x ∈ punctuations, word x.2 = (x.2, [x.1]) := by decide +kernel
  intro tt htt
  obtain ⟨x, hx, rfl⟩ := List.mem_map.1 htt
  rw [hall x hx]
  exact .punctuation hx

theorem lexical_operator :
    ∀ tt ∈ operators.flatMap fun x => x.2.1 :: x.2.2.toList, Lexical (word tt) := by
  have hall : ∀ x ∈ operators, word x.2.1 = (x.2.1, [x.1, 0x3d]) ∧
      ∀ tt ∈ x.2.2.toList, word tt = (tt, [x.1]) := by decide +kernel
  intro tt htt
  obtain ⟨x, hx, htt⟩ := List.mem_flatMap.1 htt
  rcases List.mem_cons.1 htt with rfl | htt
  · rw [(hall x hx).1]
    exact .long hx
  · rw [(hall x hx).2 tt htt]
    have hx' : (x.1, x.2.1, some tt) ∈ operators := by rwa [← Option.mem_toList.1 htt]
    exact .short hx'

theorem lexical_word {tt : TokenType} (h : tt ∈ fixedTypes) : Lexical (word tt) := by
  rcases List.mem_append.1 h with h | h
  · exact lexical_keyword tt h
  · rcases List.mem_append.1 h with h | h
    · exact lexical_punctuation tt h
    · exact lexical_operator tt h

theorem lexical_parens {ws : List Word} (h : ∀ w ∈ ws, Lexical w) : ∀ w ∈ parens ws, Lexical w := by
  rw [parens, List.forall_mem_cons, List.forall_mem_append, List.forall_mem_singleton]
  exact ⟨lexical_word (by decide), h, lexical_word (by decide)⟩

theorem lexical_commas {wss : List (List Word)} (h : ∀ ws ∈ wss, ∀ w ∈ ws, Lexical w) :
    ∀ w ∈ commas wss, Lexical w := by
  fun_induction commas wss with
  | case1 => simp
  | case2 ws => exact h ws (List.mem_singleton_self ws)
  | case3 ws vs rest ih =>
    rw [List.forall_mem_cons] at h
    rw [List.forall_mem_append, List.forall_mem_cons]
    exact ⟨h.1, lexical_word (by decide), ih h.2⟩

theorem Literal.lexical (v : Literal) : Lexical v.word := by
  cases v with
  | int n =>
    have hall := List.all_eq_true.2 (Json.Scan.isDigit_of_mem_encodeNat n.toNat)
    exact .number (Json.encodeNat_ne_nil _) hall
  | text s => exact .string s
  | bool b => cases b <;> exact lexical_word (by decide)
  | null => exact lexical_word (by decide)

theorem operator_mem_fixedTypes (op : BinaryOp) : op.type ∈ fixedTypes := by
  cases op <;> decide

theorem Expr.Printable.lexical {e : Expr} (h : e.Printable) :
    (∀ w ∈ e.words, Lexical w) ∧ ∀ w ∈ e.operand, Lexical w := by
  induction e with
  | column name =>
    have hname : ∀ w ∈ (Expr.column name).words, Lexical w :=
      List.forall_mem_singleton.2 (.name h)
    exact ⟨hname, hname⟩
  | literal v =>
    have hv : ∀ w ∈ (Expr.literal v).words, Lexical w :=
      List.forall_mem_singleton.2 v.lexical
    exact ⟨hv, hv⟩
  | star => exact h.elim
  | binary l op r ihl ihr =>
    have hwords : ∀ w ∈ (Expr.binary l op r).words, Lexical w := by
      change ∀ w ∈ l.operand ++ word op.type :: r.operand, Lexical w
      rw [List.forall_mem_append, List.forall_mem_cons]
      exact ⟨(ihl h.1).2, lexical_word (operator_mem_fixedTypes op), (ihr h.2).2⟩
    exact ⟨hwords, lexical_parens hwords⟩

theorem lexical_filterWords {filter : Option Expr} (h : ∀ e ∈ filter, e.Printable) :
    ∀ w ∈ filterWords filter, Lexical w := by
  cases filter with
  | none => simp [filterWords]
  | some e =>
    rw [filterWords, List.forall_mem_cons]
    exact ⟨lexical_word (by decide), (h e rfl).lexical.1⟩

theorem lexical_columnDef {c : ColumnDef} (h : IsName c.name) : ∀ w ∈ c.words, Lexical w := by
  have htype : c.type.type ∈ fixedTypes := by cases c.type <;> decide
  rw [ColumnDef.words, List.forall_mem_cons, List.forall_mem_cons, List.forall_mem_append]
  refine ⟨.name h, lexical_word htype, ?_, ?_⟩
  · split_ifs
    · simp only [List.forall_mem_cons, List.not_mem_nil, false_implies, implies_true, and_true]
      exact ⟨lexical_word (by decide), lexical_word (by decide)⟩
    · simp
  · split_ifs
    · simp only [List.forall_mem_cons, List.not_mem_nil, false_implies, implies_true, and_true]
      exact ⟨lexical_word (by decide), lexical_word (by decide)⟩
    · simp

theorem lexical_assignment {a : Assignment} (h : IsName a.column ∧ a.value.Printable) :
    ∀ w ∈ a.words, Lexical w := by
  rw [Assignment.words, List.forall_mem_cons, List.forall_mem_cons]
  exact ⟨.name h.1, lexical_word (by decide), h.2.lexical.1⟩

theorem lexical_map_commas {α : Type} {f : α → List Word} {l : List α}
    (h : ∀ x ∈ l, ∀ w ∈ f x, Lexical w) : ∀ w ∈ commas (l.map f), Lexical w :=
  lexical_commas (List.forall_mem_map.2 h)

theorem Statement.Printable.lexical {stmt : Statement} (h : stmt.Printable) :
    ∀ w ∈ stmt.words, Lexical w := by
  cases stmt with
  | createTable name cols =>
    obtain ⟨hname, -, hcols⟩ := h
    have hlist := lexical_parens (lexical_map_commas fun c hc => lexical_columnDef (hcols c hc))
    simp only [Statement.words, List.forall_mem_cons]
    exact ⟨lexical_word (by decide), lexical_word (by decide), .name hname, hlist⟩
  | insert name cols values =>
    obtain ⟨hname, hcols, -, hvalues⟩ := h
    have hlist := lexical_parens (lexical_map_commas
      fun c hc => List.forall_mem_singleton.2 (Lexical.name (hcols c hc)))
    have hvalues' := lexical_parens (lexical_map_commas fun e he => (hvalues e he).lexical.1)
    simp only [Statement.words, List.forall_mem_append, List.forall_mem_cons]
    refine ⟨lexical_word (by decide), lexical_word (by decide), .name hname, ?_,
      lexical_word (by decide), hvalues'⟩
    split_ifs
    · simp
    · exact hlist
  | select items name filter =>
    obtain ⟨hname, hitems, hfilter⟩ := h
    have hlist : ∀ w ∈ commas (items.map Expr.operand), Lexical w := by
      rcases hitems with rfl | ⟨-, hitems⟩
      · exact List.forall_mem_singleton.2 (lexical_word (by decide))
      · exact lexical_map_commas fun e he => (hitems e he).lexical.2
    simp only [Statement.words, List.forall_mem_append, List.forall_mem_cons]
    exact ⟨lexical_word (by decide), hlist, lexical_word (by decide), .name hname,
      lexical_filterWords hfilter⟩
  | update name assignments filter =>
    obtain ⟨hname, -, hassign, e, rfl, he⟩ := h
    have hlist := lexical_map_commas fun a ha => lexical_assignment (hassign a ha)
    simp only [Statement.words, List.forall_mem_append, List.forall_mem_cons]
    exact ⟨lexical_word (by decide), .name hname, lexical_word (by decide), hlist,
      lexical_filterWords fun _ h => Option.mem_some_iff.1 h ▸ he⟩
  | delete name filter =>
    obtain ⟨hname, e, rfl, he⟩ := h
    simp only [Statement.words, List.forall_mem_cons]
    exact ⟨lexical_word (by decide), lexical_word (by decide), .name hname,
      lexical_filterWords fun _ h => Option.mem_some_iff.1 h ▸ he⟩

/-! ### Printed words are derived -/

theorem parseInt_encodeNat {n : ℤ} (h : 0 ≤ n ∧ n < 2 ^ 63) :
    parseInt (encodeNat n.toNat) = some n := by
  have hlt : n.toNat < 2 ^ 63 := by omega
  rw [parseInt, Json.ofDigitChars_encodeNat]
  simp only [hlt, if_true, Int.toNat_of_nonneg h.1]

theorem derives_literal {v : Literal} (h : v.Printable) :
    Derives .primary [v.word] (.literal v) := by
  cases v with
  | int n => exact .number (parseInt_encodeNat h)
  | text s => exact .string s
  | bool b =>
    cases b
    · exact .false _
    · exact .true _
  | null => exact .null _

theorem comparison_or_logical (op : BinaryOp) :
    op.type.comparison = some op ∨ op.type.logical = some op := by
  cases op <;> decide

theorem Expr.Printable.derives {e : Expr} (h : e.Printable) :
    Derives .expr e.words e ∧ Derives .primary e.operand e := by
  induction e with
  | column name => exact ⟨.operand (.primary (.name name)), .name name⟩
  | literal v => exact ⟨.operand (.primary (derives_literal h)), derives_literal h⟩
  | star => exact h.elim
  | binary l op r ihl ihr =>
    have hwords : Derives .expr (Expr.binary l op r).words (.binary l op r) := by
      change Derives .expr (l.operand ++ word op.type :: r.operand) _
      rcases comparison_or_logical op with hop | hop
      · exact .operand (.compare (ihl h.1).2 hop (ihr h.2).2)
      · exact .logical (.operand (.primary (ihl h.1).2)) hop (.primary (ihr h.2).2)
    exact ⟨hwords, .paren hwords⟩

theorem sepBy_commas {α : Type} {f : α → List Word} {D : List Word → α → Prop} {l : List α}
    (hl : l ≠ []) (h : ∀ x ∈ l, D (f x) x) : SepBy IsComma D (commas (l.map f)) l := by
  induction l with
  | nil => exact absurd rfl hl
  | cons x l ih =>
    rw [List.forall_mem_cons] at h
    cases l with
    | nil => exact .one h.1
    | cons y l => exact .more h.1 rfl (ih (List.cons_ne_nil y l) h.2)

theorem derives_columnDef (c : ColumnDef) : ColumnOf AnyOrder c.words c := by
  have htype : c.type.type.columnType = some c.type := by cases c.type <;> rfl
  obtain ⟨name, type, primaryKey, notNull⟩ := c
  cases primaryKey <;> cases notNull
  · exact .mk htype AnyOrder.nil
  · exact .mk htype (AnyOrder.notNull .nil)
  · exact .mk htype (AnyOrder.primaryKey .nil)
  · exact .mk htype (AnyOrder.primaryKey (.notNull .nil))

theorem derives_columnList (cols : List Bytes) :
    ColumnList (if cols = [] then [] else parens (commas (cols.map fun c => [(.ident, c)])))
      cols := by
  split_ifs with h
  · rw [h]
    exact .none
  · exact .some (sepBy_commas h fun c _ => rfl)

theorem derives_filterWords {filter : Option Expr} (h : ∀ e ∈ filter, e.Printable) :
    Filter (filterWords filter) filter := by
  cases filter with
  | none => exact .none
  | some e => exact .some (h e rfl).derives.1

theorem Statement.Printable.accepted {stmt : Statement} (h : stmt.Printable) :
    Accepted stmt.words stmt := by
  cases stmt with
  | createTable name cols =>
    obtain ⟨-, hne, -⟩ := h
    have hcols := sepBy_commas hne fun c _ => derives_columnDef c
    exact .createTable hcols .none
  | insert name cols values =>
    obtain ⟨-, -, hne, hvalues⟩ := h
    have hlist := sepBy_commas hne fun e he => (hvalues e he).derives.1
    exact .insert (derives_columnList cols) hlist .none
  | select items name filter =>
    obtain ⟨-, hitems, hfilter⟩ := h
    have hlist : SelectList (Derives .primary) (commas (items.map Expr.operand)) items := by
      rcases hitems with rfl | ⟨hne, hitems⟩
      · exact .star _
      · exact .items (sepBy_commas hne fun e he => (hitems e he).derives.2)
    rw [Statement.words, ← List.append_nil (filterWords filter)]
    exact .select hlist (derives_filterWords hfilter) .none
  | update name assignments filter =>
    obtain ⟨-, hne, hassign, e, rfl, he⟩ := h
    have hlist := sepBy_commas (f := Assignment.words) hne
      fun a ha => AssignmentOf.mk (hassign a ha).2.derives.1
    rw [Statement.words, filterWords, ← List.append_nil e.words]
    exact .update hlist he.derives.1 .none
  | delete name filter =>
    obtain ⟨-, e, rfl, he⟩ := h
    rw [Statement.words, filterWords, ← List.append_nil e.words]
    exact .delete he.derives.1 .none

/-- What is printed is read back. -/
theorem parse_print {stmt : Statement} (h : stmt.Printable) : parse (print stmt) = .ok stmt := by
  obtain ⟨toks, hlex, hmap⟩ := lex_write h.lexical
  obtain ⟨us, ts, rfl, hus, hts⟩ := List.map_eq_append_iff.1 hmap
  obtain ⟨t, rfl, ht⟩ := List.map_eq_singleton_iff.1 hts
  have hwhole : parseStatement (rounds (us ++ [t])) (us ++ [t]) = .ok (stmt, [t]) :=
    parseStatement_append h.accepted hus (by rw [rounds, List.length_append]; omega)
      (Prod.mk.inj ht).1
  rw [parse, print, hlex]
  dsimp only
  rw [hwhole]
  rfl

/-- A statement with a nested condition, a quote in a text and the largest number. -/
def nested : Statement :=
  .update (bytes "users") [⟨bytes "name", .literal (.text (bytes "it's"))⟩]
    (some (.binary (.binary (.column (bytes "id")) .le (.literal (.int (2 ^ 63 - 1)))) .and
      (.binary (.column (bytes "a")) .or (.binary (.literal .null) .ne (.literal (.bool true))))))

theorem parse_print_nested : nested.Printable ∧ parse (print nested) = .ok nested := by
  have hname : IsName (bytes "users") ∧ IsName (bytes "name") ∧ IsName (bytes "id") ∧
      IsName (bytes "a") := by
    decide +kernel
  have h : nested.Printable := by
    refine ⟨hname.1, List.cons_ne_nil _ _, ?_, _, rfl, ⟨hname.2.2.1, ?_⟩, hname.2.2.2, trivial,
      trivial⟩
    · exact List.forall_mem_singleton.2 ⟨hname.2.1, trivial⟩
    · exact ⟨by norm_num, by norm_num⟩
  exact ⟨h, parse_print h⟩

end Doki.Sql
