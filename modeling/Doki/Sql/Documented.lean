import Mathlib.Data.List.Chain
import Doki.Sql.Completeness
import Doki.Sql.Layout

/-!
# Statements as documented

The comments on the functions of the parser give a grammar, `Documented`. Nothing
requires the end of the text behind a statement, so that the parser also accepts
texts which are not in it: a misspelled optional clause is dropped, and what follows
a semicolon is not looked at. Two of the functions are also more lenient than their
comments: a `SELECT` list may hold any primary expressions, and the constraints of a
column come in any order and number.

* `documented_iff`: an accepted text is a documented statement if and only if every
  word behind a complete statement continues one, its `SELECT` list is made of names
  or a star, and no constraint is out of its place;
* `filter_dropped`: a filter with a misspelled `WHERE` is ignored.
-/

namespace Doki.Sql

open Json (Bytes)
open Parsing

/-- The words of a text, without its end. -/
def sentence (toks : List Token) : List Word := (toks.map Token.word).dropLast

theorem sentence_concat (body : List Token) (t : Token) :
    sentence (body ++ [t]) = body.map Token.word := by
  rw [sentence, List.map_append, List.map_singleton, List.dropLast_concat]

/-! ### The types of words -/

def exprTypes : List TokenType :=
  [.number, .string, .true, .false, .null, .ident, .lparen, .rparen, .eq, .neq, .lt, .gt, .lte,
    .gte, .and, .or]

theorem mem_exprTypes_of_comparison {tt : TokenType} {op : BinaryOp}
    (h : tt.comparison = some op) : tt ∈ exprTypes := by
  cases tt <;> first | decide | cases h

theorem mem_exprTypes_of_logical {tt : TokenType} {op : BinaryOp}
    (h : tt.logical = some op) : tt ∈ exprTypes := by
  cases tt <;> first | decide | cases h

theorem Derives.types {l : Level} {ws : List Word} {e : Expr} (h : Derives l ws e) :
    ∀ w ∈ ws, w.1 ∈ exprTypes := by
  induction h with
  | number | string | true | false | null | name => simp [exprTypes]
  | paren h ih =>
    rw [List.forall_mem_cons, List.forall_mem_append, List.forall_mem_singleton]
    exact ⟨by simp [exprTypes], ih, by simp [exprTypes]⟩
  | primary h ih => exact ih
  | operand h ih => exact ih
  | compare hl ht hr ihl ihr =>
    rw [List.forall_mem_append, List.forall_mem_cons]
    exact ⟨ihl, mem_exprTypes_of_comparison ht, ihr⟩
  | logical hl ht hr ihl ihr =>
    rw [List.forall_mem_append, List.forall_mem_cons]
    exact ⟨ihl, mem_exprTypes_of_logical ht, ihr⟩

/-- A word that neither ends a text nor begins a constraint. -/
def Quiet (w : Word) : Prop := w.1 ∉ [.eof, .primary, .not]

theorem Derives.quiet {l : Level} {ws : List Word} {e : Expr} (h : Derives l ws e) :
    ∀ w ∈ ws, Quiet w := by
  have hall : ∀ tt ∈ exprTypes, tt ∉ [TokenType.eof, .primary, .not] := by decide
  exact fun w hw => hall _ (h.types w hw)

theorem quiet_of_isComma (w : Word) (h : IsComma w) : Quiet w := by
  rw [Quiet, h]
  decide

theorem Semicolon.quiet {ws : List Word} (h : Semicolon ws) : ∀ w ∈ ws, Quiet w := by
  cases h <;> simp [Quiet]

theorem ColumnList.quiet {ws : List Word} {names : List Bytes} (h : ColumnList ws names) :
    ∀ w ∈ ws, Quiet w := by
  cases h with
  | none => simp
  | some h =>
    have hnames : ∀ vs name, NameItem vs name → ∀ w ∈ vs, Quiet w := by
      rintro _ name rfl
      simp [Quiet]
    rw [List.forall_mem_cons, List.forall_mem_append, List.forall_mem_singleton]
    exact ⟨by simp [Quiet], h.forall_mem quiet_of_isComma hnames, by simp [Quiet]⟩

theorem SelectList.quiet {Item : List Word → Expr → Prop} {ws : List Word} {items : List Expr}
    (h : SelectList Item ws items) (hItem : ∀ vs e, Item vs e → ∀ w ∈ vs, Quiet w) :
    ∀ w ∈ ws, Quiet w := by
  cases h with
  | star => simp [Quiet]
  | items h => exact h.forall_mem quiet_of_isComma hItem

theorem Filter.quiet {ws : List Word} {filter : Option Expr} (h : Filter ws filter) :
    ∀ w ∈ ws, Quiet w := by
  cases h with
  | none => simp
  | some h =>
    rw [List.forall_mem_cons]
    exact ⟨by simp [Quiet], h.quiet⟩

theorem AssignmentOf.quiet {ws : List Word} {a : Assignment} (h : AssignmentOf ws a) :
    ∀ w ∈ ws, Quiet w := by
  cases h with
  | mk h =>
    rw [List.forall_mem_cons, List.forall_mem_cons]
    exact ⟨by simp [Quiet], by simp [Quiet], h.quiet⟩

/-- Only the columns of a table have constraints. -/
theorem Accepted.quiet {ws : List Word} {stmt : Statement} (h : Accepted ws stmt) :
    (∃ name cols, stmt = .createTable name cols) ∨ ∀ w ∈ ws, Quiet w := by
  cases h with
  | createTable => exact .inl ⟨_, _, rfl⟩
  | insert hc hv hs =>
    have hvalues := hv.forall_mem quiet_of_isComma fun _ _ => Derives.quiet
    simp only [List.forall_mem_cons, List.forall_mem_append]
    exact .inr ⟨by simp [Quiet], by simp [Quiet], by simp [Quiet], hc.quiet, by simp [Quiet],
      by simp [Quiet], hvalues, by simp [Quiet], hs.quiet⟩
  | select hi hw hs =>
    have hitems := hi.quiet fun _ _ => Derives.quiet
    simp only [List.forall_mem_cons, List.forall_mem_append]
    exact .inr ⟨by simp [Quiet], hitems, by simp [Quiet], by simp [Quiet], hw.quiet, hs.quiet⟩
  | update ha hw hs =>
    have hassign := ha.forall_mem quiet_of_isComma fun _ _ => AssignmentOf.quiet
    simp only [List.forall_mem_cons, List.forall_mem_append]
    exact .inr ⟨by simp [Quiet], by simp [Quiet], by simp [Quiet], hassign, by simp [Quiet],
      hw.quiet, hs.quiet⟩
  | delete hw hs =>
    simp only [List.forall_mem_cons, List.forall_mem_append]
    exact .inr ⟨by simp [Quiet], by simp [Quiet], by simp [Quiet], by simp [Quiet], hw.quiet,
      hs.quiet⟩

theorem AnyOrder.type_ne_eof {ws : List Word} {c : Bool × Bool} (h : AnyOrder ws c) :
    ∀ w ∈ ws, w.1 ≠ .eof := by
  induction h with
  | nil => simp
  | primaryKey h ih | notNull h ih =>
    rw [List.forall_mem_cons, List.forall_mem_cons]
    exact ⟨nofun, nofun, ih⟩

theorem ColumnOf.type_ne_eof {ws : List Word} {col : ColumnDef} (h : ColumnOf AnyOrder ws col) :
    ∀ w ∈ ws, w.1 ≠ .eof := by
  cases h with
  | mk ht hc =>
    rw [List.forall_mem_cons, List.forall_mem_cons]
    refine ⟨nofun, ?_, hc.type_ne_eof⟩
    rintro rfl
    cases ht

/-- The end of a text is no part of a statement. -/
theorem Accepted.type_ne_eof {ws : List Word} {stmt : Statement} (h : Accepted ws stmt) :
    ∀ w ∈ ws, w.1 ≠ .eof := by
  rcases Accepted.quiet h with ⟨name, cols, rfl⟩ | hq
  · cases h with
    | createTable hc hs =>
      have hcols := hc.forall_mem (fun w hw => by rw [hw]; nofun) fun _ _ => ColumnOf.type_ne_eof
      simp only [List.forall_mem_cons, List.forall_mem_append]
      refine ⟨nofun, nofun, nofun, nofun, hcols, nofun, fun w hw h => ?_⟩
      exact hs.quiet w hw (by simp [h])
  · exact fun w hw h => hq w hw (by simp [h])

/-! ### Words behind a statement -/

theorem InOrder.anyOrder {ws : List Word} {c : Bool × Bool} (h : InOrder ws c) : AnyOrder ws c := by
  cases h with
  | nil => exact .nil
  | primaryKey => exact .primaryKey .nil
  | notNull => exact .notNull .nil
  | both => exact .primaryKey (.notNull .nil)

theorem ColumnOf.mono {C C' : List Word → Bool × Bool → Prop} {ws : List Word} {col : ColumnDef}
    (h : ColumnOf C ws col) (hC : ∀ vs c, vs <:+: ws → C vs c → C' vs c) : ColumnOf C' ws col := by
  cases h with
  | @mk name s tt ct vs c ht hc =>
    exact .mk ht (hC vs c ⟨[(.ident, name), (tt, s)], [], by simp⟩ hc)

theorem ColumnItem.derives {ws : List Word} {e : Expr} (h : ColumnItem ws e) :
    Derives .primary ws e := by
  obtain ⟨name, rfl, rfl⟩ := h
  exact .name name

theorem SelectList.derives {ws : List Word} {items : List Expr}
    (h : SelectList ColumnItem ws items) : SelectList (Derives .primary) ws items := by
  cases h with
  | star s => exact .star s
  | items h => exact .items (h.mono (fun _ h => h) fun _ _ _ => ColumnItem.derives)

theorem Documented.accepted {ws : List Word} {stmt : Statement} (h : Documented ws stmt) :
    Accepted ws stmt := by
  cases h with
  | createTable hc hs =>
    refine .createTable (hc.mono (fun _ h => h) fun vs col _ hcol => ?_) hs
    exact hcol.mono fun _ _ _ => InOrder.anyOrder
  | insert hc hv hs => exact .insert hc hv hs
  | select hi hw hs => exact .select hi.derives hw hs
  | update ha hw hs => exact .update ha hw hs
  | delete hw hs => exact .delete hw hs

/-- Every word behind a complete statement is one with which a statement may go
    on. -/
def Continued (ws : List Word) : Prop :=
  ∀ us w vs stmt, ws = us ++ w :: vs → Accepted us stmt →
    ∃ vs' stmt', Accepted (us ++ w :: vs') stmt'

theorem Accepted.continued {ws : List Word} {stmt : Statement} (h : Accepted ws stmt) :
    Continued ws := by
  rintro us w vs stmt' rfl -
  exact ⟨vs, stmt, h⟩

/-- What the parser takes of a text, and that it goes by the next token alone. -/
theorem exists_taken {input : Bytes} {toks : List Token} {stmt : Statement}
    (hlex : lex input = .ok toks) (hparse : parse input = .ok stmt) :
    ∃ used rest, toks = used ++ rest ∧ Accepted (used.map Token.word) stmt ∧
      ∀ n, rounds toks ≤ n → ∀ rest', rest'.head? = rest.head? →
        parseStatement n (used ++ rest') = .ok (stmt, rest') := by
  rw [parse, hlex] at hparse
  dsimp only at hparse
  cases hrun : parseStatement (rounds toks) toks with
  | error e =>
    rw [hrun] at hparse
    cases hparse
  | ok x =>
    rw [hrun] at hparse
    obtain rfl : x.1 = stmt := Except.ok.inj hparse
    obtain ⟨used, htoks, haccepted, -⟩ := takes_statement le_rfl toks x.1 x.2 trivial hrun
    refine ⟨used, x.2, htoks, haccepted, fun n hn rest' hrest' => ?_⟩
    obtain ⟨used', htoks', -, hlocal⟩ := takes_statement hn toks x.1 x.2 trivial hrun
    rw [htoks] at htoks'
    rw [List.append_cancel_right htoks']
    exact hlocal rest' hrest'

theorem Accepted.ident_mem {ws : List Word} {stmt : Statement} (h : Accepted ws stmt) :
    (.ident, stmt.tableName) ∈ ws := by
  cases h <;> simp [Statement.tableName]

/-- A statement names a table by a name, not by a keyword. -/
theorem isName_tableName {input : Bytes} {stmt : Statement} (hparse : parse input = .ok stmt) :
    IsName stmt.tableName := by
  cases hlex : lex input with
  | error e =>
    rw [parse, hlex] at hparse
    cases hparse
  | ok toks =>
    obtain ⟨used, rest, htoks, haccepted, -⟩ := exists_taken hlex hparse
    obtain ⟨body, hbody, hlexical⟩ := lex_eq_ok hlex
    obtain ⟨t, ht, hword⟩ := List.mem_map.1 haccepted.ident_mem
    have hmem : t ∈ body ++ [⟨.eof, [], input.length⟩] := by
      rw [← hbody, htoks]
      exact List.mem_append_left _ ht
    rcases List.mem_append.1 hmem with hmem | hmem
    · exact (hword ▸ hlexical t hmem).isName
    · rw [List.mem_singleton.1 hmem] at hword
      cases hword

/-- The parser does not stop before a token with which a statement may go on. -/
theorem not_continued {used : List Token} {t : Token} {stmt : Statement} {n₀ : ℕ}
    (hlocal : ∀ n, n₀ ≤ n → ∀ rest', rest'.head? = some t →
      parseStatement n (used ++ rest') = .ok (stmt, rest')) :
    ¬ ∃ vs stmt', Accepted (used.map Token.word ++ t.word :: vs) stmt' := by
  rintro ⟨vs, stmt', haccepted⟩
  have hmap : (used ++ t :: vs.map fun w => (⟨w.1, w.2, 0⟩ : Token)).map Token.word
      = used.map Token.word ++ t.word :: vs := by
    rw [List.map_append, List.map_cons, List.map_map]
    exact congrArg _ (congrArg _ (List.map_id vs))
  generalize hvs : (vs.map fun w => (⟨w.1, w.2, 0⟩ : Token)) = vs' at hmap
  -- With enough rounds for the longer text, the parser has both results.
  obtain ⟨n, hn₀, hn⟩ : ∃ n, n₀ ≤ n ∧ 4 * (used ++ t :: vs').length + 2 ≤ n :=
    ⟨max n₀ _, le_max_left _ _, le_max_right _ _⟩
  have hwhole : parseStatement n ((used ++ t :: vs') ++ [eofToken]) = .ok (stmt', [eofToken]) :=
    parseStatement_append haccepted hmap hn rfl
  rw [List.append_assoc, hlocal n hn₀ _ rfl] at hwhole
  have hrest := (Prod.mk.inj (Except.ok.inj hwhole)).2
  have hlen := congrArg List.length hrest
  simp at hlen

/-- An accepted text is a statement and the end of the text, if it goes on only as a
    statement may. -/
theorem accepted_of_continued {input : Bytes} {toks : List Token} {stmt : Statement}
    (hlex : lex input = .ok toks) (hparse : parse input = .ok stmt)
    (hcont : Continued (sentence toks)) : Accepted (sentence toks) stmt := by
  obtain ⟨used, rest, hsplit, haccepted, hlocal⟩ := exists_taken hlex hparse
  obtain ⟨body, rfl, -⟩ := lex_eq_ok hlex
  rw [sentence_concat] at hcont ⊢
  rcases List.eq_nil_or_concat rest with rfl | ⟨rest, t, rfl⟩
  · -- The end of the text cannot have been taken.
    rw [List.append_nil] at hsplit
    have hmem : (TokenType.eof, []) ∈ used.map Token.word := by
      rw [← hsplit]
      simp [Token.word]
    exact absurd rfl (Accepted.type_ne_eof haccepted _ hmem)
  · rw [List.concat_eq_append, ← List.append_assoc] at hsplit
    obtain ⟨rfl, -⟩ := List.append_inj' hsplit rfl
    cases rest with
    | nil => rwa [List.append_nil]
    | cons t' rest =>
      exact absurd (hcont _ t'.word (rest.map Token.word) stmt (by simp) haccepted)
        (not_continued hlocal)

/-! ### Items and constraints -/

/-- A `SELECT` list of names and commas, or of a star. -/
def PlainList (ws : List Word) : Prop :=
  ws.head?.map Prod.fst = some .select →
    ∀ w ∈ ws.tail.takeWhile fun w => w.1 ≠ .from, w.1 ∈ [TokenType.ident, .comma, .star]

theorem SelectList.type_ne_from {ws : List Word} {items : List Expr}
    (h : SelectList (Derives .primary) ws items) : ∀ w ∈ ws, w.1 ≠ .from := by
  have hall : ∀ tt ∈ exprTypes, tt ≠ .from := by decide
  cases h with
  | star => simp
  | items h =>
    exact h.forall_mem (fun w hw => by rw [hw]; nofun) fun _ _ he w hw => hall _ (he.types w hw)

/-- The items of a list of names are names. -/
theorem columnItem_of_types {ws : List Word} {e : Expr} (h : Derives .primary ws e)
    (hws : ∀ w ∈ ws, w.1 ∈ [TokenType.ident, .comma, .star]) : ColumnItem ws e := by
  cases h with
  | name s => exact ⟨s, rfl, rfl⟩
  | number | string | true | false | null | paren =>
    have := hws _ List.mem_cons_self
    simp at this

theorem types_of_columnItem (ws : List Word) (e : Expr) (h : ColumnItem ws e) :
    ∀ w ∈ ws, w.1 ∈ [TokenType.ident, .comma, .star] := by
  obtain ⟨name, rfl, -⟩ := h
  simp

theorem plainList_select {a b name : Bytes} {us vs : List Word} {items : List Expr}
    (hi : SelectList (Derives .primary) us items) :
    PlainList ((.select, a) :: (us ++ (.from, b) :: (.ident, name) :: vs)) ↔
      SelectList ColumnItem us items := by
  have htake : (us ++ (TokenType.from, b) :: (.ident, name) :: vs).takeWhile
      (fun w => w.1 ≠ .from) = us := by
    rw [List.takeWhile_append_of_pos fun w hw => decide_eq_true (hi.type_ne_from w hw),
      List.takeWhile_cons_of_neg (by simp), List.append_nil]
  rw [PlainList, List.tail_cons, htake]
  constructor
  · intro h
    cases hi with
    | star s => exact .star s
    | items hi =>
      exact .items (hi.mono (fun _ h => h) fun ws e hinf he =>
        columnItem_of_types he fun w hw => h rfl w (hinf.subset hw))
  · intro h _
    cases h with
    | star s => simp
    | items h => exact h.forall_mem (fun w hw => by rw [hw]; decide) types_of_columnItem

/-- Two words of which the second begins a constraint that may not follow the
    first. -/
def Misplaced (v w : Word) : Prop :=
  (v.1, w.1) ∈ [(.null, .primary), (.null, .not), (.key, TokenType.primary)]

/-- The constraint `PRIMARY KEY` comes before `NOT NULL`, and neither comes twice. -/
def Placed (ws : List Word) : Prop := ws.IsChain fun v w => ¬ Misplaced v w

theorem not_misplaced_of_quiet {w : Word} (h : Quiet w) (v : Word) : ¬ Misplaced v w := by
  intro hm
  simp only [Misplaced, List.mem_cons, Prod.mk.injEq, List.not_mem_nil, or_false] at hm
  exact h (by rcases hm with ⟨-, hw⟩ | ⟨-, hw⟩ | ⟨-, hw⟩ <;> simp [hw])

theorem Placed.cons {ws : List Word} (h : Placed ws) (hws : ∀ w ∈ ws.head?, Quiet w) (v : Word) :
    Placed (v :: ws) :=
  List.IsChain.cons h fun w hw => not_misplaced_of_quiet (hws w hw) v

theorem Placed.append {us vs : List Word} (hus : Placed us) (hvs : Placed vs)
    (hhead : ∀ w ∈ vs.head?, Quiet w) : Placed (us ++ vs) :=
  List.IsChain.append hus hvs fun v _ w hw => not_misplaced_of_quiet (hhead w hw) v

theorem placed_of_quiet {ws : List Word} (h : ∀ w ∈ ws, Quiet w) : Placed ws := by
  induction ws with
  | nil => exact .nil
  | cons w ws ih =>
    obtain ⟨-, hws⟩ := List.forall_mem_cons.1 h
    exact (ih hws).cons (fun v hv => hws v (List.mem_of_mem_head? hv)) w

/-- A column as documented has its constraints in place. -/
theorem ColumnOf.placed {ws : List Word} {col : ColumnDef} (h : ColumnOf InOrder ws col) :
    Placed ws ∧ ∀ w ∈ ws.head?, Quiet w := by
  cases h with
  | @mk name s tt ct vs c ht hc =>
    have htt : tt = .int ∨ tt = .text ∨ tt = .bool := by
      cases tt <;> first | decide | cases ht
    refine ⟨?_, by simp [Quiet]⟩
    rcases htt with rfl | rfl | rfl <;> cases hc <;> simp [Placed, Misplaced]

theorem placed_columns {us : List Word} {cols : List ColumnDef}
    (h : SepBy IsComma (ColumnOf InOrder) us cols) : Placed us ∧ ∀ w ∈ us.head?, Quiet w := by
  induction h with
  | one h => exact h.placed
  | @more us vs t col cols h ht hs ih =>
    obtain ⟨hus, hhead⟩ := h.placed
    have hvs : Placed (t :: vs) := ih.1.cons ih.2 t
    refine ⟨hus.append hvs fun w hw => ?_, ?_⟩
    · rw [List.head?_cons, Option.mem_some_iff] at hw
      exact quiet_of_isComma w (hw ▸ ht)
    · cases h
      exact hhead

theorem inOrder_of_placed {ws : List Word} {c : Bool × Bool} (h : AnyOrder ws c)
    (hp : Placed ws) : InOrder ws c := by
  -- Words out of place are next to each other, two constraints from the beginning at most.
  cases h with
  | nil => exact .nil
  | primaryKey h =>
    cases h with
    | nil => exact .primaryKey _ _
    | primaryKey => simp [Placed, Misplaced] at hp
    | notNull h =>
      cases h with
      | nil => exact .both _ _ _ _
      | primaryKey | notNull => simp [Placed, Misplaced] at hp
  | notNull h =>
    cases h with
    | nil => exact .notNull _ _
    | primaryKey | notNull => simp [Placed, Misplaced] at hp

theorem Documented.placed {ws : List Word} {stmt : Statement} (h : Documented ws stmt) :
    Placed ws := by
  rcases Accepted.quiet (Documented.accepted h) with ⟨name, cols, rfl⟩ | hq
  · cases h with
    | @createTable a b c d _ us semi _ hc hs =>
      obtain ⟨hus, hhead⟩ := placed_columns hc
      have hend : ∀ w ∈ (TokenType.rparen, d) :: semi, Quiet w :=
        List.forall_mem_cons.2 ⟨by simp [Quiet], hs.quiet⟩
      have hcols := hus.append (placed_of_quiet hend) fun w hw =>
        hend w (List.mem_of_mem_head? hw)
      have hfirst : ∀ w ∈ (us ++ (.rparen, d) :: semi).head?, Quiet w := by
        cases us with
        | nil => exact fun w hw => hend w (List.mem_of_mem_head? hw)
        | cons u us => exact hhead
      have hlparen := hcols.cons hfirst (.lparen, c)
      exact ((hlparen.cons (by simp [Quiet]) _).cons (by simp [Quiet]) _).cons (by simp [Quiet]) _
  · exact placed_of_quiet hq

/-- A statement that is accepted is documented if its list is plain and its
    constraints are in place. -/
theorem documented_of_accepted {ws : List Word} {stmt : Statement} (h : Accepted ws stmt)
    (hlist : PlainList ws) (hplaced : Placed ws) : Documented ws stmt := by
  cases h with
  | @createTable a b c d name us semi cols hc hs =>
    have hinf : us <:+: (TokenType.create, a) :: (.table, b) :: (.ident, name) :: (.lparen, c) ::
        (us ++ (.rparen, d) :: semi) :=
      ⟨[(.create, a), (.table, b), (.ident, name), (.lparen, c)], (.rparen, d) :: semi, by simp⟩
    refine .createTable (hc.mono (fun _ h => h) fun vs col hvs hcol => ?_) hs
    exact hcol.mono fun ws c hws hany =>
      inOrder_of_placed hany ( List.IsChain.infix hplaced (hws.trans (hvs.trans hinf)))
  | insert hc hv hs => exact .insert hc hv hs
  | select hi hw hs => exact .select ((plainList_select hi).1 hlist) hw hs
  | update ha hw hs => exact .update ha hw hs
  | delete hw hs => exact .delete hw hs

theorem Documented.plainList {ws : List Word} {stmt : Statement} (h : Documented ws stmt) :
    PlainList ws := by
  cases h with
  | select hi hw hs => exact (plainList_select hi.derives).2 hi
  | _ => exact nofun

/-- An accepted text is a documented statement, whole, if and only if it goes on
    only as a statement may, its `SELECT` list is plain and its constraints are in
    place. -/
theorem documented_iff {input : Bytes} {toks : List Token} {stmt : Statement}
    (hlex : lex input = .ok toks) (hparse : parse input = .ok stmt) :
    Documented (sentence toks) stmt ↔
      Continued (sentence toks) ∧ PlainList (sentence toks) ∧ Placed (sentence toks) := by
  constructor
  · intro h
    exact ⟨(Documented.accepted h).continued, h.plainList, h.placed⟩
  · rintro ⟨hcont, hlist, hplaced⟩
    exact documented_of_accepted (accepted_of_continued hlex hparse hcont) hlist hplaced

/-- A `SELECT` of one row. -/
def selectRow : Bytes := bytes "SELECT name FROM users WHERE id = 42;"

theorem documented_selectRow :
    ∃ toks stmt, lex selectRow = .ok toks ∧ parse selectRow = .ok stmt ∧
      Documented (sentence toks) stmt ∧
      (Documented (sentence toks) stmt ↔
        Continued (sentence toks) ∧ PlainList (sentence toks) ∧ Placed (sentence toks)) := by
  have hwords : (lex selectRow).map sentence = .ok [(.select, bytes "SELECT"),
      (.ident, bytes "name"), (.from, bytes "FROM"), (.ident, bytes "users"),
      (.where, bytes "WHERE"), (.ident, bytes "id"), (.eq, bytes "="), (.number, bytes "42"),
      (.semicolon, bytes ";")] := by
    decide +kernel
  have hparse : parse selectRow = .ok (.select [.column (bytes "name")] (bytes "users")
      (some (.binary (.column (bytes "id")) .eq (.literal (.int 42))))) := by
    decide +kernel
  cases hlex : lex selectRow with
  | error e =>
    rw [hlex] at hwords
    cases hwords
  | ok toks =>
    rw [hlex] at hwords
    refine ⟨toks, _, rfl, hparse, ?_, documented_iff hlex hparse⟩
    have hnumber : parseInt (bytes "42") = some 42 := by decide +kernel
    have hlist : SelectList ColumnItem [(.ident, bytes "name")] [.column (bytes "name")] :=
      .items (.one ⟨_, rfl, rfl⟩)
    have hcompare : Derives .compare
        ([(.ident, bytes "id")] ++ (.eq, bytes "=") :: [(.number, bytes "42")])
        (.binary (.column (bytes "id")) .eq (.literal (.int 42))) :=
      .compare (.name _) rfl (.number hnumber)
    rw [Except.ok.inj hwords]
    exact .select hlist (.some (.operand hcompare)) (.some _)

/-- The same `SELECT` with a misspelled `WHERE`. -/
def misspelled : Bytes := bytes "SELECT name FROM users WHER id = 42;"

/-- A filter with a misspelled `WHERE` is dropped, and with it all that follows: the
    statement returns every row. -/
theorem filter_dropped :
    parse misspelled = .ok (.select [.column (bytes "name")] (bytes "users") none) ∧
      ∃ toks, lex misspelled = .ok toks ∧ ∀ stmt, ¬ Documented (sentence toks) stmt := by
  refine ⟨by decide +kernel, ?_⟩
  -- The five words from the misspelled one on, and the end of the text, are left.
  have hleft : (lex misspelled).map (fun toks =>
      (parseStatement (rounds toks) toks).map fun x => x.2.length) = .ok (.ok 6) := by
    decide +kernel
  cases hlex : lex misspelled with
  | error e =>
    rw [hlex] at hleft
    cases hleft
  | ok toks =>
    refine ⟨toks, rfl, fun stmt h => ?_⟩
    rw [hlex] at hleft
    obtain ⟨body, rfl, -⟩ := lex_eq_ok hlex
    rw [sentence_concat] at h
    generalize htoks : body ++ [⟨.eof, [], misspelled.length⟩] = toks at hleft
    have hwhole : parseStatement (rounds toks) toks
        = .ok (stmt, [⟨.eof, [], misspelled.length⟩]) := by
      rw [← htoks]
      exact parseStatement_append (Documented.accepted h) rfl
        (by rw [rounds, List.length_append]; omega) rfl
    rw [Except.map, hwhole] at hleft
    cases hleft

end Doki.Sql
