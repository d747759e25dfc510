import Doki.Sql.Printing

/-!
# What the parser returns

`Printing` reads back what is printed. Conversely, whatever text the parser accepts, the
statement that it returns can be printed: its names were words of a text and no keywords,
its numbers have passed `parseInt`, and its lists were read one item at a time. So the
statements that can be printed are those that the parser returns
(`parsed_iff_printable`), and printing gives each of them a text of its own.

* `Derives.printable`: by the levels of expressions;
* `StatementOf.printable`: by the kinds of statements.
-/

namespace Doki.Sql

open Json (Bytes)
open Parsing

/-- A word that is an identifier is a name. This is all that is needed of a word, and it is
    true of the end of a text, too. -/
def Named (w : Word) : Prop := w.1 = .ident → IsName w.2

theorem Lexical.named {w : Word} (h : Lexical w) : Named w := by
  obtain ⟨tt, s⟩ := w
  rintro rfl
  exact h.isName

theorem parseInt_bounds {s : Bytes} {n : ℤ} (h : parseInt s = some n) : 0 ≤ n ∧ n < 2 ^ 63 := by
  simp only [parseInt] at h
  split_ifs at h with hlt
  obtain rfl := Option.some.inj h
  exact ⟨Int.natCast_nonneg _, by exact_mod_cast hlt⟩

/-- An expression over such words can be printed. -/
theorem Derives.printable {l : Level} {ws : List Word} {e : Expr} (h : Derives l ws e)
    (hws : ∀ w ∈ ws, Named w) : e.Printable := by
  induction h with
  | number h => exact parseInt_bounds h
  | string s => trivial
  | true s => trivial
  | false s => trivial
  | null s => trivial
  | name s => exact hws _ List.mem_cons_self rfl
  | paren h ih =>
    rw [List.forall_mem_cons, List.forall_mem_append] at hws
    exact ih hws.2.1
  | primary h ih => exact ih hws
  | operand h ih => exact ih hws
  | compare hl ht hr ihl ihr =>
    rw [List.forall_mem_append, List.forall_mem_cons] at hws
    exact ⟨ihl hws.1, ihr hws.2.2⟩
  | logical hl ht hr ihl ihr =>
    rw [List.forall_mem_append, List.forall_mem_cons] at hws
    exact ⟨ihl hws.1, ihr hws.2.2⟩

theorem ColumnList.named {ws : List Word} {names : List Bytes} (h : ColumnList ws names)
    (hws : ∀ w ∈ ws, Named w) : ∀ name ∈ names, IsName name := by
  cases h with
  | none => simp
  | some h =>
    rw [List.forall_mem_cons, List.forall_mem_append] at hws
    refine (h.items hws.2.1 fun vs name hname hvs => ?_).2
    obtain rfl : vs = [(.ident, name)] := hname
    exact hvs _ List.mem_cons_self rfl

theorem SelectList.printable {ws : List Word} {items : List Expr}
    (h : SelectList (Derives .primary) ws items) (hws : ∀ w ∈ ws, Named w) :
    items = [.star] ∨ items ≠ [] ∧ ∀ e ∈ items, e.Printable := by
  cases h with
  | star s => exact .inl rfl
  | items h => exact .inr (h.items hws fun _ _ he => he.printable)

theorem Filter.printable {ws : List Word} {filter : Option Expr} (h : Filter ws filter)
    (hws : ∀ w ∈ ws, Named w) : ∀ e ∈ filter, e.Printable := by
  cases h with
  | none => simp
  | some h =>
    intro e he
    obtain rfl := Option.some.inj he
    exact h.printable (List.forall_mem_cons.1 hws).2

/-- A statement over such words can be printed. -/
theorem StatementOf.printable {ws : List Word} {stmt : Statement} (h : Accepted ws stmt)
    (hws : ∀ w ∈ ws, Named w) : stmt.Printable := by
  cases h with
  | createTable hc hs =>
    simp only [List.forall_mem_cons, List.forall_mem_append] at hws
    obtain ⟨-, -, hname, -, hus, -⟩ := hws
    refine ⟨hname rfl, hc.items hus fun vs c hcol hvs => ?_⟩
    cases hcol with
    | mk ht hc => exact hvs _ List.mem_cons_self rfl
  | insert hc hv hs =>
    simp only [List.forall_mem_cons, List.forall_mem_append] at hws
    obtain ⟨-, -, hname, hus, -, -, hvs, -⟩ := hws
    exact ⟨hname rfl, hc.named hus, hv.items hvs fun _ _ he => he.printable⟩
  | select hi hw hs =>
    simp only [List.forall_mem_cons, List.forall_mem_append] at hws
    obtain ⟨-, hus, -, hname, hvs, -⟩ := hws
    exact ⟨hname rfl, hi.printable hus, hw.printable hvs⟩
  | update ha hw hs =>
    simp only [List.forall_mem_cons, List.forall_mem_append] at hws
    obtain ⟨-, hname, -, hus, -, hvs, -⟩ := hws
    obtain ⟨hne, hassign⟩ := ha.items hus
      (Q := fun a => IsName a.column ∧ a.value.Printable) fun ws a hassign hws => by
        cases hassign with
        | mk h =>
          simp only [List.forall_mem_cons] at hws
          exact ⟨hws.1 rfl, h.printable hws.2.2⟩
    exact ⟨hname rfl, hne, hassign, _, rfl, hw.printable hvs⟩
  | delete hw hs =>
    simp only [List.forall_mem_cons, List.forall_mem_append] at hws
    obtain ⟨-, -, hname, -, hvs, -⟩ := hws
    exact ⟨hname rfl, _, rfl, hw.printable hvs⟩

/-- What the parser returns can be printed. -/
theorem printable_of_parse {input : Bytes} {stmt : Statement} (h : parse input = .ok stmt) :
    stmt.Printable := by
  rw [parse] at h
  split at h
  · cases h
  · rename_i toks hlex
    obtain ⟨⟨stmt', rest⟩, hstmt, rfl⟩ := Except.map_eq_ok_iff.1 h
    obtain ⟨us, rfl, haccepted, -⟩ := takes_statement (m := rounds toks) le_rfl _ _ _ trivial hstmt
    obtain ⟨body, htoks, hbody⟩ := lex_eq_ok hlex
    refine StatementOf.printable haccepted fun w hw => ?_
    obtain ⟨t, ht, rfl⟩ := List.mem_map.1 hw
    have hmem : t ∈ body ++ [⟨.eof, [], input.length⟩] := htoks ▸ List.mem_append_left rest ht
    rcases List.mem_append.1 hmem with hmem | hmem
    · exact (hbody t hmem).named
    · obtain rfl := List.mem_singleton.1 hmem
      exact fun h => by cases h

/-- A statement is returned for the words that derive it, written with blanks. -/
theorem parse_write {ws : List Word} {stmt : Statement} (h : Accepted ws stmt)
    (hws : ∀ w ∈ ws, Lexical w) : parse (write ws) = .ok stmt := by
  obtain ⟨toks, hlex, hmap⟩ := lex_write hws
  obtain ⟨us, ts, rfl, hus, hts⟩ := List.map_eq_append_iff.1 hmap
  obtain ⟨t, rfl, ht⟩ := List.map_eq_singleton_iff.1 hts
  have hwhole : parseStatement (rounds (us ++ [t])) (us ++ [t]) = .ok (stmt, [t]) :=
    parseStatement_append h hus (by rw [rounds, List.length_append]; omega) (Prod.mk.inj ht).1
  rw [parse, hlex]
  dsimp only
  rw [hwhole]
  rfl

/-- The statements that the parser returns for some text are those that can be printed, and
    a text that is accepted may be replaced by what is printed for it. -/
theorem parsed_iff_printable (stmt : Statement) :
    ((∃ input, parse input = .ok stmt) ↔ stmt.Printable) ∧
      ∀ input, parse input = .ok stmt → parse (print stmt) = parse input := by
  have hread : stmt.Printable → parse (print stmt) = .ok stmt := fun h =>
    parse_write h.accepted h.lexical
  refine ⟨⟨?_, fun h => ⟨_, hread h⟩⟩, fun input h => ?_⟩
  · rintro ⟨input, h⟩
    exact printable_of_parse h
  · rw [h, hread (printable_of_parse h)]

end Doki.Sql
