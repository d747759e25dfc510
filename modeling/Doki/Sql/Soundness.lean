import Doki.Sql.Grammar

/-!
# What the parser takes

The parser takes a word of `Accepted`, deciding by the next token alone, and with
more rounds it takes the same word (`takes_statement`), by one lemma for each of its
functions. Its loops and its nesting have enough rounds (`parse_ne_exhausted`).
-/

namespace Doki.Sql

open Json (Bytes)
open Parsing

/-! ### Words that are taken -/

/-- The parser `p` takes a word of `D`, for the value that it returns, and so does
    `p'`, which is `p` with as many rounds or more. -/
def Takes {α : Type} (p p' : TokenParser α) (D : List Word → α → Prop) : Prop :=
  Reads (fun _ => True) p p' fun us a => D (us.map Token.word) a

section Takes

variable {α β : Type} {p p' : TokenParser α} {D D' : List Word → α → Prop}

theorem Takes.mono (h : Takes p p' D) (hD : ∀ ws a, D ws a → D' ws a) : Takes p p' D' :=
  Reads.mono h fun _ _ => hD _ _

theorem Takes.bind {f f' : α → TokenParser β} {E : α → List Word → β → Prop} (hp : Takes p p' D)
    (hf : ∀ a, Takes (f a) (f' a) (E a)) :
    Takes (p >>= f) (p' >>= f') fun ws b => ∃ us a vs, ws = us ++ vs ∧ D us a ∧ E a vs b := by
  refine (Reads.bind hp hf).mono ?_
  rintro _ b ⟨us, a, vs, rfl, hus, hvs⟩
  exact ⟨_, a, _, List.map_append, hus, hvs⟩

theorem takes_pure {a : α} (h : D [] a) : Takes (pure a) (pure a) D := Reads.pure h

theorem takes_fail (e : ParseError) : Takes (fail e) p' D := Reads.fail e

theorem takes_expect (tt : TokenType) (htt : tt ≠ .eof) :
    Takes (expect tt) (expect tt) fun ws t => ws = [(tt, t.literal)] := by
  have hlast : decide (eofToken.type = tt) = false := decide_eq_false fun h => htt h.symm
  refine (Reads.expect (q := fun t : Token => t.type = tt) hlast).mono ?_
  rintro _ t ⟨rfl, ht⟩
  rw [List.map_singleton, Token.word, of_decide_eq_true ht]

/-- Taking a token of a type, and going on with it. -/
theorem takes_expect_bind (tt : TokenType) (htt : tt ≠ .eof) {f f' : Token → TokenParser α}
    {E : Token → List Word → α → Prop} (hf : ∀ t : Token, Takes (f t) (f' t) (E t)) :
    Takes (expect tt >>= f) (expect tt >>= f')
      fun ws a => ∃ t vs, ws = (tt, t.literal) :: vs ∧ E t vs a := by
  refine ((takes_expect tt htt).bind hf).mono ?_
  rintro _ a ⟨_, t, vs, rfl, rfl, h⟩
  exact ⟨t, vs, rfl, h⟩

theorem takes_accept (tt : TokenType) (htt : tt ≠ .eof) :
    Takes (accept tt) (accept tt)
      fun ws b => (b = true ∧ ∃ s, ws = [(tt, s)]) ∨ (b = false ∧ ws = []) := by
  have hlast : decide (eofToken.type = tt) = false := decide_eq_false fun h => htt h.symm
  refine (Reads.accept (q := fun t : Token => t.type = tt) hlast).mono ?_
  rintro _ b (⟨rfl, t, rfl, ht⟩ | ⟨rfl, rfl⟩)
  · exact .inl ⟨rfl, t.literal, by rw [List.map_singleton, Token.word, of_decide_eq_true ht]⟩
  · exact .inr ⟨rfl, rfl⟩

/-- A part that a token of a type announces, and what stands for it otherwise. -/
theorem takes_accept_ite (tt : TokenType) (htt : tt ≠ .eof) {q q' : TokenParser α}
    {E : List Word → α → Prop} (hp : Takes p p' D) (hq : Takes q q' E) :
    Takes (accept tt >>= fun b => if b then p else q) (accept tt >>= fun b => if b then p' else q')
      fun ws a => (∃ s vs, ws = (tt, s) :: vs ∧ D vs a) ∨ E ws a := by
  refine ((takes_accept tt htt).bind (E := fun b vs a => if b then D vs a else E vs a)
    fun b => ?_).mono ?_
  · cases b
    · exact hq
    · exact hp
  · rintro _ a ⟨_, b, vs, rfl, ⟨rfl, s, rfl⟩ | ⟨rfl, rfl⟩, h⟩
    · exact .inl ⟨s, vs, rfl, h⟩
    · exact .inr h

theorem takes_commaSeparated {n m : ℕ} (hnm : n ≤ m) (hp : Takes p p' D) :
    Takes (commaSeparated n p) (commaSeparated m p') (SepBy IsComma D) := by
  refine (Reads.sepBy rfl hp hnm).mono fun us as h => ?_
  rw [SepBy.map_iff]
  simp only [decide_eq_true_eq] at h
  exact h

/-- After a look at the next token, taking it. -/
theorem reads_advance_bind {t : Token} (ht : t.type ≠ .eof) (hp : Takes p p' D) :
    Reads (fun h => True ∧ h.getD eofToken = t) (advance >>= fun _ => p) (advance >>= fun _ => p')
      fun us a => ∃ vs, us.map Token.word = t.word :: vs ∧ D vs a := by
  have hP : ∀ h : Option Token, True ∧ h.getD eofToken = t → h = some t := by
    rintro (_ | t') ⟨-, rfl⟩
    · exact absurd rfl ht
    · rfl
  refine ((Reads.advance hP).bind fun _ => hp).mono ?_
  rintro _ a ⟨_, _, vs, rfl, ⟨rfl, rfl⟩, h⟩
  exact ⟨vs.map Token.word, rfl, h⟩

end Takes

/-- An expression of one token, at which the parser has looked. -/
theorem reads_single {t : Token} {e : Expr} (ht : t.type ≠ .eof) (h : Derives .primary [t.word] e) :
    Reads (fun h => True ∧ h.getD eofToken = t) (advance >>= fun _ => pure e)
      (advance >>= fun _ => pure e) fun us a => Derives .primary (us.map Token.word) a := by
  refine (reads_advance_bind ht (takes_pure (D := fun ws a => ws = [] ∧ a = e) ⟨rfl, rfl⟩)).mono ?_
  rintro us a ⟨_, hws, rfl, rfl⟩
  rwa [hws]

section Rounds

variable {n m : ℕ} (hnm : n ≤ m)
include hnm

/-- Expressions, by induction on the rounds. The loop of `parseExpr` takes what may
    follow an expression to make it longer. -/
theorem takes_expr :
    Takes (parseExpr n) (parseExpr m) (Derives .expr) ∧
      (∀ left, Takes (parseLogical n left) (parseLogical m left) fun ws e =>
        ∀ us, Derives .expr us left → Derives .expr (us ++ ws) e) ∧
      Takes (parseCompare n) (parseCompare m) (Derives .compare) ∧
      Takes (parsePrimary n) (parsePrimary m) (Derives .primary) := by
  induction n generalizing m with
  | zero => exact ⟨takes_fail _, fun _ => takes_fail _, takes_fail _, takes_fail _⟩
  | succ n ih =>
    obtain ⟨m, rfl⟩ := Nat.exists_eq_succ_of_ne_zero (Nat.ne_zero_of_lt hnm)
    obtain ⟨hexpr, hlogical, hcompare, hprimary⟩ := ih (Nat.le_of_succ_le_succ hnm)
    refine ⟨?_, fun left => ?_, ?_, ?_⟩
    · rw [parseExpr, parseExpr]
      refine (hcompare.bind hlogical).mono ?_
      rintro _ e ⟨us, left, vs, rfl, hus, hvs⟩
      exact hvs us (.operand hus)
    · rw [parseLogical, parseLogical]
      refine Reads.peek_bind fun t => ?_
      split
      case h_1 => exact Reads.pure fun us hus => by simpa using hus
      case h_2 op ht =>
        have hne : t.type ≠ .eof := fun h => by
          rw [h] at ht
          cases ht
        refine (reads_advance_bind hne (hcompare.bind fun right => hlogical _)).mono ?_
        rintro us e ⟨_, hws, us', right, vs, rfl, hus', hvs⟩ ls hls
        have := hvs _ (.logical (s := t.literal) hls ht hus')
        rw [List.append_assoc, List.cons_append] at this
        rwa [hws]
    · rw [parseCompare, parseCompare]
      refine (hprimary.bind (E := fun left vs e => ∀ us, Derives .primary us left →
        Derives .compare (us ++ vs) e) fun left => Reads.peek_bind fun t => ?_).mono ?_
      · split
        case h_1 => exact Reads.pure fun us hus => by simpa using Derives.primary hus
        case h_2 op ht =>
          have hne : t.type ≠ .eof := fun h => by
            rw [h] at ht
            cases ht
          refine (reads_advance_bind hne (hprimary.bind fun right => takes_pure
            (D := fun ws e => ws = [] ∧ e = .binary left op right) ⟨rfl, rfl⟩)).mono ?_
          rintro us e ⟨_, hws, vs, right, _, rfl, hvs, rfl, rfl⟩ ls hls
          rw [hws, List.append_nil]
          exact .compare hls ht hvs
      · rintro _ e ⟨us, left, vs, rfl, hus, hvs⟩
        exact hvs us hus
    · rw [parsePrimary, parsePrimary]
      refine Reads.peek_bind fun t => ?_
      have hword : ∀ tt, t.type = tt → t.word = (tt, t.literal) := fun tt h => by rw [Token.word, h]
      have hne : ∀ {tt}, t.type = tt → tt ≠ .eof → t.type ≠ .eof := fun h h' => h ▸ h'
      split
      case h_1 ht =>
        cases hn : parseInt t.literal with
        | some k => exact reads_single (hne ht nofun) (hword _ ht ▸ .number hn)
        | none =>
          refine (reads_advance_bind (hne ht nofun) (takes_fail (D := fun _ _ => False) _)).mono ?_
          rintro us e ⟨_, -, h⟩
          exact h.elim
      case h_2 ht => exact reads_single (hne ht nofun) (hword _ ht ▸ .string _)
      case h_3 ht => exact reads_single (hne ht nofun) (hword _ ht ▸ .true _)
      case h_4 ht => exact reads_single (hne ht nofun) (hword _ ht ▸ .false _)
      case h_5 ht => exact reads_single (hne ht nofun) (hword _ ht ▸ .null _)
      case h_6 ht => exact reads_single (hne ht nofun) (hword _ ht ▸ .name _)
      case h_7 ht =>
        refine (reads_advance_bind (hne ht nofun) (hexpr.bind fun e =>
          takes_expect_bind .rparen nofun fun _ =>
            takes_pure (D := fun ws a => ws = [] ∧ a = e) ⟨rfl, rfl⟩)).mono ?_
        rintro us e ⟨_, hws, us', e, _, rfl, hus', s, _, rfl, rfl, rfl⟩
        rw [hws, hword _ ht]
        exact .paren hus'
      case h_8 => exact Reads.fail _

omit hnm in
theorem takes_columnType :
    Takes parseColumnType parseColumnType
      fun ws ct => ∃ tt s, ws = [(tt, s)] ∧ tt.columnType = some ct := by
  refine (Reads.advance_bind (E := fun t vs ct => vs = [] ∧ t.type.columnType = some ct) ?_
    fun t => ?_).mono ?_
  · exact nofun
  · split
    case h_1 ct h => exact Reads.pure ⟨rfl, h⟩
    case h_2 => exact Reads.fail _
  · rintro _ ct ⟨t, _, rfl, rfl, h⟩
    exact ⟨t.type, t.literal, rfl, h⟩

theorem takes_constraints (primaryKey notNull : Bool) :
    Takes (parseConstraints n primaryKey notNull) (parseConstraints m primaryKey notNull)
      fun ws c => ∃ c', AnyOrder ws c' ∧ c = (primaryKey || c'.1, notNull || c'.2) := by
  induction n generalizing m primaryKey notNull with
  | zero => exact takes_fail _
  | succ n ih =>
    obtain ⟨m, rfl⟩ := Nat.exists_eq_succ_of_ne_zero (Nat.ne_zero_of_lt hnm)
    rw [parseConstraints, parseConstraints]
    refine Reads.peek_bind fun t => ?_
    have hne : ∀ {tt}, t.type = tt → tt ≠ .eof → t.type ≠ .eof := fun h h' => h ▸ h'
    have hword : ∀ tt, t.type = tt → t.word = (tt, t.literal) := fun tt h => by rw [Token.word, h]
    split_ifs with hp hn
    · refine (reads_advance_bind (hne hp nofun)
        (takes_expect_bind .key nofun fun _ =>
          ih (Nat.le_of_succ_le_succ hnm) true notNull)).mono ?_
      rintro us c ⟨_, hws, t', vs, rfl, c', hc', rfl⟩
      rw [hws, hword _ hp]
      exact ⟨_, .primaryKey hc', by simp⟩
    · refine (reads_advance_bind (hne hn nofun)
        (takes_expect_bind .null nofun fun _ =>
          ih (Nat.le_of_succ_le_succ hnm) primaryKey true)).mono ?_
      rintro us c ⟨_, hws, t', vs, rfl, c', hc', rfl⟩
      rw [hws, hword _ hn]
      exact ⟨_, .notNull hc', by simp⟩
    · exact Reads.pure ⟨_, .nil, by simp⟩

theorem takes_columnDef : Takes (parseColumnDef n) (parseColumnDef m) (ColumnOf AnyOrder) := by
  refine (takes_expect_bind .ident nofun fun t => takes_columnType.bind fun ct =>
    (takes_constraints hnm false false).bind fun c =>
      takes_pure (D := fun ws col => ws = [] ∧ col = ⟨t.literal, ct, c.1, c.2⟩) ⟨rfl, rfl⟩).mono ?_
  rintro _ col ⟨t, _, rfl, _, ct, _, rfl, ⟨tt, s, rfl, ht⟩, vs, _, _, rfl, ⟨c, hc, rfl⟩, rfl, rfl⟩
  simpa using ColumnOf.mk ht hc

omit hnm in
/-- The end of every statement. -/
theorem takes_end (stmt : Statement) :
    Takes (accept .semicolon >>= fun _ => pure stmt) (accept .semicolon >>= fun _ => pure stmt)
      fun ws a => Semicolon ws ∧ a = stmt := by
  refine ((takes_accept .semicolon nofun).bind fun _ =>
    takes_pure (D := fun ws a => ws = [] ∧ a = stmt) ⟨rfl, rfl⟩).mono ?_
  rintro _ a ⟨us, b, _, rfl, hus, rfl, rfl⟩
  rw [List.append_nil]
  rcases hus with ⟨-, s, rfl⟩ | ⟨-, rfl⟩
  · exact ⟨.some s, rfl⟩
  · exact ⟨.none, rfl⟩

theorem takes_createTable : Takes (parseCreateTable n) (parseCreateTable m) Accepted := by
  refine (takes_expect_bind .create nofun fun _ => takes_expect_bind .table nofun fun _ =>
    takes_expect_bind .ident nofun fun t => takes_expect_bind .lparen nofun fun _ =>
    (takes_commaSeparated hnm (takes_columnDef hnm)).bind fun cols =>
    takes_expect_bind .rparen nofun fun _ => takes_end (.createTable t.literal cols)).mono ?_
  rintro _ _ ⟨a, _, rfl, b, _, rfl, name, _, rfl, c, _, rfl, us, cols, _, rfl, hus, d, semi, rfl,
    hsemi, rfl⟩
  exact .createTable hus hsemi

omit hnm in
theorem takes_name : Takes parseName parseName NameItem := by
  refine (takes_expect_bind .ident nofun fun t =>
    takes_pure (D := fun ws name => ws = [] ∧ name = t.literal) ⟨rfl, rfl⟩).mono ?_
  rintro _ _ ⟨t, _, rfl, rfl, rfl⟩
  rfl

theorem takes_columnList : Takes (parseColumnList n) (parseColumnList m) ColumnList := by
  refine (takes_accept_ite .lparen nofun ((takes_commaSeparated hnm takes_name).bind
    fun cols => takes_expect_bind .rparen nofun fun _ =>
      takes_pure (D := fun ws names => ws = [] ∧ names = cols) ⟨rfl, rfl⟩)
    (takes_pure (D := fun ws names => ws = [] ∧ names = []) ⟨rfl, rfl⟩)).mono ?_
  rintro _ _ (⟨s, _, rfl, us, cols, _, rfl, hus, s', _, rfl, rfl, rfl⟩ | ⟨rfl, rfl⟩)
  · exact .some hus
  · exact .none

theorem takes_insert : Takes (parseInsert n) (parseInsert m) Accepted := by
  refine (takes_expect_bind .insert nofun fun _ => takes_expect_bind .into nofun fun _ =>
    takes_expect_bind .ident nofun fun t => (takes_columnList hnm).bind fun cols =>
    takes_expect_bind .values nofun fun _ => takes_expect_bind .lparen nofun fun _ =>
    (takes_commaSeparated hnm (takes_expr hnm).1).bind fun values =>
    takes_expect_bind .rparen nofun fun _ => takes_end (.insert t.literal cols values)).mono ?_
  rintro _ _ ⟨a, _, rfl, b, _, rfl, name, _, rfl, us, cols, _, rfl, hus, c, _, rfl, d, _, rfl,
    vs, values, _, rfl, hvs, e, semi, rfl, hsemi, rfl⟩
  exact .insert hus hvs hsemi

theorem takes_selectList :
    Takes (parseSelectList n) (parseSelectList m) (SelectList (Derives .primary)) := by
  refine (takes_accept_ite .star nofun
    (takes_pure (D := fun ws es => ws = [] ∧ es = [.star]) ⟨rfl, rfl⟩)
    (takes_commaSeparated hnm (takes_expr hnm).2.2.2)).mono ?_
  rintro _ _ (⟨s, _, rfl, rfl, rfl⟩ | h)
  · exact .star s
  · exact .items h

theorem takes_filter : Takes (parseFilter n) (parseFilter m) Filter := by
  refine (takes_accept_ite .where nofun ((takes_expr hnm).1.bind fun e =>
    takes_pure (D := fun ws a => ws = [] ∧ a = some e) ⟨rfl, rfl⟩)
    (takes_pure (D := fun ws a => ws = [] ∧ a = none) ⟨rfl, rfl⟩)).mono ?_
  rintro _ _ (⟨s, _, rfl, us, e, _, rfl, hus, rfl, rfl⟩ | ⟨rfl, rfl⟩)
  · rw [List.append_nil]
    exact .some hus
  · exact .none

theorem takes_select : Takes (parseSelect n) (parseSelect m) Accepted := by
  refine (takes_expect_bind .select nofun fun _ => (takes_selectList hnm).bind fun items =>
    takes_expect_bind .from nofun fun _ => takes_expect_bind .ident nofun fun t =>
    (takes_filter hnm).bind fun filter => takes_end (.select items t.literal filter)).mono ?_
  rintro _ _ ⟨a, _, rfl, us, items, _, rfl, hus, b, _, rfl, name, _, rfl, vs, filter, semi, rfl,
    hvs, hsemi, rfl⟩
  exact .select hus hvs hsemi

theorem takes_assignment : Takes (parseAssignment n) (parseAssignment m) AssignmentOf := by
  refine (takes_expect_bind .ident nofun fun t => takes_expect_bind .eq nofun fun _ =>
    (takes_expr hnm).1.bind fun e =>
    takes_pure (D := fun ws a => ws = [] ∧ a = ⟨t.literal, e⟩) ⟨rfl, rfl⟩).mono ?_
  rintro _ _ ⟨name, _, rfl, s, _, rfl, us, e, _, rfl, hus, rfl, rfl⟩
  rw [List.append_nil]
  exact .mk hus

theorem takes_update : Takes (parseUpdate n) (parseUpdate m) Accepted := by
  refine (takes_expect_bind .update nofun fun _ => takes_expect_bind .ident nofun fun t =>
    takes_expect_bind .set nofun fun _ => (takes_commaSeparated hnm (takes_assignment hnm)).bind
    fun assignments => takes_expect_bind .where nofun fun _ => (takes_expr hnm).1.bind fun filter =>
    takes_end (.update t.literal assignments (some filter))).mono ?_
  rintro _ _ ⟨a, _, rfl, name, _, rfl, b, _, rfl, us, assignments, _, rfl, hus, c, _, rfl, vs,
    filter, semi, rfl, hvs, hsemi, rfl⟩
  exact .update hus hvs hsemi

theorem takes_delete : Takes (parseDelete n) (parseDelete m) Accepted := by
  refine (takes_expect_bind .delete nofun fun _ => takes_expect_bind .from nofun fun _ =>
    takes_expect_bind .ident nofun fun t => takes_expect_bind .where nofun fun _ =>
    (takes_expr hnm).1.bind fun filter => takes_end (.delete t.literal (some filter))).mono ?_
  rintro _ _ ⟨a, _, rfl, b, _, rfl, name, _, rfl, c, _, rfl, vs, filter, semi, rfl, hvs, hsemi,
    rfl⟩
  exact .delete hvs hsemi

theorem takes_statement : Takes (parseStatement n) (parseStatement m) Accepted := by
  refine Reads.peek_bind fun t => ?_
  split
  · exact (takes_createTable hnm).strengthen fun _ _ => trivial
  · exact (takes_insert hnm).strengthen fun _ _ => trivial
  · exact (takes_select hnm).strengthen fun _ _ => trivial
  · exact (takes_update hnm).strengthen fun _ _ => trivial
  · exact (takes_delete hnm).strengthen fun _ _ => trivial
  · exact Reads.fail _

end Rounds

/-! ### The rounds are enough -/

section Rounds

variable {n k : ℕ}

theorem answers_expect (tt : TokenType) : Answers .exhausted (expect tt) k := .expect nofun

theorem answers_expr :
    (4 * k + 3 ≤ n → Answers .exhausted (parseExpr n) k) ∧
      (4 * k + 1 ≤ n → ∀ left, Answers .exhausted (parseLogical n left) k) ∧
      (4 * k + 2 ≤ n → Answers .exhausted (parseCompare n) k) ∧
      (4 * k + 1 ≤ n → Answers .exhausted (parsePrimary n) k) := by
  induction n generalizing k with
  | zero => exact ⟨nofun, nofun, nofun, nofun⟩
  | succ n ih =>
    refine ⟨fun hn => ?_, fun hn left => ?_, fun hn => ?_, fun hn => ?_⟩
    · exact (ih.2.2.1 (by omega)).bind (takes_expr le_rfl).2.2.1 fun left => ih.2.1 (by omega) left
    · cases k with
      | zero =>
        intro ts hts
        obtain rfl := List.length_eq_zero_iff.1 (Nat.le_zero.1 hts)
        exact nofun
      | succ k =>
        rw [parseLogical]
        refine .peek_bind fun t => ?_
        split
        · exact .pure _
        · exact .advance_bind fun _ => (ih.2.2.1 (by omega)).bind (takes_expr le_rfl).2.2.1
            fun right => ih.2.1 (by omega) _
    · rw [parseCompare]
      refine (ih.2.2.2 (by omega)).bind (takes_expr le_rfl).2.2.2 fun left => .peek_bind fun t => ?_
      split
      · exact .pure _
      · exact .advance_bind fun _ => (ih.2.2.2 (by omega)).bind (takes_expr le_rfl).2.2.2
          fun right => .pure _
    · cases k with
      | zero =>
        intro ts hts
        obtain rfl := List.length_eq_zero_iff.1 (Nat.le_zero.1 hts)
        exact nofun
      | succ k =>
        rw [parsePrimary]
        refine .peek_bind fun t => ?_
        split
        case h_1 =>
          refine .advance_bind fun _ => ?_
          split
          · exact .pure _
          · exact .fail nofun
        case h_7 =>
          exact .advance_bind fun _ => (ih.1 (by omega)).bind (takes_expr le_rfl).1
            fun e => (answers_expect _).bind (takes_expect .rparen nofun) fun _ => .pure _
        case h_8 => exact .fail nofun
        all_goals exact .advance_bind fun _ => .pure _

theorem answers_constraints (hn : k < n) (primaryKey notNull : Bool) :
    Answers .exhausted (parseConstraints n primaryKey notNull) k := by
  induction n generalizing k primaryKey notNull with
  | zero => exact absurd hn (Nat.not_lt_zero k)
  | succ n ih =>
    cases k with
    | zero =>
      intro ts hts
      obtain rfl := List.length_eq_zero_iff.1 (Nat.le_zero.1 hts)
      exact nofun
    | succ k =>
      rw [parseConstraints]
      refine .peek_bind fun t => ?_
      split_ifs
      · exact .advance_bind fun _ => (answers_expect _).bind (takes_expect .key nofun)
          fun _ => ih (by omega) _ _
      · exact .advance_bind fun _ => (answers_expect _).bind (takes_expect .null nofun)
          fun _ => ih (by omega) _ _
      · exact .pure _

theorem answers_commaSeparated {α : Type} {p : TokenParser α} {D : List Word → α → Prop}
    (hn : k < n) (hp : ∀ j ≤ k, Answers .exhausted p j) (hD : Takes p p D) :
    Answers .exhausted (commaSeparated n p) k := .sepBy hn hp hD rfl

theorem answers_columnDef (hn : k < n) : Answers .exhausted (parseColumnDef n) k := by
  have htype : Answers .exhausted parseColumnType k := by
    refine .advance_bind fun t => ?_
    split
    · exact .pure _
    · exact .fail nofun
  exact (answers_expect _).bind (takes_expect .ident nofun) fun _ => htype.bind takes_columnType
    fun _ => (answers_constraints hn _ _).bind (takes_constraints le_rfl _ _) fun _ => .pure _

/-- The end of every statement. -/
theorem answers_end (stmt : Statement) :
    Answers .exhausted (accept .semicolon >>= fun _ => pure stmt) k :=
  Answers.accept.bind (takes_accept .semicolon nofun) fun _ => .pure stmt

theorem answers_name : Answers .exhausted parseName k :=
  (answers_expect _).bind (takes_expect .ident nofun) fun _ => .pure _

theorem answers_columnList (hn : k < n) : Answers .exhausted (parseColumnList n) k := by
  refine Answers.accept.bind (takes_accept .lparen nofun) fun parens => ?_
  split_ifs
  · exact (answers_commaSeparated hn (fun _ _ => answers_name) takes_name).bind
      (takes_commaSeparated le_rfl takes_name) fun _ =>
      (answers_expect _).bind (takes_expect .rparen nofun) fun _ => .pure _
  · exact .pure _

theorem answers_selectList (hn : 4 * k + 1 ≤ n) : Answers .exhausted (parseSelectList n) k := by
  refine Answers.accept.bind (takes_accept .star nofun) fun star => ?_
  split_ifs
  · exact .pure _
  · exact answers_commaSeparated (by omega) (fun j hj => answers_expr.2.2.2 (by omega))
      (takes_expr le_rfl).2.2.2

theorem answers_filter (hn : 4 * k + 3 ≤ n) : Answers .exhausted (parseFilter n) k := by
  refine Answers.accept.bind (takes_accept .where nofun) fun found => ?_
  split_ifs
  · exact (answers_expr.1 hn).bind (takes_expr le_rfl).1 fun _ => .pure _
  · exact .pure _

theorem answers_assignment (hn : 4 * k + 3 ≤ n) : Answers .exhausted (parseAssignment n) k :=
  (answers_expect _).bind (takes_expect .ident nofun) fun _ =>
    (answers_expect _).bind (takes_expect .eq nofun) fun _ =>
    (answers_expr.1 hn).bind (takes_expr le_rfl).1 fun _ => .pure _

theorem answers_createTable (hn : k < n) : Answers .exhausted (parseCreateTable n) k :=
  (answers_expect _).bind (takes_expect .create nofun) fun _ =>
    (answers_expect _).bind (takes_expect .table nofun) fun _ =>
    (answers_expect _).bind (takes_expect .ident nofun) fun _ =>
    (answers_expect _).bind (takes_expect .lparen nofun) fun _ =>
    (answers_commaSeparated hn (fun j hj => answers_columnDef (by omega))
      (takes_columnDef le_rfl)).bind (takes_commaSeparated le_rfl (takes_columnDef le_rfl)) fun _ =>
    (answers_expect _).bind (takes_expect .rparen nofun) fun _ => answers_end _

theorem answers_insert (hn : 4 * k + 3 ≤ n) : Answers .exhausted (parseInsert n) k :=
  (answers_expect _).bind (takes_expect .insert nofun) fun _ =>
    (answers_expect _).bind (takes_expect .into nofun) fun _ =>
    (answers_expect _).bind (takes_expect .ident nofun) fun _ =>
    (answers_columnList (by omega)).bind (takes_columnList le_rfl) fun _ =>
    (answers_expect _).bind (takes_expect .values nofun) fun _ =>
    (answers_expect _).bind (takes_expect .lparen nofun) fun _ =>
    (answers_commaSeparated (by omega) (fun j hj => answers_expr.1 (by omega))
      (takes_expr le_rfl).1).bind (takes_commaSeparated le_rfl (takes_expr le_rfl).1) fun _ =>
    (answers_expect _).bind (takes_expect .rparen nofun) fun _ => answers_end _

theorem answers_select (hn : 4 * k + 3 ≤ n) : Answers .exhausted (parseSelect n) k :=
  (answers_expect _).bind (takes_expect .select nofun) fun _ =>
    (answers_selectList (by omega)).bind (takes_selectList le_rfl) fun _ =>
    (answers_expect _).bind (takes_expect .from nofun) fun _ =>
    (answers_expect _).bind (takes_expect .ident nofun) fun _ =>
    (answers_filter hn).bind (takes_filter le_rfl) fun _ => answers_end _

theorem answers_update (hn : 4 * k + 3 ≤ n) : Answers .exhausted (parseUpdate n) k :=
  (answers_expect _).bind (takes_expect .update nofun) fun _ =>
    (answers_expect _).bind (takes_expect .ident nofun) fun _ =>
    (answers_expect _).bind (takes_expect .set nofun) fun _ =>
    (answers_commaSeparated (by omega) (fun j hj => answers_assignment (by omega))
      (takes_assignment le_rfl)).bind
      (takes_commaSeparated le_rfl (takes_assignment le_rfl)) fun _ =>
    (answers_expect _).bind (takes_expect .where nofun) fun _ =>
    (answers_expr.1 hn).bind (takes_expr le_rfl).1 fun _ => answers_end _

theorem answers_delete (hn : 4 * k + 3 ≤ n) : Answers .exhausted (parseDelete n) k :=
  (answers_expect _).bind (takes_expect .delete nofun) fun _ =>
    (answers_expect _).bind (takes_expect .from nofun) fun _ =>
    (answers_expect _).bind (takes_expect .ident nofun) fun _ =>
    (answers_expect _).bind (takes_expect .where nofun) fun _ =>
    (answers_expr.1 hn).bind (takes_expr le_rfl).1 fun _ => answers_end _

theorem answers_statement (hn : 4 * k + 3 ≤ n) : Answers .exhausted (parseStatement n) k := by
  refine .peek_bind fun t => ?_
  split
  · exact answers_createTable (by omega)
  · exact answers_insert hn
  · exact answers_select hn
  · exact answers_update hn
  · exact answers_delete hn
  · exact .fail nofun

end Rounds

/-- The parser never runs out of rounds. -/
theorem parse_ne_exhausted (input : Bytes) : parse input ≠ .error .exhausted := by
  rw [parse]
  cases lex input with
  | error e => exact nofun
  | ok toks =>
    have hans : Answers .exhausted (parseStatement (rounds toks)) toks.length :=
      answers_statement (by rw [rounds]; omega)
    dsimp only
    cases hp : parseStatement (rounds toks) toks with
    | ok x => exact nofun
    | error e =>
      rintro ⟨⟩
      exact hans toks le_rfl hp

end Doki.Sql
