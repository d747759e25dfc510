import Doki.Sql.Soundness

/-!
# What the parser takes whole

A derivation at one of the levels of expressions is taken whole by the function of
that level, if the token behind it does not continue it (`takesWhole_derives`), and
a statement is taken whole if the end of the text follows it
(`parseStatement_append`). The bounds on the rounds are those of `rounds`.
-/

namespace Doki.Sql

open Json (Bytes)
open Parsing

/-! ### Expressions -/

/-- The type of the next token. -/
def nextType (ts : List Token) : TokenType := (ts.head?.getD eofToken).type

section Evaluation

variable {tt : TokenType} {t : Token} {ts : List Token}

theorem peek_bind_cons {α : Type} {f : Token → TokenParser α} :
    (peek >>= f) (t :: ts) = f t (t :: ts) := peek_bind_apply

theorem advance_bind_cons {α : Type} {f : Token → TokenParser α} :
    (advance >>= f) (t :: ts) = f t ts := advance_bind_apply

theorem expect_ok (h : t.type = tt) : expect tt (t :: ts) = .ok (t, ts) :=
  expect_cons (decide_eq_true h)

theorem accept_true (h : t.type = tt) : accept tt (t :: ts) = .ok (true, ts) :=
  accept_cons (decide_eq_true h)

theorem accept_false (h : nextType ts ≠ tt) : accept tt ts = .ok (false, ts) :=
  accept_of_not (decide_eq_false h)

end Evaluation

theorem parseLogical_stop (n : ℕ) (e : Expr) {rest : List Token}
    (h : (nextType rest).logical = none) : parseLogical (n + 1) e rest = .ok (e, rest) := by
  rw [nextType] at h
  rw [parseLogical, peek, peek_bind_apply]
  simp only [h]
  rfl

/-- What it is for a parser of a level to take some tokens whole. -/
def TakesWhole (us : List Token) (e : Expr) : Level → Prop
  | .primary => ∀ n rest, 4 * us.length ≤ n → parsePrimary n (us ++ rest) = .ok (e, rest)
  | .compare => ∀ n rest, 4 * us.length + 1 ≤ n → (nextType rest).comparison = none →
      parseCompare n (us ++ rest) = .ok (e, rest)
  -- An expression may go on with what follows; the loop is left with enough rounds for it.
  | .expr => ∀ n rest, 4 * us.length + 1 ≤ n → (nextType rest).comparison = none →
      ∃ m, n ≤ m + us.length ∧ parseExpr (n + 1) (us ++ rest) = parseLogical m e rest

theorem Token.eq_of_word {t : Token} {tt : TokenType} {s : Bytes} (h : t.word = (tt, s)) :
    t = ⟨tt, s, t.pos⟩ := by
  obtain ⟨rfl, rfl⟩ := Prod.mk.inj h
  rfl

theorem takesWhole_single {us : List Token} {tt : TokenType} {s : Bytes} {e : Expr}
    (hus : us.map Token.word = [(tt, s)])
    (h : ∀ n pos rest, parsePrimary (n + 1) (⟨tt, s, pos⟩ :: rest) = .ok (e, rest)) :
    TakesWhole us e .primary := by
  intro n rest hn
  obtain ⟨t, rfl, ht⟩ := List.map_eq_singleton_iff.1 hus
  obtain ⟨n, rfl⟩ := Nat.exists_eq_succ_of_ne_zero (show n ≠ 0 by simp at hn; omega)
  rw [Token.eq_of_word ht]
  exact h n t.pos rest

theorem takesWhole_paren {us : List Token} {e : Expr} (h : TakesWhole us e .expr) {l r : Token}
    (hl : l.type = .lparen) (hr : r.type = .rparen) :
    TakesWhole (l :: (us ++ [r])) e .primary := by
  intro n rest hn
  simp only [List.length_cons, List.length_append, List.length_nil] at hn
  obtain ⟨n, rfl⟩ : ∃ k, n = k + 2 := ⟨n - 2, by omega⟩
  have hnext : nextType (r :: rest) = .rparen := hr
  obtain ⟨m, hm, hexpr⟩ := h n (r :: rest) (by omega) (by rw [hnext]; rfl)
  obtain ⟨m, rfl⟩ : ∃ k, m = k + 1 := ⟨m - 1, by omega⟩
  rw [parseLogical_stop m e (by rw [hnext]; rfl)] at hexpr
  rw [parsePrimary, List.cons_append, peek_bind_cons, hl]
  dsimp only
  rw [advance_bind_cons, List.append_assoc, List.singleton_append, bind_apply hexpr,
    bind_apply (expect_ok hr), pure_apply]

/-- A comparison, or a primary expression alone. -/
theorem takesWhole_compare {us vs : List Token} {t : Token} {l r : Expr} {op : BinaryOp}
    (hl : TakesWhole us l .primary) (ht : t.type.comparison = some op)
    (hr : TakesWhole vs r .primary) : TakesWhole (us ++ t :: vs) (.binary l op r) .compare := by
  intro n rest hn _
  simp only [List.length_cons, List.length_append] at hn
  obtain ⟨n, rfl⟩ : ∃ k, n = k + 1 := ⟨n - 1, by omega⟩
  rw [parseCompare, List.append_assoc, bind_apply (hl n _ (by omega)), List.cons_append,
    peek_bind_cons, ht]
  dsimp only
  rw [advance_bind_cons, bind_apply (hr n rest (by omega)), pure_apply]

theorem takesWhole_primary {us : List Token} {e : Expr} (h : TakesWhole us e .primary) :
    TakesWhole us e .compare := by
  intro n rest hn hrest
  obtain ⟨n, rfl⟩ : ∃ k, n = k + 1 := ⟨n - 1, by omega⟩
  rw [parseCompare, bind_apply (h n rest (by omega)), peek, peek_bind_apply]
  rw [nextType] at hrest
  simp only [hrest]
  exact pure_apply e

theorem takesWhole_operand {us : List Token} {e : Expr} (h : TakesWhole us e .compare) :
    TakesWhole us e .expr := by
  intro n rest hn hrest
  refine ⟨n, Nat.le_add_right n _, ?_⟩
  rw [parseExpr, bind_apply (h n rest hn hrest)]

theorem takesWhole_logical {us vs : List Token} {t : Token} {l r : Expr} {op : BinaryOp}
    (hl : TakesWhole us l .expr) (ht : t.type.logical = some op)
    (hr : TakesWhole vs r .compare) : TakesWhole (us ++ t :: vs) (.binary l op r) .expr := by
  intro n rest hn hrest
  simp only [List.length_cons, List.length_append] at hn ⊢
  have hcomp : (nextType (t :: (vs ++ rest))).comparison = none := by
    change t.type.comparison = none
    cases htt : t.type <;> rw [htt] at ht <;> first | rfl | cases ht
  obtain ⟨m, hm, hexpr⟩ := hl n (t :: (vs ++ rest)) (by omega) hcomp
  obtain ⟨m, rfl⟩ : ∃ k, m = k + 1 := ⟨m - 1, by omega⟩
  refine ⟨m, by omega, ?_⟩
  rw [List.append_assoc, List.cons_append, hexpr, parseLogical, peek_bind_cons, ht]
  dsimp only
  rw [advance_bind_cons, bind_apply (hr m rest (by omega) hrest)]

theorem takesWhole_derives {l : Level} {ws : List Word} {e : Expr} (h : Derives l ws e) :
    ∀ us : List Token, us.map Token.word = ws → TakesWhole us e l := by
  induction h with
  | @number s k h =>
    refine fun us hus => takesWhole_single hus fun n pos rest => ?_
    simp only [parsePrimary, peek_bind_cons, advance_bind_cons, h]
    rfl
  | string s | true s | false s | null s | name s =>
    exact fun us hus => takesWhole_single hus fun n pos rest => rfl
  | paren h ih =>
    intro us hus
    obtain ⟨l, us, rfl, hl, hus⟩ := List.map_eq_cons_iff.1 hus
    obtain ⟨us, rs, rfl, hus', hrs⟩ := List.map_eq_append_iff.1 hus
    obtain ⟨r, rfl, hr⟩ := List.map_eq_singleton_iff.1 hrs
    exact takesWhole_paren (ih us hus') (Prod.mk.inj hl).1 (Prod.mk.inj hr).1
  | primary h ih => exact fun us hus => takesWhole_primary (ih us hus)
  | compare hl ht hr ihl ihr =>
    intro us hus
    obtain ⟨us, vs, rfl, hus', hvs⟩ := List.map_eq_append_iff.1 hus
    obtain ⟨t, vs, rfl, hword, hvs'⟩ := List.map_eq_cons_iff.1 hvs
    exact takesWhole_compare (ihl us hus') ((Prod.mk.inj hword).1 ▸ ht) (ihr vs hvs')
  | operand h ih => exact fun us hus => takesWhole_operand (ih us hus)
  | logical hl ht hr ihl ihr =>
    intro us hus
    obtain ⟨us, vs, rfl, hus', hvs⟩ := List.map_eq_append_iff.1 hus
    obtain ⟨t, vs, rfl, hword, hvs'⟩ := List.map_eq_cons_iff.1 hvs
    exact takesWhole_logical (ihl us hus') ((Prod.mk.inj hword).1 ▸ ht) (ihr vs hvs')

/-! ### Statements -/

/-- The tokens that may follow a part of a statement; all its loops end there. -/
def closing : List TokenType := [.comma, .rparen, .where, .from, .semicolon, .eof]

theorem closing_spec : ∀ tt ∈ closing,
    tt.comparison = none ∧ tt.logical = none ∧ tt ≠ .primary ∧ tt ≠ .not := by
  decide

theorem exists_map_eq_cons {us : List Token} {tt : TokenType} {s : Bytes} {ws : List Word}
    (h : us.map Token.word = (tt, s) :: ws) :
    ∃ t us', us = t :: us' ∧ t.type = tt ∧ t.literal = s ∧ us'.map Token.word = ws := by
  obtain ⟨t, us', rfl, ht, h⟩ := List.map_eq_cons_iff.1 h
  exact ⟨t, us', rfl, (Prod.mk.inj ht).1, (Prod.mk.inj ht).2, h⟩

section Whole

variable {us rest : List Token} {n : ℕ}

theorem parseExpr_append {e : Expr} (h : Derives .expr (us.map Token.word) e)
    (hn : 4 * us.length + 2 ≤ n) (hrest : nextType rest ∈ closing) :
    parseExpr n (us ++ rest) = .ok (e, rest) := by
  obtain ⟨hcomp, hlog, -⟩ := closing_spec _ hrest
  obtain ⟨n, rfl⟩ : ∃ k, n = k + 1 := ⟨n - 1, by omega⟩
  obtain ⟨m, hm, hexpr⟩ := takesWhole_derives h us rfl n rest (by omega) hcomp
  obtain ⟨m, rfl⟩ : ∃ k, m = k + 1 := ⟨m - 1, by omega⟩
  rw [hexpr, parseLogical_stop m e hlog]

theorem commaSeparated_append {α : Type} {p : TokenParser α} {D : List Word → α → Prop}
    {as : List α} (h : SepBy IsComma D (us.map Token.word) as)
    (hp : ∀ vs a rest, D (vs.map Token.word) a → vs.length ≤ us.length →
      nextType rest ∈ closing → p (vs ++ rest) = .ok (a, rest))
    (hrest : nextType rest ∈ closing) (hcomma : nextType rest ≠ .comma)
    (hn : us.length < n) : commaSeparated n p (us ++ rest) = .ok (as, rest) := by
  rw [SepBy.map_iff] at h
  have h' : SepBy (fun t : Token => decide (t.type = .comma) = true)
      (fun vs a => D (vs.map Token.word) a) us as :=
    h.mono (fun t ht => decide_eq_true ht) fun _ _ _ hvs => hvs
  exact sepBy_append h' (F := fun t => (t.getD eofToken).type ∈ closing)
    (fun t ht => by simp [of_decide_eq_true ht, closing])
    (fun vs a rest' hvs hinf => hp vs a rest' hvs hinf.length_le) hrest
    (decide_eq_false hcomma) hn

theorem parseConstraints_append {c : Bool × Bool} (h : AnyOrder (us.map Token.word) c)
    (hn : us.length < n) (hrest : nextType rest ∈ closing) (primaryKey notNull : Bool) :
    parseConstraints n primaryKey notNull (us ++ rest)
      = .ok ((primaryKey || c.1, notNull || c.2), rest) := by
  generalize hws : us.map Token.word = ws at h
  induction h generalizing us n primaryKey notNull with
  | nil =>
    obtain ⟨-, -, hp, hnot⟩ := closing_spec _ hrest
    obtain rfl := List.map_eq_nil_iff.1 hws
    obtain ⟨n, rfl⟩ : ∃ k, n = k + 1 := ⟨n - 1, by omega⟩
    rw [nextType] at hp hnot
    rw [parseConstraints, peek, peek_bind_apply, List.nil_append, if_neg hp, if_neg hnot]
    simp only [Bool.or_false]
    rfl
  | @primaryKey s s' ws c h ih =>
    obtain ⟨t, us', rfl, ht, -, hus'⟩ := exists_map_eq_cons hws
    obtain ⟨t', us, rfl, ht', -, hus⟩ := exists_map_eq_cons hus'
    simp only [List.length_cons] at hn
    obtain ⟨n, rfl⟩ : ∃ k, n = k + 1 := ⟨n - 1, by omega⟩
    rw [parseConstraints, List.cons_append, List.cons_append, peek_bind_cons, if_pos ht,
      advance_bind_cons, bind_apply (expect_ok ht'), ih (by omega) true notNull hus]
    simp only [Bool.true_or, Bool.or_true]
  | @notNull s s' ws c h ih =>
    obtain ⟨t, us', rfl, ht, -, hus'⟩ := exists_map_eq_cons hws
    obtain ⟨t', us, rfl, ht', -, hus⟩ := exists_map_eq_cons hus'
    simp only [List.length_cons] at hn
    obtain ⟨n, rfl⟩ : ∃ k, n = k + 1 := ⟨n - 1, by omega⟩
    rw [parseConstraints, List.cons_append, List.cons_append, peek_bind_cons,
      if_neg (by rw [ht]; decide), if_pos ht, advance_bind_cons, bind_apply (expect_ok ht'),
      ih (by omega) primaryKey true hus]
    simp only [Bool.true_or, Bool.or_true]

theorem parseColumnDef_append {col : ColumnDef} (h : ColumnOf AnyOrder (us.map Token.word) col)
    (hn : us.length ≤ n) (hrest : nextType rest ∈ closing) :
    parseColumnDef n (us ++ rest) = .ok (col, rest) := by
  generalize hws : us.map Token.word = ws at h
  cases h with
  | @mk name s tt ct ws c ht hc =>
    obtain ⟨t, us', rfl, hname, rfl, hus'⟩ := exists_map_eq_cons hws
    obtain ⟨t', us, rfl, rfl, -, rfl⟩ := exists_map_eq_cons hus'
    simp only [List.length_cons] at hn
    have htype : parseColumnType (t' :: (us ++ rest)) = .ok (ct, us ++ rest) := by
      rw [parseColumnType, advance, advance_bind_apply, ht]
      rfl
    rw [parseColumnDef, List.cons_append, bind_apply (expect_ok hname), List.cons_append,
      bind_apply htype, bind_apply (parseConstraints_append hc (by omega) hrest false false)]
    simp only [Bool.false_or]
    rfl

theorem parseAssignment_append {a : Assignment} (h : AssignmentOf (us.map Token.word) a)
    (hn : 4 * us.length + 2 ≤ n) (hrest : nextType rest ∈ closing) :
    parseAssignment n (us ++ rest) = .ok (a, rest) := by
  generalize hws : us.map Token.word = ws at h
  cases h with
  | mk he =>
    obtain ⟨t, us', rfl, hname, rfl, hus'⟩ := exists_map_eq_cons hws
    obtain ⟨t', us, rfl, ht', -, rfl⟩ := exists_map_eq_cons hus'
    simp only [List.length_cons] at hn
    rw [parseAssignment, List.cons_append, bind_apply (expect_ok hname), List.cons_append,
      bind_apply (expect_ok ht'), bind_apply (parseExpr_append he (by omega) hrest)]
    rfl

section End

variable {semi : List Token} (hsemi : Semicolon (semi.map Token.word))
  (hrest : nextType rest = .eof)
include hsemi hrest

theorem nextType_end : nextType (semi ++ rest) ∈ [.semicolon, .eof] := by
  generalize hws : semi.map Token.word = ws at hsemi
  cases hsemi with
  | none =>
    obtain rfl := List.map_eq_nil_iff.1 hws
    rw [List.nil_append, hrest]
    decide
  | some s =>
    obtain ⟨t, rfl, ht⟩ := List.map_eq_singleton_iff.1 hws
    have htype : nextType ([t] ++ rest) = .semicolon := (Prod.mk.inj ht).1
    rw [htype]
    decide

theorem closing_end : nextType (semi ++ rest) ∈ closing := by
  have hall : ∀ tt ∈ [TokenType.semicolon, .eof], tt ∈ closing := by decide
  exact hall _ (nextType_end hsemi hrest)

theorem end_append (stmt : Statement) :
    (accept .semicolon >>= fun _ => pure stmt) (semi ++ rest) = .ok (stmt, rest) := by
  generalize hws : semi.map Token.word = ws at hsemi
  cases hsemi with
  | none =>
    obtain rfl := List.map_eq_nil_iff.1 hws
    rw [List.nil_append, bind_apply (accept_false (by rw [hrest]; nofun))]
    rfl
  | some s =>
    obtain ⟨t, rfl, ht⟩ := List.map_eq_singleton_iff.1 hws
    rw [List.singleton_append, bind_apply (accept_true (Prod.mk.inj ht).1)]
    rfl

end End

theorem parseName_append {name : Bytes} (h : NameItem (us.map Token.word) name) :
    parseName (us ++ rest) = .ok (name, rest) := by
  obtain ⟨t, rfl, ht⟩ := List.map_eq_singleton_iff.1 h
  obtain ⟨htype, rfl⟩ := Prod.mk.inj ht
  rw [parseName, List.singleton_append, bind_apply (expect_ok htype)]
  rfl

theorem parseColumnList_append {names : List Bytes} (h : ColumnList (us.map Token.word) names)
    (hn : us.length < n) (hrest : nextType rest ≠ .lparen) :
    parseColumnList n (us ++ rest) = .ok (names, rest) := by
  generalize hws : us.map Token.word = ws at h
  cases h with
  | none =>
    obtain rfl := List.map_eq_nil_iff.1 hws
    rw [parseColumnList, List.nil_append, bind_apply (accept_false hrest)]
    rfl
  | some h =>
    obtain ⟨l, us', rfl, hl, -, hus'⟩ := exists_map_eq_cons hws
    obtain ⟨us, rs, rfl, rfl, hrs⟩ := List.map_eq_append_iff.1 hus'
    obtain ⟨r, rfl, hr⟩ := List.map_eq_singleton_iff.1 hrs
    have hnext : nextType (r :: rest) = .rparen := (Prod.mk.inj hr).1
    simp only [List.length_cons, List.length_append] at hn
    have hcols : commaSeparated n parseName (us ++ r :: rest) = .ok (names, r :: rest) :=
      commaSeparated_append h (fun vs name rest' hvs _ _ => parseName_append hvs)
        (by rw [hnext]; decide) (by rw [hnext]; decide) (by omega)
    rw [parseColumnList, List.cons_append, bind_apply (accept_true hl)]
    simp only [if_true]
    rw [List.append_assoc, List.singleton_append, bind_apply hcols,
      bind_apply (expect_ok (Prod.mk.inj hr).1)]
    rfl

theorem parseSelectList_append {items : List Expr}
    (h : SelectList (Derives .primary) (us.map Token.word) items) (hn : 4 * us.length + 1 ≤ n)
    (hrest : nextType rest = .from) : parseSelectList n (us ++ rest) = .ok (items, rest) := by
  generalize hws : us.map Token.word = ws at h
  cases h with
  | star s =>
    obtain ⟨t, rfl, ht⟩ := List.map_eq_singleton_iff.1 hws
    rw [parseSelectList, List.singleton_append, bind_apply (accept_true (Prod.mk.inj ht).1)]
    rfl
  | items h =>
    subst hws
    have hstar : nextType (us ++ rest) ≠ .star := by
      obtain ⟨vs, e, ws, hvs, he⟩ := h.exists_first
      obtain ⟨w, vs, rfl, hw⟩ := he.exists_first
      obtain ⟨t, us, rfl, rfl, -⟩ := List.map_eq_cons_iff.1 hvs
      rintro htype
      change t.type = .star at htype
      rw [Token.word, htype] at hw
      simp at hw
    rw [parseSelectList, bind_apply (accept_false hstar)]
    refine commaSeparated_append h (fun vs a rest' hvs hlen _ => ?_) (by rw [hrest]; decide)
      (by rw [hrest]; decide) (by omega)
    exact takesWhole_derives hvs vs rfl n rest' (by omega)

theorem parseFilter_append {filter : Option Expr} (h : Filter (us.map Token.word) filter)
    (hn : 4 * us.length + 2 ≤ n) (hrest : nextType rest ∈ [.semicolon, .eof]) :
    parseFilter n (us ++ rest) = .ok (filter, rest) := by
  have hall : ∀ tt ∈ [TokenType.semicolon, .eof], tt ∈ closing ∧ tt ≠ .where := by decide
  generalize hws : us.map Token.word = ws at h
  cases h with
  | none =>
    obtain rfl := List.map_eq_nil_iff.1 hws
    rw [parseFilter, List.nil_append, bind_apply (accept_false (hall _ hrest).2)]
    rfl
  | some h =>
    obtain ⟨t, us, rfl, ht, -, rfl⟩ := exists_map_eq_cons hws
    simp only [List.length_cons] at hn
    rw [parseFilter, List.cons_append, bind_apply (accept_true ht)]
    simp only [if_true]
    rw [bind_apply (parseExpr_append h (by omega) (hall _ hrest).1)]
    rfl

section Statements

variable {a b c d e name : Bytes} {vs ws ss : List Word}

theorem createTable_append {cols : List ColumnDef}
    (hus : us.map Token.word = (.create, a) :: (.table, b) :: (.ident, name) :: (.lparen, c) ::
      (vs ++ (.rparen, d) :: ss))
    (hc : SepBy IsComma (ColumnOf AnyOrder) vs cols) (hs : Semicolon ss)
    (hn : 4 * us.length + 2 ≤ n) (hrest : nextType rest = .eof) :
    parseStatement n (us ++ rest) = .ok (.createTable name cols, rest) := by
  obtain ⟨t₁, us₁, rfl, h₁, -, hus₁⟩ := exists_map_eq_cons hus
  obtain ⟨t₂, us₂, rfl, h₂, -, hus₂⟩ := exists_map_eq_cons hus₁
  obtain ⟨t₃, us₃, rfl, h₃, rfl, hus₃⟩ := exists_map_eq_cons hus₂
  obtain ⟨t₄, us₄, rfl, h₄, -, hus₄⟩ := exists_map_eq_cons hus₃
  obtain ⟨us₅, us₆, rfl, rfl, hus₆⟩ := List.map_eq_append_iff.1 hus₄
  obtain ⟨t₅, semi, rfl, h₅, -, rfl⟩ := exists_map_eq_cons hus₆
  simp only [List.length_cons, List.length_append] at hn
  have hnext : nextType (t₅ :: (semi ++ rest)) = .rparen := h₅
  have hcols : commaSeparated n (parseColumnDef n) (us₅ ++ t₅ :: (semi ++ rest))
      = .ok (cols, t₅ :: (semi ++ rest)) :=
    commaSeparated_append hc
      (fun vs col rest' hvs hlen hrest' => parseColumnDef_append hvs (by omega) hrest')
      (by rw [hnext]; decide) (by rw [hnext]; decide) (by omega)
  simp only [List.cons_append, List.append_assoc]
  rw [parseStatement, peek_bind_cons, h₁]
  dsimp only
  rw [parseCreateTable, bind_apply (expect_ok h₁), bind_apply (expect_ok h₂),
    bind_apply (expect_ok h₃), bind_apply (expect_ok h₄), bind_apply hcols,
    bind_apply (expect_ok h₅), end_append hs hrest]

theorem insert_append {cols : List Bytes} {values : List Expr}
    (hus : us.map Token.word = (.insert, a) :: (.into, b) :: (.ident, name) ::
      (vs ++ (.values, c) :: (.lparen, d) :: (ws ++ (.rparen, e) :: ss)))
    (hc : ColumnList vs cols) (hv : SepBy IsComma (Derives .expr) ws values) (hs : Semicolon ss)
    (hn : 4 * us.length + 2 ≤ n) (hrest : nextType rest = .eof) :
    parseStatement n (us ++ rest) = .ok (.insert name cols values, rest) := by
  obtain ⟨t₁, us₁, rfl, h₁, -, hus₁⟩ := exists_map_eq_cons hus
  obtain ⟨t₂, us₂, rfl, h₂, -, hus₂⟩ := exists_map_eq_cons hus₁
  obtain ⟨t₃, us₃, rfl, h₃, rfl, hus₃⟩ := exists_map_eq_cons hus₂
  obtain ⟨us₄, us₅, rfl, rfl, hus₅⟩ := List.map_eq_append_iff.1 hus₃
  obtain ⟨t₅, us₆, rfl, h₅, -, hus₆⟩ := exists_map_eq_cons hus₅
  obtain ⟨t₆, us₇, rfl, h₆, -, hus₇⟩ := exists_map_eq_cons hus₆
  obtain ⟨us₈, us₉, rfl, rfl, hus₉⟩ := List.map_eq_append_iff.1 hus₇
  obtain ⟨t₇, semi, rfl, h₇, -, rfl⟩ := exists_map_eq_cons hus₉
  simp only [List.length_cons, List.length_append] at hn
  have hnext : nextType (t₇ :: (semi ++ rest)) = .rparen := h₇
  have hvalues : commaSeparated n (parseExpr n) (us₈ ++ t₇ :: (semi ++ rest))
      = .ok (values, t₇ :: (semi ++ rest)) :=
    commaSeparated_append hv
      (fun vs col rest' hvs hlen hrest' => parseExpr_append hvs (by omega) hrest')
      (by rw [hnext]; decide) (by rw [hnext]; decide) (by omega)
  have hlist : parseColumnList n (us₄ ++ t₅ :: t₆ :: (us₈ ++ t₇ :: (semi ++ rest)))
      = .ok (cols, t₅ :: t₆ :: (us₈ ++ t₇ :: (semi ++ rest))) :=
    parseColumnList_append hc (by omega) (by change t₅.type ≠ _; rw [h₅]; nofun)
  simp only [List.cons_append, List.append_assoc]
  rw [parseStatement, peek_bind_cons, h₁]
  dsimp only
  rw [parseInsert, bind_apply (expect_ok h₁), bind_apply (expect_ok h₂), bind_apply (expect_ok h₃),
    bind_apply hlist, bind_apply (expect_ok h₅), bind_apply (expect_ok h₆), bind_apply hvalues,
    bind_apply (expect_ok h₇), end_append hs hrest]

theorem select_append {items : List Expr} {filter : Option Expr}
    (hus : us.map Token.word = (.select, a) :: (vs ++ (.from, b) :: (.ident, name) :: (ws ++ ss)))
    (hi : SelectList (Derives .primary) vs items) (hw : Filter ws filter) (hs : Semicolon ss)
    (hn : 4 * us.length + 2 ≤ n) (hrest : nextType rest = .eof) :
    parseStatement n (us ++ rest) = .ok (.select items name filter, rest) := by
  obtain ⟨t₁, us₁, rfl, h₁, -, hus₁⟩ := exists_map_eq_cons hus
  obtain ⟨us₂, us₃, rfl, rfl, hus₃⟩ := List.map_eq_append_iff.1 hus₁
  obtain ⟨t₂, us₄, rfl, h₂, -, hus₄⟩ := exists_map_eq_cons hus₃
  obtain ⟨t₃, us₅, rfl, h₃, rfl, hus₅⟩ := exists_map_eq_cons hus₄
  obtain ⟨us₆, semi, rfl, rfl, rfl⟩ := List.map_eq_append_iff.1 hus₅
  simp only [List.length_cons, List.length_append] at hn
  have hlist : parseSelectList n (us₂ ++ t₂ :: t₃ :: (us₆ ++ (semi ++ rest)))
      = .ok (items, t₂ :: t₃ :: (us₆ ++ (semi ++ rest))) :=
    parseSelectList_append hi (by omega) h₂
  simp only [List.cons_append, List.append_assoc]
  rw [parseStatement, peek_bind_cons, h₁]
  dsimp only
  rw [parseSelect, bind_apply (expect_ok h₁), bind_apply hlist,
    bind_apply (expect_ok h₂), bind_apply (expect_ok h₃),
    bind_apply (parseFilter_append hw (by omega) (nextType_end hs hrest)), end_append hs hrest]

theorem update_append {assignments : List Assignment} {filter : Expr}
    (hus : us.map Token.word = (.update, a) :: (.ident, name) :: (.set, b) ::
      (vs ++ (.where, c) :: (ws ++ ss)))
    (ha : SepBy IsComma AssignmentOf vs assignments) (hw : Derives .expr ws filter)
    (hs : Semicolon ss) (hn : 4 * us.length + 2 ≤ n) (hrest : nextType rest = .eof) :
    parseStatement n (us ++ rest) = .ok (.update name assignments (some filter), rest) := by
  obtain ⟨t₁, us₁, rfl, h₁, -, hus₁⟩ := exists_map_eq_cons hus
  obtain ⟨t₂, us₂, rfl, h₂, rfl, hus₂⟩ := exists_map_eq_cons hus₁
  obtain ⟨t₃, us₃, rfl, h₃, -, hus₃⟩ := exists_map_eq_cons hus₂
  obtain ⟨us₄, us₅, rfl, rfl, hus₅⟩ := List.map_eq_append_iff.1 hus₃
  obtain ⟨t₄, us₆, rfl, h₄, -, hus₆⟩ := exists_map_eq_cons hus₅
  obtain ⟨us₇, semi, rfl, rfl, rfl⟩ := List.map_eq_append_iff.1 hus₆
  simp only [List.length_cons, List.length_append] at hn
  have hnext : nextType (t₄ :: (us₇ ++ (semi ++ rest))) = .where := h₄
  have hlist : commaSeparated n (parseAssignment n) (us₄ ++ t₄ :: (us₇ ++ (semi ++ rest)))
      = .ok (assignments, t₄ :: (us₇ ++ (semi ++ rest))) :=
    commaSeparated_append ha
      (fun vs col rest' hvs hlen hrest' => parseAssignment_append hvs (by omega) hrest')
      (by rw [hnext]; decide) (by rw [hnext]; decide) (by omega)
  simp only [List.cons_append, List.append_assoc]
  rw [parseStatement, peek_bind_cons, h₁]
  dsimp only
  rw [parseUpdate, bind_apply (expect_ok h₁), bind_apply (expect_ok h₂), bind_apply (expect_ok h₃),
    bind_apply hlist, bind_apply (expect_ok h₄),
    bind_apply (parseExpr_append hw (by omega) (closing_end hs hrest)), end_append hs hrest]

theorem delete_append {filter : Expr}
    (hus : us.map Token.word = (.delete, a) :: (.from, b) :: (.ident, name) :: (.where, c) ::
      (ws ++ ss))
    (hw : Derives .expr ws filter) (hs : Semicolon ss) (hn : 4 * us.length + 2 ≤ n)
    (hrest : nextType rest = .eof) :
    parseStatement n (us ++ rest) = .ok (.delete name (some filter), rest) := by
  obtain ⟨t₁, us₁, rfl, h₁, -, hus₁⟩ := exists_map_eq_cons hus
  obtain ⟨t₂, us₂, rfl, h₂, -, hus₂⟩ := exists_map_eq_cons hus₁
  obtain ⟨t₃, us₃, rfl, h₃, rfl, hus₃⟩ := exists_map_eq_cons hus₂
  obtain ⟨t₄, us₄, rfl, h₄, -, hus₄⟩ := exists_map_eq_cons hus₃
  obtain ⟨us₅, semi, rfl, rfl, rfl⟩ := List.map_eq_append_iff.1 hus₄
  simp only [List.length_cons, List.length_append] at hn
  simp only [List.cons_append, List.append_assoc]
  rw [parseStatement, peek_bind_cons, h₁]
  dsimp only
  rw [parseDelete, bind_apply (expect_ok h₁), bind_apply (expect_ok h₂), bind_apply (expect_ok h₃),
    bind_apply (expect_ok h₄), bind_apply (parseExpr_append hw (by omega) (closing_end hs hrest)),
    end_append hs hrest]

end Statements

/-- A statement is taken whole if the end of the text follows it. -/
theorem parseStatement_append {ws : List Word} {stmt : Statement} (h : Accepted ws stmt)
    (hus : us.map Token.word = ws) (hn : 4 * us.length + 2 ≤ n) (hrest : nextType rest = .eof) :
    parseStatement n (us ++ rest) = .ok (stmt, rest) := by
  cases h with
  | createTable hc hs => exact createTable_append hus hc hs hn hrest
  | insert hc hv hs => exact insert_append hus hc hv hs hn hrest
  | select hi hw hs => exact select_append hus hi hw hs hn hrest
  | update ha hw hs => exact update_append hus ha hw hs hn hrest
  | delete hw hs => exact delete_append hus hw hs hn hrest

end Whole

end Doki.Sql
