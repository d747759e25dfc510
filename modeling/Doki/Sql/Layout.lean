import Doki.Lib.Excepts
import Doki.Sql.Lexer

/-!
# The layout of a text

What the lexer makes of a text, seen from the text. Between its tokens there are blanks and
comments (`Gap`), and the bytes of each token are those of its word as it is written, the
quotes and the doubled quotes of a string included. `Laid` says that tokens lie in a text
like this, each of them at its position and as long as it can be. These are the tokens that
the lexer finds, so nothing of a text is lost but the gaps.

* `lex_eq_ok_iff`: the tokens of a text are those that lie in it, and its end;
* `lex_write`: lexical words written with a blank between any two are read back;
* `Laid.disjoint`, `Laid.split`, `Laid.skipped`: where the tokens are in the text, and what
  is between them;
* `lex_lossless`: all of this, as the positions and the bytes of an input tell it.
-/

namespace Doki.Sql

open Json (Bytes isDigit newline)

/-! ### Gaps -/

/-- Blanks and comments before `rest`. A comment ends with its line, or with the text. -/
inductive Gap (rest : Bytes) : Bytes → Prop
  | nil : Gap rest []
  | blank {ch : UInt8} {gap : Bytes} (hch : Json.isSpace ch = true) (h : Gap rest gap) :
      Gap rest (ch :: gap)
  | comment {line gap : Bytes} (hline : newline ∉ line) (h : Gap rest gap) :
      Gap rest (0x2d :: 0x2d :: (line ++ newline :: gap))
  | last {line : Bytes} (hline : newline ∉ line) (hrest : rest = []) :
      Gap rest (0x2d :: 0x2d :: line)

/-- A byte that begins a token: no blank, and no beginning of a comment. -/
def Solid (ch : UInt8) : Prop := Json.isSpace ch = false ∧ ch ≠ 0x2d

instance (ch : UInt8) : Decidable (Solid ch) := inferInstanceAs (Decidable (_ ∧ _))

theorem skip_solid {ch : UInt8} (h : Solid ch) (rest : Bytes) :
    skip false (ch :: rest) = ch :: rest := by
  simp only [skip, h.1, h.2, false_and, Bool.false_eq_true, if_false]

/-- A comment is skipped up to the end of its line. -/
theorem skip_line {line : Bytes} (h : newline ∉ line) (text : Bytes) :
    skip true (line ++ newline :: text) = skip false text := by
  induction line with
  | nil => simp only [List.nil_append, skip, if_true]
  | cons ch line ih =>
    have hch := Ne.symm (List.ne_of_not_mem_cons h)
    rw [List.cons_append, skip, if_neg hch, ih (List.not_mem_of_not_mem_cons h)]

theorem skip_lastLine {line : Bytes} (h : newline ∉ line) : skip true line = [] := by
  induction line with
  | nil => rfl
  | cons ch line ih =>
    have hch := Ne.symm (List.ne_of_not_mem_cons h)
    rw [skip, if_neg hch, ih (List.not_mem_of_not_mem_cons h)]

theorem skip_comment (text : Bytes) : skip false (0x2d :: 0x2d :: text) = skip true text := by
  rw [skip, if_neg (by decide), if_pos ⟨rfl, rfl⟩, skip, if_neg (by decide)]

/-- A gap is skipped. -/
theorem Gap.skip_append {rest gap : Bytes} (h : Gap rest gap)
    (hrest : ∀ ch ∈ rest.head?, Solid ch) : skip false (gap ++ rest) = rest := by
  induction h with
  | nil =>
    cases rest with
    | nil => rfl
    | cons ch rest => exact skip_solid (hrest ch rfl) rest
  | blank hch h ih => rw [List.cons_append, skip, if_pos hch, ih]
  | comment hline h ih =>
    rw [List.cons_append, List.cons_append, skip_comment, List.append_assoc, List.cons_append,
      skip_line hline, ih]
  | last hline hnil =>
    subst hnil
    rw [List.append_nil, skip_comment, skip_lastLine hline]

/-- The first line of a text. -/
theorem exists_line (text : Bytes) :
    newline ∉ text ∨ ∃ line text', newline ∉ line ∧ text = line ++ newline :: text' := by
  by_cases h : newline ∈ text
  · obtain ⟨line, text', htext, hline⟩ := List.eq_append_cons_of_mem h
    exact .inr ⟨line, text', hline, htext⟩
  · exact .inl h

/-- What is skipped is a gap. -/
theorem exists_gap (text : Bytes) :
    ∃ gap, text = gap ++ skip false text ∧ Gap (skip false text) gap := by
  -- The induction is on the length, as a comment is skipped as a whole.
  induction hn : text.length using Nat.strong_induction_on generalizing text with
  | _ n ih =>
    subst hn
    cases text with
    | nil => exact ⟨[], rfl, .nil⟩
    | cons ch text =>
      rw [skip]
      split_ifs with hch hcomment
      · obtain ⟨gap, htext, hgap⟩ := ih _ (Nat.lt_succ_self _) text rfl
        exact ⟨ch :: gap, congrArg (ch :: ·) htext, .blank hch hgap⟩
      · obtain ⟨rfl, hhead⟩ := hcomment
        obtain ⟨text, rfl⟩ := List.head?_eq_some_iff.1 hhead
        rw [skip, if_neg (by decide)]
        rcases exists_line text with hline | ⟨line, text', hline, rfl⟩
        · rw [skip_lastLine hline]
          exact ⟨_, (List.append_nil _).symm, .last hline rfl⟩
        · rw [skip_line hline]
          obtain ⟨gap, htext, hgap⟩ := ih text'.length (by simp; omega) text' rfl
          refine ⟨_, ?_, .comment hline hgap⟩
          simp only [List.cons_append, List.append_assoc, ← htext]
      · exact ⟨[], rfl, .nil⟩

/-! ### Tokens in a text -/

/-- Where a token ends: behind its word, as it is written. -/
def Token.stop (t : Token) : ℕ := t.pos + t.word.render.length

/-- How tokens lie in the end `text` of an input, which begins at the position `start`. -/
inductive Laid : ℕ → Bytes → List Token → Prop
  | eof {start : ℕ} {gap : Bytes} (h : Gap [] gap) : Laid start gap []
  | token {start : ℕ} {gap rest : Bytes} {tok : Token} {toks : List Token}
      (hgap : Gap (tok.word.render ++ rest) gap) (hword : Lexical tok.word)
      (hpos : tok.pos = start + gap.length) (hends : Ends tok.type rest)
      (h : Laid tok.stop rest toks) :
      Laid start (gap ++ (tok.word.render ++ rest)) (tok :: toks)

theorem solid_of_isLetterOrDigit {ch : UInt8} (h : isLetterOrDigit ch = true) : Solid ch := by
  constructor
  · by_contra hs
    simp only [Bool.not_eq_false, Json.isSpace, Bool.or_eq_true, beq_iff_eq] at hs
    rcases hs with ((rfl | rfl) | rfl) | rfl <;> cases h
  · rintro rfl
    cases h

/-- A written word begins with a byte that is not skipped. -/
theorem Lexical.render_eq_cons {w : Word} (h : Lexical w) :
    ∃ ch s, w.render = ch :: s ∧ Solid ch := by
  have hp : ∀ x ∈ punctuations, x.2 ≠ .string ∧ Solid x.1 := by decide
  have ho : ∀ x ∈ operators, x.2.1 ≠ .string ∧ x.2.2 ≠ some .string ∧ Solid x.1 := by decide
  have hclass : ∀ {s : Bytes}, s ≠ [] → s.all isLetterOrDigit = true → ∃ ch s', s = ch :: s' ∧
      Solid ch := by
    intro s hs ha
    obtain ⟨ch, s', rfl⟩ := List.exists_cons_of_ne_nil hs
    exact ⟨ch, s', rfl, solid_of_isLetterOrDigit (List.all_eq_true.1 ha ch List.mem_cons_self)⟩
  have hletter : ∀ {s : Bytes}, s.head?.any isLetter = true → s ≠ [] := by
    rintro s hs rfl
    cases hs
  cases h with
  | name h => exact hclass (hletter h.1) h.2.1
  | keyword hs ha h =>
    rw [Word.render_of_ne (keyword_ne h).2.2.1]
    exact hclass (hletter hs) ha
  | number hs ha =>
    refine hclass hs (List.all_eq_true.2 fun ch hch => ?_)
    rw [isLetterOrDigit, List.all_eq_true.1 ha ch hch, Bool.or_true]
  | string s => exact ⟨quote, _, rfl, by decide⟩
  | punctuation h => exact ⟨_, _, Word.render_of_ne (hp _ h).1, (hp _ h).2⟩
  | long h => exact ⟨_, _, Word.render_of_ne (ho _ h).1, (ho _ h).2.2⟩
  | short h =>
    exact ⟨_, _, Word.render_of_ne fun htt => (ho _ h).2.1 (congrArg some htt), (ho _ h).2.2⟩

theorem Lexical.pos_lt_stop {t : Token} (h : Lexical t.word) : t.pos < t.stop := by
  obtain ⟨ch, s, hrender, -⟩ := h.render_eq_cons
  rw [Token.stop, hrender]
  exact Nat.lt_add_of_pos_right (Nat.succ_pos _)

/-- The tokens of the loop lie in the text. -/
theorem laid_of_lexLoop {size n start : ℕ} {text : Bytes} {toks : List Token}
    (h : lexLoop size n text = .ok toks) (hsize : start + text.length = size) :
    ∃ body, toks = body ++ [⟨.eof, [], size⟩] ∧ Laid start text body := by
  induction n generalizing start text toks with
  | zero => cases h
  | succ n ih =>
    obtain ⟨gap, htext, hgap⟩ := exists_gap text
    rw [lexLoop, skipWhitespaceAndComments] at h
    cases hs : skip false text with
    | nil =>
      rw [hs] at h hgap htext
      cases h
      rw [List.append_nil] at htext
      exact ⟨[], rfl, htext ▸ .eof hgap⟩
    | cons ch rest =>
      rw [hs] at h hgap htext
      dsimp only at h
      cases ht : lexToken (size - (rest.length + 1)) ch rest with
      | error e =>
        rw [ht] at h
        cases h
      | ok x =>
        obtain ⟨tok, rest'⟩ := x
        rw [ht] at h
        obtain ⟨toks', htoks', rfl⟩ := Except.map_eq_ok_iff.1 h
        obtain ⟨hword, hpos, hrest, hends⟩ := lexToken_eq_ok_iff.1 ht
        have hlen := congrArg List.length htext
        have hlen' := congrArg List.length hrest
        rw [List.length_append, List.length_cons] at hlen hlen'
        have hstop : tok.stop + rest'.length = size := by
          rw [Token.stop]
          omega
        obtain ⟨body, rfl, hlaid⟩ := ih htoks' hstop
        rw [hrest] at hgap htext
        exact ⟨tok :: body, rfl, htext ▸ .token hgap hword (by omega) hends hlaid⟩

/-- The tokens that lie in a text are found. -/
theorem Laid.lexLoop_eq {start : ℕ} {text : Bytes} {body : List Token} (h : Laid start text body)
    {size n : ℕ} (hn : text.length < n) (hsize : start + text.length = size) :
    lexLoop size n text = .ok (body ++ [⟨.eof, [], size⟩]) := by
  induction h generalizing n with
  | eof hgap =>
    obtain ⟨n, rfl⟩ := Nat.exists_eq_succ_of_ne_zero (Nat.ne_zero_of_lt hn)
    have hskip := hgap.skip_append (by simp)
    rw [List.append_nil] at hskip
    rw [lexLoop, skipWhitespaceAndComments, hskip]
    rfl
  | @token start gap rest tok toks hgap hword hpos hends h ih =>
    obtain ⟨n, rfl⟩ := Nat.exists_eq_succ_of_ne_zero (Nat.ne_zero_of_lt hn)
    obtain ⟨ch, s, hrender, hsolid⟩ := hword.render_eq_cons
    rw [List.length_append, List.length_append] at hn hsize
    have hlen := congrArg List.length hrender
    rw [List.length_cons] at hlen
    have htaken : Taken (size - ((s ++ rest).length + 1)) (ch :: (s ++ rest)) tok rest :=
      ⟨hword, by rw [List.length_append]; omega, by rw [hrender]; rfl, hends⟩
    have hskip : skip false (gap ++ (tok.word.render ++ rest)) = ch :: (s ++ rest) := by
      rw [hgap.skip_append, hrender, List.cons_append]
      rw [hrender]
      rintro ch' ⟨⟩
      exact hsolid
    rw [lexLoop, skipWhitespaceAndComments, hskip]
    dsimp only
    rw [htaken.lexToken_eq]
    dsimp only
    rw [ih (by omega) (by rw [Token.stop]; omega)]
    rfl

/-- The loop has enough rounds. -/
theorem lexLoop_ne_exhausted (size : ℕ) {n : ℕ} {text : Bytes} (hn : text.length < n) :
    lexLoop size n text ≠ .error .exhausted := by
  induction n generalizing text with
  | zero => exact absurd hn (Nat.not_lt_zero _)
  | succ n ih =>
    obtain ⟨gap, htext, -⟩ := exists_gap text
    have hlen := congrArg List.length htext
    rw [lexLoop, skipWhitespaceAndComments]
    cases hs : skip false text with
    | nil => rintro ⟨⟩
    | cons ch rest =>
      rw [hs, List.length_append, List.length_cons] at hlen
      dsimp only
      cases ht : lexToken (size - (rest.length + 1)) ch rest with
      | error e =>
        rintro ⟨⟩
        exact lexToken_ne_exhausted _ ch rest ht
      | ok x =>
        obtain ⟨hword, -, hrest, -⟩ := lexToken_eq_ok_iff.1 ht
        obtain ⟨ch', s, hrender, -⟩ := hword.render_eq_cons
        have hlen' := congrArg List.length hrest
        rw [hrender, List.length_append, List.length_cons, List.length_cons] at hlen'
        have hrounds := @ih x.2 (by omega)
        dsimp only
        cases hl : lexLoop size n x.2 with
        | error e =>
          rintro ⟨⟩
          exact hrounds hl
        | ok toks => rintro ⟨⟩

theorem lex_ne_exhausted (input : Bytes) : lex input ≠ .error .exhausted :=
  lexLoop_ne_exhausted input.length (Nat.lt_succ_self _)

/-- The tokens of a text are those that lie in it, and its end. -/
theorem lex_eq_ok_iff {input : Bytes} {toks : List Token} :
    lex input = .ok toks ↔
      ∃ body, toks = body ++ [⟨.eof, [], input.length⟩] ∧ Laid 0 input body := by
  constructor
  · exact fun h => laid_of_lexLoop h (Nat.zero_add _)
  · rintro ⟨body, rfl, h⟩
    exact h.lexLoop_eq (Nat.lt_succ_self _) (Nat.zero_add _)

theorem Laid.lexical {start : ℕ} {text : Bytes} {body : List Token} (h : Laid start text body) :
    ∀ t ∈ body, Lexical t.word := by
  induction h with
  | eof => simp
  | token hgap hword hpos hends h ih => exact List.forall_mem_cons.2 ⟨hword, ih⟩

/-- The tokens of a text are lexical words, and the end of the text. -/
theorem lex_eq_ok {input : Bytes} {toks : List Token} (h : lex input = .ok toks) :
    ∃ body, toks = body ++ [⟨.eof, [], input.length⟩] ∧ ∀ t ∈ body, Lexical t.word := by
  obtain ⟨body, htoks, hlaid⟩ := lex_eq_ok_iff.1 h
  exact ⟨body, htoks, hlaid.lexical⟩

/-! ### Writing words -/

/-- Words with a blank between any two. -/
def write : List Word → Bytes
  | [] => []
  | [w] => w.render
  | w :: w' :: ws => w.render ++ 0x20 :: write (w' :: ws)

/-- What may follow a written word: nothing, or a blank. -/
def Separated (rest : Bytes) : Prop := rest = [] ∨ ∃ rest', rest = 0x20 :: rest'

theorem Separated.ends {rest : Bytes} (h : Separated rest) (tt : TokenType) : Ends tt rest := by
  rcases h with rfl | ⟨rest', rfl⟩
  · rintro ch ⟨⟩
  · rintro ch ⟨⟩
    exact continues_blank tt

/-- What follows the first of some words is separated from it. -/
theorem exists_write_cons (w : Word) (ws : List Word) :
    ∃ gap, write (w :: ws) = w.render ++ (gap ++ write ws) ∧ Separated (gap ++ write ws) ∧
      ∀ rest, Gap rest gap := by
  cases ws with
  | nil => exact ⟨[], (List.append_nil _).symm, .inl rfl, fun _ => .nil⟩
  | cons w' ws => exact ⟨[0x20], rfl, .inr ⟨_, rfl⟩, fun _ => .blank rfl .nil⟩

/-- Lexical words lie in the text that they are written as, behind a gap. -/
theorem laid_write {ws : List Word} (hws : ∀ w ∈ ws, Lexical w) (start : ℕ) {gap : Bytes}
    (hgap : ∀ rest, Gap rest gap) :
    ∃ toks, Laid start (gap ++ write ws) toks ∧ toks.map Token.word = ws := by
  induction ws generalizing start gap with
  | nil =>
    refine ⟨[], ?_, rfl⟩
    rw [write, List.append_nil]
    exact .eof (hgap [])
  | cons w ws ih =>
    obtain ⟨gap', hwrite, hrest, hgap'⟩ := exists_write_cons w ws
    obtain ⟨hword, hws⟩ := List.forall_mem_cons.1 hws
    obtain ⟨toks, hlaid, hmap⟩ := ih hws (Token.stop ⟨w.1, w.2, start + gap.length⟩) hgap'
    refine ⟨⟨w.1, w.2, start + gap.length⟩ :: toks, ?_, congrArg (w :: ·) hmap⟩
    rw [hwrite]
    exact @Laid.token start gap _ ⟨w.1, w.2, start + gap.length⟩ toks (hgap _) hword rfl
      (hrest.ends w.1) hlaid

/-- Lexical words written with a blank between any two are read back. -/
theorem lex_write {ws : List Word} (hws : ∀ w ∈ ws, Lexical w) :
    ∃ toks, lex (write ws) = .ok toks ∧ toks.map Token.word = ws ++ [(.eof, [])] := by
  obtain ⟨body, hlaid, hmap⟩ := laid_write hws 0 fun _ => .nil
  refine ⟨_, lex_eq_ok_iff.2 ⟨body, rfl, hlaid⟩, ?_⟩
  rw [List.map_append, hmap]
  rfl

/-! ### Positions -/

/-- The position is in no token. -/
def Outside (body : List Token) (i : ℕ) : Prop := ∀ t ∈ body, ¬(t.pos ≤ i ∧ i < t.stop)

/-- The byte at the position `i` is a blank, or in a comment: two dashes stand before it, not
    before `start`, and from there on there is neither the end of a line nor a token. -/
def Skipped (input : Bytes) (body : List Token) (start i : ℕ) : Prop :=
  input[i]?.any Json.isSpace = true ∨
    ∃ j, start ≤ j ∧ j ≤ i ∧ input[j]? = some 0x2d ∧ input[j + 1]? = some 0x2d ∧
      ∀ k, j ≤ k → k ≤ i → input[k]? ≠ some newline ∧ Outside body k

theorem getElem?_append_add {before : Bytes} {n : ℕ} (hn : before.length = n) (text : Bytes)
    (k : ℕ) : (before ++ text)[n + k]? = text[k]? := by
  rw [List.getElem?_append_right (hn ▸ Nat.le_add_right _ _), hn, Nat.add_sub_cancel_left]

/-- What is skipped in a part of an input without tokens is skipped in the input. -/
theorem Skipped.embed {gap input : Bytes} {body : List Token} {start n i : ℕ}
    (h : Skipped gap [] 0 i) (hi : i < gap.length) (hstart : start ≤ n)
    (hinput : ∀ k < gap.length, input[n + k]? = gap[k]?)
    (hout : ∀ k < gap.length, Outside body (n + k)) : Skipped input body start (n + i) := by
  rcases h with hblank | ⟨j, -, hji, hdash, hdash', hline⟩
  · exact .inl (by rwa [hinput i hi])
  · have hj : j + 1 < gap.length := (List.getElem?_eq_some_iff.1 hdash').1
    refine .inr ⟨n + j, by omega, by omega, by rwa [hinput j (by omega)], ?_, ?_⟩
    · rwa [Nat.add_assoc, hinput (j + 1) hj]
    · intro k hjk hki
      obtain ⟨k, rfl⟩ := Nat.exists_eq_add_of_le (show n ≤ k by omega)
      rw [hinput k (by omega)]
      exact ⟨(hline k (by omega) (by omega)).1, hout k (by omega)⟩

/-- What is skipped behind a token. -/
theorem Skipped.cons {input : Bytes} {tok : Token} {body : List Token} {start i : ℕ}
    (h : Skipped input body tok.stop i) (hstart : start ≤ tok.stop) :
    Skipped input (tok :: body) start i := by
  rcases h with hblank | ⟨j, hj, hji, hdash, hdash', hline⟩
  · exact .inl hblank
  · refine .inr ⟨j, hstart.trans hj, hji, hdash, hdash', fun k hjk hki => ?_⟩
    obtain ⟨hnewline, hout⟩ := hline k hjk hki
    exact ⟨hnewline, List.forall_mem_cons.2 ⟨by omega, hout⟩⟩

/-- The dashes of a comment and its line are skipped. -/
theorem skipped_line {line : Bytes} (hline : newline ∉ line) (text : Bytes) {i : ℕ}
    (hi : i < line.length + 2) : Skipped (0x2d :: 0x2d :: (line ++ text)) [] 0 i := by
  refine .inr ⟨0, le_rfl, Nat.zero_le i, rfl, rfl, fun k _ hki => ⟨?_, by simp [Outside]⟩⟩
  rcases k with _ | _ | k
  · exact fun h => absurd (Option.some.inj h) (by decide)
  · exact fun h => absurd (Option.some.inj h) (by decide)
  · rw [List.getElem?_cons_succ, List.getElem?_cons_succ, List.getElem?_append_left (by omega)]
    exact fun h => hline (List.mem_of_getElem? h)

theorem Gap.skipped {rest gap : Bytes} (h : Gap rest gap) {i : ℕ} (hi : i < gap.length) :
    Skipped gap [] 0 i := by
  have hout : ∀ k, Outside [] k := by simp [Outside]
  induction h generalizing i with
  | nil => exact absurd hi (Nat.not_lt_zero i)
  | @blank ch gap hch h ih =>
    cases i with
    | zero => exact .inl hch
    | succ i =>
      have hi : i < gap.length := Nat.lt_of_succ_lt_succ hi
      rw [Nat.add_comm i]
      exact (ih hi).embed hi (Nat.zero_le 1)
        (fun k _ => @getElem?_append_add [ch] 1 rfl gap k) fun k _ => hout _
  | @comment line gap hline h ih =>
    rcases Nat.lt_trichotomy i (line.length + 2) with hlt | rfl | hlt
    · exact skipped_line hline _ hlt
    · refine .inl ?_
      rw [List.getElem?_cons_succ, List.getElem?_cons_succ, List.getElem?_append_right le_rfl,
        Nat.sub_self]
      rfl
    · have hsplit : 0x2d :: 0x2d :: (line ++ newline :: gap) =
          0x2d :: 0x2d :: (line ++ [newline]) ++ gap := by simp
      obtain ⟨i, rfl⟩ := Nat.exists_eq_add_of_le hlt
      rw [hsplit] at hi ⊢
      simp only [List.length_append, List.length_cons, List.length_nil] at hi
      exact (ih (i := i) (by omega)).embed (by omega) (Nat.zero_le _)
        (fun k _ => getElem?_append_add (by simp) gap k) fun k _ => hout _
  | last hline hrest =>
    have := skipped_line hline [] hi
    rwa [List.append_nil] at this

section Laid

variable {start : ℕ} {text : Bytes} {body : List Token}

theorem Laid.bounds (h : Laid start text body) :
    ∀ t ∈ body, start ≤ t.pos ∧ t.stop ≤ start + text.length := by
  induction h with
  | eof => simp
  | @token start gap rest tok toks hgap hword hpos hends h ih =>
    rw [List.length_append, List.length_append]
    have hstop : tok.stop = tok.pos + tok.word.render.length := rfl
    refine List.forall_mem_cons.2 ⟨⟨by omega, by omega⟩, fun t ht => ?_⟩
    have := ih t ht
    exact ⟨by omega, by omega⟩

/-- The tokens of a text do not overlap. -/
theorem Laid.disjoint (h : Laid start text body) :
    body.Pairwise fun a b => a.stop ≤ b.pos := by
  induction h with
  | eof => exact .nil
  | token hgap hword hpos hends h ih =>
    exact List.pairwise_cons.2 ⟨fun t ht => (h.bounds t ht).1, ih⟩

/-- A token of the text `before ++ text`: the bytes at its position are its word. -/
theorem Laid.split (h : Laid start text body) (before : Bytes) (hbefore : before.length = start)
    {t : Token} (ht : t ∈ body) :
    ∃ left right, before ++ text = left ++ (t.word.render ++ right) ∧ left.length = t.pos ∧
      Ends t.type right := by
  induction h generalizing before with
  | eof => cases ht
  | @token start gap rest tok toks hgap hword hpos hends h ih =>
    rcases List.mem_cons.1 ht with rfl | ht
    · refine ⟨before ++ gap, rest, (List.append_assoc _ _ _).symm, ?_, hends⟩
      rw [List.length_append, hbefore, hpos]
    · have hinput : before ++ (gap ++ (tok.word.render ++ rest)) =
          before ++ gap ++ tok.word.render ++ rest := by
        simp only [List.append_assoc]
      rw [hinput]
      refine ih _ ?_ ht
      rw [List.length_append, List.length_append, hbefore, ← hpos, Token.stop]

/-- What is between the tokens of the text `before ++ text`. -/
theorem Laid.skipped (h : Laid start text body) (before : Bytes) (hbefore : before.length = start)
    {i : ℕ} (hle : start ≤ i) (hlt : i < start + text.length) (hi : Outside body i) :
    Skipped (before ++ text) body start i := by
  induction h generalizing before with
  | @eof start gap hgap =>
    obtain ⟨i, rfl⟩ := Nat.exists_eq_add_of_le hle
    have hi : i < gap.length := Nat.lt_of_add_lt_add_left hlt
    exact (hgap.skipped hi).embed hi le_rfl (fun k _ => getElem?_append_add hbefore gap k)
      fun k _ => by simp [Outside]
  | @token start gap rest tok toks hgap hword hpos hends h ih =>
    have hstop := hword.pos_lt_stop
    rcases Nat.lt_or_ge i (start + gap.length) with hgapi | hgapi
    · obtain ⟨i, rfl⟩ := Nat.exists_eq_add_of_le hle
      have hi : i < gap.length := Nat.lt_of_add_lt_add_left hgapi
      refine (hgap.skipped hi).embed hi le_rfl (fun k hk => ?_) fun k hk => ?_
      · rw [getElem?_append_add hbefore, List.getElem?_append_left hk]
      · -- No token begins in the gap.
        refine List.forall_mem_cons.2 ⟨by omega, fun t ht => ?_⟩
        have := (h.bounds t ht).1
        omega
    · obtain ⟨htok, htoks⟩ := List.forall_mem_cons.1 hi
      have hinput : before ++ (gap ++ (tok.word.render ++ rest)) =
          before ++ gap ++ tok.word.render ++ rest := by
        simp only [List.append_assoc]
      have hlen : tok.stop = tok.pos + tok.word.render.length := rfl
      rw [List.length_append, List.length_append] at hlt
      rw [hinput]
      refine Skipped.cons (ih _ ?_ (by omega) (by omega) htoks) (by omega)
      rw [List.length_append, List.length_append, hbefore, ← hpos, Token.stop]

/-- How tokens cover an input. The span of a token goes from its position to `Token.stop`. -/
structure Lossless (input : Bytes) (body : List Token) : Prop where
  lexical : ∀ t ∈ body, Lexical t.word
  type_ne_eof : ∀ t ∈ body, t.type ≠ .eof
  pos_lt_stop : ∀ t ∈ body, t.pos < t.stop
  stop_le : ∀ t ∈ body, t.stop ≤ input.length
  disjoint : body.Pairwise fun a b => a.stop ≤ b.pos
  skipped : ∀ i < input.length, Outside body i → Skipped input body 0 i
  literal : ∀ t ∈ body, t.type ≠ .string → input.extract t.pos t.stop = t.literal
  string : ∀ t ∈ body, t.type = .string →
    input.extract t.pos t.stop = quote :: (double t.literal ++ [quote])
  maximal : ∀ t ∈ body, ∀ ch, input[t.stop]? = some ch → t.type.continues ch = false

/-- The span of a token has the bytes of its word, and the token ends there. -/
theorem Laid.extract {input : Bytes} (h : Laid 0 input body) {t : Token} (ht : t ∈ body) :
    input.extract t.pos t.stop = t.word.render ∧
      ∀ ch, input[t.stop]? = some ch → t.type.continues ch = false := by
  obtain ⟨left, right, hinput, hleft, hends⟩ := h.split [] rfl ht
  rw [List.nil_append] at hinput
  subst hinput
  constructor
  · change ((left ++ (t.word.render ++ right)).drop t.pos).take (t.stop - t.pos) = _
    rw [← hleft, List.drop_left, Token.stop, ← hleft, Nat.add_sub_cancel_left, List.take_left]
  · intro ch hch
    rw [Token.stop, getElem?_append_add hleft, List.getElem?_append_right le_rfl, Nat.sub_self,
      ← List.head?_eq_getElem?] at hch
    exact hends ch hch

theorem Laid.lossless {input : Bytes} (h : Laid 0 input body) : Lossless input body where
  lexical := h.lexical
  type_ne_eof t ht := (h.lexical t ht).type_ne_eof
  pos_lt_stop t ht := (h.lexical t ht).pos_lt_stop
  stop_le t ht := (h.bounds t ht).2.trans (Nat.zero_add _).le
  disjoint := h.disjoint
  skipped i hi hout := h.skipped [] rfl (Nat.zero_le i) ((Nat.zero_add _).symm ▸ hi) hout
  literal _ ht htt := (h.extract ht).1.trans (Word.render_of_ne htt)
  string _ ht htt := (h.extract ht).1.trans (if_pos htt)
  maximal _ ht := (h.extract ht).2

end Laid

/-- The tokens of an input have increasing positions and end with the end of the input; the
    others cover it, but for its blanks and comments. -/
theorem lex_lossless {input : Bytes} {toks : List Token} (h : lex input = .ok toks) :
    (toks.map Token.pos).Pairwise (· < ·) ∧
      ∃ body, toks = body ++ [⟨.eof, [], input.length⟩] ∧ Lossless input body := by
  obtain ⟨body, rfl, hlaid⟩ := lex_eq_ok_iff.1 h
  have hlossless := hlaid.lossless
  refine ⟨?_, body, rfl, hlossless⟩
  rw [List.map_append, List.pairwise_append, List.pairwise_map]
  refine ⟨hlossless.disjoint.imp_of_mem fun ha _ hab => ?_, List.pairwise_singleton _ _, ?_⟩
  · exact (hlossless.pos_lt_stop _ ha).trans_le hab
  · intro a ha b hb
    obtain ⟨t, ht, rfl⟩ := List.mem_map.1 ha
    rw [List.map_singleton, List.mem_singleton] at hb
    rw [hb]
    exact (hlossless.pos_lt_stop t ht).trans_le (hlossless.stop_le t ht)

/-- A text with a comment, in which a number ends at a letter and an operator at a quote. -/
def exampleText : Bytes := bytes "SELECT a1,12b -- 'x'\n<='it''s'"

/-- Its tokens, but for its end. -/
def exampleTokens : List Token :=
  [⟨.select, bytes "SELECT", 0⟩, ⟨.ident, bytes "a1", 7⟩, ⟨.comma, bytes ",", 9⟩,
    ⟨.number, bytes "12", 10⟩, ⟨.ident, bytes "b", 12⟩, ⟨.lte, bytes "<=", 21⟩,
    ⟨.string, bytes "it's", 23⟩]

/-- The quotes of the comment begin no string. -/
theorem lex_lossless_exampleText :
    lex exampleText = .ok (exampleTokens ++ [⟨.eof, [], 30⟩]) ∧
      exampleTokens.map Token.stop = [6, 9, 10, 12, 13, 23, 30] ∧
      Lossless exampleText exampleTokens := by
  have hlex : lex exampleText = .ok (exampleTokens ++ [⟨.eof, [], 30⟩]) := by decide +kernel
  obtain ⟨-, body, hbody, hlossless⟩ := lex_lossless hlex
  have htokens : exampleTokens = body := List.append_inj_left' hbody rfl
  exact ⟨hlex, by decide +kernel, htokens ▸ hlossless⟩

end Doki.Sql
