import Mathlib.Data.List.TakeWhile
import Mathlib.Tactic.SplitIfs
import Doki.Lib.Json.Scanner

/-!
# Tokens

The lexer of the SQL front end. It cuts a text, a sequence of bytes, into
tokens. Blanks and comments, from `--` to the end of the line, separate them. A
token remembers its position, which only the texts of errors use. Its type and
its literal make a *word*, the unit of the grammar.

The main loop is bounded by the number of bytes: every round takes at least one
(`lex_ne_exhausted`, in `Doki.Sql.Layout`).

* `Lexical`: the words that can be written in a text, and `Word.render` how they are;
* `Ends`: where a token ends, as the next byte would not go on with it;
* `lexToken_eq_ok_iff`: the token that is taken from a text. It is a lexical word, the text
  begins as the word is written, and the token ends there.
-/

namespace Doki.Sql

open Json (Bytes isDigit newline)

/-- The bytes of a text. -/
def bytes (s : String) : Bytes := s.toUTF8.data.toList

/-! ### Token types -/

inductive TokenType
  | select
  | insert
  | update
  | delete
  | create
  | table
  | from
  | where
  | into
  | values
  | set
  | primary
  | key
  | int
  | text
  | bool
  | not
  | null
  | and
  | or
  | true
  | false
  | ident
  | number
  | string
  | lparen
  | rparen
  | comma
  | semicolon
  | eq
  | neq
  | lt
  | gt
  | lte
  | gte
  | star
  | eof
  deriving DecidableEq, Repr

namespace TokenType

/-- The name of a token type, which for punctuation is how it is written. -/
def name : TokenType → String
  | select => "SELECT"
  | insert => "INSERT"
  | update => "UPDATE"
  | delete => "DELETE"
  | create => "CREATE"
  | table => "TABLE"
  | .from => "FROM"
  | .where => "WHERE"
  | into => "INTO"
  | values => "VALUES"
  | set => "SET"
  | primary => "PRIMARY"
  | key => "KEY"
  | int => "INT"
  | text => "TEXT"
  | bool => "BOOL"
  | not => "NOT"
  | null => "NULL"
  | and => "AND"
  | or => "OR"
  | .true => "TRUE"
  | .false => "FALSE"
  | ident => "IDENT"
  | number => "NUMBER"
  | string => "STRING"
  | lparen => "("
  | rparen => ")"
  | comma => ","
  | semicolon => ";"
  | eq => "="
  | neq => "!="
  | lt => "<"
  | gt => ">"
  | lte => "<="
  | gte => ">="
  | star => "*"
  | eof => "EOF"

end TokenType

/-- The keywords, in lower case. -/
def keywords : List (String × TokenType) :=
  [("select", .select), ("insert", .insert), ("update", .update), ("delete", .delete),
    ("create", .create), ("table", .table), ("from", .from), ("where", .where), ("into", .into),
    ("values", .values), ("set", .set), ("primary", .primary), ("key", .key), ("int", .int),
    ("text", .text), ("bool", .bool), ("not", .not), ("null", .null), ("and", .and), ("or", .or),
    ("true", .true), ("false", .false)]

structure Token where
  type : TokenType
  literal : Bytes
  pos : ℕ
  deriving DecidableEq, Repr

/-- What the grammar sees of a token. -/
abbrev Word := TokenType × Bytes

def Token.word (t : Token) : Word := (t.type, t.literal)

/-! ### The lexer -/

def isLetter (ch : UInt8) : Bool :=
  (0x61 ≤ ch && ch ≤ 0x7a) || (0x41 ≤ ch && ch ≤ 0x5a) || ch == 0x5f

def isLetterOrDigit (ch : UInt8) : Bool := isLetter ch || isDigit ch

abbrev quote : UInt8 := 0x27

inductive LexError
  | unterminated (start : ℕ)
  | unexpected (ch : UInt8) (pos : ℕ)
  /-- Never returned. -/
  | exhausted
  deriving DecidableEq, Repr

/-- The text of the error; `q` quotes a byte, as `%q` does. -/
def LexError.message (q : UInt8 → String) : LexError → String
  | unterminated start => s!"unterminated string literal starting at position {start}"
  | unexpected ch pos => "unexpected character " ++ q ch ++ s!" at position {pos}"
  | exhausted => ""

/-- The text behind blanks and comments; `comment` says whether it begins in one. -/
def skip : (comment : Bool) → Bytes → Bytes
  | _, [] => []
  | true, ch :: rest => if ch = newline then skip false rest else skip true rest
  | false, ch :: rest =>
    if Json.isSpace ch then skip false rest
    else if ch = 0x2d ∧ rest.head? = some 0x2d then skip true rest
    else ch :: rest

def skipWhitespaceAndComments (text : Bytes) : Bytes := skip false text

def toLower (ch : UInt8) : UInt8 := if 0x41 ≤ ch && ch ≤ 0x5a then ch + 0x20 else ch

/-- The keyword that is spelled like this, in any case. -/
def keyword (literal : Bytes) : Option TokenType :=
  (keywords.find? fun k => bytes k.1 = literal.map toLower).map Prod.snd

def lexIdentOrKeyword (start : ℕ) (text : Bytes) : Token × Bytes :=
  let literal := text.takeWhile isLetterOrDigit
  (⟨(keyword literal).getD .ident, literal, start⟩, text.dropWhile isLetterOrDigit)

def lexNumber (start : ℕ) (text : Bytes) : Token × Bytes :=
  (⟨.number, text.takeWhile isDigit, start⟩, text.dropWhile isDigit)

/-- A string from behind its opening quote, and what follows its closing one. -/
def unquote : Bytes → Option (Bytes × Bytes)
  | [] => none
  | ch :: rest =>
    if ch = quote then
      match rest with
      | [] => some ([], [])
      | ch' :: rest' =>
        if ch' = quote then (unquote rest').map fun x => (quote :: x.1, x.2)
        else some ([], ch' :: rest')
    else (unquote rest).map fun x => (ch :: x.1, x.2)

def lexString (start : ℕ) (text : Bytes) : Except LexError (Token × Bytes) :=
  match unquote text with
  | some (literal, rest) => .ok (⟨.string, literal, start⟩, rest)
  | none => .error (.unterminated start)

/-- The tokens of one byte. -/
def punctuations : List (UInt8 × TokenType) :=
  [(0x28, .lparen), (0x29, .rparen), (0x2c, .comma), (0x3b, .semicolon), (0x2a, .star),
    (0x3d, .eq)]

/-- The tokens of two bytes, of which the second is `=`, and of the first alone. -/
def operators : List (UInt8 × TokenType × Option TokenType) :=
  [(0x21, .neq, none), (0x3c, .lte, some .lt), (0x3e, .gte, some .gt)]

def lexOperator (start : ℕ) (ch : UInt8) (rest : Bytes) : Except LexError (Token × Bytes) :=
  match operators.lookup ch with
  | none => .error (.unexpected ch start)
  | some (long, short) =>
    if rest.head? = some 0x3d then .ok (⟨long, [ch, 0x3d], start⟩, rest.tail)
    else
      match short with
      | some short => .ok (⟨short, [ch], start⟩, rest)
      | none => .error (.unexpected ch start)

/-- The token that begins with `ch`, and what follows it. -/
def lexToken (start : ℕ) (ch : UInt8) (rest : Bytes) : Except LexError (Token × Bytes) :=
  if isLetter ch then .ok (lexIdentOrKeyword start (ch :: rest))
  else if isDigit ch then .ok (lexNumber start (ch :: rest))
  else if ch = quote then lexString start rest
  else
    match punctuations.lookup ch with
    | some tt => .ok (⟨tt, [ch], start⟩, rest)
    | none => lexOperator start ch rest

/-- The tokens of the end `text` of an input of the given size, in at most the
    given number of rounds. -/
def lexLoop (size : ℕ) : ℕ → Bytes → Except LexError (List Token)
  | 0, _ => .error .exhausted
  | n + 1, text =>
    match skipWhitespaceAndComments text with
    | [] => .ok [⟨.eof, [], size⟩]
    | ch :: rest =>
      match lexToken (size - (rest.length + 1)) ch rest with
      | .error e => .error e
      | .ok (tok, rest') => (lexLoop size n rest').map (tok :: ·)

def lex (input : Bytes) : Except LexError (List Token) :=
  lexLoop input.length (input.length + 1) input

example : lex (bytes "x <= 'it''s' -- y") = .ok
    [⟨.ident, bytes "x", 0⟩, ⟨.lte, bytes "<=", 2⟩, ⟨.string, bytes "it's", 5⟩,
      ⟨.eof, [], 17⟩] := by
  decide +kernel

/-! ### The words of a text -/

/-- A name: an identifier that is no keyword. -/
def IsName (s : Bytes) : Prop :=
  s.head?.any isLetter = true ∧ s.all isLetterOrDigit = true ∧ keyword s = none

instance (s : Bytes) : Decidable (IsName s) :=
  inferInstanceAs (Decidable (_ ∧ _ ∧ _))

/-- The words that tokens of a text have, except its end. -/
inductive Lexical : Word → Prop
  | name {s : Bytes} (h : IsName s) : Lexical (.ident, s)
  | keyword {s : Bytes} {tt : TokenType} (hs : s.head?.any isLetter = true)
      (ha : s.all isLetterOrDigit = true) (h : keyword s = some tt) : Lexical (tt, s)
  | number {s : Bytes} (hs : s ≠ []) (ha : s.all isDigit = true) : Lexical (.number, s)
  | string (s : Bytes) : Lexical (.string, s)
  | punctuation {ch : UInt8} {tt : TokenType} (h : (ch, tt) ∈ punctuations) : Lexical (tt, [ch])
  | long {ch : UInt8} {tt : TokenType} {short : Option TokenType}
      (h : (ch, tt, short) ∈ operators) : Lexical (tt, [ch, 0x3d])
  | short {ch : UInt8} {tt long : TokenType} (h : (ch, long, some tt) ∈ operators) :
      Lexical (tt, [ch])

theorem keyword_ne {s : Bytes} {tt : TokenType} (h : keyword s = some tt) :
    tt ≠ .ident ∧ tt ≠ .number ∧ tt ≠ .string ∧ tt ≠ .eof := by
  have hall : ∀ k ∈ keywords, k.2 ≠ .ident ∧ k.2 ≠ .number ∧ k.2 ≠ .string ∧ k.2 ≠ .eof := by
    decide
  obtain ⟨k, hk, rfl⟩ := Option.map_eq_some_iff.1 h
  exact hall k (List.mem_of_find?_eq_some hk)

theorem mem_of_lookup {α : Type} {l : List (UInt8 × α)} {ch : UInt8} {a : α}
    (h : l.lookup ch = some a) : (ch, a) ∈ l := by
  obtain ⟨l₁, l₂, rfl, -⟩ := List.lookup_eq_some_iff.1 h
  simp

theorem Lexical.type_ne_eof {w : Word} (h : Lexical w) : w.1 ≠ .eof := by
  have hp : ∀ x ∈ punctuations, x.2 ≠ .eof := by decide
  have ho : ∀ x ∈ operators, x.2.1 ≠ .eof ∧ x.2.2 ≠ some .eof := by decide
  cases h with
  | name | number | string => exact TokenType.noConfusion
  | keyword _ _ h => exact (keyword_ne h).2.2.2
  | punctuation h => exact hp _ h
  | long h => exact (ho _ h).1
  | short h => exact fun htt => (ho _ h).2 (congrArg some htt)

theorem Lexical.isName {s : Bytes} (h : Lexical (.ident, s)) : IsName s := by
  generalize hw : ((.ident, s) : Word) = w at h
  cases h with
  | name h =>
    cases hw
    exact h
  | keyword _ _ h =>
    cases hw
    exact absurd rfl (keyword_ne h).1
  | number => cases hw
  | string => cases hw
  | punctuation h =>
    cases hw
    simp [punctuations] at h
  | long h =>
    cases hw
    simp [operators] at h
  | short h =>
    cases hw
    simp [operators] at h

theorem lexToken_ne_exhausted (start : ℕ) (ch : UInt8) (rest : Bytes) :
    lexToken start ch rest ≠ .error .exhausted := by
  rw [lexToken]
  split_ifs
  · exact nofun
  · exact nofun
  · rw [lexString]
    split <;> exact nofun
  · split
    · exact nofun
    · rw [lexOperator]
      split
      · exact nofun
      · split_ifs
        · exact nofun
        · split <;> exact nofun

/-! ### Written words -/

/-- The inside of a string literal, with its quotes doubled. -/
def double (s : Bytes) : Bytes := s.flatMap fun ch => if ch = quote then [quote, quote] else [ch]

def Word.render (w : Word) : Bytes :=
  if w.1 = .string then quote :: (double w.2 ++ [quote]) else w.2

theorem Word.render_of_ne {w : Word} (h : w.1 ≠ .string) : w.render = w.2 := if_neg h

/-- The byte after a token of this type would still belong to it: a letter or digit after an
    identifier or a keyword, a digit after a number, a second quote after a string, and `=`
    after `<` or `>`. -/
def TokenType.continues (tt : TokenType) (ch : UInt8) : Bool :=
  if tt = .number then isDigit ch
  else if tt = .string then ch = quote
  else if tt = .lt ∨ tt = .gt then ch = 0x3d
  else if tt = .ident ∨ tt ∈ keywords.map Prod.snd then isLetterOrDigit ch
  else Bool.false

/-- A token of this type ends before `rest`. -/
def Ends (tt : TokenType) (rest : Bytes) : Prop := ∀ ch ∈ rest.head?, tt.continues ch = false

theorem continues_keyword {s : Bytes} (ch : UInt8) :
    ((keyword s).getD .ident).continues ch = isLetterOrDigit ch := by
  have hall : ∀ tt ∈ .ident :: keywords.map Prod.snd,
      tt ≠ .number ∧ tt ≠ .string ∧ ¬(tt = .lt ∨ tt = .gt) := by decide
  have hmem : (keyword s).getD .ident ∈ .ident :: keywords.map Prod.snd := by
    cases htt : keyword s with
    | none => exact List.mem_cons_self
    | some tt =>
      obtain ⟨k, hk, rfl⟩ := Option.map_eq_some_iff.1 htt
      exact List.mem_cons_of_mem _ (List.mem_map_of_mem (List.mem_of_find?_eq_some hk))
  obtain ⟨hnumber, hstring, hshort⟩ := hall _ hmem
  rw [TokenType.continues, if_neg hnumber, if_neg hstring, if_neg hshort,
    if_pos (List.mem_cons.1 hmem)]

/-- The types whose tokens no byte goes on with. -/
def TokenType.IsFixed (tt : TokenType) : Prop :=
  tt ≠ .number ∧ tt ≠ .string ∧ ¬(tt = .lt ∨ tt = .gt) ∧
    ¬(tt = .ident ∨ tt ∈ keywords.map Prod.snd)

instance (tt : TokenType) : Decidable tt.IsFixed := inferInstanceAs (Decidable (_ ∧ _ ∧ _ ∧ _))

theorem ends_of_isFixed {tt : TokenType} (h : tt.IsFixed) (rest : Bytes) : Ends tt rest := by
  intro ch _
  rw [TokenType.continues, if_neg h.1, if_neg h.2.1, if_neg h.2.2.1, if_neg h.2.2.2]

theorem forall_head_ne_iff {o : Option UInt8} {b : UInt8} :
    (∀ ch ∈ o, decide (ch = b) = false) ↔ o ≠ some b := by
  cases o <;> simp

/-- A string ends before what is no quote. -/
theorem ends_string_iff {rest : Bytes} : Ends .string rest ↔ rest.head? ≠ some quote :=
  forall_head_ne_iff

/-- The tokens `<` and `>` end before what is no `=`. -/
theorem ends_short_iff {tt : TokenType} (h : tt = .lt ∨ tt = .gt) {rest : Bytes} :
    Ends tt rest ↔ rest.head? ≠ some 0x3d := by
  rcases h with rfl | rfl
  · exact forall_head_ne_iff
  · exact forall_head_ne_iff

theorem ne_string_of_short {tt : TokenType} (h : tt = .lt ∨ tt = .gt) : tt ≠ .string := by
  rcases h with rfl | rfl <;> exact TokenType.noConfusion

/-- No token goes on with a blank. -/
theorem continues_blank (tt : TokenType) : tt.continues 0x20 = false := by
  rw [TokenType.continues]
  split_ifs <;> rfl

/-! ### The token at the beginning of a text -/

/-- A run of bytes of a class, and what follows. -/
theorem takeWhile_append_ends {q : UInt8 → Bool} {s rest : Bytes} (hs : s.all q = true)
    (hrest : ∀ ch ∈ rest.head?, q ch = false) :
    (s ++ rest).takeWhile q = s ∧ (s ++ rest).dropWhile q = rest := by
  have hall := List.all_eq_true.1 hs
  rw [List.takeWhile_append_of_pos hall, List.dropWhile_append_of_pos hall]
  cases rest with
  | nil => exact ⟨List.append_nil s, rfl⟩
  | cons ch rest =>
    have hch : ¬q ch = true := by simp [hrest ch rfl]
    rw [List.takeWhile_cons_of_neg hch, List.dropWhile_cons_of_neg hch]
    exact ⟨List.append_nil s, rfl⟩

/-- A run of bytes of a class is as long as it can be. -/
theorem head?_dropWhile {q : UInt8 → Bool} {text : Bytes} :
    ∀ ch ∈ (text.dropWhile q).head?, q ch = false := by
  intro ch hch
  have := List.head?_dropWhile_not q text
  rwa [Option.mem_def.1 hch] at this

theorem double_cons (ch : UInt8) (s : Bytes) :
    double (ch :: s) = (if ch = quote then [quote, quote] else [ch]) ++ double s := rfl

theorem unquote_double (s : Bytes) {rest : Bytes} (h : rest.head? ≠ some quote) :
    unquote (double s ++ quote :: rest) = some (s, rest) := by
  induction s with
  | nil =>
    cases rest with
    | nil => rfl
    | cons ch rest =>
      have hch : ch ≠ quote := fun hch => h (congrArg some hch)
      change unquote (quote :: ch :: rest) = _
      rw [unquote.eq_def]
      simp only [if_true, if_neg hch]
  | cons ch s ih =>
    rw [double_cons]
    split_ifs with hch
    · change unquote (quote :: quote :: (double s ++ quote :: rest)) = _
      rw [unquote.eq_def]
      simp only [if_true, ih, hch, Option.map_some]
    · change unquote (ch :: (double s ++ quote :: rest)) = _
      rw [unquote.eq_def]
      simp only [hch, if_false, ih, Option.map_some]

/-- What a string literal is, from behind its opening quote. -/
theorem unquote_eq_some_iff {text s rest : Bytes} :
    unquote text = some (s, rest) ↔
      text = double s ++ quote :: rest ∧ rest.head? ≠ some quote := by
  constructor
  · intro h
    fun_induction unquote text generalizing s rest with
    | case1 => cases h
    | case2 =>
      cases h
      exact ⟨rfl, by simp⟩
    | case3 rest' ih =>
      obtain ⟨x, hx, hx'⟩ := Option.map_eq_some_iff.1 h
      cases hx'
      obtain ⟨rfl, hhead⟩ := ih hx
      exact ⟨rfl, hhead⟩
    | case4 ch rest' hch =>
      cases h
      exact ⟨rfl, fun hhead => hch (Option.some.inj hhead)⟩
    | case5 ch rest' hch ih =>
      obtain ⟨x, hx, hx'⟩ := Option.map_eq_some_iff.1 h
      cases hx'
      obtain ⟨rfl, hhead⟩ := ih hx
      rw [double_cons, if_neg hch]
      exact ⟨rfl, hhead⟩
  · rintro ⟨rfl, h⟩
    exact unquote_double s h

theorem isLetter_of_isDigit {ch : UInt8} (h : isDigit ch = true) : isLetter ch = false := by
  simp only [isDigit, Bool.and_eq_true, decide_eq_true_eq, UInt8.le_iff_toNat_le,
    UInt8.reduceToNat] at h
  simp only [isLetter, Bool.or_eq_false_iff, Bool.and_eq_false_iff, decide_eq_false_iff_not,
    UInt8.le_iff_toNat_le, beq_eq_false_iff_ne, ne_eq, ← UInt8.toNat_inj, UInt8.reduceToNat]
  omega

theorem lexToken_punctuation {ch : UInt8} {tt : TokenType} (h : (ch, tt) ∈ punctuations) (start : ℕ)
    (rest : Bytes) : lexToken start ch rest = .ok (⟨tt, [ch], start⟩, rest) := by
  have hall : ∀ x ∈ punctuations, isLetter x.1 = false ∧ isDigit x.1 = false ∧ x.1 ≠ quote ∧
      punctuations.lookup x.1 = some x.2 := by decide
  obtain ⟨hl, hd, hq, hlook⟩ := hall _ h
  dsimp only at hl hd hq hlook
  simp only [lexToken, hl, hd, hq, hlook, Bool.false_eq_true, if_false]

/-- An operator goes to its branch of the switch. -/
theorem lexToken_operator {ch : UInt8} {x : TokenType × Option TokenType}
    (h : (ch, x) ∈ operators) (start : ℕ) (rest : Bytes) :
    lexToken start ch rest = lexOperator start ch rest ∧ operators.lookup ch = some x := by
  have hall : ∀ x ∈ operators, isLetter x.1 = false ∧ isDigit x.1 = false ∧ x.1 ≠ quote ∧
      punctuations.lookup x.1 = none ∧ operators.lookup x.1 = some x.2 := by decide
  obtain ⟨hl, hd, hq, hp, hlook⟩ := hall _ h
  dsimp only at hl hd hq hp hlook
  exact ⟨by simp only [lexToken, hl, hd, hq, hp, Bool.false_eq_true, if_false], hlook⟩

/-- The token `tok` is taken from the beginning of `text`, and `rest` is left. -/
structure Taken (start : ℕ) (text : Bytes) (tok : Token) (rest : Bytes) : Prop where
  lexical : Lexical tok.word
  pos : tok.pos = start
  text_eq : text = tok.word.render ++ rest
  ends : Ends tok.type rest

section Taken

variable {start : ℕ} {ch : UInt8} {text rest : Bytes} {tok : Token}

theorem lexical_lexIdentOrKeyword (h : isLetter ch = true) :
    Lexical (lexIdentOrKeyword start (ch :: text)).1.word := by
  have hall : ((ch :: text).takeWhile isLetterOrDigit).all isLetterOrDigit = true :=
    List.all_eq_true.2 fun b hb => List.mem_takeWhile_imp hb
  have hhead : ((ch :: text).takeWhile isLetterOrDigit).head?.any isLetter = true := by
    rw [List.takeWhile_cons_of_pos (by simp [isLetterOrDigit, h])]
    exact h
  change Lexical ((keyword _).getD .ident, _)
  cases hk : keyword ((ch :: text).takeWhile isLetterOrDigit) with
  | none => exact .name ⟨hhead, hall, hk⟩
  | some tt => exact .keyword hhead hall hk

theorem lexIdentOrKeyword_ne_string (start : ℕ) (text : Bytes) :
    (lexIdentOrKeyword start text).1.word.1 ≠ .string := by
  change (keyword _).getD .ident ≠ .string
  cases hk : keyword (text.takeWhile isLetterOrDigit) with
  | none => exact TokenType.noConfusion
  | some tt => exact (keyword_ne hk).2.2.1

theorem taken_lexIdentOrKeyword (h : isLetter ch = true) :
    Taken start (ch :: text) (lexIdentOrKeyword start (ch :: text)).1
      (lexIdentOrKeyword start (ch :: text)).2 where
  lexical := lexical_lexIdentOrKeyword h
  pos := rfl
  text_eq := by
    rw [Word.render_of_ne (lexIdentOrKeyword_ne_string start _)]
    exact (List.takeWhile_append_dropWhile).symm
  ends ch hch := (continues_keyword ch).trans (head?_dropWhile ch hch)

theorem taken_lexNumber (h : isDigit ch = true) :
    Taken start (ch :: text) (lexNumber start (ch :: text)).1 (lexNumber start (ch :: text)).2 where
  lexical := by
    refine .number ?_ (List.all_eq_true.2 fun b hb => List.mem_takeWhile_imp hb)
    change (ch :: text).takeWhile isDigit ≠ []
    rw [List.takeWhile_cons_of_pos h]
    exact List.cons_ne_nil _ _
  pos := rfl
  text_eq := (List.takeWhile_append_dropWhile).symm
  ends := head?_dropWhile

theorem taken_lexString (h : lexString start text = .ok (tok, rest)) :
    Taken start (quote :: text) tok rest := by
  rw [lexString] at h
  split at h
  case h_2 => cases h
  case h_1 literal rest' hu =>
    obtain ⟨rfl, rfl⟩ := Prod.mk.inj (Except.ok.inj h)
    obtain ⟨rfl, hhead⟩ := unquote_eq_some_iff.1 hu
    refine ⟨.string literal, rfl, ?_, ends_string_iff.2 hhead⟩
    change _ = quote :: (double literal ++ [quote]) ++ rest'
    rw [List.cons_append, List.append_assoc, List.singleton_append]

/-- The punctuation and the tokens of two bytes. -/
theorem fixed_tokens : ∀ tt ∈ punctuations.map Prod.snd ++ operators.map (·.2.1), tt.IsFixed := by
  decide

theorem taken_punctuation {tt : TokenType} (h : (ch, tt) ∈ punctuations) :
    Taken start (ch :: text) ⟨tt, [ch], start⟩ text := by
  have hfixed := fixed_tokens tt (List.mem_append_left _ (List.mem_map_of_mem h))
  refine ⟨.punctuation h, rfl, ?_, ends_of_isFixed hfixed text⟩
  rw [Word.render_of_ne hfixed.2.1]
  rfl

/-- The operators that may go on are `<` and `>`. -/
theorem short_tokens : ∀ x ∈ operators, ∀ tt ∈ x.2.2, tt = .lt ∨ tt = .gt := by decide

theorem taken_lexOperator (h : lexOperator start ch text = .ok (tok, rest)) :
    Taken start (ch :: text) tok rest := by
  rw [lexOperator] at h
  split at h
  case h_1 => cases h
  case h_2 long short ho =>
    have hmem := mem_of_lookup ho
    split_ifs at h with heq
    · obtain ⟨rfl, rfl⟩ := Prod.mk.inj (Except.ok.inj h)
      have hfixed := fixed_tokens long (List.mem_append_right _ (List.mem_map_of_mem hmem))
      refine ⟨.long hmem, rfl, ?_, ends_of_isFixed hfixed _⟩
      obtain ⟨text', rfl⟩ := List.head?_eq_some_iff.1 heq
      rw [Word.render_of_ne hfixed.2.1]
      rfl
    · cases short with
      | none => cases h
      | some short =>
        obtain ⟨rfl, rfl⟩ := Prod.mk.inj (Except.ok.inj h)
        have hshort := short_tokens _ hmem short rfl
        refine ⟨.short hmem, rfl, ?_, (ends_short_iff hshort).2 heq⟩
        rw [Word.render_of_ne (ne_string_of_short hshort)]
        rfl

/-- What is taken from a text. -/
theorem taken_of_lexToken (h : lexToken start ch text = .ok (tok, rest)) :
    Taken start (ch :: text) tok rest := by
  rw [lexToken] at h
  split_ifs at h with hl hd hq
  · obtain ⟨rfl, rfl⟩ := Prod.mk.inj (Except.ok.inj h)
    exact taken_lexIdentOrKeyword hl
  · obtain ⟨rfl, rfl⟩ := Prod.mk.inj (Except.ok.inj h)
    exact taken_lexNumber hd
  · exact hq ▸ taken_lexString h
  · split at h
    case h_1 tt hp =>
      obtain ⟨rfl, rfl⟩ := Prod.mk.inj (Except.ok.inj h)
      exact taken_punctuation (mem_of_lookup hp)
    case h_2 => exact taken_lexOperator h

theorem lexToken_name {s : Bytes} (hs : s.head?.any isLetter = true)
    (ha : s.all isLetterOrDigit = true) (hrest : ∀ ch ∈ rest.head?, isLetterOrDigit ch = false)
    (htext : ch :: text = s ++ rest) :
    lexToken start ch text = .ok (⟨(keyword s).getD .ident, s, start⟩, rest) := by
  obtain ⟨htake, hdrop⟩ := takeWhile_append_ends ha hrest
  rw [← htext] at htake hdrop
  have hch : isLetter ch = true := by
    cases s with
    | nil => cases hs
    | cons ch' s => exact (List.cons.inj htext).1 ▸ hs
  rw [lexToken, if_pos hch, lexIdentOrKeyword, htake, hdrop]

theorem lexToken_number {s : Bytes} (hs : s ≠ []) (ha : s.all isDigit = true)
    (hrest : ∀ ch ∈ rest.head?, isDigit ch = false) (htext : ch :: text = s ++ rest) :
    lexToken start ch text = .ok (⟨.number, s, start⟩, rest) := by
  obtain ⟨htake, hdrop⟩ := takeWhile_append_ends ha hrest
  rw [← htext] at htake hdrop
  have hch : isDigit ch = true := by
    cases s with
    | nil => exact absurd rfl hs
    | cons ch' s =>
      rw [(List.cons.inj htext).1]
      exact List.all_eq_true.1 ha ch' List.mem_cons_self
  rw [lexToken, isLetter_of_isDigit hch, if_neg Bool.false_ne_true, if_pos hch, lexNumber, htake,
    hdrop]

theorem lexToken_string {s : Bytes} (hrest : rest.head? ≠ some quote)
    (htext : ch :: text = quote :: (double s ++ [quote]) ++ rest) :
    lexToken start ch text = .ok (⟨.string, s, start⟩, rest) := by
  rw [List.cons_append, List.append_assoc, List.singleton_append] at htext
  obtain ⟨rfl, rfl⟩ := List.cons.inj htext
  change lexString start _ = _
  rw [lexString, unquote_double s hrest]

/-- The token at the beginning of a text is found. -/
theorem Taken.lexToken_eq (h : Taken start (ch :: text) tok rest) :
    lexToken start ch text = .ok (tok, rest) := by
  obtain ⟨tt, s, pos⟩ := tok
  obtain ⟨hlex, rfl, htext, hends⟩ := h
  change Lexical (tt, s) at hlex
  change ch :: text = Word.render (tt, s) ++ rest at htext
  cases hlex with
  | name h =>
    rw [lexToken_name h.1 h.2.1 hends htext, h.2.2]
    rfl
  | keyword hs ha h =>
    rw [Word.render_of_ne (keyword_ne h).2.2.1] at htext
    have hletters : ∀ ch ∈ rest.head?, isLetterOrDigit ch = false := fun ch hch => by
      rw [← continues_keyword (s := s), h]
      exact hends ch hch
    rw [lexToken_name hs ha hletters htext, h]
    rfl
  | number hs ha => exact lexToken_number hs ha hends htext
  | string => exact lexToken_string (ends_string_iff.1 hends) htext
  | punctuation h =>
    rw [Word.render_of_ne (fixed_tokens tt (List.mem_append_left _ (List.mem_map_of_mem h))).2.1]
      at htext
    obtain ⟨rfl, rfl⟩ := List.cons.inj htext
    exact lexToken_punctuation h pos text
  | long h =>
    rw [Word.render_of_ne (fixed_tokens tt (List.mem_append_right _ (List.mem_map_of_mem h))).2.1]
      at htext
    obtain ⟨rfl, rfl⟩ := List.cons.inj htext
    obtain ⟨heq, hlook⟩ := lexToken_operator h pos (0x3d :: rest)
    refine heq.trans ?_
    rw [lexOperator, hlook]
    exact if_pos rfl
  | short h =>
    have hshort := short_tokens _ h tt rfl
    rw [Word.render_of_ne (ne_string_of_short hshort)] at htext
    obtain ⟨rfl, rfl⟩ := List.cons.inj htext
    obtain ⟨heq, hlook⟩ := lexToken_operator h pos text
    refine heq.trans ?_
    rw [lexOperator, hlook]
    exact if_neg ((ends_short_iff hshort).1 hends)

/-- The token that is taken from a text. -/
theorem lexToken_eq_ok_iff :
    lexToken start ch text = .ok (tok, rest) ↔ Taken start (ch :: text) tok rest :=
  ⟨taken_of_lexToken, Taken.lexToken_eq⟩

end Taken

end Doki.Sql
