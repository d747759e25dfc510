import Mathlib.Data.List.Forall2
import Mathlib.Tactic.IntervalCases
import Doki.Lib.Json.Encode

/-!
# Reading JSON

The values that a JSON text stands for, as Go's `encoding/json` reads a text that
`checkValid` accepts: numbers are kept as they are written, strings are unquoted.
A byte sequence that is not UTF-8, and half of a surrogate pair, become the
replacement character.

* `runes_utf8Encode`: characters survive being written as bytes;
* `parseString_encodeChars`: a written string is read back;
* `parse_writeObject`: so is a written object, from what its names and values are
  read as, which may be objects.
-/

namespace Json

/-! ### Strings -/

def hexValue (b : UInt8) : Option ℕ :=
  if isDigit b then some (b.toNat - 0x30)
  else if 0x61 ≤ b ∧ b ≤ 0x66 then some (b.toNat - 0x57)
  else if 0x41 ≤ b ∧ b ≤ 0x46 then some (b.toNat - 0x37)
  else none

/-- The four digits of a `\u` escape. -/
def getu4 : Bytes → Option (ℕ × Bytes)
  | a :: b :: c :: d :: rest => do
    let a ← hexValue a
    let b ← hexValue b
    let c ← hexValue c
    let d ← hexValue d
    some (((a * 16 + b) * 16 + c) * 16 + d, rest)
  | _ => none

def replacementChar : Char := '\ufffd'

/-- The second half of a surrogate pair. -/
def lowSurrogate : Bytes → Option (ℕ × Bytes)
  | b :: b' :: rest =>
    if b = backslash ∧ b' = 0x75 then
      (getu4 rest).filter fun x => 0xdc00 ≤ x.1 && x.1 < 0xe000
    else none
  | _ => none

/-- The character of a `\u` escape of number `u`, which may take a second escape. -/
def unicode (u : ℕ) (rest : Bytes) : Char × Bytes :=
  if u < 0xd800 ∨ 0xe000 ≤ u then (Char.ofNat u, rest)
  else if u < 0xdc00 then
    match lowSurrogate rest with
    | some (u', rest') => (Char.ofNat ((u - 0xd800) * 0x400 + (u' - 0xdc00) + 0x10000), rest')
    | none => (replacementChar, rest)
  else (replacementChar, rest)

/-- The characters that a backslash and a letter stand for. -/
def unescape (b : UInt8) : Option Char :=
  if b = 0x62 then some '\x08'
  else if b = 0x66 then some '\x0c'
  else if b = 0x6e then some '\n'
  else if b = 0x72 then some '\r'
  else if b = 0x74 then some '\t'
  else if b = backslash ∨ b = 0x2f ∨ b = quote then some (Char.ofNat b.toNat)
  else none

/-- The first character of a byte sequence, and what follows it. -/
def decodeRune (bs : Bytes) : Char × Bytes :=
  match bs.toByteArray.utf8DecodeChar? 0 with
  | some c => (c, bs.drop c.utf8Size)
  | none => (replacementChar, bs.drop 1)

/-- The character `c` in front of the string that is read from behind it. -/
def consChar (c : Char) (x : List Char × Bytes) : List Char × Bytes := (c :: x.1, x.2)

/-- A string from behind its opening quote, and what follows it. -/
def parseString : ℕ → Bytes → Option (List Char × Bytes)
  | 0, _ => none
  | _ + 1, [] => none
  | n + 1, b :: rest =>
    if b = quote then some ([], rest)
    else if b = backslash then
      match rest with
      | [] => none
      | b' :: rest =>
        if b' = 0x75 then
          (getu4 rest).bind fun (u, rest) =>
            (parseString n (unicode u rest).2).map (consChar (unicode u rest).1)
        else (unescape b').bind fun c => (parseString n rest).map (consChar c)
    else if b < 0x20 then none
    else if b < 0x80 then (parseString n rest).map (consChar (Char.ofNat b.toNat))
    else (parseString n (decodeRune (b :: rest)).2).map (consChar (decodeRune (b :: rest)).1)

theorem hexValue_hexDigit {n : ℕ} (hn : n < 16) : hexValue (hexDigit n) = some n := by
  interval_cases n <;> rfl

theorem getu4_hexDigit {a b c d : ℕ} (ha : a < 16) (hb : b < 16) (hc : c < 16) (hd : d < 16)
    (rest : Bytes) :
    getu4 (hexDigit a :: hexDigit b :: hexDigit c :: hexDigit d :: rest)
      = some (((a * 16 + b) * 16 + c) * 16 + d, rest) := by
  simp [getu4, hexValue_hexDigit, ha, hb, hc, hd]

theorem decodeRune_utf8EncodeChar (c : Char) (rest : Bytes) :
    decodeRune (String.utf8EncodeChar c ++ rest) = (c, rest) := by
  have h : (String.utf8EncodeChar c ++ rest).toByteArray.utf8DecodeChar? 0 = some c := by
    rw [List.toByteArray_append]
    exact ByteArray.utf8DecodeChar?_utf8EncodeChar_append
  rw [decodeRune, h]
  simp only [← String.length_utf8EncodeChar, List.drop_left]

/-- The characters of a byte sequence in `n` rounds, one replacement for each byte at
    which none starts. -/
def decodeRunes : ℕ → Bytes → List Char
  | n + 1, b :: bs => (decodeRune (b :: bs)).1 :: decodeRunes n (decodeRune (b :: bs)).2
  | _, _ => []

/-- The characters of a byte sequence, as a string of a document holds them. -/
def runes (bs : Bytes) : List Char := decodeRunes bs.length bs

def utf8Encode (cs : List Char) : Bytes := cs.flatMap String.utf8EncodeChar

theorem decodeRunes_utf8Encode (cs : List Char) {n : ℕ} (hn : (utf8Encode cs).length ≤ n) :
    decodeRunes n (utf8Encode cs) = cs := by
  induction cs generalizing n with
  | nil =>
    rw [utf8Encode, List.flatMap_nil]
    cases n <;> rfl
  | cons c cs ih =>
    have hcons : utf8Encode (c :: cs) = String.utf8EncodeChar c ++ utf8Encode cs :=
      List.flatMap_cons
    have hc : 0 < (String.utf8EncodeChar c).length := by
      rw [String.length_utf8EncodeChar]
      exact c.utf8Size_pos
    rw [hcons, List.length_append] at hn
    obtain ⟨n, rfl⟩ : ∃ m, n = m + 1 := ⟨n - 1, by omega⟩
    obtain ⟨b, bs, hbs⟩ : ∃ b bs, String.utf8EncodeChar c ++ utf8Encode cs = b :: bs :=
      List.exists_cons_of_length_pos (by rw [List.length_append]; omega)
    rw [hcons, hbs, decodeRunes, ← hbs, decodeRune_utf8EncodeChar, ih (by omega)]

/-- Characters survive being written and read back. -/
theorem runes_utf8Encode (cs : List Char) : runes (utf8Encode cs) = cs :=
  decodeRunes_utf8Encode cs le_rfl

/-- A `\u` escape below the surrogates. -/
theorem parseString_unicode {a b c d : ℕ} (ha : a < 13) (hb : b < 16) (hc : c < 16) (hd : d < 16)
    (n : ℕ) (rest : Bytes) :
    parseString (n + 1)
        (backslash :: 0x75 :: hexDigit a :: hexDigit b :: hexDigit c :: hexDigit d :: rest)
      = (parseString n rest).map (consChar (Char.ofNat (((a * 16 + b) * 16 + c) * 16 + d))) := by
  have hu : unicode (((a * 16 + b) * 16 + c) * 16 + d) rest
      = (Char.ofNat (((a * 16 + b) * 16 + c) * 16 + d), rest) := if_pos (by omega)
  change (getu4 _).bind _ = _
  rw [getu4_hexDigit (by omega) hb hc hd, Option.bind_some]
  simp only [hu]

/-- A character that is not escaped. -/
theorem parseString_utf8EncodeChar (n : ℕ) {c : Char} (h : 0x20 ≤ c.toNat) (hq : c ≠ '"')
    (hs : c ≠ '\\') (rest : Bytes) :
    parseString (n + 1) (String.utf8EncodeChar c ++ rest)
      = (parseString n rest).map (consChar c) := by
  have hplain := Scan.plain_of_mem_utf8EncodeChar h hq hs
  rcases lt_or_ge c.toNat 0x80 with hc | hc
  · have hto := Scan.toNat_ofNat_ascii hc
    have hlt : UInt8.ofNat c.toNat < 0x80 := by
      rw [UInt8.lt_iff_toNat_lt, hto]
      exact hc
    rw [Scan.utf8EncodeChar_ascii hc] at hplain ⊢
    obtain ⟨h₁, h₂, h₃⟩ := hplain _ (List.mem_singleton_self _)
    rw [List.singleton_append, parseString.eq_def]
    simp only [h₁, h₂, h₃, hlt, if_true, if_false]
    rw [hto, Char.ofNat_toNat]
  · have hdecode := decodeRune_utf8EncodeChar c rest
    have hhigh := Scan.le_of_mem_utf8EncodeChar hc
    cases henc : String.utf8EncodeChar c with
    | nil => exact absurd henc String.utf8EncodeChar_ne_nil
    | cons b bs =>
      rw [henc] at hplain hhigh hdecode
      obtain ⟨h₁, h₂, h₃⟩ := hplain b List.mem_cons_self
      have hge : ¬ b < 0x80 := UInt8.not_lt.2 (hhigh b List.mem_cons_self)
      rw [List.cons_append] at hdecode
      rw [List.cons_append, parseString.eq_def]
      simp only [h₁, h₂, h₃, hge, if_false, hdecode]

theorem parseString_written (n : ℕ) {c : Char} {w : Bytes} (h : Written c w) (rest : Bytes) :
    parseString (n + 1) (w ++ rest) = (parseString n rest).map (consChar c) := by
  cases h with
  | @letter b h =>
    have hletters : ∀ x ∈ escapeLetters, x.2 ≠ 0x75 ∧ unescape x.2 = some x.1 := by decide
    obtain ⟨hne, hc⟩ := hletters _ h
    change (if b = 0x75 then _ else (unescape b).bind _) = _
    rw [if_neg hne, hc, Option.bind_some]
    rfl
  | digits hp hq hr hs h =>
    have hdigits := parseString_unicode hp hq hr hs n rest
    rw [h, Char.ofNat_toNat] at hdigits
    exact hdigits
  | plain h hquote hbackslash => exact parseString_utf8EncodeChar n h hquote hbackslash rest

theorem parseString_encodeChar (n : ℕ) (c : Char) (rest : Bytes) :
    parseString (n + 1) (encodeChar c ++ rest) = (parseString n rest).map (consChar c) :=
  parseString_written n (written_encodeChar c) rest

theorem parseString_encodeChars (cs : List Char) (rest : Bytes) {n : ℕ} (hn : cs.length < n) :
    parseString n (encodeChars cs ++ quote :: rest) = some (cs, rest) := by
  induction cs generalizing n with
  | nil =>
    obtain ⟨n, rfl⟩ := Nat.exists_eq_add_of_lt hn
    rfl
  | cons c cs ih =>
    obtain ⟨n, rfl⟩ := Nat.exists_eq_succ_of_ne_zero (Nat.ne_zero_of_lt hn)
    rw [encodeChars, List.flatMap_cons, List.append_assoc, parseString_encodeChar]
    change Option.map _ (parseString n (encodeChars cs ++ quote :: rest)) = _
    rw [ih (Nat.lt_of_succ_lt_succ hn)]
    rfl

theorem Written.length_pos {c : Char} {w : Bytes} (h : Written c w) : 0 < w.length := by
  cases h with
  | letter | digits => exact Nat.succ_pos _
  | plain =>
    rw [String.length_utf8EncodeChar]
    exact c.utf8Size_pos

theorem length_le_encodeChars (cs : List Char) : cs.length ≤ (encodeChars cs).length := by
  induction cs with
  | nil => exact le_rfl
  | cons c cs ih =>
    have hpos := (written_encodeChar c).length_pos
    rw [encodeChars, List.flatMap_cons, List.length_append, List.length_cons, add_comm]
    exact Nat.add_le_add hpos ih

/-- A written string is read back, from behind its opening quote. -/
theorem parseString_string (s : String) (rest : Bytes) :
    parseString (encodeChars s.toList ++ quote :: rest).length
      (encodeChars s.toList ++ quote :: rest) = some (s.toList, rest) := by
  refine parseString_encodeChars s.toList rest ?_
  have h := length_le_encodeChars s.toList
  rw [List.length_append, List.length_cons]
  omega

/-! ### Values -/

/-- A JSON value. -/
inductive Value
  | null
  | bool (b : Bool)
  | number (literal : Bytes)
  | string (s : String)
  | array (vs : List Value)
  | object (ms : List (String × Value))

def skipSpace (bs : Bytes) : Bytes := bs.dropWhile isSpace

/-- The text behind the byte `c`, which comes next. -/
def expectByte (c : UInt8) (bs : Bytes) : Option Bytes :=
  match skipSpace bs with
  | [] => none
  | b :: rest => if b = c then some rest else none

def isNumberByte (c : UInt8) : Bool :=
  isDigit c || c == 0x2e || c == 0x65 || c == 0x45 || c == 0x2b || c == 0x2d

mutual

/-- A value, and what follows it. -/
def parseValue : ℕ → Bytes → Option (Value × Bytes)
  | 0, _ => none
  | n + 1, bs =>
    match skipSpace bs with
    | [] => none
    | b :: rest =>
      if b = quote then do
        let (cs, rest) ← parseString rest.length rest
        some (.string (String.ofList cs), rest)
      else if b = lbrace then
        match expectByte rbrace rest with
        | some rest => some (.object [], rest)
        | none => do
          let (ms, rest) ← parseMembers n rest
          some (.object ms, rest)
      else if b = lbracket then
        match expectByte rbracket rest with
        | some rest => some (.array [], rest)
        | none => do
          let (vs, rest) ← parseElements n rest
          some (.array vs, rest)
      else if b = 0x74 then some (.bool true, rest.drop 3)
      else if b = 0x66 then some (.bool false, rest.drop 4)
      else if b = 0x6e then some (.null, rest.drop 3)
      else some (.number ((b :: rest).takeWhile isNumberByte), (b :: rest).dropWhile isNumberByte)

/-- The elements of an array up to its end. -/
def parseElements : ℕ → Bytes → Option (List Value × Bytes)
  | 0, _ => none
  | n + 1, bs => do
    let (v, rest) ← parseValue n bs
    match expectByte comma rest with
    | some rest => do
      let (vs, rest) ← parseElements n rest
      some (v :: vs, rest)
    | none => do
      let rest ← expectByte rbracket rest
      some ([v], rest)

/-- The members of an object up to its end. -/
def parseMembers : ℕ → Bytes → Option (List (String × Value) × Bytes)
  | 0, _ => none
  | n + 1, bs => do
    let rest ← expectByte quote bs
    let (cs, rest) ← parseString rest.length rest
    let rest ← expectByte colon rest
    let (v, rest) ← parseValue n rest
    match expectByte comma rest with
    | some rest => do
      let (ms, rest) ← parseMembers n rest
      some ((String.ofList cs, v) :: ms, rest)
    | none => do
      let rest ← expectByte rbrace rest
      some ([(String.ofList cs, v)], rest)

end

/-- The value of a text that `checkValid` accepts. -/
def parse (bs : Bytes) : Option Value :=
  if checkValid bs then (parseValue (bs.length + 1) bs).map Prod.fst else none

theorem skipSpace_cons {b : UInt8} (h : isSpace b = false) (bs : Bytes) :
    skipSpace (b :: bs) = b :: bs :=
  List.dropWhile_cons_of_neg (by simp [h])

theorem expectByte_cons {b c : UInt8} (h : isSpace b = false) (bs : Bytes) :
    expectByte c (b :: bs) = if b = c then some bs else none := by
  rw [expectByte, skipSpace_cons h]

/-- The bytes `v` are read as the value `x`, up to the byte after them. -/
def Parses (v : Bytes) (x : Value) : Prop :=
  ∀ n c rest, c = comma ∨ c = rbrace → parseValue (n + 1) (v ++ c :: rest) = some (x, c :: rest)

/-- A text that begins with a digit is read as a number. -/
theorem parseValue_digit {b : UInt8} (hb : isDigit b = true) (n : ℕ) (bs : Bytes) :
    parseValue (n + 1) (b :: bs)
      = some (.number ((b :: bs).takeWhile isNumberByte), (b :: bs).dropWhile isNumberByte) := by
  have hne : ∀ c : UInt8, isDigit c = false → b ≠ c := by
    rintro c hc rfl
    exact absurd hb (by simp [hc])
  have hspace : isSpace b = false := by
    simp [isSpace, hne 0x20 rfl, hne 0x09 rfl, hne 0x0d rfl, hne newline rfl]
  rw [parseValue, skipSpace_cons hspace]
  simp only [hne quote rfl, hne lbrace rfl, hne lbracket rfl, hne 0x74 rfl, hne 0x66 rfl,
    hne 0x6e rfl, if_false]

theorem parses_encodeNat (n : ℕ) : Parses (encodeNat n) (.number (encodeNat n)) := by
  intro k c rest hc
  have hdigits := Scan.isDigit_of_mem_encodeNat n
  have hnumber : ∀ b ∈ encodeNat n, isNumberByte b = true := fun b hb => by
    simp [isNumberByte, hdigits b hb]
  have hc' : isNumberByte c = false := by rcases hc with rfl | rfl <;> rfl
  have htake : (encodeNat n ++ c :: rest).takeWhile isNumberByte = encodeNat n := by
    rw [List.takeWhile_append_of_pos hnumber, List.takeWhile_cons_of_neg (by simp [hc']),
      List.append_nil]
  have hdrop : (encodeNat n ++ c :: rest).dropWhile isNumberByte = c :: rest := by
    rw [List.dropWhile_append_of_pos hnumber, List.dropWhile_cons_of_neg (by simp [hc'])]
  cases henc : encodeNat n with
  | nil => exact absurd (List.map_eq_nil_iff.1 henc) Nat.toDigits_ne_nil
  | cons b bs =>
    rw [henc] at htake hdrop
    rw [List.cons_append] at htake hdrop ⊢
    rw [parseValue_digit (hdigits b (henc ▸ List.mem_cons_self)), htake, hdrop]

/-- The same, for a text that is long enough for the rounds that nested values take. -/
def Reads (v : Bytes) (x : Value) : Prop :=
  ∀ n, v.length ≤ n → ∀ c rest, c = comma ∨ c = rbrace →
    parseValue (n + 1) (v ++ c :: rest) = some (x, c :: rest)

/-- The bytes `w` are a way to write the string `s`. -/
def Spells (w : Bytes) (s : String) : Prop :=
  ∃ body, w = quote :: body ∧
    (∀ stack, Scan.run ⟨.inString, stack⟩ body = some ⟨.endValue, stack⟩) ∧
    ∀ rest, parseString (body ++ rest).length (body ++ rest) = some (s.toList, rest)

theorem Spells.quoted {w : Bytes} {s : String} (h : Spells w s) : Scan.Quoted w := by
  obtain ⟨body, hw, hscan, _⟩ := h
  exact ⟨body, hw, hscan⟩

theorem Spells.parses {w : Bytes} {s : String} (h : Spells w s) : Parses w (.string s) := by
  intro n c rest _
  obtain ⟨body, rfl, _, hread⟩ := h
  rw [List.cons_append, parseValue, skipSpace_cons (by decide)]
  simp only [if_true, hread]
  simp

theorem spells_encodeString (s : String) : Spells (encodeString s) s :=
  ⟨_, rfl, fun _ => Scan.run_string s, fun rest => by
    rw [List.append_assoc]
    exact parseString_string s rest⟩

/-- A member of an object, and what follows it. -/
theorem parseMembers_member {w v : Bytes} {name : String} {x : Value} (hw : Spells w name)
    (hv : Reads v x) {n : ℕ} (hn : v.length ≤ n) {c : UInt8} (hc : c = comma ∨ c = rbrace)
    (rest : Bytes) :
    parseMembers (n + 2) (w ++ colon :: (v ++ c :: rest))
      = if c = comma then (parseMembers (n + 1) rest).map fun y => ((name, x) :: y.1, y.2)
        else some ([(name, x)], rest) := by
  obtain ⟨body, rfl, _, hread⟩ := hw
  rw [List.cons_append, parseMembers, expectByte_cons (by decide), if_pos rfl]
  simp only [Option.bind_eq_bind, Option.bind_some, hread]
  rw [expectByte_cons (by decide), if_pos rfl, Option.bind_some, hv n hn c rest hc]
  rcases hc with rfl | rfl
  · rw [Option.bind_some, expectByte_cons (by decide), if_pos rfl, if_pos rfl]
    simp [Option.map_eq_bind]
  · rw [Option.bind_some, expectByte_cons (by decide), if_neg (by decide), if_neg (by decide)]
    dsimp only
    rw [expectByte_cons (by decide), if_pos rfl]
    simp

/-- The bytes `v` are a way to write the value `x` of a member. -/
structure Encodes (v : Bytes) (x : Value) : Prop where
  scans : Scan.Scans v
  parses : Parses v x

theorem Spells.encodes {w : Bytes} {s : String} (h : Spells w s) : Encodes w (.string s) :=
  ⟨h.quoted.scans, h.parses⟩

theorem encodes_encodeString (s : String) : Encodes (encodeString s) (.string s) :=
  (spells_encodeString s).encodes

theorem encodes_encodeNat (n : ℕ) : Encodes (encodeNat n) (.number (encodeNat n)) :=
  ⟨Scan.scans_encodeNat n, parses_encodeNat n⟩

/-- The written members are a way to write these members. -/
abbrev EncodesAll (ms : List (String × Bytes)) (xs : List (String × Value)) : Prop :=
  List.Forall₂ (fun m x => m.1 = x.1 ∧ Encodes m.2 x.2) ms xs

theorem EncodesAll.scans {ms : List (String × Bytes)} {xs : List (String × Value)}
    (h : EncodesAll ms xs) : ∀ m ∈ ms, Scan.Scans m.2 := by
  induction h with
  | nil => exact fun m hm => absurd hm List.not_mem_nil
  | cons hm _ ih => exact List.forall_mem_cons.2 ⟨hm.2.scans, ih⟩

/-! ### Objects in objects -/

/-- The bytes `v` are a way to write the value `x` of a member, where the objects and
    arrays of `stack` are open around the member's object. -/
structure EncodesIn (stack : List Inside) (v : Bytes) (x : Value) : Prop where
  scans : Scan.ScansIn stack v
  reads : Reads v x

theorem Encodes.encodesIn {v : Bytes} {x : Value} (h : Encodes v x) (stack : List Inside) :
    EncodesIn stack v x :=
  ⟨h.scans stack, fun n _ => h.parses n⟩

/-- The written names and values are a way to write these members. -/
abbrev WritesAll (stack : List Inside) (ms : List (Bytes × Bytes)) (xs : List (String × Value)) :
    Prop :=
  List.Forall₂ (fun m x => Spells m.1 x.1 ∧ EncodesIn stack m.2 x.2) ms xs

theorem WritesAll.scans {stack : List Inside} {ms : List (Bytes × Bytes)}
    {xs : List (String × Value)} (h : WritesAll stack ms xs) :
    ∀ m ∈ ms, Scan.Quoted m.1 ∧ Scan.ScansIn stack m.2 := by
  induction h with
  | nil => exact fun m hm => absurd hm List.not_mem_nil
  | cons hm _ ih => exact List.forall_mem_cons.2 ⟨⟨hm.1.quoted, hm.2.scans⟩, ih⟩

theorem length_writeMembers_cons (m : Bytes × Bytes) (ms : List (Bytes × Bytes)) :
    (writeMembers (m :: ms)).length = m.1.length + m.2.length + (writeMembers ms).length + 2 := by
  simp only [writeMembers, List.length_cons, List.length_append]
  omega

theorem length_writeMembers_pos (ms : List (Bytes × Bytes)) : 0 < (writeMembers ms).length := by
  cases ms with
  | nil => exact Nat.zero_lt_one
  | cons m ms => rw [length_writeMembers_cons]; omega

theorem parseMembers_writeMembers {stack : List Inside} {ms : List (Bytes × Bytes)}
    {xs : List (String × Value)} (h : WritesAll stack ms xs) {w v : Bytes} {name : String}
    {x : Value} (hw : Spells w name) (hv : Reads v x) {n : ℕ}
    (hn : v.length + (writeMembers ms).length ≤ n) (rest : Bytes) :
    parseMembers (n + 1) (w ++ colon :: (v ++ writeMembers ms ++ rest))
      = some ((name, x) :: xs, rest) := by
  induction h generalizing w v name x n with
  | nil =>
    obtain ⟨n, rfl⟩ := Nat.exists_eq_succ_of_ne_zero (n := n) (by simp [writeMembers] at hn; omega)
    rw [writeMembers, List.append_assoc]
    exact parseMembers_member hw hv (Nat.le_of_succ_le_succ hn) (Or.inr rfl) rest
  | @cons m y ms ys hm _ ih =>
    have hpos := length_writeMembers_pos ms
    rw [length_writeMembers_cons] at hn
    obtain ⟨n, rfl⟩ := Nat.exists_eq_succ_of_ne_zero (n := n) (by omega)
    have hrest := ih hm.1 hm.2.reads (n := n) (by omega)
    have happ : v ++ writeMembers (m :: ms) ++ rest
        = v ++ comma :: (m.1 ++ colon :: (m.2 ++ writeMembers ms ++ rest)) := by
      simp [writeMembers]
    rw [happ, parseMembers_member hw hv (by omega) (Or.inl rfl), if_pos rfl, hrest,
      Option.map_some]

/-- A written object is read as the object of what its names and values are read as. -/
theorem parseValue_writeObject {stack : List Inside} {ms : List (Bytes × Bytes)}
    {xs : List (String × Value)} (h : WritesAll stack ms xs) {n : ℕ}
    (hn : (writeObject ms).length ≤ n) (rest : Bytes) :
    parseValue (n + 1) (writeObject ms ++ rest) = some (.object xs, rest) := by
  cases h with
  | nil =>
    have hclose : expectByte rbrace (rbrace :: rest) = some rest := by
      rw [expectByte_cons (by decide), if_pos rfl]
    rw [writeObject, List.cons_append, parseValue, skipSpace_cons (by decide)]
    simp only [if_neg (by decide : ¬ lbrace = quote), if_true, List.cons_append, List.nil_append,
      hclose]
  | @cons m x ms xs hm hms =>
    rw [writeObject] at hn ⊢
    simp only [List.length_cons, List.length_append] at hn
    obtain ⟨n, rfl⟩ := Nat.exists_eq_succ_of_ne_zero (n := n) (by omega)
    have hmembers := parseMembers_writeMembers hms hm.1 hm.2.reads (n := n) (by omega) rest
    have hopen : expectByte rbrace (m.1 ++ colon :: (m.2 ++ writeMembers ms ++ rest)) = none := by
      obtain ⟨body, hbody, _⟩ := hm.1
      rw [hbody, List.cons_append, expectByte_cons (by decide), if_neg (by decide)]
    have happ : lbrace :: (m.1 ++ colon :: (m.2 ++ writeMembers ms)) ++ rest
        = lbrace :: (m.1 ++ colon :: (m.2 ++ writeMembers ms ++ rest)) := by simp
    rw [happ, parseValue, skipSpace_cons (by decide)]
    simp only [if_neg (by decide : ¬ lbrace = quote), if_true, hopen, hmembers]
    simp

/-- An object as the value of a member. -/
theorem encodesIn_writeObject {stack : List Inside} {ms : List (Bytes × Bytes)}
    {xs : List (String × Value)} (h : WritesAll (.objectValue :: stack) ms xs)
    (hdepth : stack.length + 1 < Scan.maxNestingDepth) :
    EncodesIn stack (writeObject ms) (.object xs) :=
  ⟨Scan.scansIn_writeObject h.scans hdepth, fun _ hn _ _ _ => parseValue_writeObject h hn _⟩

/-- A written object is valid, and read as the object of what its names and values are
    read as. -/
theorem parse_writeObject {ms : List (Bytes × Bytes)} {xs : List (String × Value)}
    (h : WritesAll [] ms xs) : parse (writeObject ms) = some (.object xs) := by
  have hvalue := parseValue_writeObject h le_rfl []
  rw [List.append_nil] at hvalue
  rw [parse, if_pos (checkValid_writeObject h.scans), hvalue]
  rfl

theorem parse_encodeObject {ms : List (String × Bytes)} {xs : List (String × Value)}
    (h : EncodesAll ms xs) : parse (encodeObject ms) = some (.object xs) := by
  rw [encodeObject_eq]
  refine parse_writeObject (List.forall₂_map_left_iff.2 (h.imp fun m x hm => ?_))
  exact ⟨hm.1 ▸ spells_encodeString m.1, hm.2.encodesIn []⟩

/-- A part of a written object is not read. -/
theorem parse_of_cut {ms : List (String × Bytes)} {x : Value} {p : Bytes}
    (h : parse (encodeObject ms) = some x) (hp : p <+: encodeObject ms)
    (hlt : p.length < (encodeObject ms).length) : parse p = none := by
  by_cases hne : p = []
  · rw [hne]
    rfl
  obtain ⟨q, hq⟩ := hp
  have hqne : q ≠ [] := by
    rintro rfl
    rw [List.append_nil] at hq
    exact absurd (congrArg List.length hq) hlt.ne
  have hlast : rbrace ∈ q := by
    have hend : (p ++ q).getLast? = some rbrace := hq ▸ getLast_encodeObject ms []
    rw [List.getLast?_append_of_ne_nil p hqne] at hend
    exact List.mem_of_getLast? hend
  have hhead : p.head? = some lbrace := by
    obtain ⟨b, p, rfl⟩ := List.exists_cons_of_ne_nil hne
    have hobject : (encodeObject ms).head? = some lbrace := by cases ms <;> rfl
    rwa [← hq] at hobject
  have hvalid : (Scan.init.run (p ++ q)).isSome := by
    rw [hq]
    rw [parse] at h
    split_ifs at h with hcheck
    rw [checkValid] at hcheck
    exact Option.isSome_of_any hcheck
  rw [parse, not_checkValid_of_cut (by decide) hlast hhead hvalid]
  rfl

end Json
