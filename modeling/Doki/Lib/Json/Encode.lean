import Mathlib.Tactic.IntervalCases
import Doki.Lib.Json.Scanner

/-!
# Writing JSON

How Go's `encoding/json` writes strings, natural numbers and the fields of a
struct. Strings are escaped as its encoder does by default, with the characters
that matter to HTML.

* `run_writeObject`: a written object is scanned as one value, also inside another;
* `checkValid_writeObject`: it is valid JSON;
* `not_checkValid_glued`: with anything before it but blanks, it is not.
-/

namespace Json

/-- The hexadecimal digit of a number below 16. -/
def hexDigit (n : ℕ) : UInt8 := if n < 10 then .ofNat (0x30 + n) else .ofNat (0x61 + (n - 10))

/-- A character inside a string. -/
def encodeChar (c : Char) : Bytes :=
  if c = '"' then [backslash, quote]
  else if c = '\\' then [backslash, backslash]
  else if c = '\x08' then [backslash, 0x62]
  else if c = '\x0c' then [backslash, 0x66]
  else if c = '\n' then [backslash, 0x6e]
  else if c = '\r' then [backslash, 0x72]
  else if c = '\t' then [backslash, 0x74]
  else if c.toNat < 0x20 ∨ c = '<' ∨ c = '>' ∨ c = '&' then
    [backslash, 0x75, 0x30, 0x30, hexDigit (c.toNat / 16), hexDigit (c.toNat % 16)]
  else if c = '\u2028' ∨ c = '\u2029' then
    [backslash, 0x75, 0x32, 0x30, 0x32, hexDigit (c.toNat % 16)]
  else String.utf8EncodeChar c

/-- The characters that are written as a backslash and a letter. -/
def escapeLetters : List (Char × UInt8) :=
  [('"', quote), ('\\', backslash), ('\x08', 0x62), ('\x0c', 0x66), ('\n', 0x6e), ('\r', 0x72),
    ('\t', 0x74)]

/-- The ways in which a character is written: with a letter, with the digits of its number,
    or as it is. -/
inductive Written (c : Char) : Bytes → Prop
  | letter {b : UInt8} (h : (c, b) ∈ escapeLetters) : Written c [backslash, b]
  | digits {p q r s : ℕ} (hp : p < 13) (hq : q < 16) (hr : r < 16) (hs : s < 16)
      (h : ((p * 16 + q) * 16 + r) * 16 + s = c.toNat) :
      Written c [backslash, 0x75, hexDigit p, hexDigit q, hexDigit r, hexDigit s]
  | plain (h : 0x20 ≤ c.toNat) (hquote : c ≠ '"') (hbackslash : c ≠ '\\') :
      Written c (String.utf8EncodeChar c)

theorem written_encodeChar (c : Char) : Written c (encodeChar c) := by
  unfold encodeChar
  refine iteInduction (motive := Written c) (fun h => .letter (h ▸ by decide)) fun hquote => ?_
  refine iteInduction (motive := Written c) (fun h => .letter (h ▸ by decide)) fun hbackslash => ?_
  iterate 5 refine iteInduction (motive := Written c) (fun h => .letter (h ▸ by decide)) fun _ => ?_
  refine iteInduction (motive := Written c) (fun h => ?_) fun hplain => ?_
  · have hlt : c.toNat < 0x80 := by
      rcases h with h | rfl | rfl | rfl
      · omega
      all_goals decide
    exact @Written.digits c 0 0 (c.toNat / 16) (c.toNat % 16) (by decide) (by decide) (by omega)
      (by omega) (by omega)
  refine iteInduction (motive := Written c) (fun h => ?_) fun _ => ?_
  · rcases h with rfl | rfl
    · exact @Written.digits _ 2 0 2 8 (by decide) (by decide) (by decide) (by decide) rfl
    · exact @Written.digits _ 2 0 2 9 (by decide) (by decide) (by decide) (by decide) rfl
  · exact .plain (not_lt.1 (not_or.1 hplain).1) hquote hbackslash

def encodeChars (cs : List Char) : Bytes := cs.flatMap encodeChar

def encodeString (s : String) : Bytes := quote :: (encodeChars s.toList ++ [quote])

/-- A natural number in base ten. -/
def encodeNat (n : ℕ) : Bytes := (Nat.toDigits 10 n).map Char.toUInt8

theorem encodeNat_ne_nil (n : ℕ) : encodeNat n ≠ [] := fun h =>
  Nat.toDigits_ne_nil (List.map_eq_nil_iff.1 h)

theorem ofNat_toUInt8 {c : Char} (hc : c.isDigit = true) : Char.ofNat c.toUInt8.toNat = c := by
  have hlt : c.toNat < 256 := by
    simp only [Char.isDigit, Bool.and_eq_true, decide_eq_true_eq, UInt32.le_iff_toNat_le] at hc
    exact lt_of_le_of_lt hc.2 (by decide)
  have hto : c.toUInt8.toNat = c.toNat :=
    (UInt32.toNat_toUInt8 c.val).trans (Nat.mod_eq_of_lt hlt)
  rw [hto, Char.ofNat_toNat]

/-- The digits of a number are those it is read from. -/
theorem ofDigitChars_encodeNat (n : ℕ) :
    Nat.ofDigitChars 10 ((encodeNat n).map fun b => Char.ofNat b.toNat) 0 = n := by
  have hchars : (encodeNat n).map (fun b => Char.ofNat b.toNat) = Nat.toDigits 10 n := by
    rw [encodeNat, List.map_map]
    conv_rhs => rw [← List.map_id (Nat.toDigits 10 n)]
    exact List.map_congr_left fun c hc =>
      ofNat_toUInt8 (Nat.isDigit_of_mem_toDigits (by decide) (by decide) hc)
  rw [hchars, Nat.ofDigitChars_ten_toDigits]

/-- The members of an object after the first one, and its end. -/
def encodeMembers : List (String × Bytes) → Bytes
  | [] => [rbrace]
  | (name, v) :: ms => comma :: (encodeString name ++ colon :: (v ++ encodeMembers ms))

/-- An object with these members, the values being written already. -/
def encodeObject : List (String × Bytes) → Bytes
  | [] => [lbrace, rbrace]
  | (name, v) :: ms => lbrace :: (encodeString name ++ colon :: (v ++ encodeMembers ms))

/-- The members of an object after the first one, and its end, the names and the values
    being written already. -/
def writeMembers : List (Bytes × Bytes) → Bytes
  | [] => [rbrace]
  | (w, v) :: ms => comma :: (w ++ colon :: (v ++ writeMembers ms))

/-- An object, the names and the values of its members being written already. -/
def writeObject : List (Bytes × Bytes) → Bytes
  | [] => [lbrace, rbrace]
  | (w, v) :: ms => lbrace :: (w ++ colon :: (v ++ writeMembers ms))

theorem encodeMembers_eq (ms : List (String × Bytes)) :
    encodeMembers ms = writeMembers (ms.map fun m => (encodeString m.1, m.2)) := by
  induction ms with
  | nil => rfl
  | cons m ms ih => rw [encodeMembers, List.map_cons, writeMembers, ih]

theorem encodeObject_eq (ms : List (String × Bytes)) :
    encodeObject ms = writeObject (ms.map fun m => (encodeString m.1, m.2)) := by
  cases ms with
  | nil => rfl
  | cons m ms => rw [encodeObject, List.map_cons, writeObject, encodeMembers_eq]

namespace Scan

variable {stack : List Inside}

theorem run_singleton (s : Scan) (c : UInt8) : s.run [c] = s.step c := by
  rw [run_cons]
  exact Option.bind_fun_some (s.step c)

/-- A byte that stands for itself in a string. -/
def Plain (b : UInt8) : Prop := ¬ b < 0x20 ∧ b ≠ quote ∧ b ≠ backslash

/-- In a string, bytes that stand for themselves are read over. -/
theorem run_inString (bs : Bytes) (h : ∀ b ∈ bs, Plain b) :
    run ⟨.inString, stack⟩ bs = some ⟨.inString, stack⟩ := by
  induction bs with
  | nil => rfl
  | cons b bs ih =>
    obtain ⟨h₁, h₂, h₃⟩ := h b List.mem_cons_self
    have hstep : step ⟨.inString, stack⟩ b = some ⟨.inString, stack⟩ := by
      simp only [step, h₁, h₂, h₃, if_false]
    rw [run_cons, hstep]
    exact ih fun b hb => h b (List.mem_cons_of_mem _ hb)

theorem utf8EncodeChar_ascii {c : Char} (hc : c.toNat < 0x80) :
    String.utf8EncodeChar c = [.ofNat c.toNat] :=
  if_pos (Nat.le_of_lt_succ hc)

theorem toNat_ofNat_ascii {c : Char} (hc : c.toNat < 0x80) :
    (UInt8.ofNat c.toNat).toNat = c.toNat :=
  UInt8.toNat_ofNat_of_lt' (lt_trans hc (by decide))

/-- The bytes of a character beyond ASCII. -/
theorem le_of_mem_utf8EncodeChar {c : Char} (hc : 0x80 ≤ c.toNat) :
    ∀ b ∈ String.utf8EncodeChar c, 0x80 ≤ b := by
  have hle : ∀ m k, 0x80 ≤ k → m + k < 256 → (0x80 : UInt8) ≤ .ofNat (m + k) := fun m k hk hm => by
    rw [UInt8.le_iff_toNat_le, UInt8.toNat_ofNat_of_lt' hm]
    exact le_trans hk (Nat.le_add_left k m)
  have hv : ¬ c.val.toNat ≤ 0x7f := not_le.2 hc
  unfold String.utf8EncodeChar
  dsimp only
  rw [if_neg hv]
  intro b hb
  split_ifs at hb <;> simp only [List.mem_cons, List.not_mem_nil, or_false] at hb
  · rcases hb with rfl | rfl <;> exact hle _ _ (by omega) (by omega)
  · rcases hb with rfl | rfl | rfl <;> exact hle _ _ (by omega) (by omega)
  · rcases hb with rfl | rfl | rfl | rfl <;> exact hle _ _ (by omega) (by omega)

/-- A byte of a character beyond ASCII stands for itself. -/
theorem plain_of_le {b : UInt8} (hb : 0x80 ≤ b) : Plain b := by
  rw [UInt8.le_iff_toNat_le] at hb
  refine ⟨?_, ?_, ?_⟩
  · rw [UInt8.lt_iff_toNat_lt]
    exact not_lt.2 (le_trans (by decide) hb)
  · rintro rfl
    exact absurd hb (by decide)
  · rintro rfl
    exact absurd hb (by decide)

/-- The bytes of a character that is not escaped. -/
theorem plain_of_mem_utf8EncodeChar {c : Char} (h : 0x20 ≤ c.toNat) (hq : c ≠ '"')
    (hs : c ≠ '\\') : ∀ b ∈ String.utf8EncodeChar c, Plain b := by
  rcases lt_or_ge c.toNat 0x80 with hc | hc
  · have hto := toNat_ofNat_ascii hc
    rw [utf8EncodeChar_ascii hc]
    intro b hb
    rw [List.mem_singleton.1 hb]
    refine ⟨?_, ?_, ?_⟩
    · rw [UInt8.lt_iff_toNat_lt, hto]
      exact not_lt.2 h
    · exact fun h => hq (Char.toNat_inj.1 (hto ▸ congrArg UInt8.toNat h))
    · exact fun h => hs (Char.toNat_inj.1 (hto ▸ congrArg UInt8.toNat h))
  · exact fun b hb => plain_of_le (le_of_mem_utf8EncodeChar hc b hb)

theorem isHex_hexDigit {n : ℕ} (hn : n < 16) : isHex (hexDigit n) = true := by
  interval_cases n <;> rfl

/-- A `\u` escape with four hexadecimal digits. -/
theorem run_unicode {a b c d : UInt8} (ha : isHex a) (hb : isHex b) (hc : isHex c) (hd : isHex d) :
    run ⟨.inString, stack⟩ [backslash, 0x75, a, b, c, d] = some ⟨.inString, stack⟩ := by
  have h₁ : step ⟨.inString, stack⟩ backslash = some ⟨.inStringEsc, stack⟩ := rfl
  have h₂ : step ⟨.inStringEsc, stack⟩ 0x75 = some ⟨.inStringEscU 3, stack⟩ := rfl
  simp only [run_cons, h₁, h₂, Option.bind_some]
  simp [step, ha, hb, hc, hd]

theorem run_written {c : Char} {w : Bytes} (h : Written c w) :
    run ⟨.inString, stack⟩ w = some ⟨.inString, stack⟩ := by
  cases h with
  | @letter b h =>
    have hletters : ∀ x ∈ escapeLetters,
        x.2 ∈ [0x62, 0x66, 0x6e, 0x72, 0x74, backslash, 0x2f, quote] := by decide
    have hstep : step ⟨.inStringEsc, stack⟩ b = some ⟨.inString, stack⟩ :=
      if_pos (hletters _ h)
    rw [run_cons, show step ⟨.inString, stack⟩ backslash = some ⟨.inStringEsc, stack⟩ from rfl,
      Option.bind_some, run_singleton, hstep]
  | digits hp hq hr hs =>
    exact run_unicode (isHex_hexDigit (hp.trans (by decide))) (isHex_hexDigit hq)
      (isHex_hexDigit hr) (isHex_hexDigit hs)
  | plain h hquote hbackslash =>
    exact run_inString _ (plain_of_mem_utf8EncodeChar h hquote hbackslash)

theorem run_encodeChar (c : Char) :
    run ⟨.inString, stack⟩ (encodeChar c) = some ⟨.inString, stack⟩ :=
  run_written (written_encodeChar c)

theorem run_encodeChars (cs : List Char) :
    run ⟨.inString, stack⟩ (encodeChars cs) = some ⟨.inString, stack⟩ := by
  induction cs with
  | nil => rfl
  | cons c cs ih =>
    rw [encodeChars, List.flatMap_cons, run_append, run_encodeChar]
    exact ih

/-- After the opening quote. -/
theorem run_string (s : String) :
    run ⟨.inString, stack⟩ (encodeChars s.toList ++ [quote]) = some ⟨.endValue, stack⟩ := by
  rw [run_append, run_encodeChars]
  rfl

theorem isDigit_digitChar {n : ℕ} (hn : n < 10) : isDigit n.digitChar.toUInt8 = true := by
  interval_cases n <;> rfl

theorem encodeNat_of_lt {n : ℕ} (hn : n < 10) : encodeNat n = [n.digitChar.toUInt8] := by
  rw [encodeNat, Nat.toDigits_of_lt_base hn]
  rfl

theorem encodeNat_of_le {n : ℕ} (hn : 10 ≤ n) :
    encodeNat n = encodeNat (n / 10) ++ [(n % 10).digitChar.toUInt8] := by
  rw [encodeNat, Nat.toDigits_of_base_le (by decide) hn, List.map_append]
  rfl

theorem isDigit_of_mem_encodeNat (n : ℕ) : ∀ b ∈ encodeNat n, isDigit b = true := by
  induction n using Nat.strong_induction_on with
  | _ n ih =>
    rcases lt_or_ge n 10 with hn | hn
    · rw [encodeNat_of_lt hn]
      exact fun b hb => List.mem_singleton.1 hb ▸ isDigit_digitChar hn
    · rw [encodeNat_of_le hn]
      intro b hb
      rcases List.mem_append.1 hb with hb | hb
      · exact ih (n / 10) (by omega) b hb
      · exact List.mem_singleton.1 hb ▸ isDigit_digitChar (Nat.mod_lt n (by decide))

/-- No number but zero begins with the digit zero, so its digits are read to the end. -/
theorem run_encodeNat (n : ℕ) :
    run ⟨.beginValue, stack⟩ (encodeNat n) = some ⟨if n = 0 then .zero else .one, stack⟩ := by
  induction n using Nat.strong_induction_on with
  | _ n ih =>
    rcases lt_or_ge n 10 with hn | hn
    · rw [encodeNat_of_lt hn]
      interval_cases n <;> rfl
    · have hpos : n / 10 ≠ 0 := by omega
      rw [encodeNat_of_le hn, run_append, ih (n / 10) (by omega), if_neg hpos, Option.bind_some,
        run_singleton, if_neg (by omega)]
      simp only [step, isDigit_digitChar (Nat.mod_lt n (by decide)), if_true]

/-- The bytes `v` are read as the value of a member, up to the byte after them. -/
def Scans (v : Bytes) : Prop :=
  ∀ stack : List Inside, ∀ c, c = comma ∨ c = rbrace →
    run ⟨.beginValue, .objectValue :: stack⟩ (v ++ [c]) = stepEndValue c (.objectValue :: stack)

/-- The same, where the objects and arrays of `stack` are open around the member's
    object. -/
def ScansIn (stack : List Inside) (v : Bytes) : Prop :=
  ∀ c, c = comma ∨ c = rbrace →
    run ⟨.beginValue, .objectValue :: stack⟩ (v ++ [c]) = stepEndValue c (.objectValue :: stack)

/-- The bytes `w` are read as a string. -/
def Quoted (w : Bytes) : Prop :=
  ∃ body, w = quote :: body ∧ ∀ stack, run ⟨.inString, stack⟩ body = some ⟨.endValue, stack⟩

theorem quoted_encodeString (s : String) : Quoted (encodeString s) :=
  ⟨_, rfl, fun _ => run_string s⟩

theorem Quoted.scans {w : Bytes} (h : Quoted w) : Scans w := by
  intro stack c _
  obtain ⟨body, rfl, hbody⟩ := h
  have hquote : step ⟨.beginValue, .objectValue :: stack⟩ quote
      = some ⟨.inString, .objectValue :: stack⟩ := rfl
  rw [List.cons_append, run_cons, hquote, Option.bind_some, run_append, hbody, Option.bind_some,
    run_singleton]
  rfl

theorem scans_encodeNat (n : ℕ) : Scans (encodeNat n) := by
  intro stack c hc
  rw [run_append, run_encodeNat, Option.bind_some, run_singleton]
  rcases hc with rfl | rfl <;> (split <;> rfl)

/-- The name of a member, from where its opening quote is read, and the value. -/
theorem run_member {m : Mode} (hm : step ⟨m, .objectKey :: stack⟩ quote
      = some ⟨.inString, .objectKey :: stack⟩) {w v : Bytes} (hw : Quoted w)
    (hv : ScansIn stack v) {c : UInt8} (hc : c = comma ∨ c = rbrace) (rest : Bytes) :
    run ⟨m, .objectKey :: stack⟩ (w ++ colon :: (v ++ c :: rest))
      = (stepEndValue c (.objectValue :: stack)).bind fun t => t.run rest := by
  obtain ⟨body, rfl, hbody⟩ := hw
  have hcolon : step ⟨.endValue, .objectKey :: stack⟩ colon
      = some ⟨.beginValue, .objectValue :: stack⟩ := rfl
  rw [List.cons_append, run_cons, hm, Option.bind_some, run_append, hbody,
    Option.bind_some, run_cons, hcolon, Option.bind_some,
    show v ++ c :: rest = (v ++ [c]) ++ rest by simp, run_append, hv c hc]

theorem run_writeMembers (ms : List (Bytes × Bytes))
    (hms : ∀ m ∈ ms, Quoted m.1 ∧ ScansIn stack m.2) {m : Mode}
    (hm : step ⟨m, .objectKey :: stack⟩ quote = some ⟨.inString, .objectKey :: stack⟩)
    {w v : Bytes} (hw : Quoted w) (hv : ScansIn stack v) :
    run ⟨m, .objectKey :: stack⟩ (w ++ colon :: (v ++ writeMembers ms)) = some (pop stack) := by
  induction ms generalizing m w v with
  | nil => exact run_member hm hw hv (Or.inr rfl) []
  | cons x ms ih =>
    rw [writeMembers, run_member hm hw hv (Or.inl rfl)]
    have hcomma : stepEndValue comma (.objectValue :: stack)
        = some ⟨.beginString, .objectKey :: stack⟩ := rfl
    obtain ⟨hx, hms⟩ := List.forall_mem_cons.1 hms
    rw [hcomma, Option.bind_some]
    exact ih hms rfl hx.1 hx.2

/-- A written object is read as one value, wherever a value may begin. -/
theorem run_writeObject {ms : List (Bytes × Bytes)}
    (hms : ∀ m ∈ ms, Quoted m.1 ∧ ScansIn stack m.2) {m : Mode}
    (hm : m = .beginValue ∨ m = .beginValueOrEmpty) :
    run ⟨m, stack⟩ (writeObject ms)
      = if stack.length < maxNestingDepth then some (pop stack) else none := by
  have hpush : step ⟨m, stack⟩ lbrace = push .objectKey .beginStringOrEmpty stack := by
    rcases hm with rfl | rfl <;> rfl
  cases ms with
  | nil =>
    rw [writeObject, run_cons, hpush, push]
    split <;> rfl
  | cons x ms =>
    obtain ⟨hx, hms⟩ := List.forall_mem_cons.1 hms
    rw [writeObject, run_cons, hpush, push]
    split
    · exact run_writeMembers (m := .beginStringOrEmpty) ms hms rfl hx.1 hx.2
    · rfl

/-- An object as the value of a member. -/
theorem scansIn_writeObject {ms : List (Bytes × Bytes)}
    (hms : ∀ m ∈ ms, Quoted m.1 ∧ ScansIn (.objectValue :: stack) m.2)
    (hdepth : stack.length + 1 < maxNestingDepth) : ScansIn stack (writeObject ms) := by
  intro c _
  rw [run_append, run_writeObject hms (Or.inl rfl), List.length_cons, if_pos hdepth,
    Option.bind_some, run_singleton]
  rfl

theorem run_encodeObject {ms : List (String × Bytes)} (hms : ∀ m ∈ ms, Scans m.2) {m : Mode}
    (hm : m = .beginValue ∨ m = .beginValueOrEmpty) :
    run ⟨m, stack⟩ (encodeObject ms)
      = if stack.length < maxNestingDepth then some (pop stack) else none := by
  rw [encodeObject_eq]
  refine run_writeObject (fun x hx => ?_) hm
  obtain ⟨y, hy, rfl⟩ := List.mem_map.1 hx
  exact ⟨quoted_encodeString y.1, hms y hy stack⟩

end Scan

open Scan

variable {name : String} {v : Bytes} {ms : List (String × Bytes)}

/-! ### One line -/

theorem newline_notMem_written {c : Char} {w : Bytes} (h : Written c w) : newline ∉ w := by
  have hhex : ∀ n < 16, newline ≠ hexDigit n := fun n hn => by interval_cases n <;> decide
  cases h with
  | letter h =>
    have hletters : ∀ x ∈ escapeLetters, newline ∉ [backslash, x.2] := by decide
    exact hletters _ h
  | @digits p q r s hp hq hr hs =>
    simp only [List.mem_cons, hhex p (hp.trans (by decide)), hhex q hq, hhex r hr, hhex s hs,
      List.not_mem_nil, or_false]
    decide
  | plain h hquote hbackslash =>
    intro hmem
    exact (plain_of_mem_utf8EncodeChar h hquote hbackslash _ hmem).1 (by decide)

theorem newline_notMem_encodeChar (c : Char) : newline ∉ encodeChar c :=
  newline_notMem_written (written_encodeChar c)

theorem newline_notMem_encodeString (s : String) : newline ∉ encodeString s := by
  have h : newline ∉ encodeChars s.toList := fun h => by
    obtain ⟨c, _, hc⟩ := List.mem_flatMap.1 h
    exact newline_notMem_encodeChar c hc
  simp only [encodeString, List.mem_cons, List.mem_append, h, List.not_mem_nil, or_false, false_or]
  decide

theorem newline_notMem_encodeNat (n : ℕ) : newline ∉ encodeNat n := fun h =>
  absurd (isDigit_of_mem_encodeNat n _ h) (by decide)

theorem newline_notMem_encodeMembers {ms : List (String × Bytes)}
    (h : ∀ m ∈ ms, newline ∉ m.2) : newline ∉ encodeMembers ms := by
  induction ms with
  | nil => decide
  | cons m ms ih =>
    have hms := ih fun m hm => h m (List.mem_cons_of_mem _ hm)
    simp only [encodeMembers, List.mem_cons, List.mem_append, newline_notMem_encodeString,
      h m List.mem_cons_self, hms, or_false, false_or]
    decide

/-- A written object is one line, if its values are. -/
theorem newline_notMem_encodeObject {ms : List (String × Bytes)}
    (h : ∀ m ∈ ms, newline ∉ m.2) : newline ∉ encodeObject ms := by
  cases ms with
  | nil => decide
  | cons m ms =>
    have hms := newline_notMem_encodeMembers fun x hx => h x (List.mem_cons_of_mem _ hx)
    simp only [encodeObject, List.mem_cons, List.mem_append, newline_notMem_encodeString,
      h m List.mem_cons_self, hms, or_false, false_or]
    decide

theorem getLast_encodeMembers (ms : List (String × Bytes)) (bs : Bytes) :
    (bs ++ encodeMembers ms).getLast? = some rbrace := by
  induction ms generalizing bs with
  | nil => exact List.getLast?_concat
  | cons m ms ih =>
    rw [encodeMembers, ← ih (bs ++ comma :: (encodeString m.1 ++ colon :: m.2))]
    simp

/-- A written object ends with its brace. -/
theorem getLast_encodeObject (ms : List (String × Bytes)) (bs : Bytes) :
    (bs ++ encodeObject ms).getLast? = some rbrace := by
  cases ms with
  | nil => exact List.getLast?_append_of_ne_nil bs (List.cons_ne_nil _ _)
  | cons m ms =>
    rw [encodeObject,
      ← getLast_encodeMembers ms (bs ++ lbrace :: (encodeString m.1 ++ colon :: m.2))]
    simp

/-! ### Length -/

/-- The number of bytes that a character takes inside a string. -/
def escapedWidth (c : Char) : ℕ :=
  if c ∈ ['"', '\\', '\x08', '\x0c', '\n', '\r', '\t'] then 2
  else if c.toNat < 0x20 ∨ c ∈ ['<', '>', '&', '\u2028', '\u2029'] then 6
  else c.utf8Size

/-- The number of bytes that a string takes with its quotes. -/
def quotedWidth (s : String) : ℕ := (s.toList.map escapedWidth).sum + 2

theorem length_encodeChar (c : Char) : (encodeChar c).length = escapedWidth c := by
  by_cases h : c ∈ ['"', '\\', '\x08', '\x0c', '\n', '\r', '\t']
  · have hlength : (encodeChar c).length = 2 := by
      simp only [List.mem_cons, List.not_mem_nil, or_false] at h
      rcases h with rfl | rfl | rfl | rfl | rfl | rfl | rfl <;> rfl
    rw [escapedWidth, if_pos h, hlength]
  · rw [escapedWidth, if_neg h]
    simp only [List.mem_cons, List.not_mem_nil, or_false, not_or] at h ⊢
    obtain ⟨h₁, h₂, h₃, h₄, h₅, h₆, h₇⟩ := h
    rw [encodeChar, if_neg h₁, if_neg h₂, if_neg h₃, if_neg h₄, if_neg h₅, if_neg h₆, if_neg h₇]
    split_ifs <;> grind [String.length_utf8EncodeChar]

theorem length_encodeString (s : String) : (encodeString s).length = quotedWidth s := by
  have h : (encodeChars s.toList).length = (s.toList.map escapedWidth).sum := by
    rw [encodeChars, List.length_flatMap]
    simp only [length_encodeChar]
  rw [encodeString, quotedWidth, List.length_cons, List.length_append, h]
  rfl

theorem length_encodeNat (n : ℕ) : (encodeNat n).length = (Nat.toDigits 10 n).length :=
  List.length_map ..

/-! ### Validity -/

theorem checkValid_writeObject {ms : List (Bytes × Bytes)}
    (hms : ∀ m ∈ ms, Quoted m.1 ∧ ScansIn [] m.2) : checkValid (writeObject ms) = true := by
  rw [checkValid, init, run_writeObject hms (Or.inl rfl)]
  rfl

/-- After something but blanks, a written object is never part of a JSON value: where
    a value may stand, what is open around it stays open. -/
theorem not_checkValid_glued {b : UInt8} (hb : isSpace b = false) (bs : Bytes) {c : UInt8}
    {rest : Bytes} (hname : encodeChars name.toList = c :: rest)
    (hc : isSpace c = false) (hc' : c ∉ [colon, comma, rbrace, rbracket])
    (hv : Scans v) (hms : ∀ m ∈ ms, Scans m.2) :
    checkValid (b :: bs ++ encodeObject ((name, v) :: ms)) = false := by
  rw [checkValid, run_append]
  cases hrun : init.run (b :: bs) with
  | none => rfl
  | some s =>
    have hused : s.Used := by
      rw [run_cons] at hrun
      obtain ⟨t, ht, hrun⟩ := Option.bind_eq_some_iff.1 hrun
      exact used_run bs (used_step_init hb ht) hrun
    rw [Option.bind_some]
    by_cases hm : s.mode = .beginValue ∨ s.mode = .beginValueOrEmpty
    · have hstack : s.stack ≠ [] := by
        rcases hused with h | h
        · exact h
        · exact absurd hm (not_or.2 h)
      rw [show s = ⟨s.mode, s.stack⟩ from rfl,
        run_encodeObject (List.forall_mem_cons.2 ⟨hv, hms⟩) hm]
      split
      · rw [Option.any_some, pop, if_neg hstack]
        obtain ⟨i, stack, h⟩ := List.exists_cons_of_ne_nil hstack
        rw [h]
        rfl
      · rfl
    · obtain ⟨h₁, h₂⟩ := not_or.1 hm
      rw [encodeObject, encodeString, hname]
      simp only [List.cons_append]
      rw [run_object_eq_none h₁ h₂ hc hc']
      rfl

end Json
