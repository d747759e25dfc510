import Mathlib.Data.List.Basic

/-!
# Checking that a text is JSON

The state machine by which Go's `encoding/json` checks a text before it decodes
any of it (`checkValid`): a mode, and a stack with an entry for every object or
array that is open. It takes the text byte by byte, and refuses it at the first
byte that cannot continue a JSON value.

* `run_append`: a text is scanned in pieces;
* `used_run`: once something but blanks has been read, the machine never is back
  where it started;
* `run_object_eq_none`: no text that goes on with an object, after something but
  blanks, is a JSON value. What a torn write leaves behind spoils the line that
  is written after it;
* `not_checkValid_of_cut`: a text that was cut off inside an object is no JSON value.
-/

namespace Json

abbrev Bytes := List UInt8

abbrev newline : UInt8 := 0x0a
abbrev quote : UInt8 := 0x22
abbrev comma : UInt8 := 0x2c
abbrev colon : UInt8 := 0x3a
abbrev lbracket : UInt8 := 0x5b
abbrev backslash : UInt8 := 0x5c
abbrev rbracket : UInt8 := 0x5d
abbrev lbrace : UInt8 := 0x7b
abbrev rbrace : UInt8 := 0x7d

def isSpace (c : UInt8) : Bool := c == 0x20 || c == 0x09 || c == 0x0d || c == newline

def isDigit (c : UInt8) : Bool := 0x30 ≤ c && c ≤ 0x39

def isHex (c : UInt8) : Bool :=
  isDigit c || (0x61 ≤ c && c ≤ 0x66) || (0x41 ≤ c && c ≤ 0x46)

/-- What an open object or array waits for. -/
inductive Inside
  | objectKey
  | objectValue
  | arrayValue
  deriving DecidableEq, Repr

/-- Where in a value the machine is. -/
inductive Mode
  | beginValueOrEmpty
  | beginValue
  | beginStringOrEmpty
  | beginString
  | endValue
  | endTop
  | inString
  | inStringEsc
  /-- In `\u`, with so many digits to come after the next one. -/
  | inStringEscU (more : ℕ)
  | neg
  | one
  | zero
  | dot
  | dot0
  | e
  | eSign
  | e0
  | t
  | tr
  | tru
  | f
  | fa
  | fal
  | fals
  | n
  | nu
  | nul
  deriving DecidableEq, Repr

/-- The state of the machine. -/
structure Scan where
  mode : Mode
  stack : List Inside
  deriving DecidableEq, Repr

namespace Scan

/-- Nothing is read yet. -/
def init : Scan := ⟨.beginValue, []⟩

/-- Objects and arrays are not nested deeper than this. -/
def maxNestingDepth : ℕ := 10000

def push (i : Inside) (m : Mode) (stack : List Inside) : Option Scan :=
  if stack.length < maxNestingDepth then some ⟨m, i :: stack⟩ else none

/-- The innermost object or array is complete, those of `stack` are open. -/
def pop (stack : List Inside) : Scan := ⟨if stack = [] then .endTop else .endValue, stack⟩

/-- A byte after a complete value. -/
def stepEndValue (c : UInt8) : List Inside → Option Scan
  | [] => if isSpace c then some ⟨.endTop, []⟩ else none
  | i :: stack =>
    if isSpace c then some ⟨.endValue, i :: stack⟩
    else match i with
    | .objectKey => if c = colon then some ⟨.beginValue, .objectValue :: stack⟩ else none
    | .objectValue =>
      if c = comma then some ⟨.beginString, .objectKey :: stack⟩
      else if c = rbrace then some (pop stack) else none
    | .arrayValue =>
      if c = comma then some ⟨.beginValue, .arrayValue :: stack⟩
      else if c = rbracket then some (pop stack) else none

/-- The mode after the first byte of a string, a number or a literal. -/
def scalar (c : UInt8) : Option Mode :=
  if c = quote then some .inString
  else if c = 0x2d then some .neg
  else if c = 0x30 then some .zero
  else if c = 0x74 then some .t
  else if c = 0x66 then some .f
  else if c = 0x6e then some .n
  else if isDigit c then some .one
  else none

/-- A byte where a value begins; `m` is the mode in which blanks leave the machine. -/
def stepBeginValue (m : Mode) (c : UInt8) (stack : List Inside) : Option Scan :=
  if isSpace c then some ⟨m, stack⟩
  else if c = lbrace then push .objectKey .beginStringOrEmpty stack
  else if c = lbracket then push .arrayValue .beginValueOrEmpty stack
  else (scalar c).map fun m => ⟨m, stack⟩

/-- A byte where the name of an object's member begins. -/
def stepBeginString (m : Mode) (c : UInt8) (stack : List Inside) : Option Scan :=
  if isSpace c then some ⟨m, stack⟩
  else if c = quote then some ⟨.inString, stack⟩
  else none

/-- A byte after the digits before the point. -/
def stepZero (c : UInt8) (stack : List Inside) : Option Scan :=
  if c = 0x2e then some ⟨.dot, stack⟩
  else if c = 0x65 ∨ c = 0x45 then some ⟨.e, stack⟩
  else stepEndValue c stack

def stepESign (c : UInt8) (stack : List Inside) : Option Scan :=
  if isDigit c then some ⟨.e0, stack⟩ else none

/-- A byte of a literal, where only `b` can stand. -/
def expect (b : UInt8) (m : Mode) (c : UInt8) (stack : List Inside) : Option Scan :=
  if c = b then some ⟨m, stack⟩ else none

/-- One byte of the text. -/
def step (s : Scan) (c : UInt8) : Option Scan :=
  match s.mode with
  | .beginValueOrEmpty =>
    if c = rbracket then stepEndValue c s.stack else stepBeginValue .beginValueOrEmpty c s.stack
  | .beginValue => stepBeginValue .beginValue c s.stack
  | .beginStringOrEmpty =>
    if c = rbrace then stepEndValue c (.objectValue :: s.stack.tail)
    else stepBeginString .beginStringOrEmpty c s.stack
  | .beginString => stepBeginString .beginString c s.stack
  | .endValue => stepEndValue c s.stack
  | .endTop => if isSpace c then some s else none
  | .inString =>
    if c = quote then some ⟨.endValue, s.stack⟩
    else if c = backslash then some ⟨.inStringEsc, s.stack⟩
    else if c < 0x20 then none
    else some s
  | .inStringEsc =>
    if c ∈ [0x62, 0x66, 0x6e, 0x72, 0x74, backslash, 0x2f, quote] then some ⟨.inString, s.stack⟩
    else if c = 0x75 then some ⟨.inStringEscU 3, s.stack⟩
    else none
  | .inStringEscU 0 => if isHex c then some ⟨.inString, s.stack⟩ else none
  | .inStringEscU (n + 1) => if isHex c then some ⟨.inStringEscU n, s.stack⟩ else none
  | .neg =>
    if c = 0x30 then some ⟨.zero, s.stack⟩
    else if isDigit c then some ⟨.one, s.stack⟩ else none
  | .one => if isDigit c then some s else stepZero c s.stack
  | .zero => stepZero c s.stack
  | .dot => if isDigit c then some ⟨.dot0, s.stack⟩ else none
  | .dot0 =>
    if isDigit c then some s
    else if c = 0x65 ∨ c = 0x45 then some ⟨.e, s.stack⟩
    else stepEndValue c s.stack
  | .e => if c = 0x2b ∨ c = 0x2d then some ⟨.eSign, s.stack⟩ else stepESign c s.stack
  | .eSign => stepESign c s.stack
  | .e0 => if isDigit c then some s else stepEndValue c s.stack
  | .t => expect 0x72 .tr c s.stack
  | .tr => expect 0x75 .tru c s.stack
  | .tru => expect 0x65 .endValue c s.stack
  | .f => expect 0x61 .fa c s.stack
  | .fa => expect 0x6c .fal c s.stack
  | .fal => expect 0x73 .fals c s.stack
  | .fals => expect 0x65 .endValue c s.stack
  | .n => expect 0x75 .nu c s.stack
  | .nu => expect 0x6c .nul c s.stack
  | .nul => expect 0x6c .endValue c s.stack

/-- A text, byte by byte. -/
def run (s : Scan) : Bytes → Option Scan
  | [] => some s
  | c :: bs => (s.step c).bind fun t => t.run bs

/-- The text may end here: a value is complete, or a number that a blank would complete. -/
def eof (s : Scan) : Bool :=
  s.mode == .endTop || (s.step 0x20).any fun t => t.mode == .endTop

end Scan

/-- The text is a JSON value, with nothing but blanks around it. -/
def checkValid (bs : Bytes) : Bool := (Scan.init.run bs).any Scan.eof

namespace Scan

variable {s t : Scan} {c : UInt8}

@[simp]
theorem run_nil : s.run [] = some s := rfl

theorem run_cons (bs : Bytes) : s.run (c :: bs) = (s.step c).bind fun t => t.run bs := rfl

theorem run_append (bs cs : Bytes) (s : Scan) :
    s.run (bs ++ cs) = (s.run bs).bind fun t => t.run cs := by
  induction bs generalizing s with
  | nil => rfl
  | cons c bs ih =>
    rw [List.cons_append, run_cons, run_cons]
    cases s.step c with
    | none => rfl
    | some t => exact ih t

/-- The machine is past the blanks at the beginning. -/
def Used (s : Scan) : Prop :=
  s.stack ≠ [] ∨ s.mode ≠ .beginValue ∧ s.mode ≠ .beginValueOrEmpty

theorem used_pop (stack : List Inside) : (pop stack).Used := by
  refine Or.inr ⟨?_, ?_⟩ <;> (simp only [pop]; split <;> simp)

theorem used_push {i : Inside} {m : Mode} {stack : List Inside}
    (h : push i m stack = some t) : t.Used := by
  obtain ⟨_, h⟩ := Option.ite_none_right_eq_some.1 h
  exact Or.inl (Option.some.inj h ▸ List.cons_ne_nil _ _)

theorem used_stepEndValue {stack : List Inside} (h : stepEndValue c stack = some t) : t.Used := by
  cases stack with
  | nil =>
    obtain ⟨_, h⟩ := Option.ite_none_right_eq_some.1 h
    exact Or.inr (Option.some.inj h ▸ ⟨by simp, by simp⟩)
  | cons i stack =>
    simp only [stepEndValue] at h
    cases i <;> grind [Used, used_pop]

theorem used_stepZero {stack : List Inside} (h : stepZero c stack = some t) : t.Used := by
  unfold stepZero at h
  split at h
  · exact Or.inr (Option.some.inj h ▸ ⟨by simp, by simp⟩)
  · split at h
    · exact Or.inr (Option.some.inj h ▸ ⟨by simp, by simp⟩)
    · exact used_stepEndValue h

theorem used_scalar {m : Mode} {stack : List Inside} (h : scalar c = some m) :
    Used ⟨m, stack⟩ := by
  refine Or.inr ⟨?_, ?_⟩ <;> grind [scalar]

theorem used_stepBeginValue {m : Mode} {stack : List Inside} (hm : Used ⟨m, stack⟩)
    (h : stepBeginValue m c stack = some t) : t.Used := by
  unfold stepBeginValue at h
  split at h
  · exact Option.some.inj h ▸ hm
  · split at h
    · exact used_push h
    · split at h
      · exact used_push h
      · obtain ⟨m', hm', rfl⟩ := Option.map_eq_some_iff.1 h
        exact used_scalar hm'

/-- No byte takes the machine back to the blanks at the beginning. -/
theorem used_step (hs : s.Used) (h : s.step c = some t) : t.Used := by
  obtain ⟨m, stack⟩ := s
  cases m with
  | beginValueOrEmpty =>
    simp only [step] at h
    split at h
    · exact used_stepEndValue h
    · exact used_stepBeginValue hs h
  | beginValue => exact used_stepBeginValue hs h
  | beginStringOrEmpty =>
    simp only [step] at h
    split at h
    · exact used_stepEndValue h
    · grind [stepBeginString, Used]
  | endValue => exact used_stepEndValue h
  | inStringEscU n => cases n <;> (simp only [step] at h; grind [Used])
  | _ =>
    simp only [step, stepBeginString, stepESign, expect] at h
    grind [Used, used_stepZero, used_stepEndValue]

theorem used_run (bs : Bytes) {s t : Scan} (hs : s.Used) (h : s.run bs = some t) : t.Used := by
  induction bs generalizing s with
  | nil => exact Option.some.inj h ▸ hs
  | cons c bs ih =>
    rw [run_cons] at h
    obtain ⟨u, hu, h⟩ := Option.bind_eq_some_iff.1 h
    exact ih (used_step hs hu) h

/-- A byte that is no blank starts a value. -/
theorem used_step_init (hc : isSpace c = false) (h : init.step c = some t) : t.Used := by
  simp only [step, init, stepBeginValue, hc, Bool.false_eq_true, if_false] at h
  split at h
  · exact used_push h
  · split at h
    · exact used_push h
    · obtain ⟨m, hm, rfl⟩ := Option.map_eq_some_iff.1 h
      exact used_scalar hm

theorem stepEndValue_eq_none (hc : isSpace c = false)
    (hc' : c ∉ [colon, comma, rbrace, rbracket]) (stack : List Inside) :
    stepEndValue c stack = none := by
  cases stack with
  | nil => simp [stepEndValue, hc]
  | cons i stack => cases i <;> simp_all [stepEndValue]

/-- Where a value cannot begin, the first three bytes of an object are refused. Inside
    a string the quote of the object's first name closes the string, and the name
    follows it. -/
theorem run_object_eq_none (hm : s.mode ≠ .beginValue) (hm' : s.mode ≠ .beginValueOrEmpty)
    (hc : isSpace c = false) (hc' : c ∉ [colon, comma, rbrace, rbracket]) (bs : Bytes) :
    s.run (lbrace :: quote :: c :: bs) = none := by
  obtain ⟨m, stack⟩ := s
  have hbrace : stepEndValue lbrace stack = none :=
    stepEndValue_eq_none (by decide) (by decide) stack
  cases m with
  | beginValue => exact absurd rfl hm
  | beginValueOrEmpty => exact absurd rfl hm'
  | inString =>
    have h₁ : step ⟨.inString, stack⟩ lbrace = some ⟨.inString, stack⟩ := rfl
    have h₂ : step ⟨.inString, stack⟩ quote = some ⟨.endValue, stack⟩ := rfl
    have h₃ : step ⟨.endValue, stack⟩ c = none := stepEndValue_eq_none hc hc' stack
    simp only [run_cons, h₁, h₂, h₃, Option.bind_some, Option.bind_none]
  | one | zero | dot0 | e0 | endValue => exact congrArg (Option.bind · _) hbrace
  | inStringEscU n => cases n <;> rfl
  | _ => rfl

/-! ### Texts that are cut off -/

/-- Inside an object or an array, or behind the whole text. -/
def Nested (s : Scan) : Prop := s.stack ≠ [] ∨ s.mode = .endTop

theorem nested_pop (stack : List Inside) : (pop stack).Nested := by
  by_cases h : stack = []
  · exact Or.inr (if_pos h)
  · exact Or.inl h

theorem nested_push {i : Inside} {m : Mode} {stack : List Inside}
    (h : push i m stack = some t) : t.Nested := by
  obtain ⟨_, h⟩ := Option.ite_none_right_eq_some.1 h
  exact Or.inl (Option.some.inj h ▸ List.cons_ne_nil _ _)

theorem nested_stepEndValue {stack : List Inside} (hs : stack ≠ [])
    (h : stepEndValue c stack = some t) : t.Nested := by
  obtain ⟨i, stack, rfl⟩ := List.exists_cons_of_ne_nil hs
  simp only [stepEndValue] at h
  cases i <;> grind [Nested, nested_pop]

theorem nested_stepBeginValue {m : Mode} {stack : List Inside} (hs : stack ≠ [])
    (h : stepBeginValue m c stack = some t) : t.Nested := by
  unfold stepBeginValue at h
  split at h
  · exact Or.inl (Option.some.inj h ▸ hs)
  · split at h
    · exact nested_push h
    · split at h
      · exact nested_push h
      · obtain ⟨m', _, rfl⟩ := Option.map_eq_some_iff.1 h
        exact Or.inl hs

/-- Only the byte that closes the outermost object or array leaves it. -/
theorem nested_step (hs : s.Nested) (h : s.step c = some t) : t.Nested := by
  obtain ⟨m, stack⟩ := s
  by_cases htop : m = .endTop
  · subst htop
    obtain ⟨_, h⟩ := Option.ite_none_right_eq_some.1 h
    exact Or.inr (Option.some.inj h ▸ rfl)
  have hstack : stack ≠ [] := hs.resolve_right htop
  cases m with
  | endTop => exact absurd rfl htop
  | beginValueOrEmpty =>
    simp only [step] at h
    split at h
    · exact nested_stepEndValue hstack h
    · exact nested_stepBeginValue hstack h
  | beginValue => exact nested_stepBeginValue hstack h
  | beginStringOrEmpty =>
    simp only [step] at h
    split at h
    · exact nested_stepEndValue (List.cons_ne_nil _ _) h
    · grind [stepBeginString, Nested]
  | endValue => exact nested_stepEndValue hstack h
  | inStringEscU n => cases n <;> (simp only [step] at h; grind [Nested])
  | _ =>
    simp only [step, stepBeginString, stepESign, stepZero, expect] at h
    grind [Nested, nested_stepEndValue]

theorem nested_run (bs : Bytes) {s t : Scan} (hs : s.Nested) (h : s.run bs = some t) :
    t.Nested := by
  induction bs generalizing s with
  | nil => exact Option.some.inj h ▸ hs
  | cons c bs ih =>
    rw [run_cons] at h
    obtain ⟨u, hu, h⟩ := Option.bind_eq_some_iff.1 h
    exact ih (nested_step hs hu) h

/-- Behind the text there are only blanks. -/
theorem isSpace_of_run_endTop (bs : Bytes) (hs : s.mode = .endTop) (h : s.run bs = some t) :
    ∀ b ∈ bs, isSpace b = true := by
  induction bs with
  | nil => exact fun b hb => absurd hb List.not_mem_nil
  | cons c bs ih =>
    rw [run_cons] at h
    obtain ⟨u, hu, h⟩ := Option.bind_eq_some_iff.1 h
    simp only [step, hs] at hu
    obtain ⟨hc, hu⟩ := Option.ite_none_right_eq_some.1 hu
    obtain rfl := Option.some.inj hu
    intro b hb
    rcases List.mem_cons.1 hb with rfl | hb
    · exact hc
    · exact ih h b hb

/-- Inside an object or an array, no text may end. -/
theorem mode_of_eof (hs : s.Nested) (h : s.eof = true) : s.mode = .endTop := by
  by_contra htop
  have hstack : s.stack ≠ [] := hs.resolve_right htop
  rw [eof, Bool.or_eq_true, beq_iff_eq] at h
  obtain ⟨t, ht, htop'⟩ := (Option.any_eq_true ..).1 (h.resolve_left htop)
  rw [beq_iff_eq] at htop'
  obtain ⟨m, stack⟩ := s
  obtain ⟨i, stack, rfl⟩ := List.exists_cons_of_ne_nil hstack
  cases m with
  | endTop => exact htop rfl
  | inStringEscU n => cases n <;> cases ht
  | beginStringOrEmpty | beginString | beginValue | beginValueOrEmpty | inString | endValue | one
  | zero | dot0 | e0 => cases ht; cases htop'
  | _ => cases ht

end Scan

open Scan in
/-- What is left of the text of an object that was cut off before its last brace is no
    JSON value. -/
theorem not_checkValid_of_cut {p q : Bytes} {b : UInt8} (hb : isSpace b = false) (hq : b ∈ q)
    (hobject : p.head? = some lbrace) (h : (init.run (p ++ q)).isSome) :
    checkValid p = false := by
  obtain ⟨t, ht⟩ := Option.isSome_iff_exists.1 h
  rw [run_append] at ht
  obtain ⟨s, hs, htail⟩ := Option.bind_eq_some_iff.1 ht
  obtain ⟨p, rfl⟩ : ∃ r, p = lbrace :: r := by
    cases p with
    | nil => exact absurd hobject (by simp)
    | cons c p => exact ⟨p, by rw [Option.some.inj hobject]⟩
  have hnested : s.Nested := by
    rw [run_cons] at hs
    obtain ⟨u, hu, hs⟩ := Option.bind_eq_some_iff.1 hs
    have hpush : push .objectKey .beginStringOrEmpty [] = some u := hu
    exact nested_run p (nested_push hpush) hs
  rw [checkValid, hs, Option.any_some, Bool.eq_false_iff]
  intro heof
  have hblank := isSpace_of_run_endTop q (mode_of_eof hnested heof) htail b hq
  rw [hb] at hblank
  cases hblank

end Json
