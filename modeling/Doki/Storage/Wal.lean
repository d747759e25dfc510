import Doki.Lib.Json.Decode
import Doki.Storage.Basic

/-!
# The write-ahead log as a file

The write-ahead log (`internal/wal`) is a file of lines, each the JSON text of an
entry. `Append` adds a line at the end of the file and syncs it. `ReadAll` reads
the lines, and stops at the first one that is not an entry: what a crash during
`Append` has left of a line.

* `unmarshal_encode`: a line is read as the entry that was written;
* `readAll_encodeAll`: so is the whole log;
* `readAll_glued`: a line that is appended behind the rest of a torn one is part of
  no entry, and `ReadAll` stops there. `Open` does not look at the end of the file;
* `torn_tail_iff`: of the entries that are appended behind a torn line, none is
  read again.
-/

namespace Doki.Wal

open Json

/-- One record in the write-ahead log. -/
structure Entry where
  term : ℕ
  version : ℕ
  op : String
  key : String
  value : String
  deriving DecidableEq, Repr

/-! ### Writing -/

/-- The fields of an entry as they are written, an empty value being left out. -/
def Entry.members (e : Entry) : List (String × Bytes) :=
  [("term", encodeNat e.term), ("version", encodeNat e.version), ("op", encodeString e.op),
    ("key", encodeString e.key)] ++
    if e.value = "" then [] else [("value", encodeString e.value)]

/-- The line of an entry. -/
def encode (e : Entry) : Bytes := encodeObject e.members ++ [newline]

/-- `Open` creates a file that is missing; one that is there is left as it is. -/
def openFile (file : Option Bytes) : Bytes := file.getD []

/-- `Append` at the end of the file. -/
def append (file : Bytes) (e : Entry) : Bytes := file ++ encode e

/-- A file to which the entries `es` have been appended one by one. -/
def appendAll (file : Bytes) (es : List Entry) : Bytes := es.foldl append file

/-! ### Reading -/

inductive Field
  | term
  | version
  | op
  | key
  | value
  deriving DecidableEq, Repr

/-- The field of a name. -/
def Field.name : Field → String
  | .term => "term"
  | .version => "version"
  | .op => "op"
  | .key => "key"
  | .value => "value"

/-- The upper-case letter that a character is folded to: two characters beyond ASCII
    are folded to ASCII letters, the long s and the Kelvin sign. -/
def foldRune (c : Char) : Char :=
  if c = '\u017f' then 'S' else if c = '\u212a' then 'K' else c.toUpper

/-- Names are compared without regard to case. -/
def foldName (s : String) : List Char := s.toList.map foldRune

/-- The field that a member of an object sets. -/
def Field.find (name : String) : Option Field :=
  [Field.term, .version, .op, .key, .value].find? fun f => foldName f.name == foldName name

/-- A number of type `uint64`. -/
def parseUint (literal : Bytes) : Option ℕ :=
  if literal ≠ [] ∧ literal.all isDigit then
    let n := Nat.ofDigitChars 10 (literal.map fun b => Char.ofNat b.toNat) 0
    if n < 2 ^ 64 then some n else none
  else none

/-- The entry with the field of a member set; there is none if the value is not of the
    field's type. Members of other names and `null` are skipped. -/
def Entry.set (e : Entry) (m : String × Value) : Option Entry :=
  match Field.find m.1, m.2 with
  | none, _ => some e
  | some _, .null => some e
  | some .term, .number literal => (parseUint literal).map fun n => { e with term := n }
  | some .version, .number literal => (parseUint literal).map fun n => { e with version := n }
  | some .op, .string s => some { e with op := s }
  | some .key, .string s => some { e with key := s }
  | some .value, .string s => some { e with value := s }
  | some _, _ => none

def Entry.zero : Entry := { term := 0, version := 0, op := "", key := "", value := "" }

/-- `json.Unmarshal` into an entry. -/
def unmarshal (line : Bytes) : Option Entry :=
  (parse line).bind fun
    | .null => some Entry.zero
    | .object ms => ms.foldlM Entry.set Entry.zero
    | _ => none

/-- The lines of a file, without their ends. The last one may lack its end. -/
def scanLines : Bytes → List Bytes
  | [] => []
  | b :: bs =>
    if b = newline then [] :: scanLines bs
    else match scanLines bs with
      | [] => [[b]]
      | line :: lines => (b :: line) :: lines

/-- The scanner gives up at a line of this length. -/
def maxScanTokenSize : ℕ := 64 * 1024

/-- The line without a carriage return at its end. -/
def dropCR (line : Bytes) : Bytes :=
  if line.getLast? = some 0x0d then line.dropLast else line

/-- The entries of the lines, up to the first line that is none. -/
def readLines : List Bytes → List Entry
  | [] => []
  | line :: lines =>
    if maxScanTokenSize ≤ line.length then []
    else if dropCR line = [] then readLines lines
    else match unmarshal (dropCR line) with
      | none => []
      | some e => e :: readLines lines

def readAll (file : Bytes) : List Entry := readLines (scanLines file)

/-! ### Reading back what was written -/

/-- The numbers of the entry are of type `uint64`, and its line is one that the scanner
    reads. -/
structure Entry.Fits (e : Entry) : Prop where
  term_lt : e.term < 2 ^ 64
  version_lt : e.version < 2 ^ 64
  length_lt : (encode e).length < maxScanTokenSize

/-- The numbers of the entry are of type `uint64`. -/
structure Entry.Uint64 (e : Entry) : Prop where
  term_lt : e.term < 2 ^ 64
  version_lt : e.version < 2 ^ 64

/-- The JSON object of the entry is one that the scanner takes as a line. -/
def Entry.Short (e : Entry) : Prop := (encodeObject e.members).length < maxScanTokenSize

theorem Entry.Fits.uint64 {e : Entry} (h : e.Fits) : e.Uint64 := ⟨h.term_lt, h.version_lt⟩

theorem Entry.Fits.short {e : Entry} (h : e.Fits) : e.Short := by
  have := h.length_lt
  rw [encode, List.length_append] at this
  exact lt_of_le_of_lt (Nat.le_add_right _ _) this

theorem parseUint_encodeNat {n : ℕ} (hn : n < 2 ^ 64) : parseUint (encodeNat n) = some n := by
  have hne := encodeNat_ne_nil n
  have hall : (encodeNat n).all isDigit = true :=
    List.all_eq_true.2 (Scan.isDigit_of_mem_encodeNat n)
  rw [parseUint, if_pos ⟨hne, hall⟩, ofDigitChars_encodeNat]
  exact if_pos hn

variable {e : Entry}

/-- The members of the JSON object of an entry. -/
def Entry.values (e : Entry) : List (String × Value) :=
  [("term", .number (encodeNat e.term)), ("version", .number (encodeNat e.version)),
    ("op", .string e.op), ("key", .string e.key)] ++
    if e.value = "" then [] else [("value", .string e.value)]

theorem encodesAll_members (e : Entry) : EncodesAll e.members e.values := by
  unfold Entry.members Entry.values
  refine List.rel_append ?_ ?_
  · exact .cons ⟨rfl, encodes_encodeNat _⟩ (.cons ⟨rfl, encodes_encodeNat _⟩
      (.cons ⟨rfl, encodes_encodeString _⟩ (.cons ⟨rfl, encodes_encodeString _⟩ .nil)))
  · split
    · exact .nil
    · exact .cons ⟨rfl, encodes_encodeString _⟩ .nil

section Set

variable (x : Entry)

theorem set_term {n : ℕ} (hn : n < 2 ^ 64) :
    x.set ("term", .number (encodeNat n)) = some { x with term := n } := by
  have hfind : Field.find "term" = some .term := by decide
  simp only [Entry.set, hfind, parseUint_encodeNat hn, Option.map_some]

theorem set_version {n : ℕ} (hn : n < 2 ^ 64) :
    x.set ("version", .number (encodeNat n)) = some { x with version := n } := by
  have hfind : Field.find "version" = some .version := by decide
  simp only [Entry.set, hfind, parseUint_encodeNat hn, Option.map_some]

theorem set_op (s : String) : x.set ("op", .string s) = some { x with op := s } := by
  have hfind : Field.find "op" = some .op := by decide
  simp only [Entry.set, hfind]

theorem set_key (s : String) : x.set ("key", .string s) = some { x with key := s } := by
  have hfind : Field.find "key" = some .key := by decide
  simp only [Entry.set, hfind]

theorem set_value (s : String) : x.set ("value", .string s) = some { x with value := s } := by
  have hfind : Field.find "value" = some .value := by decide
  simp only [Entry.set, hfind]

end Set

theorem unmarshal_encode (h : e.Uint64) : unmarshal (encodeObject e.members) = some e := by
  have hparse : parse (encodeObject e.members) = some (.object e.values) :=
    parse_encodeObject (encodesAll_members e)
  have hset : e.values.foldlM Entry.set Entry.zero = some e := by
    by_cases hv : e.value = ""
    · rw [Entry.values, if_pos hv]
      simp only [List.append_nil, List.foldlM_cons, set_term _ h.term_lt,
        set_version _ h.version_lt, set_op, set_key, Option.bind_eq_bind, Option.bind_some,
        List.foldlM_nil, Entry.zero]
      rw [← hv]
      rfl
    · rw [Entry.values, if_neg hv]
      simp only [List.cons_append, List.nil_append, List.foldlM_cons, set_term _ h.term_lt,
        set_version _ h.version_lt, set_op, set_key, set_value, Option.bind_eq_bind,
        Option.bind_some, List.foldlM_nil]
      rfl
  rw [unmarshal, hparse]
  exact hset

theorem newline_notMem_members (e : Entry) : newline ∉ encodeObject e.members := by
  refine newline_notMem_encodeObject fun m hm => ?_
  rcases List.mem_append.1 hm with hm | hm
  · simp only [List.mem_cons, List.not_mem_nil, or_false] at hm
    rcases hm with rfl | rfl | rfl | rfl
    · exact newline_notMem_encodeNat _
    · exact newline_notMem_encodeNat _
    · exact newline_notMem_encodeString _
    · exact newline_notMem_encodeString _
  · split at hm
    · exact absurd hm List.not_mem_nil
    · exact List.mem_singleton.1 hm ▸ newline_notMem_encodeString _

theorem scanLines_append {line : Bytes} (h : newline ∉ line) (rest : Bytes) :
    scanLines (line ++ newline :: rest) = line :: scanLines rest := by
  induction line with
  | nil => rfl
  | cons b line ih =>
    rw [List.mem_cons, not_or] at h
    rw [List.cons_append, scanLines, if_neg (Ne.symm h.1), ih h.2]

/-- A written object ends with its brace, so nothing is dropped there. -/
theorem dropCR_members (p : Bytes) (e : Entry) :
    dropCR (p ++ encodeObject e.members) = p ++ encodeObject e.members := by
  rw [dropCR, getLast_encodeObject]
  exact if_neg (by decide)

theorem scanLines_encode (e : Entry) (rest : Bytes) :
    scanLines (encode e ++ rest) = encodeObject e.members :: scanLines rest := by
  rw [encode, List.append_assoc]
  exact scanLines_append (newline_notMem_members e) rest

theorem readLines_members (h : e.Uint64) (hs : e.Short) (lines : List Bytes) :
    readLines (encodeObject e.members :: lines) = e :: readLines lines := by
  have hlen : ¬ maxScanTokenSize ≤ (encodeObject e.members).length := not_le.2 hs
  have hcr : dropCR (encodeObject e.members) = encodeObject e.members := dropCR_members [] e
  have hne : encodeObject e.members ≠ [] := List.cons_ne_nil _ _
  rw [readLines, if_neg hlen, hcr, if_neg hne, unmarshal_encode h]

theorem readAll_encode (h : e.Uint64) (hs : e.Short) (rest : Bytes) :
    readAll (encode e ++ rest) = e :: readAll rest := by
  rw [readAll, scanLines_encode, readLines_members h hs, readAll]

theorem appendAll_eq (file : Bytes) (es : List Entry) :
    appendAll file es = file ++ es.flatMap encode := by
  induction es generalizing file with
  | nil => exact (List.append_nil file).symm
  | cons e es ih =>
    rw [appendAll, List.foldl_cons, ← appendAll, ih, append, List.flatMap_cons, List.append_assoc]

theorem readAll_append {es : List Entry} (h : ∀ e ∈ es, e.Fits) (rest : Bytes) :
    readAll (es.flatMap encode ++ rest) = es ++ readAll rest := by
  induction es with
  | nil => rfl
  | cons e es ih =>
    have he := h e List.mem_cons_self
    rw [List.flatMap_cons, List.append_assoc, readAll_encode he.uint64 he.short,
      ih fun x hx => h x (List.mem_cons_of_mem _ hx)]
    rfl

/-- What was appended to a log is read from it. -/
theorem readAll_encodeAll {es : List Entry} (h : ∀ e ∈ es, e.Fits) :
    readAll (es.flatMap encode) = es := by
  have := readAll_append h []
  rwa [List.append_nil, show readAll [] = [] from rfl, List.append_nil] at this

/-! ### Torn lines -/

/-- What follows the rest of a torn line is not read. -/
theorem readAll_glued {p : Bytes} (hp : p ≠ []) (hpre : p <+: encodeObject e.members) (f : Entry)
    (rest : Bytes) : readAll (p ++ (encode f ++ rest)) = [] := by
  obtain ⟨b, bs, rfl⟩ := List.exists_cons_of_ne_nil hp
  have hb : b = lbrace := by
    obtain ⟨t, ht⟩ := hpre
    exact (List.cons.inj ht).1
  have hline : newline ∉ b :: bs ++ encodeObject f.members := by
    rw [List.mem_append, not_or]
    exact ⟨fun h => newline_notMem_members e (hpre.subset h), newline_notMem_members f⟩
  have hinvalid : unmarshal (b :: bs ++ encodeObject f.members) = none := by
    obtain ⟨ms, hms⟩ : ∃ ms, f.members = ("term", encodeNat f.term) :: ms := ⟨_, rfl⟩
    have hscans := EncodesAll.scans (encodesAll_members f)
    rw [hms] at hscans ⊢
    have hname : encodeChars "term".toList = 0x74 :: [0x65, 0x72, 0x6d] := by decide
    have hvalid : checkValid (b :: bs ++ encodeObject (("term", encodeNat f.term) :: ms)) = false :=
      not_checkValid_glued (hb ▸ by decide) bs hname (by decide) (by decide)
        (Scan.scans_encodeNat f.term) fun m hm => hscans m (List.mem_cons_of_mem _ hm)
    rw [unmarshal, parse, hvalid]
    rfl
  have hlines : scanLines (b :: bs ++ (encode f ++ rest))
      = (b :: bs ++ encodeObject f.members) :: scanLines rest := by
    rw [encode, List.append_assoc, ← List.append_assoc]
    exact scanLines_append hline rest
  rw [readAll, hlines, readLines, dropCR_members, hinvalid]
  split
  · rfl
  · exact if_neg (List.cons_ne_nil _ _)

/-- A log that a crash during `Append` of `e` has left with the bytes `p` of its line, and
    to which the entries `fs` are appended after a restart, is read with all of `es` and
    `fs` exactly if the crash left nothing of the line or all of it, or nothing is
    appended. -/
theorem torn_tail_iff {es fs : List Entry} {e : Entry} {p : Bytes} (hes : ∀ x ∈ es, x.Fits)
    (he : e.Fits) (hfs : ∀ x ∈ fs, x.Fits) (hp : p <+: encode e) :
    (∃ mid, readAll (appendAll (openFile (some (es.flatMap encode ++ p))) fs) = es ++ mid ++ fs)
      ↔ p = [] ∨ p = encode e ∨ fs = [] := by
  have hread : readAll (appendAll (openFile (some (es.flatMap encode ++ p))) fs)
      = es ++ readAll (p ++ fs.flatMap encode) := by
    rw [appendAll_eq, openFile, Option.getD_some, List.append_assoc, readAll_append hes]
  rw [hread]
  constructor
  · rintro ⟨mid, hmid⟩
    rw [List.append_assoc, List.append_cancel_left_eq] at hmid
    by_contra! h
    obtain ⟨hne, hall, hfs'⟩ := h
    -- The bytes end before the line's end, and the first line of `fs` is glued to them.
    have hpre : p <+: encodeObject e.members := by
      rcases List.prefix_concat_iff.1 hp with h | h
      · exact absurd h hall
      · exact h
    obtain ⟨f, fs, rfl⟩ := List.exists_cons_of_ne_nil hfs'
    rw [List.flatMap_cons, readAll_glued hne hpre] at hmid
    simp at hmid
  · rintro (rfl | rfl | rfl)
    · exact ⟨[], by rw [List.nil_append, readAll_encodeAll hfs, List.append_nil]⟩
    · exact ⟨[e], by rw [readAll_encode he.uint64 he.short, readAll_encodeAll hfs]; simp⟩
    · exact ⟨readAll (p ++ [].flatMap encode), by rw [List.append_nil]⟩

/-- Two writes. -/
def examplePuts : Entry × Entry :=
  ({ term := 1, version := 1, op := "put", key := "a", value := "1" },
    { term := 1, version := 2, op := "put", key := "b", value := "<2>" })

theorem examplePuts_fit : examplePuts.1.Fits ∧ examplePuts.2.Fits :=
  ⟨⟨by decide, by decide, by decide⟩, ⟨by decide, by decide, by decide⟩⟩

theorem torn_tail_examplePuts :
    ∃ mid, readAll (appendAll (openFile (some ([examplePuts.1].flatMap encode ++
      encode examplePuts.2))) [examplePuts.1]) = [examplePuts.1] ++ mid ++ [examplePuts.1] :=
  (torn_tail_iff (List.forall_mem_singleton.2 examplePuts_fit.1) examplePuts_fit.2
    (List.forall_mem_singleton.2 examplePuts_fit.1) (List.prefix_refl _)).2 (Or.inr (Or.inl rfl))

/-- The first bytes of a line are left in the log, and the entry appended behind them
    is lost. -/
theorem append_behind_torn_line :
    ¬ ∃ mid, readAll (appendAll (openFile (some ([].flatMap encode ++
      (encodeObject examplePuts.1.members).take 9))) [examplePuts.2])
        = [] ++ mid ++ [examplePuts.2] := by
  have hlost : readAll (appendAll (openFile (some ([].flatMap encode ++
      (encodeObject examplePuts.1.members).take 9))) [examplePuts.2]) = [] := by
    rw [appendAll_eq]
    exact readAll_glued (by decide) ( List.take_prefix 9 _) examplePuts.2 []
  rw [hlost]
  simp

/-! ### Writes -/

/-- The operation as it is written in the log. -/
def opName : Op → String
  | .put => "put"
  | .delete => "delete"
  | .unknown => ""

/-- The operation that replay takes a name for. -/
def opOfName (s : String) : Op :=
  if s = "put" then .put else if s = "delete" then .delete else .unknown

/-- The record of a write. -/
def walEntryFrom (x : Doki.Entry) : Entry :=
  { term := x.term, version := x.version, op := opName x.op, key := x.key, value := x.value }

/-- The write that a record stands for. -/
def Entry.toWrite (e : Entry) : Doki.Entry :=
  { term := e.term, version := e.version, op := opOfName e.op, key := e.key, value := e.value }

theorem toWrite_walEntryFrom (x : Doki.Entry) : (walEntryFrom x).toWrite = x := by
  obtain ⟨t, v, op, k, val⟩ := x
  cases op <;> rfl

end Doki.Wal
