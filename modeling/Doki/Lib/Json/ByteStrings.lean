import Doki.Lib.Json.Decode

/-!
# Byte strings in JSON

A string of Go is a sequence of bytes, and `encoding/json` writes any of them as a
JSON string: its characters as they are, with the escapes, and a `\ufffd` for each
byte at which no character starts.

* `spells_encodeBytes`: such a string is read as its characters (`runes`), with the
  replacement character for those bytes;
* `asText_eq_iff`: the bytes of what is read are those that were written exactly if
  these are UTF-8;
* `asText_eq_repair`: they are always the bytes that were written, with the replacement
  character for those that are not UTF-8.
-/

namespace Json

/-! ### Writing -/

/-- What is written for a byte at which no character starts. -/
def encodeInvalid : Bytes := [backslash, 0x75, 0x66, 0x66, 0x66, 0x64]

/-- What is written for the first character of a byte sequence. -/
def encodeRune (bs : Bytes) : Bytes :=
  match bs.toByteArray.utf8DecodeChar? 0 with
  | some c => encodeChar c
  | none => encodeInvalid

/-- The characters of a byte sequence in `n` rounds. -/
def encodeRunes : ℕ → Bytes → Bytes
  | n + 1, b :: bs => encodeRune (b :: bs) ++ encodeRunes n (decodeRune (b :: bs)).2
  | _, _ => []

/-- A byte string with its quotes. -/
def encodeBytes (bs : Bytes) : Bytes := quote :: (encodeRunes bs.length bs ++ [quote])

/-! ### Reading -/

theorem run_encodeRune (stack : List Inside) (bs : Bytes) :
    Scan.run ⟨.inString, stack⟩ (encodeRune bs) = some ⟨.inString, stack⟩ := by
  unfold encodeRune
  split
  · exact Scan.run_encodeChar _
  · exact Scan.run_unicode rfl rfl rfl rfl

theorem run_encodeRunes (stack : List Inside) (n : ℕ) (bs : Bytes) :
    Scan.run ⟨.inString, stack⟩ (encodeRunes n bs) = some ⟨.inString, stack⟩ := by
  induction n generalizing bs with
  | zero => rw [encodeRunes.eq_def]; rfl
  | succ n ih =>
    cases bs with
    | nil => rfl
    | cons b bs => rw [encodeRunes, Scan.run_append, run_encodeRune, Option.bind_some, ih]

theorem parseString_encodeRune (n : ℕ) (bs rest : Bytes) :
    parseString (n + 1) (encodeRune bs ++ rest)
      = (parseString n rest).map (consChar (decodeRune bs).1) := by
  rw [encodeRune, decodeRune]
  cases bs.toByteArray.utf8DecodeChar? 0 with
  | none => rfl
  | some c => exact parseString_encodeChar n c rest

theorem parseString_encodeRunes (n : ℕ) (bs rest : Bytes) {k : ℕ}
    (hk : (decodeRunes n bs).length < k) :
    parseString k (encodeRunes n bs ++ quote :: rest) = some (decodeRunes n bs, rest) := by
  induction n generalizing bs k with
  | zero =>
    obtain ⟨k, rfl⟩ := Nat.exists_eq_succ_of_ne_zero (Nat.ne_zero_of_lt hk)
    rw [encodeRunes.eq_def, decodeRunes.eq_def]
    rfl
  | succ n ih =>
    obtain ⟨k, rfl⟩ := Nat.exists_eq_succ_of_ne_zero (Nat.ne_zero_of_lt hk)
    cases bs with
    | nil => rfl
    | cons b bs =>
      rw [decodeRunes, List.length_cons] at hk
      rw [encodeRunes, decodeRunes, List.append_assoc, parseString_encodeRune,
        ih _ (Nat.lt_of_succ_lt_succ hk)]
      rfl

theorem length_decodeRunes_le (n : ℕ) (bs : Bytes) :
    (decodeRunes n bs).length ≤ (encodeRunes n bs).length := by
  induction n generalizing bs with
  | zero => rw [decodeRunes.eq_def]; exact Nat.zero_le _
  | succ n ih =>
    cases bs with
    | nil => exact le_rfl
    | cons b bs =>
      have hpos : 0 < (encodeRune (b :: bs)).length := by
        unfold encodeRune
        split
        · next c _ =>
          have h := length_le_encodeChars [c]
          rw [encodeChars, List.flatMap_singleton] at h
          exact h
        · exact Nat.succ_pos _
      rw [decodeRunes, encodeRunes, List.length_cons, List.length_append, Nat.add_comm]
      exact Nat.add_le_add hpos (ih _)

/-- A written byte string is read as its characters. -/
theorem spells_encodeBytes (bs : Bytes) : Spells (encodeBytes bs) (String.ofList (runes bs)) := by
  refine ⟨_, rfl, fun stack => ?_, fun rest => ?_⟩
  · rw [Scan.run_append, run_encodeRunes, Option.bind_some]
    rfl
  · have h := length_decodeRunes_le bs.length bs
    rw [List.append_assoc, List.singleton_append, String.toList_ofList]
    refine parseString_encodeRunes bs.length bs rest ?_
    rw [List.length_append, List.length_cons]
    omega

/-! ### What is left of the bytes -/

/-- The bytes of a string that was read. -/
def toBytes (s : String) : Bytes := utf8Encode s.toList

/-- The bytes of a byte string after it was written and read. -/
def asText (bs : Bytes) : Bytes := utf8Encode (runes bs)

theorem toBytes_runes (bs : Bytes) : toBytes (String.ofList (runes bs)) = asText bs := by
  rw [toBytes, String.toList_ofList, asText]

/-- The bytes stay what they are exactly if they are UTF-8. -/
theorem asText_eq_iff {bs : Bytes} : asText bs = bs ↔ bs.toByteArray.IsValidUTF8 := by
  constructor
  · exact fun h => ⟨runes bs, congrArg List.toByteArray h.symm⟩
  · rintro ⟨cs, hcs⟩
    have hbs : bs = utf8Encode cs := List.toByteArray_inj.1 hcs
    rw [asText, hbs, runes_utf8Encode]

/-- What is read is UTF-8. -/
theorem isValidUTF8_asText (bs : Bytes) : (asText bs).toByteArray.IsValidUTF8 := ⟨runes bs, rfl⟩

/-- The bytes in `n` rounds: a character is copied, and a byte at which none starts is
    replaced. -/
def repairIn : ℕ → Bytes → Bytes
  | n + 1, b :: bs =>
    match (b :: bs).toByteArray.utf8DecodeChar? 0 with
    | some c => (b :: bs).take c.utf8Size ++ repairIn n ((b :: bs).drop c.utf8Size)
    | none => 0xef :: 0xbf :: 0xbd :: repairIn n bs
  | _, _ => []

/-- The bytes, with those of U+FFFD for every byte at which no character starts. -/
def repair (bs : Bytes) : Bytes := repairIn bs.length bs

/-- A character that is found is made of the bytes in front. -/
theorem utf8EncodeChar_of_utf8DecodeChar {bs : Bytes} {c : Char}
    (h : bs.toByteArray.utf8DecodeChar? 0 = some c) :
    String.utf8EncodeChar c = bs.take c.utf8Size := by
  have hdata := congrArg ByteArray.data
    (String.toByteArray_utf8EncodeChar_of_utf8DecodeChar?_eq_some h)
  simpa using hdata

theorem utf8EncodeChar_replacementChar :
    String.utf8EncodeChar replacementChar = [0xef, 0xbf, 0xbd] := by
  decide +kernel

theorem utf8Encode_decodeRunes (n : ℕ) (bs : Bytes) :
    utf8Encode (decodeRunes n bs) = repairIn n bs := by
  induction n generalizing bs with
  | zero => rw [decodeRunes.eq_def, repairIn.eq_def]; rfl
  | succ n ih =>
    cases bs with
    | nil => rfl
    | cons b bs =>
      rw [decodeRunes, repairIn, utf8Encode, List.flatMap_cons, ← utf8Encode, ih, decodeRune]
      cases hc : (b :: bs).toByteArray.utf8DecodeChar? 0 with
      | some c => rw [utf8EncodeChar_of_utf8DecodeChar hc]
      | none => exact congrArg (· ++ repairIn n bs) utf8EncodeChar_replacementChar

theorem asText_eq_repair (bs : Bytes) : asText bs = repair bs :=
  utf8Encode_decodeRunes bs.length bs

end Json
