import Mathlib.Data.Finset.Sort
import Mathlib.Data.List.Find
import Mathlib.Data.List.Lex
import Mathlib.Data.String.Basic
import Mathlib.Order.Lex
import Doki.Disk.Files
import Doki.Lib.Finmaps
import Doki.Lib.Json.ByteStrings
import Doki.Storage.Wal

/-!
# The snapshot as a file

A snapshot (`internal/snapshot`) is a file with the JSON text of the whole store.
The keys and values of the store are byte strings, as clients send them, and a JSON
string holds characters: a byte that is not part of one is written as the
replacement character.

* `load_save`: what `Load` finds in a file that `Save` has written;
* `load_save_iff`: this is what was saved exactly if all keys and values are UTF-8;
* `keys_merged`: two keys that are not may become one;
* `load_contents`: a store of strings is loaded as it was saved. This is why the
  disk model can keep a snapshot file as the snapshot (`SnapFile.snap`);
* `load_cut`: a file that lacks its end is refused, the one that the disk model takes
  for corrupt.
-/

namespace Doki.SnapshotFile

open Json

/-- The contents of the store, byte by byte. A map that is `nil` is taken for an empty
    one. -/
abbrev KV := Finmap fun _ : Bytes => Bytes

/-- The full persistent state of a shard replica at one point in time. -/
structure Snapshot where
  formatVersion : ℤ
  term : UInt64
  version : UInt64
  kv : KV
  deriving DecidableEq

def currentFormatVersion : ℤ := 1

inductive FormatError
  | unsupported (formatVersion : ℤ)
  | parse
  deriving DecidableEq, Repr

/-- The error's text, without the path and the details of the JSON decoder. -/
def FormatError.message : FormatError → String
  | .unsupported v => s!"unsupported snapshot format version {v}"
  | .parse => "parse snapshot"

/-- A snapshot without a format version has the current one; another version is
    refused. -/
def checkFormat (s : Snapshot) : Except FormatError Snapshot :=
  let v := if s.formatVersion = 0 then currentFormatVersion else s.formatVersion
  if v ≠ currentFormatVersion then .error (.unsupported v)
  else .ok { s with formatVersion := v }

/-! ### Writing -/

/-- The order of byte strings. -/
def bytesLE (a b : Bytes) : Prop := a.map UInt8.toNat ≤ b.map UInt8.toNat

instance : DecidableRel bytesLE := fun a b =>
  inferInstanceAs (Decidable (a.map UInt8.toNat ≤ b.map UInt8.toNat))

instance : IsTrans Bytes bytesLE := ⟨fun _ _ _ => le_trans⟩

instance : Std.Antisymm bytesLE :=
  ⟨fun _ _ h₁ h₂ => List.map_injective_iff.2 (fun _ _ => UInt8.toNat_inj.1) (le_antisymm h₁ h₂)⟩

instance : Std.Total bytesLE := ⟨fun _ _ => le_total _ _⟩

def encodeInt : ℤ → Bytes
  | .ofNat n => encodeNat n
  | .negSucc n => 0x2d :: encodeNat (n + 1)

/-- The entries of a map as they are written, in the order of their keys. -/
def mapEntries (kv : KV) : List (Bytes × Bytes) := kv.entriesAt (kv.keys.sort bytesLE)

/-- A map as an object. -/
def encodeMap (kv : KV) : Bytes :=
  writeObject ((mapEntries kv).map fun x => (encodeBytes x.1, encodeBytes x.2))

/-- `json.Marshal` of a snapshot. -/
def marshal (s : Snapshot) : Bytes :=
  writeObject [(encodeString "format_version", encodeInt s.formatVersion),
    (encodeString "term", encodeNat s.term.toNat),
    (encodeString "version", encodeNat s.version.toNat), (encodeString "kv", encodeMap s.kv)]

theorem marshal_eq (s : Snapshot) :
    marshal s = encodeObject [("format_version", encodeInt s.formatVersion),
      ("term", encodeNat s.term.toNat), ("version", encodeNat s.version.toNat),
      ("kv", encodeMap s.kv)] := by
  rw [encodeObject_eq]
  rfl

/-- The contents of the file that `Save` leaves at the path. -/
def save (s : Snapshot) : Except FormatError Bytes := (checkFormat s).map marshal

/-! ### Reading -/

inductive Field
  | formatVersion
  | term
  | version
  | kv
  deriving DecidableEq, Repr

/-- The field of a name. -/
def Field.name : Field → String
  | .formatVersion => "format_version"
  | .term => "term"
  | .version => "version"
  | .kv => "kv"

/-- The field that a member of an object sets. -/
def Field.find (name : String) : Option Field :=
  [Field.formatVersion, .term, .version, .kv].find? fun f =>
    Wal.foldName f.name == Wal.foldName name

/-- A number of type `int`. -/
def parseInt (literal : Bytes) : Option ℤ :=
  if literal.head? = some 0x2d then
    ((Wal.parseUint literal.tail).filter (· ≤ 2 ^ 63)).map fun n => -(n : ℤ)
  else ((Wal.parseUint literal).filter (· < 2 ^ 63)).map fun n => (n : ℤ)

/-- The map with the entry of a member; there is none if the value is no string. The
    value `null` is read as the empty string. -/
def setEntry (kv : KV) (m : String × Value) : Option KV :=
  match m.2 with
  | .string s => some (kv.insert (toBytes m.1) (toBytes s))
  | .null => some (kv.insert (toBytes m.1) [])
  | _ => none

/-- The snapshot with the field of a member set; there is none if the value is not of the
    field's type. Members of other names are skipped, and so is `null` for a number. -/
def Snapshot.set (s : Snapshot) (m : String × Value) : Option Snapshot :=
  match Field.find m.1, m.2 with
  | none, _ => some s
  | some .kv, .null => some { s with kv := ∅ }
  | some .kv, .object ms => (ms.foldlM setEntry s.kv).map fun kv => { s with kv := kv }
  | some _, .null => some s
  | some .formatVersion, .number literal =>
    (parseInt literal).map fun n => { s with formatVersion := n }
  | some .term, .number literal =>
    (Wal.parseUint literal).map fun n => { s with term := .ofNat n }
  | some .version, .number literal =>
    (Wal.parseUint literal).map fun n => { s with version := .ofNat n }
  | some _, _ => none

def Snapshot.zero : Snapshot := { formatVersion := 0, term := 0, version := 0, kv := ∅ }

/-- `json.Unmarshal` into a snapshot. -/
def unmarshal (data : Bytes) : Option Snapshot :=
  (parse data).bind fun
    | .null => some Snapshot.zero
    | .object ms => ms.foldlM Snapshot.set Snapshot.zero
    | _ => none

/-- `Load`, with the contents of the file at the path. -/
def load : Option Bytes → Except FormatError (Option Snapshot)
  | none => .ok none
  | some data =>
    match unmarshal data with
    | none => .error .parse
    | some s => (checkFormat s).map some

/-! ### Reading back what was written -/

/-- The store as it is read. -/
def loaded (kv : KV) : KV :=
  (mapEntries kv).foldl (fun m x => m.insert (asText x.1) (asText x.2)) ∅

theorem mem_mapEntries {kv : KV} {x : Bytes × Bytes} :
    x ∈ mapEntries kv ↔ kv.lookup x.1 = some x.2 := by
  rw [mapEntries, Finmap.mem_entriesAt, Finset.mem_sort, Finmap.mem_keys, and_iff_right_iff_imp]
  exact Finmap.mem_of_lookup_eq_some

/-- The members of the object of a map. -/
def mapValues (kv : KV) : List (String × Value) :=
  (mapEntries kv).map fun x => (String.ofList (runes x.1), .string (String.ofList (runes x.2)))

theorem encodesIn_encodeMap (kv : KV) : EncodesIn [] (encodeMap kv) (.object (mapValues kv)) := by
  refine encodesIn_writeObject ?_ (by decide)
  rw [mapValues]
  generalize mapEntries kv = xs
  induction xs with
  | nil => exact .nil
  | cons x xs ih =>
    exact .cons ⟨spells_encodeBytes x.1, (spells_encodeBytes x.2).encodes.encodesIn _⟩ ih

/-- The members of the JSON object of a snapshot. -/
def Snapshot.values (s : Snapshot) : List (String × Value) :=
  [("format_version", .number (encodeNat 1)), ("term", .number (encodeNat s.term.toNat)),
    ("version", .number (encodeNat s.version.toNat)), ("kv", .object (mapValues s.kv))]

theorem parse_marshal {s : Snapshot} (hs : s.formatVersion = 1) :
    parse (marshal s) = some (.object s.values) := by
  rw [marshal, hs]
  refine parse_writeObject (.cons ⟨spells_encodeString _, ?_⟩ (.cons ⟨spells_encodeString _, ?_⟩
    (.cons ⟨spells_encodeString _, ?_⟩ (.cons ⟨spells_encodeString _, ?_⟩ .nil))))
  · exact (encodes_encodeNat 1).encodesIn []
  · exact (encodes_encodeNat _).encodesIn []
  · exact (encodes_encodeNat _).encodesIn []
  · exact encodesIn_encodeMap s.kv

theorem setEntry_string (kv : KV) (name value : String) :
    setEntry kv (name, .string value) = some (kv.insert (toBytes name) (toBytes value)) := rfl

theorem foldlM_setEntry (xs : List (Bytes × Bytes)) (kv : KV) :
    (xs.map fun x => ((String.ofList (runes x.1),
        .string (String.ofList (runes x.2))) : String × Value)).foldlM setEntry kv
      = some (xs.foldl (fun m x => m.insert (asText x.1) (asText x.2)) kv) := by
  induction xs generalizing kv with
  | nil => rfl
  | cons x xs ih =>
    rw [List.map_cons, List.foldlM_cons, setEntry_string, toBytes_runes, toBytes_runes]
    exact ih _

theorem set_values {s : Snapshot} (hs : s.formatVersion = 1) :
    s.values.foldlM Snapshot.set Snapshot.zero = some { s with kv := loaded s.kv } := by
  have hversion : Field.find "format_version" = some .formatVersion := by decide
  have hterm : Field.find "term" = some .term := by decide
  have hversion' : Field.find "version" = some .version := by decide
  have hkv : Field.find "kv" = some .kv := by decide
  have hone : parseInt (encodeNat 1) = some 1 := by decide
  have hmap : (mapValues s.kv).foldlM setEntry ∅ = some (loaded s.kv) := foldlM_setEntry _ ∅
  simp only [Snapshot.values, List.foldlM_cons, List.foldlM_nil, Snapshot.set, hversion, hterm,
    hversion', hkv, hone, Wal.parseUint_encodeNat (UInt64.toNat_lt _), Snapshot.zero,
    Option.map_some, Option.bind_eq_bind, Option.bind_some, hmap, UInt64.ofNat_toNat, ← hs]
  rfl

theorem checkFormat_eq_ok {s t : Snapshot} :
    checkFormat s = .ok t ↔
      (s.formatVersion = 0 ∨ s.formatVersion = 1) ∧ t = { s with formatVersion := 1 } := by
  unfold checkFormat currentFormatVersion
  by_cases h₀ : s.formatVersion = 0
  · simp [h₀, eq_comm]
  · by_cases h₁ : s.formatVersion = 1 <;> simp [h₀, h₁, eq_comm]

/-- What `Load` finds in a file that `Save` has written. -/
theorem load_save {s : Snapshot} {file : Bytes} (h : save s = .ok file) :
    load (some file) = .ok (some { s with formatVersion := 1, kv := loaded s.kv }) := by
  obtain ⟨t, ht, hfile⟩ : ∃ t, checkFormat s = .ok t ∧ marshal t = file := by
    rw [save] at h
    cases ht : checkFormat s with
    | error e => rw [ht] at h; cases h
    | ok t => rw [ht] at h; exact ⟨t, rfl, Except.ok.inj h⟩
  obtain ⟨_, rfl⟩ := checkFormat_eq_ok.1 ht
  have hread : unmarshal file = some { s with formatVersion := 1, kv := loaded s.kv } := by
    rw [← hfile, unmarshal, parse_marshal rfl]
    exact set_values rfl
  have hcheck : checkFormat { s with formatVersion := 1, kv := loaded s.kv }
      = .ok { s with formatVersion := 1, kv := loaded s.kv } :=
    checkFormat_eq_ok.2 ⟨Or.inr rfl, rfl⟩
  simp only [load, hread, hcheck]
  rfl

/-- What is read from a file is UTF-8. -/
theorem lookup_loaded {kv : KV} {k v : Bytes} (h : (loaded kv).lookup k = some v) :
    ∃ x ∈ mapEntries kv, asText x.1 = k ∧ asText x.2 = v := by
  rw [loaded, Finmap.lookup_foldl_insert (fun x : Bytes × Bytes => asText x.1) fun x => asText x.2,
    Finmap.lookup_empty, Option.or_none] at h
  obtain ⟨x, hx, hv⟩ := Option.map_eq_some_iff.1 h
  exact ⟨x, List.mem_reverse.1 (List.mem_of_find?_eq_some hx), by simpa using List.find?_some hx,
    hv⟩

theorem loaded_eq_iff {kv : KV} :
    loaded kv = kv ↔ ∀ k v, kv.lookup k = some v →
      k.toByteArray.IsValidUTF8 ∧ v.toByteArray.IsValidUTF8 := by
  constructor
  · intro h k v hk
    rw [← h] at hk
    obtain ⟨x, _, rfl, rfl⟩ := lookup_loaded hk
    exact ⟨isValidUTF8_asText x.1, isValidUTF8_asText x.2⟩
  · intro h
    have hentries : loaded kv = (mapEntries kv).foldl (fun m x => m.insert x.1 x.2) ∅ := by
      refine List.foldl_ext _ _ _ fun m x hx => ?_
      obtain ⟨hk, hv⟩ := h x.1 x.2 (mem_mapEntries.1 hx)
      rw [asText_eq_iff.2 hk, asText_eq_iff.2 hv]
    rw [hentries]
    exact Finmap.foldl_insert_entriesAt fun k hk =>
      (Finset.mem_sort bytesLE).2 (Finmap.mem_keys.2 hk)

/-- If `Save` succeeds, `Load` returns the same snapshot exactly if all keys and values of
    the store are UTF-8. -/
theorem load_save_iff {s : Snapshot} {file : Bytes} (h : save s = .ok file) :
    (∃ t, load (some file) = .ok (some t) ∧ t.term = s.term ∧ t.version = s.version ∧
        t.kv = s.kv) ↔
      ∀ k v, s.kv.lookup k = some v →
        k.toByteArray.IsValidUTF8 ∧ v.toByteArray.IsValidUTF8 := by
  rw [← loaded_eq_iff, load_save h]
  constructor
  · rintro ⟨t, ht, -, -, hkv⟩
    obtain rfl := Option.some.inj (Except.ok.inj ht)
    exact hkv
  · exact fun hkv => ⟨_, rfl, rfl, rfl, hkv⟩

/-- A snapshot with the store `kv`. -/
def snapshotOf (kv : KV) : Snapshot := { formatVersion := 0, term := 3, version := 42, kv := kv }

theorem save_snapshotOf (kv : KV) :
    save (snapshotOf kv) = .ok (marshal { snapshotOf kv with formatVersion := 1 }) := rfl

/-- The store `{"foo": "bar"}`. -/
def fooBar : KV := Finmap.singleton (toBytes "foo") (toBytes "bar")

theorem load_save_fooBar :
    ∃ t, load (some (marshal { snapshotOf fooBar with formatVersion := 1 })) = .ok (some t) ∧
      t.term = (snapshotOf fooBar).term ∧ t.version = (snapshotOf fooBar).version ∧
      t.kv = (snapshotOf fooBar).kv :=
  (load_save_iff (save_snapshotOf fooBar)).2 fun k v h => by
    obtain ⟨rfl, rfl⟩ : k = toBytes "foo" ∧ v = toBytes "bar" := by
      by_cases hk : k = toBytes "foo"
      · subst hk
        exact ⟨rfl, (Option.some.inj ((Finmap.lookup_singleton_eq).symm.trans h)).symm⟩
      · have hmem := Finmap.mem_of_lookup_eq_some h
        exact absurd ((Finmap.mem_singleton _ _ _).1 hmem) hk
    exact ⟨⟨_, rfl⟩, ⟨_, rfl⟩⟩

/-- Two keys of one byte each, none of which is UTF-8. -/
def twoKeys : KV := (Finmap.singleton [0xfe] [0x31]).insert [0xff] [0x32]

/-- Two keys become one, and it is none of them. -/
theorem keys_merged :
    ∃ file t, save (snapshotOf twoKeys) = .ok file ∧ load (some file) = .ok (some t) ∧
      (∀ k ∈ t.kv, k = toBytes "\ufffd") ∧ t.kv ≠ (snapshotOf twoKeys).kv := by
  have hkeys : ∀ k ∈ loaded twoKeys, k = toBytes "\ufffd" := by
    intro k hk
    obtain ⟨v, hv⟩ := Option.isSome_iff_exists.1 (Finmap.lookup_isSome.2 hk)
    obtain ⟨x, hx, rfl, -⟩ := lookup_loaded hv
    have hmem := Finmap.mem_of_lookup_eq_some (mem_mapEntries.1 hx)
    rw [twoKeys, Finmap.mem_insert, Finmap.mem_singleton] at hmem
    rcases hmem with h | h <;> (rw [h]; decide)
  refine ⟨_, _, save_snapshotOf twoKeys, load_save (save_snapshotOf twoKeys), hkeys, fun h => ?_⟩
  have hfe : [0xfe] ∈ loaded twoKeys := by
    rw [show loaded twoKeys = twoKeys from h, twoKeys, Finmap.mem_insert, Finmap.mem_singleton]
    exact Or.inr rfl
  exact absurd (hkeys _ hfe) (by decide)

/-! ### The snapshot of the disk model -/

/-- A store of strings, byte by byte. -/
def ofStore (kv : Doki.KV) : KV :=
  (kv.entriesAt (kv.keys.sort (· ≤ ·))).foldl (fun m x => m.insert (toBytes x.1) (toBytes x.2)) ∅

/-- The bytes of a string determine it. -/
theorem toBytes_injective : Function.Injective toBytes := fun a b h => by
  have hruns := congrArg runes h
  rw [toBytes, toBytes, runes_utf8Encode, runes_utf8Encode] at hruns
  exact String.toList_injective hruns

theorem lookup_ofStore (kv : Doki.KV) (k : String) :
    (ofStore kv).lookup (toBytes k) = (kv.lookup k).map toBytes := by
  have hkeys : ∀ a ∈ kv, a ∈ kv.keys.sort (· ≤ ·) := fun a ha =>
    (Finset.mem_sort _).2 (Finmap.mem_keys.2 ha)
  have hkv := congrArg (Finmap.lookup k) (Finmap.foldl_insert_entriesAt hkeys)
  rw [Finmap.lookup_foldl_insert, Finmap.lookup_empty, Option.or_none] at hkv
  rw [ofStore, Finmap.lookup_foldl_insert (fun x : String × String => toBytes x.1)
    fun x => toBytes x.2, Finmap.lookup_empty, Option.or_none, ← hkv, Option.map_map]
  simp only [toBytes_injective.eq_iff]
  rfl

/-- The bytes of strings are UTF-8. -/
theorem isValidUTF8_ofStore {kv : Doki.KV} {k v : Bytes} (h : (ofStore kv).lookup k = some v) :
    k.toByteArray.IsValidUTF8 ∧ v.toByteArray.IsValidUTF8 := by
  rw [ofStore, Finmap.lookup_foldl_insert (fun x : String × String => toBytes x.1)
    fun x => toBytes x.2, Finmap.lookup_empty, Option.or_none] at h
  obtain ⟨x, hx, rfl⟩ := Option.map_eq_some_iff.1 h
  have hk : toBytes x.1 = k := by simpa using List.find?_some hx
  exact ⟨hk ▸ ⟨x.1.toList, rfl⟩, ⟨x.2.toList, rfl⟩⟩

/-- The snapshot `s` as `takeSnapshot` and `resetSnapshot` save it. -/
def ofSnapshot (s : Doki.Snapshot) : Snapshot :=
  { formatVersion := 0, term := .ofNat s.term, version := .ofNat s.version, kv := ofStore s.kv }

/-- The file of the snapshot `s`. -/
def contents (s : Doki.Snapshot) : Bytes := marshal { ofSnapshot s with formatVersion := 1 }

theorem save_ofSnapshot (s : Doki.Snapshot) : save (ofSnapshot s) = .ok (contents s) := rfl

/-- A store of strings is loaded as it was saved. -/
theorem load_contents (s : Doki.Snapshot) :
    load (some (contents s)) = .ok (some { ofSnapshot s with formatVersion := 1 }) := by
  have hkv : loaded (ofSnapshot s).kv = (ofSnapshot s).kv :=
    loaded_eq_iff.2 fun k v h => isValidUTF8_ofStore h
  rw [load_save (save_ofSnapshot s), hkv]

theorem length_contents_pos (s : Doki.Snapshot) : 0 < (contents s).length := Nat.succ_pos _

/-- A file that lacks its end is refused. -/
theorem load_cut (s : Doki.Snapshot) {n : ℕ} (hn : n < (contents s).length) :
    load (some ((contents s).take n)) = .error .parse := by
  have hparse : parse (contents s) = some _ := parse_marshal rfl
  have hcut : parse ((contents s).take n) = none := by
    rw [contents, marshal_eq] at hparse hn ⊢
    exact parse_of_cut hparse ( List.take_prefix n _) (by rw [List.length_take]; omega)
  rw [load, unmarshal, hcut]
  rfl

/-- The string of some bytes. -/
def ofBytes (bs : Bytes) : String := String.ofList (runes bs)

theorem ofBytes_toBytes (s : String) : ofBytes (toBytes s) = s := by
  rw [ofBytes, toBytes, runes_utf8Encode, String.ofList_toList]

/-- The store of strings that is read from a file. -/
def toStore (kv : KV) : Doki.KV :=
  (mapEntries kv).foldl (fun m x => m.insert (ofBytes x.1) (ofBytes x.2)) ∅

theorem lookup_toStore {kv : KV} (h : ∀ k v, kv.lookup k = some v → k.toByteArray.IsValidUTF8)
    (k : String) : (toStore kv).lookup k = (kv.lookup (toBytes k)).map ofBytes := by
  have hkeys : ∀ a ∈ kv, a ∈ kv.keys.sort bytesLE := fun a ha =>
    (Finset.mem_sort _).2 (Finmap.mem_keys.2 ha)
  have hkv := congrArg (Finmap.lookup (toBytes k)) (Finmap.foldl_insert_entriesAt hkeys)
  rw [Finmap.lookup_foldl_insert, Finmap.lookup_empty, Option.or_none] at hkv
  rw [toStore, Finmap.lookup_foldl_insert (fun x : Bytes × Bytes => ofBytes x.1)
    fun x => ofBytes x.2, Finmap.lookup_empty, Option.or_none, ← hkv, Option.map_map]
  -- Keys that are UTF-8 are equal as bytes if they are as strings.
  refine congrArg _ (List.find?_congr fun x hx => ?_)
  have htext := asText_eq_iff.2 (h x.1 x.2 (mem_mapEntries.1 (List.mem_reverse.1 hx)))
  rw [← toBytes_runes] at htext
  rw [← htext]
  simp only [toBytes_injective.eq_iff, ofBytes_toBytes]

theorem toStore_ofStore (kv : Doki.KV) : toStore (ofStore kv) = kv := by
  refine Finmap.ext_lookup fun k => ?_
  rw [lookup_toStore fun _ _ h => (isValidUTF8_ofStore h).1, lookup_ofStore, Option.map_map]
  cases kv.lookup k with
  | none => rfl
  | some v => exact congrArg some (ofBytes_toBytes v)

/-- The snapshot that is read from a file. -/
def toSnapshot (s : Snapshot) : Doki.Snapshot :=
  { term := s.term.toNat, version := s.version.toNat, kv := toStore s.kv }

/-- The numbers of the snapshot are of type `uint64`. -/
structure Uint64 (s : Doki.Snapshot) : Prop where
  term_lt : s.term < 2 ^ 64
  version_lt : s.version < 2 ^ 64

theorem toSnapshot_ofSnapshot {s : Doki.Snapshot} (h : Uint64 s) (formatVersion : ℤ) :
    toSnapshot { ofSnapshot s with formatVersion := formatVersion } = s := by
  rw [toSnapshot, ofSnapshot, toStore_ofStore, UInt64.toNat_ofNat_of_lt' h.term_lt,
    UInt64.toNat_ofNat_of_lt' h.version_lt]

end Doki.SnapshotFile
