import Doki.Storage.Wal

/-!
# What is read from a write-ahead log

`Append` writes an entry of any size, and `ReadAll` reads the file with a scanner
that gives up at a line of 64 KiB. It tells nobody: a line that is too long ends
the log as a torn line does, and what stands behind it is not read either.

* `readAll_appendAll_iff`: a log is read back exactly if all of its lines are
  shorter than that. How long a line is follows from the entry (`lineLength`);
* `unmarshal_of_cut`: a part of an object is no entry;
* `readAll_take`: hence a log that is cut off anywhere is read with the entries
  whose objects are whole;
* `readAll_writes`: elsewhere in this development the log is the list of the writes that
  have been appended to it (`Files.wal`). What is read from it are those before the first
  one whose line is too long (`Entry.fits`).
-/

namespace Doki.Wal

open Json

variable {e : Entry} {es : List Entry}

/-! ### Long lines -/

/-- The number of bytes of the JSON object of an entry: the names of its fields with
    the punctuation, the digits of its numbers and its strings with their escapes. -/
def Entry.lineLength (e : Entry) : ℕ :=
  33 + (Nat.toDigits 10 e.term).length + (Nat.toDigits 10 e.version).length + quotedWidth e.op +
    quotedWidth e.key + if e.value = "" then 0 else 9 + quotedWidth e.value

theorem length_members (e : Entry) : (encodeObject e.members).length = e.lineLength := by
  have hterm : quotedWidth "term" = 6 := by decide
  have hversion : quotedWidth "version" = 9 := by decide
  have hop : quotedWidth "op" = 4 := by decide
  have hkey : quotedWidth "key" = 5 := by decide
  have hvalue : quotedWidth "value" = 7 := by decide
  unfold Entry.members Entry.lineLength
  split
  · simp only [List.append_nil, encodeObject, encodeMembers, List.length_cons, List.length_append,
      length_encodeString, length_encodeNat, hterm, hversion, hop, hkey, List.length_nil]
    omega
  · simp only [List.cons_append, List.nil_append, encodeObject, encodeMembers, List.length_cons,
      List.length_append, length_encodeString, length_encodeNat, hterm, hversion, hop, hkey, hvalue,
      List.length_nil]
    omega

theorem short_iff : e.Short ↔ e.lineLength < maxScanTokenSize := by
  rw [Entry.Short, length_members]

/-- A long line ends the log. -/
theorem readAll_long (h : ¬ e.Short) (rest : Bytes) : readAll (encode e ++ rest) = [] := by
  rw [readAll, scanLines_encode, readLines, if_pos (not_lt.1 h)]

/-- Entries that are appended to an empty log are read from it exactly if the line of
    each is shorter than 64 KiB. -/
theorem readAll_appendAll_iff (h : ∀ e ∈ es, e.Uint64) :
    readAll (appendAll (openFile none) es) = es ↔ ∀ e ∈ es, e.lineLength < maxScanTokenSize := by
  rw [appendAll_eq, openFile, Option.getD_none, List.nil_append]
  induction es with
  | nil => exact ⟨fun _ _ he => absurd he List.not_mem_nil, fun _ => rfl⟩
  | cons e es ih =>
    have ih := ih fun x hx => h x (List.mem_cons_of_mem _ hx)
    rw [List.flatMap_cons, List.forall_mem_cons, ← ih, ← short_iff]
    by_cases hs : e.Short
    · rw [readAll_encode (h e List.mem_cons_self) hs, List.cons_inj_right]
      exact ⟨fun h => ⟨hs, h⟩, And.right⟩
    · rw [readAll_long hs]
      exact ⟨fun h => absurd h (List.cons_ne_nil _ _).symm, fun h => absurd h.1 hs⟩

theorem readAll_appendAll_examplePuts :
    readAll (appendAll (openFile none) [examplePuts.1, examplePuts.2])
      = [examplePuts.1, examplePuts.2] :=
  (readAll_appendAll_iff
    (List.forall_mem_cons.2 ⟨examplePuts_fit.1.uint64,
      List.forall_mem_singleton.2 examplePuts_fit.2.uint64⟩)).2 (by decide)

/-- A write of `n` times the letter `a`. -/
def putLetters (n : ℕ) : Entry :=
  { term := 1, version := 1, op := "put", key := "k", value := String.ofList (.replicate n 'a') }

theorem le_lineLength_putLetters (n : ℕ) : n ≤ (putLetters n).lineLength := by
  have hwidth : quotedWidth (putLetters n).value = n * 1 + 2 := by
    rw [quotedWidth, putLetters, String.toList_ofList, List.map_replicate, List.sum_replicate]
    rfl
  unfold Entry.lineLength
  split
  · next h =>
    rw [h, show quotedWidth "" = 2 from rfl] at hwidth
    omega
  · omega

/-- A value of 64 KiB is lost, and so is the write behind it. -/
theorem long_value_lost :
    readAll (appendAll (openFile none) [putLetters 65536, examplePuts.2])
      ≠ [putLetters 65536, examplePuts.2] := by
  have hlong : ¬ (putLetters 65536).Short := fun h =>
    not_le.2 (short_iff.1 h) (le_lineLength_putLetters 65536)
  rw [appendAll_eq, openFile, Option.getD_none, List.nil_append, List.flatMap_cons,
    readAll_long hlong]
  exact (List.cons_ne_nil _ _).symm

/-! ### Cut-off logs -/

theorem scanLines_of_notMem {line : Bytes} (h : newline ∉ line) (hne : line ≠ []) :
    scanLines line = [line] := by
  induction line with
  | nil => exact absurd rfl hne
  | cons b line ih =>
    rw [List.mem_cons, not_or] at h
    rw [scanLines, if_neg (Ne.symm h.1)]
    cases line with
    | nil => rfl
    | cons c line => rw [ih h.2 (List.cons_ne_nil _ _)]

theorem dropCR_prefix (line : Bytes) : dropCR line <+: line := by
  unfold dropCR
  split
  · exact line.dropLast_prefix
  · exact List.prefix_rfl

/-- A part of an object is no entry. -/
theorem unmarshal_of_cut {p : Bytes} (hp : p <+: encodeObject e.members)
    (hlt : p.length < (encodeObject e.members).length) : unmarshal p = none := by
  rw [unmarshal, parse_of_cut (parse_encodeObject (encodesAll_members e)) hp hlt]
  rfl

/-- Nothing is read from a part of an object. -/
theorem readAll_of_cut {p : Bytes} (hp : p <+: encodeObject e.members)
    (hlt : p.length < (encodeObject e.members).length) : readAll p = [] := by
  by_cases hne : p = []
  · rw [hne]
    rfl
  have hline : newline ∉ p := fun h => newline_notMem_members e (hp.subset h)
  rw [readAll, scanLines_of_notMem hline hne, readLines]
  split
  · rfl
  · by_cases hcr : dropCR p = []
    · rw [if_pos hcr]
      rfl
    · have hpre := dropCR_prefix p
      rw [if_neg hcr, unmarshal_of_cut (hpre.trans hp) (lt_of_le_of_lt hpre.length_le hlt)]

/-- An object is read although its line has no end. -/
theorem readAll_members (h : e.Uint64) (hs : e.Short) : readAll (encodeObject e.members) = [e] := by
  rw [readAll, scanLines_of_notMem (newline_notMem_members e) (List.cons_ne_nil _ _),
    readLines_members h hs, readLines]

/-- The entries of a log, each with the offset in the file at which its JSON object
    ends. -/
def objectEnds (es : List Entry) : List (Entry × ℕ) :=
  es.mapIdx fun i e => (e, ((es.take i).flatMap encode).length + (encodeObject e.members).length)

theorem objectEnds_cons (e : Entry) (es : List Entry) :
    objectEnds (e :: es) = (e, (encodeObject e.members).length) ::
      (objectEnds es).map fun x => (x.1, (encode e).length + x.2) := by
  rw [objectEnds, List.mapIdx_cons, List.take_zero, List.flatMap_nil, List.length_nil, zero_add]
  refine congrArg _ (List.ext_getElem? fun i => ?_)
  simp only [objectEnds, List.getElem?_map, List.getElem?_mapIdx, List.take_succ_cons,
    List.flatMap_cons, List.length_append, Option.map_map, Function.comp_def, Nat.add_assoc]

/-- The entries whose objects end no later than at offset `n`. -/
def completeBefore (n : ℕ) (es : List Entry) : List Entry :=
  ((objectEnds es).filter fun x => x.2 ≤ n).map Prod.fst

theorem completeBefore_cons (n : ℕ) (e : Entry) (es : List Entry) :
    completeBefore n (e :: es) =
      (if (encodeObject e.members).length ≤ n then [e] else []) ++
        (if (encode e).length ≤ n then completeBefore (n - (encode e).length) es else []) := by
  have htail : (((objectEnds es).map fun x => (x.1, (encode e).length + x.2)).filter
      fun x => x.2 ≤ n).map Prod.fst
        = if (encode e).length ≤ n then completeBefore (n - (encode e).length) es else [] := by
    rw [List.filter_map, List.map_map]
    split
    · next hn =>
      rw [completeBefore]
      refine congrArg _ (List.filter_congr fun x _ => ?_)
      simp only [Function.comp_apply, Nat.le_sub_iff_add_le' hn]
    · next hn =>
      rw [List.filter_eq_nil_iff.2 fun x _ => ?_, List.map_nil]
      simp only [Function.comp_apply, decide_eq_true_eq]
      omega
  rw [completeBefore, objectEnds_cons, List.filter_cons, ← htail]
  split <;> simp_all

/-- A log that is cut off at offset `n` is read with the entries whose objects end no
    later, and with no other entry. -/
theorem readAll_take (h : ∀ e ∈ es, e.Uint64)
    (hs : ∀ e ∈ es, (encodeObject e.members).length < maxScanTokenSize) (n : ℕ) :
    readAll ((appendAll (openFile none) es).take n) = completeBefore n es := by
  rw [appendAll_eq, openFile, Option.getD_none, List.nil_append]
  induction es generalizing n with
  | nil =>
    rw [List.flatMap_nil, List.take_nil]
    rfl
  | cons e es ih =>
    have he := h e List.mem_cons_self
    have hse := hs e List.mem_cons_self
    have hlen : (encode e).length = (encodeObject e.members).length + 1 := List.length_append
    rw [List.flatMap_cons, completeBefore_cons]
    rcases lt_trichotomy n (encodeObject e.members).length with hn | hn | hn
    · -- The cut is inside the object, or before it.
      have hcut : (encode e ++ es.flatMap encode).take n = (encodeObject e.members).take n := by
        rw [encode, List.append_assoc, List.take_append_of_le_length hn.le]
      rw [hcut, if_neg (by omega), if_neg (by omega)]
      exact readAll_of_cut ( List.take_prefix n _) (by rw [List.length_take]; omega)
    · -- The line of the entry lacks its end.
      have hcut : (encode e ++ es.flatMap encode).take n = encodeObject e.members := by
        rw [encode, List.append_assoc, List.take_append_of_le_length hn.le, hn, List.take_length]
      rw [hcut, if_pos hn.ge, if_neg (by omega)]
      exact readAll_members he hse
    · have hcut : (encode e ++ es.flatMap encode).take n
          = encode e ++ (es.flatMap encode).take (n - (encode e).length) := by
        rw [List.take_append, List.take_of_length_le (by omega)]
      rw [hcut, readAll_encode he hse, if_pos hn.le, if_pos (by omega),
        ih (fun x hx => h x (List.mem_cons_of_mem _ hx))
          (fun x hx => hs x (List.mem_cons_of_mem _ hx))]
      rfl

/-- The first of two lines is whole, the second is cut off. -/
theorem readAll_take_examplePuts :
    readAll ((appendAll (openFile none) [examplePuts.1, examplePuts.2]).take 100)
        = completeBefore 100 [examplePuts.1, examplePuts.2] ∧
      completeBefore 100 [examplePuts.1, examplePuts.2] = [examplePuts.1] :=
  ⟨readAll_take
    (List.forall_mem_cons.2 ⟨examplePuts_fit.1.uint64,
      List.forall_mem_singleton.2 examplePuts_fit.2.uint64⟩)
    (List.forall_mem_cons.2 ⟨examplePuts_fit.1.short,
      List.forall_mem_singleton.2 examplePuts_fit.2.short⟩) 100, by decide⟩

end Doki.Wal

/-! ### The log of the disk model -/

namespace Doki

/-- The line of the write in the log is short enough to be read again. -/
def Entry.fits (e : Entry) : Bool :=
  decide ((Wal.walEntryFrom e).lineLength < Wal.maxScanTokenSize)

theorem Entry.fits_iff {e : Entry} : e.fits = true ↔ (Wal.walEntryFrom e).Short := by
  rw [Entry.fits, decide_eq_true_eq, Wal.short_iff]

/-- What is read from a log of writes: those before the first one that is too long. -/
theorem Wal.readAll_writes {es : List Doki.Entry} (h : ∀ e ∈ es, (walEntryFrom e).Uint64) :
    (readAll ((es.map walEntryFrom).flatMap encode)).map Entry.toWrite =
      es.takeWhile Doki.Entry.fits := by
  induction es with
  | nil => rfl
  | cons e es ih =>
    have ih := ih fun x hx => h x (List.mem_cons_of_mem _ hx)
    rw [List.map_cons, List.flatMap_cons]
    cases hfits : e.fits with
    | true =>
      rw [readAll_encode (h e List.mem_cons_self) (Entry.fits_iff.1 hfits), List.map_cons, ih,
        toWrite_walEntryFrom, List.takeWhile_cons_of_pos hfits]
    | false =>
      have hlong : ¬(walEntryFrom e).Short := fun hs => by
        rw [Entry.fits_iff.2 hs] at hfits
        cases hfits
      rw [readAll_long hlong, List.takeWhile_cons_of_neg (by simp [hfits])]
      rfl

end Doki
