import Mathlib.Data.Finmap
import Doki.Lib.Lists

/-!
# Building finite maps

Ways of building a finite map that are not in the library: keeping the entries
that satisfy a predicate (`Finmap.filter`), changing the values
(`Finmap.mapValues`), and collecting the entries of a map at the keys of a list
(`Finmap.collect`). They are known by their lookups, and so is a map with the
entries of a list inserted one after the other (`Finmap.lookup_foldl_insert`).
-/

namespace Finmap

variable {α β : Type*} [DecidableEq α]

/-- The entries satisfying `p`. -/
def filter (p : α → β → Bool) (s : Finmap fun _ : α => β) : Finmap fun _ : α => β :=
  keysLookupEquiv.symm
    ⟨(s.keys.filter fun a => (s.lookup a).any (p a), fun a => (s.lookup a).filter (p a)),
      fun a => by cases h : s.lookup a <;> simp [h, Option.filter, mem_keys, mem_iff]⟩

@[simp] theorem lookup_filter (p : α → β → Bool) (s : Finmap fun _ : α => β) (a : α) :
    (s.filter p).lookup a = (s.lookup a).filter (p a) :=
  keysLookupEquiv_symm_apply_lookup _ _

theorem mem_of_mem_filter {p : α → β → Bool} {s : Finmap fun _ : α => β} {a : α}
    (h : a ∈ s.filter p) : a ∈ s := by
  rw [← lookup_isSome, lookup_filter] at h
  rw [← lookup_isSome]
  cases hs : s.lookup a with
  | none => simp [hs] at h
  | some b => rfl

/-- The values changed by `f`. -/
def mapValues {γ : Type*} (f : α → β → γ) (s : Finmap fun _ : α => β) : Finmap fun _ : α => γ :=
  keysLookupEquiv.symm
    ⟨(s.keys, fun a => (s.lookup a).map (f a)),
      fun a => by cases h : s.lookup a <;> simp [h, mem_keys, mem_iff]⟩

@[simp] theorem lookup_mapValues {γ : Type*} (f : α → β → γ) (s : Finmap fun _ : α => β) (a : α) :
    (s.mapValues f).lookup a = (s.lookup a).map (f a) :=
  keysLookupEquiv_symm_apply_lookup _ _

theorem mapValues_insert {γ : Type*} (f : β → γ) (s : Finmap fun _ : α => β) (a : α) (b : β) :
    (s.insert a b).mapValues (fun _ => f) = (s.mapValues fun _ => f).insert a (f b) := by
  refine ext_lookup fun c => ?_
  by_cases hc : c = a
  · subst hc
    simp
  · simp [lookup_insert_of_ne _ hc]

theorem mapValues_erase {γ : Type*} (f : β → γ) (s : Finmap fun _ : α => β) (a : α) :
    (s.erase a).mapValues (fun _ => f) = (s.mapValues fun _ => f).erase a := by
  refine ext_lookup fun c => ?_
  by_cases hc : c = a
  · subst hc
    simp
  · simp [lookup_erase_ne hc]

/-- The entries of `s` at the keys `l`. -/
def collect (s : Finmap fun _ : α => β) (l : List α) : Finmap fun _ : α => β :=
  l.foldl (fun m a => match s.lookup a with
    | some b => m.insert a b
    | none => m) ∅

/-- Collecting at one more key keeps the other entries. -/
theorem lookup_foldl_collect (s : Finmap fun _ : α => β) (l : List α)
    (m : Finmap fun _ : α => β) (a : α) :
    (l.foldl (fun m a => match s.lookup a with
      | some b => m.insert a b
      | none => m) m).lookup a =
      if a ∈ l ∧ (s.lookup a).isSome then s.lookup a else m.lookup a := by
  -- The map built so far changes in every round, so the induction is for all of them.
  induction l generalizing m with
  | nil => simp
  | cons c l ih =>
    rw [List.foldl_cons, ih]
    by_cases hac : a = c
    · subst hac
      cases s.lookup a <;> simp
    · cases hs : s.lookup c with
      | none => simp [hac]
      | some b => simp [hac, lookup_insert_of_ne m hac]

theorem lookup_collect (s : Finmap fun _ : α => β) (l : List α) (a : α) :
    (s.collect l).lookup a = if a ∈ l then s.lookup a else none := by
  rw [collect, lookup_foldl_collect, lookup_empty]
  cases s.lookup a <;> simp

theorem mem_of_mem_collect {s : Finmap fun _ : α => β} {l : List α} {a : α}
    (h : a ∈ s.collect l) : a ∈ l := by
  by_contra hl
  rw [← lookup_isSome, lookup_collect, if_neg hl] at h
  simp at h

/-- Of the entries of a list, inserted one after the other, the last one at a key stays. -/
theorem lookup_foldl_insert {γ : Type*} (key : γ → α) (value : γ → β) (l : List γ)
    (m : Finmap fun _ : α => β) (a : α) :
    (l.foldl (fun m c => m.insert (key c) (value c)) m).lookup a =
      ((l.reverse.find? (key · = a)).map value).or (m.lookup a) := by
  induction l generalizing m with
  | nil => simp
  | cons c l ih =>
    rw [List.foldl_cons, ih, List.reverse_cons, List.find?_append]
    cases l.reverse.find? (key · = a) with
    | some d => simp
    | none =>
      by_cases hc : key c = a
      · subst hc
        simp
      · simp [hc, lookup_insert_of_ne m (Ne.symm hc)]

/-- With distinct keys, every entry of the list stays. -/
theorem lookup_foldl_insert_of_nodup {γ : Type*} {key : γ → α} (value : γ → β) {l : List γ}
    (hl : (l.map key).Nodup) {a : α} {b : β} :
    (l.foldl (fun (m : Finmap fun _ : α => β) c => m.insert (key c) (value c)) ∅).lookup a =
      some b ↔ ∃ c ∈ l, key c = a ∧ value c = b := by
  have hreverse : (l.reverse.map key).Nodup := by
    rwa [List.map_reverse, List.nodup_reverse]
  simp only [lookup_foldl_insert, lookup_empty, Option.or_none, Option.map_eq_some_iff,
    List.find?_key_eq_some_iff hreverse, List.mem_reverse, and_assoc]

/-- Inserting a value for each key of a list. -/
theorem lookup_foldl_insert_self (value : α → β) (l : List α) (a : α) :
    (l.foldl (fun (m : Finmap fun _ : α => β) c => m.insert c (value c)) ∅).lookup a =
      if a ∈ l then some (value a) else none := by
  rw [lookup_foldl_insert fun c => c, lookup_empty, Option.or_none]
  split_ifs with ha
  · cases hfind : l.reverse.find? (· = a) with
    | none => exact absurd (List.find?_eq_none.1 hfind a (List.mem_reverse.2 ha)) (by simp)
    | some c =>
      have hc : c = a := by simpa using List.find?_some hfind
      rw [hc, Option.map_some]
  · rw [List.find?_eq_none.2 fun c hc hca => ha ?_, Option.map_none]
    exact of_decide_eq_true hca ▸ List.mem_reverse.1 hc

/-- The entries of `s` at the keys `l`, as a list. -/
def entriesAt (s : Finmap fun _ : α => β) (l : List α) : List (α × β) :=
  l.filterMap fun a => (s.lookup a).map (a, ·)

theorem mem_entriesAt {s : Finmap fun _ : α => β} {l : List α} {x : α × β} :
    x ∈ s.entriesAt l ↔ x.1 ∈ l ∧ s.lookup x.1 = some x.2 := by
  rw [entriesAt, List.mem_filterMap]
  constructor
  · rintro ⟨a, ha, h⟩
    obtain ⟨b, hb, rfl⟩ := Option.map_eq_some_iff.1 h
    exact ⟨ha, hb⟩
  · rintro ⟨ha, hb⟩
    exact ⟨x.1, ha, by rw [hb]; rfl⟩

/-- A map is what its entries make. -/
theorem foldl_insert_entriesAt {s : Finmap fun _ : α => β} {l : List α} (hl : ∀ a ∈ s, a ∈ l) :
    (s.entriesAt l).foldl (fun m x => m.insert x.1 x.2) ∅ = s := by
  refine ext_lookup fun a => ?_
  rw [lookup_foldl_insert, lookup_empty, Option.or_none]
  cases h : s.lookup a with
  | none =>
    rw [List.find?_eq_none.2 fun x hx hxa => ?_, Option.map_none]
    have hx := (mem_entriesAt.1 (List.mem_reverse.1 hx)).2
    rw [of_decide_eq_true hxa, h] at hx
    cases hx
  | some b =>
    have hmem : (a, b) ∈ s.entriesAt l :=
      mem_entriesAt.2 ⟨hl a (mem_of_lookup_eq_some h), h⟩
    have hfind : ((s.entriesAt l).reverse.find? (·.1 = a)).isSome :=
      List.find?_isSome.2 ⟨(a, b), List.mem_reverse.2 hmem, decide_eq_true rfl⟩
    obtain ⟨x, hx⟩ := Option.isSome_iff_exists.1 hfind
    have hxa : x.1 = a := by simpa using List.find?_some hx
    have hxb := (mem_entriesAt.1 (List.mem_reverse.1 (List.mem_of_find?_eq_some hx))).2
    rw [hx, Option.map_some, ← hxb, hxa, h]

end Finmap
