import Mathlib.Data.List.Nodup

/-!
# Lists with one member changed

The calls that are under way in a system are kept in a list, each under its index: a
new one is added at the end, and a step of one of them replaces it. What holds of all
members is then a matter of the new one.

What is collected from one member of a list without repetitions is collected once
(`List.filterMap_ite_eq`), and what is found by a key of its own is found there
(`List.find?_key_eq_some_iff`).
-/

namespace List

variable {α : Type*} {l : List α} {j k : ℕ} {x y : α}

/-- What holds of the members of a list, and of the one that replaces one of them. -/
theorem forall_mem_set {P : α → Prop} (h : ∀ x ∈ l, P x) (hy : P y) : ∀ x ∈ l.set k y, P x := by
  intro x hx
  rcases List.mem_or_eq_of_mem_set hx with hx | rfl
  · exact h x hx
  · exact hy

/-- What holds of the members of a list, and of one that is added. -/
theorem forall_mem_concat {P : α → Prop} (h : ∀ x ∈ l, P x) (hy : P y) :
    ∀ x ∈ l ++ [y], P x := by
  intro x hx
  rcases List.mem_append.1 hx with hx | hx
  · exact h x hx
  · exact List.mem_singleton.1 hx ▸ hy

/-- An element of a list in which one has been changed. -/
theorem getElem?_set_cases (h : (l.set k y)[j]? = some x) :
    (j = k ∧ x = y) ∨ (j ≠ k ∧ l[j]? = some x) := by
  rw [List.getElem?_set] at h
  split_ifs at h with hjk hlen
  · exact .inl ⟨hjk.symm, (Option.some.inj h).symm⟩
  · exact .inr ⟨Ne.symm hjk, h⟩

/-- The other members stay when one is changed. -/
theorem mem_set_of_ne (hx : x ∈ l) (hy : l[k]? = some y) (hne : x ≠ y) {z : α} :
    x ∈ l.set k z := by
  obtain ⟨j, hj⟩ := List.mem_iff_getElem?.1 hx
  have hjk : k ≠ j := by
    rintro rfl
    exact hne (Option.some.inj (hj.symm.trans hy))
  exact List.mem_of_getElem? ((List.getElem?_set_ne hjk).trans hj)

/-- An element of a list that one has been added to. -/
theorem getElem?_concat_cases (h : (l ++ [y])[j]? = some x) :
    (j = l.length ∧ x = y) ∨ l[j]? = some x := by
  rw [List.getElem?_append] at h
  split_ifs at h with hj
  · exact .inr h
  · rw [List.getElem?_singleton] at h
    split_ifs at h with hj'
    exact .inl ⟨by omega, (Option.some.inj h).symm⟩

/-- The elements of a list stay when one is added. -/
theorem getElem?_concat_of_some (h : l[j]? = some x) : (l ++ [y])[j]? = some x := by
  obtain ⟨hj, -⟩ := List.getElem?_eq_some_iff.1 h
  rw [List.getElem?_append_left hj, h]

/-- A member is found by its key, if no two members have the same one. -/
theorem find?_key_eq_some_iff {κ : Type*} [DecidableEq κ] {key : α → κ} (hl : (l.map key).Nodup)
    {a : κ} : l.find? (key · = a) = some x ↔ x ∈ l ∧ key x = a := by
  constructor
  · exact fun h => ⟨List.mem_of_find?_eq_some h, by simpa using List.find?_some h⟩
  · rintro ⟨hx, rfl⟩
    cases hfind : l.find? (key · = key x) with
    | none => exact absurd (List.find?_eq_none.1 hfind x hx) (by simp)
    | some z =>
      have hz : key z = key x := by simpa using List.find?_some hfind
      rw [List.inj_on_of_nodup_map hl (List.mem_of_find?_eq_some hfind) hx hz]

/-- Collecting something from the occurrences of one element of a list. -/
theorem filterMap_ite_eq [DecidableEq α] {β : Type*} (hl : l.Nodup) {o : Option β}
    (h : o.isSome → x ∈ l) : l.filterMap (fun y => if y = x then o else none) = o.toList := by
  cases o with
  | none => simp
  | some b =>
    have hx := h rfl
    clear h
    induction l with
    | nil => cases hx
    | cons y l ih =>
      obtain ⟨hy, hl⟩ := List.nodup_cons.1 hl
      rw [List.filterMap_cons]
      by_cases hyx : y = x
      · subst hyx
        have hnone : l.filterMap (fun z => if z = y then some b else none) = [] := by
          refine List.filterMap_eq_nil_iff.2 fun z hz => if_neg ?_
          rintro rfl
          exact hy hz
        rw [if_pos rfl, hnone]
        rfl
      · rw [if_neg hyx]
        exact ih hl ((List.mem_cons.1 hx).resolve_left (Ne.symm hyx))

end List
