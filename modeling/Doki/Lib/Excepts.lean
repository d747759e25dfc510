import Mathlib.Data.List.Forall2

/-!
# Computations that may fail

What it means for a computation in `Except` to succeed: a sequence succeeds if
both parts do (`Except.bind_eq_ok_iff`), changing the result or the errors
makes no difference (`Except.map_eq_ok_iff`, `Except.mapError_eq_ok_iff`), and a loop over a
list succeeds if every round does
(`Except.mapM_eq_ok_iff`, and `Except.forM_eq_ok_iff` for checks without a result).
-/

namespace Except

universe u v w

variable {ε : Type u} {α β : Type v}

theorem bind_eq_ok_iff {x : Except ε α} {f : α → Except ε β} {b : β} :
    x >>= f = .ok b ↔ ∃ a, x = .ok a ∧ f a = .ok b := by
  cases x <;> simp [bind, Except.bind]

theorem pure_eq_ok_iff {a b : α} : (pure a : Except ε α) = .ok b ↔ a = b :=
  ⟨Except.ok.inj, fun h => h ▸ rfl⟩

theorem map_eq_ok_iff {f : α → β} {x : Except ε α} {b : β} :
    x.map f = .ok b ↔ ∃ a, x = .ok a ∧ f a = b := by
  cases x <;> simp [Except.map]

theorem mapError_eq_ok_iff {ε' : Type w} {f : ε → ε'} {x : Except ε α} {a : α} :
    x.mapError f = .ok a ↔ x = .ok a := by
  cases x <;> simp [Except.mapError]

theorem mapM_eq_ok_iff {γ : Type w} {f : γ → Except ε α} {l : List γ} {m : List α} :
    l.mapM f = .ok m ↔ List.Forall₂ (fun c a => f c = .ok a) l m := by
  induction l generalizing m with
  | nil =>
    rw [List.mapM_nil, List.forall₂_nil_left_iff, pure_eq_ok_iff, eq_comm]
  | cons c l ih =>
    simp only [List.mapM_cons, bind_eq_ok_iff, pure_eq_ok_iff, ih, List.forall₂_cons_left_iff]
    constructor
    · rintro ⟨a, ha, m', hm', rfl⟩
      exact ⟨a, m', ha, hm', rfl⟩
    · rintro ⟨a, m', ha, hm', rfl⟩
      exact ⟨a, ha, m', hm', rfl⟩

/-- Checks one after the other succeed if each of them does. -/
theorem seq_eq_ok_iff {ε : Type u} {x y : Except ε Unit} :
    (do x; y) = .ok () ↔ x = .ok () ∧ y = .ok () := by
  rw [bind_eq_ok_iff]
  constructor
  · rintro ⟨_, h⟩
    exact h
  · intro h
    exact ⟨(), h⟩

theorem forM_eq_ok_iff {ε : Type u} {γ : Type w} {f : γ → Except ε Unit} {l : List γ} :
    l.forM f = .ok () ↔ ∀ c ∈ l, f c = .ok () := by
  induction l with
  | nil => exact iff_of_true rfl nofun
  | cons c l ih =>
    change (do f c; l.forM f) = .ok () ↔ _
    rw [seq_eq_ok_iff, ih, List.forall_mem_cons]

end Except
