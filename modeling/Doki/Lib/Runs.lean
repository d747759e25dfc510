import Mathlib.Data.List.Basic

/-!
# Runs of a transition system

A transition system is given by its step function: `step s a` is the state
after the action `a`, or `none` when `a` is not enabled in `s`. A run is a list
of actions, and `exec` the state it ends in.

* `Along C`: every step of the run meets the condition `C`, a relation between
  the state the step is taken from and its action;
* `Throughout P`: `P` holds in every state of the run, the last one included;
* `invariant`: the induction rule. What holds at the start and is kept by every
  step meeting `C` holds where a run of such steps ends;
* `exec_eq`: two systems that take the same steps have the same runs;
* `answers_eq`: the simulation rule, for systems that answer requests.

The runs are finite, but a property of where *every* run ends is a property of
every state reached: the beginning of a run is a run (`exec_append`).
-/

namespace Runs

variable {S A : Type*} {step : S → A → Option S}

variable (step) in
/-- The state a run ends in, `none` if one of its actions is not enabled. -/
def exec : S → List A → Option S
  | s, [] => some s
  | s, a :: as => (step s a).bind fun t => exec t as

variable (step) in
/-- Every step of the run meets `C`. -/
def Along (C : S → A → Prop) : S → List A → Prop
  | _, [] => True
  | s, a :: as => C s a ∧ ∀ t, step s a = some t → Along C t as

variable (step) in
/-- Every state of the run satisfies `P`. -/
def Throughout (P : S → Prop) : S → List A → Prop
  | s, [] => P s
  | s, a :: as => P s ∧ ∀ t, step s a = some t → Throughout P t as

/-- A condition that can be decided at each step can be decided along a run. -/
instance Along.decidable {C : S → A → Prop} [∀ s a, Decidable (C s a)] :
    ∀ s as, Decidable (Along step C s as)
  | _, [] => .isTrue trivial
  | s, a :: as =>
    match h : step s a with
    -- The run stops here, and there is nothing more to check.
    | none => decidable_of_iff (C s a)
      ⟨fun hC => ⟨hC, fun t ht => absurd (h.symm.trans ht) (by simp)⟩, And.left⟩
    | some t =>
      have := Along.decidable (C := C) t as
      decidable_of_iff (C s a ∧ Along step C t as)
        ⟨fun ⟨hC, hA⟩ => ⟨hC, fun u hu => Option.some.inj (h.symm.trans hu) ▸ hA⟩,
          fun hA => ⟨hA.1, hA.2 t h⟩⟩

/-- A property that can be decided in each state can be decided throughout a run. -/
instance Throughout.decidable {P : S → Prop} [∀ s, Decidable (P s)] :
    ∀ s as, Decidable (Throughout step P s as)
  | s, [] => inferInstanceAs (Decidable (P s))
  | s, a :: as =>
    match h : step s a with
    | none => decidable_of_iff (P s)
      ⟨fun hP => ⟨hP, fun t ht => absurd (h.symm.trans ht) (by simp)⟩, And.left⟩
    | some t =>
      have := Throughout.decidable (P := P) t as
      decidable_of_iff (P s ∧ Throughout step P t as)
        ⟨fun ⟨hP, hT⟩ => ⟨hP, fun u hu => Option.some.inj (h.symm.trans hu) ▸ hT⟩,
          fun hT => ⟨hT.1, hT.2 t h⟩⟩

/-- A condition on the actions alone. -/
theorem Along.of_forall_mem {C : A → Prop} {s : S} {as : List A} (h : ∀ a ∈ as, C a) :
    Along step (fun _ a => C a) s as := by
  induction as generalizing s with
  | nil => trivial
  | cons a as ih =>
    exact ⟨h a List.mem_cons_self, fun t _ => ih fun b hb => h b (List.mem_cons_of_mem _ hb)⟩

/-- A run whose steps meet two conditions. -/
theorem Along.and {C D : S → A → Prop} {s : S} {as : List A} (hC : Along step C s as)
    (hD : Along step D s as) : Along step (fun s a => C s a ∧ D s a) s as := by
  induction as generalizing s with
  | nil => trivial
  | cons a as ih => exact ⟨⟨hC.1, hD.1⟩, fun t ht => ih (hC.2 t ht) (hD.2 t ht)⟩

@[simp] theorem exec_nil (s : S) : exec step s [] = some s := rfl

/-- The first step of a run that ends. -/
theorem exec_cons {s u : S} {a : A} {as : List A} (h : exec step s (a :: as) = some u) :
    ∃ t, step s a = some t ∧ exec step t as = some u :=
  Option.bind_eq_some_iff.1 h

/-- A run of `as` and then `bs` stops over where the run of `as` ends. -/
theorem exec_append {s u : S} {as bs : List A} (h : exec step s (as ++ bs) = some u) :
    ∃ t, exec step s as = some t ∧ exec step t bs = some u := by
  induction as generalizing s with
  | nil => exact ⟨s, rfl, h⟩
  | cons a as ih =>
    obtain ⟨t, ht, h⟩ := exec_cons h
    obtain ⟨v, hv, hu⟩ := ih h
    exact ⟨v, by rw [exec, ht]; exact hv, hu⟩

/-- A run that goes on. -/
theorem exec_trans {s t u : S} {as bs : List A} (h : exec step s as = some t)
    (h' : exec step t bs = some u) : exec step s (as ++ bs) = some u := by
  induction as generalizing s with
  | nil => exact Option.some.inj h ▸ h'
  | cons a as ih =>
    obtain ⟨v, hv, h⟩ := exec_cons h
    rw [List.cons_append, exec, hv]
    exact ih h

/-- The two parts of a run whose steps meet `C`. -/
theorem Along.of_append {C : S → A → Prop} {s t : S} {as bs : List A}
    (hC : Along step C s (as ++ bs)) (h : exec step s as = some t) :
    Along step C s as ∧ Along step C t bs := by
  induction as generalizing s with
  | nil => exact ⟨trivial, Option.some.inj h ▸ hC⟩
  | cons a as ih =>
    obtain ⟨u, hu, h⟩ := exec_cons h
    refine ⟨⟨hC.1, fun v hv => ?_⟩, (ih (hC.2 u hu) h).2⟩
    obtain rfl := Option.some.inj (hu.symm.trans hv)
    exact (ih (hC.2 u hu) h).1

/-- The induction rule: an invariant kept by every step meeting `C` holds where
    a run of such steps ends. -/
theorem invariant {C : S → A → Prop} {Inv : S → Prop}
    (hstep : ∀ s a t, Inv s → C s a → step s a = some t → Inv t) {s u : S} {as : List A}
    (hs : Inv s) (hC : Along step C s as) (h : exec step s as = some u) : Inv u := by
  induction as generalizing s with
  | nil => exact Option.some.inj h ▸ hs
  | cons a as ih =>
    obtain ⟨t, ht, h⟩ := exec_cons h
    exact ih (hstep s a t hs hC.1 ht) (hC.2 t ht) h

/-- An invariant holds in every state of a run of steps meeting `C`. -/
theorem throughout {C : S → A → Prop} {Inv : S → Prop}
    (hstep : ∀ s a t, Inv s → C s a → step s a = some t → Inv t) {s : S} {as : List A}
    (hs : Inv s) (hC : Along step C s as) : Throughout step Inv s as := by
  induction as generalizing s with
  | nil => exact hs
  | cons a as ih => exact ⟨hs, fun t ht => ih (hstep s a t hs hC.1 ht) (hC.2 t ht)⟩

/-- What follows from an invariant holds in every state of a run, too. -/
theorem Throughout.mono {P Q : S → Prop} (hPQ : ∀ s, P s → Q s) {s : S} {as : List A}
    (h : Throughout step P s as) : Throughout step Q s as := by
  induction as generalizing s with
  | nil => exact hPQ s h
  | cons a as ih => exact ⟨hPQ s h.1, fun t ht => ih (h.2 t ht)⟩

/-- What holds in every state of a run holds where it ends. -/
theorem Throughout.last {P : S → Prop} {s t : S} {as : List A} (h : Throughout step P s as)
    (hend : exec step s as = some t) : P t := by
  induction as generalizing s with
  | nil => exact Option.some.inj hend ▸ h
  | cons a as ih =>
    obtain ⟨u, hu, hend⟩ := exec_cons hend
    exact ih (h.2 u hu) hend

theorem Throughout.first {P : S → Prop} {s : S} {as : List A} (h : Throughout step P s as) :
    P s := by
  cases as with
  | nil => exact h
  | cons a as => exact h.1

/-- What holds in every state of a run holds where each of its steps is taken from. -/
theorem Throughout.along {P : S → Prop} {s : S} {as : List A} (h : Throughout step P s as) :
    Along step (fun s _ => P s) s as := by
  induction as generalizing s with
  | nil => trivial
  | cons a as ih => exact ⟨h.1, fun t ht => ih (h.2 t ht)⟩

/-- Two properties that hold in every state of a run. -/
theorem Throughout.and {P Q : S → Prop} {s : S} {as : List A} (hP : Throughout step P s as)
    (hQ : Throughout step Q s as) : Throughout step (fun s => P s ∧ Q s) s as := by
  induction as generalizing s with
  | nil => exact ⟨hP, hQ⟩
  | cons a as ih => exact ⟨⟨hP.1, hQ.1⟩, fun t ht => ih (hP.2 t ht) (hQ.2 t ht)⟩

/-- When a step keeps `P` exactly if it meets `C`, in the states that satisfy the
    invariant, then `P` holds in every state exactly if every step meets `C`. -/
theorem throughout_iff_along {C : S → A → Prop} {Inv P : S → Prop}
    (hstep : ∀ s a, Inv s → P s → ∃ t, step s a = some t ∧ Inv t ∧ (P t ↔ C s a)) {s : S}
    {as : List A} (hs : Inv s) (hP : P s) : Throughout step P s as ↔ Along step C s as := by
  induction as generalizing s with
  | nil => exact ⟨fun _ => trivial, fun _ => hP⟩
  | cons a as ih =>
    obtain ⟨t, ht, hInv, hiff⟩ := hstep s a hs hP
    have hnext : ∀ u, step s a = some u → u = t := fun u hu => Option.some.inj (hu.symm.trans ht)
    constructor
    · intro h
      have hPt := (h.2 t ht).first
      refine ⟨hiff.1 hPt, fun u hu => ?_⟩
      rw [hnext u hu]
      exact (ih hInv hPt).1 (h.2 t ht)
    · intro h
      refine ⟨hP, fun u hu => ?_⟩
      rw [hnext u hu]
      exact (ih hInv (hiff.2 h.1)).2 (h.2 t ht)

/-- A quantity that grows by at most one in every step takes all the values between
    its first and its last one. -/
theorem exists_stopover {C : S → A → Prop} {Inv : S → Prop} {f : S → ℕ}
    (hstep : ∀ s a t, Inv s → C s a → step s a = some t → Inv t ∧ f t ≤ f s + 1) {s u : S}
    {as : List A} (hs : Inv s) (hC : Along step C s as) (h : exec step s as = some u) {n : ℕ}
    (hle : f s ≤ n) (hn : n ≤ f u) :
    ∃ bs cs t, as = bs ++ cs ∧ exec step s bs = some t ∧ f t = n := by
  induction as generalizing s with
  | nil =>
    obtain rfl := Option.some.inj h
    exact ⟨[], [], s, rfl, rfl, Nat.le_antisymm hle hn⟩
  | cons a as ih =>
    -- The value is reached already, or the next step does not get past it.
    rcases Nat.eq_or_lt_of_le hle with heq | hlt
    · exact ⟨[], a :: as, s, rfl, rfl, heq⟩
    · obtain ⟨t, ht, h⟩ := exec_cons h
      obtain ⟨hinv, hft⟩ := hstep s a t hs hC.1 ht
      obtain ⟨bs, cs, v, rfl, hv, hfv⟩ := ih hinv (hC.2 t ht) h (by omega)
      exact ⟨a :: bs, cs, v, rfl, by rw [exec, ht]; exact hv, hfv⟩

/-- Weakening the condition of a run, given an invariant of its states. -/
theorem Along.mono {C D : S → A → Prop} {Inv : S → Prop}
    (hstep : ∀ s a t, Inv s → C s a → step s a = some t → Inv t)
    (hCD : ∀ s a, Inv s → C s a → D s a) {s : S} {as : List A} (hs : Inv s)
    (hC : Along step C s as) : Along step D s as := by
  induction as generalizing s with
  | nil => trivial
  | cons a as ih =>
    exact ⟨hCD s a hs hC.1, fun t ht => ih (hstep s a t hs hC.1 ht) (hC.2 t ht)⟩

/-- Two systems that take the same steps from the states of an invariant have the same
    runs. -/
theorem exec_eq {B : Type*} {step' : S → B → Option S} {C : S → A → Prop} {Inv : S → Prop}
    {f : A → B} (hstep : ∀ s a t, Inv s → C s a → step s a = some t → Inv t)
    (heq : ∀ s a, Inv s → C s a → step' s (f a) = step s a) {s : S} {as : List A} (hs : Inv s)
    (hC : Along step C s as) : exec step' s (as.map f) = exec step s as := by
  induction as generalizing s with
  | nil => rfl
  | cons a as ih =>
    rw [List.map_cons, exec, exec, heq s a hs hC.1]
    cases h : step s a with
    | none => rfl
    | some t => exact ih (hstep s a t hs hC.1 h) (hC.2 t h)

/-! ### Answers

A system that answers every request is given by its answer and its next state. -/

variable {T B O : Type*}

/-- The answers to the requests, one after the other. -/
def answers (respond : S → A → O × S) : S → List A → List O
  | _, [] => []
  | s, a :: as => (respond s a).1 :: answers respond (respond s a).2 as

/-- The simulation rule: when related states give the same answer to corresponding
    requests, and the states after them are related, all answers are the same. -/
theorem answers_eq {respond : S → A → O × S} {respond' : T → B → O × T} {C : S → A → Prop}
    {R : S → T → Prop} {f : A → B}
    (hstep : ∀ s t a, R s t → C s a → (respond s a).1 = (respond' t (f a)).1 ∧
      R (respond s a).2 (respond' t (f a)).2) {s : S} {t : T} {as : List A} (hs : R s t)
    (hC : Along (fun s a => some (respond s a).2) C s as) :
    answers respond s as = answers respond' t (as.map f) := by
  induction as generalizing s t with
  | nil => rfl
  | cons a as ih =>
    obtain ⟨hanswer, hnext⟩ := hstep s t a hs hC.1
    rw [List.map_cons, answers, answers, hanswer, ih hnext (hC.2 _ rfl)]

end Runs
