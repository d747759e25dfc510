import Mathlib.Tactic.SplitIfs

/-!
# Programs whose operations may fail

A program runs on a world `W`, one operation after the other. Every operation
has a *fate*, drawn from a list that is an input of the run: it succeeds, it
returns an error, or the process crashes just before its effect. An error can be
caught by the program, a crash cannot. So the states a process may leave
behind, for all fates, are all those it can be caught in between two
operations.

* `Prog`: such programs, a monad; `op` is an operation, given by its effect and
  by what a failed attempt at it leaves behind;
* `Triple P m Q E`: run from a world satisfying `P`, whatever the fates, the
  program `m` ends with a value and a world satisfying `Q`, or fails in a world
  satisfying `E`, and fails only through one of the fates. The rules
  `Triple.pure`, `Triple.bind` and so on follow the constructions of programs.
-/

namespace Faulty

/-- How an operation ends. -/
inductive Fate
  | ok
  | error
  | crash
  deriving DecidableEq, Repr

/-- How a program ends: with a value, with an error, or in a crash. -/
inductive Outcome (ε α : Type)
  | done (a : α)
  | error (e : ε)
  | crashed
  deriving DecidableEq, Repr

/-- A program on the world `W`: run on a list of fates, it ends in some way,
    leaving a world and the fates it has not used. -/
def Prog (W ε α : Type) := W → List Fate → Outcome ε α × W × List Fate

namespace Prog

variable {W ε α β : Type}

/-- The program doing nothing. -/
protected def pure (a : α) : Prog W ε α := fun w fs => (.done a, w, fs)

/-- Running `m`, and then `f` if `m` has ended with a value. -/
protected def bind (m : Prog W ε α) (f : α → Prog W ε β) : Prog W ε β := fun w fs =>
  match m w fs with
  | (.done a, w', fs') => f a w' fs'
  | (.error e, w', fs') => (.error e, w', fs')
  | (.crashed, w', fs') => (.crashed, w', fs')

instance : Monad (Prog W ε) where
  pure := Prog.pure
  bind := Prog.bind

/-- Reading the world. -/
def read : Prog W ε W := fun w fs => (.done w, w, fs)

/-- An operation with the effect `eff`, failing with the error `e`; a failed
    attempt leaves `torn` behind. -/
def op (e : ε) (eff torn : W → W) : Prog W ε Unit
  | w, [] => (.done (), eff w, [])
  | w, .ok :: fs => (.done (), eff w, fs)
  | w, .error :: fs => (.error e, torn w, fs)
  | w, .crash :: fs => (.crashed, torn w, fs)

/-- Running `m`, ignoring its error. -/
def ignore (m : Prog W ε Unit) : Prog W ε Unit := fun w fs =>
  match m w fs with
  | (.error _, w', fs') => (.done (), w', fs')
  | r => r

/-- Running `m`, with its error changed by `g`. -/
def mapError (g : ε → ε) (m : Prog W ε α) : Prog W ε α := fun w fs =>
  match m w fs with
  | (.error e, w', fs') => (.error (g e), w', fs')
  | r => r

/-- Running `m`; on an error, running `c` before returning the error of `m`. -/
def cleanup (m c : Prog W ε Unit) : Prog W ε Unit := fun w fs =>
  match m w fs with
  | (.error e, w', fs') => (c.ignore.bind fun _ => fun v gs => (.error e, v, gs)) w' fs'
  | r => r

end Prog

open Prog

variable {W ε α β : Type} {P : W → Prop} {Q : α → W → Prop} {E : W → Prop}

/-- The end of a run on the fates `fs`: it satisfies `Q` if it is a value, and `E`
    otherwise. A run fails only when one of its fates is a failure. -/
def Ends (Q : α → W → Prop) (E : W → Prop) (fs : List Fate) :
    Outcome ε α × W × List Fate → Prop
  | (.done a, w, gs) => gs ⊆ fs ∧ Q a w
  | (.error _, w, gs) => gs ⊆ fs ∧ E w ∧ ∃ x ∈ fs, x ≠ .ok
  | (.crashed, w, gs) => gs ⊆ fs ∧ E w ∧ ∃ x ∈ fs, x ≠ .ok

/-- The fates of a part of a run are some of those of the whole. -/
theorem Ends.mono {fs gs : List Fate} {x : Outcome ε α × W × List Fate} (h : Ends Q E gs x)
    (hsub : gs ⊆ fs) : Ends Q E fs x := by
  rcases x with ⟨_ | _ | _, w, hs⟩
  · exact ⟨List.Subset.trans h.1 hsub, h.2⟩
  · exact ⟨List.Subset.trans h.1 hsub, h.2.1, h.2.2.imp fun _ hx => ⟨hsub hx.1, hx.2⟩⟩
  · exact ⟨List.Subset.trans h.1 hsub, h.2.1, h.2.2.imp fun _ hx => ⟨hsub hx.1, hx.2⟩⟩

/-- From `P`, the program `m` ends in `Q`, or fails in `E`, whatever the fates. -/
def Triple (P : W → Prop) (m : Prog W ε α) (Q : α → W → Prop) (E : W → Prop) : Prop :=
  ∀ w fs, P w → Ends Q E fs (m w fs)

namespace Triple

theorem pure {a : α} (h : ∀ w, P w → Q a w) : Triple P (Pure.pure a : Prog W ε α) Q E :=
  fun w fs hw => ⟨List.Subset.refl fs, h w hw⟩

theorem bind {m : Prog W ε α} {f : α → Prog W ε β} {R : β → W → Prop}
    (hm : Triple P m Q E) (hf : ∀ a, Triple (Q a) (f a) R E) : Triple P (m >>= f) R E := by
  intro w fs hw
  have h := hm w fs hw
  change Ends R E fs (Prog.bind m f w fs)
  rw [Prog.bind]
  generalize m w fs = x at h
  rcases x with ⟨_ | _ | _, w', fs'⟩
  · exact (hf _ w' fs' h.2).mono h.1
  · exact h
  · exact h

theorem read : Triple P (Prog.read : Prog W ε W) (fun v w => v = w ∧ P w) E :=
  fun _ fs hw => ⟨List.Subset.refl fs, rfl, hw⟩

theorem op {e : ε} {eff torn : W → W} {Q : Unit → W → Prop} (hok : ∀ w, P w → Q () (eff w))
    (hfail : ∀ w, P w → E (torn w)) : Triple P (Prog.op e eff torn) Q E := by
  intro w fs hw
  match fs with
  | [] => exact ⟨List.Subset.refl _, hok w hw⟩
  | .ok :: fs => exact ⟨List.subset_cons_self _ fs, hok w hw⟩
  | .error :: fs =>
    exact ⟨List.subset_cons_self _ fs, hfail w hw, .error, List.mem_cons_self, by simp⟩
  | .crash :: fs =>
    exact ⟨List.subset_cons_self _ fs, hfail w hw, .crash, List.mem_cons_self, by simp⟩

/-- An ignored error leaves what the success leaves. -/
theorem ignore {m : Prog W ε Unit} {Q : W → Prop} (hm : Triple P m (fun _ => Q) Q)
    (hE : ∀ w, Q w → E w) : Triple P m.ignore (fun _ => Q) E := by
  intro w fs hw
  have h := hm w fs hw
  rw [Prog.ignore]
  generalize m w fs = x at h
  rcases x with ⟨_ | _ | _, w', fs'⟩
  · exact h
  · exact ⟨h.1, h.2.1⟩
  · -- A crash is not an error that could be ignored.
    exact ⟨h.1, hE w' h.2.1, h.2.2⟩

theorem cleanup {m c : Prog W ε Unit} {Q : Unit → W → Prop} (hm : Triple P m Q E)
    (hc : Triple E c (fun _ => E) E) : Triple P (m.cleanup c) Q E := by
  intro w fs hw
  have h := hm w fs hw
  rw [Prog.cleanup]
  generalize m w fs = x at h
  rcases x with ⟨_ | e | _, w', fs'⟩
  · exact h
  · -- The error is that of `m`, however the cleanup ends.
    obtain ⟨hsub, hE, hfate⟩ := h
    have hi := (Triple.ignore hc (fun _ => id) w' fs' hE).mono hsub
    simp only [Prog.bind]
    generalize c.ignore w' fs' = y at hi
    rcases y with ⟨_ | _ | _, v, gs⟩
    · exact ⟨hi.1, hi.2, hfate⟩
    · exact hi
    · exact hi
  · exact h

/-- Without failures, a program ends with a value. -/
theorem of_nil {m : Prog W ε α} (hm : Triple P m Q E) {w : W} (hw : P w) :
    ∃ a v, m w [] = (.done a, v, []) ∧ Q a v := by
  have h := hm w [] hw
  generalize m w [] = x at h
  rcases x with ⟨a | _ | _, v, fs⟩
  · obtain rfl := List.subset_nil.1 h.1
    exact ⟨a, v, rfl, h.2⟩
  · obtain ⟨-, -, x, hx, -⟩ := h
    exact absurd hx List.not_mem_nil
  · obtain ⟨-, -, x, hx, -⟩ := h
    exact absurd hx List.not_mem_nil

theorem mapError {g : ε → ε} {m : Prog W ε α} (hm : Triple P m Q E) :
    Triple P (m.mapError g) Q E := by
  intro w fs hw
  have h := hm w fs hw
  rw [Prog.mapError]
  generalize m w fs = x at h
  rcases x with ⟨_ | _ | _, w', fs'⟩ <;> exact h

theorem ite {c : Prop} [Decidable c] {m n : Prog W ε α}
    (hm : c → Triple P m Q E) (hn : ¬c → Triple P n Q E) :
    Triple P (if c then m else n) Q E := by
  split_ifs with hc
  · exact hm hc
  · exact hn hc

theorem weaken {P' : W → Prop} {m : Prog W ε α} {Q' : α → W → Prop}
    (hm : Triple P m Q E) (hP : ∀ w, P' w → P w) (hQ : ∀ a w, Q a w → Q' a w) :
    Triple P' m Q' E := by
  intro w fs hw
  have h := hm w fs (hP w hw)
  generalize m w fs = x at h ⊢
  rcases x with ⟨_ | _ | _, w', fs'⟩
  · exact ⟨h.1, hQ _ _ h.2⟩
  · exact h
  · exact h

end Triple

/-! ## Choosing where to fail -/

/-- With enough successes, the program `m` gets from `w` to the value `a` and the world
    `w'`, and leaves the other fates to what comes after it. -/
def Succeeds (m : Prog W ε α) (w : W) (a : α) (w' : W) : Prop :=
  ∃ k, ∀ fs, m w (List.replicate k .ok ++ fs) = (.done a, w', fs)

namespace Succeeds

variable {w w' w'' : W} {a : α} {b : β}

theorem pure (a : α) (w : W) : Succeeds (Pure.pure a : Prog W ε α) w a w := ⟨0, fun _ => rfl⟩

theorem op (e : ε) (eff torn : W → W) (w : W) : Succeeds (Prog.op e eff torn) w () (eff w) :=
  ⟨1, fun _ => rfl⟩

theorem bind {m : Prog W ε α} {f : α → Prog W ε β} (hm : Succeeds m w a w')
    (hf : Succeeds (f a) w' b w'') : Succeeds (m >>= f) w b w'' := by
  obtain ⟨k, hk⟩ := hm
  obtain ⟨l, hl⟩ := hf
  refine ⟨k + l, fun fs => ?_⟩
  change Prog.bind m f w _ = _
  rw [← List.replicate_append_replicate, List.append_assoc, Prog.bind, hk]
  exact hl fs

theorem ignore {m : Prog W ε Unit} (hm : Succeeds m w () w') : Succeeds m.ignore w () w' := by
  obtain ⟨k, hk⟩ := hm
  exact ⟨k, fun fs => by rw [Prog.ignore, hk]⟩

theorem mapError {g : ε → ε} {m : Prog W ε α} (hm : Succeeds m w a w') :
    Succeeds (m.mapError g) w a w' := by
  obtain ⟨k, hk⟩ := hm
  exact ⟨k, fun fs => by rw [Prog.mapError, hk]⟩

theorem cleanup {m c : Prog W ε Unit} (hm : Succeeds m w () w') :
    Succeeds (m.cleanup c) w () w' := by
  obtain ⟨k, hk⟩ := hm
  exact ⟨k, fun fs => by rw [Prog.cleanup, hk]⟩

/-- Where a program gets to without failures satisfies what it ends in. -/
theorem of_triple {m : Prog W ε α} (hm : Triple P m Q E) (hw : P w) (h : Succeeds m w a w') :
    Q a w' := by
  obtain ⟨k, hk⟩ := h
  have hends := hm w (List.replicate k .ok ++ []) hw
  rw [hk] at hends
  exact hends.2

/-- The operation after a successful part may fail. -/
theorem exists_error {m : Prog W ε α} {f : α → Prog W ε β} (hm : Succeeds m w a w')
    (fs : List Fate) {e : ε} (hf : f a w' fs = (.error e, w'', [])) :
    ∃ fs', (m >>= f) w fs' = (.error e, w'', []) := by
  obtain ⟨k, hk⟩ := hm
  refine ⟨List.replicate k .ok ++ fs, ?_⟩
  change Prog.bind m f w _ = _
  rw [Prog.bind, hk]
  exact hf

end Succeeds

end Faulty
