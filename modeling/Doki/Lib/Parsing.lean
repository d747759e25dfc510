import Mathlib.Data.List.Basic

/-!
# Parsers with one token of lookahead

A parser takes tokens from the front of a list and returns a value with the
tokens that it leaves, or fails. It looks at no token but the first that it
leaves; behind the last token it sees a fixed one, `last`.

* `Reads P p p' D`: what the parser `p` takes, from an input whose first token
  satisfies `P`, is a word of the language `D` of the value that it returns, and
  `p'`, which is `p` or does as much with more rounds, takes the same word before
  any tokens that begin alike. The rules `Reads.pure`, `Reads.bind` and so on follow
  the constructions of parsers.
* `sepBy`: a list of items with a separator between any two, and `SepBy`, its
  language: `Reads.sepBy` and `sepBy_append` relate the two.
* `Answers e p k`: on an input of at most `k` tokens, `p` does not fail with `e`,
  the error of a loop that has been given too few rounds.
-/

namespace Parsing

/-- A parser of `α`s on tokens `τ`. -/
def Parser (τ ε α : Type) := List τ → Except ε (α × List τ)

variable {τ ε α β : Type} {p : Parser τ ε α} {f : α → Parser τ ε β} {ts rest : List τ}

/-- The parser that takes nothing. -/
protected def Parser.pure (a : α) : Parser τ ε α := fun ts => .ok (a, ts)

/-- Running `p`, and then `f` on what `p` has left. -/
protected def Parser.bind (p : Parser τ ε α) (f : α → Parser τ ε β) : Parser τ ε β := fun ts =>
  match p ts with
  | .ok (a, rest) => f a rest
  | .error e => .error e

instance : Monad (Parser τ ε) where
  pure := Parser.pure
  bind := Parser.bind

/-- The parser that fails with `e`. -/
def fail (e : ε) : Parser τ ε α := fun _ => .error e

/-- The first token, which is left. -/
def peek (last : τ) : Parser τ ε τ := fun ts => .ok (ts.head?.getD last, ts)

/-- The first token, which is taken. -/
def advance (last : τ) : Parser τ ε τ := fun ts => .ok (ts.head?.getD last, ts.tail)

/-- Taking a token that satisfies `q`, or else failing with an error about it. -/
def expect (last : τ) (q : τ → Bool) (e : τ → ε) : Parser τ ε τ := do
  let t ← advance last
  if q t then pure t else fail (e t)

/-- Taking the first token if it satisfies `q`, and whether it does. -/
def accept (last : τ) (q : τ → Bool) : Parser τ ε Bool := do
  let t ← peek last
  if q t then do
    let _ ← advance last
    pure true
  else pure false

/-- Items `p` with separators between them, in at most the given number of rounds. -/
def sepBy (last : τ) (sep : τ → Bool) (e : ε) (p : Parser τ ε α) : ℕ → Parser τ ε (List α)
  | 0 => fail e
  | n + 1 => do
    let a ← p
    let more ← accept last sep
    if more then do
      let as ← sepBy last sep e p n
      pure (a :: as)
    else pure [a]

theorem pure_apply (a : α) : (pure a : Parser τ ε α) ts = .ok (a, ts) := rfl

theorem bind_apply {a : α} (h : p ts = .ok (a, rest)) : (p >>= f) ts = f a rest := by
  change Parser.bind p f ts = _
  rw [Parser.bind, h]

theorem bind_eq_ok_iff {b : β} :
    (p >>= f) ts = .ok (b, rest) ↔ ∃ a mid, p ts = .ok (a, mid) ∧ f a mid = .ok (b, rest) := by
  change Parser.bind p f ts = _ ↔ _
  rw [Parser.bind]
  constructor
  · intro h
    cases hp : p ts with
    | error e =>
      rw [hp] at h
      cases h
    | ok x =>
      rw [hp] at h
      exact ⟨x.1, x.2, rfl, h⟩
  · rintro ⟨a, mid, hp, h⟩
    rw [hp]
    exact h

section Tokens

variable {last : τ} {q : τ → Bool} {t : τ}

theorem peek_apply : (peek last : Parser τ ε τ) ts = .ok (ts.head?.getD last, ts) := rfl

@[simp]
theorem peek_bind_apply {f : τ → Parser τ ε β} :
    (peek last >>= f) ts = f (ts.head?.getD last) ts := bind_apply peek_apply

@[simp]
theorem advance_bind_apply {f : τ → Parser τ ε β} :
    (advance last >>= f) (t :: ts) = f t ts := bind_apply rfl

theorem expect_cons {e : τ → ε} (h : q t = true) :
    expect last q e (t :: ts) = .ok (t, ts) := by
  rw [expect, advance_bind_apply, if_pos h, pure_apply]

theorem accept_cons (h : q t = true) :
    (accept last q : Parser τ ε Bool) (t :: ts) = .ok (true, ts) := by
  rw [accept, peek_bind_apply]
  simp only [List.head?_cons, Option.getD_some, h, if_true]
  rw [advance_bind_apply, pure_apply]

theorem accept_of_not (h : q (ts.head?.getD last) = false) :
    (accept last q : Parser τ ε Bool) ts = .ok (false, ts) := by
  rw [accept, peek_bind_apply, h]
  rfl

end Tokens

/-! ### What a parser takes -/

/-- On an input whose first token satisfies `P`, the parser `p` takes a word of `D`,
    and `p'` takes that word whatever follows the first token that `p` leaves. -/
def Reads (P : Option τ → Prop) (p p' : Parser τ ε α) (D : List τ → α → Prop) : Prop :=
  ∀ ts a rest, P ts.head? → p ts = .ok (a, rest) →
    ∃ us, ts = us ++ rest ∧ D us a ∧
      ∀ rest', rest'.head? = rest.head? → p' (us ++ rest') = .ok (a, rest')

/-- What begins like the input, up to the first token behind a word, begins with
    the same token. -/
theorem head?_append_congr {us rest rest' : List τ} (h : rest'.head? = rest.head?) :
    (us ++ rest').head? = (us ++ rest).head? := by
  cases us with
  | nil => exact h
  | cons u us => rfl

namespace Reads

variable {P Q : Option τ → Prop} {D D' : List τ → α → Prop} {E : α → List τ → β → Prop}
  {p' : Parser τ ε α} {f' : α → Parser τ ε β}

theorem mono (h : Reads P p p' D) (hD : ∀ us a, D us a → D' us a) : Reads P p p' D' := by
  intro ts a rest hts hp
  obtain ⟨us, rfl, hus, hrest⟩ := h ts a rest hts hp
  exact ⟨us, rfl, hD us a hus, hrest⟩

theorem strengthen (h : Reads P p p' D) (hP : ∀ t, Q t → P t) : Reads Q p p' D :=
  fun ts a rest hts hp => h ts a rest (hP _ hts) hp

protected theorem pure {a : α} (h : D [] a) :
    Reads P (pure a : Parser τ ε α) (pure a) D := by
  intro ts b rest hts hp
  rw [pure_apply] at hp
  obtain ⟨rfl, rfl⟩ := Prod.mk.inj (Except.ok.inj hp)
  exact ⟨[], rfl, h, fun rest' _ => rfl⟩

protected theorem fail (e : ε) : Reads P (Parsing.fail e) p' D := by
  intro ts b rest hts hp
  cases hp

protected theorem bind (hp : Reads P p p' D)
    (hf : ∀ a, Reads (fun _ => True) (f a) (f' a) (E a)) :
    Reads P (p >>= f) (p' >>= f') fun ts b => ∃ us a vs, ts = us ++ vs ∧ D us a ∧ E a vs b := by
  intro ts b rest hts h
  obtain ⟨a, mid, ha, hb⟩ := bind_eq_ok_iff.1 h
  obtain ⟨us, rfl, hus, hmid⟩ := hp ts a mid hts ha
  obtain ⟨vs, rfl, hvs, hrest⟩ := hf a mid b rest trivial hb
  refine ⟨us ++ vs, (List.append_assoc us vs rest).symm, ⟨us, a, vs, rfl, hus, hvs⟩, ?_⟩
  intro rest' h'
  rw [List.append_assoc, bind_apply (hmid (vs ++ rest') (head?_append_congr h'))]
  exact hrest rest' h'

/-- A parser that goes by the first token. -/
theorem peek_bind {last : τ} {f f' : τ → Parser τ ε α}
    (hf : ∀ t, Reads (fun h => P h ∧ h.getD last = t) (f t) (f' t) D) :
    Reads P (peek last >>= f) (peek last >>= f') D := by
  intro ts a rest hts h
  rw [peek_bind_apply] at h
  obtain ⟨us, rfl, hus, hrest⟩ := hf _ ts a rest ⟨hts, rfl⟩ h
  refine ⟨us, rfl, hus, fun rest' h' => ?_⟩
  rw [peek_bind_apply, head?_append_congr h']
  exact hrest rest' h'

/-- Taking a token that is there. -/
theorem advance {last t : τ} (hP : ∀ h, P h → h = some t) :
    Reads P (Parsing.advance last : Parser τ ε τ) (Parsing.advance last)
      fun us a => us = [t] ∧ a = t := by
  intro ts a rest hts h
  obtain ⟨rfl, rfl⟩ := Prod.mk.inj (Except.ok.inj h)
  obtain ⟨rest, rfl⟩ := List.head?_eq_some_iff.1 (hP _ hts)
  exact ⟨[t], rfl, ⟨rfl, rfl⟩, fun rest' _ => rfl⟩

/-- A parser that takes a token, and fails behind the last one. -/
theorem advance_bind {last : τ} {f f' : τ → Parser τ ε α} {E : τ → List τ → α → Prop}
    (hlast : ∀ ts x, f last ts ≠ .ok x) (hf : ∀ t, Reads (fun _ => True) (f t) (f' t) (E t)) :
    Reads P (Parsing.advance last >>= f) (Parsing.advance last >>= f')
      fun us a => ∃ t vs, us = t :: vs ∧ E t vs a := by
  intro ts a rest hts h
  cases ts with
  | nil => exact absurd h (hlast [] _)
  | cons t ts =>
    rw [advance_bind_apply] at h
    obtain ⟨vs, rfl, hvs, hrest⟩ := hf t ts a rest trivial h
    exact ⟨t :: vs, rfl, ⟨t, vs, rfl, hvs⟩, hrest⟩

theorem expect {last : τ} {q : τ → Bool} {e : τ → ε} (hlast : q last = false) :
    Reads P (Parsing.expect last q e) (Parsing.expect last q e)
      fun us a => us = [a] ∧ q a = true := by
  refine (advance_bind (E := fun t vs a => vs = [] ∧ a = t ∧ q t = true) ?_ fun t => ?_).mono ?_
  · intro ts x h
    rw [hlast] at h
    cases h
  · split
    case isTrue hq => exact Reads.pure ⟨rfl, rfl, hq⟩
    case isFalse => exact Reads.fail _
  · rintro _ a ⟨t, _, rfl, rfl, rfl, hq⟩
    exact ⟨rfl, hq⟩

theorem accept {last : τ} {q : τ → Bool} (hlast : q last = false) :
    Reads P (Parsing.accept last q : Parser τ ε Bool) (Parsing.accept last q) fun us b =>
      (b = true ∧ ∃ t, us = [t] ∧ q t = true) ∨ (b = false ∧ us = []) := by
  rw [Parsing.accept]
  refine peek_bind fun t => ?_
  split
  case isTrue hq =>
    have hP : ∀ h, P h ∧ h.getD last = t → h = some t := by
      rintro (_ | t') ⟨-, rfl⟩
      · exact absurd hq (by simp [hlast])
      · rfl
    refine ((advance hP).bind fun _ => Reads.pure (D := fun vs b => vs = [] ∧ b = true)
      ⟨rfl, rfl⟩).mono ?_
    rintro _ b ⟨us, a, vs, rfl, ⟨rfl, rfl⟩, rfl, rfl⟩
    exact .inl ⟨rfl, a, rfl, hq⟩
  case isFalse => exact Reads.pure (.inr ⟨rfl, rfl⟩)

end Reads

/-! ### Lists of items -/

/-- The language of lists of items of `D` with separators between them. -/
inductive SepBy (sep : τ → Prop) (D : List τ → α → Prop) : List τ → List α → Prop
  | one {us : List τ} {a : α} (h : D us a) : SepBy sep D us [a]
  | more {us vs : List τ} {t : τ} {a : α} {as : List α} (h : D us a) (ht : sep t)
      (hs : SepBy sep D vs as) : SepBy sep D (us ++ t :: vs) (a :: as)

namespace SepBy

variable {sep : τ → Prop} {D D' : List τ → α → Prop} {us : List τ} {as : List α}

theorem mono {sep' : τ → Prop} (h : SepBy sep D us as) (hsep : ∀ t, sep t → sep' t)
    (hD : ∀ vs a, vs <:+: us → D vs a → D' vs a) : SepBy sep' D' us as := by
  induction h with
  | one h => exact .one (hD _ _ (List.infix_refl _) h)
  | @more us vs t a as h ht hs ih =>
    have hvs : vs <:+: us ++ t :: vs := ⟨us ++ [t], [], by simp⟩
    exact .more (hD _ _ ( List.prefix_append us (t :: vs)).isInfix h) (hsep t ht)
      (ih fun ws b hws => hD ws b (hws.trans hvs))

/-- The tokens of a list are those of its items, and separators. -/
theorem forall_mem (h : SepBy sep D us as) {R : τ → Prop} (hsep : ∀ t, sep t → R t)
    (hD : ∀ vs a, D vs a → ∀ t ∈ vs, R t) : ∀ t ∈ us, R t := by
  induction h with
  | one h => exact hD _ _ h
  | more h ht hs ih =>
    intro t hmem
    rcases List.mem_append.1 hmem with hmem | hmem
    · exact hD _ _ h t hmem
    · rcases List.mem_cons.1 hmem with rfl | hmem
      · exact hsep _ ht
      · exact ih t hmem

/-- A list is not empty, and what the tokens of each item give holds of all its items. -/
theorem items (h : SepBy sep D us as) {R : τ → Prop} {Q : α → Prop} (hus : ∀ t ∈ us, R t)
    (hD : ∀ vs a, D vs a → (∀ t ∈ vs, R t) → Q a) : as ≠ [] ∧ ∀ a ∈ as, Q a := by
  induction h with
  | one h => exact ⟨List.cons_ne_nil _ _, by simpa using hD _ _ h hus⟩
  | more h ht hs ih =>
    rw [List.forall_mem_append, List.forall_mem_cons] at hus
    exact ⟨List.cons_ne_nil _ _, List.forall_mem_cons.2 ⟨hD _ _ h hus.1, (ih hus.2.2).2⟩⟩

/-- A list begins with an item. -/
theorem exists_first (h : SepBy sep D us as) : ∃ vs a ws, us = vs ++ ws ∧ D vs a := by
  cases h with
  | one h => exact ⟨_, _, [], (List.append_nil _).symm, h⟩
  | more h ht hs => exact ⟨_, _, _, rfl, h⟩

/-- A list of tokens whose images are a list of items is itself one. -/
theorem map_iff {σ : Type} (g : σ → τ) {us : List σ} :
    SepBy sep D (us.map g) as ↔ SepBy (fun t => sep (g t)) (fun vs a => D (vs.map g) a) us as := by
  constructor
  · intro h
    generalize hws : us.map g = ws at h
    induction h generalizing us with
    | one h => exact .one (hws ▸ h)
    | more h ht hs ih =>
      obtain ⟨us, vs, rfl, rfl, hvs⟩ := List.map_eq_append_iff.1 hws
      obtain ⟨t, vs, rfl, rfl, hvs'⟩ := List.map_eq_cons_iff.1 hvs
      exact .more h ht (ih hvs')
  · intro h
    induction h with
    | one h => exact .one h
    | more h ht hs ih =>
      rw [List.map_append, List.map_cons]
      exact .more h ht ih

end SepBy

section Items

variable {last : τ} {sep : τ → Bool} {e : ε} {D : List τ → α → Prop}

theorem Reads.sepBy {P : Option τ → Prop} {p' : Parser τ ε α} (hlast : sep last = false)
    (hp : Reads (fun _ => True) p p' D) {n m : ℕ} (hnm : n ≤ m) :
    Reads P (Parsing.sepBy last sep e p n) (Parsing.sepBy last sep e p' m)
      (SepBy (sep · = true) D) := by
  induction n generalizing P m with
  | zero => exact Reads.fail e
  | succ n ih =>
    obtain ⟨m, rfl⟩ := Nat.exists_eq_succ_of_ne_zero (Nat.ne_zero_of_lt hnm)
    rw [Parsing.sepBy, Parsing.sepBy]
    refine ((hp.strengthen fun _ _ => trivial).bind fun a =>
      (Reads.accept hlast).bind (E := fun more vs as => (more = true ∧ ∃ as', as = a :: as' ∧
        SepBy (sep · = true) D vs as') ∨ (more = false ∧ vs = [] ∧ as = [a])) fun more => ?_).mono
        ?_
    · cases more with
      | false => exact Reads.pure (.inr ⟨rfl, rfl, rfl⟩)
      | true =>
        refine ((ih (Nat.le_of_succ_le_succ hnm)).bind fun as' =>
          Reads.pure (D := fun vs as => vs = [] ∧ as = a :: as') ⟨rfl, rfl⟩).mono ?_
        rintro _ _ ⟨us, as', vs, rfl, hus, rfl, rfl⟩
        exact .inl ⟨rfl, as', rfl, by rwa [List.append_nil]⟩
    · rintro _ as ⟨us, a, vs, rfl, hus, vs, more, ws, rfl, hvs, hws⟩
      rcases hvs with ⟨rfl, t, rfl, ht⟩ | ⟨rfl, rfl⟩
      · rcases hws with ⟨-, as', rfl, has'⟩ | ⟨hmore, -⟩
        · exact .more hus ht has'
        · cases hmore
      · rcases hws with ⟨hmore, -⟩ | ⟨-, rfl, rfl⟩
        · cases hmore
        · simpa using SepBy.one hus

/-- A list of items is taken whole, up to a token that is no separator, if each
    item is. -/
theorem sepBy_append {us : List τ} {as : List α} (h : SepBy (sep · = true) D us as)
    {F : Option τ → Prop} (hsep : ∀ t, sep t = true → F (some t))
    (hp : ∀ vs a rest, D vs a → vs <:+: us → F rest.head? → p (vs ++ rest) = .ok (a, rest))
    (hrest : F rest.head?) (hend : sep (rest.head?.getD last) = false) {n : ℕ}
    (hn : us.length < n) : sepBy last sep e p n (us ++ rest) = .ok (as, rest) := by
  induction h generalizing n with
  | @one us a h =>
    obtain ⟨n, rfl⟩ := Nat.exists_eq_add_of_lt hn
    rw [Parsing.sepBy, bind_apply (hp us a rest h (List.infix_refl us) hrest),
      bind_apply (accept_of_not hend)]
    rfl
  | @more us vs t a as h ht hs ih =>
    obtain ⟨n, rfl⟩ := Nat.exists_eq_succ_of_ne_zero (Nat.ne_zero_of_lt hn)
    have hvs : vs <:+: us ++ t :: vs := ⟨us ++ [t], [], by simp⟩
    have hlen : vs.length < n := by
      simp only [List.length_append, List.length_cons] at hn
      omega
    have htail := ih (fun ws b rest' hb hws => hp ws b rest' hb (hws.trans hvs)) hlen
    rw [Parsing.sepBy, List.append_assoc, List.cons_append,
      bind_apply (hp us a (t :: (vs ++ rest)) h ( List.prefix_append us (t :: vs)).isInfix
        (hsep t ht)), bind_apply (accept_cons ht)]
    simp only [if_true]
    rw [bind_apply htail, pure_apply]

end Items

/-! ### Running out of rounds -/

/-- On an input of at most `k` tokens, the parser does not fail with `e`. -/
def Answers (e : ε) (p : Parser τ ε α) (k : ℕ) : Prop :=
  ∀ ts : List τ, ts.length ≤ k → p ts ≠ .error e

theorem Reads.length_le {p' : Parser τ ε α} {D : List τ → α → Prop}
    (h : Reads (fun _ => True) p p' D) {a : α}
    (hp : p ts = .ok (a, rest)) : rest.length ≤ ts.length := by
  obtain ⟨us, rfl, -⟩ := h ts a rest trivial hp
  rw [List.length_append]
  exact Nat.le_add_left _ _

namespace Answers

variable {e e' : ε} {k : ℕ} {last : τ}

protected theorem pure (a : α) : Answers e (pure a : Parser τ ε α) k := fun _ _ => nofun

protected theorem fail (h : e' ≠ e) : Answers e (fail e' : Parser τ ε α) k :=
  fun _ _ h' => h (Except.error.inj h')

protected theorem bind {p' : Parser τ ε α} {D : List τ → α → Prop} (hp : Answers e p k)
    (hD : Reads (fun _ => True) p p' D) (hf : ∀ a, Answers e (f a) k) : Answers e (p >>= f) k := by
  intro ts hts h
  cases hts' : p ts with
  | error e' =>
    change Parser.bind p f ts = _ at h
    rw [Parser.bind, hts'] at h
    obtain rfl := Except.error.inj h
    exact hp ts hts hts'
  | ok x =>
    rw [bind_apply hts'] at h
    exact hf x.1 x.2 (Nat.le_trans (hD.length_le hts') hts) h

theorem peek_bind {f : τ → Parser τ ε α} (hf : ∀ t, Answers e (f t) k) :
    Answers e (peek last >>= f) k := by
  intro ts hts
  rw [peek_bind_apply]
  exact hf _ ts hts

/-- What follows a token has one token less. -/
theorem advance_bind {f : τ → Parser τ ε α} (hf : ∀ t, Answers e (f t) (k - 1)) :
    Answers e (advance last >>= f) k := by
  intro ts hts
  cases ts with
  | nil => exact hf last [] (Nat.zero_le _)
  | cons t ts =>
    rw [advance_bind_apply]
    exact hf t ts (Nat.le_sub_one_of_lt hts)

protected theorem expect {q : τ → Bool} {g : τ → ε} (hg : ∀ t, g t ≠ e) :
    Answers e (expect last q g) k := by
  refine advance_bind fun t => ?_
  split_ifs
  · exact .pure t
  · exact .fail (hg t)

protected theorem accept {q : τ → Bool} : Answers e (accept last q) k := by
  refine peek_bind fun t => ?_
  split_ifs
  · exact advance_bind fun _ => .pure _
  · exact .pure _

/-- A list takes a separator in every round but the last. -/
protected theorem sepBy {p' : Parser τ ε α} {D : List τ → α → Prop} {sep : τ → Bool} {n : ℕ}
    (hn : k < n) (hp : ∀ j ≤ k, Answers e p j) (hD : Reads (fun _ => True) p p' D)
    (hlast : sep last = false) : Answers e (sepBy last sep e p n) k := by
  induction n generalizing k with
  | zero => exact absurd hn (Nat.not_lt_zero k)
  | succ n ih =>
    refine (hp k (Nat.le_refl k)).bind hD fun a ts hts => ?_
    cases hsep : sep (ts.head?.getD last) with
    | false =>
      rw [bind_apply (accept_of_not hsep)]
      exact Answers.pure [a] ts hts
    | true =>
      cases ts with
      | nil => exact absurd hsep (by simp [hlast])
      | cons t ts =>
        have hk : ts.length < k := hts
        have ht : sep t = true := hsep
        have htail : Answers e (sepBy last sep e p n) (k - 1) :=
          ih (by omega) fun j hj => hp j (by omega)
        rw [bind_apply (accept_cons ht)]
        exact (htail.bind (Reads.sepBy hlast hD (Nat.le_refl n)) fun as => .pure _) ts (by omega)

end Answers

end Parsing
