import Mathlib.Data.Finset.Basic
import Mathlib.Data.List.Nodup

/-!
# Fan-out of a request

A caller sends one request to a set of peers and collects what comes back.
Every peer handles the request at most once, at any later moment, and the
caller gets at most one result from each: its response, if it arrives in time,
or a failure. Requests and responses may be lost (never handled, never
received) or delayed, past the moment the caller stopped waiting.

* `FanOut`: the state of such a call. Its fields carry what the caller may rely
  on: nobody answers twice, nobody outside the targets answers, and a received
  response is one the peer has really given;
* `handle`, `receive`, `fail`: the three things that can happen to it;
* `successes`: the peers whose received response is a success, all distinct
  (`nodup_successes`).
-/

/-- The state of a request sent to `targets`. -/
structure FanOut (π ρ : Type*) where
  /-- The peers the request is sent to. -/
  targets : Finset π
  /-- The responses of the peers that have handled the request. -/
  handled : List (π × ρ)
  /-- What the caller has got: a response, or a failed call. -/
  results : List (π × Option ρ)
  nodup_handled : (handled.map Prod.fst).Nodup
  nodup_results : (results.map Prod.fst).Nodup
  handled_mem : ∀ x ∈ handled, x.1 ∈ targets
  results_mem : ∀ x ∈ results, x.1 ∈ targets
  handled_of_result : ∀ p r, (p, some r) ∈ results → (p, r) ∈ handled

namespace FanOut

variable {π ρ : Type*}

/-- A request just sent to the peers `l`. -/
def start (l : Finset π) : FanOut π ρ where
  targets := l
  handled := []
  results := []
  nodup_handled := List.nodup_nil
  nodup_results := List.nodup_nil
  handled_mem := by simp
  results_mem := by simp
  handled_of_result := by simp

/-- The peers whose received response satisfies `ok`. -/
def successes (f : FanOut π ρ) (ok : ρ → Bool) : List π :=
  (f.results.filter fun x => x.2.any ok).map Prod.fst

section Successes

variable {f : FanOut π ρ} {p : π} {ok : ρ → Bool}

theorem mem_successes : p ∈ f.successes ok ↔ ∃ r, (p, some r) ∈ f.results ∧ ok r = true := by
  simp only [successes, List.mem_map, List.mem_filter, Prod.exists, exists_and_right,
    exists_eq_right]
  constructor
  · rintro ⟨x, hx, hok⟩
    cases x with
    | none => simp at hok
    | some r => exact ⟨r, hx, hok⟩
  · rintro ⟨r, hr, hok⟩
    exact ⟨some r, hr, hok⟩

/-- A success is counted once. -/
theorem nodup_successes (f : FanOut π ρ) (ok : ρ → Bool) : (f.successes ok).Nodup :=
  f.nodup_results.sublist (List.filter_sublist.map _)

/-- Successes come from the targets. -/
theorem successes_subset (f : FanOut π ρ) (ok : ρ → Bool) :
    ∀ p ∈ f.successes ok, p ∈ f.targets :=
  fun _ hp => let ⟨_, hr, _⟩ := mem_successes.1 hp; f.results_mem _ hr

/-- A success is a response that the peer has given. -/
theorem handled_of_success (hp : p ∈ f.successes ok) : ∃ r, (p, r) ∈ f.handled ∧ ok r = true :=
  let ⟨r, hr, hok⟩ := mem_successes.1 hp
  ⟨r, f.handled_of_result p r hr, hok⟩

end Successes

variable [DecidableEq π]

/-- The peer `p` handles the request, answering `r`. -/
def handle (f : FanOut π ρ) (p : π) (r : ρ) : Option (FanOut π ρ) :=
  if h : p ∈ f.targets ∧ p ∉ f.handled.map Prod.fst then
    some { f with
      handled := (p, r) :: f.handled
      nodup_handled := List.nodup_cons.2 ⟨h.2, f.nodup_handled⟩
      handled_mem := List.forall_mem_cons.2 ⟨h.1, f.handled_mem⟩
      handled_of_result := fun q r' hq =>
        List.mem_cons_of_mem _ (f.handled_of_result q r' hq) }
  else none

/-- The caller receives the response of `p`. -/
def receive [DecidableEq ρ] (f : FanOut π ρ) (p : π) (r : ρ) : Option (FanOut π ρ) :=
  if h : (p, r) ∈ f.handled ∧ p ∉ f.results.map Prod.fst then
    some { f with
      results := (p, some r) :: f.results
      nodup_results := List.nodup_cons.2 ⟨h.2, f.nodup_results⟩
      results_mem := List.forall_mem_cons.2 ⟨f.handled_mem _ h.1, f.results_mem⟩
      handled_of_result := fun q r' hq => by
        rcases List.mem_cons.1 hq with e | hq
        · -- The new result is the response that `p` has given.
          simp only [Prod.mk.injEq, Option.some.injEq] at e
          obtain ⟨rfl, rfl⟩ := e
          exact h.1
        · exact f.handled_of_result q r' hq }
  else none

/-- The call to `p` fails: the request or the response is lost, or too late. -/
def fail (f : FanOut π ρ) (p : π) : Option (FanOut π ρ) :=
  if h : p ∈ f.targets ∧ p ∉ f.results.map Prod.fst then
    some { f with
      results := (p, none) :: f.results
      nodup_results := List.nodup_cons.2 ⟨h.2, f.nodup_results⟩
      results_mem := List.forall_mem_cons.2 ⟨h.1, f.results_mem⟩
      handled_of_result := fun q r' hq => by
        rcases List.mem_cons.1 hq with e | hq
        · -- A failed call comes without a response.
          exact absurd (Prod.mk.inj e).2 (Option.some_ne_none r')
        · exact f.handled_of_result q r' hq }
  else none

/-- The caller has a result from every target. -/
def complete (f : FanOut π ρ) : Bool :=
  decide (∀ p ∈ f.targets, p ∈ f.results.map Prod.fst)

variable {f g : FanOut π ρ} {p : π} {r : ρ}

/-- What handling a request does. -/
theorem of_handle (h : f.handle p r = some g) :
    p ∈ f.targets ∧ p ∉ f.handled.map Prod.fst ∧ g.targets = f.targets ∧
      g.handled = (p, r) :: f.handled ∧ g.results = f.results := by
  rw [handle] at h
  split_ifs at h with hp
  obtain rfl := Option.some.inj h
  exact ⟨hp.1, hp.2, rfl, rfl, rfl⟩

/-- What receiving a response does. -/
theorem of_receive [DecidableEq ρ] (h : f.receive p r = some g) :
    (p, r) ∈ f.handled ∧ g.targets = f.targets ∧ g.handled = f.handled ∧
      g.results = (p, some r) :: f.results := by
  rw [receive] at h
  split_ifs at h with hp
  obtain rfl := Option.some.inj h
  exact ⟨hp.1, rfl, rfl, rfl⟩

/-- What a failed call does. -/
theorem of_fail (h : f.fail p = some g) :
    g.targets = f.targets ∧ g.handled = f.handled ∧ g.results = (p, none) :: f.results := by
  rw [fail] at h
  split_ifs at h
  obtain rfl := Option.some.inj h
  exact ⟨rfl, rfl, rfl⟩

end FanOut
