import Mathlib.Logic.Function.Basic
import Esystem.Core.Machine

/-!
# Independent systems, interleaved

A family of systems that share nothing, one of which makes a step at a time.

`run_interleaved_iff`: what they can do together is what each of them can do alone. A
list of events is a run of all exactly if the events of each system are a run of it.
-/

namespace Esystem

variable {I : Type} [DecidableEq I] {σ : I → Type} {α : Type}

/-- One of the systems makes a step. -/
def interleaved (next : ∀ i, σ i → α → Option (σ i)) (s : ∀ i, σ i) (e : I × α) :
    Option (∀ i, σ i) :=
  (next e.1 (s e.1) e.2).map (Function.update s e.1)

/-- The events of system `i`. -/
def eventsOf (i : I) (es : List (I × α)) : List α :=
  (es.filter fun e => e.1 = i).map Prod.snd

theorem eventsOf_cons_self (i : I) (a : α) (es : List (I × α)) :
    eventsOf i ((i, a) :: es) = a :: eventsOf i es := by
  rw [eventsOf, List.filter_cons_of_pos (by simp), List.map_cons]
  rfl

theorem eventsOf_cons_of_ne {i j : I} (h : j ≠ i) (a : α) (es : List (I × α)) :
    eventsOf i ((j, a) :: es) = eventsOf i es := by
  rw [eventsOf, List.filter_cons_of_neg (by simpa using h)]
  rfl

variable {next : ∀ i, σ i → α → Option (σ i)}

/-- **Systems that share nothing do together what each does alone.** -/
theorem run_interleaved_iff {s s' : ∀ i, σ i} {es : List (I × α)} :
    run (interleaved next) s es = some s' ↔
      ∀ i, run (next i) (s i) (eventsOf i es) = some (s' i) := by
  induction es generalizing s with
  | nil =>
    constructor
    · intro h i
      cases h
      rfl
    · intro h
      exact congrArg some (funext fun i => Option.some.inj (h i))
  | cons e es ih =>
    obtain ⟨j, a⟩ := e
    constructor
    · intro h i
      obtain ⟨t, ht, hrest⟩ := run_cons_inv h
      obtain ⟨x, hx, rfl⟩ := Option.map_eq_some_iff.mp ht
      have hi := ih.mp hrest i
      by_cases hij : j = i
      · subst hij
        rw [Function.update_self] at hi
        rw [eventsOf_cons_self]
        exact (run_cons_some hx).mpr hi
      · rw [Function.update_of_ne (Ne.symm hij)] at hi
        rwa [eventsOf_cons_of_ne hij]
    · intro h
      have hj := h j
      rw [eventsOf_cons_self] at hj
      obtain ⟨x, hx, hrest⟩ := run_cons_inv hj
      have hstep : interleaved next s (j, a) = some (Function.update s j x) := by
        rw [interleaved, hx, Option.map_some]
      refine (run_cons_some hstep).mpr (ih.mpr fun i => ?_)
      by_cases hij : i = j
      · subst hij
        rwa [Function.update_self]
      · rw [Function.update_of_ne hij]
        have hi := h i
        rwa [eventsOf_cons_of_ne (Ne.symm hij)] at hi

end Esystem
