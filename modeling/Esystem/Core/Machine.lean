import Mathlib.Order.Basic

/-!
# Runs of a partial step function

The systems of this development are *partial step functions*: `next s a` is the
state that event `a` leads to from `s`, or `none` when `a` cannot happen in `s`.
All nondeterminism (which thread the scheduler picks, whether a sleep is
interrupted, when an interrupt arrives) sits in the list of events, so a run is
a list of events and a schedule can be evaluated.

- `run next s as`: the state after the events `as`, if all of them can happen.
- `run_inv` / `run_inv_where`: the invariant rule, without and with a condition
  `C` that the steps of the run meet.
- `Along next P s as`: `P` holds of every state the run visits.
- `along_iff_of_inv`, `along_iff_stepsMeet`: the rule behind every exact
  condition. If the steps that meet `C` keep `P` and the steps that do not meet
  it break `P`, then `P` holds along a run exactly when all steps of the run
  meet `C`.
-/

namespace Esystem

universe u v

variable {σ : Type u} {α : Type v}

/-- The state after the events `as`, or `none` if one of them cannot happen. -/
def run (next : σ → α → Option σ) : σ → List α → Option σ
  | s, [] => some s
  | s, a :: as => (next s a).bind fun t => run next t as

/-- Every step of the run from `s` along `as` meets the condition `C`, which
reads the state before the step and its event. -/
def StepsMeet (next : σ → α → Option σ) (C : σ → α → Prop) : σ → List α → Prop
  | _, [] => True
  | s, a :: as => C s a ∧ ∀ t, next s a = some t → StepsMeet next C t as

/-- `P` holds of every state that the run from `s` along `as` visits. -/
def Along (next : σ → α → Option σ) (P : σ → Prop) : σ → List α → Prop
  | s, [] => P s
  | s, a :: as => P s ∧ ∀ t, next s a = some t → Along next P t as

variable {next : σ → α → Option σ}

theorem run_cons_some {s t u : σ} {a : α} {as : List α} (h : next s a = some t) :
    run next s (a :: as) = some u ↔ run next t as = some u := by
  rw [run, h, Option.bind_some]

/-- A run of `a :: as` is a step on `a` followed by a run of `as`. -/
theorem run_cons_inv {s u : σ} {a : α} {as : List α}
    (h : run next s (a :: as) = some u) :
    ∃ t, next s a = some t ∧ run next t as = some u :=
  Option.bind_eq_some_iff.mp h

/-- A run in two parts. -/
theorem run_append_some {s t u : σ} {as bs : List α} (h : run next s as = some t)
    (h' : run next t bs = some u) : run next s (as ++ bs) = some u := by
  induction as generalizing s with
  | nil =>
    cases h
    exact h'
  | cons a as ih =>
    obtain ⟨m, hm, hrest⟩ := run_cons_inv h
    exact (run_cons_some hm).mpr (ih hrest)

/-- The parts of a run. -/
theorem run_append_inv {s u : σ} {as bs : List α} (h : run next s (as ++ bs) = some u) :
    ∃ t, run next s as = some t ∧ run next t bs = some u := by
  induction as generalizing s with
  | nil => exact ⟨s, rfl, h⟩
  | cons a as ih =>
    obtain ⟨m, hm, hrest⟩ := run_cons_inv h
    obtain ⟨t, ht, hbs⟩ := ih hrest
    exact ⟨t, (run_cons_some hm).mpr ht, hbs⟩

/-- A run whose last state passes a test, from evaluating both. -/
theorem exists_run_of_any (next : σ → α → Option σ) (s : σ) (as : List α) (p : σ → Bool)
    (h : (run next s as).any p = true) : ∃ t, run next s as = some t ∧ p t = true := by
  cases hr : run next s as with
  | none =>
    rw [hr] at h
    cases h
  | some t =>
    rw [hr] at h
    exact ⟨t, rfl, h⟩

/-- A condition that can be evaluated can be evaluated along a run. -/
instance decidableStepsMeet (next : σ → α → Option σ) (C : σ → α → Prop)
    [∀ s a, Decidable (C s a)] :
    (s : σ) → (as : List α) → Decidable (StepsMeet next C s as)
  | _, [] => inferInstanceAs (Decidable True)
  | s, a :: as =>
    match hn : next s a with
    | none => decidable_of_iff (C s a) ⟨fun h => ⟨h, fun t ht => by simp [hn] at ht⟩, And.left⟩
    | some u =>
      have := decidableStepsMeet next C u as
      decidable_of_iff (C s a ∧ StepsMeet next C u as)
        ⟨fun h => ⟨h.1, fun t ht => by cases hn.symm.trans ht; exact h.2⟩,
          fun h => ⟨h.1, h.2 u hn⟩⟩

/-- A condition on events alone, checked on the list of events. -/
theorem stepsMeet_of_mem {C : σ → α → Prop} {as : List α} (hC : ∀ a ∈ as, ∀ s, C s a)
    (s : σ) : StepsMeet next C s as := by
  induction as generalizing s with
  | nil => trivial
  | cons a as ih =>
    exact ⟨hC a List.mem_cons_self s,
      fun t _ => ih (fun b hb => hC b (List.mem_cons_of_mem a hb)) t⟩

/-- A condition on the steps of a run in two parts. -/
theorem stepsMeet_append {C : σ → α → Prop} {s t : σ} {as bs : List α}
    (h : run next s as = some t) :
    StepsMeet next C s (as ++ bs) ↔ StepsMeet next C s as ∧ StepsMeet next C t bs := by
  induction as generalizing s with
  | nil =>
    cases h
    exact ⟨fun hC => ⟨trivial, hC⟩, And.right⟩
  | cons a as ih =>
    obtain ⟨m, hm, hrest⟩ := run_cons_inv h
    constructor
    · rintro ⟨hCa, hC⟩
      refine ⟨⟨hCa, fun t' ht' => ?_⟩, ((ih hrest).mp (hC m hm)).2⟩
      cases hm.symm.trans ht'
      exact ((ih hrest).mp (hC m hm)).1
    · rintro ⟨⟨hCa, hC⟩, hC'⟩
      refine ⟨hCa, fun t' ht' => ?_⟩
      cases hm.symm.trans ht'
      exact (ih hrest).mpr ⟨hC m hm, hC'⟩

/-- Conditions that agree on the events of a run are met by the same runs. -/
theorem stepsMeet_congr {C C' : σ → α → Prop} {as : List α}
    (hCC' : ∀ a ∈ as, ∀ s t, next s a = some t → (C s a ↔ C' s a)) {s t : σ}
    (h : run next s as = some t) : StepsMeet next C s as ↔ StepsMeet next C' s as := by
  induction as generalizing s with
  | nil => exact Iff.rfl
  | cons a as ih =>
    obtain ⟨m, hm, hrest⟩ := run_cons_inv h
    have hih := ih (fun b hb => hCC' b (List.mem_cons_of_mem a hb)) hrest
    refine and_congr (hCC' a List.mem_cons_self s m hm) (forall₂_congr fun t' ht' => ?_)
    cases hm.symm.trans ht'
    exact hih

/-- **Invariant rule under a step condition**: what the steps that meet `C`
keep, every run whose steps all meet `C` keeps. -/
theorem run_inv_where {C : σ → α → Prop} {I : σ → Prop}
    (hstep : ∀ {s a t}, I s → C s a → next s a = some t → I t)
    {s t : σ} {as : List α} (hs : I s) (hC : StepsMeet next C s as)
    (h : run next s as = some t) : I t := by
  induction as generalizing s with
  | nil =>
    cases h
    exact hs
  | cons a as ih =>
    obtain ⟨m, hm, hrest⟩ := run_cons_inv h
    exact ih (hstep hs hC.1 hm) (hC.2 m hm) hrest

/-- **Invariant rule**: what every step keeps, every run keeps. -/
theorem run_inv {I : σ → Prop} (hstep : ∀ {s a t}, I s → next s a = some t → I t)
    {s t : σ} {as : List α} (hs : I s) (h : run next s as = some t) : I t :=
  run_inv_where (C := fun _ _ => True) (fun hi _ => hstep hi) hs
    (stepsMeet_of_mem (fun _ _ _ => trivial) s) h

theorem Along.head {P : σ → Prop} {s : σ} {as : List α}
    (h : Along next P s as) : P s := by
  cases as with
  | nil => exact h
  | cons a as => exact h.1

/-- What the steps that meet `C` keep holds along the runs of such steps. -/
theorem along_of_inv {C : σ → α → Prop} {I P : σ → Prop} (hP : ∀ {s}, I s → P s)
    (hkeep : ∀ {s a t}, I s → C s a → next s a = some t → I t) {s : σ} {as : List α} (hI : I s)
    (hC : StepsMeet next C s as) : Along next P s as := by
  induction as generalizing s with
  | nil => exact hP hI
  | cons a as ih => exact ⟨hP hI, fun t ht => ih (hkeep hI hC.1 ht) (hC.2 t ht)⟩

/-- **Exact condition of a run property**: let `I` be a state condition that
implies `P`. If from states with `I` the steps that meet `C` keep `I`, and the
steps that do not meet `C` lead to a state without `P`, then `P` holds along a
run exactly when every step of the run meets `C`. -/
theorem along_iff_of_inv {C : σ → α → Prop} {I P : σ → Prop}
    (hP : ∀ {s}, I s → P s)
    (hkeep : ∀ {s a t}, I s → C s a → next s a = some t → I t)
    (hbreak : ∀ {s a t}, I s → ¬ C s a → next s a = some t → ¬ P t)
    {s t : σ} {as : List α} (hI : I s) (hr : run next s as = some t) :
    Along next P s as ↔ StepsMeet next C s as := by
  induction as generalizing s with
  | nil => exact ⟨fun _ => trivial, fun _ => hP hI⟩
  | cons a as ih =>
    obtain ⟨m, hm, hrest⟩ := run_cons_inv hr
    constructor
    · rintro ⟨-, h⟩
      have hCa : C s a := by
        by_contra hn
        exact hbreak hI hn hm (h m hm).head
      refine ⟨hCa, fun t' ht' => ?_⟩
      cases hm.symm.trans ht'
      exact (ih (hkeep hI hCa hm) hrest).mp (h m hm)
    · rintro ⟨hCa, h⟩
      refine ⟨hP hI, fun t' ht' => ?_⟩
      cases hm.symm.trans ht'
      exact (ih (hkeep hI hCa hm) hrest).mpr (h m hm)

/-- The exact condition for an invariant `B` of all steps, and a `P` that the steps
that meet `C` keep. -/
theorem along_iff_stepsMeet {C : σ → α → Prop} {B P : σ → Prop}
    (hB : ∀ {s a t}, B s → next s a = some t → B t)
    (hkeep : ∀ {s a t}, B s → P s → C s a → next s a = some t → P t)
    (hbreak : ∀ {s a t}, B s → P s → ¬ C s a → next s a = some t → ¬ P t)
    {s t : σ} {as : List α} (hBs : B s) (hPs : P s)
    (hr : run next s as = some t) :
    Along next P s as ↔ StepsMeet next C s as :=
  along_iff_of_inv (I := fun s => B s ∧ P s) And.right
    (fun h hC hs => ⟨hB h.1 hs, hkeep h.1 h.2 hC hs⟩)
    (fun h hC hs => hbreak h.1 h.2 hC hs) ⟨hBs, hPs⟩ hr

end Esystem
