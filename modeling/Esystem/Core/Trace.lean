import Mathlib.Data.Set.Basic
import Esystem.Core.Machine

/-!
# Observable traces

What a run shows is the sequence of observations of its steps; a step may show
nothing, or several things. Two systems that run in lockstep, so that from
related states the same events can happen, show the same and lead to related
states, have the same traces (`Lockstep.traces_eq`).
-/

namespace Esystem

universe u v w x

variable {σ : Type u} {τ : Type v} {α : Type w} {O : Type x}

/-! ## Steps that match -/

section Rel

variable {β : Type v} {R : α → β → Prop} {a : Option α} {b : Option β}

theorem exists_of_rel_some {x : α} (h : Option.Rel R (some x) b) : ∃ y, b = some y ∧ R x y := by
  cases h with
  | some hxy => exact ⟨_, rfl, hxy⟩

theorem rel_symm (h : Option.Rel R a b) : Option.Rel (fun y x => R x y) b a := by
  cases h with
  | none => exact .none
  | some hxy => exact .some hxy

/-- What is known of the step on the left is known of the match. -/
theorem rel_imp {R' : α → β → Prop} (h : Option.Rel R a b)
    (himp : ∀ {x y}, a = some x → R x y → R' x y) : Option.Rel R' a b := by
  cases h with
  | none => exact .none
  | some hxy => exact .some (himp rfl hxy)

theorem rel_map {γ : Type u} {δ : Type x} {R' : γ → δ → Prop} {f : α → γ} {g : β → δ}
    (h : Option.Rel R a b) (hmap : ∀ {x y}, R x y → R' (f x) (g y)) :
    Option.Rel R' (a.map f) (b.map g) := by
  cases h with
  | none => exact .none
  | some hxy => exact .some (hmap hxy)

end Rel

/-! ## Traces -/

/-- What the run from `s` along `as` shows. -/
def observed (next : σ → α → Option σ) (obs : σ → α → List O) : σ → List α → List O
  | _, [] => []
  | s, a :: as =>
    obs s a ++
      match next s a with
      | some t => observed next obs t as
      | none => []

/-- The traces of the runs from `s`. -/
def Traces (next : σ → α → Option σ) (obs : σ → α → List O) (s : σ) : Set (List O) :=
  { tr | ∃ as t, run next s as = some t ∧ observed next obs s as = tr }

/-- `R` relates states of two systems that run in lockstep. -/
structure Lockstep (next : σ → α → Option σ) (obs : σ → α → List O)
    (next' : τ → α → Option τ) (obs' : τ → α → List O) (R : σ → τ → Prop) : Prop where
  step : ∀ {s s'}, R s s' → ∀ a, Option.Rel R (next s a) (next' s' a)
  obs : ∀ {s s'}, R s s' → ∀ a, obs s a = obs' s' a

variable {next : σ → α → Option σ} {obs : σ → α → List O}
  {next' : τ → α → Option τ} {obs' : τ → α → List O} {R : σ → τ → Prop}

theorem observed_cons {s t : σ} {a : α} {as : List α} (h : next s a = some t) :
    observed next obs s (a :: as) = obs s a ++ observed next obs t as := by
  rw [observed, h]

/-- The systems stay related along the same events. -/
theorem Lockstep.run (h : Lockstep next obs next' obs' R) {s : σ} {s' : τ} (hR : R s s')
    {as : List α} {t : σ} (hr : run next s as = some t) :
    ∃ t', Esystem.run next' s' as = some t' ∧ R t t' ∧
      observed next obs s as = observed next' obs' s' as := by
  induction as generalizing s s' with
  | nil =>
    cases hr
    exact ⟨s', rfl, hR, rfl⟩
  | cons a as ih =>
    obtain ⟨m, hm, hrest⟩ := run_cons_inv hr
    have hstep := h.step hR a
    rw [hm] at hstep
    obtain ⟨m', hm', hRm⟩ := exists_of_rel_some hstep
    obtain ⟨t', hr', hRt, hobs⟩ := ih hRm hrest
    refine ⟨t', (run_cons_some hm').mpr hr', hRt, ?_⟩
    rw [observed_cons hm, observed_cons hm', h.obs hR a, hobs]

/-- Lockstep can be read from the other side. -/
theorem Lockstep.flip (h : Lockstep next obs next' obs' R) :
    Lockstep next' obs' next obs fun s' s => R s s' where
  step hR a := rel_symm (h.step hR a)
  obs hR a := (h.obs hR a).symm

/-- What one system shows, the other one shows along the same events. -/
theorem Lockstep.traces_subset (h : Lockstep next obs next' obs' R) {s : σ} {s' : τ}
    (hR : R s s') : Traces next obs s ⊆ Traces next' obs' s' := by
  rintro tr ⟨as, t, hr, rfl⟩
  obtain ⟨t', hr', -, hobs⟩ := h.run hR hr
  exact ⟨as, t', hr', hobs.symm⟩

/-- **Systems in lockstep have the same traces.** -/
theorem Lockstep.traces_eq (h : Lockstep next obs next' obs' R) {s : σ} {s' : τ}
    (hR : R s s') : Traces next obs s = Traces next' obs' s' :=
  Set.Subset.antisymm (h.traces_subset hR) (h.flip.traces_subset hR)

end Esystem
