import Mathlib.Algebra.BigOperators.Group.Finset.Basic
import Mathlib.Data.Fintype.Basic
import Mathlib.Logic.Function.Basic

/-!
# Families of processes of which one moves

A state of many processes is a function on their names, and a step updates it at
one name. These lemmas carry over what is known of all processes: a property of
each, that at most one has a property, and a sum over all.
-/

namespace Esystem

universe u v

variable {ι : Type u} {α : Type v} [DecidableEq ι]

/-- A property of each process that the one that moves has afterwards. -/
theorem forall_update {P : ι → α → Prop} {f : ι → α} {t : ι} {a : α}
    (h : ∀ u, P u (f u)) (ha : P t a) : ∀ u, P u (Function.update f t a u) :=
  (Function.forall_update_iff f P).mpr ⟨ha, fun u _ => h u⟩

/-- At most one process has the property `Q`, if the one that moves has it only
where it had it before or nobody did. -/
theorem one_update {Q : α → Prop} {f : ι → α} {t : ι} {a : α}
    (h : ∀ u v, Q (f u) → Q (f v) → u = v) (ha : Q a → Q (f t) ∨ ∀ u, ¬ Q (f u)) :
    ∀ u v, Q (Function.update f t a u) → Q (Function.update f t a v) → u = v := by
  have ht : ∀ u, Q a → Q (f u) → u = t := by
    intro u hQ hu
    rcases ha hQ with hin | hno
    · exact h u t hu hin
    · exact absurd hu (hno u)
  intro u v hu hv
  by_cases hut : u = t
  · by_cases hvt : v = t
    · rw [hut, hvt]
    · subst hut
      rw [Function.update_self] at hu
      rw [Function.update_of_ne hvt] at hv
      exact (ht v hu hv).symm
  · rw [Function.update_of_ne hut] at hu
    by_cases hvt : v = t
    · subst hvt
      rw [Function.update_self] at hv
      exact ht u hv hu
    · rw [Function.update_of_ne hvt] at hv
      exact h u v hu hv

/-- A sum over all processes changes by what the one that moves contributes. -/
theorem sum_update [Fintype ι] (g : ι → α → Nat) (f : ι → α) (t : ι) (a : α) :
    ∑ u, g u (Function.update f t a u) + g t (f t) = ∑ u, g u (f u) + g t a := by
  rw [← Finset.add_sum_erase _ _ (Finset.mem_univ t),
    ← Finset.add_sum_erase _ (fun u => g u (f u)) (Finset.mem_univ t)]
  have hrest : ∑ u ∈ Finset.univ.erase t, g u (Function.update f t a u)
      = ∑ u ∈ Finset.univ.erase t, g u (f u) := by
    refine Finset.sum_congr rfl fun u hu => ?_
    rw [Function.update_of_ne (Finset.ne_of_mem_erase hu)]
  rw [hrest, Function.update_self]
  omega

end Esystem
