import Mathlib.Data.List.Basic
import Mathlib.Data.Int.Basic

/-!
# Memory read and written in runs of consecutive cells

Memory around a base pointer: cells are addressed by integers, so that an access
outside of the object the pointer stands for can be written down. `store` writes
a list from an offset on, `load` reads a number of cells, `span` is the list of
cells either of them touches.
-/

namespace Esystem

universe u

/-- The cells around a base pointer. -/
abbrev Memory (α : Type u) := Int → α

namespace Memory

variable {α : Type u}

/-- The `n` cells from `off` on. -/
def load (m : Memory α) (off : Int) (n : Nat) : List α :=
  (List.range n).map fun i : Nat => m (off + (i : Int))

/-- Write `xs` to the cells from `off` on. -/
def store (m : Memory α) (off : Int) (xs : List α) : Memory α := fun j =>
  if off ≤ j then (xs[(j - off).toNat]?).getD (m j) else m j

/-- The cells that `n` consecutive accesses from `off` on touch. -/
def span (off : Int) (n : Nat) : List Int :=
  (List.range n).map fun i : Nat => off + (i : Int)

theorem mem_span {off j : Int} {n : Nat} : j ∈ span off n ↔ off ≤ j ∧ j < off + n := by
  simp only [span, List.mem_map, List.mem_range]
  constructor
  · rintro ⟨i, hi, rfl⟩
    omega
  · rintro ⟨hl, hr⟩
    exact ⟨(j - off).toNat, by omega, by omega⟩

@[simp] theorem length_load (m : Memory α) (off : Int) (n : Nat) :
    (m.load off n).length = n := by
  simp [load]

/-- Loading in two parts. -/
theorem load_add (m : Memory α) (off : Int) (n k : Nat) :
    m.load off (n + k) = m.load off n ++ m.load (off + n) k := by
  simp only [load, List.range_add, List.map_append, List.map_map]
  congr 1
  refine List.map_congr_left fun i _ => ?_
  show m (off + ((n + i : Nat) : Int)) = m (off + n + i)
  rw [Int.natCast_add, Int.add_assoc]

/-- The first of the cells loaded. -/
theorem take_load (m : Memory α) (off : Int) (n k : Nat) :
    (m.load off n).take k = m.load off (min k n) := by
  rw [load, ← List.map_take, List.take_range]
  rfl

/-- What was stored is loaded back. -/
theorem load_store (m : Memory α) (off : Int) (xs : List α) :
    (m.store off xs).load off xs.length = xs := by
  refine List.ext_getElem (length_load _ _ _) fun i _ hi => ?_
  have hle : off ≤ off + (i : Int) := by omega
  have hindex : (off + (i : Int) - off).toNat = i := by omega
  simp only [load, store, List.getElem_map, List.getElem_range, if_pos hle, hindex,
    List.getElem?_eq_getElem hi, Option.getD_some]

/-- A store beyond the cells loaded does not change them. -/
theorem load_store_of_le (m : Memory α) {off a : Int} {n : Nat} (xs : List α)
    (h : a + n ≤ off) : (m.store off xs).load a n = m.load a n := by
  refine List.map_congr_left fun i hi => ?_
  have hlt : ¬ off ≤ a + i := by
    have := List.mem_range.mp hi
    omega
  rw [store, if_neg hlt]

end Memory

end Esystem
