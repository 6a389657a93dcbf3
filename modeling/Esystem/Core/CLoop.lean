import Mathlib.Data.List.Range
import Esystem.Core.CInt

/-!
# Counting loops with an `int` counter

`for (i = 0; i < len; i++) body` with an `int` counter and a `size_t` bound, as
C compares and increments them. The loop is given fuel; `forInt_eq_foldl` shows
that for bounds below `2 ^ 31` it ends, having run the body once for each
number below the bound. Beyond that the counter would wrap.
-/

namespace Esystem

universe u

variable {σ : Type u}

/-- The loop from counter `i` on; `none` when the fuel runs out. -/
def forInt (len : SizeT) (body : CInt → σ → σ) : Nat → CInt → σ → Option σ
  | 0, _, _ => none
  | fuel + 1, i, s =>
    if toSize i < len then forInt len body fuel (i + 1) (body i s) else some s

theorem toSize_lt_iff {i n : Nat} (hi : i < 2 ^ 31) (hn : n < 2 ^ 31) :
    toSize (BitVec.ofNat 32 i) < BitVec.ofNat 64 n ↔ i < n := by
  rw [toSize_ofNat hi, BitVec.lt_def, toNat_ofNat_size (by omega), toNat_ofNat_size (by omega)]

/-- The rounds from counter `i` on. -/
theorem forInt_from {n : Nat} (hn : n < 2 ^ 31) (body : CInt → σ → σ) (k : Nat) :
    ∀ i s, i + k = n → forInt (BitVec.ofNat 64 n) body (k + 1) (BitVec.ofNat 32 i) s
      = some ((List.range' i k).foldl (fun s i => body (BitVec.ofNat 32 i) s) s) := by
  induction k with
  | zero =>
    intro i s hi
    have hend : ¬ toSize (BitVec.ofNat 32 i) < BitVec.ofNat 64 n := by
      rw [toSize_lt_iff (by omega) hn]
      omega
    rw [forInt, if_neg hend]
    rfl
  | succ k ih =>
    intro i s hi
    have hround : toSize (BitVec.ofNat 32 i) < BitVec.ofNat 64 n := by
      rw [toSize_lt_iff (by omega) hn]
      omega
    have hnext : BitVec.ofNat 32 i + 1 = BitVec.ofNat 32 (i + 1) := (BitVec.ofNat_add i 1).symm
    rw [forInt, if_pos hround, hnext, ih (i + 1) _ (by omega), List.range'_succ,
      List.foldl_cons]

/-- **The loop ends**, having run its body for each number below the bound. -/
theorem forInt_eq_foldl {n : Nat} (hn : n < 2 ^ 31) (body : CInt → σ → σ) (s : σ) :
    forInt (BitVec.ofNat 64 n) body (n + 1) 0 s
      = some ((List.range n).foldl (fun s i => body (BitVec.ofNat 32 i) s) s) := by
  rw [List.range_eq_range']
  exact forInt_from hn body n 0 s (Nat.zero_add n)

/-- A loop whose body is about element `i` of a list runs through the list. -/
theorem forInt_list {α : Type u} {xs : List α} (hn : xs.length < 2 ^ 31) (d : α)
    (f : α → σ → σ) (s : σ) :
    forInt (BitVec.ofNat 64 xs.length) (fun i s => f (xs.getD i.toNat d) s) (xs.length + 1) 0 s
      = some (xs.foldl (fun s x => f x s) s) := by
  rw [forInt_eq_foldl hn]
  have hxs : (List.range xs.length).map (fun i => xs.getD i d) = xs := by
    refine List.ext_getElem (by simp) fun i _ hi => ?_
    simp [hi]
  have hindex : ∀ i ∈ List.range xs.length,
      (BitVec.ofNat 32 i).toNat = i := by
    intro i hi
    have := List.mem_range.mp hi
    rw [BitVec.toNat_ofNat, Nat.mod_eq_of_lt (by omega)]
  congr 1
  calc (List.range xs.length).foldl (fun s i => f (xs.getD (BitVec.ofNat 32 i).toNat d) s) s
      = (List.range xs.length).foldl (fun s i => f (xs.getD i d) s) s :=
        List.foldl_ext _ _ _ fun s i hi => by rw [hindex i hi]
    _ = ((List.range xs.length).map fun i => xs.getD i d).foldl (fun s x => f x s) s :=
        (List.foldl_map (f := fun i => xs.getD i d) (g := fun s x => f x s)).symm
    _ = xs.foldl (fun s x => f x s) s := by rw [hxs]

end Esystem
