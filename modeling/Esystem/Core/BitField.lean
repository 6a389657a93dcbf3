import Mathlib.Data.BitVec

/-!
# Bit fields in a word

The bits `off, …, off + n - 1` of a word are read with `extractLsb'`. They are
written by clearing them with a mask and then setting them (`setField`), which
changes these bits and no others, so the fields that lie apart from them keep
what they hold.
-/

namespace Esystem

variable {w n k off off' : Nat}

/-- `x &= ~(mask << off); x |= (v << off);`, with a mask of `n` ones. -/
def setField (x : BitVec w) (off : Nat) (v : BitVec n) : BitVec w :=
  (x &&& ~~~((BitVec.allOnes n).setWidth w <<< off)) ||| (v.setWidth w <<< off)

/-- The bits of the field are those of the value, and the others are as before. -/
theorem getLsbD_setField (x : BitVec w) (off : Nat) (v : BitVec n) {i : Nat} (hi : i < w) :
    (setField x off v).getLsbD i
      = if off ≤ i ∧ i < off + n then v.getLsbD (i - off) else x.getLsbD i := by
  unfold setField
  simp only [BitVec.getLsbD_or, BitVec.getLsbD_and, BitVec.getLsbD_not, BitVec.getLsbD_shiftLeft,
    BitVec.getLsbD_setWidth, BitVec.getLsbD_allOnes, hi, show i - off < w by omega, decide_true,
    Bool.true_and]
  by_cases hlow : i < off
  · rw [if_neg (by omega)]
    simp [hlow]
  · by_cases hhigh : i < off + n
    · rw [if_pos ⟨by omega, hhigh⟩]
      simp [hlow, show i - off < n by omega]
    · rw [if_neg (by omega), BitVec.getLsbD_of_ge v (i - off) (by omega)]
      simp [show ¬ i - off < n by omega]

/-- The field holds what was written to it. -/
theorem extractLsb'_setField_self (x : BitVec w) (v : BitVec n) (h : off + n ≤ w) :
    (setField x off v).extractLsb' off n = v := by
  apply BitVec.eq_of_getLsbD_eq
  intro i hi
  rw [BitVec.getLsbD_extractLsb', getLsbD_setField x off v (by omega),
    if_pos ⟨by omega, by omega⟩, Nat.add_sub_cancel_left]
  simp [hi]

/-- A field that lies apart keeps what it holds. -/
theorem extractLsb'_setField_of_apart (x : BitVec w) (v : BitVec n) (hk : off' + k ≤ w)
    (hapart : off' + k ≤ off ∨ off + n ≤ off') :
    (setField x off v).extractLsb' off' k = x.extractLsb' off' k := by
  apply BitVec.eq_of_getLsbD_eq
  intro i hi
  rw [BitVec.getLsbD_extractLsb', BitVec.getLsbD_extractLsb',
    getLsbD_setField x off v (by omega), if_neg (by omega)]

end Esystem
