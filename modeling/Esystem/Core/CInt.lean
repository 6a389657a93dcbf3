import Mathlib.Data.BitVec

/-!
# C integers

`int` is 32 bits, `size_t` and `ssize_t` are 64 bits, signed integers are two's
complement, and signed arithmetic wraps (the kernel is built that way). Mixing
an `int` with a `size_t` first converts the `int` to `size_t` by sign extension;
assigning a `size_t` to an `int` keeps its low 32 bits.
-/

namespace Esystem

/-- C's `int`. -/
abbrev CInt := BitVec 32

/-- C's `char`, which is signed on some machines and unsigned on others. -/
abbrev CChar := BitVec 8

/-- C's `size_t`, and the bits of an `ssize_t`. -/
abbrev SizeT := BitVec 64

/-- The largest count that the VFS passes to a driver, `MAX_RW_COUNT`. -/
def maxRwCount : Nat := 0x7ffff000

/-- The implicit conversion of an `int` to `size_t`. -/
def toSize (x : CInt) : SizeT := x.signExtend 64

/-- The implicit conversion of a `size_t` to `int`. -/
def toCInt (x : SizeT) : CInt := x.setWidth 32

/-- The implicit conversion of an `int` to `char`. -/
def toCChar (x : CInt) : CChar := x.setWidth 8

/-- The implicit conversion of a `char` to `int`. -/
def ofCChar (signed : Bool) (x : CChar) : CInt :=
  if signed then x.signExtend 32 else x.setWidth 32

/-- A `char` of this signedness holds the non-negative numbers below this one. -/
def charBound (signed : Bool) : Nat := if signed then 128 else 256

/-- The value of a non-negative `int`. -/
theorem toInt_ofNat {n : Nat} (h : n < 2 ^ 31) : (BitVec.ofNat 32 n).toInt = n := by
  rw [BitVec.toInt_eq_toNat_cond, BitVec.toNat_ofNat]
  have hmod : n % 2 ^ 32 = n := Nat.mod_eq_of_lt (by omega)
  rw [hmod, if_pos (by omega)]

/-- A non-negative `int` keeps its value as a `size_t`. -/
theorem toSize_ofNat {n : Nat} (h : n < 2 ^ 31) :
    toSize (BitVec.ofNat 32 n) = BitVec.ofNat 64 n := by
  have hmsb : (BitVec.ofNat 32 n).msb = false := by
    rw [BitVec.msb_eq_decide]
    simp only [BitVec.toNat_ofNat, decide_eq_false_iff_not, Nat.not_le]
    omega
  rw [toSize, BitVec.signExtend_eq_setWidth_of_msb_false hmsb]
  apply BitVec.eq_of_toNat_eq
  simp only [BitVec.toNat_setWidth, BitVec.toNat_ofNat]
  omega

/-- Narrowing keeps the value modulo `2 ^ 32`. -/
theorem toCInt_ofNat (n : Nat) : toCInt (BitVec.ofNat 64 n) = BitVec.ofNat 32 n := by
  apply BitVec.eq_of_toNat_eq
  simp only [toCInt, BitVec.toNat_setWidth, BitVec.toNat_ofNat]
  omega

/-- `int += size_t` with values that stay in range is addition. -/
theorem toCInt_toSize_add {m n : Nat} (hm : m < 2 ^ 31) :
    toCInt (toSize (BitVec.ofNat 32 m) + BitVec.ofNat 64 n) = BitVec.ofNat 32 (m + n) := by
  rw [toSize_ofNat hm, ← BitVec.ofNat_add, toCInt_ofNat]

/-- A non-negative `int` survives the way through a `char` iff it fits. -/
theorem ofCChar_toCChar_iff (signed : Bool) {n : Nat} (h : n < 2 ^ 31) :
    ofCChar signed (toCChar (BitVec.ofNat 32 n)) = BitVec.ofNat 32 n ↔ n < charBound signed := by
  have hchar : toCChar (BitVec.ofNat 32 n) = BitVec.ofNat 8 n := by
    apply BitVec.eq_of_toNat_eq
    simp only [toCChar, BitVec.toNat_setWidth, BitVec.toNat_ofNat]
    omega
  rw [hchar]
  cases signed with
  | false =>
    rw [← BitVec.toNat_inj]
    simp only [ofCChar, charBound, Bool.false_eq_true, if_false, BitVec.toNat_setWidth,
      BitVec.toNat_ofNat]
    omega
  | true =>
    rw [← BitVec.toInt_inj, toInt_ofNat h]
    simp only [ofCChar, charBound, if_true]
    rw [BitVec.toInt_signExtend_of_le (by decide), BitVec.toInt_eq_toNat_cond, BitVec.toNat_ofNat]
    split
    · omega
    · omega

/-- `int` counts modulo `2 ^ 32`, which keeps what is odd odd: `x % 2 == 0`, where
the remainder may be negative. -/
theorem srem_two_eq_zero_iff (n : Nat) : (BitVec.ofNat 32 n).srem 2 = 0 ↔ n % 2 = 0 := by
  have htwo : (2 : CInt).toInt = 2 := rfl
  have hzero : (0 : CInt).toInt = 0 := rfl
  rw [← BitVec.toInt_inj, BitVec.toInt_srem, htwo, hzero,
    ← Int.dvd_iff_tmod_eq_zero, BitVec.toInt_eq_toNat_cond, BitVec.toNat_ofNat]
  split
  · omega
  · omega

theorem toNat_ofNat_size {n : Nat} (h : n < 2 ^ 64) : (BitVec.ofNat 64 n).toNat = n := by
  rw [BitVec.toNat_ofNat]
  exact Nat.mod_eq_of_lt h

end Esystem
