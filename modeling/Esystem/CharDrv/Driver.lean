import Esystem.Core.CInt
import Esystem.Core.Memory

/-!
# The character driver

char_drv.c keeps a buffer of `DRV_MAX_LENGTH` bytes and two `int` offsets into
it. `drv_read` and `drv_write` are modelled statement by statement, with the
conversions between `int` and `size_t` that C makes; each statement that other
callers can come between has a definition of its own.

`copy_to_user` and `copy_from_user` can leave the last `uncopied` bytes of a
request uncopied (and then zero-fill a kernel buffer). The driver ignores what
they return.
-/

namespace Esystem.CharDrv

/-- `#define DRV_MAX_LENGTH 4096`. -/
def drvMaxLength : CInt := 4096

/-- The variables of the driver; `drvData` is the memory around the pointer of
that name. -/
@[ext]
structure Driver where
  drvData : Memory UInt8
  drvReadOffset : CInt
  drvWriteOffset : CInt

/-- `drv_init` with a successful `kmalloc`, whose memory holds anything. -/
def drvInit (kmalloc : Memory UInt8) : Driver := ⟨kmalloc, 0, 0⟩

namespace Driver

/-- `drv_write_offset - drv_read_offset`. -/
def unread (s : Driver) : CInt := s.drvWriteOffset - s.drvReadOffset

/-- `(drv_write_offset - drv_read_offset) <= 0`. -/
def nothingUnread (s : Driver) : Prop := s.unread.toInt ≤ 0

instance (s : Driver) : Decidable s.nothingUnread := inferInstanceAs (Decidable (_ ≤ _))

/-- `MIN((drv_write_offset - drv_read_offset), count)`; the comparison is one of
`size_t`. -/
def minCount (s : Driver) (count : SizeT) : SizeT :=
  if toSize s.unread < count then toSize s.unread else count

/-- `copy_to_user(buf, drv_data + drv_read_offset, count)`: the bytes that
arrive. -/
def copyToUser (s : Driver) (count : SizeT) (uncopied : Nat) : List UInt8 :=
  s.drvData.load s.drvReadOffset.toInt (count.toNat - uncopied)

/-- `count + drv_write_offset >= DRV_MAX_LENGTH`, a comparison of `size_t`. -/
def refuses (s : Driver) (count : SizeT) : Prop :=
  toSize drvMaxLength ≤ count + toSize s.drvWriteOffset

instance (s : Driver) (count : SizeT) : Decidable (s.refuses count) :=
  inferInstanceAs (Decidable (_ ≤ _))

/-- `copy_from_user(drv_data + drv_write_offset, buf, count)`. -/
def copyFromUser (s : Driver) (buf : List UInt8) (uncopied : Nat) : Driver :=
  let copied := buf.take (buf.length - uncopied) ++ List.replicate uncopied 0
  { s with drvData := s.drvData.store s.drvWriteOffset.toInt copied }

/-- `drv_read_offset += count`. -/
def advanceRead (s : Driver) (count : SizeT) : Driver :=
  { s with drvReadOffset := toCInt (toSize s.drvReadOffset + count) }

/-- `drv_write_offset += count`. -/
def advanceWrite (s : Driver) (count : SizeT) : Driver :=
  { s with drvWriteOffset := toCInt (toSize s.drvWriteOffset + count) }

end Driver

/-- What a call does: its return value, the bytes that arrive in the user's
buffer, the indices of `drv_data` it copies from or to, and the driver after it. -/
structure Outcome where
  ret : SizeT
  data : List UInt8
  touched : List Int
  drv : Driver

/-- `drv_read`. -/
def drvRead (count : SizeT) (uncopied : Nat) (s : Driver) : Outcome :=
  if s.nothingUnread then ⟨0, [], [], s⟩
  else
    let count := s.minCount count
    { ret := count
      data := s.copyToUser count uncopied
      touched := Memory.span s.drvReadOffset.toInt count.toNat
      drv := s.advanceRead count }

/-- `drv_write` of the bytes `buf`. -/
def drvWrite (buf : List UInt8) (uncopied : Nat) (s : Driver) : Outcome :=
  let count : SizeT := BitVec.ofNat 64 buf.length
  if s.refuses count then ⟨0, [], [], s⟩
  else
    { ret := count
      data := []
      touched := Memory.span s.drvWriteOffset.toInt count.toNat
      drv := (s.copyFromUser buf uncopied).advanceWrite count }

/-! ## The statements on offsets in range -/

namespace Driver

variable {s : Driver} {r w n : Nat}

/-- The offsets are `r ≤ w`, and `w` is below `DRV_MAX_LENGTH`. -/
structure At (s : Driver) (r w : Nat) : Prop where
  read : s.drvReadOffset = BitVec.ofNat 32 r
  write : s.drvWriteOffset = BitVec.ofNat 32 w
  le : r ≤ w
  lt : w < 4096

theorem At.readOffset (h : s.At r w) : s.drvReadOffset.toInt = r := by
  rw [h.read]
  exact toInt_ofNat (by have := h.le; have := h.lt; omega)

theorem At.writeOffset (h : s.At r w) : s.drvWriteOffset.toInt = w := by
  rw [h.write]
  exact toInt_ofNat (by have := h.lt; omega)

theorem At.unread_eq (h : s.At r w) : s.unread = BitVec.ofNat 32 (w - r) := by
  have hle := h.le
  have hlt := h.lt
  rw [unread, h.read, h.write]
  apply BitVec.eq_of_toNat_eq
  simp only [BitVec.toNat_sub, BitVec.toNat_ofNat]
  omega

theorem At.nothingUnread_iff (h : s.At r w) : s.nothingUnread ↔ w = r := by
  have hle := h.le
  have hlt := h.lt
  rw [nothingUnread, h.unread_eq, toInt_ofNat (by omega)]
  omega

/-- `MIN` is the smaller of the two numbers. -/
theorem At.minCount_eq (h : s.At r w) (hn : n ≤ maxRwCount) :
    s.minCount (BitVec.ofNat 64 n) = BitVec.ofNat 64 (min n (w - r)) := by
  have hlt := h.lt
  rw [minCount, h.unread_eq, toSize_ofNat (by omega)]
  have hcmp : BitVec.ofNat 64 (w - r) < BitVec.ofNat 64 n ↔ w - r < n := by
    rw [BitVec.lt_def, toNat_ofNat_size (by omega),
      toNat_ofNat_size (by simp only [maxRwCount] at hn; omega)]
  by_cases hs : w - r < n
  · rw [if_pos (hcmp.mpr hs), Nat.min_eq_right (Nat.le_of_lt hs)]
  · rw [if_neg (mt hcmp.mp hs), Nat.min_eq_left (Nat.le_of_not_lt hs)]

/-- The guard of `drv_write` refuses what does not fit below the last byte. -/
theorem At.refuses_iff (h : s.At r w) (hn : n ≤ maxRwCount) :
    s.refuses (BitVec.ofNat 64 n) ↔ 4096 ≤ n + w := by
  have hlt := h.lt
  simp only [maxRwCount] at hn
  rw [refuses, h.write, toSize_ofNat (by omega), ← BitVec.ofNat_add, BitVec.le_def,
    toNat_ofNat_size (by omega)]
  rfl

theorem At.advanceRead (h : s.At r w) (hn : n ≤ w - r) :
    (s.advanceRead (BitVec.ofNat 64 n)).At (r + n) w where
  read := by
    have hle := h.le
    have hlt := h.lt
    show toCInt (toSize s.drvReadOffset + BitVec.ofNat 64 n) = _
    rw [h.read, toCInt_toSize_add (by omega)]
  write := h.write
  le := by
    have hle := h.le
    omega
  lt := h.lt

theorem At.advanceWrite (h : s.At r w) (hn : n + w < 4096) :
    (s.advanceWrite (BitVec.ofNat 64 n)).At r (w + n) where
  read := h.read
  write := by
    show toCInt (toSize s.drvWriteOffset + BitVec.ofNat 64 n) = _
    rw [h.write, toCInt_toSize_add (by omega)]
  le := Nat.le_add_right_of_le h.le
  lt := by omega

theorem at_drvInit (kmalloc : Memory UInt8) : (drvInit kmalloc).At 0 0 where
  read := rfl
  write := rfl
  le := Nat.le_refl _
  lt := by decide

end Driver

end Esystem.CharDrv
