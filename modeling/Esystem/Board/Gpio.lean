import Mathlib.Data.BitVec
import Mathlib.Logic.Function.Basic

/-!
# The GPIO block of the BCM2711

Two views of the same pins are used by the drivers:

- the memory-mapped registers (`writel` and `readl` at an offset from
  `gpio_base`): writing a word to `GPSET0` raises, and writing it to `GPCLR0`
  lowers, exactly the pins whose bit is 1; the `GPFSEL` registers hold three
  bits of function selection for each pin;
- gpiolib (`gpio_set_value`, `gpio_get_value`, `gpio_direction_output`), which
  drives one pin to a level.
-/

namespace Esystem

/-- The pins and the function selection registers. -/
structure Gpio where
  gpfsel : Nat → BitVec 32
  level : Nat → Bool

/-! The offsets of the two output registers in the block, and the names the
drivers give them. -/

def gpset0 : Nat := 0x1C

def gpclr0 : Nat := 0x28

def gpioSetOffset18 : Nat := 0x1C

def gpioClrOffset18 : Nat := 0x28

def gpioSelOffset18 : Nat := 0x04

def gpioSetOffset23 : Nat := 0x1C

def gpioClrOffset23 : Nat := 0x28

def gpioSelOffset23 : Nat := 0x08

def gpioSelOffset25 : Nat := 0x08

namespace Gpio

/-- `writel(value, gpio_base + offset)`. Besides `GPSET0` and `GPCLR0` the
drivers write only to the `GPFSEL` registers, the six words from offset 0. -/
def writel (value : BitVec 32) (offset : Nat) (g : Gpio) : Gpio :=
  if offset = gpset0 then
    { g with level := fun p => g.level p || value.getLsbD p }
  else if offset = gpclr0 then
    { g with level := fun p => g.level p && !value.getLsbD p }
  else if offset < 0x18 then
    { g with gpfsel := Function.update g.gpfsel (offset / 4) value }
  else g

/-- `readl(gpio_base + offset)` of a `GPFSEL` register. -/
def readl (offset : Nat) (g : Gpio) : BitVec 32 :=
  g.gpfsel (offset / 4)

/-- `sel_val = readl(…); sel_val &= ~(7 << shift); sel_val |= (1 << shift);
writel(sel_val, …)` makes the pin at `shift` of a `GPFSEL` register an output. -/
def selectOutput (offset shift : Nat) (g : Gpio) : Gpio :=
  g.writel ((g.readl offset &&& ~~~(7#32 <<< shift)) ||| (1#32 <<< shift)) offset

/-- The update with `sel_val |= (0 << shift);` makes the pin an input. -/
def selectInput (offset shift : Nat) (g : Gpio) : Gpio :=
  g.writel ((g.readl offset &&& ~~~(7#32 <<< shift)) ||| (0#32 <<< shift)) offset

/-- `gpio_set_value(pin, v)`. -/
def setValue (pin : Nat) (v : Bool) (g : Gpio) : Gpio :=
  { g with level := Function.update g.level pin v }

/-- `gpio_direction_output(pin, v)`. -/
def directionOutput (pin : Nat) (v : Bool) (g : Gpio) : Gpio :=
  (g.selectOutput (4 * (pin / 10)) (3 * (pin % 10))).setValue pin v

/-- `gpio_get_value(pin)` of an output pin. -/
def getValue (pin : Nat) (g : Gpio) : Bool :=
  g.level pin

end Gpio

/-- The word `1 << n`. -/
def bit (n : Nat) : BitVec 32 := 1#32 <<< n

/-- `1 << n` has exactly bit `n`. -/
theorem getLsbD_bit {n : Nat} (hn : n < 32) (p : Nat) :
    (bit n).getLsbD p = decide (p = n) := by
  rw [bit, BitVec.getLsbD_shiftLeft, BitVec.getLsbD_one]
  by_cases hp : p = n
  · subst hp
    simp [hn]
  · simp only [hp, decide_false]
    by_cases hlt : p < n
    · simp [hlt]
    · have hne : p - n ≠ 0 := by omega
      simp [hne]

namespace Gpio

/-- Writing `1 << n` to `GPSET0` raises pin `n` and no other. -/
theorem level_writel_set {n : Nat} (hn : n < 32) (g : Gpio) :
    (g.writel (bit n) gpset0).level = Function.update g.level n true := by
  funext p
  show (g.level p || (bit n).getLsbD p) = _
  rw [getLsbD_bit hn]
  by_cases hp : p = n
  · subst hp
    simp
  · simp [hp]

/-- Writing `1 << n` to `GPCLR0` lowers pin `n` and no other. -/
theorem level_writel_clr {n : Nat} (hn : n < 32) (g : Gpio) :
    (g.writel (bit n) gpclr0).level = Function.update g.level n false := by
  funext p
  show (g.level p && !(bit n).getLsbD p) = _
  rw [getLsbD_bit hn]
  by_cases hp : p = n
  · subst hp
    simp
  · simp [hp]

/-- Writing `1 << n` to `GPSET0` is driving pin `n` high. -/
theorem writel_set {n : Nat} (hn : n < 32) (g : Gpio) :
    g.writel (bit n) gpset0 = g.setValue n true :=
  congrArg (fun level => { g with level := level }) (level_writel_set hn g)

/-- Writing `1 << n` to `GPCLR0` is driving pin `n` low. -/
theorem writel_clr {n : Nat} (hn : n < 32) (g : Gpio) :
    g.writel (bit n) gpclr0 = g.setValue n false :=
  congrArg (fun level => { g with level := level }) (level_writel_clr hn g)

/-- A pin has the level that it is driven to. -/
theorem getValue_setValue_self (g : Gpio) (p : Nat) (v : Bool) :
    (g.setValue p v).getValue p = v := Function.update_self _ _ _

/-- The other pins keep their levels. -/
theorem getValue_setValue_of_ne {p q : Nat} (h : p ≠ q) (g : Gpio) (v : Bool) :
    (g.setValue q v).getValue p = g.getValue p := Function.update_of_ne h _ _

/-- Only `GPSET0` and `GPCLR0` change levels. -/
theorem level_writel_other {value : BitVec 32} {offset : Nat} (hs : offset ≠ gpset0)
    (hc : offset ≠ gpclr0) (g : Gpio) : (g.writel value offset).level = g.level := by
  unfold writel
  rw [if_neg hs, if_neg hc]
  split
  · rfl
  · rfl

/-- Function selection changes no level. -/
theorem level_selectOutput {offset : Nat} (hs : offset ≠ gpset0) (hc : offset ≠ gpclr0)
    (shift : Nat) (g : Gpio) : (g.selectOutput offset shift).level = g.level :=
  level_writel_other hs hc g

end Gpio

end Esystem
