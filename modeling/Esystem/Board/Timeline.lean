import Esystem.Board.Gpio

/-!
# What can be seen of the pins

A board with a record of what an observer of its pins sees: the levels after
each access of a driver to the GPIO block, and the delays in between.
-/

namespace Esystem

/-- The levels of all pins after an access, or a delay. -/
inductive Seen where
  | levels (level : Nat → Bool)
  | mdelay (ms : Nat)

/-- The GPIO block, and what has been seen of it, oldest first. -/
structure Board where
  gpio : Gpio
  seen : List Seen

namespace Board

/-- A driver accesses the GPIO block. -/
def access (f : Gpio → Gpio) (b : Board) : Board where
  gpio := f b.gpio
  seen := b.seen ++ [.levels (f b.gpio).level]

/-- `gpio_set_value(pin, v)`. -/
def gpioSetValue (pin : Nat) (v : Bool) (b : Board) : Board := b.access (Gpio.setValue pin v)

/-- `writel(value, gpio_base + offset)`. -/
def writel (value : BitVec 32) (offset : Nat) (b : Board) : Board :=
  b.access (Gpio.writel value offset)

/-- `mdelay(ms)`. -/
def mdelay (ms : Nat) (b : Board) : Board := { b with seen := b.seen ++ [.mdelay ms] }

end Board

end Esystem
